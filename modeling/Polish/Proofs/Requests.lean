import Polish.CommandLine

/-!
Requests in any order. A request that is granted gives the expression, gives a variable its value or
asks for the drawing, and the others find it so. Main statement: `settle_of_fits`, if each request can
be granted and none but quiet comes twice, then what they come to is told by what is among them.

    settings ── request granted ──▶ settings ── … ──▶ a job
        └────── refused, or asked for before ──▶ rejected
-/

namespace Polish.CommandLine

namespace Request

/-- The expression that a request gives. -/
def text? : Request → Option (List Char)
  | expression text => some text
  | _ => none

/-- The variable that a request is about. -/
def assigned? : Request → Option Variable
  | assign v _ => some v
  | _ => none

/-- The value that a request gives a variable. -/
def value? (v : Variable) : Request → Option Float
  | assign w text => if w = v then Decimal.read? (String.ofList text) else none
  | _ => none

/-- A request that can be granted if it comes once. -/
inductive Sound : Request → Prop where
  | expression (text : List Char) : Sound (expression text)
  | assign {text : List Char} {value : Float} (v : Variable)
      (reads : Decimal.read? (String.ofList text) = some value) : Sound (assign v text)
  | drawing : Sound drawing
  | quiet : Sound quiet

end Request

theorem Request.value?_eq_none {r : Request} {v : Variable} (h : r.assigned? ≠ some v) :
    r.value? v = none := by
  cases r with
  | assign w text => exact if_neg fun he => h (congrArg some he)
  | _ => rfl

/-- The point that given values make: zero for a variable without one. -/
def pointAt (value : Variable → Option Float) : Point :=
  ⟨(value .x).getD 0, (value .y).getD 0, (value .z).getD 0⟩

namespace Settings

theorem point_eq (s : Settings) : s.point = pointAt fun v => s.values.lookup v := rfl

/-- The settings after a request that has been granted. -/
def grant (s : Settings) : Request → Settings
  | .expression text => { s with expression := some text }
  | .assign v text =>
    match Decimal.read? (String.ofList text) with
    | some value => { s with values := (v, value) :: s.values }
    | none => s
  | .drawing => { s with drawing := true }
  | _ => s

variable (s : Settings) (r : Request)

theorem expression_grant : (s.grant r).expression = r.text?.or s.expression := by
  cases r with
  | assign v text => cases h : Decimal.read? (String.ofList text) <;> simp [grant, h, Request.text?]
  | _ => rfl

theorem drawing_grant : (s.grant r).drawing = (s.drawing || .drawing == r) := by
  cases r with
  | assign v text => cases h : Decimal.read? (String.ofList text) <;> simp [grant, h]
  | _ => simp [grant]

/-- A variable keeps its value, and one without a value gets the one that is requested for it. -/
theorem lookup_grant (v : Variable) (hfresh : r.assigned? = some v → s.values.lookup v = none) :
    (s.grant r).values.lookup v = (s.values.lookup v).or (r.value? v) := by
  cases r with
  | assign w text =>
    by_cases hw : w = v
    · subst hw
      have hnone := hfresh rfl
      cases h : Decimal.read? (String.ofList text) <;>
        simp [grant, h, hnone, Request.value?]
    · have hne : (v == w) = false := beq_false_of_ne fun he => hw he.symm
      cases h : Decimal.read? (String.ofList text) <;>
        simp [grant, h, List.lookup_cons, hne, Request.value?, hw]
  | _ => exact (Option.or_none).symm

end Settings

/-- After what has been requested so far, the requests to come can all be granted, and one expression
is given in all. -/
structure Fits (s : Settings) (rs : List Request) (text : List Char) : Prop where
  sound : ∀ r ∈ rs, r.Sound
  text : s.expression.toList ++ rs.filterMap Request.text? = [text]
  nodup : (rs.filterMap Request.assigned?).Nodup
  fresh : ∀ v ∈ rs.filterMap Request.assigned?, s.values.lookup v = none
  drawing : s.drawing.toNat + rs.count .drawing ≤ 1

namespace Fits

variable {s : Settings} {r : Request} {rs : List Request} {text : List Char}

theorem lookup_eq_none (h : Fits s (r :: rs) text) {v : Variable} (hv : r.assigned? = some v) :
    s.values.lookup v = none :=
  h.fresh v (List.mem_filterMap.2 ⟨r, List.mem_cons_self, hv⟩)

theorem drawing_eq_false (h : Fits s (.drawing :: rs) text) : s.drawing = false := by
  have hdrawing := h.drawing
  rw [List.count_cons_self] at hdrawing
  exact Bool.toNat_eq_zero.1 (by omega)

/-- A request that fits is granted. -/
theorem settle_cons (h : Fits s (r :: rs) text) : settle s (r :: rs) = settle (s.grant r) rs := by
  have hr := h.sound r List.mem_cons_self
  cases hr with
  | expression t =>
    have hnone : s.expression = none := by
      have htext := h.text
      cases hs : s.expression with
      | none => rfl
      | some t' => simp [hs, Request.text?] at htext
    simp [settle, hnone, Settings.grant]
  | assign v reads => simp [settle, h.lookup_eq_none rfl, reads, Settings.grant]
  | drawing => simp [settle, h.drawing_eq_false, Settings.grant]
  | quiet => simp [settle, Settings.grant]

/-- The requests behind one that is granted still fit. -/
theorem grant (h : Fits s (r :: rs) text) : Fits (s.grant r) rs text where
  sound := (List.forall_mem_cons.1 h.sound).2
  text := by
    have htext := h.text
    rw [s.expression_grant]
    cases hr : r.text? with
    | none => rwa [List.filterMap_cons_none hr] at htext
    | some t =>
      rw [List.filterMap_cons_some hr] at htext
      cases hs : s.expression with
      | none => simpa [hs] using htext
      | some t' => simp [hs] at htext
  nodup := h.nodup.sublist ((List.sublist_cons_self r rs).filterMap _)
  fresh := by
    intro v hv
    have hmem : v ∈ (r :: rs).filterMap Request.assigned? :=
      ((List.sublist_cons_self r rs).filterMap _).subset hv
    have hr : r.assigned? ≠ some v := by
      intro hr
      have hnodup := h.nodup
      rw [List.filterMap_cons_some hr] at hnodup
      exact (List.nodup_cons.1 hnodup).1 hv
    rw [s.lookup_grant r v fun _ => h.fresh v hmem, h.fresh v hmem, Request.value?_eq_none hr]
    rfl
  drawing := by
    have hdrawing := h.drawing
    rw [s.drawing_grant]
    by_cases hr : r = .drawing
    · subst hr
      rw [List.count_cons_self] at hdrawing
      simpa [h.drawing_eq_false, Nat.add_comm] using hdrawing
    · have hne : ((.drawing : Request) == r) = false := beq_false_of_ne fun he => hr he.symm
      rw [List.count_cons_of_ne hr] at hdrawing
      rwa [hne, Bool.or_false]

end Fits

/-- Requests that fit come to a job, and in what order they come does not show in it. -/
theorem settle_of_fits {text : List Char} : (rs : List Request) → ∀ {s : Settings}, Fits s rs text →
    settle s rs = .job ⟨String.ofList text,
      pointAt fun v => (s.values.lookup v).or (rs.findSome? (Request.value? v)),
      s.drawing || rs.contains .drawing⟩
  | [], s, h => by
    have hs : s.expression = some text := by
      have htext := h.text
      rwa [List.filterMap_nil, List.append_nil, Option.toList_eq_singleton_iff] at htext
    simp [settle, hs, s.point_eq]
  | r :: rs, s, h => by
    have hvalue : ∀ v, ((s.grant r).values.lookup v).or (rs.findSome? (Request.value? v)) =
        (s.values.lookup v).or ((r :: rs).findSome? (Request.value? v)) := by
      intro v
      rw [s.lookup_grant r v h.lookup_eq_none, Option.or_assoc, List.findSome?_cons]
      cases r.value? v <;> rfl
    rw [h.settle_cons, settle_of_fits rs h.grant, s.drawing_grant, List.contains_cons,
      Bool.or_assoc]
    simp only [hvalue]

end Polish.CommandLine
