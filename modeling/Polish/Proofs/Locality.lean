import Polish.Proofs.Stops
import Polish.Proofs.Transitions

/-!
Faults inside an operand. The machine reads an operand in the same way whatever operations are open
around it, and so a token that spoils the operand by itself spoils every text that has the operand
where one may stand. Main statement: `fault_in_operand`, in such a text the cause is the same, and its
place is moved by what stands in front of the operand.

    s:                      (max 1)            unknown operation at 4
    pre ++ " " ++ s ++ …:   (+ 2 (max 1) …     unknown operation at 5 + 4
-/

namespace Polish

open Text

namespace Machine

/-! ### Open operations around -/

/-- The state with further operations open around all that is open. -/
def State.under (outer : List Pending) : State → State
  | .start => seeking outer
  | .begun opened => .begun (opened ++ outer)
  | .within p opened => .within p (opened ++ outer)
  | .complete e => .place e outer

variable {outer : List Pending} {state state' : State} {t : Token} {cause : ParseError.Cause}

theorem under_seeking (opened : List Pending) :
    (seeking opened).under outer = seeking (opened ++ outer) := by
  cases opened <;> rfl

theorem under_place (e : Expr) (opened : List Pending) :
    (State.place e opened).under outer = .place e (opened ++ outer) := by
  cases opened <;> rfl

/-- There is room for an operand if there is room inside, or nothing is open there and there is room
outside. -/
theorem Hungry.append {opened : List Pending} (h : Hungry opened) (room : Hungry outer) :
    Hungry (opened ++ outer) := by
  cases opened with
  | nil => exact room
  | cons p opened => exact hungry_cons.2 (hungry_cons.1 h)

theorem Moves.under (h : Moves state t state') (room : Hungry outer) :
    Moves (state.under outer) t (state'.under outer) := by
  cases h with
  | opening inside =>
    rw [under_seeking]
    exact .opening (inside.append room)
  | leaf inside single =>
    rw [under_seeking, under_place]
    exact .leaf (inside.append room) single
  | operator symbol => exact .operator symbol
  | closing filled =>
    rw [under_place]
    exact .closing filled

theorem run_under (room : Hungry outer) {ts : List Token} (h : run state ts = .ok state') :
    run (state.under outer) ts = .ok (state'.under outer) := by
  induction ts generalizing state with
  | nil =>
    cases h
    rfl
  | cons t ts ih =>
    obtain ⟨next, hstep, hrest⟩ := run_cons_eq_ok.1 h
    exact run_cons_eq_ok.2 ⟨_, ((step_eq_ok.1 hstep).under room).step, ih hrest⟩

end Machine

/-- `cause.Inside`: the cause lies in the operand that is read, whatever stands around it. -/
def ParseError.Cause.Inside : ParseError.Cause → Prop
  | unknownOperation _ | unknownSymbol _ | invalidInteger _ | noArguments _ => True
  | incorrectOperatorCall => True
  | _ => False

namespace Machine

variable {outer : List Pending} {state : State} {t : Token} {cause : ParseError.Cause}

theorem Refuses.under (h : Refuses state t cause) (room : Hungry outer) (hcause : cause.Inside) :
    Refuses (state.under outer) t cause := by
  cases h with
  | stray => exact hcause.elim
  | ended inside => exact hcause.elim
  | symbol inside text =>
    rw [under_seeking]
    exact .symbol (inside.append room) text
  | integer inside none =>
    rw [under_seeking]
    exact .integer (inside.append room) none
  | operation none => exact .operation none
  | lacking opened lacks => exact .lacking (opened ++ outer) lacks
  | full opened sated goesOn => exact .full (opened ++ outer) sated goesOn
  | trailing e t => exact hcause.elim

theorem not_inside_of_finish (h : finish state = .error cause) : ¬cause.Inside := by
  rcases Expr.cause_of_finish h with rfl | rfl | ⟨o, rfl⟩ <;> exact id

/-- What has been taken was taken in two parts. -/
theorem exists_run_of_append {state state' : State} {ts us : List Token}
    (h : run state (ts ++ us) = .ok state') :
    ∃ mid, run state ts = .ok mid ∧ run mid us = .ok state' := by
  rw [run_append] at h
  cases hts : run state ts with
  | error cause =>
    rw [hts] at h
    cases h
  | ok mid =>
    rw [hts] at h
    exact ⟨mid, rfl, h⟩

/-- A variable is taken where an operand may stand, and nowhere else. -/
theorem exists_seeking_of_step {state' : State} {v : Variable} (h : step state (.var v) = .ok state') :
    ∃ opened, state = seeking opened ∧ Hungry opened := by
  cases step_eq_ok.1 h with
  | leaf room single => exact ⟨_, rfl, room⟩
  | operator symbol =>
    have hnone : Operator.ofSymbol? (Token.var v).text = none := by cases v <;> decide
    rw [hnone] at symbol
    cases symbol

end Machine

/-! ### An operand in its place -/

namespace Text

theorem rdropWhile_of_not_gap {cs : List Char} (h : ¬Gap cs) :
    cs.rdropWhile isBlank = cs.takeWhile isBlank ++ trim cs := by
  have hrest : ¬Gap (cs.dropWhile isBlank) := fun hgap => h (trim_eq_nil.1 (by
    rw [trim_eq, List.rdropWhile_eq_nil_iff.2 hgap]))
  calc cs.rdropWhile isBlank
      = (cs.takeWhile isBlank ++ cs.dropWhile isBlank).rdropWhile isBlank := by
        rw [List.takeWhile_append_dropWhile]
    _ = cs.takeWhile isBlank ++ trim cs := by
        rw [rdropWhile_append_of_not_gap _ hrest, trim_eq]

theorem trim_append_of_not_gap {cs ds : List Char} (hcs : ¬Gap cs) (hds : ¬Gap ds) :
    trim (cs ++ ds) = cs.dropWhile isBlank ++ (ds.takeWhile isBlank ++ trim ds) := by
  have hdrop : (cs.dropWhile isBlank).isEmpty = false := by
    rw [List.isEmpty_eq_false_iff]
    intro hnil
    exact hcs (List.dropWhile_eq_nil_iff.1 hnil)
  rw [trim_eq, List.dropWhile_append, hdrop, if_neg (by decide), rdropWhile_append_of_not_gap _ hds,
    rdropWhile_of_not_gap hds]

/-- What stands in front of an operand in a trimmed text: the text in front without the blanks at its
start, a space, and the blanks of the operand itself. -/
def leadIn (pre s : String) : List Char :=
  pre.toList.dropWhile isBlank ++ ' ' :: s.toList.takeWhile isBlank

theorem tokensOf_leadIn (pre s : String) : tokensOf (leadIn pre s) = tokensOf pre.toList := by
  have hgap : Gap (' ' :: s.toList.takeWhile isBlank) :=
    List.forall_mem_cons.2 ⟨rfl, fun _ => List.mem_takeWhile_imp⟩
  have hfront : Gap (pre.toList.takeWhile isBlank) := fun _ => List.mem_takeWhile_imp
  calc tokensOf (leadIn pre s)
      = tokensOf (pre.toList.dropWhile isBlank) := by
        rw [leadIn, tokensOf_append (.inl hgap.ending), tokensOf_of_gap hgap, List.append_nil]
    _ = tokensOf (pre.toList.takeWhile isBlank ++ pre.toList.dropWhile isBlank) :=
        (tokensOf_gap hfront _).symm
    _ = tokensOf pre.toList := by rw [List.takeWhile_append_dropWhile]

theorem apart_leadIn (pre s : String) (cs : List Char) : Apart (leadIn pre s) cs := by
  have hgap : Gap (' ' :: s.toList.takeWhile isBlank) :=
    List.forall_mem_cons.2 ⟨rfl, fun _ => List.mem_takeWhile_imp⟩
  exact Apart.append (.inl (ending_of_isDelimiter (by decide) _)) (hgap.apart cs)

/-- The trimmed text with an operand in its place. -/
theorem exists_trim_operand {pre s : String} (hpre : ¬Gap pre.toList) (hs : ¬Gap s.toList)
    (post : String) : ∃ ws, trim (pre ++ " " ++ s ++ " " ++ post).toList =
      leadIn pre s ++ (trim s.toList ++ ws) ∧ Apart (trim s.toList) ws := by
  have hmore : ¬Gap (' ' :: s.toList) := fun hgap => hs (List.forall_mem_cons.1 hgap).2
  have hwhole : ¬Gap (pre ++ " " ++ s).toList := by
    intro hgap
    refine hpre fun c hc => hgap c ?_
    rw [Expr.toList_spaced]
    exact List.mem_append_left _ hc
  have hinner : trim (pre ++ " " ++ s).toList = leadIn pre s ++ trim s.toList := by
    have htake : (' ' :: s.toList).takeWhile isBlank = ' ' :: s.toList.takeWhile isBlank :=
      List.takeWhile_cons_of_pos rfl
    have htrim : trim (' ' :: s.toList) = trim s.toList := by
      rw [trim, trim, List.dropWhile_cons_of_pos rfl]
    rw [Expr.toList_spaced, List.singleton_append, trim_append_of_not_gap hpre hmore, htake, htrim,
      leadIn, List.append_assoc]
  have hpost : Apart (pre ++ " " ++ s).toList ([' '] ++ post.toList) :=
    .inl (ending_of_isDelimiter (by decide) _)
  obtain ⟨ws, htrim, hws⟩ := trim_append hwhole hpost
  refine ⟨ws, ?_, ?_⟩
  · rw [Expr.toList_spaced (pre ++ " " ++ s), htrim, hinner, List.append_assoc]
  · rw [hinner] at hws
    exact hws.rest

end Text

namespace Machine

/-- What is blamed at a stop stays the same behind more text. -/
theorem Stop.blamed_append {cs front p back : List Char} {state : State} {cause : ParseError.Cause}
    (h : Stop cs front p back state cause) (ds : List Char) :
    blamed (ds ++ front) p cause = ds ++ blamed front p cause := by
  cases cause with
  | noArguments name =>
    refine rdropWhile_append_of_not_gap ds fun hgap => ?_
    obtain ⟨-, o, outer, rfl, -⟩ := exists_within_of_noArguments (step_eq_error.1 h.refused)
    have htaken := h.taken
    rw [tokensOf_of_gap hgap] at htaken
    cases htaken
  | _ => exact List.append_assoc ds front p

/-- A stop in an operand is one in the text that has the operand in its place. -/
theorem Stop.inside {pre s : String} {opened : List Pending} {front p back ws : List Char}
    {state : State} {cause : ParseError.Cause} (h : Stop (trim s.toList) front p back state cause)
    (hpre : run .start (tokensOf pre.toList) = .ok (seeking opened)) (room : Hungry opened)
    (hcause : cause.Inside) (hws : Apart (trim s.toList) ws) :
    Stop (leadIn pre s ++ (trim s.toList ++ ws)) (leadIn pre s ++ front) p (back ++ ws)
      (state.under opened) cause where
  text := by
    rw [h.text]
    simp only [List.append_assoc]
  seam := by
    have hseam := h.seam.extend (List.append_ne_nil_of_left_ne_nil h.piece.ne_nil back) ws
    rw [List.append_assoc] at hseam
    exact (apart_leadIn pre s _).append hseam
  piece := by
    rw [h.text] at hws
    exact h.piece.append hws
  taken := by
    rw [tokensOf_append (apart_leadIn pre s front), tokensOf_leadIn, run_append_of_ok hpre]
    have hunder := run_under room h.taken
    exact hunder
  refused := ((step_eq_error.1 h.refused).under room hcause).step

end Machine

namespace Expr

open Machine

/-- A place for an operand in a text: the operations around it are open, and there is room. -/
theorem exists_seeking_of_parse {pre w : String} {e : Expr} (h : parse (pre ++ " x " ++ w) = .ok e) :
    ∃ opened, run .start (tokensOf pre.toList) = .ok (seeking opened) ∧ Hungry opened := by
  have hrun := parse_eq_ok.1 h
  have htext : pre ++ " x " ++ w = pre ++ " " ++ ("x" ++ " " ++ w) := by
    simp only [String.append_assoc]
    rfl
  have hx : tokensOf "x".toList = [.var .x] := by decide +kernel
  rw [htext, tokensOf_spaced, tokensOf_spaced, hx] at hrun
  obtain ⟨state, hpre, hrest⟩ := exists_run_of_append hrun
  obtain ⟨next, hstep, -⟩ := exists_run_of_append hrest
  rw [run_singleton] at hstep
  obtain ⟨opened, rfl, room⟩ := exists_seeking_of_step hstep
  exact ⟨opened, hpre, room⟩

/-- A fault inside an operand. If an operand may stand behind a text that is not all blanks, and
reading another text fails with a cause that lies inside it, then reading that text in the operand's
place fails with the same cause, whatever comes behind, and the place is further by what then stands in
front. -/
theorem fault_in_operand {pre w s : String} {e : Expr} {err : ParseError} {p : Nat}
    (hplace : parse (pre ++ " x " ++ w) = .ok e) (hpre : ∃ c ∈ pre.toList, isBlank c = false)
    (hs : parse s = .error err) (hcause : err.cause.Inside) (hp : err.position = some p)
    (post : String) :
    ∃ err', parse (pre ++ " " ++ s ++ " " ++ post) = .error err' ∧ err'.cause = err.cause ∧
      err'.position = some (p + (leadIn pre s).length) := by
  have hpre' : ¬Gap pre.toList := by
    obtain ⟨c, hc, hblank⟩ := hpre
    intro hgap
    rw [hgap c hc] at hblank
    cases hblank
  have hs' : ¬Gap s.toList := by
    intro hgap
    cases hs.symm.trans (parse_of_gap hgap)
    cases hp
  obtain ⟨opened, htaken, room⟩ := exists_seeking_of_parse hplace
  rcases exists_stop hs hs' with ⟨state, -, hfinish, -⟩ | ⟨front, q, back, state, hstop, hposition⟩
  · exact absurd hcause (not_inside_of_finish hfinish)
  · obtain ⟨ws, htrim, hws⟩ := exists_trim_operand hpre' hs' post
    have hinside := hstop.inside htaken room hcause hws
    rw [← htrim] at hinside
    refine ⟨_, parse_of_stop hinside, rfl, ?_⟩
    cases hp.symm.trans hposition
    rw [hstop.blamed_append, List.length_append, Nat.add_comm]

/-- An operator that there is none, in the second place of a sum inside a mean. -/
theorem fault_in_operand_of_sum :
    parse " (max 1)" = .error ⟨.unknownOperation "max", some 4, "(max 1)".toList⟩ ∧
      ∃ err, parse (" (harm-mean x (+ 2" ++ " " ++ " (max 1)" ++ " " ++ "] é") = .error err ∧
        err.cause = .unknownOperation "max" ∧ err.position = some (4 + 19) := by
  have hplace : parse (" (harm-mean x (+ 2" ++ " x " ++ "))") =
      .ok (.operation .harmonicMean [.var .x, .operation .add [.integer 2, .var .x]]) := by
    decide +kernel
  have hs : parse " (max 1)" = .error ⟨.unknownOperation "max", some 4, "(max 1)".toList⟩ := by
    decide +kernel
  exact ⟨hs, fault_in_operand hplace ⟨'(', by decide, rfl⟩ hs trivial rfl "] é"⟩

end Expr

end Polish
