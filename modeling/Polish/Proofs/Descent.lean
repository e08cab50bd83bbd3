import Polish.Expr.Descent
import Polish.Proofs.MachineScan

/-!
The descent is the machine. What the descent keeps on its call stack, the machine keeps in its list of
open operations; the descent looks past the last operand of a variadic operation and goes back, and
the machine does not. Main statement: `readRoot_eq_readScan`, they end in the same way, at the same
place and with the same operators taken up.
-/

namespace Polish

open Machine

/-- What was done in the end was done behind what was done first. -/
theorem Attempt.bind_eq_ok {α β : Type} {x : Attempt α} {f : α → Attempt β} {b : β} :
    (x >>= f).outcome = .ok b ↔ ∃ a, x.outcome = .ok a ∧ (f a).outcome = .ok b := by
  rcases x with ⟨ds, fault | a⟩
  · constructor
    · intro h
      cases h
    · rintro ⟨a, ha, -⟩
      cases ha
  · constructor
    · intro h
      exact ⟨a, rfl, h⟩
    · rintro ⟨a, ha, h⟩
      cases ha
      exact h

namespace Expr

variable {α β : Type}

/-! ### The steps of the descent -/

/-- Goes on from a slot, in one way for each thing that can be found there. -/
def Slot.elim {s : Scan} (operand : Expr → Scan → α) (closing nothing : Scan → α) : Slot s → α
  | .operand e after _ => operand e after
  | .closing after => closing after
  | .nothing after => nothing after

theorem slot_endOfInput {s : Scan} (h : s.next.token = .endOfInput) :
    slot s = pure (.nothing s.next.after) := by
  obtain ⟨after, shorter, hs⟩ := s.exists_next h
  rw [slot, hs]

theorem slot_closeParenthesis {s : Scan} (h : s.next.token = .closeParenthesis) :
    slot s = pure (.closing s.next.after) := by
  obtain ⟨after, shorter, hs⟩ := s.exists_next h
  rw [slot, hs]

theorem slot_symbol {s : Scan} {text : String} (h : s.next.token = .symbol text) :
    slot s = .fail (.unknownSymbol text) s.next.after := by
  obtain ⟨after, shorter, hs⟩ := s.exists_next h
  rw [slot, hs]

/-- An empty slot is found at a closing parenthesis and at the end of input only. -/
theorem token_of_slot {s : Scan} {x : Slot s} (h : (slot s).outcome = .ok x) :
    x.elim (fun _ _ => True) (fun _ => s.next.token = .closeParenthesis)
      fun _ => s.next.token = .endOfInput := by
  rw [slot] at h
  generalize s.next = l at h ⊢
  rcases l with ⟨token, after, shorter⟩
  cases token with
  | endOfInput | closeParenthesis => cases h; rfl
  | var v => cases h; trivial
  | symbol text => cases h
  | integer text =>
    dsimp only at h
    rcases hv : Numeral.read? text.toList with - | v <;> rw [hv] at h <;> cases h
    trivial
  | openParenthesis =>
    obtain ⟨t, -, h⟩ := Attempt.bind_eq_ok.1 h
    obtain ⟨u, -, h⟩ := Attempt.bind_eq_ok.1 h
    cases h
    trivial

variable (operand : Expr → Scan → Attempt β) (closing nothing : Scan → Attempt β)

theorem slot_var_bind {s : Scan} {v : Variable} (h : s.next.token = .var v) :
    slot s >>= Slot.elim operand closing nothing = operand (.var v) s.next.after := by
  obtain ⟨after, shorter, hs⟩ := s.exists_next h
  rw [slot, hs]
  rfl

theorem slot_integer_bind {s : Scan} {text : String} (h : s.next.token = .integer text) :
    slot s >>= Slot.elim operand closing nothing =
      match Numeral.read? text.toList with
      | some v => operand (.integer v) s.next.after
      | none => .fail (.invalidInteger text) s.next.after := by
  obtain ⟨after, shorter, hs⟩ := s.exists_next h
  rw [slot, hs]
  dsimp only
  rcases Numeral.read? text.toList with - | v <;> rfl

theorem slot_openParenthesis_bind {s : Scan} (h : s.next.token = .openParenthesis) :
    slot s >>= Slot.elim operand closing nothing =
      readOperation s.next.after >>= fun t =>
        closeOperation t.after >>= fun u => operand t.value u.after := by
  obtain ⟨after, shorter, hs⟩ := s.exists_next h
  rw [slot, hs]
  simp only [bind_assoc]
  rfl

theorem closeOperation_closeParenthesis_bind {s : Scan} (h : s.next.token = .closeParenthesis)
    (k : Scan → Attempt β) : (closeOperation s >>= fun u => k u.after) = k s.next.after := by
  obtain ⟨after, shorter, hs⟩ := s.exists_next h
  rw [closeOperation, hs]
  rfl

theorem closeOperation_endOfInput {s : Scan} (h : s.next.token = .endOfInput) :
    closeOperation s = .fail .unexpectedEndOfInput s.next.after := by
  obtain ⟨after, shorter, hs⟩ := s.exists_next h
  rw [closeOperation, hs]

theorem closeOperation_of_ne {s : Scan} (hend : s.next.token ≠ .endOfInput)
    (hclose : s.next.token ≠ .closeParenthesis) :
    closeOperation s = .fail .incorrectOperatorCall s.next.after := by
  rw [closeOperation]
  generalize s.next = l at hend hclose ⊢
  rcases l with ⟨token, after, shorter⟩
  cases token with
  | endOfInput => exact absurd rfl hend
  | closeParenthesis => exact absurd rfl hclose
  | _ => rfl

theorem readFixed_succ_bind (o : Operator) (n : Nat) (s : Scan)
    (k : List Expr → Scan → Attempt β) :
    (readFixed o (n + 1) s >>= fun t => k t.value t.after) =
      slot s >>= Slot.elim
        (fun e after => readFixed o n after >>= fun t => k (e :: t.value) t.after)
        (fun after => .fail (.missingArgument o.symbol) after)
        (fun after => .fail (.missingArgument o.symbol) after) := by
  rw [readFixed, bind_assoc]
  congr 1
  funext x
  rcases x with ⟨e, after, shorter⟩ | after | after
  · rw [bind_assoc]; rfl
  · rfl
  · rfl

theorem readVariadic_bind (s : Scan) (k : List Expr → Scan → Attempt β) :
    (readVariadic s >>= fun t => k t.value t.after) =
      slot s >>= Slot.elim
        (fun e after => readVariadic after >>= fun t => k (e :: t.value) t.after)
        (fun _ => k [] s)
        (fun after => .fail .unexpectedEndOfInput after) := by
  rw [readVariadic, bind_assoc]
  congr 1
  funext x
  rcases x with ⟨e, after, shorter⟩ | after | after
  · rw [bind_assoc]; rfl
  · rfl
  · rfl

end Expr

/-! ### The machine in front of a slot -/

namespace Machine

/-- The state in front of a place where an operand may stand. -/
def seeking : List Pending → State
  | [] => .start
  | p :: outer => .within p outer

/-- The innermost open operation, if there is one, takes a further operand. -/
def Hungry (opened : List Pending) : Prop := ∀ p ∈ opened.head?, p.hungry = true

theorem hungry_nil : Hungry [] := by
  intro p hp
  exact absurd hp (Option.not_mem_none p)

theorem hungry_cons {p : Pending} {outer : List Pending} : Hungry (p :: outer) ↔ p.hungry = true := by
  constructor
  · intro h
    exact h p rfl
  · intro h q hq
    rwa [← Option.some.inj hq]

theorem step_seeking {opened : List Pending} (h : Hungry opened) {t : Token}
    (ht : t ≠ .closeParenthesis) : step (seeking opened) t = takeOperand opened t := by
  rcases opened with - | ⟨p, outer⟩
  · rfl
  · have hp := hungry_cons.1 h
    cases t with
    | closeParenthesis => exact absurd rfl ht
    | _ => simp [seeking, step, hp]

/-- An operation with all the operands that it takes is stuck at a token that does not close it. -/
theorem step_full {p : Pending} (outer : List Pending) (h : p.hungry = false) {t : Token}
    (ht : t ≠ .closeParenthesis) : step (.within p outer) t = .error .incorrectOperatorCall := by
  cases t with
  | closeParenthesis => exact absurd rfl ht
  | _ => simp [step, h]

theorem step_close {p : Pending} (outer : List Pending) (h : p.lacking = false) :
    step (.within p outer) .closeParenthesis = .ok (.place p.close outer) := by
  simp [step, h]

theorem takenUp_seeking (s : Scan) (opened : List Pending) : takenUp s (seeking opened) = [] := by
  cases opened <;> rfl

/-- In front of a slot the machine does what the descent does there. -/
def Simulated (s : Scan) : Prop :=
  ∀ opened, Hungry opened → readScan (seeking opened) s =
    Expr.slot s >>= Expr.Slot.elim (fun e after => readScan (.place e opened) after)
      (fun _ => readScan (seeking opened) s) (fun _ => readScan (seeking opened) s)

theorem readScan_seeking_of_ok {s : Scan} {opened : List Pending} {state : State}
    (h : s.next.token ≠ .endOfInput) (hstep : step (seeking opened) s.next.token = .ok state) :
    readScan (seeking opened) s = readScan state s.next.after := by
  rw [readScan_of_ok h hstep, takenUp_seeking]
  rfl

/-- An operation with all its operands ends as the descent ends it. -/
theorem readScan_closing {p : Pending} (outer : List Pending) {s : Scan}
    (hlacking : p.lacking = false) (h : s.next.token = .closeParenthesis) :
    readScan (.within p outer) s =
      Expr.closeOperation s >>= fun u => readScan (.place p.close outer) u.after := by
  have hend : s.next.token ≠ .endOfInput := by simp [h]
  have hstep : step (seeking (p :: outer)) s.next.token = .ok (.place p.close outer) := by
    rw [h]
    exact step_close outer hlacking
  rw [Expr.closeOperation_closeParenthesis_bind h]
  exact readScan_seeking_of_ok hend hstep

/-- An operation that takes no further operand ends as the descent ends it. -/
theorem readScan_full {p : Pending} (outer : List Pending) (s : Scan) (hlacking : p.lacking = false)
    (hhungry : p.hungry = false) :
    readScan (.within p outer) s =
      Expr.closeOperation s >>= fun u => readScan (.place p.close outer) u.after := by
  by_cases hclose : s.next.token = .closeParenthesis
  · exact readScan_closing outer hlacking hclose
  by_cases hend : s.next.token = .endOfInput
  · have hfinish : finish (.within p outer) = .error .unexpectedEndOfInput := by
      rcases harity : p.operator.arity with count | - <;> simp [finish, harity, hlacking]
    rw [readScan_of_end hend, hfinish, Expr.closeOperation_endOfInput hend]
    rfl
  · rw [readScan_of_error hend (step_full outer hhungry hclose),
      Expr.closeOperation_of_ne hend hclose]
    rfl

/-- The operands found at a slot are read by the machine too, and where there is none the two agree if
they agree on what to do then. -/
theorem Simulated.readScan_within {s : Scan} (hs : Simulated s) {p : Pending} (outer : List Pending)
    (hhungry : p.hungry = true) {operand : Expr → Scan → Attempt Expr}
    {closing nothing : Scan → Attempt Expr}
    (hoperand : ∀ e after, after.ahead.length < s.ahead.length →
      readScan (.within { p with operands := e :: p.operands } outer) after = operand e after)
    (hclosing : s.next.token = .closeParenthesis →
      readScan (.within p outer) s = closing s.next.after)
    (hnothing : s.next.token = .endOfInput → readScan (.within p outer) s = nothing s.next.after) :
    readScan (.within p outer) s = Expr.slot s >>= Expr.Slot.elim operand closing nothing := by
  have hungry : Hungry (p :: outer) := hungry_cons.2 hhungry
  by_cases hclose : s.next.token = .closeParenthesis
  · rw [Expr.slot_closeParenthesis hclose]
    exact hclosing hclose
  by_cases hend : s.next.token = .endOfInput
  · rw [Expr.slot_endOfInput hend]
    exact hnothing hend
  · refine (hs (p :: outer) hungry).trans (Attempt.bind_congr_of_ok fun x hx => ?_)
    rcases x with ⟨e, after, shorter⟩ | after | after
    · exact hoperand e after shorter
    · exact absurd (Expr.token_of_slot hx) hclose
    · exact absurd (Expr.token_of_slot hx) hend

section

-- the scans that a slot leaves are shorter, and on these the machine is known to follow the descent
variable {bound : Nat} (ih : ∀ s : Scan, s.ahead.length < bound → Simulated s)

include ih

theorem readScan_within_fixed {o : Operator} {n : Nat} {acc : List Expr} (outer : List Pending)
    (harity : o.arity = .fixed (acc.length + n)) {s : Scan} (hs : s.ahead.length < bound) :
    readScan (.within ⟨o, acc⟩ outer) s =
      Expr.readFixed o n s >>= fun t => Expr.closeOperation t.after >>= fun u =>
        readScan (.place (.operation o (acc.reverse ++ t.value)) outer) u.after := by
  induction n generalizing acc s with
  | zero =>
    have hlacking : Pending.lacking ⟨o, acc⟩ = false := by simp [Pending.lacking, harity]
    have hhungry : Pending.hungry ⟨o, acc⟩ = false := by simp [Pending.hungry, harity]
    rw [readScan_full outer s hlacking hhungry, Expr.readFixed, pure_bind, List.append_nil]
    rfl
  | succ n ihn =>
    have hlacking : Pending.lacking ⟨o, acc⟩ = true := by simp [Pending.lacking, harity]
    rw [Expr.readFixed_succ_bind o n s fun es after => Expr.closeOperation after >>= fun u =>
      readScan (.place (.operation o (acc.reverse ++ es)) outer) u.after]
    refine (ih s hs).readScan_within outer (by simp [Pending.hungry, harity]) ?_ ?_ ?_
    · intro e after shorter
      rw [ihn (by rw [harity, List.length_cons, Nat.add_right_comm]; rfl) (Nat.lt_trans shorter hs)]
      simp only [List.reverse_cons, List.append_assoc, List.singleton_append]
    · intro hclose
      have hstep : step (.within ⟨o, acc⟩ outer) s.next.token =
          .error (.missingArgument o.symbol) := by
        rw [hclose]
        simp [step, hlacking, Pending.complaint, harity]
      rw [readScan_of_error (by simp [hclose]) hstep]
      rfl
    · intro hend
      have hfinish : finish (.within ⟨o, acc⟩ outer) = .error (.missingArgument o.symbol) := by
        simp [finish, hlacking, harity]
      rw [readScan_of_end hend, hfinish]
      rfl

theorem readScan_within_variadic {o : Operator} {acc : List Expr} (outer : List Pending)
    (harity : o.arity = .variadic) {s : Scan} (hs : s.ahead.length < bound) :
    readScan (.within ⟨o, acc⟩ outer) s =
      Expr.readVariadic s >>= fun t =>
        if (acc.reverse ++ t.value).isEmpty then .fail (.noArguments o.symbol) t.after
        else Expr.closeOperation t.after >>= fun u =>
          readScan (.place (.operation o (acc.reverse ++ t.value)) outer) u.after := by
  rw [Expr.readVariadic_bind s fun es after =>
    if (acc.reverse ++ es).isEmpty then .fail (.noArguments o.symbol) after
    else Expr.closeOperation after >>= fun u =>
      readScan (.place (.operation o (acc.reverse ++ es)) outer) u.after]
  refine (ih s hs).readScan_within outer (by simp [Pending.hungry, harity]) ?_ ?_ ?_
  · intro e after shorter
    rw [readScan_within_variadic outer harity (Nat.lt_trans shorter hs)]
    simp only [List.reverse_cons, List.append_assoc, List.singleton_append]
  · intro hclose
    rw [List.append_nil]
    split
    · rename_i hempty
      have hlacking : Pending.lacking ⟨o, acc⟩ = true := by
        simpa [Pending.lacking, harity] using hempty
      have hstep : step (.within ⟨o, acc⟩ outer) s.next.token = .error (.noArguments o.symbol) := by
        rw [hclose]
        simp [step, hlacking, Pending.complaint, harity]
      rw [readScan_of_error (by simp [hclose]) hstep]
      rfl
    · rename_i hempty
      have hlacking : Pending.lacking ⟨o, acc⟩ = false := by
        simpa [Pending.lacking, harity] using hempty
      exact readScan_closing outer hlacking hclose
  · intro hend
    have hfinish : finish (.within ⟨o, acc⟩ outer) = .error .unexpectedEndOfInput := by
      simp [finish, harity]
    rw [readScan_of_end hend, hfinish]
    rfl
  termination_by s.ahead.length

theorem readScan_begun (outer : List Pending) {s : Scan} (hs : s.ahead.length < bound) :
    readScan (.begun outer) s =
      Expr.readOperation s >>= fun t => Expr.closeOperation t.after >>= fun u =>
        readScan (.place t.value outer) u.after := by
  rw [Expr.readOperation]
  by_cases hend : s.next.token = .endOfInput
  · rw [readScan_of_end hend, dif_pos hend]
    rfl
  have hnext := Nat.lt_trans (s.next.shorter hend) hs
  rw [dif_neg hend]
  rcases ho : Operator.ofSymbol? s.next.token.text with - | o
  · have hstep : step (.begun outer) s.next.token = .error (.unknownOperation s.next.token.text) := by
      simp [step, ho]
    rw [readScan_of_error hend hstep]
    rfl
  · have hstep : step (.begun outer) s.next.token = .ok (.within ⟨o, []⟩ outer) := by
      simp [step, ho]
    have htaken : takenUp s (.begun outer) = [⟨o, s.next.after.offset⟩] := by simp [takenUp, ho]
    rw [readScan_of_ok hend hstep, htaken]
    rcases harity : o.arity with count | -
    · rw [readScan_within_fixed ih outer (by rw [harity, List.length_nil, Nat.zero_add]) hnext]
      simp only [bind_assoc, harity]
      rfl
    · rw [readScan_within_variadic ih outer harity hnext]
      simp only [bind_assoc, harity]
      refine congrArg _ (funext fun _ => congrArg _ (funext fun t => ?_))
      show (if t.value.isEmpty then _ else _) = _
      by_cases hempty : t.value.isEmpty = true
      · rw [if_pos hempty, if_pos hempty]
        rfl
      · rw [if_neg hempty, if_neg hempty]
        rfl

end

theorem simulated (s : Scan) : Simulated s := by
  intro opened hungry
  rcases ht : s.next.token with _ | _ | text | v | text | _
  · have hend : s.next.token ≠ .endOfInput := by simp [ht]
    have hstep : step (seeking opened) s.next.token = .ok (.begun opened) := by
      rw [ht]
      exact step_seeking hungry (by simp)
    rw [readScan_seeking_of_ok hend hstep, Expr.slot_openParenthesis_bind _ _ _ ht]
    exact readScan_begun (fun s' _ => simulated s') opened (s.next.shorter hend)
  · rw [Expr.slot_closeParenthesis ht]
    rfl
  · have hend : s.next.token ≠ .endOfInput := by simp [ht]
    have htake := step_seeking hungry (t := .integer text) (by simp)
    rw [Expr.slot_integer_bind _ _ _ ht]
    rcases hv : Numeral.read? text.toList with - | v
    · have hstep : step (seeking opened) s.next.token = .error (.invalidInteger text) := by
        rw [ht, htake, takeOperand, hv]
      rw [readScan_of_error hend hstep]
      rfl
    · have hstep : step (seeking opened) s.next.token = .ok (.place (.integer v) opened) := by
        rw [ht, htake, takeOperand, hv]
      exact readScan_seeking_of_ok hend hstep
  · have hstep : step (seeking opened) s.next.token = .ok (.place (.var v) opened) := by
      rw [ht]
      exact step_seeking hungry (by simp)
    rw [Expr.slot_var_bind _ _ _ ht]
    exact readScan_seeking_of_ok (by simp [ht]) hstep
  · have hstep : step (seeking opened) s.next.token = .error (.unknownSymbol text) := by
      rw [ht]
      exact step_seeking hungry (by simp)
    rw [readScan_of_error (by simp [ht]) hstep, Expr.slot_symbol ht]
    rfl
  · rw [Expr.slot_endOfInput ht]
    rfl
  termination_by s.ahead.length

end Machine

/-- Reading by descent and reading by the machine are the same attempt. -/
theorem Expr.readRoot_eq_readScan (s : Scan) : readRoot s = readScan .start s := by
  have h := simulated s [] hungry_nil
  rw [seeking] at h
  by_cases hclose : s.next.token = .closeParenthesis
  · have hstep : step .start s.next.token = .error .unexpectedClosingParenthesis := by
      rw [hclose]
      rfl
    rw [readRoot, slot_closeParenthesis hclose, readScan_of_error (by simp [hclose]) hstep]
    rfl
  by_cases hend : s.next.token = .endOfInput
  · rw [readRoot, slot_endOfInput hend, readScan_of_end hend]
    rfl
  rw [h, readRoot]
  refine Attempt.bind_congr_of_ok fun x hx => ?_
  rcases x with ⟨e, after, shorter⟩ | after | after
  · show (if after.next.token = .endOfInput then pure e
      else .fail (.trailingInput after.next.token.text) after.next.after) =
        readScan (.complete e) after
    split
    · rename_i hnone
      rw [readScan_of_end hnone]
      rfl
    · rename_i hsome
      rw [readScan_of_error hsome rfl]
      rfl
  · exact absurd (token_of_slot hx) hclose
  · exact absurd (token_of_slot hx) hend

end Polish
