import Polish.Proofs.Transitions

/-!
What each reader of the descent takes, as one fact about it. Main statements: `finds_iff`,
`takes_closeOperation`, `takes_readOperation`, `takes_readFixed_zero`, `takes_readFixed_succ` and
`takes_readVariadic`, a reader succeeds exactly when the tokens in front of it and the readers that it
calls say so.

    slot ──▶ leaf
      │ ▲
    ( ▼ │ operands
    operation ──▶ )
-/

namespace Polish

open Machine

namespace Expr

/-- `Finds s e after`: the slot at a place holds an operand, which ends at another place. -/
def Finds (s : Scan) (e : Expr) (after : Scan) : Prop :=
  ∃ shorter, (slot s).outcome = .ok (.operand e after shorter)

/-- `Takes x a after`: an attempt to read takes something, which ends at a place. -/
def Takes {s : Scan} {α : Type} (x : Attempt (Taken s α)) (a : α) (after : Scan) : Prop :=
  ∃ notLonger, x.outcome = .ok ⟨a, after, notLonger⟩

/-- `TakesOperands o s es after`: the operands of an operator, read in the way that its arity asks
for. -/
def TakesOperands (o : Operator) (s : Scan) (es : List Expr) (after : Scan) : Prop :=
  match o.arity with
  | .fixed n => Takes (readFixed o n s) es after
  | .variadic => Takes (readVariadic s) es after ∧ es ≠ []

variable {s after : Scan} {e : Expr} {es : List Expr} {o : Operator} {n : Nat}

theorem Finds.shorter (h : Finds s e after) : after.ahead.length < s.ahead.length := h.1

/-- The operand that a slot holds, and where it ends. -/
def found? (s : Scan) : Option (Expr × Scan) :=
  match (slot s).outcome with
  | .ok (.operand e after _) => some (e, after)
  | _ => none

theorem found?_eq_some : found? s = some (e, after) ↔ Finds s e after := by
  rw [found?]
  constructor
  · intro h
    split at h
    · rename_i hslot
      cases h
      exact ⟨_, hslot⟩
    · cases h
  · rintro ⟨shorter, hslot⟩
    rw [hslot]

instance : Decidable (Finds s e after) := decidable_of_iff _ found?_eq_some

theorem takes_of_outcome {α : Type} {x : Attempt (Taken s α)} {t : Taken s α}
    (h : x.outcome = .ok t) : Takes x t.value t.after := ⟨t.notLonger, h⟩

theorem takes_closeOperation : Takes (closeOperation s) () after ↔
    s.next.token = .closeParenthesis ∧ after = s.next.after := by
  rw [Takes, closeOperation]
  generalize s.next = l
  rcases l with ⟨token, next, shorter⟩
  cases token with
  | closeParenthesis =>
    constructor
    · rintro ⟨notLonger, h⟩
      cases h
      exact ⟨rfl, rfl⟩
    · rintro ⟨-, rfl⟩
      exact ⟨Nat.le_of_lt (shorter (by simp)), rfl⟩
  | _ =>
    constructor
    · rintro ⟨notLonger, h⟩
      cases h
    · rintro ⟨h, -⟩
      cases h

/-- An operand is a leaf or an operation in parentheses. -/
theorem finds_iff : Finds s e after ↔
    (Leaf s.next.token e ∧ after = s.next.after) ∨
      s.next.token = .openParenthesis ∧ ∃ last, Takes (readOperation s.next.after) e last ∧
        last.next.token = .closeParenthesis ∧ after = last.next.after := by
  rw [Finds, slot]
  generalize s.next = l
  rcases l with ⟨token, next, shorter⟩
  cases token with
  | endOfInput | closeParenthesis | symbol =>
    constructor
    · rintro ⟨_, h⟩
      cases h
    · rintro (⟨h, -⟩ | ⟨h, -⟩) <;> cases h
  | var v =>
    constructor
    · rintro ⟨_, h⟩
      cases h
      exact .inl ⟨.var v, rfl⟩
    · rintro (⟨h, rfl⟩ | ⟨h, -⟩)
      · cases h
        exact ⟨shorter (by simp), rfl⟩
      · cases h
  | integer text =>
    dsimp only
    constructor
    · rintro ⟨_, h⟩
      rcases hv : Numeral.read? text.toList with - | v <;> rw [hv] at h <;> cases h
      exact .inl ⟨.integer hv, rfl⟩
    · rintro (⟨h, rfl⟩ | ⟨h, -⟩)
      · cases h with
        | integer value => simp [value, shorter (by simp)]
      · cases h
  | openParenthesis =>
    constructor
    · rintro ⟨_, h⟩
      obtain ⟨t, ht, h⟩ := Attempt.bind_eq_ok.1 h
      obtain ⟨u, hu, h⟩ := Attempt.bind_eq_ok.1 h
      cases h
      obtain ⟨hclose, hafter⟩ := takes_closeOperation.1 (takes_of_outcome hu)
      exact .inr ⟨rfl, t.after, takes_of_outcome ht, hclose, hafter⟩
    · rintro (⟨h, -⟩ | ⟨-, last, ⟨_, ht⟩, hclose, rfl⟩)
      · cases h
      · obtain ⟨_, hu⟩ := takes_closeOperation.2 ⟨hclose, rfl⟩
        exact ⟨_, Attempt.bind_eq_ok.2 ⟨_, ht, Attempt.bind_eq_ok.2 ⟨_, hu, rfl⟩⟩⟩

/-- An operation is the symbol of an operator and the operands that its arity asks for. -/
theorem takes_readOperation : Takes (readOperation s) e after ↔
    s.next.token ≠ .endOfInput ∧ ∃ o es, Operator.ofSymbol? s.next.token.text = some o ∧
      e = .operation o es ∧ TakesOperands o s.next.after es after := by
  rw [Takes, readOperation]
  by_cases hend : s.next.token = .endOfInput
  · rw [dif_pos hend]
    constructor
    · rintro ⟨_, h⟩
      cases h
    · rintro ⟨h, -⟩
      exact absurd hend h
  rw [dif_neg hend]
  rcases ho : Operator.ofSymbol? s.next.token.text with - | o
  · constructor
    · rintro ⟨_, h⟩
      cases h
    · rintro ⟨-, o, es, h, -⟩
      cases h
  simp only [Option.some.injEq]
  constructor
  · rintro ⟨_, h⟩
    obtain ⟨-, -, h⟩ := Attempt.bind_eq_ok.1 h
    refine ⟨hend, o, ?_⟩
    cases harity : o.arity with
    | fixed n =>
      rw [harity] at h
      obtain ⟨t, ht, h⟩ := Attempt.bind_eq_ok.1 h
      cases h
      refine ⟨t.value, rfl, rfl, ?_⟩
      rw [TakesOperands, harity]
      exact takes_of_outcome ht
    | variadic =>
      rw [harity] at h
      obtain ⟨t, ht, h⟩ := Attempt.bind_eq_ok.1 h
      split_ifs at h with hempty
      · cases h
      · cases h
        refine ⟨t.value, rfl, rfl, ?_⟩
        rw [TakesOperands, harity]
        exact ⟨takes_of_outcome ht, by simpa using hempty⟩
  · rintro ⟨-, o, es, rfl, rfl, hes⟩
    have hshorter := Nat.le_of_lt (s.next.shorter hend)
    simp only [Attempt.bind_eq_ok]
    cases harity : o.arity with
    | fixed n =>
      rw [TakesOperands, harity] at hes
      obtain ⟨hle, ht⟩ := hes
      exact ⟨Nat.le_trans hle hshorter, (), rfl, Attempt.bind_eq_ok.2 ⟨_, ht, rfl⟩⟩
    | variadic =>
      rw [TakesOperands, harity] at hes
      obtain ⟨⟨hle, ht⟩, hsome⟩ := hes
      have hempty : ¬es.isEmpty = true := by simpa using hsome
      refine ⟨Nat.le_trans hle hshorter, (), rfl, Attempt.bind_eq_ok.2 ⟨_, ht, ?_⟩⟩
      exact congrArg Attempt.outcome (if_neg hempty)

theorem takes_readFixed_zero : Takes (readFixed o 0 s) es after ↔ es = [] ∧ after = s := by
  rw [Takes, readFixed]
  constructor
  · rintro ⟨_, h⟩
    cases h
    exact ⟨rfl, rfl⟩
  · rintro ⟨rfl, rfl⟩
    exact ⟨Nat.le_refl _, rfl⟩

theorem takes_readFixed_succ : Takes (readFixed o (n + 1) s) es after ↔
    ∃ e between fs, es = e :: fs ∧ Finds s e between ∧ Takes (readFixed o n between) fs after := by
  rw [Takes, readFixed]
  constructor
  · rintro ⟨_, h⟩
    obtain ⟨x, hx, h⟩ := Attempt.bind_eq_ok.1 h
    rcases x with ⟨e, between, shorter⟩ | _ | _
    · obtain ⟨t, ht, h⟩ := Attempt.bind_eq_ok.1 h
      cases h
      exact ⟨e, between, t.value, rfl, ⟨shorter, hx⟩, takes_of_outcome ht⟩
    · cases h
    · cases h
  · rintro ⟨e, between, fs, rfl, ⟨_, hx⟩, ⟨_, ht⟩⟩
    exact ⟨_, Attempt.bind_eq_ok.2 ⟨_, hx, Attempt.bind_eq_ok.2 ⟨_, ht, rfl⟩⟩⟩

/-- The operands of a variadic operator go on up to a closing parenthesis, which is not taken. -/
theorem takes_readVariadic : Takes (readVariadic s) es after ↔
    (es = [] ∧ s.next.token = .closeParenthesis ∧ after = s) ∨
      ∃ e between fs, es = e :: fs ∧ Finds s e between ∧ Takes (readVariadic between) fs after := by
  rw [Takes, readVariadic]
  constructor
  · rintro ⟨_, h⟩
    obtain ⟨x, hx, h⟩ := Attempt.bind_eq_ok.1 h
    rcases x with ⟨e, between, shorter⟩ | _ | _
    · obtain ⟨t, ht, h⟩ := Attempt.bind_eq_ok.1 h
      cases h
      exact .inr ⟨e, between, t.value, rfl, ⟨shorter, hx⟩, takes_of_outcome ht⟩
    · cases h
      exact .inl ⟨rfl, token_of_slot hx, rfl⟩
    · cases h
  · rintro (⟨rfl, hclose, rfl⟩ | ⟨e, between, fs, rfl, ⟨_, hx⟩, ⟨_, ht⟩⟩)
    · refine ⟨Nat.le_refl _, ?_⟩
      rw [slot_closeParenthesis hclose]
      rfl
    · exact ⟨_, Attempt.bind_eq_ok.2 ⟨_, hx, Attempt.bind_eq_ok.2 ⟨_, ht, rfl⟩⟩⟩

end Expr

end Polish
