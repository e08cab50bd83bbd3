import Polish.Proofs.Descent

/-!
What a step of the machine can do. There are four ways of taking a token and eight of refusing one,
and all that a step keeps is shown way by way. Main statements: `step_eq_ok` and `step_eq_error`, a step
goes one of these ways and each of them is a step.

    seeking ── ( ──▶ begun ── symbol ──▶ within
    seeking ── leaf ──▶ place
    within ── ) ──▶ place
-/

namespace Polish.Machine

/-- `Leaf t e`: the token is an expression by itself. -/
inductive Leaf : Token → Expr → Prop where
  | var (v : Variable) : Leaf (.var v) (.var v)
  | integer {text : String} {v : Int64} (value : Numeral.read? text.toList = some v) :
      Leaf (.integer text) (.integer v)

/-- `Moves state t state'`: the ways to take a token. -/
inductive Moves : State → Token → State → Prop where
  | opening {opened : List Pending} (room : Hungry opened) :
      Moves (seeking opened) .openParenthesis (.begun opened)
  | leaf {opened : List Pending} {t : Token} {e : Expr} (room : Hungry opened) (single : Leaf t e) :
      Moves (seeking opened) t (.place e opened)
  | operator {outer : List Pending} {t : Token} {o : Operator}
      (symbol : Operator.ofSymbol? t.text = some o) : Moves (.begun outer) t (.within ⟨o, []⟩ outer)
  | closing {p : Pending} {outer : List Pending} (filled : p.lacking = false) :
      Moves (.within p outer) .closeParenthesis (.place p.close outer)

/-- `Refuses state t cause`: the ways to be stuck at a token. -/
inductive Refuses : State → Token → ParseError.Cause → Prop where
  | stray : Refuses .start .closeParenthesis .unexpectedClosingParenthesis
  | ended {opened : List Pending} (room : Hungry opened) :
      Refuses (seeking opened) .endOfInput .emptyExpression
  | symbol {opened : List Pending} (room : Hungry opened) (text : String) :
      Refuses (seeking opened) (.symbol text) (.unknownSymbol text)
  | integer {opened : List Pending} {text : String} (room : Hungry opened)
      (none : Numeral.read? text.toList = none) :
      Refuses (seeking opened) (.integer text) (.invalidInteger text)
  | operation {outer : List Pending} {t : Token} (none : Operator.ofSymbol? t.text = none) :
      Refuses (.begun outer) t (.unknownOperation t.text)
  | lacking {p : Pending} (outer : List Pending) (lacks : p.lacking = true) :
      Refuses (.within p outer) .closeParenthesis p.complaint
  | full {p : Pending} (outer : List Pending) {t : Token} (sated : p.hungry = false)
      (goesOn : t ≠ .closeParenthesis) : Refuses (.within p outer) t .incorrectOperatorCall
  | trailing (e : Expr) (t : Token) : Refuses (.complete e) t (.trailingInput t.text)

variable {state state' : State} {opened : List Pending} {t : Token} {cause : ParseError.Cause}

/-! ### Each way is a step -/

theorem Leaf.takeOperand {e : Expr} (h : Leaf t e) (opened : List Pending) :
    takeOperand opened t = .ok (.place e opened) := by
  cases h with
  | var v => rfl
  | integer value => simp only [Machine.takeOperand, value]

theorem Leaf.ne_closeParenthesis {e : Expr} (h : Leaf t e) : t ≠ .closeParenthesis := by
  cases h <;> simp

theorem Moves.step (h : Moves state t state') : step state t = .ok state' := by
  cases h with
  | opening room => exact step_seeking room (by simp)
  | leaf room single => rw [step_seeking room single.ne_closeParenthesis, single.takeOperand]
  | operator symbol => simp only [Machine.step, symbol]
  | closing filled => exact step_close _ filled

theorem Refuses.step (h : Refuses state t cause) : step state t = .error cause := by
  cases h with
  | stray => rfl
  | ended room => exact step_seeking room (by simp)
  | symbol room text => exact step_seeking room (by simp)
  | integer room none =>
    rw [step_seeking room (by simp)]
    simp only [takeOperand, none]
  | operation none => simp only [Machine.step, none]
  | lacking outer lacks => simp only [Machine.step, lacks, if_true]
  | full outer sated goesOn => exact step_full outer sated goesOn
  | trailing e t => rfl

/-! ### Each step goes one way -/

/-- `Goes state t result`: the way that a step goes, by what comes of it. -/
def Goes (state : State) (t : Token) : Except ParseError.Cause State → Prop
  | .ok state' => Moves state t state'
  | .error cause => Refuses state t cause

theorem goes_seeking (room : Hungry opened) (ht : t ≠ .closeParenthesis) :
    Goes (seeking opened) t (takeOperand opened t) := by
  cases t with
  | openParenthesis => exact Moves.opening room
  | closeParenthesis => exact absurd rfl ht
  | integer text =>
    rw [takeOperand]
    cases hv : Numeral.read? text.toList with
    | none => exact Refuses.integer room hv
    | some v => exact Moves.leaf room (.integer hv)
  | var v => exact Moves.leaf room (.var v)
  | symbol text => exact Refuses.symbol room text
  | endOfInput => exact Refuses.ended room

theorem goes_step (state : State) (t : Token) : Goes state t (step state t) := by
  cases state with
  | start =>
    by_cases ht : t = .closeParenthesis
    · subst ht
      exact Refuses.stray
    · exact goes_seeking hungry_nil ht
  | begun outer =>
    rw [step]
    cases ho : Operator.ofSymbol? t.text with
    | none => exact Refuses.operation ho
    | some o => exact Moves.operator ho
  | within p outer =>
    by_cases ht : t = .closeParenthesis
    · subst ht
      cases hlacking : p.lacking with
      | true =>
        rw [(Refuses.lacking outer hlacking).step]
        exact Refuses.lacking outer hlacking
      | false =>
        rw [(Moves.closing hlacking).step]
        exact Moves.closing hlacking
    · cases hhungry : p.hungry with
      | true =>
        have room : Hungry (p :: outer) := hungry_cons.2 hhungry
        have hgoes := goes_seeking room ht
        rwa [← step_seeking room ht] at hgoes
      | false =>
        rw [step_full outer hhungry ht]
        exact Refuses.full outer hhungry ht
  | complete e => exact Refuses.trailing e t

theorem step_eq_ok : step state t = .ok state' ↔ Moves state t state' := by
  constructor
  · intro h
    have hgoes := goes_step state t
    rwa [h] at hgoes
  · exact Moves.step

theorem step_eq_error : step state t = .error cause ↔ Refuses state t cause := by
  constructor
  · intro h
    have hgoes := goes_step state t
    rwa [h] at hgoes
  · exact Refuses.step

/-- Only an operation that was just begun is closed without arguments. -/
theorem exists_within_of_noArguments {name : String}
    (h : Refuses state t (.noArguments name)) :
    t = .closeParenthesis ∧ ∃ o outer, state = .within ⟨o, []⟩ outer ∧ name = o.symbol := by
  generalize hcause : ParseError.Cause.noArguments name = cause at h
  cases h with
  | @lacking p outer lacks =>
    refine ⟨rfl, ?_⟩
    rcases p with ⟨o, operands⟩
    cases harity : o.arity with
    | fixed count =>
      rw [Pending.complaint, harity] at hcause
      cases hcause
    | variadic =>
      rw [Pending.complaint, harity] at hcause
      simp only [Pending.lacking, harity, List.isEmpty_iff] at lacks
      subst lacks
      exact ⟨o, outer, rfl, ParseError.Cause.noArguments.inj hcause⟩
  | _ => cases hcause

end Polish.Machine
