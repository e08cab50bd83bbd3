import Polish.Proofs.Numerals
import Polish.Proofs.OnePass

/-!
The reader accepts what the grammar derives. A derivation drives the machine from token to token, one
lemma for an expression and one for a row of operands; and what the machine has taken is always
spelled by its state, `Reached`, which every step keeps. Main statement: `parse_iff_derives`, a text is
read as an expression exactly if its pieces derive that expression, and no row of pieces derives two.
-/

namespace Polish

open Text

namespace Machine

/-! ### Open operations and arities -/

/-- An open operation has no more operands than its operator accepts. -/
def Pending.Fits (p : Pending) : Prop :=
  ∀ count, p.operator.arity = .fixed count → p.operands.length ≤ count

theorem Pending.hungry_eq_true {p : Pending} :
    p.hungry = true ↔ ∀ count, p.operator.arity = .fixed count → p.operands.length < count := by
  rcases harity : p.operator.arity with count | - <;> simp [hungry, harity]

theorem Pending.lacking_of_accepts {p : Pending} (h : p.operator.arity.Accepts p.operands.length) :
    p.lacking = false := by
  rcases harity : p.operator.arity with count | -
  · rw [harity] at h
    replace h : p.operands.length = count := h
    simp [lacking, harity, h]
  · rw [harity] at h
    replace h : 1 ≤ p.operands.length := h
    simpa [lacking, harity] using List.length_pos_iff.1 h

theorem Pending.Fits.accepts {p : Pending} (hfits : p.Fits) (h : p.lacking = false) :
    p.operator.arity.Accepts p.operands.length := by
  rcases harity : p.operator.arity with count | -
  · have hle := hfits count harity
    simp only [lacking, harity, decide_eq_false_iff_not] at h
    show p.operands.length = count
    omega
  · simp only [lacking, harity, List.isEmpty_eq_false_iff] at h
    exact List.length_pos_iff.2 h

theorem run_append_of_ok {state state' : State} {ts : List Token} (h : run state ts = .ok state')
    (us : List Token) : run state (ts ++ us) = run state' us := by
  rw [run_append, h]
  rfl

theorem run_cons_of_ok {state state' : State} {t : Token} (h : step state t = .ok state')
    (ts : List Token) : run state (t :: ts) = run state' ts := by
  rw [run_cons, h]
  rfl

theorem run_singleton (state : State) (t : Token) : run state [t] = step state t := by
  rw [run_cons]
  rcases step state t with cause | state' <;> rfl

theorem step_symbol (o : Operator) (outer : List Pending) :
    step (.begun outer) (.classify o.symbol) = .ok (.within ⟨o, []⟩ outer) := by
  have htext : (Token.classify o.symbol).text = o.symbol :=
    Token.text_classify (by cases o <;> decide)
  simp only [step, htext, Operator.ofSymbol?_symbol]

/-! ### A derivation drives the machine -/

mutual

/-- The tokens of an expression take the machine over a slot. -/
theorem run_of_derives {ts : List String} {e : Expr} : Derives ts e → ∀ {opened : List Pending},
    Hungry opened → run (seeking opened) (ts.map Token.classify) = .ok (.place e opened)
  | .var v, opened, h => by
    rw [List.map_singleton, run_singleton, Token.classify_name]
    exact step_seeking h (by simp)
  | @Derives.integer text v value, opened, h => by
    have htake : takeOperand opened (.integer text) = .ok (.place (.integer v) opened) := by
      rw [takeOperand, Numeral.read?_eq_some.2 value]
    rw [List.map_singleton, run_singleton, Token.classify_of_denotes value, ← htake]
    exact step_seeking h (by simp)
  | @Derives.operation o ts es fits operands, opened, h => by
    have hopen : step (seeking opened) (.classify "(") = .ok (.begun opened) :=
      step_seeking h (t := .openParenthesis) (by simp)
    have hroom : ∀ count, o.arity = .fixed count → 0 + es.length ≤ count := by
      intro count harity
      rw [harity] at fits
      exact Nat.le_of_eq ((Nat.zero_add _).trans fits)
    have hrow : run (.within ⟨o, []⟩ opened) (ts.map Token.classify) =
        .ok (.within ⟨o, es.reverse ++ []⟩ opened) := run_of_derivesAll operands hroom
    have hlacking : Pending.lacking ⟨o, es.reverse ++ []⟩ = false :=
      Pending.lacking_of_accepts (by simpa using fits)
    have hclose : Pending.close ⟨o, es.reverse ++ []⟩ = .operation o es := by simp [Pending.close]
    rw [List.map_append, List.map_cons, List.map_cons, List.cons_append, List.cons_append,
      run_cons_of_ok hopen, run_cons_of_ok (step_symbol o opened), run_append_of_ok hrow,
      List.map_singleton, run_singleton, ← hclose]
    exact step_close opened hlacking

/-- The tokens of a row of operands take the machine over as many slots. -/
theorem run_of_derivesAll {ts : List String} {es : List Expr} : DerivesAll ts es →
    ∀ {p : Pending} {outer : List Pending},
      (∀ count, p.operator.arity = .fixed count → p.operands.length + es.length ≤ count) →
      run (.within p outer) (ts.map Token.classify) =
        .ok (.within { p with operands := es.reverse ++ p.operands } outer)
  | .nil, _, _, _ => rfl
  | @DerivesAll.cons ts us e es first others, p, outer, h => by
    have hungry : Hungry (p :: outer) := by
      rw [hungry_cons, Pending.hungry_eq_true]
      intro count harity
      have hcount := h count harity
      rw [List.length_cons] at hcount
      omega
    have hfirst := run_of_derives first hungry
    have hroom : ∀ count, p.operator.arity = .fixed count →
        (e :: p.operands).length + es.length ≤ count := by
      intro count harity
      have hcount := h count harity
      rw [List.length_cons] at hcount ⊢
      omega
    have hothers : run (.within ⟨p.operator, e :: p.operands⟩ outer) (us.map Token.classify) =
        .ok (.within ⟨p.operator, es.reverse ++ e :: p.operands⟩ outer) :=
      run_of_derivesAll others hroom
    rw [List.map_append, show State.within p outer = seeking (p :: outer) from rfl,
      run_append_of_ok hfirst]
    refine hothers.trans ?_
    simp only [List.reverse_cons, List.append_assoc, List.singleton_append]

end

/-! ### A state spells the tokens that led to it -/

/-- A row of operands goes on with one operand more. -/
theorem derivesAll_concat {ts us : List String} {es : List Expr} {e : Expr} (h : DerivesAll ts es)
    (hlast : Derives us e) : DerivesAll (ts ++ us) (es ++ [e]) := by
  induction es generalizing ts with
  | nil =>
    cases h
    have hone := DerivesAll.cons hlast .nil
    rwa [List.append_nil] at hone
  | cons f es ih =>
    cases h with
    | cons first others =>
      rw [List.append_assoc]
      exact .cons first (ih others)

/-- `Spelled opened ts`: the token texts `ts` open the operations `opened` and spell the operands that
these have so far, and each of them has a place for the operation inside it. -/
inductive Spelled : List Pending → List String → Prop where
  | nil : Spelled [] []
  | cons {p : Pending} {outer : List Pending} {ts us : List String} (around : Spelled outer ts)
      (room : Hungry outer) (fits : p.Fits) (operands : DerivesAll us p.operands.reverse) :
      Spelled (p :: outer) (ts ++ "(" :: p.operator.symbol :: us)

/-- `Reached state ts`: the token texts `ts` are what the machine has taken in the state. -/
inductive Reached : State → List String → Prop where
  | start : Reached .start []
  | begun {outer : List Pending} {ts : List String} (around : Spelled outer ts)
      (room : Hungry outer) : Reached (.begun outer) (ts ++ ["("])
  | within {p : Pending} {outer : List Pending} {ts : List String}
      (around : Spelled (p :: outer) ts) : Reached (.within p outer) ts
  | complete {e : Expr} {ts : List String} (whole : Derives ts e) : Reached (.complete e) ts

theorem Spelled.place {opened : List Pending} {ts us : List String} {e : Expr}
    (h : Spelled opened ts) (room : Hungry opened) (hlast : Derives us e) :
    Reached (.place e opened) (ts ++ us) := by
  cases h with
  | nil => exact .complete hlast
  | @cons p outer ts vs around room' _ operands =>
    have hfits : Pending.Fits { p with operands := e :: p.operands } :=
      Pending.hungry_eq_true.1 (hungry_cons.1 room)
    have hoperands : DerivesAll (vs ++ us) (e :: p.operands).reverse := by
      rw [List.reverse_cons]
      exact derivesAll_concat operands hlast
    rw [List.append_assoc]
    exact .within (.cons (p := { p with operands := e :: p.operands }) around room' hfits hoperands)

theorem Spelled.takeOperand {opened : List Pending} {ts : List String} {t : String} {state : State}
    (h : Spelled opened ts) (room : Hungry opened) (ht : t ≠ "")
    (htake : takeOperand opened (.classify t) = .ok state) : Reached state (ts ++ [t]) := by
  have htext := Token.text_classify ht
  rcases hc : Token.classify t with _ | _ | text | v | text | _ <;> rw [hc] at htext htake
  · cases htake
    rw [← htext]
    exact .begun h room
  · cases htake
  · rw [Machine.takeOperand] at htake
    rcases hv : Numeral.read? text.toList with - | v <;> rw [hv] at htake <;> cases htake
    rw [← htext]
    exact h.place room (.integer (Numeral.read?_eq_some.1 hv))
  · cases htake
    rw [← htext]
    exact h.place room (.var v)
  · cases htake
  · cases htake

/-- Closing an operation that lacks nothing makes an expression of what was spelled in it. -/
theorem Spelled.close {p : Pending} {outer : List Pending} {ts : List String}
    (h : Spelled (p :: outer) ts) (hlacking : p.lacking = false) :
    Reached (.place p.close outer) (ts ++ [")"]) := by
  cases h with
  | @cons _ _ ts us around room fits operands =>
    have hcount : p.operator.arity.Accepts p.operands.reverse.length := by
      rw [List.length_reverse]
      exact fits.accepts hlacking
    rw [List.append_assoc]
    exact around.place room (.operation hcount operands)

/-- One token more is spelled by the next state. -/
theorem Reached.step {state state' : State} {ts : List String} {t : String} (h : Reached state ts)
    (ht : t ≠ "") (hstep : step state (.classify t) = .ok state') : Reached state' (ts ++ [t]) := by
  cases h with
  | start => exact Spelled.nil.takeOperand hungry_nil ht hstep
  | @begun outer ts around room =>
    rw [Machine.step, Token.text_classify ht] at hstep
    rcases ho : Operator.ofSymbol? t with - | o <;> rw [ho] at hstep <;> cases hstep
    rw [Operator.ofSymbol?_eq_some.1 ho, List.append_assoc]
    exact .within (.cons (p := ⟨o, []⟩) around room (fun _ _ => Nat.zero_le _) .nil)
  | @within p outer ts around =>
    by_cases hclose : Token.classify t = .closeParenthesis
    · have htext := Token.text_classify ht
      rw [hclose] at htext hstep
      rw [Machine.step] at hstep
      rcases hlacking : p.lacking with - | - <;> rw [hlacking] at hstep <;> cases hstep
      rw [← htext]
      exact around.close hlacking
    · rcases hhungry : p.hungry with - | -
      · rw [step_full outer hhungry hclose] at hstep
        cases hstep
      · have room : Hungry (p :: outer) := hungry_cons.2 hhungry
        exact around.takeOperand room ht ((step_seeking room hclose).symm.trans hstep)
  | complete _ => cases hstep

theorem Reached.run {state state' : State} {ts us : List String} (h : Reached state ts)
    (hus : "" ∉ us) (hrun : run state (us.map Token.classify) = .ok state') :
    Reached state' (ts ++ us) := by
  induction us generalizing state ts with
  | nil =>
    cases hrun
    rwa [List.append_nil]
  | cons t us ih =>
    rw [List.mem_cons, not_or] at hus
    rw [List.map_cons, run_cons_eq_ok] at hrun
    obtain ⟨next, hstep, hnext⟩ := hrun
    have hrest := ih (h.step (Ne.symm hus.1) hstep) hus.2 hnext
    rwa [List.append_assoc] at hrest

end Machine

/-! ### Texts -/

theorem Text.empty_not_mem_pieces (cs : List Char) : "" ∉ pieces cs := by
  induction cs using text_induction with
  | blank gap hgap => rw [pieces_of_gap hgap]; exact List.not_mem_nil
  | piece gap p rest hgap hp ih =>
    rw [pieces_gap hgap, pieces_piece hp, List.mem_cons, not_or]
    refine ⟨fun h => hp.ne_nil ?_, ih⟩
    rw [← String.toList_ofList (l := p), ← h]
    rfl

/-- What the machine has taken of a text is spelled by its state. -/
theorem Machine.reached_of_run {cs : List Char} {state : State}
    (h : run .start (tokensOf cs) = .ok state) : Reached state (pieces cs) :=
  Reached.start.run (empty_not_mem_pieces cs) h

theorem Machine.run_start_of_derives {ts : List String} {e : Expr} (h : Derives ts e) :
    run .start (ts.map Token.classify) = .ok (.complete e) :=
  run_of_derives h hungry_nil

/-- No row of pieces derives two expressions. -/
theorem derives_unique {ts : List String} {e f : Expr} (he : Derives ts e) (hf : Derives ts f) :
    e = f := by
  cases (Machine.run_start_of_derives he).symm.trans (Machine.run_start_of_derives hf)
  rfl

namespace Expr

theorem derives_of_parse {source : String} {e : Expr} (h : parse source = .ok e) :
    Derives (pieces source.toList) e := by
  cases Machine.reached_of_run (parse_eq_ok.1 h) with
  | complete whole => exact whole

theorem wellFormed_of_parse {source : String} {e : Expr} (h : parse source = .ok e) : e.WellFormed :=
  wellFormed_of_derives (derives_of_parse h)

theorem parse_of_derives {source : String} {e : Expr} (h : Derives (pieces source.toList) e) :
    parse source = .ok e :=
  parse_eq_ok.2 (Machine.run_start_of_derives h)

/-- A text is read as an expression exactly if its pieces derive that expression, and no row of pieces
derives two. -/
theorem parse_iff_derives :
    (∀ (source : String) (e : Expr), parse source = .ok e ↔ Derives (pieces source.toList) e) ∧
      ∀ (ts : List String) (e f : Expr), Derives ts e → Derives ts f → e = f := by
  refine ⟨fun source e => ?_, fun ts e f he hf => ?_⟩
  · rw [parse_eq_ok]
    constructor
    · intro h
      cases Machine.reached_of_run h with
      | complete whole => exact whole
    · exact Machine.run_start_of_derives
  · have h := (Machine.run_start_of_derives he).symm.trans (Machine.run_start_of_derives hf)
    cases h
    rfl

/-- The one expression of a row of pieces in which a `-` is an operator and begins a numeral. -/
theorem derives_difference :
    Derives ["(", "-", "x", "-7", ")"] (.operation .subtract [.var .x, .integer (-7)]) ∧
      ∀ e, Derives ["(", "-", "x", "-7", ")"] e →
        e = .operation .subtract [.var .x, .integer (-7)] := by
  have hseven : Numeral.Denotes "-7".toList (-7 : Int64).toInt := Numeral.read?_eq_some.1 (by decide)
  have hrow : DerivesAll ["x", "-7"] [.var .x, .integer (-7)] :=
    .cons (.var .x) (.cons (.integer hseven) .nil)
  have h : Derives ["(", "-", "x", "-7", ")"] (.operation .subtract [.var .x, .integer (-7)]) :=
    .operation (o := .subtract) (by decide) hrow
  exact ⟨h, fun e he => parse_iff_derives.2 _ e _ he h⟩

end Expr

end Polish
