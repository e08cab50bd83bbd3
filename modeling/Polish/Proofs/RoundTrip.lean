import Polish.Proofs.Recognition

/-!
Prefix text reads back. The text of an expression is the row of its pieces with spaces between some
of them, and what comes behind the text does not run into it; a well-formed expression is derived
from these pieces. Main statement: `parse_prefixText`, a well-formed expression is read from its
prefix text.

    prefixText e ++ rest ── pieces ──▶ spelling e ++ pieces rest
-/

namespace Polish

open Text

/-! ### Words -/

theorem Text.isDelimiter_of_isDigit {c : Char} (h : c.isDigit = true) : isDelimiter c = false := by
  rw [isDelimiter, Bool.or_eq_false_iff, Bool.eq_false_iff, Bool.eq_false_iff]
  constructor
  · intro hblank
    rcases isBlank_iff.1 hblank with rfl | rfl | rfl | rfl <;> exact absurd h (by decide)
  · intro hparen
    rcases isParenthesis_iff.1 hparen with rfl | rfl <;> exact absurd h (by decide)

theorem Operator.word_symbol (o : Operator) : Word o.symbol.toList := by
  cases o <;> decide

theorem Variable.word_name (v : Variable) : Word v.name.toList := by
  cases v <;> decide

theorem Numeral.Denotes.word {cs : List Char} {w : Int} (h : Denotes cs w) : Word cs := by
  cases h with
  | nonnegative hne hdigits => exact ⟨hne, fun c hc => isDelimiter_of_isDigit (hdigits c hc)⟩
  | negative hne hdigits =>
    refine ⟨List.cons_ne_nil _ _, List.forall_mem_cons.2 ⟨by decide, fun c hc => ?_⟩⟩
    exact isDelimiter_of_isDigit (hdigits c hc)

theorem Numeral.word_text (v : Int64) : Word (text v).toList := by
  rw [text, String.toList_ofList]
  exact (denotes_ofInt64 v).word

namespace Expr

/-! ### The pieces of an expression's text -/

mutual

/-- The pieces of an expression's prefix text. -/
def spelling : Expr → List String
  | integer v => [Numeral.text v]
  | .var v => [v.name]
  | operation o es => "(" :: o.symbol :: spellingAll es ++ [")"]

def spellingAll : List Expr → List String
  | [] => []
  | e :: es => spelling e ++ spellingAll es

end

/-- Behind an operand there is a space, or else what stands behind the operands. -/
theorem ending_operandsText (es : List Expr) {rest : List Char} (hrest : Ending rest) :
    Ending ((operandsText es).toList ++ rest) := by
  cases es with
  | nil => exact hrest
  | cons e es =>
    rw [operandsText, String.toList_append, String.toList_append, List.append_assoc,
      List.append_assoc]
    exact ending_of_isDelimiter (by decide) _

mutual

theorem pieces_prefixText : (e : Expr) → ∀ {rest : List Char}, Ending rest →
    pieces (e.prefixText.toList ++ rest) = spelling e ++ pieces rest
  | integer v, _, hrest => pieces_word (Numeral.word_text v) hrest
  | .var v, _, hrest => pieces_word v.word_name hrest
  | operation o es, rest, hrest => by
    have hclose : Ending (')' :: rest) := ending_of_isDelimiter (by decide) rest
    have htext : (operation o es).prefixText.toList ++ rest =
        '(' :: (o.symbol.toList ++ ((operandsText es).toList ++ ')' :: rest)) := by
      simp only [prefixText, String.toList_append, List.append_assoc]
      rfl
    rw [htext, pieces_parenthesis (by decide),
      pieces_word o.word_symbol (ending_operandsText es hclose), pieces_operandsText es hclose,
      pieces_parenthesis (by decide), spelling]
    simp only [List.cons_append, List.append_assoc, List.nil_append]
    rfl

theorem pieces_operandsText : (es : List Expr) → ∀ {rest : List Char}, Ending rest →
    pieces ((operandsText es).toList ++ rest) = spellingAll es ++ pieces rest
  | [], _, _ => rfl
  | e :: es, rest, hrest => by
    have htext : (operandsText (e :: es)).toList ++ rest =
        [' '] ++ (e.prefixText.toList ++ ((operandsText es).toList ++ rest)) := by
      simp only [operandsText, String.toList_append, List.append_assoc]
      rfl
    rw [htext, pieces_gap gap_space, pieces_prefixText e (ending_operandsText es hrest),
      pieces_operandsText es hrest, spellingAll, List.append_assoc]

end

theorem pieces_prefixText_eq_spelling (e : Expr) : pieces e.prefixText.toList = spelling e := by
  have h := pieces_prefixText e ending_nil
  rwa [List.append_nil, pieces_nil, List.append_nil] at h

/-- Operands are spelled one after another if each has a derivation. -/
theorem derivesAll_spellingAll {es : List Expr} (h : ∀ e ∈ es, Derives (spelling e) e) :
    DerivesAll (spellingAll es) es := by
  induction es with
  | nil => exact .nil
  | cons e es ih =>
    obtain ⟨he, hes⟩ := List.forall_mem_cons.1 h
    exact .cons he (ih hes)

theorem WellFormed.derives {e : Expr} (h : e.WellFormed) : Derives (spelling e) e := by
  induction h with
  | integer v =>
    refine .integer ?_
    rw [Numeral.text, String.toList_ofList]
    exact Numeral.denotes_ofInt64 v
  | var v => exact .var v
  | operation fits _ ih => exact .operation fits (derivesAll_spellingAll ih)

/-- A well-formed expression is read from its prefix text. -/
theorem parse_prefixText {e : Expr} (h : e.WellFormed) : parse e.prefixText = .ok e := by
  have hpieces := pieces_prefixText e ending_nil
  rw [List.append_nil, pieces_nil, List.append_nil] at hpieces
  rw [parse_eq_ok, tokensOf, hpieces]
  exact Machine.run_start_of_derives h.derives

/-- The two ends of the integers, below operators of fixed arity and a variadic one. -/
theorem parse_prefixText_extremes :
    let e : Expr := .operation .subtract [.integer Int64.minValue,
      .operation .harmonicMean [.operation .negate [.var .x], .integer Int64.maxValue, .integer (-1)]]
    e.WellFormed ∧ parse e.prefixText = .ok e := by
  have hwf : WellFormed (.operation .subtract [.integer Int64.minValue, .operation .harmonicMean
      [.operation .negate [.var .x], .integer Int64.maxValue, .integer (-1)]]) := by
    refine .operation (by decide)
      (List.forall_mem_cons.2 ⟨.integer _, List.forall_mem_singleton.2 ?_⟩)
    refine .operation (by decide) (List.forall_mem_cons.2 ⟨?_, ?_⟩)
    · exact .operation (by decide) (List.forall_mem_singleton.2 (.var _))
    · exact List.forall_mem_cons.2 ⟨.integer _, List.forall_mem_singleton.2 (.integer _)⟩
  exact ⟨hwf, parse_prefixText hwf⟩

end Expr

end Polish
