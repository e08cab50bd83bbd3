import Polish.Mark
import Polish.Proofs.RoundTrip

/-!
What is written for the nodes of an expression. Each label is a word, so it holds no blank and no
parenthesis. Main statements: `newline_not_mem_prefixText`, prefix text is on one line;
`filter_spelling`, prefix text without its parentheses is the labels in pre-order.
-/

namespace Polish

open Text

theorem Text.Word.not_mem {w : List Char} (h : Word w) {c : Char} (hc : isDelimiter c = true) :
    c ∉ w := by
  intro hmem
  rw [h.2 c hmem] at hc
  exact Bool.false_ne_true hc

theorem Mark.word_text (m : Mark) : Word m.text.toList := by
  cases m with
  | integer v => exact Numeral.word_text v
  | var v => exact v.word_name
  | operator o => exact o.word_symbol

namespace Expr

theorem Label.word_text (l : Label) : Word l.text.toList := by
  rw [Label.text_eq_text_mark]
  exact l.mark.word_text

theorem Label.space_not_mem (l : Label) : ' ' ∉ l.text.toList := l.word_text.not_mem rfl

theorem Label.newline_not_mem (l : Label) : '\n' ∉ l.text.toList := l.word_text.not_mem rfl

mutual

/-- Prefix text is on one line. -/
theorem newline_not_mem_prefixText : (e : Expr) → '\n' ∉ e.prefixText.toList
  | integer v => Label.newline_not_mem (.integer v)
  | .var v => Label.newline_not_mem (.var v)
  | operation o es => by
    have hsymbol : '\n' ∉ o.symbol.toList := Label.newline_not_mem (.operation o es.length)
    have hoperands := newline_not_mem_operandsText es
    simp [prefixText, hsymbol, hoperands]

theorem newline_not_mem_operandsText : (es : List Expr) → '\n' ∉ (operandsText es).toList
  | [] => List.not_mem_nil
  | e :: es => by
    have hfirst := newline_not_mem_prefixText e
    have hrest := newline_not_mem_operandsText es
    simp [operandsText, hfirst, hrest]

end

/-- Whether a piece of a text is no parenthesis. -/
def plain (piece : String) : Bool := piece ≠ "(" ∧ piece ≠ ")"

theorem Label.plain_text (l : Label) : plain l.text = true := by
  refine decide_eq_true ⟨?_, ?_⟩
  · intro h
    exact l.word_text.not_mem (c := '(') (by decide) (h ▸ by decide)
  · intro h
    exact l.word_text.not_mem (c := ')') (by decide) (h ▸ by decide)

mutual

theorem filter_spelling : (e : Expr) → ∀ depth : Nat,
    (spelling e).filter plain = (e.preorder depth).map fun n => n.2.text
  | integer v, _ => List.filter_cons_of_pos (Label.plain_text (.integer v))
  | .var v, _ => List.filter_cons_of_pos (Label.plain_text (.var v))
  | operation o es, depth => by
    have hsymbol : plain o.symbol = true := Label.plain_text (.operation o es.length)
    rw [spelling, List.filter_append, List.filter_cons_of_neg (by decide),
      List.filter_cons_of_pos hsymbol, filter_spellingAll es (depth + 1), preorder, List.map_cons]
    exact List.append_nil _

theorem filter_spellingAll : (es : List Expr) → ∀ depth : Nat,
    (spellingAll es).filter plain = (preorderAll depth es).map fun n => n.2.text
  | [], _ => rfl
  | e :: es, depth => by
    rw [spellingAll, List.filter_append, filter_spelling e depth, filter_spellingAll es depth,
      preorderAll, List.map_append]

end

end Expr

end Polish
