import Polish.Expr

/-!
Marks: what stands for one node of an expression in a text, the number of operands apart. Main
statement: `ofText?_text`, the text of a mark tells the mark; no numeral is an operator or the name of
a variable, not even where both begin with `-`.
-/

namespace Polish

inductive Mark where
  | integer (value : Int64)
  | var (v : Variable)
  | operator (o : Operator)
  deriving DecidableEq

namespace Mark

/-- What is written for a mark. -/
def text : Mark → String
  | integer v => Numeral.text v
  | .var v => v.name
  | operator o => o.symbol

/-- How many operands stand below the mark wherever it stands: a leaf and an operator of any number of
operands have no such count. -/
def count? : Mark → Option Nat
  | operator o =>
    match o.arity with
    | .fixed count => some count
    | .variadic => none
  | _ => none

/-- The mark that is written as the text. -/
def ofText? (text : String) : Option Mark :=
  match Operator.ofSymbol? text, Variable.ofName? text with
  | some o, _ => some (operator o)
  | none, some v => some (.var v)
  | none, none => (Numeral.read? text.toList).map integer

theorem read?_text (v : Int64) : Numeral.read? (Numeral.text v).toList = some v := by
  rw [Numeral.text, String.toList_ofList, Numeral.read?_ofInt64]

theorem ofSymbol?_numeral (v : Int64) : Operator.ofSymbol? (Numeral.text v) = none := by
  rw [Option.eq_none_iff_forall_ne_some]
  intro o ho
  have hread : Numeral.read? o.symbol.toList = none := by cases o <;> decide
  have hnumeral := read?_text v
  rw [Operator.ofSymbol?_eq_some.1 ho, hread] at hnumeral
  cases hnumeral

theorem ofName?_numeral (v : Int64) : Variable.ofName? (Numeral.text v) = none := by
  rw [Option.eq_none_iff_forall_ne_some]
  intro w hw
  have hread : Numeral.read? w.name.toList = none := by cases w <;> decide
  have hnumeral := read?_text v
  rw [Variable.ofName?_eq_some.1 hw, hread] at hnumeral
  cases hnumeral

/-- A mark is told by its text. -/
@[simp] theorem ofText?_text (m : Mark) : ofText? m.text = some m := by
  cases m with
  | integer v => rw [text, ofText?, ofSymbol?_numeral, ofName?_numeral, read?_text]; rfl
  | var v => cases v <;> decide
  | operator o => rw [text, ofText?, Operator.ofSymbol?_symbol]

theorem text_injective {m n : Mark} (h : m.text = n.text) : m = n :=
  Option.some.inj ((ofText?_text m).symm.trans ((congrArg ofText? h).trans (ofText?_text n)))

end Mark

namespace Expr

/-- The mark of a label: an operation's is its operator. -/
def Label.mark : Label → Mark
  | integer v => .integer v
  | .var v => .var v
  | operation o _ => .operator o

theorem Label.text_eq_text_mark (l : Label) : l.text = l.mark.text := by
  cases l <;> rfl

end Expr

end Polish
