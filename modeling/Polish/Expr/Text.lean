import Polish.Expr

/-!
Expressions as text. In prefix text an operation stands in parentheses with its operator first; in
postfix text the operator follows its operands and there are no parentheses.
-/

namespace Polish.Expr

mutual

/-- The expression in prefix notation. An operation without operands would have no space in its
parentheses, `(+)`, but no operator accepts so few, and no such tree is ever read or made. -/
def prefixText : Expr → String
  | integer v => Numeral.text v
  | .var v => v.name
  | operation o es => "(" ++ o.symbol ++ operandsText es ++ ")"

/-- Operands in prefix notation, a space before each. -/
def operandsText : List Expr → String
  | [] => ""
  | e :: es => " " ++ prefixText e ++ operandsText es

end

mutual

/-- The expression in postfix notation; an operation without operands, which no operator accepts, would
be its symbol alone, with no space in front. -/
def postfixText : Expr → String
  | integer v => Numeral.text v
  | .var v => v.name
  | operation o es => argumentsText es ++ o.symbol

/-- Operands in postfix notation, a space behind each. -/
def argumentsText : List Expr → String
  | [] => ""
  | e :: es => postfixText e ++ " " ++ argumentsText es

end

end Polish.Expr
