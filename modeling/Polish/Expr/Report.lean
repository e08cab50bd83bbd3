import Polish.Decimal.Positional
import Polish.Expr.Parse
import Polish.Expr.Value
import Polish.Text.Quoted

/-!
What is told of an expression at a point: its value, or a description in three lines with its prefix
text, its postfix text and its value.
-/

namespace Polish

/-- A text that was to be evaluated is no expression. -/
structure Unreadable where
  source : String
  reason : ParseError

/-- The sentence about the text as a whole, with the text in quotes. -/
def Unreadable.message (u : Unreadable) : String :=
  "Could not parse expression " ++ Text.quoted u.source

/-- The messages from the outermost to the reason. -/
def Unreadable.chain (u : Unreadable) : List String := [u.message, u.reason.message]

namespace Expr

/-- Reads an expression that is to be evaluated. -/
def read (source : String) : Except Unreadable Expr :=
  (parse source).mapError fun reason => ⟨source, reason⟩

/-- The value at a point of the expression that a text denotes. -/
def evaluate (source : String) (p : Point) : Except Unreadable (Option Float) :=
  (read source).map fun e => e.value? p

/-- The description of an expression at a point, without a line feed at the end. -/
def describe? (e : Expr) (p : Point) : Option String :=
  (e.value? p).map fun v =>
    "prefix:  " ++ e.prefixText ++ "\npostfix: " ++ e.postfixText ++ "\nvalue:   " ++ Decimal.text v

end Expr

end Polish
