import Polish.Expr.Descent
import Polish.Expr.Text

/-!
Reading expressions from text in prefix notation. Blanks around the expression are dropped first;
positions count from the first character that is kept.
-/

namespace Polish

namespace Expr

/-- The attempt to read the characters of a text, blanks around them dropped. -/
def readTrimmed (source : String) : Attempt Expr := readRoot (.start (Text.trim source.toList))

/-- The expression that a text in prefix notation denotes. -/
def parse (source : String) : Except ParseError Expr :=
  if Text.trim source.toList = [] then .error ⟨.emptyExpression, none, []⟩
  else match (readTrimmed source).outcome with
    | .ok e => .ok e
    | .error fault => .error ⟨fault.cause, some fault.position, Text.trim source.toList⟩

/-- Whether the prefix text of an expression reads back as the same expression. -/
def readsBack (e : Expr) : Bool :=
  match parse e.prefixText with
  | .ok f => e = f
  | .error _ => false

end Expr

end Polish
