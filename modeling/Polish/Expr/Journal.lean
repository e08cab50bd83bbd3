import Polish.Expr.Parse
import Polish.Text.Quoted

/-!
The journal of reading an expression: a record for each operator as it is taken up, and one at the
end if the text was an expression.
-/

namespace Polish

/-- How grave a record is. -/
inductive Level where | trace | debug
  deriving DecidableEq

/-- An entry of a journal. -/
structure Record where
  level : Level
  text : String
  deriving DecidableEq

/-- The text of an arity. -/
def Arity.text : Arity → String
  | fixed count => "Fixed(" ++ Numeral.natText count ++ ")"
  | variadic => "Variadic"

/-- The record of an operator taken up. -/
def Dispatch.record (d : Dispatch) : Record :=
  ⟨.trace, "Parsing operands of " ++ d.operator.symbol ++ " (" ++ d.operator.arity.text ++ ") at " ++
    Numeral.natText d.offset⟩

namespace Expr

/-- The record of an expression read, with the text as it was given. -/
def parsedRecord (source : String) (e : Expr) : Record :=
  ⟨.debug, "Parsed " ++ Text.quoted source ++ " into " ++ e.prefixText⟩

/-- What is recorded while a text is read: each operator as it is taken up and, if all goes well, the
expression at the end. -/
def journal (source : String) : List Record :=
  (readTrimmed source).dispatches.map Dispatch.record ++
    match parse source with
    | .ok e => [parsedRecord source e]
    | .error _ => []

end Expr

end Polish
