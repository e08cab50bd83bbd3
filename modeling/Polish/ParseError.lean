/-!
What can be wrong with a text that is no expression, and how it is reported: the cause, then the text
with a caret under the place.
-/

namespace Polish

/-- Why a text is no expression; a cause that is about a token or an operator carries its text. -/
inductive ParseError.Cause where
  | emptyExpression
  | trailingInput (token : String)
  | unknownOperation (token : String)
  | unknownSymbol (token : String)
  | invalidInteger (token : String)
  | missingArgument (operator : String)
  | noArguments (operator : String)
  | incorrectOperatorCall
  | unexpectedClosingParenthesis
  | unexpectedEndOfInput
  deriving DecidableEq

/-- The sentence for a cause. -/
def ParseError.Cause.message : ParseError.Cause → String
  | emptyExpression => "Empty expression"
  | trailingInput t => "Unexpected input after the end of the expression: " ++ t
  | unknownOperation t => "Unknown operation: " ++ t
  | unknownSymbol t => "Incorrect expression - unknown symbol: " ++ t
  | invalidInteger t => "Invalid integer literal: " ++ t
  | missingArgument o => "No argument for operation " ++ o
  | noArguments o => "Operation " ++ o ++ " needs at least one argument"
  | incorrectOperatorCall => "Incorrect operator call"
  | unexpectedClosingParenthesis => "Unexpected ')'"
  | unexpectedEndOfInput => "Unexpected end of input, expected ')'"

/-- A text with a caret on the line below it, under the last of the characters up to a position; with
no position, or none passed, the caret stands in the first column. Line breaks of the text itself are
kept and not counted for. -/
def excerpt (source : List Char) (position : Option Nat) : String :=
  String.ofList (source ++ '\n' :: List.replicate (position.getD 0 - 1) ' ' ++ ['^'])

/-- A failure to read an expression. -/
structure ParseError where
  cause : ParseError.Cause
  /-- How many characters had been read when the failure was noticed. -/
  position : Option Nat
  /-- The text that was read. -/
  source : List Char
  deriving DecidableEq

/-- The whole report: the cause, and on the next line the excerpt. -/
def ParseError.message (e : ParseError) : String :=
  e.cause.message ++ "\n" ++ excerpt e.source e.position

end Polish
