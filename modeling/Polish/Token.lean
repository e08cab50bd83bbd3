import Polish.Variable

/-!
Tokens: what a piece of text stands for in an expression. Main statement: `text_classify`, a token
other than the end of input is written as the text that it was classified from.
-/

namespace Polish

inductive Token where
  | openParenthesis
  | closeParenthesis
  /-- A `-` or a digit, then digits only; its value may still be out of range, or missing. -/
  | integer (text : String)
  | var (v : Variable)
  /-- All other text, such as an operator's symbol. -/
  | symbol (text : String)
  | endOfInput
  deriving DecidableEq

/-- Integer-shaped text begins with `-` or a digit and goes on with digits; a `-` alone has the
shape too. -/
def integerShaped : List Char → Bool
  | [] => false
  | c :: cs => (c == '-' || c.isDigit) && cs.all Char.isDigit

namespace Token

/-- The token that a text stands for: no text at all is the end of input. -/
def classify (text : String) : Token :=
  if text = "" then endOfInput
  else if text = "(" then openParenthesis
  else if text = ")" then closeParenthesis
  else if integerShaped text.toList then integer text
  else match Variable.ofName? text with
    | some v => .var v
    | none => symbol text

/-- How a token is written. -/
def text : Token → String
  | openParenthesis => "("
  | closeParenthesis => ")"
  | integer t | symbol t => t
  | .var v => v.name
  | endOfInput => "end of input"

@[simp] theorem classify_eq_endOfInput {t : String} : classify t = endOfInput ↔ t = "" := by
  unfold classify
  repeat' split
  all_goals simp_all

/-- Classifying loses nothing of a text. -/
theorem text_classify {t : String} (h : t ≠ "") : (classify t).text = t := by
  unfold classify
  repeat' split
  all_goals simp_all [text, Variable.ofName?_eq_some]

end Token

end Polish
