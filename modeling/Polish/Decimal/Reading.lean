/-!
Reading numbers from text: an optional sign, then digits with an optional point and an optional
exponent, or a name of infinity or of what is no number. The value is the nearest binary64 number,
which is an infinity above all finite ones and a zero close to it.
-/

namespace Polish.Decimal

/-- A number in decimal notation without a sign: its digits as one whole number, and the power of ten
to multiply it by. -/
structure Literal where
  digits : Nat
  exponent : Int
  deriving DecidableEq

/-- The longest row of digits at the start, and what follows it. -/
def splitDigits (cs : List Char) : List Char × List Char :=
  (cs.takeWhile Char.isDigit, cs.dropWhile Char.isDigit)

/-- A sign at the start, true for a minus, and what follows it. -/
def splitSign : List Char → Bool × List Char
  | '-' :: cs => (true, cs)
  | '+' :: cs => (false, cs)
  | cs => (false, cs)

/-- The digits behind a point, if there is one, and what follows them. -/
def splitFraction : List Char → List Char × List Char
  | '.' :: cs => splitDigits cs
  | cs => ([], cs)

/-- The exponent that a text consists of, zero for no text: an `e` in either case, an optional sign
and at least one digit. -/
def readExponent? : List Char → Option Int
  | [] => some 0
  | c :: cs =>
    let digits := (splitSign cs).2
    if (c = 'e' ∨ c = 'E') ∧ digits ≠ [] ∧ digits.all Char.isDigit then
      let n : Int := Nat.ofDigitChars 10 digits 0
      some (if (splitSign cs).1 then -n else n)
    else none

/-- The literal that a text consists of: at least one digit, before or behind the point. -/
def Literal.read? (cs : List Char) : Option Literal :=
  let (whole, rest) := splitDigits cs
  let (fraction, rest) := splitFraction rest
  if whole = [] ∧ fraction = [] then none
  else (readExponent? rest).map fun e =>
    ⟨Nat.ofDigitChars 10 (whole ++ fraction) 0, e - fraction.length⟩

/-- The float nearest to a literal. -/
def Literal.value (l : Literal) : Float :=
  Float.ofScientific l.digits (l.exponent < 0) l.exponent.natAbs

/-- The magnitude that a text without its sign denotes; the names are read in either case. -/
def readMagnitude? (cs : List Char) : Option Float :=
  let name := cs.map Char.toLower
  if name = "inf".toList ∨ name = "infinity".toList then some (1 / 0)
  else if name = "nan".toList then some (0 / 0)
  else (Literal.read? cs).map Literal.value

/-- The float that a text denotes. -/
def read? (text : String) : Option Float :=
  let (negative, cs) := splitSign text.toList
  (readMagnitude? cs).map fun v => if negative then -v else v

end Polish.Decimal
