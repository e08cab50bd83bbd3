import Polish.Decimal.Shortest

/-!
Numbers as text in positional notation: the shortest digits that read back, never an exponent, and a
point only in front of a fraction.
-/

namespace Polish.Decimal

/-- The digits of `d · 10 ^ k` with a point where it belongs, if at all. -/
def positional (digits : List Char) (k : Int) : List Char :=
  let places := (-k).toNat
  let whole := digits.length - places
  if places = 0 then digits ++ List.replicate k.toNat '0'
  else if whole = 0 then '0' :: '.' :: List.replicate (places - digits.length) '0' ++ digits
  else digits.take whole ++ '.' :: digits.drop whole

/-- The text of a magnitude. -/
def Magnitude.text (m : Magnitude) : List Char :=
  positional (Nat.toDigits 10 m.shortest.1) m.shortest.2

/-- A minus sign in front of a negative number. -/
def signed (negative : Bool) (cs : List Char) : List Char := if negative then '-' :: cs else cs

/-- The text of a number: zero keeps its sign, and what is no number has none. -/
def Binary.text : Binary → List Char
  | nan => ['N', 'a', 'N']
  | infinite negative => signed negative ['i', 'n', 'f']
  | zero negative => signed negative ['0']
  | finite negative m => signed negative m.text

/-- The text of a float. -/
def text (v : Float) : String := String.ofList (Binary.ofBits v.toBits.toNat).text

end Polish.Decimal
