/-!
The parts of a binary64 number: its sign, and the mantissa and exponent of its magnitude. Next to the
magnitude stand the two bounds between which every real number rounds to it.
-/

namespace Polish.Decimal

/-- A positive magnitude with its rounding bounds, all three as multiples of one power of two. -/
structure Magnitude where
  low : Nat
  value : Nat
  high : Nat
  /-- The exponent of the power of two. -/
  exponent : Int
  /-- Whether the bounds themselves round to the magnitude as well. -/
  closed : Bool
  deriving DecidableEq

/-- The magnitude `mantissa · 2 ^ exponent`. Its neighbours are one unit of the mantissa away, and a
bound halves the distance; the lower neighbour of a power of two is only half a unit away. A bound
lies as near to the neighbour, and goes to whichever has the even mantissa. -/
def Magnitude.ofParts (mantissa : Nat) (exponent : Int) (lowerIsNearer : Bool) : Magnitude where
  low := 4 * mantissa - if lowerIsNearer then 1 else 2
  value := 4 * mantissa
  high := 4 * mantissa + 2
  exponent := exponent - 2
  closed := mantissa % 2 = 0

/-- A binary64 number by kind. -/
inductive Binary where
  | nan
  | infinite (negative : Bool)
  | zero (negative : Bool)
  | finite (negative : Bool) (magnitude : Magnitude)
  deriving DecidableEq

/-- The number that the 64 bits stand for: a sign bit, 11 bits of exponent and 52 of fraction. -/
def Binary.ofBits (bits : Nat) : Binary :=
  let negative := bits.testBit 63
  let biased := (bits >>> 52) % 0x800
  let fraction := bits % 0x10000000000000
  if biased = 0x7ff then
    if fraction = 0 then infinite negative else nan
  else if biased = 0 then
    if fraction = 0 then zero negative else finite negative (.ofParts fraction (-1074) false)
  else
    finite negative
      (.ofParts (0x10000000000000 + fraction) (biased - 1075) (fraction = 0 && biased ≠ 1))

end Polish.Decimal
