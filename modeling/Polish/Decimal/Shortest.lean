import Polish.Decimal.Binary

/-!
The shortest decimal that reads back as a given binary number. Decimal grids, the multiples of the
powers of ten, are tried from coarse to fine, and the first grid with a point between the rounding
bounds gives the digits. Main statement: `fits_of_candidate?_eq_some`, what is chosen from a grid lies
between the bounds.
-/

namespace Polish.Decimal

/-- A magnitude measured on a decimal grid: the same three numbers as multiples of one unit, of which
so many make up a step of the grid. -/
structure Measured where
  low : Nat
  value : Nat
  high : Nat
  step : Nat
  closed : Bool

namespace Magnitude

/-- The magnitude measured on the multiples of `10 ^ k`. -/
def measure (m : Magnitude) (k : Int) : Measured :=
  let scale := Nat.pow 2 m.exponent.toNat * Nat.pow 10 (-k).toNat
  { low := m.low * scale
    value := m.value * scale
    high := m.high * scale
    step := Nat.pow 2 (-m.exponent).toNat * Nat.pow 10 k.toNat
    closed := m.closed }

/-- The exponent of the power of ten that is next below the magnitude, or equal to it. -/
def decimalExponent (m : Magnitude) : Int :=
  let whole := m.measure 0
  if whole.step ≤ whole.value then
    ((Nat.toDigits 10 (whole.value / whole.step)).length : Int) - 1
  else
    -((Nat.toDigits 10 ((whole.step - 1) / whole.value)).length : Int)

end Magnitude

namespace Measured

/-- Whether a point of the grid lies between the bounds. -/
def Fits (m : Measured) (point : Nat) : Prop :=
  if m.closed then m.low ≤ point * m.step ∧ point * m.step ≤ m.high
  else m.low < point * m.step ∧ point * m.step < m.high

instance (m : Measured) (point : Nat) : Decidable (m.Fits point) := by
  unfold Fits
  infer_instance

/-- The point of the grid below the magnitude. -/
def floor (m : Measured) : Nat := m.value / m.step

/-- The nearer of the two points around the magnitude, the upper one if both are as near. -/
def nearest (m : Measured) : Nat :=
  if 2 * (m.value % m.step) < m.step then m.floor else m.floor + 1

/-- The point of the grid to write: of the two around the magnitude the one that fits, the nearer if
both do. -/
def candidate? (m : Measured) : Option Nat :=
  if m.Fits m.nearest then some m.nearest
  else if m.Fits m.floor then some m.floor
  else if m.Fits (m.floor + 1) then some (m.floor + 1)
  else none

theorem fits_of_candidate?_eq_some {m : Measured} {point : Nat} (h : m.candidate? = some point) :
    m.Fits point := by
  unfold candidate? at h
  repeat' split at h
  all_goals first
    | (obtain rfl := Option.some.inj h; assumption)
    | nomatch h

end Measured

/-- Tries the grids from `10 ^ k` on, so many of them; the point nearest to the magnitude is taken on
the next if none has a point that fits. -/
def refine (m : Magnitude) : Nat → Int → Nat × Int
  | 0, k => ((m.measure k).nearest, k)
  | n + 1, k =>
    match (m.measure k).candidate? with
    | some point => (point, k)
    | none => refine m n (k - 1)

/-- The shortest decimal `d · 10 ^ k` that reads back as the magnitude, as `d` and `k`. The grid of
the first power of ten above the magnitude is the coarsest that can have a point, and with seventeen
digits every binary64 number has one. -/
def Magnitude.shortest (m : Magnitude) : Nat × Int := refine m 17 (m.decimalExponent + 1)

end Polish.Decimal
