import Polish.Operator

/-!
What each operator makes of the values of its operands. All arithmetic is binary64 and in operand
order: sums start from zero, products from one. Main statement: `reduce?_isSome_of_accepts`, an
operator has a value on every row of operands that its arity accepts.
-/

namespace Polish

namespace Reduction

/-- The sum of the values, added up from zero. -/
def sum (values : List Float) : Float := values.foldl (fun total v => total + v) 0

/-- The product of the values, multiplied up from one. -/
def product (values : List Float) : Float := values.foldl (fun total v => total * v) 1

/-- How many values there are, as a float. -/
def count (values : List Float) : Float := Float.ofNat values.length

/-- The arithmetic mean: the sum over the count. -/
def arithmeticMean (values : List Float) : Float := sum values / count values

/-- The geometric mean: the count-th root of the product's magnitude. -/
def geometricMean (values : List Float) : Float := Float.pow (product values).abs (1 / count values)

/-- The harmonic mean: the count over the sum of the reciprocals. -/
def harmonicMean (values : List Float) : Float :=
  count values / values.foldl (fun total v => total + 1 / v) 0

/-- Whether a value lies between two bounds, the bounds included. -/
def between (low value high : Float) : Bool := low ≤ value && value ≤ high

/-- The middle one of three values: the first that lies between the other two, either way round,
and the third if none does. -/
def median (a b c : Float) : Float :=
  if between b a c || between c a b then a
  else if between a b c || between c b a then b
  else c

end Reduction

namespace Operator

/-- The value of an operator on a row of values. The sum, the product and the means take a row of
any length; the others look at as many values as they need, and have no value on a shorter row. -/
def reduce? : Operator → List Float → Option Float
  | add, values => some (Reduction.sum values)
  | multiply, values => some (Reduction.product values)
  | average5, values => some (Reduction.arithmeticMean values)
  | arithmeticMean, values => some (Reduction.arithmeticMean values)
  | geometricMean, values => some (Reduction.geometricMean values)
  | harmonicMean, values => some (Reduction.harmonicMean values)
  | subtract, a :: b :: _ => some (a - b)
  | divide, a :: b :: _ => some (a / b)
  | negate, a :: _ => some (-a)
  | median3, a :: b :: c :: _ => some (Reduction.median a b c)
  | _, _ => none

theorem reduce?_isSome_of_accepts {o : Operator} {values : List Float}
    (h : o.arity.Accepts values.length) : (o.reduce? values).isSome := by
  cases o with
  | negate =>
    match values, h with
    | [_], _ => rfl
  | subtract | divide =>
    match values, h with
    | [_, _], _ => rfl
  | median3 =>
    match values, h with
    | [_, _, _], _ => rfl
  | _ => rfl

end Operator

end Polish
