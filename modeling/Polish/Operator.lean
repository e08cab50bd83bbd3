/-!
The ten operators: how each is written and how many operands it takes. Main statement:
`ofSymbol?_eq_some`, a symbol names the operator that is written so and no other.
-/

namespace Polish

/-- How many operands an operator takes: a fixed number, or any number but none. -/
inductive Arity where
  | fixed (count : Nat)
  | variadic
  deriving DecidableEq

namespace Arity

/-- The operand counts that fit an arity. -/
def Accepts : Arity → Nat → Prop
  | fixed count, n => n = count
  | variadic, n => 1 ≤ n

instance : (a : Arity) → (n : Nat) → Decidable (a.Accepts n)
  | fixed count, n => inferInstanceAs (Decidable (n = count))
  | variadic, n => inferInstanceAs (Decidable (1 ≤ n))

end Arity

inductive Operator where
  | add | subtract | multiply | divide | negate | average5 | median3
  | arithmeticMean | geometricMean | harmonicMean
  deriving DecidableEq

namespace Operator

/-- Every operator, in the order of the language's operator table. -/
def all : List Operator :=
  [add, subtract, multiply, divide, negate, average5, median3,
    arithmeticMean, geometricMean, harmonicMean]

/-- The text of an operator, the same before its operands as behind them. -/
def symbol : Operator → String
  | add => "+"
  | subtract => "-"
  | multiply => "*"
  | divide => "/"
  | negate => "negate"
  | average5 => "avg5"
  | median3 => "med3"
  | arithmeticMean => "arith-mean"
  | geometricMean => "geom-mean"
  | harmonicMean => "harm-mean"

def arity : Operator → Arity
  | negate => .fixed 1
  | add | subtract | multiply | divide => .fixed 2
  | median3 => .fixed 3
  | average5 => .fixed 5
  | arithmeticMean | geometricMean | harmonicMean => .variadic

/-- The operator that is written as the text. -/
def ofSymbol? (text : String) : Option Operator := all.find? fun o => o.symbol = text

/-- The place of an operator in the operator table, from zero. -/
def index (o : Operator) : Nat := all.idxOf o

theorem mem_all (o : Operator) : o ∈ all := by cases o <;> decide

theorem symbol_injective {o p : Operator} (h : o.symbol = p.symbol) : o = p := by
  revert h
  cases o <;> cases p <;> decide

@[simp] theorem ofSymbol?_symbol (o : Operator) : ofSymbol? o.symbol = some o := by
  cases o <;> decide

theorem ofSymbol?_eq_some {text : String} {o : Operator} :
    ofSymbol? text = some o ↔ text = o.symbol := by
  constructor
  · intro h
    have hs := List.find?_some (p := fun o : Operator => decide (o.symbol = text)) h
    exact (of_decide_eq_true hs).symm
  · rintro rfl
    exact ofSymbol?_symbol o

end Operator

end Polish
