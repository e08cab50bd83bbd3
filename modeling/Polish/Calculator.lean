import Polish.Expr.Value
import Polish.Mark
import Polish.Text.Fields

/-!
A calculator for postfix text. It takes the words of a text from left to right and keeps a stack: a
numeral or a variable puts its value on top, an operator takes values off and puts one value there. How
many values an operator takes is told to the calculator beside the text, since a mean takes any number.
It works with any kind of values, given what leaves and operators mean in them.

    words     x   1   +
    stack   [] ─▶ x ─▶ 1 x ─▶ x + 1
    counts   2    2     2
-/

namespace Polish

namespace Calculator

variable {α : Type}

/-- What leaves and operators mean in a kind of values. An operator may lack a value on some rows. -/
structure Meaning (α : Type) where
  integer : Int64 → α
  var : Variable → α
  apply : Operator → List α → Option α

/-- The meaning in floats, at a point. -/
def Meaning.atPoint (p : Point) : Meaning Float where
  integer v := Float.ofInt v.toInt
  var := p.value
  apply := Operator.reduce?

/-- The meaning in expressions: an operator makes an operation of its operands. -/
def Meaning.tree : Meaning Expr where
  integer := .integer
  var := .var
  apply o es := some (.operation o es)

/-- The stack, the top value first, and how many values each operator to come takes. -/
structure State (α : Type) where
  stack : List α
  counts : List Nat

/-- Takes one word: none if it is no mark, if the stack holds fewer values than an operator takes, or
if the operator has no value on them. The deepest of the values is the first operand. -/
def step (m : Meaning α) (s : State α) (word : String) : Option (State α) :=
  match Mark.ofText? word, s.counts with
  | some (.integer v), counts => some ⟨m.integer v :: s.stack, counts⟩
  | some (.var v), counts => some ⟨m.var v :: s.stack, counts⟩
  | some (.operator o), n :: counts =>
    if n ≤ s.stack.length then
      (m.apply o (s.stack.take n).reverse).map fun v => ⟨v :: s.stack.drop n, counts⟩
    else none
  | _, _ => none

/-- The state behind the words, if all can be taken. -/
def run (m : Meaning α) (s : State α) (words : List String) : Option (State α) :=
  words.foldlM (step m) s

end Calculator

namespace Expr

mutual

/-- The nodes in post-order: those of the operands, one operand after the other, and then the root. -/
def postorder : Expr → List Label
  | integer v => [.integer v]
  | .var v => [.var v]
  | operation o es => postorderAll es ++ [.operation o es.length]

def postorderAll : List Expr → List Label
  | [] => []
  | e :: es => postorder e ++ postorderAll es

end

/-- The number of operands, at the node of an operation. -/
def Label.count? : Label → Option Nat
  | operation _ count => some count
  | _ => none

/-- The number of operands of each operation, in post-order. -/
def counts (e : Expr) : List Nat := e.postorder.filterMap Label.count?

mutual

/-- What an expression means in a kind of values. -/
def meaning? {α : Type} (m : Calculator.Meaning α) : Expr → Option α
  | integer v => some (m.integer v)
  | .var v => some (m.var v)
  | operation o es => (meanings? m es).bind (m.apply o)

def meanings? {α : Type} (m : Calculator.Meaning α) : List Expr → Option (List α)
  | [] => some []
  | e :: es => (meaning? m e).bind fun v => (meanings? m es).map (v :: ·)

end

end Expr

end Polish
