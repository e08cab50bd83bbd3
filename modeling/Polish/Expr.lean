import Polish.Numeral
import Polish.Operator
import Polish.Variable

/-!
Expressions as trees. The type itself lets an operation have any number of operands; `WellFormed`
says that every operation has as many as its operator accepts, and `operation?` builds no other.
Main statement: `operation?_eq_ok`, the checked constructor accepts exactly the fitting operands.
-/

namespace Polish

inductive Expr where
  | integer (value : Int64)
  | var (v : Variable)
  | operation (o : Operator) (operands : List Expr)

namespace Expr

mutual

/-- Trees are equal if their roots are and their operands are, one by one. -/
def decEq : (a b : Expr) → Decidable (a = b)
  | integer v, integer w =>
    if h : v = w then .isTrue (h ▸ rfl) else .isFalse fun e => h (integer.inj e)
  | .var v, .var w =>
    if h : v = w then .isTrue (h ▸ rfl) else .isFalse fun e => h (var.inj e)
  | operation o es, operation p fs =>
    if h : o = p then
      match decEqList es fs with
      | .isTrue hs => .isTrue (h ▸ hs ▸ rfl)
      | .isFalse hs => .isFalse fun e => hs (operation.inj e).2
    else .isFalse fun e => h (operation.inj e).1
  | integer _, .var _ => .isFalse nofun
  | integer _, operation _ _ => .isFalse nofun
  | .var _, integer _ => .isFalse nofun
  | .var _, operation _ _ => .isFalse nofun
  | operation _ _, integer _ => .isFalse nofun
  | operation _ _, .var _ => .isFalse nofun

def decEqList : (es fs : List Expr) → Decidable (es = fs)
  | [], [] => .isTrue rfl
  | [], _ :: _ => .isFalse nofun
  | _ :: _, [] => .isFalse nofun
  | e :: es, f :: fs =>
    match decEq e f with
    | .isFalse h => .isFalse fun heq => h (List.cons.inj heq).1
    | .isTrue h =>
      match decEqList es fs with
      | .isTrue hs => .isTrue (h ▸ hs ▸ rfl)
      | .isFalse hs => .isFalse fun heq => hs (List.cons.inj heq).2

end

instance : DecidableEq Expr := decEq

/-- Induction over trees: an operation has what all its operands have. -/
@[elab_as_elim]
theorem recOperands {motive : Expr → Prop} (integer : ∀ v, motive (.integer v))
    (var : ∀ v, motive (.var v))
    (operation : ∀ o es, (∀ e ∈ es, motive e) → motive (.operation o es)) (e : Expr) : motive e :=
  @Expr.rec motive (fun es => ∀ e ∈ es, motive e) integer var operation (fun _ h => nomatch h)
    (fun _ _ he hes _ h => (List.mem_cons.1 h).elim (fun h => h ▸ he) (hes _)) e

/-- Every operation in the tree has an operand count that its operator accepts. -/
inductive WellFormed : Expr → Prop where
  | integer (v : Int64) : WellFormed (.integer v)
  | var (v : Variable) : WellFormed (.var v)
  | operation {o : Operator} {es : List Expr} (fits : o.arity.Accepts es.length)
      (operands : ∀ e ∈ es, WellFormed e) : WellFormed (.operation o es)

/-- An operator was given a number of operands that it does not accept. -/
structure ArityMismatch where
  operator : Operator
  count : Nat
  deriving DecidableEq

/-- The sentence for a mismatch. -/
def ArityMismatch.message (m : ArityMismatch) : String :=
  "Operation " ++ m.operator.symbol ++ " does not accept " ++ Numeral.natText m.count ++ " operands"

/-- The operation of an operator on operands, if it accepts that many. -/
def operation? (o : Operator) (es : List Expr) : Except ArityMismatch Expr :=
  if o.arity.Accepts es.length then .ok (operation o es) else .error ⟨o, es.length⟩

theorem operation?_eq_ok {o : Operator} {es : List Expr} {e : Expr} :
    operation? o es = .ok e ↔ o.arity.Accepts es.length ∧ e = operation o es := by
  unfold operation?
  split <;> simp [*, eq_comm]

/-- Whether the tree is a leaf. -/
def isValue : Expr → Bool
  | operation _ _ => false
  | _ => true

/-- The operator at the root. -/
def operator? : Expr → Option Operator
  | operation o _ => some o
  | _ => none

/-- The operands of the root: a leaf has none. -/
def operands : Expr → List Expr
  | operation _ es => es
  | _ => []

/-- What stands at a node: a leaf, or an operator with the number of its operands. -/
inductive Label where
  | integer (value : Int64)
  | var (v : Variable)
  | operation (o : Operator) (count : Nat)
  deriving DecidableEq

/-- What is written for a label. -/
def Label.text : Label → String
  | integer v => Numeral.text v
  | .var v => v.name
  | operation o _ => o.symbol

/-- The label of the root. -/
def label : Expr → Label
  | integer v => .integer v
  | .var v => .var v
  | operation o es => .operation o es.length

mutual

/-- The nodes in pre-order, each with its depth, the root having the given one. -/
def preorder (depth : Nat) : Expr → List (Nat × Label)
  | integer v => [(depth, .integer v)]
  | .var v => [(depth, .var v)]
  | operation o es => (depth, .operation o es.length) :: preorderAll (depth + 1) es

def preorderAll (depth : Nat) : List Expr → List (Nat × Label)
  | [] => []
  | e :: es => preorder depth e ++ preorderAll depth es

end

end Expr

end Polish
