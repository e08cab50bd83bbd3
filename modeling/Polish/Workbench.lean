import Polish.Expr.Drawing
import Polish.Expr.Report

/-!
A workbench: a stack of expressions, and instructions that build, take apart, compare and show them.
Main statement: `wellFormed_operation?`, putting expressions together through the checked constructor
keeps them well-formed.
-/

namespace Polish.Workbench

inductive Instruction where
  | integer (value : Int64)
  | var (name : String)
  | parse (text : String)
  | operation (symbol : String) (count : Nat)
  | swap
  | equal
  | drop
  | duplicate
  | child (index : Nat)
  | evaluate (p : Point)
  | describe (p : Point)
  | prefixText
  | postfixText
  | drawing
  | isValue
  | operator
  | readsBack

inductive Answer where
  /-- Nothing to tell. -/
  | silence
  /-- The stack holds fewer expressions than the instruction needs. -/
  | tooFew
  /-- An expression now stands on top. -/
  | expression (e : Expr)
  | unparsed (error : ParseError)
  | refused (mismatch : Expr.ArityMismatch)
  | flag (b : Bool)
  | value (v : Option Float)
  | text (t : Option String)
  | symbol (o : Option Operator)

/-- How many expressions an instruction needs on the stack. -/
def Instruction.needs : Instruction → Nat
  | integer _ | var _ | parse _ => 0
  | operation _ count => count
  | swap | equal => 2
  | _ => 1

/-- The expressions at hand, the top one first. -/
abbrev Stack := List Expr

/-- Puts an expression on top and tells it. -/
def push (e : Expr) (stack : Stack) : Answer × Stack := (.expression e, e :: stack)

/-- An instruction that looks at the top expression and leaves the stack as it is. -/
def inspect (look : Expr → Answer) (stack : Stack) : Answer × Stack :=
  match stack with
  | [] => (.tooFew, stack)
  | e :: _ => (look e, stack)

/-- An instruction on a stack that holds as much as it needs. An operation takes its operands away
even if it is refused; the deepest is the first. -/
def perform (stack : Stack) : Instruction → Answer × Stack
  | .integer value => push (.integer value) stack
  | .var name =>
    match Variable.ofName? name with
    | some v => push (.var v) stack
    | none => (.silence, stack)
  | .parse text =>
    match Expr.parse text with
    | .ok e => push e stack
    | .error error => (.unparsed error, stack)
  | .operation symbol count =>
    match Operator.ofSymbol? symbol with
    | none => (.silence, stack)
    | some o =>
      match Expr.operation? o (stack.take count).reverse with
      | .ok e => push e (stack.drop count)
      | .error mismatch => (.refused mismatch, stack.drop count)
  | .swap =>
    match stack with
    | e :: f :: rest => (.silence, f :: e :: rest)
    | _ => (.tooFew, stack)
  | .equal =>
    match stack with
    | e :: f :: _ => (.flag (e = f), stack)
    | _ => (.tooFew, stack)
  | .drop => (.silence, stack.drop 1)
  | .duplicate =>
    match stack with
    | [] => (.tooFew, stack)
    | e :: rest => push e (e :: rest)
  | .child index =>
    match stack with
    | [] => (.tooFew, stack)
    | e :: rest =>
      match e.operands[index]? with
      | some f => push f rest
      | none => (.silence, stack)
  | .evaluate p => inspect (fun e => .value (e.value? p)) stack
  | .describe p => inspect (fun e => .text (e.describe? p)) stack
  | .prefixText => inspect (fun e => .text e.prefixText) stack
  | .postfixText => inspect (fun e => .text e.postfixText) stack
  | .drawing => inspect (fun e => .text e.drawing) stack
  | .isValue => inspect (fun e => .flag e.isValue) stack
  | .operator => inspect (fun e => .symbol e.operator?) stack
  | .readsBack => inspect (fun e => .flag e.readsBack) stack

/-- One instruction; without enough on the stack nothing happens. -/
def step (stack : Stack) (i : Instruction) : Answer × Stack :=
  if stack.length < i.needs then (.tooFew, stack) else perform stack i

/-- The instructions in order, each with its answer and the stack after it. -/
def run (stack : Stack) : List Instruction → List (Answer × Stack)
  | [] => []
  | i :: is => step stack i :: run (step stack i).2 is

theorem wellFormed_operation? {o : Operator} {es : List Expr} {e : Expr}
    (hes : ∀ f ∈ es, f.WellFormed) (h : Expr.operation? o es = .ok e) : e.WellFormed := by
  obtain ⟨fits, rfl⟩ := Expr.operation?_eq_ok.1 h
  exact .operation fits hes

end Polish.Workbench
