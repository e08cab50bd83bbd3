import Polish.Expr
import Polish.ParseError
import Polish.Token

/-!
Reading an expression in one pass. The machine takes each token once, from left to right, and keeps the
operations that are open with the operands they have so far; it stops at the first token it cannot
take. Main statement: `run_append`, a stop is final, whatever tokens would follow.

    nothing read ──▶ complete
      │ (               ▲ )
      ▼                 │
    begun ── symbol ──▶ within ── operand ──▶ within
-/

namespace Polish.Machine

/-- An operation that is open: its operator, and its operands so far, the last one first. -/
structure Pending where
  operator : Operator
  operands : List Expr

/-- Whether an open operation still lacks operands that its operator needs. -/
def Pending.lacking (p : Pending) : Bool :=
  match p.operator.arity with
  | .fixed count => p.operands.length < count
  | .variadic => p.operands.isEmpty

/-- Whether an open operation takes a further operand. -/
def Pending.hungry (p : Pending) : Bool :=
  match p.operator.arity with
  | .fixed count => p.operands.length < count
  | .variadic => true

/-- The operation that closing an open one makes. -/
def Pending.close (p : Pending) : Expr := .operation p.operator p.operands.reverse

/-- Where the machine is. The open operations around the innermost stand from inside to outside. -/
inductive State where
  | start
  /-- Behind an opening parenthesis, in front of an operator. -/
  | begun (outer : List Pending)
  | within (inner : Pending) (outer : List Pending)
  | complete (e : Expr)

/-- An expression is complete: it is an operand of the innermost open operation, or the whole. -/
def State.place (e : Expr) : List Pending → State
  | [] => complete e
  | p :: outer => within { p with operands := e :: p.operands } outer

/-- Takes a token where an operand may stand, other than a closing parenthesis. -/
def takeOperand (opened : List Pending) : Token → Except ParseError.Cause State
  | .openParenthesis => .ok (.begun opened)
  | .var v => .ok (.place (.var v) opened)
  | .integer text =>
    match Numeral.read? text.toList with
    | some v => .ok (.place (.integer v) opened)
    | none => .error (.invalidInteger text)
  | .symbol text => .error (.unknownSymbol text)
  | .closeParenthesis => .error .unexpectedClosingParenthesis
  | .endOfInput => .error .emptyExpression

/-- What is wrong with closing an operation that lacks operands. -/
def Pending.complaint (p : Pending) : ParseError.Cause :=
  match p.operator.arity with
  | .fixed _ => .missingArgument p.operator.symbol
  | .variadic => .noArguments p.operator.symbol

/-- Takes one token. -/
def step : State → Token → Except ParseError.Cause State
  | .start, t => takeOperand [] t
  | .begun outer, t =>
    match Operator.ofSymbol? t.text with
    | some o => .ok (.within ⟨o, []⟩ outer)
    | none => .error (.unknownOperation t.text)
  | .within inner outer, .closeParenthesis =>
    if inner.lacking then .error inner.complaint else .ok (.place inner.close outer)
  | .within inner outer, t =>
    if inner.hungry then takeOperand (inner :: outer) t else .error .incorrectOperatorCall
  | .complete _, t => .error (.trailingInput t.text)

/-- What is read when no token is left. -/
def finish : State → Except ParseError.Cause Expr
  | .start => .error .emptyExpression
  | .begun _ => .error .unexpectedEndOfInput
  | .within inner _ =>
    match inner.operator.arity with
    | .fixed _ =>
      if inner.lacking then .error (.missingArgument inner.operator.symbol)
      else .error .unexpectedEndOfInput
    | .variadic => .error .unexpectedEndOfInput
  | .complete e => .ok e

/-- The state behind the tokens, or the cause at the first that cannot be taken. -/
def run (state : State) (tokens : List Token) : Except ParseError.Cause State :=
  tokens.foldlM step state

/-- The expression that the tokens spell. -/
def read (tokens : List Token) : Except ParseError.Cause Expr := run .start tokens >>= finish

theorem run_append (state : State) (ts us : List Token) :
    run state (ts ++ us) = run state ts >>= fun s => run s us := by
  simp [run, List.foldlM_append]

end Polish.Machine
