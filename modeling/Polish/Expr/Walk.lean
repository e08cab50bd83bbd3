import Polish.Attempt
import Polish.Cursor
import Polish.Expr.Parse

/-!
Reading an expression with one cursor. The cursor passes blanks and reads pieces, and it is set back at
the closing parenthesis behind the operands of an operator that takes any number of them, so that the
parenthesis is read again as the end of the operation. A call inside a call is given one unit of fuel
less, and without fuel nothing is read. What happens to the cursor is logged.

    (harm-mean x )     began at 10, operand from 10 to 12, continued,
             10 12 14  returned from 14 to 12, operand from 0 to 14
-/

namespace Polish

/-- What happens to the cursor. -/
inductive Motion where
  /-- An operator was taken up. -/
  | began (d : Dispatch)
  /-- An operand was read, from one position to another. -/
  | operand (start stop : Nat)
  /-- An operator got an operand, from one position to another, and looks for a further one. -/
  | continued (d : Dispatch) (start stop : Nat)
  /-- An operator has its operands, and the cursor was set back from one position to another. -/
  | returned (d : Dispatch) (start stop : Nat)
  deriving DecidableEq

/-- A log, and how the reading ended. -/
structure Trip (α : Type) where
  motions : List Motion
  outcome : Except Fault α

/-- A reading, or none if the fuel ran out or the cursor was stranded. -/
def Walk (α : Type) : Type := Option (Trip α)

namespace Walk

variable {α β : Type}

/-- Succeeds without a motion. -/
protected def pure (a : α) : Walk α := some ⟨[], .ok a⟩

/-- One walk after another: the second is made only if the first succeeds, and its motions come behind
the first's. -/
protected def bind (x : Walk α) (f : α → Walk β) : Walk β :=
  Option.bind x fun t =>
    match t.outcome with
    | .ok a => Option.map (fun u => ⟨t.motions ++ u.motions, u.outcome⟩) (f a)
    | .error fault => some ⟨t.motions, .error fault⟩

instance : Monad Walk where
  pure := Walk.pure
  bind := Walk.bind

/-- What a cursor finds, unless it is stranded. -/
def found (x : Option α) : Walk α := Option.map (fun a => ⟨[], .ok a⟩) x

/-- Fails where a cursor has got to. -/
def fail (cause : ParseError.Cause) (c : Cursor) : Walk α :=
  Option.map (fun n => ⟨[], .error ⟨cause, n⟩⟩) c.column?

/-- Logs a motion. -/
def log (m : Motion) : Walk Unit := some ⟨[m], .ok ()⟩

/-- A piece that is read, and the cursor behind it. -/
def piece (x : Option (List Char × Cursor)) : Walk (String × Cursor) :=
  found (x.map fun p => (String.ofList p.1, p.2))

/-- Passes blanks and reads a piece. -/
def next (c : Cursor) : Walk (String × Cursor) := piece c.nextPiece?

end Walk

namespace Expr

/-- What was found where an operand may stand. -/
inductive Found where
  | operand (e : Expr)
  | closing
  | nothing

/-- An operand was read that began at one cursor and ended at another. -/
def walkOperand (e : Expr) (c after : Cursor) : Walk (Found × Cursor) := do
  Walk.log (.operand c.position after.position)
  return (.operand e, after)

/-- Reads the closing parenthesis of an operation that has all its operands. -/
def walkClosing (c : Cursor) : Walk Cursor := do
  let (text, after) ← Walk.next c
  match Token.classify text with
  | .closeParenthesis => return after
  | .endOfInput => .fail .unexpectedEndOfInput after
  | _ => .fail .incorrectOperatorCall after

mutual

/-- Looks at the place that stands next for an operand. -/
def walkSlot : Nat → Cursor → Walk (Found × Cursor)
  | 0, _ => none
  | fuel + 1, c => do
    let (text, after) ← Walk.next c
    match Token.classify text with
    | .endOfInput => return (.nothing, after)
    | .closeParenthesis => return (.closing, after)
    | .openParenthesis =>
      let (e, inner) ← walkOperation fuel after
      let outer ← walkClosing inner
      walkOperand e c outer
    | .var v => walkOperand (.var v) c after
    | .integer text =>
      match Numeral.read? text.toList with
      | some v => walkOperand (.integer v) c after
      | none => .fail (.invalidInteger text) after
    | .symbol text => .fail (.unknownSymbol text) after

/-- Reads an operator and its operands. -/
def walkOperation : Nat → Cursor → Walk (Expr × Cursor)
  | 0, _ => none
  | fuel + 1, c => do
    let (text, after) ← Walk.next c
    if text = "" then .fail .unexpectedEndOfInput after
    else
      match Operator.ofSymbol? text with
      | none => .fail (.unknownOperation text) after
      | some o =>
        Walk.log (.began ⟨o, after.position⟩)
        match o.arity with
        | .fixed n =>
          let (es, last) ← walkFixed fuel o n after
          return (.operation o es, last)
        | .variadic =>
          let (es, last) ← walkVariadic fuel ⟨o, after.position⟩ after
          if es.isEmpty then .fail (.noArguments o.symbol) last
          else return (.operation o es, last)

/-- Reads the given number of operands. -/
def walkFixed : Nat → Operator → Nat → Cursor → Walk (List Expr × Cursor)
  | 0, _, _, _ => none
  | _ + 1, _, 0, c => return ([], c)
  | fuel + 1, o, n + 1, c => do
    match ← walkSlot fuel c with
    | (.operand e, after) =>
      let (es, last) ← walkFixed fuel o n after
      return (e :: es, last)
    | (.closing, after) => .fail (.missingArgument o.symbol) after
    | (.nothing, after) => .fail (.missingArgument o.symbol) after

/-- Reads operands up to a closing parenthesis, and sets the cursor back in front of it. -/
def walkVariadic : Nat → Dispatch → Cursor → Walk (List Expr × Cursor)
  | 0, _, _ => none
  | fuel + 1, d, c => do
    match ← walkSlot fuel c with
    | (.operand e, after) =>
      Walk.log (.continued d c.position after.position)
      let (es, last) ← walkVariadic fuel d after
      return (e :: es, last)
    | (.closing, after) =>
      Walk.log (.returned d after.position c.position)
      return ([], after.rewind c.position)
    | (.nothing, after) => .fail .unexpectedEndOfInput after

end

/-- Reads an expression that takes up the whole text. -/
def walkRoot (fuel : Nat) (c : Cursor) : Walk Expr := do
  match ← walkSlot fuel c with
  | (.operand e, after) =>
    let last ← Walk.found after.skipBlanks?
    if last.isAtEnd then return e
    else
      let (text, behind) ← Walk.piece last.readPiece?
      .fail (.trailingInput text) behind
  | (.closing, after) => .fail .unexpectedClosingParenthesis after
  | (.nothing, after) => .fail .emptyExpression after

/-- The expression that a text denotes, read with the given fuel, and the log of the reading. -/
def walk? (fuel : Nat) (source : String) : Option (List Motion × Except ParseError Expr) :=
  if Text.trim source.toList = [] then some ([], .error ⟨.emptyExpression, none, []⟩)
  else Option.map (fun t => (t.motions, t.outcome.mapError fun fault =>
    ⟨fault.cause, some fault.position, Text.trim source.toList⟩))
    (walkRoot fuel (.start (Text.trim source.toList)))

end Expr

end Polish
