import Polish.Attempt
import Polish.Expr

/-!
Reading an expression by descent. The reader looks at a slot, a place where an operand may stand, and
finds an operand, a closing parenthesis or nothing; whoever asked decides what an empty slot means.
Every operand read takes some text, which is what lets the descent end.
-/

namespace Polish.Expr

/-- What was found where an operand may stand, and the scan behind it. -/
inductive Slot (s : Scan) where
  | operand (e : Expr) (after : Scan) (shorter : after.ahead.length < s.ahead.length)
  | closing (after : Scan)
  | nothing (after : Scan)

/-- Something read from a scan, and the scan behind it. -/
structure Taken (s : Scan) (α : Type) where
  value : α
  after : Scan
  notLonger : after.ahead.length ≤ s.ahead.length

/-- Reads the closing parenthesis of an operation that has all its operands. -/
def closeOperation (s : Scan) : Attempt (Taken s Unit) :=
  match s.next with
  | ⟨.closeParenthesis, after, shorter⟩ => pure ⟨(), after, Nat.le_of_lt (shorter nofun)⟩
  | ⟨.endOfInput, after, _⟩ => .fail .unexpectedEndOfInput after
  | ⟨_, after, _⟩ => .fail .incorrectOperatorCall after

mutual

/-- Looks at the slot that stands next. -/
def slot (s : Scan) : Attempt (Slot s) :=
  match s.next with
  | ⟨.endOfInput, after, _⟩ => pure (.nothing after)
  | ⟨.closeParenthesis, after, _⟩ => pure (.closing after)
  | ⟨.openParenthesis, after, shorter⟩ => do
    have hs := shorter nofun
    let t ← readOperation after
    let u ← closeOperation t.after
    have ht := t.notLonger
    have hu := u.notLonger
    pure (.operand t.value u.after (by omega))
  | ⟨.var v, after, shorter⟩ => pure (.operand (.var v) after (shorter nofun))
  | ⟨.integer text, after, shorter⟩ =>
    match Numeral.read? text.toList with
    | some v => pure (.operand (.integer v) after (shorter nofun))
    | none => .fail (.invalidInteger text) after
  | ⟨.symbol text, after, _⟩ => .fail (.unknownSymbol text) after
  termination_by 2 * s.ahead.length

/-- Reads an operator and its operands, up to the closing parenthesis. -/
def readOperation (s : Scan) : Attempt (Taken s Expr) :=
  if h : s.next.token = .endOfInput then .fail .unexpectedEndOfInput s.next.after
  else
    match Operator.ofSymbol? s.next.token.text with
    | none => .fail (.unknownOperation s.next.token.text) s.next.after
    | some o => do
      have hs := s.next.shorter h
      Attempt.dispatch o s.next.after
      match o.arity with
      | .fixed n =>
        let t ← readFixed o n s.next.after
        pure ⟨.operation o t.value, t.after, Nat.le_trans t.notLonger (Nat.le_of_lt hs)⟩
      | .variadic =>
        let t ← readVariadic s.next.after
        if t.value.isEmpty then .fail (.noArguments o.symbol) t.after
        else pure ⟨.operation o t.value, t.after, Nat.le_trans t.notLonger (Nat.le_of_lt hs)⟩
  termination_by 2 * s.ahead.length

/-- Reads the given number of operands. -/
def readFixed (o : Operator) (n : Nat) (s : Scan) : Attempt (Taken s (List Expr)) :=
  match n with
  | 0 => pure ⟨[], s, Nat.le_refl _⟩
  | n + 1 => do
    match ← slot s with
    | .operand e after shorter =>
      let t ← readFixed o n after
      pure ⟨e :: t.value, t.after, Nat.le_trans t.notLonger (Nat.le_of_lt shorter)⟩
    | .closing after => .fail (.missingArgument o.symbol) after
    | .nothing after => .fail (.missingArgument o.symbol) after
  termination_by 2 * s.ahead.length + 1

/-- Reads operands up to a closing parenthesis, which is left to be read again: the scan returned is
the one in front of the slot that held it. -/
def readVariadic (s : Scan) : Attempt (Taken s (List Expr)) := do
  match ← slot s with
  | .operand e after shorter =>
    let t ← readVariadic after
    pure ⟨e :: t.value, t.after, Nat.le_trans t.notLonger (Nat.le_of_lt shorter)⟩
  | .closing _ => pure ⟨[], s, Nat.le_refl _⟩
  | .nothing after => .fail .unexpectedEndOfInput after
  termination_by 2 * s.ahead.length + 1

end

/-- Reads an expression that takes up the whole text. -/
def readRoot (s : Scan) : Attempt Expr := do
  match ← slot s with
  | .operand e after _ =>
    if after.next.token = .endOfInput then pure e
    else .fail (.trailingInput after.next.token.text) after.next.after
  | .closing after => .fail .unexpectedClosingParenthesis after
  | .nothing after => .fail .emptyExpression after

end Polish.Expr
