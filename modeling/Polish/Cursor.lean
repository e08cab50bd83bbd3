import Polish.Scan

/-!
A cursor is a byte offset into a text. Unlike a scan it can be set to any offset, also beyond the text
or between the bytes of one character; no character begins there, and passing blanks and reading are
impossible until the cursor is set elsewhere. Main statements: `dropBytes?_eq_some`, a cursor can read
at an offset exactly if the offset is the length of a beginning of the text, and `skipBlanks?_ofScan`
and `readPiece?_ofScan`, a cursor that stands where a scan does moves as the scan does.
-/

namespace Polish

open Text

structure Cursor where
  text : List Char
  /-- The byte offset of the next character to read. -/
  position : Nat
  deriving DecidableEq

/-- The text behind its first bytes: none beyond the end and inside a character. -/
def dropBytes? : Nat → List Char → Option (List Char)
  | 0, cs => some cs
  | _ + 1, [] => none
  | n + 1, c :: cs => if c.utf8Size ≤ n + 1 then dropBytes? (n + 1 - c.utf8Size) cs else none

theorem dropBytes?_eq_some {n : Nat} {cs rest : List Char} :
    dropBytes? n cs = some rest ↔ ∃ skipped, cs = skipped ++ rest ∧ byteLength skipped = n := by
  induction cs generalizing n with
  | nil =>
    cases n with
    | zero =>
      simp only [dropBytes?, Option.some.injEq]
      constructor
      · rintro rfl
        exact ⟨[], rfl, rfl⟩
      · rintro ⟨skipped, h, -⟩
        exact ((List.nil_eq_append_iff.1 h).2).symm
    | succ n =>
      simp only [dropBytes?, reduceCtorEq, false_iff]
      rintro ⟨skipped, h, hn⟩
      simp [(List.nil_eq_append_iff.1 h).1] at hn
  | cons c cs ih =>
    have hc := c.utf8Size_pos
    cases n with
    | zero =>
      simp only [dropBytes?, Option.some.injEq]
      constructor
      · rintro rfl
        exact ⟨[], rfl, rfl⟩
      · rintro ⟨skipped, h, hn⟩
        cases skipped with
        | nil => exact h
        | cons d skipped => simp [Nat.pos_iff_ne_zero.1 d.utf8Size_pos] at hn
    | succ n =>
      simp only [dropBytes?]
      constructor
      · intro h
        split at h
        · obtain ⟨skipped, rfl, hn⟩ := ih.1 h
          exact ⟨c :: skipped, rfl, by simp; omega⟩
        · simp at h
      · rintro ⟨skipped, h, hn⟩
        cases skipped with
        | nil => simp at hn
        | cons d skipped =>
          obtain ⟨rfl, rfl⟩ := List.cons.inj h
          simp only [byteLength_cons] at hn
          rw [if_pos (by omega)]
          exact ih.2 ⟨skipped, rfl, by omega⟩

namespace Cursor

/-- The cursor at the start of a text. -/
def start (cs : List Char) : Cursor := ⟨cs, 0⟩

/-- Sets the cursor to any offset. -/
def rewind (c : Cursor) (position : Nat) : Cursor := { c with position }

/-- Whether nothing is left to read, the cursor standing at the end or beyond. -/
def isAtEnd (c : Cursor) : Bool := byteLength c.text ≤ c.position

/-- The text from the cursor on, if a character or the end of the text is there. -/
def ahead? (c : Cursor) : Option (List Char) := dropBytes? c.position c.text

/-- Moves the cursor over a piece of the text ahead. -/
def advance (c : Cursor) (piece : List Char) : Cursor :=
  { c with position := c.position + byteLength piece }

/-- Passes all blanks that stand next. -/
def skipBlanks? (c : Cursor) : Option Cursor :=
  c.ahead?.map fun cs => c.advance (cut isBlank cs).1

/-- The piece that stands next, and the cursor behind it. -/
def readPiece? (c : Cursor) : Option (List Char × Cursor) :=
  c.ahead?.map fun cs => ((splitPiece cs).1, c.advance (splitPiece cs).1)

/-- Passes blanks and reads the piece behind them. -/
def nextPiece? (c : Cursor) : Option (List Char × Cursor) := c.skipBlanks?.bind readPiece?

/-- How many characters stand in front of the cursor: none if no character begins where it stands. -/
def column? (c : Cursor) : Option Nat := c.ahead?.map fun rest => c.text.length - rest.length

/-- What can be done with a cursor. -/
inductive Move where
  | skipBlanks
  | readPiece
  | rewind (position : Nat)

/-- What a move answers. -/
inductive Reply where
  | moved
  | piece (cs : List Char)
  /-- No character begins where the cursor stands. -/
  | stranded

/-- One move; a move that is impossible leaves the cursor where it is. -/
def step (c : Cursor) : Move → Reply × Cursor
  | .skipBlanks =>
    match c.skipBlanks? with
    | some c' => (.moved, c')
    | none => (.stranded, c)
  | .readPiece =>
    match c.readPiece? with
    | some (cs, c') => (.piece cs, c')
    | none => (.stranded, c)
  | .rewind position => (.moved, c.rewind position)

/-- The moves in order, each with its answer and the cursor after it. -/
def run (c : Cursor) : List Move → List (Reply × Cursor)
  | [] => []
  | m :: ms => c.step m :: (c.step m).2.run ms

/-- The cursor that stands where a scan does. -/
def ofScan (s : Scan) : Cursor := ⟨s.source, s.offset⟩

theorem ahead?_ofScan (s : Scan) : (ofScan s).ahead? = some s.ahead :=
  dropBytes?_eq_some.2 ⟨s.passed.reverse, rfl, byteLength_reverse s.passed⟩

theorem advance_ofScan {s : Scan} {split : List Char × List Char}
    (h : split.1 ++ split.2 = s.ahead) : (ofScan s).advance split.1 = ofScan (s.advance split) := by
  simp only [ofScan, advance, Scan.source_advance h]
  simp [Scan.advance, Scan.offset, Nat.add_comm]

theorem skipBlanks?_ofScan (s : Scan) : (ofScan s).skipBlanks? = some (ofScan s.skipBlanks) := by
  rw [skipBlanks?, ahead?_ofScan, Scan.skipBlanks, ← advance_ofScan (cut_append isBlank s.ahead)]
  rfl

theorem readPiece?_ofScan (s : Scan) :
    (ofScan s).readPiece? = some (s.readPiece.1, ofScan s.readPiece.2) := by
  rw [readPiece?, ahead?_ofScan, Scan.readPiece, ← advance_ofScan (splitPiece_append s.ahead)]
  rfl

theorem nextPiece?_ofScan (s : Scan) :
    (ofScan s).nextPiece? = some (s.skipBlanks.readPiece.1, ofScan s.next.after) := by
  rw [nextPiece?, skipBlanks?_ofScan]
  exact readPiece?_ofScan s.skipBlanks

theorem column?_ofScan (s : Scan) : (ofScan s).column? = some s.column := by
  rw [column?, ahead?_ofScan, Option.map_some, ofScan, Scan.source, List.length_append,
    Nat.add_sub_cancel, List.length_reverse, Scan.column]

end Cursor

end Polish
