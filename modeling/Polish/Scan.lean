import Polish.Text.Piece
import Polish.Token

/-!
Scanning a text for tokens, from left to right. A scan is the text cut in two: the characters passed
and the characters ahead. Main statements: `source_next`, reading a token moves the cut and keeps the
text, and the field `shorter` of a lexeme, every token but the end of input takes some text.
-/

namespace Polish

open Text

/-- A text cut in two. The characters passed stand in reverse, the last one first. -/
structure Scan where
  passed : List Char
  ahead : List Char
  deriving DecidableEq

namespace Scan

/-- The scan with all of the text ahead. -/
def start (cs : List Char) : Scan := ⟨[], cs⟩

/-- The whole text. -/
def source (s : Scan) : List Char := s.passed.reverse ++ s.ahead

/-- How many characters have been passed. -/
def column (s : Scan) : Nat := s.passed.length

/-- How many bytes have been passed. -/
def offset (s : Scan) : Nat := byteLength s.passed

/-- Moves the cut behind a piece of the text ahead. -/
def advance (s : Scan) (split : List Char × List Char) : Scan :=
  ⟨split.1.reverse ++ s.passed, split.2⟩

/-- Passes all blanks that stand next. -/
def skipBlanks (s : Scan) : Scan := s.advance (cut isBlank s.ahead)

/-- The piece that stands next, and the scan behind it. -/
def readPiece (s : Scan) : List Char × Scan :=
  ((splitPiece s.ahead).1, s.advance (splitPiece s.ahead))

theorem source_advance {s : Scan} {split : List Char × List Char}
    (h : split.1 ++ split.2 = s.ahead) : (s.advance split).source = s.source := by
  simp [source, advance, ← h]

@[simp] theorem source_skipBlanks (s : Scan) : s.skipBlanks.source = s.source :=
  source_advance (cut_append isBlank s.ahead)

@[simp] theorem source_readPiece (s : Scan) : s.readPiece.2.source = s.source :=
  source_advance (splitPiece_append s.ahead)

theorem length_skipBlanks_le (s : Scan) : s.skipBlanks.ahead.length ≤ s.ahead.length :=
  (List.dropWhile_sublist isBlank).length_le

theorem length_readPiece_add (s : Scan) :
    s.readPiece.1.length + s.readPiece.2.ahead.length = s.ahead.length := by
  have h := congrArg List.length (splitPiece_append s.ahead)
  simpa [readPiece, advance] using h

end Scan

/-- The token that stands next on a scan, once blanks are passed. -/
structure Lexeme (s : Scan) where
  token : Token
  /-- The scan behind the token. -/
  after : Scan
  /-- A token takes some text, except for the end of input. -/
  shorter : token ≠ .endOfInput → after.ahead.length < s.ahead.length

namespace Scan

/-- Passes blanks and reads the next token. -/
def next (s : Scan) : Lexeme s where
  token := .classify (String.ofList s.skipBlanks.readPiece.1)
  after := s.skipBlanks.readPiece.2
  shorter h := by
    have hpos : 0 < s.skipBlanks.readPiece.1.length := by
      rw [List.length_pos_iff]
      intro h0
      exact h (by simp [h0])
    have h₁ := s.length_skipBlanks_le
    have h₂ := s.skipBlanks.length_readPiece_add
    omega

theorem source_next (s : Scan) : s.next.after.source = s.source := by
  simp [next]

/-- The tokens of the text ahead, each with the scan behind it; the last is the end of input, and no
other is. -/
def tokens (s : Scan) : List (Token × Scan) :=
  if h : s.next.token = .endOfInput then [(.endOfInput, s.next.after)]
  else
    have := s.next.shorter h
    (s.next.token, s.next.after) :: s.next.after.tokens
  termination_by s.ahead.length

end Scan

end Polish
