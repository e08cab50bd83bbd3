/-!
The pieces of a text. Blanks separate pieces, a parenthesis is a piece by itself, and any other piece
is a word, a longest run of characters that are neither. Main statement: `splitPiece_append`, cutting
off the first piece loses nothing.
-/

namespace Polish.Text

/-- Blanks separate tokens: space, tab, line feed and carriage return, and no other character. -/
def isBlank (c : Char) : Bool := c == ' ' || c == '\t' || c == '\n' || c == '\r'

theorem isBlank_iff {c : Char} : isBlank c = true ↔ c = ' ' ∨ c = '\t' ∨ c = '\n' ∨ c = '\r' := by
  simp only [isBlank, Bool.or_eq_true, beq_iff_eq, or_assoc]

/-- A parenthesis is a token by itself. -/
def isParenthesis (c : Char) : Bool := c == '(' || c == ')'

theorem isParenthesis_iff {c : Char} : isParenthesis c = true ↔ c = '(' ∨ c = ')' := by
  simp only [isParenthesis, Bool.or_eq_true, beq_iff_eq]

/-- The characters that end a word. -/
def isDelimiter (c : Char) : Bool := isBlank c || isParenthesis c

/-- The text without the blanks at its two ends. -/
def trim (cs : List Char) : List Char :=
  ((cs.dropWhile isBlank).reverse.dropWhile isBlank).reverse

/-- How many bytes the characters take in UTF-8. -/
def byteLength : List Char → Nat
  | [] => 0
  | c :: cs => c.utf8Size + byteLength cs

@[simp] theorem byteLength_nil : byteLength [] = 0 := rfl

@[simp] theorem byteLength_cons (c : Char) (cs : List Char) :
    byteLength (c :: cs) = c.utf8Size + byteLength cs := rfl

@[simp] theorem byteLength_append (cs ds : List Char) :
    byteLength (cs ++ ds) = byteLength cs + byteLength ds := by
  induction cs with
  | nil => simp
  | cons c cs ih => simp [ih, Nat.add_assoc]

theorem length_le_byteLength (cs : List Char) : cs.length ≤ byteLength cs := by
  induction cs with
  | nil => exact Nat.le_refl 0
  | cons c cs ih =>
    have hc := c.utf8Size_pos
    rw [List.length_cons, byteLength_cons]
    omega

/-- The length is the one that strings have. -/
theorem byteLength_ofList (cs : List Char) : (String.ofList cs).utf8ByteSize = byteLength cs := by
  induction cs with
  | nil => rfl
  | cons c cs ih =>
    rw [String.ofList_cons, String.utf8ByteSize_append, String.utf8ByteSize_singleton, ih]
    rfl

theorem byteLength_toList (text : String) : byteLength text.toList = text.utf8ByteSize := by
  rw [← byteLength_ofList, String.ofList_toList]

@[simp] theorem byteLength_reverse (cs : List Char) : byteLength cs.reverse = byteLength cs := by
  induction cs with
  | nil => rfl
  | cons c cs ih => simp [ih, Nat.add_comm]

/-- The longest run of characters of a kind at the start of a text, and what follows it. -/
def cut (kind : Char → Bool) (cs : List Char) : List Char × List Char :=
  (cs.takeWhile kind, cs.dropWhile kind)

theorem cut_append (kind : Char → Bool) (cs : List Char) : (cut kind cs).1 ++ (cut kind cs).2 = cs :=
  List.takeWhile_append_dropWhile

/-- The first piece of a text and what follows it: a parenthesis, or else the characters up to the
next delimiter, which are none in front of a blank. -/
def splitPiece : List Char → List Char × List Char
  | [] => ([], [])
  | c :: cs =>
    if isParenthesis c then ([c], cs) else cut (fun d => !isDelimiter d) (c :: cs)

theorem splitPiece_append (cs : List Char) : (splitPiece cs).1 ++ (splitPiece cs).2 = cs := by
  unfold splitPiece
  split
  · rfl
  · split
    · rfl
    · exact cut_append _ _

end Polish.Text
