import Polish.Cursor
import Polish.Proofs.Scanning

/-!
Texts cut into segments. A segment is a gap and the piece behind it, and a layout is a row of segments
with a last gap. Main statement: `reads_layout`, a text has one layout only in which every piece is a
parenthesis or a word that cannot be extended to either side, and passing blanks and reading pieces
from the start of the text finds the segments of this layout one by one, and then the end of input.

    text = gap piece, gap piece, …, gap
-/

namespace Polish

open Text

namespace Text

/-- A piece with the gap in front of it. -/
structure Segment where
  gap : List Char
  piece : List Char

/-- The characters of segments in a row. -/
def Segment.join (segments : List Segment) : List Char := segments.flatMap fun s => s.gap ++ s.piece

/-- The tokens of segments in a row, each with the byte position behind it, the first segment
beginning at a given position. -/
def Segment.tokens (position : Nat) : List Segment → List (Token × Nat)
  | [] => []
  | s :: rest =>
    (.classify (String.ofList s.piece), position + byteLength (s.gap ++ s.piece)) ::
      tokens (position + byteLength (s.gap ++ s.piece)) rest

/-- A row of segments, and the gap behind the last. -/
structure Layout where
  segments : List Segment
  back : List Char

/-- The characters of a layout. -/
def Layout.text (l : Layout) : List Char := Segment.join l.segments ++ l.back

/-- The layout of a text: blanks are passed and a piece is taken, again and again. -/
def Layout.ofText (cs : List Char) : Layout :=
  if (takePiece cs).1 = [] then ⟨[], cs⟩
  else
    let rest := ofText (takePiece cs).2
    ⟨⟨(cut isBlank cs).1, (takePiece cs).1⟩ :: rest.segments, rest.back⟩
  termination_by cs.length
  decreasing_by exact length_takePiece_lt ‹_›

/-- `Standing before p after`: between `before` and `after`, `p` is a parenthesis, or else a word that
cannot be extended to either side. -/
inductive Standing (before : List Char) : List Char → List Char → Prop where
  | parenthesis {c : Char} (after : List Char) (isParen : isParenthesis c = true) :
      Standing before [c] after
  | word {w after : List Char} (nonempty : w ≠ []) (plain : ∀ c ∈ w, isDelimiter c = false)
      (left : ∀ c ∈ before.getLast?, isDelimiter c = true)
      (right : ∀ c ∈ after.head?, isDelimiter c = true) : Standing before w after

/-- `l.Describes source`: the gaps and pieces of the layout make up the text, the gaps hold nothing but
blanks, and every piece is whole where it stands. -/
structure Layout.Describes (l : Layout) (source : List Char) : Prop where
  whole : l.text = source
  gaps : ∀ s ∈ l.segments, Gap s.gap
  back : Gap l.back
  pieces : ∀ front s rest, l.segments = front ++ s :: rest →
    Standing (Segment.join front ++ s.gap) s.piece (Segment.join rest ++ l.back)

theorem Standing.piece {before p after : List Char} (h : Standing before p after) : Piece p after := by
  cases h with
  | parenthesis after isParen => exact .parenthesis after isParen
  | word nonempty plain left right => exact .word nonempty plain right

theorem Segment.join_cons (s : Segment) (rest : List Segment) :
    join (s :: rest) = s.gap ++ (s.piece ++ join rest) := by
  rw [join, List.flatMap_cons, List.append_assoc, ← join]

/-! ### The layout of a text -/

namespace Layout

theorem ofText_gap {gap : List Char} (h : Gap gap) : ofText gap = ⟨[], gap⟩ := by
  rw [ofText, takePiece_of_gap h, if_pos rfl]

theorem ofText_piece {gap p rest : List Char} (hgap : Gap gap) (hp : Piece p rest) :
    ofText (gap ++ (p ++ rest)) = ⟨⟨gap, p⟩ :: (ofText rest).segments, (ofText rest).back⟩ := by
  rw [ofText, takePiece_gap hgap, takePiece_piece hp, if_neg hp.ne_nil, cut_isBlank hgap hp]

theorem text_ofText (cs : List Char) : (ofText cs).text = cs := by
  induction cs using text_induction with
  | blank gap hgap => rw [ofText_gap hgap]; rfl
  | piece gap p rest hgap hp ih =>
    rw [text] at ih
    rw [ofText_piece hgap hp, text, Segment.join_cons, List.append_assoc, List.append_assoc, ih]

theorem gap_of_mem_ofText {cs : List Char} : ∀ s ∈ (ofText cs).segments, Gap s.gap := by
  induction cs using text_induction with
  | blank gap hgap => rw [ofText_gap hgap]; exact nofun
  | piece gap p rest hgap hp ih =>
    rw [ofText_piece hgap hp]
    exact List.forall_mem_cons.2 ⟨hgap, ih⟩

theorem gap_back_ofText (cs : List Char) : Gap (ofText cs).back := by
  induction cs using text_induction with
  | blank gap hgap => rwa [ofText_gap hgap]
  | piece gap p rest hgap hp ih => rwa [ofText_piece hgap hp]

end Layout

/-- A piece that does not continue the text in front of it is whole there. -/
theorem Piece.standing {before gap p rest : List Char} (hp : Piece p rest) (hgap : Gap gap)
    (h : Apart before (gap ++ (p ++ rest))) : Standing (before ++ gap) p rest := by
  cases hp with
  | parenthesis _ isParen => exact .parenthesis rest isParen
  | word nonempty plain ends =>
    refine .word nonempty plain ?_ ends
    obtain ⟨d, w, rfl⟩ := List.exists_cons_of_ne_nil nonempty
    -- the word begins with no delimiter, so it is what stands in front of it that keeps them apart
    have hd : isDelimiter d = false := plain d List.mem_cons_self
    rcases (h.append (hgap.apart _)) with hending | hlast
    · have htrue := hending d rfl
      rw [hd] at htrue
      cases htrue
    · exact hlast

theorem Piece.standing_of_apart {before p rest : List Char} (hp : Piece p rest)
    (h : Apart before (p ++ rest)) : Standing before p rest := by
  have hstanding := hp.standing gap_nil h
  rwa [List.append_nil] at hstanding

/-- In the layout of a text every piece is whole, also if the text stands behind another that does not
run into it. -/
theorem Layout.standing_ofText {before cs : List Char} (h : Apart before cs) (front : List Segment)
    (s : Segment) (rest : List Segment) (hs : (ofText cs).segments = front ++ s :: rest) :
    Standing (before ++ (Segment.join front ++ s.gap)) s.piece
      (Segment.join rest ++ (ofText cs).back) := by
  induction cs using text_induction generalizing before front with
  | blank gap hgap =>
    rw [ofText_gap hgap] at hs
    exact absurd hs.symm (by simp)
  | piece gap p tail hgap hp ih =>
    rw [ofText_piece hgap hp] at hs ⊢
    cases front with
    | nil =>
      obtain ⟨rfl, rfl⟩ := List.cons.inj hs
      have htail : Segment.join (ofText tail).segments ++ (ofText tail).back = tail := text_ofText tail
      rw [htail]
      exact hp.standing hgap h
    | cons t front =>
      obtain ⟨rfl, hfront⟩ := List.cons.inj hs
      -- the tail stands behind all that was there and this segment
      have hbehind : Apart (before ++ gap ++ p) tail := (h.append (hgap.apart _)).append hp.apart
      have hstanding := ih hbehind front hfront
      rw [Segment.join_cons]
      simpa only [List.append_assoc] using hstanding

theorem Layout.describes_ofText (cs : List Char) : (ofText cs).Describes cs where
  whole := text_ofText cs
  gaps := gap_of_mem_ofText
  back := gap_back_ofText cs
  pieces := by
    intro front s rest hs
    have happart : Apart [] cs := .inr nofun
    exact standing_ofText happart front s rest hs

theorem Layout.ofText_of_pieces {segments : List Segment} {back : List Char}
    (hgaps : ∀ s ∈ segments, Gap s.gap) (hback : Gap back)
    (hpieces : ∀ front s rest, segments = front ++ s :: rest →
      Piece s.piece (Segment.join rest ++ back)) :
    ofText (Segment.join segments ++ back) = ⟨segments, back⟩ := by
  induction segments with
  | nil => exact ofText_gap hback
  | cons s segments ih =>
    obtain ⟨hs, hsegments⟩ := List.forall_mem_cons.1 hgaps
    have hrest := ih hsegments fun front t rest h => hpieces (s :: front) t rest (by rw [h]; rfl)
    rw [Segment.join_cons, List.append_assoc, List.append_assoc,
      ofText_piece hs (hpieces [] s segments rfl), hrest]

/-- There is one way only to cut a text into gaps and whole pieces. -/
theorem Layout.describes_iff {l : Layout} {cs : List Char} : l.Describes cs ↔ l = ofText cs := by
  constructor
  · intro h
    rw [← h.whole]
    exact (ofText_of_pieces h.gaps h.back fun front s rest hs => (h.pieces front s rest hs).piece).symm
  · rintro rfl
    exact describes_ofText cs

theorem Layout.Describes.piece_ne_nil {l : Layout} {cs : List Char} (h : l.Describes cs) :
    ∀ s ∈ l.segments, s.piece ≠ [] := by
  intro s hs
  obtain ⟨front, rest, hsegments⟩ := List.append_of_mem hs
  exact (h.pieces front s rest hsegments).piece.ne_nil

/-! ### The tokens of a layout -/

theorem byteLength_pos {cs : List Char} (h : cs ≠ []) : 0 < byteLength cs := by
  obtain ⟨c, ds, rfl⟩ := List.exists_cons_of_ne_nil h
  exact Nat.add_pos_left c.utf8Size_pos _

/-- The position behind a token is further than the one in front of it, and so on. -/
theorem Segment.pairwise_lt_tokens {segments : List Segment} (h : ∀ s ∈ segments, s.piece ≠ [])
    (position : Nat) : (position :: (tokens position segments).map Prod.snd).Pairwise (· < ·) := by
  induction segments generalizing position with
  | nil => exact List.pairwise_singleton _ _
  | cons s segments ih =>
    obtain ⟨hs, hsegments⟩ := List.forall_mem_cons.1 h
    have hlt : position < position + byteLength (s.gap ++ s.piece) := by
      have hpos := byteLength_pos hs
      rw [byteLength_append]
      omega
    have hrest := ih hsegments (position + byteLength (s.gap ++ s.piece))
    refine List.pairwise_cons.2 ⟨List.forall_mem_cons.2 ⟨hlt, fun n hn => ?_⟩, hrest⟩
    exact hlt.trans ((List.pairwise_cons.1 hrest).1 n hn)

theorem Segment.ofList_piece_ne_empty {s : Segment} (h : s.piece ≠ []) :
    String.ofList s.piece ≠ "" := by
  rwa [Ne, ← String.toList_eq_nil_iff, String.toList_ofList]

theorem Segment.ne_endOfInput_of_mem_tokens {segments : List Segment}
    (h : ∀ s ∈ segments, s.piece ≠ []) (position : Nat) :
    ∀ t ∈ tokens position segments, t.1 ≠ .endOfInput := by
  induction segments generalizing position with
  | nil => exact nofun
  | cons s segments ih =>
    obtain ⟨hs, hsegments⟩ := List.forall_mem_cons.1 h
    exact List.forall_mem_cons.2
      ⟨mt Token.classify_eq_endOfInput.1 (ofList_piece_ne_empty hs), ih hsegments _⟩

theorem Segment.map_text_tokens {segments : List Segment} (h : ∀ s ∈ segments, s.piece ≠ [])
    (position : Nat) : (tokens position segments).map (fun t => t.1.text) =
      segments.map fun s => String.ofList s.piece := by
  induction segments generalizing position with
  | nil => rfl
  | cons s segments ih =>
    obtain ⟨hs, hsegments⟩ := List.forall_mem_cons.1 h
    rw [tokens, List.map_cons, List.map_cons, ih hsegments]
    exact congrArg (· :: _) (Token.text_classify (ofList_piece_ne_empty hs))

end Text

/-! ### Reading a text to its end -/

/-- `c.Reads row`: passing blanks, reading a piece and classifying it, again and again from the cursor
`c` until the end of input, ends and gives the tokens of the row, each with the position behind it. -/
inductive Cursor.Reads : Cursor → List (Token × Nat) → Prop where
  | last {c c' : Cursor} {p : List Char} (read : c.nextPiece? = some (p, c'))
      (ends : Token.classify (String.ofList p) = .endOfInput) : Reads c [(.endOfInput, c'.position)]
  | more {c c' : Cursor} {p : List Char} {row : List (Token × Nat)}
      (read : c.nextPiece? = some (p, c'))
      (goesOn : Token.classify (String.ofList p) ≠ .endOfInput) (rest : Reads c' row) :
      Reads c ((.classify (String.ofList p), c'.position) :: row)

namespace Scan

/-- The tokens of the text ahead, each with the byte position behind it. -/
def row (s : Scan) : List (Token × Nat) := s.tokens.map fun t => (t.1, t.2.offset)

theorem row_of_end {s : Scan} (h : s.next.token = .endOfInput) :
    s.row = [(.endOfInput, s.next.after.offset)] := by
  rw [row, tokens, dif_pos h]
  rfl

theorem row_of_token {s : Scan} (h : s.next.token ≠ .endOfInput) :
    s.row = (s.next.token, s.next.after.offset) :: s.next.after.row := by
  rw [row, tokens, dif_neg h, List.map_cons]
  rfl

theorem offset_add_ahead (s : Scan) : s.offset + byteLength s.ahead = byteLength s.source := by
  rw [source, byteLength_append, byteLength_reverse, offset]

/-- A scan finds the segments of the text ahead one by one, and then the end of input. -/
theorem row_eq_tokens (passed cs : List Char) :
    (⟨passed, cs⟩ : Scan).row =
      Segment.tokens (byteLength passed) (Layout.ofText cs).segments ++
        [(.endOfInput, byteLength passed + byteLength cs)] := by
  induction cs using text_induction generalizing passed with
  | blank gap hgap =>
    have hend : (⟨passed, gap⟩ : Scan).next.token = .endOfInput := by
      rw [token_next_eq_endOfInput, takePiece_of_gap hgap]
    have hahead : (⟨passed, gap⟩ : Scan).next.after.ahead = [] := by
      rw [ahead_next, takePiece_of_gap hgap]
    -- nothing is left ahead, so the position is the length of the source
    have hoffset := offset_add_ahead (⟨passed, gap⟩ : Scan).next.after
    rw [hahead, source_next, ← offset_add_ahead] at hoffset
    rw [row_of_end hend, Layout.ofText_gap hgap]
    exact congrArg (fun n => [(Token.endOfInput, n)]) hoffset
  | piece gap p rest hgap hp ih =>
    obtain ⟨htoken, hafter⟩ := next_of_piece (s := ⟨passed, gap ++ (p ++ rest)⟩) rfl hgap hp
    have hgoes : (⟨passed, gap ++ (p ++ rest)⟩ : Scan).next.token ≠ .endOfInput := by
      rw [Ne, token_next_eq_endOfInput, takePiece_gap hgap, takePiece_piece hp]
      exact hp.ne_nil
    have hlength : byteLength (p.reverse ++ (gap.reverse ++ passed)) =
        byteLength passed + byteLength (gap ++ p) := by
      simp only [byteLength_append, byteLength_reverse]
      omega
    have htotal : byteLength passed + byteLength (gap ++ p) + byteLength rest =
        byteLength passed + byteLength (gap ++ (p ++ rest)) := by
      simp only [byteLength_append]
      omega
    rw [row_of_token hgoes, htoken, hafter, ih, Layout.ofText_piece hgap hp, offset, hlength, htotal]
    rfl

end Scan

namespace Cursor

/-- A cursor that stands where a scan does reads what the scan finds, and nothing else. -/
theorem reads_ofScan {s : Scan} {row : List (Token × Nat)} : (ofScan s).Reads row ↔ row = s.row := by
  induction s using Scan.next_induction generalizing row with
  | last s hend =>
    rw [Scan.row_of_end hend]
    constructor
    · intro h
      cases h with
      | last read ends => cases (nextPiece?_ofScan s).symm.trans read; rfl
      | more read goesOn rest =>
        cases (nextPiece?_ofScan s).symm.trans read
        exact absurd hend goesOn
    · rintro rfl
      exact .last (nextPiece?_ofScan s) hend
  | token s hgoesOn ih =>
    rw [Scan.row_of_token hgoesOn]
    constructor
    · intro h
      cases h with
      | last read ends =>
        cases (nextPiece?_ofScan s).symm.trans read
        exact absurd ends hgoesOn
      | more read goesOn rest =>
        cases (nextPiece?_ofScan s).symm.trans read
        rw [ih.1 rest]
        rfl
    · rintro rfl
      exact .more (nextPiece?_ofScan s) hgoesOn (ih.2 rfl)

end Cursor

/-- A text has one layout only, and reading the text to its end finds the segments of this layout one by
one and then the end of input, at the end of the text. The tokens before it are no ends of input, their
positions increase, and they are written as the pieces that they were classified from. -/
theorem Text.reads_layout (source : String) :
    ∃ l : Layout, (∀ m : Layout, m.Describes source.toList ↔ m = l) ∧
      (∀ row, (Cursor.start source.toList).Reads row ↔
        row = Segment.tokens 0 l.segments ++ [(.endOfInput, source.utf8ByteSize)]) ∧
      (Scan.start source.toList).row =
        Segment.tokens 0 l.segments ++ [(.endOfInput, source.utf8ByteSize)] ∧
      (∀ t ∈ Segment.tokens 0 l.segments, t.1 ≠ .endOfInput) ∧
      ((Segment.tokens 0 l.segments).map Prod.snd).Pairwise (· < ·) ∧
      ((Segment.tokens 0 l.segments).map fun t => t.1.text) =
        l.segments.map (fun s => String.ofList s.piece) ∧
      ∀ text, (Token.classify text).text = if text = "" then "end of input" else text := by
  have hpieces := (Layout.describes_ofText source.toList).piece_ne_nil
  have hrow : (Scan.start source.toList).row =
      Segment.tokens 0 (Layout.ofText source.toList).segments ++
        [(.endOfInput, source.utf8ByteSize)] := by
    have hlength : source.utf8ByteSize = 0 + byteLength source.toList := by
      rw [Nat.zero_add, ← byteLength_ofList, String.ofList_toList]
    rw [hlength]
    exact Scan.row_eq_tokens [] source.toList
  refine ⟨Layout.ofText source.toList, fun m => Layout.describes_iff, fun row => ?_, hrow,
    Segment.ne_endOfInput_of_mem_tokens hpieces 0,
    (List.pairwise_cons.1 (Segment.pairwise_lt_tokens hpieces 0)).2,
    Segment.map_text_tokens hpieces 0, fun text => ?_⟩
  · rw [← hrow]
    exact Cursor.reads_ofScan (s := .start source.toList)
  · split
    · rename_i hempty
      rw [Token.classify_eq_endOfInput.2 hempty]
      rfl
    · rename_i hne
      exact Token.text_classify hne

example : (Scan.start " (é)\n".toList).row =
    [(.openParenthesis, 2), (.symbol "é", 4), (.closeParenthesis, 5), (.endOfInput, 6)] := by
  decide +kernel

end Polish
