import Mathlib.Data.List.DropRight
import Polish.Text.Piece

/-!
Texts as rows of pieces. A text is a gap, a piece and more text, or a last gap, where a gap is blanks
only; `text_induction` goes along this row. Main statements: `pieces_append`, the pieces of two texts
in a row are those of the one and then those of the other, unless a word runs from one into the other,
and `pieces_trim`, the blanks around a text make no difference.

    text = gap ++ (piece ++ text)   or   gap
-/

namespace Polish.Text

/-- Nothing but blanks. -/
def Gap (cs : List Char) : Prop := ∀ c ∈ cs, isBlank c = true

/-- Text that does not continue a word in front of it. -/
def Ending (rest : List Char) : Prop := ∀ c ∈ rest.head?, isDelimiter c = true

/-- `Piece p rest`: in front of `rest`, `p` is a whole piece. -/
inductive Piece : List Char → List Char → Prop where
  | parenthesis {c : Char} (rest : List Char) (isParen : isParenthesis c = true) : Piece [c] rest
  | word {w rest : List Char} (nonempty : w ≠ []) (plain : ∀ c ∈ w, isDelimiter c = false)
      (ends : Ending rest) : Piece w rest

/-- The first piece of a text, the blanks in front of it passed, and what follows it. -/
def takePiece (cs : List Char) : List Char × List Char := splitPiece (cut isBlank cs).2

theorem length_takePiece_lt {cs : List Char} (h : (takePiece cs).1 ≠ []) :
    (takePiece cs).2.length < cs.length := by
  have hsum : (takePiece cs).1.length + (takePiece cs).2.length = (cs.dropWhile isBlank).length := by
    rw [← List.length_append]
    exact congrArg List.length (splitPiece_append (cs.dropWhile isBlank))
  have hle := (List.dropWhile_sublist (l := cs) isBlank).length_le
  have hpos := List.length_pos_iff.2 h
  omega

/-- The texts got by passing blanks and reading a piece, again and again until none is left. -/
def pieces (cs : List Char) : List String :=
  if (takePiece cs).1 = [] then []
  else String.ofList (takePiece cs).1 :: pieces (takePiece cs).2
  termination_by cs.length
  decreasing_by exact length_takePiece_lt ‹_›

/-! ### Pieces and gaps -/

theorem gap_nil : Gap [] := fun _ h => absurd h List.not_mem_nil

theorem gap_space : Gap [' '] := List.forall_mem_singleton.2 rfl

theorem isDelimiter_of_isBlank {c : Char} (h : isBlank c = true) : isDelimiter c = true := by
  simp [isDelimiter, h]

theorem isBlank_of_not_isDelimiter {c : Char} (h : isDelimiter c = false) : isBlank c = false :=
  (Bool.or_eq_false_iff.1 h).1

theorem isBlank_of_isParenthesis {c : Char} (h : isParenthesis c = true) : isBlank c = false := by
  rcases isParenthesis_iff.1 h with rfl | rfl
  · decide
  · decide

theorem ending_of_isDelimiter {c : Char} (h : isDelimiter c = true) (rest : List Char) :
    Ending (c :: rest) := by
  rintro d hd
  rw [List.head?_cons, Option.mem_some] at hd
  exact hd ▸ h

theorem ending_nil : Ending [] := by
  intro c hc
  exact absurd hc (Option.not_mem_none c)

theorem Gap.ending {cs : List Char} (h : Gap cs) : Ending cs := by
  intro c hc
  exact isDelimiter_of_isBlank (h c (List.mem_of_mem_head? hc))

theorem Ending.left {cs ds : List Char} (h : Ending (cs ++ ds)) : Ending cs := by
  intro c hc
  refine h c ?_
  rw [List.head?_append, Option.mem_def.1 hc]
  rfl

theorem Piece.ne_nil {p rest : List Char} (h : Piece p rest) : p ≠ [] := by
  cases h with
  | parenthesis _ _ => exact List.cons_ne_nil _ _
  | word nonempty _ _ => exact nonempty

/-- A piece stays one if what follows it is cut short. -/
theorem Piece.left {p cs ds : List Char} (h : Piece p (cs ++ ds)) : Piece p cs := by
  cases h with
  | parenthesis _ isParen => exact .parenthesis cs isParen
  | word nonempty plain ends => exact .word nonempty plain ends.left

/-- No character of a piece is a blank. -/
theorem Piece.not_isBlank {p rest : List Char} (h : Piece p rest) : ∀ c ∈ p, isBlank c = false := by
  cases h with
  | parenthesis _ isParen =>
    rintro d hd
    rw [List.mem_singleton.1 hd]
    exact isBlank_of_isParenthesis isParen
  | word _ plain _ => exact fun c hc => isBlank_of_not_isDelimiter (plain c hc)

theorem splitPiece_of_piece {p rest : List Char} (h : Piece p rest) :
    splitPiece (p ++ rest) = (p, rest) := by
  cases h with
  | parenthesis _ isParen => simp [splitPiece, isParen]
  | word nonempty plain ends =>
    obtain ⟨c, w, rfl⟩ := List.exists_cons_of_ne_nil nonempty
    have hc : isParenthesis c = false := (Bool.or_eq_false_iff.1 (plain c List.mem_cons_self)).2
    have hplain : ∀ d ∈ c :: w, (!isDelimiter d) = true := fun d hd => by simp [plain d hd]
    rw [List.cons_append, splitPiece, if_neg (by simp [hc]), ← List.cons_append, cut,
      List.takeWhile_append_of_pos hplain, List.dropWhile_append_of_pos hplain]
    cases rest with
    | nil => rw [List.takeWhile_nil, List.dropWhile_nil, List.append_nil]
    | cons d rest =>
      have hd : isDelimiter d = true := ends d (by simp)
      rw [List.takeWhile_cons_of_neg (by simp [hd]), List.dropWhile_cons_of_neg (by simp [hd]),
        List.append_nil]

/-- A text that begins with no blank begins with a piece. -/
theorem exists_piece {c : Char} (cs : List Char) (hc : isBlank c = false) :
    ∃ p rest, c :: cs = p ++ rest ∧ Piece p rest := by
  by_cases hp : isParenthesis c = true
  · exact ⟨[c], cs, rfl, .parenthesis cs hp⟩
  · have hd : isDelimiter c = false := by simp [isDelimiter, hc, hp]
    refine ⟨(c :: cs).takeWhile fun d => !isDelimiter d, (c :: cs).dropWhile fun d => !isDelimiter d,
      List.takeWhile_append_dropWhile.symm, .word (by simp [hd]) ?_ ?_⟩
    · intro d h
      have hd := List.mem_takeWhile_imp h
      simpa using hd
    · intro d h
      have hhead := List.head?_dropWhile_not (fun d => !isDelimiter d) (c :: cs)
      rw [Option.mem_def.1 h] at hhead
      simpa using hhead

/-- A text is a gap, or else a gap, a piece and more text. -/
theorem gap_or_piece (cs : List Char) :
    Gap cs ∨ ∃ gap p rest, cs = gap ++ (p ++ rest) ∧ Gap gap ∧ Piece p rest := by
  have hgap : Gap (cs.takeWhile isBlank) := fun _ => List.mem_takeWhile_imp
  have hcs := List.takeWhile_append_dropWhile (p := isBlank) (l := cs)
  cases h : cs.dropWhile isBlank with
  | nil =>
    rw [h, List.append_nil] at hcs
    exact .inl (hcs ▸ hgap)
  | cons c ds =>
    have hc := List.head_dropWhile_not isBlank (l := cs) (by simp [h])
    simp only [h, List.head_cons] at hc
    obtain ⟨p, rest, hp, hpiece⟩ := exists_piece ds hc
    exact .inr ⟨_, p, rest, by rw [← hp, ← h, hcs], hgap, hpiece⟩

/-- Induction along the pieces of a text. -/
@[elab_as_elim]
theorem text_induction {motive : List Char → Prop} (blank : ∀ gap, Gap gap → motive gap)
    (piece : ∀ gap p rest, Gap gap → Piece p rest → motive rest → motive (gap ++ (p ++ rest)))
    (cs : List Char) : motive cs := by
  rcases gap_or_piece cs with h | ⟨gap, p, rest, hcs, hgap, hp⟩
  · exact blank cs h
  · rw [hcs]
    exact piece gap p rest hgap hp (text_induction blank piece rest)
  termination_by cs.length
  decreasing_by
    have hpos := List.length_pos_iff.2 hp.ne_nil
    rw [hcs, List.length_append, List.length_append]
    omega

/-! ### The row of pieces -/

/-- The gap in front of a piece is the longest run of blanks there. -/
theorem cut_isBlank {gap p rest : List Char} (hgap : Gap gap) (hp : Piece p rest) :
    cut isBlank (gap ++ (p ++ rest)) = (gap, p ++ rest) := by
  obtain ⟨c, w, rfl⟩ := List.exists_cons_of_ne_nil hp.ne_nil
  have hc : isBlank c = false := hp.not_isBlank c List.mem_cons_self
  rw [cut, List.takeWhile_append_of_pos hgap, List.dropWhile_append_of_pos hgap, List.cons_append,
    List.takeWhile_cons_of_neg (by simp [hc]), List.dropWhile_cons_of_neg (by simp [hc]),
    List.append_nil]

theorem takePiece_gap {gap : List Char} (h : Gap gap) (cs : List Char) :
    takePiece (gap ++ cs) = takePiece cs := by
  rw [takePiece, takePiece, cut, cut, List.dropWhile_append_of_pos h]

theorem takePiece_of_gap {gap : List Char} (h : Gap gap) : takePiece gap = ([], []) := by
  have hnil := takePiece_gap h []
  rwa [List.append_nil] at hnil

theorem takePiece_piece {p rest : List Char} (h : Piece p rest) :
    takePiece (p ++ rest) = (p, rest) := by
  have hcut := cut_isBlank gap_nil h
  rw [List.nil_append] at hcut
  rw [takePiece, hcut, splitPiece_of_piece h]

/-- A text has no first piece if there is nothing behind its blanks. -/
theorem takePiece_fst_eq_nil {cs : List Char} :
    (takePiece cs).1 = [] ↔ cs.dropWhile isBlank = [] := by
  rcases gap_or_piece cs with hgap | ⟨gap, p, rest, rfl, hgap, hp⟩
  · rw [takePiece_of_gap hgap, List.dropWhile_eq_nil_iff.2 hgap]
  · have hcut : (gap ++ (p ++ rest)).dropWhile isBlank = p ++ rest :=
      congrArg Prod.snd (cut_isBlank hgap hp)
    rw [takePiece_gap hgap, takePiece_piece hp, hcut]
    exact iff_of_false hp.ne_nil fun hnil => hp.ne_nil (List.append_eq_nil_iff.1 hnil).1

theorem pieces_of_gap {gap : List Char} (h : Gap gap) : pieces gap = [] := by
  rw [pieces, takePiece_of_gap h, if_pos rfl]

@[simp] theorem pieces_nil : pieces [] = [] := pieces_of_gap gap_nil

theorem pieces_gap {gap : List Char} (h : Gap gap) (cs : List Char) :
    pieces (gap ++ cs) = pieces cs := by
  rw [pieces, takePiece_gap h, ← pieces]

theorem pieces_piece {p rest : List Char} (h : Piece p rest) :
    pieces (p ++ rest) = String.ofList p :: pieces rest := by
  rw [pieces, takePiece_piece h, if_neg h.ne_nil]

/-- A word: characters that are no delimiters, at least one. -/
def Word (w : List Char) : Prop := w ≠ [] ∧ ∀ c ∈ w, isDelimiter c = false

instance (w : List Char) : Decidable (Word w) :=
  decidable_of_iff (w ≠ [] ∧ w.any isDelimiter = false) (by simp [Word])

theorem Word.piece {w rest : List Char} (h : Word w) (hrest : Ending rest) : Piece w rest :=
  .word h.1 h.2 hrest

theorem pieces_word {w : String} {rest : List Char} (h : Word w.toList) (hrest : Ending rest) :
    pieces (w.toList ++ rest) = w :: pieces rest := by
  rw [pieces_piece (h.piece hrest), String.ofList_toList]

theorem pieces_parenthesis {c : Char} (h : isParenthesis c = true) (rest : List Char) :
    pieces (c :: rest) = String.singleton c :: pieces rest :=
  pieces_piece (.parenthesis rest h)

/-! ### One text behind another -/

/-- Between two texts no word runs on. -/
def Apart (cs ds : List Char) : Prop := Ending ds ∨ ∀ c ∈ cs.getLast?, isDelimiter c = true

theorem Apart.left {cs ds ws : List Char} (h : Apart cs (ds ++ ws)) : Apart cs ds :=
  h.imp_left Ending.left

theorem Apart.extend {cs ds : List Char} (h : Apart cs ds) (hds : ds ≠ []) (ws : List Char) :
    Apart cs (ds ++ ws) := by
  obtain ⟨d, ds, rfl⟩ := List.exists_cons_of_ne_nil hds
  exact h

theorem Apart.rest {cs ds ws : List Char} (h : Apart (cs ++ ds) ws) : Apart ds ws := by
  refine h.imp_right fun hlast c hc => hlast c ?_
  rw [List.getLast?_append, Option.mem_def.1 hc]
  rfl

/-- Text behind two texts in a row is apart from them if it is from the second, or from the first if
there is nothing in between. -/
theorem Apart.append {cs ds ws : List Char} (h : Apart cs (ds ++ ws)) (hds : Apart ds ws) :
    Apart (cs ++ ds) ws := by
  rcases List.eq_nil_or_concat ds with rfl | ⟨ds, d, rfl⟩
  · rwa [List.append_nil]
  · refine hds.imp_right fun hlast c hc => hlast c ?_
    rw [List.concat_eq_append, ← List.append_assoc] at hc
    rw [List.concat_eq_append]
    rwa [List.getLast?_concat] at hc ⊢

theorem Gap.apart {gap : List Char} (h : Gap gap) (ds : List Char) : Apart gap ds := by
  right
  intro c hc
  exact isDelimiter_of_isBlank (h c (List.mem_of_getLast? hc))

theorem Piece.apart {p rest : List Char} (h : Piece p rest) : Apart p rest := by
  cases h with
  | parenthesis _ isParen =>
    refine .inr fun d hd => ?_
    rw [List.getLast?_singleton, Option.mem_some] at hd
    rw [← hd, isDelimiter, isParen, Bool.or_true]
  | word _ _ ends => exact .inl ends

/-- A piece stays one if more text comes behind what follows it. -/
theorem Piece.append {gap p rest ds : List Char} (h : Piece p rest)
    (hapart : Apart (gap ++ (p ++ rest)) ds) : Piece p (rest ++ ds) := by
  cases h with
  | parenthesis _ isParen => exact .parenthesis _ isParen
  | word nonempty plain ends =>
    refine .word nonempty plain ?_
    cases rest with
    | cons d rest => exact ends
    | nil =>
      rcases hapart with hends | hlast
      · exact hends
      · -- the last character of the word would be a delimiter
        have hmem : p.getLast nonempty ∈ (gap ++ (p ++ [])).getLast? := by
          simp [List.getLast?_append, List.getLast?_eq_some_getLast nonempty]
        have hplain := plain _ (List.getLast_mem nonempty)
        rw [hlast _ hmem] at hplain
        exact absurd hplain (by decide)

theorem pieces_append {cs ds : List Char} (h : Apart cs ds) :
    pieces (cs ++ ds) = pieces cs ++ pieces ds := by
  induction cs using text_induction with
  | blank gap hgap => rw [pieces_gap hgap, pieces_of_gap hgap, List.nil_append]
  | piece gap p rest hgap hp ih =>
    rw [List.append_assoc, List.append_assoc, pieces_gap hgap, pieces_gap hgap, pieces_piece hp,
      pieces_piece (hp.append h), ih h.rest.rest, List.cons_append]

theorem pieces_eq_nil {cs : List Char} : pieces cs = [] ↔ Gap cs := by
  constructor
  · intro h
    rcases gap_or_piece cs with hgap | ⟨gap, p, rest, rfl, hgap, hp⟩
    · exact hgap
    · rw [pieces_gap hgap, pieces_piece hp] at h
      exact absurd h (List.cons_ne_nil _ _)
  · exact pieces_of_gap

/-! ### Blanks around a text -/

theorem trim_eq (cs : List Char) : trim cs = (cs.dropWhile isBlank).rdropWhile isBlank := rfl

theorem exists_gaps_around (cs : List Char) :
    ∃ front back, cs = front ++ (trim cs ++ back) ∧ Gap front ∧ Gap back := by
  refine ⟨cs.takeWhile isBlank, (cs.dropWhile isBlank).rtakeWhile isBlank, ?_,
    fun _ => List.mem_takeWhile_imp, fun _ => List.mem_rtakeWhile_imp⟩
  rw [trim_eq, List.rdropWhile_append_rtakeWhile, List.takeWhile_append_dropWhile]

theorem pieces_trim (cs : List Char) : pieces (trim cs) = pieces cs := by
  obtain ⟨front, back, hcs, hfront, hback⟩ := exists_gaps_around cs
  have h : pieces cs = pieces (front ++ (trim cs ++ back)) := congrArg pieces hcs
  rw [h, pieces_gap hfront, pieces_append (.inl hback.ending), pieces_of_gap hback, List.append_nil]

theorem trim_eq_nil {cs : List Char} : trim cs = [] ↔ Gap cs := by
  constructor
  · intro h
    rw [← pieces_eq_nil, ← pieces_trim, h, pieces_nil]
  · intro h
    rw [trim_eq, List.dropWhile_eq_nil_iff.2 h, List.rdropWhile_nil]

/-- Text behind a text that has a piece leaves its trimmed characters at the front. -/
theorem trim_append {cs ds : List Char} (h : ¬Gap cs) (hapart : Apart cs ds) :
    ∃ ws, trim (cs ++ ds) = trim cs ++ ws ∧ Apart (trim cs) ws := by
  have hne : (cs.dropWhile isBlank).isEmpty = false := by
    rw [List.isEmpty_eq_false_iff]
    intro hnil
    exact h (List.dropWhile_eq_nil_iff.1 hnil)
  rw [trim, List.dropWhile_append, hne, if_neg (by decide), List.reverse_append,
    List.dropWhile_append]
  split
  · exact ⟨[], (List.append_nil _).symm, .inl ending_nil⟩
  · have hback := List.rdropWhile_append_rtakeWhile (p := isBlank) (l := cs.dropWhile isBlank)
    refine ⟨(cs.dropWhile isBlank).rtakeWhile isBlank ++ ds.rdropWhile isBlank, ?_, ?_⟩
    · rw [trim_eq, ← List.append_assoc, hback, List.reverse_append, List.reverse_reverse]
      rfl
    · rw [← trim_eq] at hback
      rcases htake : (cs.dropWhile isBlank).rtakeWhile isBlank with - | ⟨b, back⟩
      · -- the two texts meet as before: blanks are dropped only in front of the one and behind the
        -- other
        rw [htake, List.append_nil] at hback
        rw [← List.takeWhile_append_dropWhile (p := isBlank) (l := cs),
          ← List.rdropWhile_append_rtakeWhile (p := isBlank) (l := ds)] at hapart
        rw [hback]
        exact hapart.rest.left
      · have hb : isBlank b = true := List.mem_rtakeWhile_imp (htake ▸ List.mem_cons_self)
        exact .inl (ending_of_isDelimiter (isDelimiter_of_isBlank hb) _)

end Polish.Text
