import Polish.Proofs.Pieces
import Polish.Scan

/-!
What a scan finds next. The token is that of the first piece of the text ahead, and `next_induction`
goes from token to token. Main statements: `next_extend`, more text at the end of a text is not
noticed before the text is read, and `map_tokens`, a scan finds the tokens of the pieces and then the
end of input.
-/

namespace Polish

open Text

/-- The tokens of a text: what its pieces stand for. -/
def Text.tokensOf (cs : List Char) : List Token := (pieces cs).map fun t => .classify t

theorem Text.tokensOf_append {cs ds : List Char} (h : Apart cs ds) :
    tokensOf (cs ++ ds) = tokensOf cs ++ tokensOf ds := by
  rw [tokensOf, pieces_append h, List.map_append]
  rfl

theorem Text.tokensOf_trim (cs : List Char) : tokensOf (trim cs) = tokensOf cs := by
  rw [tokensOf, pieces_trim]
  rfl

theorem Text.tokensOf_of_gap {gap : List Char} (h : Gap gap) : tokensOf gap = [] := by
  rw [tokensOf, pieces_of_gap h, List.map_nil]

theorem Text.tokensOf_gap {gap : List Char} (h : Gap gap) (cs : List Char) :
    tokensOf (gap ++ cs) = tokensOf cs := by
  rw [tokensOf, pieces_gap h, ← tokensOf]

theorem Text.tokensOf_piece {p rest : List Char} (h : Piece p rest) :
    tokensOf (p ++ rest) = .classify (String.ofList p) :: tokensOf rest := by
  rw [tokensOf, pieces_piece h, List.map_cons, ← tokensOf]

theorem Text.Piece.ofList_ne_empty {p rest : List Char} (h : Piece p rest) : String.ofList p ≠ "" := by
  rw [Ne, ← String.toList_eq_nil_iff, String.toList_ofList]
  exact h.ne_nil

theorem Text.Piece.classify_ne_endOfInput {p rest : List Char} (h : Piece p rest) :
    Token.classify (String.ofList p) ≠ .endOfInput :=
  mt Token.classify_eq_endOfInput.1 h.ofList_ne_empty

/-- The token of a piece is written as the piece. -/
theorem Text.Piece.toList_text_classify {p rest : List Char} (h : Piece p rest) :
    (Token.classify (String.ofList p)).text.toList = p := by
  rw [Token.text_classify h.ofList_ne_empty, String.toList_ofList]

namespace Scan

/-- The lexeme that stands next, given its token. -/
theorem exists_next (s : Scan) {t : Token} (h : s.next.token = t) :
    ∃ after shorter, s.next = ⟨t, after, shorter⟩ := by
  subst h
  exact ⟨s.next.after, s.next.shorter, rfl⟩

theorem token_next (s : Scan) : s.next.token = .classify (String.ofList (takePiece s.ahead).1) := rfl

theorem ahead_next (s : Scan) : s.next.after.ahead = (takePiece s.ahead).2 := rfl

/-- Induction along the tokens of a scan. -/
@[elab_as_elim]
theorem next_induction {motive : Scan → Prop} (last : ∀ s, s.next.token = .endOfInput → motive s)
    (token : ∀ s, s.next.token ≠ .endOfInput → motive s.next.after → motive s) (s : Scan) :
    motive s := by
  by_cases h : s.next.token = .endOfInput
  · exact last s h
  · exact token s h (next_induction last token s.next.after)
  termination_by s.ahead.length
  decreasing_by exact s.next.shorter h

theorem token_next_eq_endOfInput {s : Scan} :
    s.next.token = .endOfInput ↔ (takePiece s.ahead).1 = [] := by
  rw [token_next, Token.classify_eq_endOfInput, ← String.toList_eq_nil_iff, String.toList_ofList]

theorem tokensOf_ahead_of_end {s : Scan} (h : s.next.token = .endOfInput) :
    tokensOf s.ahead = [] := by
  rw [tokensOf, pieces, if_pos (token_next_eq_endOfInput.1 h), List.map_nil]

theorem tokensOf_ahead {s : Scan} (h : s.next.token ≠ .endOfInput) :
    tokensOf s.ahead = s.next.token :: tokensOf s.next.after.ahead := by
  rw [tokensOf, pieces, if_neg (mt token_next_eq_endOfInput.2 h), List.map_cons, token_next,
    ahead_next]
  rfl

/-- A scan finds the tokens of the text ahead one by one, and then the end of input. -/
theorem map_tokens (s : Scan) : s.tokens.map Prod.fst = tokensOf s.ahead ++ [.endOfInput] := by
  induction s using next_induction with
  | last s h => rw [tokens, dif_pos h, tokensOf_ahead_of_end h]; rfl
  | token s h ih => rw [tokens, dif_neg h, tokensOf_ahead h, List.map_cons, ih, List.cons_append]

/-! ### More text at the end -/

/-- The scan with more text at the end of the text ahead. -/
def extend (s : Scan) (ws : List Char) : Scan := ⟨s.passed, s.ahead ++ ws⟩

theorem next_of_piece {s : Scan} {gap p rest : List Char} (hs : s.ahead = gap ++ (p ++ rest))
    (hgap : Gap gap) (hp : Piece p rest) :
    s.next.token = .classify (String.ofList p) ∧
      s.next.after = ⟨p.reverse ++ (gap.reverse ++ s.passed), rest⟩ := by
  have htake : takePiece s.ahead = (p, rest) := by rw [hs, takePiece_gap hgap, takePiece_piece hp]
  have hcut : (cut isBlank s.ahead).1 = gap := by rw [hs, cut_isBlank hgap hp]
  refine ⟨by rw [token_next, htake], ?_⟩
  show (⟨(takePiece s.ahead).1.reverse ++ ((cut isBlank s.ahead).1.reverse ++ s.passed),
    (takePiece s.ahead).2⟩ : Scan) = _
  rw [htake, hcut]

theorem next_extend {s : Scan} {ws : List Char} (h : s.next.token ≠ .endOfInput)
    (hapart : Apart s.ahead ws) :
    (s.extend ws).next.token = s.next.token ∧ (s.extend ws).next.after = s.next.after.extend ws := by
  rcases gap_or_piece s.ahead with hgap | ⟨gap, p, rest, hs, hgap, hp⟩
  · rw [Ne, token_next_eq_endOfInput, takePiece_of_gap hgap] at h
    exact absurd rfl h
  · obtain ⟨htoken, hafter⟩ := next_of_piece hs hgap hp
    have hext : (s.extend ws).ahead = gap ++ (p ++ (rest ++ ws)) := by
      rw [extend, hs, List.append_assoc, List.append_assoc]
    rw [hs] at hapart
    obtain ⟨htoken', hafter'⟩ := next_of_piece hext hgap (hp.append hapart)
    rw [htoken, hafter, htoken', hafter']
    exact ⟨rfl, rfl⟩

theorem apart_next {s : Scan} {ws : List Char} (hapart : Apart s.ahead ws) :
    Apart s.next.after.ahead ws := by
  have h := splitPiece_append (cut isBlank s.ahead).2
  rw [← cut_append isBlank s.ahead, ← h] at hapart
  exact hapart.rest.rest

end Scan

end Polish
