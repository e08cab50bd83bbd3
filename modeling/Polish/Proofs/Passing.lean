import Polish.Proofs.Stops

/-!
The tokens that are passed on the way from one place of a text to another. Main statements:
`Passes.exists_text` and `passes_text`, tokens are passed exactly when a text with these tokens stands
in between that ends with the last of them, wherever in a source that text stands.

    source = passed ++ (text ++ ahead)
                    ▲           ▲
                  scan  tokens  scan
-/

namespace Polish

open Text

section

variable {cs ds : List Char}

theorem Text.Tight.right (h : Tight (cs ++ ds)) : Tight ds := by
  intro c hc
  refine h c ?_
  rw [List.getLast?_append, Option.mem_def.1 hc]
  rfl

theorem Text.Tight.append (hcs : Tight cs) (hds : Tight ds) : Tight (cs ++ ds) := by
  intro c hc
  rw [List.getLast?_append, Option.mem_def, Option.or_eq_some_iff] at hc
  rcases hc with hc | ⟨-, hc⟩
  · exact hds c hc
  · exact hcs c hc

theorem Text.Tight.eq_nil (h : Tight cs) (hgap : Gap cs) : cs = [] := by
  rcases List.eq_nil_or_concat cs with hnil | ⟨front, b, rfl⟩
  · exact hnil
  · have hb := hgap b (by simp)
    rw [h b (by simp)] at hb
    cases hb

end

namespace Scan

/-- `s.Passes ts after`: the tokens found from one place on, none of them the end of input, and the
place behind the last one. -/
inductive Passes : Scan → List Token → Scan → Prop where
  | nil (s : Scan) : Passes s [] s
  | cons {s after : Scan} {ts : List Token} (goesOn : s.next.token ≠ .endOfInput)
      (rest : Passes s.next.after ts after) : Passes s (s.next.token :: ts) after

variable {s after : Scan} {t : Token} {ts us : List Token}

theorem passes_cons : s.Passes (t :: ts) after ↔
    s.next.token = t ∧ t ≠ .endOfInput ∧ s.next.after.Passes ts after := by
  constructor
  · intro h
    cases h with
    | cons goesOn rest => exact ⟨rfl, goesOn, rest⟩
  · rintro ⟨rfl, goesOn, rest⟩
    exact .cons goesOn rest

theorem passes_singleton :
    s.Passes [t] after ↔ s.next.token = t ∧ t ≠ .endOfInput ∧ after = s.next.after := by
  rw [passes_cons]
  constructor
  · rintro ⟨htoken, goesOn, hrest⟩
    cases hrest
    exact ⟨htoken, goesOn, rfl⟩
  · rintro ⟨htoken, goesOn, rfl⟩
    exact ⟨htoken, goesOn, .nil _⟩

theorem passes_append :
    s.Passes (ts ++ us) after ↔ ∃ between, s.Passes ts between ∧ between.Passes us after := by
  induction ts generalizing s with
  | nil =>
    constructor
    · intro h
      exact ⟨s, .nil s, h⟩
    · rintro ⟨between, hnil, h⟩
      cases hnil
      exact h
  | cons t ts ih =>
    simp only [List.cons_append, passes_cons, ih]
    constructor
    · rintro ⟨htoken, goesOn, between, hts, hus⟩
      exact ⟨between, ⟨htoken, goesOn, hts⟩, hus⟩
    · rintro ⟨between, ⟨htoken, goesOn, hts⟩, hus⟩
      exact ⟨htoken, goesOn, between, hts, hus⟩

/-! ### The text in between -/

/-- What is passed is a text that ends with the last token, and no word runs on from it. -/
theorem Passes.exists_text (h : s.Passes ts after) : ∃ text, s.ahead = text ++ after.ahead ∧
    after.passed = text.reverse ++ s.passed ∧ Tight text ∧ Apart text after.ahead ∧
      tokensOf text = ts := by
  induction h with
  | nil s => exact ⟨[], rfl, rfl, nofun, .inr nofun, tokensOf_of_gap gap_nil⟩
  | @cons s after ts goesOn rest ih =>
    obtain ⟨text, hahead, hpassed, htight, hapart, htokens⟩ := ih
    rcases gap_or_piece s.ahead with hgap | ⟨gap, p, back, hs, hgap, hp⟩
    · rw [Ne, token_next_eq_endOfInput, takePiece_of_gap hgap] at goesOn
      exact absurd rfl goesOn
    · obtain ⟨htoken, hafter⟩ := next_of_piece hs hgap hp
      rw [hafter] at hahead hpassed
      dsimp only at hahead hpassed
      refine ⟨gap ++ p ++ text, ?_, ?_, (hp.tight gap).append htight, ?_, ?_⟩
      · simp [hs, hahead]
      · simp [hpassed]
      · rw [hahead] at hp
        exact ((hgap.apart _).append hp.apart).append hapart
      · rw [hahead] at hp
        rw [List.append_assoc, tokensOf_gap hgap, tokensOf_piece hp.left, htokens, htoken]

/-- The tokens of a text are passed from its place to the place behind it, unless blanks stand at its
end or a word of it runs on. -/
theorem passes_text {text rest : List Char} (htight : Tight text) (hapart : Apart text rest)
    (passed : List Char) :
    Passes ⟨passed, text ++ rest⟩ (tokensOf text) ⟨text.reverse ++ passed, rest⟩ := by
  induction text using text_induction generalizing passed with
  | blank gap hgap =>
    obtain rfl := htight.eq_nil hgap
    rw [tokensOf_of_gap gap_nil]
    exact .nil _
  | piece gap p back hgap hp ih =>
    have hp' : Piece p (back ++ rest) := hp.append hapart
    have hahead : gap ++ (p ++ back) ++ rest = gap ++ (p ++ (back ++ rest)) := by simp
    obtain ⟨htoken, hafter⟩ := next_of_piece (s := ⟨passed, _⟩) hahead hgap hp'
    have hrest := ih htight.right.right hapart.rest.rest (p.reverse ++ (gap.reverse ++ passed))
    rw [tokensOf_gap hgap, tokensOf_piece hp, passes_cons, hafter]
    refine ⟨htoken, hp'.classify_ne_endOfInput, ?_⟩
    simpa using hrest

end Scan

end Polish
