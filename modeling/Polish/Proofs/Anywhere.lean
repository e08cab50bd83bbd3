import Polish.Expr.Parse
import Polish.Proofs.Passing
import Polish.Proofs.Readers

/-!
An operand is read in the same way wherever it stands. The readers of an operand and of what is inside
it look at the tokens that they pass, and the readers of operands at one token behind these too; that
one is the closing parenthesis, which the operand around them passes. Main statement:
`operand_anywhere`, the text of an operand is an expression, and it is the same operand in every
source, if no word runs on from it there.

    ( * [( harm-mean 1 y )] 2 )       [( harm-mean 1 y )]
        ▲                 ▲           ▲                 ▲
        s               after         s'              after'
-/

namespace Polish

open Text Machine

namespace Expr

/-- What is read from one place up to another depends on the tokens in between and on the one behind
them: wherever these are the same, the same is read. -/
def ReadAlike (read : Scan → Scan → Prop) (s after : Scan) : Prop :=
  ∃ ts, s.Passes ts after ∧ ∀ s' after', s'.Passes ts after' →
    after'.next.token = after.next.token → read s' after'

/-! ### Inside an operand -/

-- along the readers themselves, with the measure by which they end
mutual

/-- An operand depends on its own tokens only. -/
theorem Finds.alike {s after : Scan} {e : Expr} (h : Finds s e after) : ∃ ts, s.Passes ts after ∧
    ∀ s' after', s'.Passes ts after' → Finds s' e after' := by
  rcases finds_iff.1 h with ⟨hleaf, rfl⟩ | ⟨hopen, last, hlast, hclose, rfl⟩
  · have hend : s.next.token ≠ .endOfInput := by
      intro hend
      rw [hend] at hleaf
      cases hleaf
    refine ⟨[s.next.token], Scan.passes_singleton.2 ⟨rfl, hend, rfl⟩, ?_⟩
    intro s' after' h'
    obtain ⟨htoken, -, hafter⟩ := Scan.passes_singleton.1 h'
    exact finds_iff.2 (.inl ⟨htoken ▸ hleaf, hafter⟩)
  · have hend : s.next.token ≠ .endOfInput := by simp [hopen]
    have hshorter := s.next.shorter hend
    obtain ⟨ts, hts, halike⟩ := operation_alike hlast
    have hpassed : last.Passes [.closeParenthesis] last.next.after :=
      Scan.passes_singleton.2 ⟨hclose, nofun, rfl⟩
    refine ⟨.openParenthesis :: (ts ++ [.closeParenthesis]), ?_, ?_⟩
    · exact Scan.passes_cons.2 ⟨hopen, nofun, Scan.passes_append.2 ⟨last, hts, hpassed⟩⟩
    · intro s' after' h'
      obtain ⟨hopen', -, hrest⟩ := Scan.passes_cons.1 h'
      obtain ⟨last', hts', hpassed'⟩ := Scan.passes_append.1 hrest
      obtain ⟨hclose', -, hafter'⟩ := Scan.passes_singleton.1 hpassed'
      have hbehind := hclose'.trans hclose.symm
      exact finds_iff.2 (.inr ⟨hopen', last', halike _ _ hts' hbehind, hclose', hafter'⟩)
  termination_by 2 * s.ahead.length

theorem operation_alike {s after : Scan} {e : Expr} (h : Takes (readOperation s) e after) :
    ReadAlike (fun s' after' => Takes (readOperation s') e after') s after := by
  obtain ⟨hend, o, es, ho, rfl, hes⟩ := takes_readOperation.1 h
  have hshorter := s.next.shorter hend
  have hoperands :
      ReadAlike (fun s' after' => TakesOperands o s' es after') s.next.after after := by
    unfold TakesOperands at hes ⊢
    cases harity : o.arity with
    | fixed n =>
      rw [harity] at hes
      exact fixed_alike hes
    | variadic =>
      rw [harity] at hes
      obtain ⟨ts, hts, halike⟩ := variadic_alike hes.1
      exact ⟨ts, hts, fun s' after' h' hbehind => ⟨halike s' after' h' hbehind, hes.2⟩⟩
  obtain ⟨ts, hts, halike⟩ := hoperands
  refine ⟨s.next.token :: ts, .cons hend hts, ?_⟩
  intro s' after' h' hbehind
  obtain ⟨htoken, hend', hrest⟩ := Scan.passes_cons.1 h'
  rw [← htoken] at ho hend'
  exact takes_readOperation.2 ⟨hend', o, es, ho, rfl, halike _ _ hrest hbehind⟩
  termination_by 2 * s.ahead.length

theorem fixed_alike {s after : Scan} {o : Operator} {n : Nat} {es : List Expr}
    (h : Takes (readFixed o n s) es after) :
    ReadAlike (fun s' after' => Takes (readFixed o n s') es after') s after := by
  cases n with
  | zero =>
    obtain ⟨rfl, rfl⟩ := takes_readFixed_zero.1 h
    refine ⟨[], .nil _, ?_⟩
    intro s' after' h' _
    cases h'
    exact takes_readFixed_zero.2 ⟨rfl, rfl⟩
  | succ n =>
    obtain ⟨e, between, fs, rfl, he, hfs⟩ := takes_readFixed_succ.1 h
    have hshorter := he.shorter
    obtain ⟨ts, hts, halike⟩ := he.alike
    obtain ⟨us, hus, halike'⟩ := fixed_alike hfs
    refine ⟨ts ++ us, Scan.passes_append.2 ⟨between, hts, hus⟩, ?_⟩
    intro s' after' h' hbehind
    obtain ⟨between', hts', hus'⟩ := Scan.passes_append.1 h'
    exact takes_readFixed_succ.2
      ⟨e, between', fs, rfl, halike _ _ hts', halike' _ _ hus' hbehind⟩
  termination_by 2 * s.ahead.length + 1

/-- The token behind the last operand is what ends the row. -/
theorem variadic_alike {s after : Scan} {es : List Expr} (h : Takes (readVariadic s) es after) :
    ReadAlike (fun s' after' => Takes (readVariadic s') es after') s after := by
  rcases takes_readVariadic.1 h with ⟨rfl, hclose, rfl⟩ | ⟨e, between, fs, rfl, he, hfs⟩
  · refine ⟨[], .nil _, ?_⟩
    intro s' after' h' hbehind
    cases h'
    exact takes_readVariadic.2 (.inl ⟨rfl, hbehind.trans hclose, rfl⟩)
  · have hshorter := he.shorter
    obtain ⟨ts, hts, halike⟩ := he.alike
    obtain ⟨us, hus, halike'⟩ := variadic_alike hfs
    refine ⟨ts ++ us, Scan.passes_append.2 ⟨between, hts, hus⟩, ?_⟩
    intro s' after' h' hbehind
    obtain ⟨between', hts', hus'⟩ := Scan.passes_append.1 h'
    exact takes_readVariadic.2
      (.inr ⟨e, between', fs, rfl, halike _ _ hts', halike' _ _ hus' hbehind⟩)
  termination_by 2 * s.ahead.length + 1

end

/-! ### The text of an operand -/

variable {s after : Scan} {e : Expr}

/-- An operand that takes up the whole text is what the text denotes. -/
theorem parse_of_finds {source : String} (h : Finds (.start (trim source.toList)) e after)
    (hend : after.next.token = .endOfInput) : parse source = .ok e := by
  have hne : trim source.toList ≠ [] := by
    intro hnil
    have hshorter := h.shorter
    rw [hnil] at hshorter
    exact absurd hshorter (Nat.not_lt_zero _)
  obtain ⟨shorter, hslot⟩ := h
  have hread : (readTrimmed source).outcome = .ok e := by
    rw [readTrimmed, readRoot]
    refine Attempt.bind_eq_ok.2 ⟨_, hslot, ?_⟩
    dsimp only
    rw [if_pos hend]
    rfl
  rw [parse, if_neg hne, hread]

theorem parse_of_alike {text : List Char}
    (halike : ∀ s' after', s'.Passes (tokensOf text) after' → Finds s' e after') :
    parse (String.ofList text) = .ok e := by
  have htight : Tight (trim text) := by
    rw [trim_eq]
    exact tight_rdropWhile _
  have hpasses := Scan.passes_text htight (.inl ending_nil) []
  rw [tokensOf_trim, List.append_nil] at hpasses
  have hfinds : Finds (.start (trim (String.ofList text).toList)) e
      ⟨(trim text).reverse ++ [], []⟩ := by
    rw [String.toList_ofList]
    exact halike _ _ hpasses
  exact parse_of_finds hfinds rfl

/-- The operand that is found at a place is what the text from there to its end denotes, and it is found
at every place of every source where the same text stands, if behind it there is the end, a blank or a
parenthesis; and there it ends where that text does. -/
theorem operand_anywhere {s after : Scan} {e : Expr} (h : Finds s e after) :
    ∃ text, s.ahead = text ++ after.ahead ∧ after.source = s.source ∧
      after.offset = s.offset + byteLength text ∧ parse (String.ofList text) = .ok e ∧
      ∀ (s' : Scan) (rest : List Char), s'.ahead = text ++ rest → Ending rest →
        ∃ after', Finds s' e after' ∧ after'.ahead = rest ∧ after'.source = s'.source ∧
          after'.offset = s'.offset + byteLength text := by
  obtain ⟨ts, hts, halike⟩ := h.alike
  obtain ⟨text, hahead, hpassed, htight, -, rfl⟩ := hts.exists_text
  refine ⟨text, hahead, ?_, ?_, parse_of_alike halike, ?_⟩
  · simp [Scan.source, hpassed, hahead]
  · simp [Scan.offset, hpassed, Nat.add_comm]
  · intro s' rest hs' hrest
    have hpasses := Scan.passes_text htight (.inl hrest) s'.passed
    rw [← hs'] at hpasses
    refine ⟨⟨text.reverse ++ s'.passed, rest⟩, halike s' _ hpasses, rfl, ?_, ?_⟩
    · simp [Scan.source, hs']
    · simp [Scan.offset, Nat.add_comm]

/-- A mean that is an operand of a product, with a digit right behind it, is a text by itself, and it is
found behind a letter of two bytes too. -/
theorem operand_anywhere_of_mean :
    let mean : Expr := .operation .harmonicMean [.integer 1, .var .y]
    let text := " (harm-mean 1 y)".toList
    Finds ⟨"*(".toList, text ++ "2)".toList⟩ mean ⟨text.reverse ++ "*(".toList, "2)".toList⟩ ∧
      parse " (harm-mean 1 y)" = .ok mean ∧
      ∃ after', Finds ⟨['é'], text⟩ mean after' ∧ after'.ahead = [] ∧ after'.offset = 18 := by
  intro mean text
  have h : Finds ⟨"*(".toList, text ++ "2)".toList⟩ mean
      ⟨text.reverse ++ "*(".toList, "2)".toList⟩ := by
    decide +kernel
  obtain ⟨text', hahead, -, -, hparse, hanywhere⟩ := operand_anywhere h
  obtain rfl : text = text' := List.append_cancel_right hahead
  obtain ⟨after', hfinds, hbehind, -, hoffset⟩ :=
    hanywhere ⟨['é'], text⟩ [] (List.append_nil text).symm ending_nil
  exact ⟨h, hparse, after', hfinds, hbehind, hoffset⟩

end Expr

end Polish
