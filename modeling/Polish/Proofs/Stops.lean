import Polish.Proofs.EarlyFailure

/-!
Where reading stops. A text that is no expression is read up to a piece that is refused, or else up to
its end, and the failure is placed there. Main statements: `parse_of_stop`, a text cut at a refused
piece is read with the cause of the refusal, placed behind the piece or, where an operation was closed
without operands, behind the text in front of it; and `exists_stop`, every failure is placed in one of
the two ways.

    trimmed text = front ++ (piece ++ back)
                            ▲     ▲
                no arguments│     │any other cause
-/

namespace Polish

open Text

/-! ### Blanks at the end of a text -/

section

variable {cs ds : List Char}

theorem Text.rdropWhile_append_gap (cs : List Char) (h : Gap ds) :
    (cs ++ ds).rdropWhile isBlank = cs.rdropWhile isBlank := by
  have hback : ds.reverse.dropWhile isBlank = [] :=
    List.dropWhile_eq_nil_iff.2 fun c hc => h c (List.mem_reverse.1 hc)
  rw [List.rdropWhile, List.rdropWhile, List.reverse_append, List.dropWhile_append, hback]
  rfl

theorem Text.rdropWhile_append_of_not_gap (cs : List Char) (h : ¬Gap ds) :
    (cs ++ ds).rdropWhile isBlank = cs ++ ds.rdropWhile isBlank := by
  have hback : (ds.reverse.dropWhile isBlank).isEmpty = false := by
    rw [List.isEmpty_eq_false_iff, Ne, List.dropWhile_eq_nil_iff]
    intro hall
    exact h fun c hc => hall c (List.mem_reverse.2 hc)
  rw [List.rdropWhile, List.rdropWhile, List.reverse_append, List.dropWhile_append, hback]
  simp

/-- A text that does not end with a blank. -/
def Text.Tight (cs : List Char) : Prop := ∀ c ∈ cs.getLast?, isBlank c = false

theorem Text.Tight.rdropWhile (h : Tight cs) : cs.rdropWhile isBlank = cs := by
  refine List.rdropWhile_eq_self_iff.2 fun hne => ?_
  have hlast := h _ (List.getLast?_eq_some_getLast hne)
  simp [hlast]

theorem Text.Tight.rdropWhile_append (h : Tight cs) (ds : List Char) :
    (cs ++ ds).rdropWhile isBlank = cs ++ ds.rdropWhile isBlank := by
  by_cases hds : Gap ds
  · rw [rdropWhile_append_gap cs hds, h.rdropWhile, List.rdropWhile_eq_nil_iff.2 hds, List.append_nil]
  · exact rdropWhile_append_of_not_gap cs hds

theorem Text.Piece.tight {p rest : List Char} (h : Piece p rest) (cs : List Char) :
    Tight (cs ++ p) := by
  intro c hc
  rw [List.getLast?_append_of_ne_nil _ h.ne_nil] at hc
  exact h.not_isBlank c (List.mem_of_getLast? hc)

theorem Text.tight_rdropWhile (cs : List Char) : Tight (cs.rdropWhile isBlank) := by
  intro c hc
  have hne : cs.rdropWhile isBlank ≠ [] := by
    intro hnil
    rw [hnil] at hc
    cases hc
  have hlast := List.rdropWhile_last_not isBlank cs hne
  rw [List.getLast?_eq_some_getLast hne, Option.mem_some] at hc
  rw [← hc]
  simpa using hlast

end

namespace Machine

/-- The text in front of the place where a cause is put, if a piece is refused behind a text. -/
def blamed (front p : List Char) : ParseError.Cause → List Char
  | .noArguments _ => front.rdropWhile isBlank
  | _ => front ++ p

theorem blamed_of_ne {front p : List Char} {cause : ParseError.Cause}
    (h : ∀ o, cause ≠ .noArguments o) : blamed front p cause = front ++ p := by
  cases cause with
  | noArguments o => exact absurd rfl (h o)
  | _ => rfl

theorem blamed_append {cs : List Char} (h : Tight cs) (ds p : List Char)
    (cause : ParseError.Cause) : blamed (cs ++ ds) p cause = cs ++ blamed ds p cause := by
  cases cause with
  | noArguments o => exact h.rdropWhile_append ds
  | _ => exact List.append_assoc cs ds p

theorem tight_blamed {front p back : List Char} (h : Piece p back) (cause : ParseError.Cause) :
    Tight (blamed front p cause) := by
  cases cause with
  | noArguments o => exact tight_rdropWhile front
  | _ => exact h.tight front

/-! ### The machine at the place -/

theorem blame_gap {passed gap p back : List Char} (hgap : Gap gap) (hp : Piece p back)
    (cause : ParseError.Cause) : blame ⟨passed, gap ++ (p ++ back)⟩ cause =
      ⟨cause, passed.length + (blamed gap p cause).length⟩ := by
  obtain ⟨-, hafter⟩ := Scan.next_of_piece (s := ⟨passed, gap ++ (p ++ back)⟩) rfl hgap hp
  have hcolumn : (⟨passed, gap ++ (p ++ back)⟩ : Scan).next.after.column =
      passed.length + (gap ++ p).length := by
    rw [hafter, Scan.column]
    simp only [List.length_append, List.length_reverse]
    omega
  cases cause with
  | noArguments o =>
    rw [blamed, List.rdropWhile_eq_nil_iff.2 hgap]
    rfl
  | _ => exact congrArg (Fault.mk _) hcolumn

/-- Text that is taken and a piece that is refused behind it: the cause is put behind what is blamed. -/
theorem outcome_of_refused {front p back : List Char} (hp : Piece p back)
    {cause : ParseError.Cause} {state state' : State} (passed : List Char)
    (seam : Apart front (p ++ back)) (taken : run state (tokensOf front) = .ok state')
    (refused : step state' (.classify (String.ofList p)) = .error cause) :
    (readScan state ⟨passed, front ++ (p ++ back)⟩).outcome =
      .error ⟨cause, passed.length + (blamed front p cause).length⟩ := by
  induction front using text_induction generalizing state passed with
  | blank gap hgap =>
    rw [tokensOf_of_gap hgap] at taken
    cases taken
    obtain ⟨htoken, -⟩ := Scan.next_of_piece (s := ⟨passed, gap ++ (p ++ back)⟩) rfl hgap hp
    rw [readScan_of_error (htoken ▸ hp.classify_ne_endOfInput) (htoken ▸ refused), blame_gap hgap hp]
  | piece gap q rest hgap hq ih =>
    have hq' : Piece q (rest ++ (p ++ back)) := hq.append seam
    rw [tokensOf_gap hgap, tokensOf_piece hq, run_cons_eq_ok] at taken
    obtain ⟨next, hstep, hrest⟩ := taken
    have htext : gap ++ (q ++ rest) ++ (p ++ back) = gap ++ (q ++ (rest ++ (p ++ back))) := by
      simp only [List.append_assoc]
    obtain ⟨htoken, hafter⟩ :=
      Scan.next_of_piece (s := ⟨passed, gap ++ (q ++ (rest ++ (p ++ back)))⟩) rfl hgap hq'
    have hlength : (q.reverse ++ (gap.reverse ++ passed)).length + (blamed rest p cause).length =
        passed.length + (blamed (gap ++ (q ++ rest)) p cause).length := by
      rw [← List.append_assoc gap, blamed_append (hq.tight gap)]
      simp only [List.length_append, List.length_reverse]
      omega
    rw [htext, readScan_of_ok (htoken ▸ hq'.classify_ne_endOfInput) (htoken ▸ hstep), hafter,
      ← hlength]
    exact ih _ seam.rest.rest hrest

/-- What is found wanting at the end of a text is placed at the end. -/
theorem outcome_of_end {s : Scan} {state state' : State} {cause : ParseError.Cause}
    (taken : run state (tokensOf s.ahead) = .ok state') (wanting : finish state' = .error cause) :
    (readScan state s).outcome = .error ⟨cause, s.source.length⟩ := by
  induction s using Scan.next_induction generalizing state with
  | last s hend =>
    rw [Scan.tokensOf_ahead_of_end hend] at taken
    cases taken
    have hahead : s.next.after.ahead = [] := by
      rcases gap_or_piece s.ahead with hgap | ⟨gap, p, rest, hs, hgap, hp⟩
      · rw [Scan.ahead_next, takePiece_of_gap hgap]
      · rw [(Scan.next_of_piece hs hgap hp).1] at hend
        exact absurd hend (hp.classify_ne_endOfInput)
    have hcolumn : s.next.after.column = s.source.length := by
      rw [← s.source_next, Scan.source, hahead, List.append_nil, List.length_reverse, Scan.column]
    rw [readScan_of_end hend, wanting, ← hcolumn]
    rcases Expr.cause_of_finish wanting with rfl | rfl | ⟨o, rfl⟩ <;> rfl
  | token s hmore ih =>
    rw [Scan.tokensOf_ahead hmore, run_cons_eq_ok] at taken
    obtain ⟨next, hstep, hrest⟩ := taken
    rw [readScan_of_ok hmore hstep, ← s.source_next]
    exact ih hrest

end Machine

/-! ### The reader at the place -/

namespace Expr

open Machine

theorem parse_of_stop {source : String} {front p back : List Char} {state : State}
    {cause : ParseError.Cause} (h : Stop (trim source.toList) front p back state cause) :
    parse source =
      .error ⟨cause, some (blamed front p cause).length, trim source.toList⟩ := by
  have hgap : ¬Gap source.toList := by
    rw [← trim_eq_nil, h.text]
    simp [h.piece.ne_nil]
  have hout := outcome_of_refused h.piece [] h.seam h.taken h.refused
  rw [← h.text, List.length_nil, Nat.zero_add] at hout
  rw [parse_of_not_gap hgap, Scan.start, hout]
  rfl

theorem parse_of_end {source : String} {state : State} {cause : ParseError.Cause}
    (hgap : ¬Gap source.toList) (taken : run .start (tokensOf source.toList) = .ok state)
    (wanting : finish state = .error cause) :
    parse source = .error ⟨cause, some (trim source.toList).length, trim source.toList⟩ := by
  rw [← tokensOf_trim] at taken
  rw [parse_of_not_gap hgap, outcome_of_end (s := .start (trim source.toList)) taken wanting]
  rfl

/-- A failure is placed at the end of the text or at a refused piece. -/
theorem exists_stop {source : String} {err : ParseError} (h : parse source = .error err)
    (hgap : ¬Gap source.toList) :
    (∃ state, run .start (tokensOf source.toList) = .ok state ∧
      finish state = .error err.cause ∧ err.position = some (trim source.toList).length) ∨
    ∃ front p back state, Stop (trim source.toList) front p back state err.cause ∧
      err.position = some (blamed front p err.cause).length := by
  rcases hrun : run .start (tokensOf source.toList) with cause | state
  · rw [← tokensOf_trim] at hrun
    obtain ⟨front, p, back, state, hstop⟩ := exists_stop_of_run hrun
    cases h.symm.trans (parse_of_stop hstop)
    exact .inr ⟨front, p, back, state, hstop, rfl⟩
  · rcases hfinish : finish state with cause | e
    · cases h.symm.trans (parse_of_end hgap hrun hfinish)
      exact .inl ⟨state, rfl, hfinish, rfl⟩
    · rw [finish_eq_ok.1 hfinish] at hrun
      cases h.symm.trans (parse_eq_ok.2 hrun)

end Expr

end Polish
