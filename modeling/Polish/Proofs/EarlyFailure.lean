import Polish.Proofs.Completion
import Polish.Proofs.OnePass

/-!
A failure is noticed at the first token that no expression goes on with. A text is an expression, or
it is the front of one, or it has a token that spoils it, and then all that could follow is of no
account. Main statement: `earliest_failure`, each text is in one of these classes only, and what each
says of the text behind it.

    accepted ── token ──▶ refused (trailing input)
    wanting ── text ──▶ accepted
    accepted, wanting ── offending token ──▶ refused ── text ──▶ refused alike
-/

namespace Polish

open Text Machine

/-! ### Refused pieces -/

namespace Machine

/-- `Stop cs front p back state cause`: the text is cut at a piece, the machine takes what stands in
front of the piece and is in the state then, and it refuses the piece. -/
structure Stop (cs front p back : List Char) (state : State) (cause : ParseError.Cause) : Prop where
  text : cs = front ++ (p ++ back)
  seam : Apart front (p ++ back)
  piece : Piece p back
  taken : run .start (tokensOf front) = .ok state
  refused : step state (.classify (String.ofList p)) = .error cause

/-- A row of tokens that the machine refuses is cut at the first token that cannot be taken. -/
theorem exists_refused_piece {state : State} {cs : List Char} {cause : ParseError.Cause}
    (h : run state (tokensOf cs) = .error cause) :
    ∃ front p back state', cs = front ++ (p ++ back) ∧ Apart front (p ++ back) ∧ Piece p back ∧
      run state (tokensOf front) = .ok state' ∧
      step state' (.classify (String.ofList p)) = .error cause := by
  induction cs using text_induction generalizing state with
  | blank gap hgap =>
    rw [tokensOf_of_gap hgap] at h
    cases h
  | piece gap p rest hgap hp ih =>
    rw [tokensOf_gap hgap, tokensOf_piece hp, run_cons] at h
    rcases hstep : step state (.classify (String.ofList p)) with cause' | next
    · rw [hstep] at h
      cases h
      refine ⟨gap, p, rest, state, rfl, hgap.apart _, hp, ?_, hstep⟩
      rw [tokensOf_of_gap hgap]
      rfl
    · rw [hstep] at h
      obtain ⟨front, q, back, state', rfl, hapart, hq, hrun, hstop⟩ := ih h
      refine ⟨gap ++ p ++ front, q, back, state', by simp only [List.append_assoc],
        ((hgap.apart _).append hp.apart).append hapart, hq, ?_, hstop⟩
      rw [List.append_assoc, tokensOf_gap hgap, tokensOf_piece hp.left, run_cons, hstep]
      exact hrun

theorem exists_stop_of_run {cs : List Char} {cause : ParseError.Cause}
    (h : run .start (tokensOf cs) = .error cause) :
    ∃ front p back state, Stop cs front p back state cause := by
  obtain ⟨front, p, back, state, text, seam, piece, taken, refused⟩ := exists_refused_piece h
  exact ⟨front, p, back, state, text, seam, piece, taken, refused⟩

end Machine

namespace Expr

/-- The text is an expression. -/
def Accepted (source : String) : Prop := ∃ e, parse source = .ok e

/-- Reading the text fails for want of a further token: the machine, which ends as the reader does,
takes all its tokens, and the cause is found at the end. -/
def Wanting (source : String) : Prop :=
  ∃ err state, parse source = .error err ∧ run .start (tokensOf source.toList) = .ok state ∧
    finish state = .error err.cause

/-- Reading the text fails at one of its tokens: the cause is found where the machine stops. -/
def Refused (source : String) : Prop :=
  ∃ err, parse source = .error err ∧ run .start (tokensOf source.toList) = .error err.cause

/-- Reading the text fails with a given cause and at a given position. -/
def FailsLike (err : ParseError) (source : String) : Prop :=
  ∃ err', parse source = .error err' ∧ err'.cause = err.cause ∧ err'.position = err.position

/-- `Offending source front token back`: the text is cut at the token at which reading it fails, and
the text in front of the token is an expression or wants a further token. -/
structure Offending (source front token back : String) : Prop where
  text : source = front ++ token ++ back
  row : pieces source.toList = pieces front.toList ++ token :: pieces back.toList
  before : Accepted front ∨ Wanting front
  refused : Refused (front ++ token)

/-! ### The classes in terms of the machine -/

theorem exists_parse_eq_error {source : String} {cause : ParseError.Cause}
    (h : run .start (tokensOf source.toList) >>= finish = .error cause) :
    ∃ err, parse source = .error err ∧ err.cause = cause := by
  rw [← mapError_cause_parse] at h
  rcases hparse : parse source with err | e
  · rw [hparse] at h
    exact ⟨err, rfl, Except.error.inj h⟩
  · rw [hparse] at h
    cases h

theorem accepted_iff {source : String} :
    Accepted source ↔ ∃ e, run .start (tokensOf source.toList) = .ok (.complete e) :=
  exists_congr fun _ => parse_eq_ok

theorem wanting_iff {source : String} : Wanting source ↔
    ∃ state, run .start (tokensOf source.toList) = .ok state ∧ ∀ e, state ≠ .complete e := by
  constructor
  · rintro ⟨err, state, -, hrun, hfinish⟩
    refine ⟨state, hrun, ?_⟩
    rintro e rfl
    cases hfinish
  · rintro ⟨state, hrun, hstate⟩
    rcases hfinish : finish state with cause | e
    · have hread : run .start (tokensOf source.toList) >>= finish = .error cause := by
        rw [hrun]
        exact hfinish
      obtain ⟨err, hparse, hcause⟩ := exists_parse_eq_error hread
      exact ⟨err, state, hparse, hrun, hfinish.trans (congrArg Except.error hcause.symm)⟩
    · exact absurd (finish_eq_ok.1 hfinish) (hstate e)

theorem refused_iff {source : String} : Refused source ↔
    ∃ cause, run .start (tokensOf source.toList) = .error cause := by
  constructor
  · rintro ⟨err, -, hrun⟩
    exact ⟨err.cause, hrun⟩
  · rintro ⟨cause, hrun⟩
    have hread : run .start (tokensOf source.toList) >>= finish = .error cause := by
      rw [hrun]
      rfl
    obtain ⟨err, hparse, hcause⟩ := exists_parse_eq_error hread
    exact ⟨err, hparse, hrun.trans (congrArg Except.error hcause.symm)⟩

/-- Each text is in one class. -/
theorem classes (source : String) :
    (Accepted source ∧ ¬Wanting source ∧ ¬Refused source) ∨
      (¬Accepted source ∧ Wanting source ∧ ¬Refused source) ∨
      (¬Accepted source ∧ ¬Wanting source ∧ Refused source) := by
  rw [accepted_iff, wanting_iff, refused_iff]
  rcases hrun : run .start (tokensOf source.toList) with cause | state
  · simp
  · cases state <;> simp

/-! ### Text behind a text -/

theorem toList_spaced (source more : String) :
    (source ++ " " ++ more).toList = source.toList ++ ([' '] ++ more.toList) := by
  rw [String.toList_append, String.toList_append, List.append_assoc]
  rfl

theorem tokensOf_spaced (source more : String) :
    tokensOf (source ++ " " ++ more).toList = tokensOf source.toList ++ tokensOf more.toList := by
  have hending : Ending ([' '] ++ more.toList) := ending_of_isDelimiter (by decide) _
  rw [toList_spaced, tokensOf_append (.inl hending), tokensOf_gap gap_space]

/-- Behind an expression, the first token of more text is refused. -/
theorem trailing_of_accepted {source : String} (h : Accepted source) {more : String}
    (hmore : ∃ c ∈ more.toList, isBlank c = false) :
    ∃ first rest err, pieces more.toList = first :: rest ∧
      parse (source ++ " " ++ more) = .error err ∧ err.cause = .trailingInput first := by
  obtain ⟨e, hrun⟩ := accepted_iff.1 h
  rcases hpieces : pieces more.toList with - | ⟨first, rest⟩
  · obtain ⟨c, hc, hblank⟩ := hmore
    rw [pieces_eq_nil.1 hpieces c hc] at hblank
    cases hblank
  · have hfirst : first ≠ "" := by
      intro hempty
      apply empty_not_mem_pieces more.toList
      rw [hpieces, hempty]
      exact List.mem_cons_self
    have hread : run .start (tokensOf (source ++ " " ++ more).toList) >>= finish =
        .error (.trailingInput first) := by
      rw [tokensOf_spaced, run_append_of_ok hrun, tokensOf, hpieces, List.map_cons, run_cons, step,
        Token.text_classify hfirst]
      rfl
    obtain ⟨err, hparse, hcause⟩ := exists_parse_eq_error hread
    exact ⟨first, rest, err, rfl, hparse, hcause⟩

/-- What the machine finds at the end of the tokens is that a token is wanting. -/
theorem cause_of_finish {state : State} {cause : ParseError.Cause} (h : finish state = .error cause) :
    cause = .emptyExpression ∨ cause = .unexpectedEndOfInput ∨ ∃ o, cause = .missingArgument o := by
  rcases state with - | outer | ⟨p, outer⟩ | e
  · cases h
    exact .inl rfl
  · cases h
    exact .inr (.inl rfl)
  · rcases harity : p.operator.arity with count | -
    · rcases hlacking : p.lacking with - | - <;> simp only [finish, harity, hlacking] at h <;> cases h
      · exact .inr (.inl rfl)
      · exact .inr (.inr ⟨_, rfl⟩)
    · simp only [finish, harity] at h
      cases h
      exact .inr (.inl rfl)
  · cases h

theorem exists_completion_of_wanting {source : String} (h : Wanting source) :
    ∃ more e, parse (source ++ " " ++ more) = .ok e := by
  obtain ⟨state, hrun, hstate⟩ := wanting_iff.1 h
  obtain ⟨more, e, hmore⟩ := (reached_of_run hrun).exists_text hstate
  refine ⟨more, e, ?_⟩
  rw [parse_eq_ok, tokensOf_spaced, run_append_of_ok hrun, hmore]

/-- Once a token is refused, text behind it changes neither the cause nor the position. -/
theorem failsLike_append {source more : String} {err : ParseError} (h : parse source = .error err)
    (hrun : run .start (tokensOf source.toList) = .error err.cause)
    (hapart : Apart source.toList more.toList) : FailsLike err (source ++ more) := by
  have hgap : ¬Gap source.toList := by
    intro hgap
    rw [tokensOf_of_gap hgap] at hrun
    cases hrun
  have hgap' : ¬Gap (source ++ more).toList := by
    intro hgap'
    apply hgap
    intro c hc
    apply hgap' c
    rw [String.toList_append]
    exact List.mem_append_left _ hc
  obtain ⟨ws, htrim, hws⟩ := trim_append hgap hapart
  have hscan : readScan .start (.start (trim (source ++ more).toList)) =
      readScan .start (.start (trim source.toList)) := by
    rw [String.toList_append, htrim]
    exact readScan_extend (s := .start (trim source.toList)) hws
      ((congrArg (run .start) (tokensOf_trim _)).trans hrun)
  rw [parse_of_not_gap hgap] at h
  rw [FailsLike, parse_of_not_gap hgap', hscan]
  rcases hout : (readScan .start (.start (trim source.toList))).outcome with fault | e
  · rw [hout] at h
    cases h
    exact ⟨_, rfl, rfl, rfl⟩
  · rw [hout] at h
    cases h

/-! ### The offending token -/

/-- A text that is cut at a refused piece is cut at the offending token. -/
theorem offending_of_stop {source : String} {front p back : List Char} {state : State}
    {cause : ParseError.Cause} (h : Stop source.toList front p back state cause) :
    Offending source (String.ofList front) (String.ofList p) (String.ofList back) := by
  have hpiece : pieces p = [String.ofList p] := by
    have hrow := pieces_piece (@Piece.left p [] back h.piece)
    rwa [List.append_nil, pieces_nil] at hrow
  have hpieces : pieces (front ++ p) = pieces front ++ [String.ofList p] := by
    rw [pieces_append h.seam.left, hpiece]
  refine ⟨?_, ?_, ?_, refused_iff.2 ⟨cause, ?_⟩⟩
  · rw [← String.toList_inj, h.text]
    simp only [String.toList_append, String.toList_ofList, List.append_assoc]
  · rw [h.text, ← List.append_assoc, pieces_append (h.seam.append h.piece.apart), hpieces,
      String.toList_ofList, String.toList_ofList, List.append_assoc]
    rfl
  · have htaken := h.taken
    rw [accepted_iff, wanting_iff, String.toList_ofList]
    cases state with
    | complete e => exact .inl ⟨e, htaken⟩
    | _ => exact .inr ⟨_, htaken, by simp⟩
  · rw [String.toList_append, String.toList_ofList, String.toList_ofList, tokensOf, hpieces,
      List.map_append]
    exact (run_append_of_ok h.taken _).trans ((run_singleton _ _).trans h.refused)

theorem exists_offending {source : String} {err : ParseError} (h : parse source = .error err)
    (hrun : run .start (tokensOf source.toList) = .error err.cause) :
    ∃ front token back, Offending source front token back ∧ FailsLike err (front ++ token) := by
  obtain ⟨front, p, back, state, hstop⟩ := exists_stop_of_run hrun
  have hoffending := offending_of_stop hstop
  obtain ⟨err₀, hparse₀, hrun₀⟩ := id hoffending.refused
  refine ⟨_, _, _, hoffending, err₀, hparse₀, ?_⟩
  have hapart :
      Apart (String.ofList front ++ String.ofList p).toList (String.ofList back).toList := by
    simpa only [String.toList_append, String.toList_ofList] using hstop.seam.append hstop.piece.apart
  obtain ⟨err', hparse', hcause, hposition⟩ := failsLike_append hparse₀ hrun₀ hapart
  rw [← hoffending.text, h] at hparse'
  cases hparse'
  exact ⟨hcause.symm, hposition.symm⟩

/-- Failures are noticed as early as can be. A text is in one of three classes only. If it is an
expression, the first token of more text behind it is refused as trailing input. If reading it fails
for want of a further token, some text behind it makes an expression. If reading it fails at a token,
it fails alike whatever text comes behind, and the text in front of the token is in one of the first
two classes. -/
theorem earliest_failure (source : String) :
    ((Accepted source ∧ ¬Wanting source ∧ ¬Refused source) ∨
      (¬Accepted source ∧ Wanting source ∧ ¬Refused source) ∨
      (¬Accepted source ∧ ¬Wanting source ∧ Refused source)) ∧
    (Accepted source → ∀ more : String, (∃ c ∈ more.toList, isBlank c = false) →
      ∃ first rest err, pieces more.toList = first :: rest ∧
        parse (source ++ " " ++ more) = .error err ∧ err.cause = .trailingInput first) ∧
    (Wanting source → ∃ err, parse source = .error err ∧
      (err.cause = .emptyExpression ∨ err.cause = .unexpectedEndOfInput ∨
        ∃ o, err.cause = .missingArgument o) ∧
      ∃ more e, parse (source ++ " " ++ more) = .ok e) ∧
    (Refused source → ∃ err, parse source = .error err ∧
      (∀ more, FailsLike err (source ++ " " ++ more)) ∧
      ∃ front token back, Offending source front token back ∧ FailsLike err (front ++ token)) := by
  refine ⟨classes source, fun h _ => trailing_of_accepted h, fun h => ?_, fun h => ?_⟩
  · obtain ⟨err, state, hparse, -, hfinish⟩ := id h
    exact ⟨err, hparse, cause_of_finish hfinish, exists_completion_of_wanting h⟩
  · obtain ⟨err, hparse, hrun⟩ := h
    refine ⟨err, hparse, fun more => ?_, exists_offending hparse hrun⟩
    rw [String.append_assoc]
    refine failsLike_append hparse hrun (.inl ?_)
    rw [String.toList_append]
    exact ending_of_isDelimiter (by decide) _

/-- A sum that is cut off wants an operand, a closing parenthesis in place of the operand spoils it,
and with the operand in front it completes the sum. -/
theorem earliest_failure_of_sum :
    (Wanting "(+ 1" ∧ ∃ more e, parse ("(+ 1" ++ " " ++ more) = .ok e) ∧
      (Refused "(+ 1)" ∧ ∃ err, parse "(+ 1)" = .error err ∧
        ∀ more, FailsLike err ("(+ 1)" ++ " " ++ more)) ∧
      (Accepted "(+ 1 x)" ∧ ∃ first rest err, pieces ")".toList = first :: rest ∧
        parse ("(+ 1 x)" ++ " " ++ ")") = .error err ∧ err.cause = .trailingInput first) := by
  have hwanting : Wanting "(+ 1" := by
    refine wanting_iff.2 ⟨.within ⟨.add, [.integer 1]⟩ [], ?_, by simp⟩
    rw [tokensOf, show pieces "(+ 1".toList = ["(", "+", "1"] by decide +kernel]
    rfl
  have hrefused : Refused "(+ 1)" := by
    refine refused_iff.2 ⟨.missingArgument "+", ?_⟩
    rw [tokensOf, show pieces "(+ 1)".toList = ["(", "+", "1", ")"] by decide +kernel]
    rfl
  have haccepted : Accepted "(+ 1 x)" := by
    refine accepted_iff.2 ⟨.operation .add [.integer 1, .var .x], ?_⟩
    rw [tokensOf, show pieces "(+ 1 x)".toList = ["(", "+", "1", "x", ")"] by decide +kernel]
    rfl
  obtain ⟨-, -, hcompletes, -⟩ := earliest_failure "(+ 1"
  obtain ⟨-, -, -, hspoils⟩ := earliest_failure "(+ 1)"
  obtain ⟨-, htrailing, -, -⟩ := earliest_failure "(+ 1 x)"
  obtain ⟨-, -, -, hmore⟩ := hcompletes hwanting
  obtain ⟨err, hparse, halike, -⟩ := hspoils hrefused
  exact ⟨⟨hwanting, hmore⟩, ⟨hrefused, err, hparse, halike⟩,
    haccepted, htrailing haccepted ")" ⟨')', List.mem_singleton_self _, by decide⟩⟩

end Expr

end Polish
