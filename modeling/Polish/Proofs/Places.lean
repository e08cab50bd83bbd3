import Mathlib.Logic.Relation
import Polish.Proofs.Passing
import Polish.Proofs.Segmentation
import Polish.Proofs.Transitions

/-!
Where failures are placed. The place of a failure cuts the trimmed text in two, and it is the cause
that tells how the text in front of the cut ends; the cut is where a cursor comes to stand that passes
blanks and reads pieces, and so it never goes through a character. Main statement: `place_of_failure`,
a text of blanks has no place, and any other failure stands behind the text that it is about.

    (+ x é)          (avg5 1 2)       (harm-mean )     (negate x
         ▲ é                  ▲ )              ▲ harm-mean      ▲ end
-/

namespace Polish

open Text

/-! ### Where a cursor comes to stand -/

namespace Cursor

/-- The second cursor is where the first comes to stand when it passes blanks and reads a piece. -/
def Leads (c c' : Cursor) : Prop := ∃ p, c.nextPiece? = some (p, c')

theorem leads_next (s : Scan) : Leads (ofScan s) (ofScan s.next.after) := ⟨_, nextPiece?_ofScan s⟩

theorem exists_scan_of_leads {s : Scan} {c : Cursor}
    (h : Relation.ReflTransGen Leads (ofScan s) c) : ∃ s', c = ofScan s' := by
  induction h with
  | refl => exact ⟨s, rfl⟩
  | tail _ hlast ih =>
    obtain ⟨s', rfl⟩ := ih
    obtain ⟨p, hp⟩ := hlast
    cases (nextPiece?_ofScan s').symm.trans hp
    exact ⟨_, rfl⟩

theorem leads_of_passes {s s' : Scan} {ts : List Token} (h : s.Passes ts s') :
    Relation.ReflTransGen Leads (ofScan s) (ofScan s') := by
  induction h with
  | nil s => exact .refl
  | @cons s after ts goesOn rest ih => exact .head (leads_next s) ih

/-- A cursor that reads comes to stand behind every whole piece. -/
theorem leads_append {cs ds : List Char} (htight : Tight cs) (hapart : Apart cs ds)
    (passed : List Char) : Relation.ReflTransGen Leads (ofScan ⟨passed, cs ++ ds⟩)
      (ofScan ⟨cs.reverse ++ passed, ds⟩) :=
  leads_of_passes (Scan.passes_text htight hapart passed)

end Cursor

/-! ### The ends of texts -/

/-- The last piece of a text, cut off. -/
theorem Text.exists_last_piece {cs : List Char} {ts : List String} {t : String}
    (h : pieces cs = ts ++ [t]) : ∃ front back, cs = front ++ (t.toList ++ back) ∧
      Apart front (t.toList ++ back) ∧ Piece t.toList back ∧ Gap back ∧ pieces front = ts := by
  induction cs using text_induction generalizing ts with
  | blank gap hgap =>
    rw [pieces_of_gap hgap] at h
    exact absurd h.symm (by simp)
  | piece gap p rest hgap hp ih =>
    rw [pieces_gap hgap, pieces_piece hp] at h
    cases ts with
    | nil =>
      obtain ⟨rfl, hrest⟩ := List.cons.inj h
      rw [String.toList_ofList]
      exact ⟨gap, rest, rfl, hgap.apart _, hp, pieces_eq_nil.1 hrest, pieces_of_gap hgap⟩
    | cons u ts =>
      obtain ⟨rfl, hrest⟩ := List.cons.inj h
      obtain ⟨front, back, rfl, hapart, hpiece, hback, hfront⟩ := ih hrest
      refine ⟨gap ++ (p ++ front), back, by simp only [List.append_assoc], ?_, hpiece, hback, ?_⟩
      · rw [← List.append_assoc]
        exact ((hgap.apart _).append hp.apart).append hapart
      · rw [pieces_gap hgap, pieces_piece hp.left, hfront]

/-- The blanks in front of a text are not part of what is trimmed. -/
theorem Text.eq_nil_of_trim_eq {cs gap rest : List Char} (h : trim cs = gap ++ rest) (hgap : Gap gap) :
    gap = [] := by
  cases gap with
  | nil => rfl
  | cons b gap =>
    have hcut := List.rdropWhile_append_rtakeWhile (p := isBlank) (l := cs.dropWhile isBlank)
    rw [← trim_eq, h] at hcut
    have hhead := List.head?_dropWhile_not isBlank cs
    rw [← hcut, List.cons_append, List.cons_append, List.head?_cons] at hhead
    have hb := hgap b List.mem_cons_self
    rw [hhead] at hb
    cases hb

/-! ### What a failure points at -/

namespace Expr

open Machine

/-- `PointsAt read unread cause`: how a text that is cut at the place of a failure goes on in both
directions. A token that is at fault stands in front of the cut, and so does the operator that has no
arguments. -/
def PointsAt (read unread : List Char) : ParseError.Cause → Prop
  | .unknownSymbol t | .invalidInteger t | .unknownOperation t | .trailingInput t =>
    ∃ before, read = before ++ t.toList ∧ Standing before t.toList unread
  | .incorrectOperatorCall =>
    ∃ before p, read = before ++ p ∧ p ≠ [')'] ∧ Standing before p unread
  | .unexpectedClosingParenthesis => read = [')']
  | .noArguments t =>
    ∃ (o : Operator) (before gap gap' rest : List Char), t = o.symbol ∧
      read = before ++ '(' :: (gap ++ t.toList) ∧ Gap gap ∧
      Standing (before ++ '(' :: gap) t.toList unread ∧ unread = gap' ++ ')' :: rest ∧ Gap gap'
  | .unexpectedEndOfInput => unread = []
  | .missingArgument _ => (∃ before, read = before ++ [')']) ∨ unread = []
  | .emptyExpression => False

/-- Only a text without tokens is empty. -/
theorem start_of_finish {state : State} (h : finish state = .error .emptyExpression) :
    state = .start := by
  rcases state with - | outer | ⟨p, outer⟩ | e
  · rfl
  · cases h
  · rcases harity : p.operator.arity with count | -
    · rcases hlacking : p.lacking with - | - <;> simp [finish, harity, hlacking] at h
    · simp [finish, harity] at h
  · cases h

/-- In the first state nothing but blanks is behind. -/
theorem gap_of_run_start {cs : List Char} (h : run .start (tokensOf cs) = .ok .start) : Gap cs := by
  refine pieces_eq_nil.1 ?_
  generalize hrow : pieces cs = ts
  have hreached := reached_of_run h
  rw [hrow] at hreached
  cases hreached
  rfl

theorem pointsAt_end {read : List Char} {state : State} {cause : ParseError.Cause}
    (h : finish state = .error cause) (hstate : state ≠ .start) : PointsAt read [] cause := by
  rcases cause_of_finish h with rfl | rfl | ⟨o, rfl⟩
  · exact hstate (start_of_finish h)
  · rfl
  · exact .inr rfl

/-- An operation without operands was just begun: its operator is the last token, and the one before is
the opening parenthesis. -/
theorem exists_pieces_of_begun {front : List Char} {o : Operator} {outer : List Pending}
    (h : run .start (tokensOf front) = .ok (.within ⟨o, []⟩ outer)) :
    ∃ ts, pieces front = ts ++ ["("] ++ [o.symbol] := by
  cases reached_of_run h with
  | within around =>
    generalize hts : pieces front = us at around
    cases around with
    | @cons p outer ts us around room fits operands =>
      cases operands with
      | nil => exact ⟨ts, by simp⟩

theorem pointsAt_noArguments {front p back : List Char} {o : Operator} {outer : List Pending}
    (hp : Piece p back) (seam : Apart front (p ++ back)) (hclose : p = [')'])
    (taken : run .start (tokensOf front) = .ok (.within ⟨o, []⟩ outer)) :
    ∃ unread, front ++ (p ++ back) = front.rdropWhile isBlank ++ unread ∧
      Apart (front.rdropWhile isBlank) unread ∧
      PointsAt (front.rdropWhile isBlank) unread (.noArguments o.symbol) := by
  obtain ⟨ts, hpieces⟩ := exists_pieces_of_begun taken
  obtain ⟨behind, gap', rfl, hbehind, ho, hgap', hrow⟩ := exists_last_piece hpieces
  obtain ⟨before, gap, rfl, -, -, hgap, -⟩ := exists_last_piece hrow
  have hread : (before ++ ("(".toList ++ gap) ++ (o.symbol.toList ++ gap')).rdropWhile isBlank =
      before ++ ("(".toList ++ gap) ++ o.symbol.toList := by
    rw [← List.append_assoc, rdropWhile_append_gap _ hgap', (ho.tight _).rdropWhile]
  have hsymbol : Piece o.symbol.toList (gap' ++ (p ++ back)) := ho.append seam
  have hseam := hbehind.extend (List.append_ne_nil_of_left_ne_nil ho.ne_nil gap') (p ++ back)
  rw [List.append_assoc] at hseam
  have hstanding := hsymbol.standing_of_apart hseam
  rw [hread]
  refine ⟨gap' ++ (p ++ back), by simp only [List.append_assoc], hseam.append hsymbol.apart, ?_⟩
  subst hclose
  exact ⟨o, before, gap, gap', back, rfl, by rw [List.append_assoc]; rfl, hgap, hstanding, rfl, hgap'⟩

/-- A piece that is refused, and not for want of operands, stands in front of the cut. -/
theorem pointsAt_of_refuses {front p back : List Char} {state : State} {cause : ParseError.Cause}
    (hp : Standing front p back) (hstart : state = .start → front = [])
    (hcause : ∀ o, cause ≠ .noArguments o)
    (h : Refuses state (.classify (String.ofList p)) cause) : PointsAt (front ++ p) back cause := by
  have htext := hp.piece.toList_text_classify
  generalize htoken : Token.classify (String.ofList p) = t at h htext
  cases h with
  | stray =>
    rw [hstart rfl, ← htext]
    rfl
  | ended room => exact absurd htoken hp.piece.classify_ne_endOfInput
  | symbol room text => exact ⟨front, by rw [← htext]; rfl, by rwa [← htext] at hp⟩
  | integer room none => exact ⟨front, by rw [← htext]; rfl, by rwa [← htext] at hp⟩
  | operation none => exact ⟨front, by rw [htext], by rwa [htext]⟩
  | trailing e t => exact ⟨front, by rw [htext], by rwa [htext]⟩
  | @lacking q outer lacks =>
    cases harity : q.operator.arity with
    | fixed count =>
      rw [Pending.complaint, harity, ← htext]
      exact .inl ⟨front, rfl⟩
    | variadic => exact absurd (by rw [Pending.complaint, harity]) (hcause q.operator.symbol)
  | full outer sated goesOn =>
    refine ⟨front, p, rfl, ?_, hp⟩
    rintro rfl
    exact goesOn htoken.symm

/-- The cut at a refused piece. -/
theorem exists_cut_of_stop {cs front p back : List Char} {state : State} {cause : ParseError.Cause}
    (h : Stop (trim cs) front p back state cause) :
    ∃ unread, trim cs = blamed front p cause ++ unread ∧ Apart (blamed front p cause) unread ∧
      PointsAt (blamed front p cause) unread cause := by
  have hrefuses := step_eq_error.1 h.refused
  have hstanding := h.piece.standing_of_apart h.seam
  -- in front of the first token there are no blanks to pass
  have hstart : state = .start → front = [] := by
    rintro rfl
    exact eq_nil_of_trim_eq h.text (gap_of_run_start h.taken)
  cases cause with
  | noArguments name =>
    obtain ⟨hclose, o, outer, rfl, rfl⟩ := exists_within_of_noArguments hrefuses
    have hp := h.piece.toList_text_classify
    rw [hclose] at hp
    rw [h.text]
    exact pointsAt_noArguments h.piece h.seam hp.symm h.taken
  | _ =>
    refine ⟨back, ?_, h.seam.append h.piece.apart, ?_⟩
    · rw [h.text, ← List.append_assoc]
      rfl
    · exact pointsAt_of_refuses hstanding hstart (by simp) hrefuses

theorem PointsAt.ne_nil {read unread : List Char} {cause : ParseError.Cause}
    (h : PointsAt read unread cause) (hne : read ++ unread ≠ []) : read ≠ [] := by
  cases cause with
  | emptyExpression => exact h.elim
  | unknownSymbol t | invalidInteger t | unknownOperation t | trailingInput t =>
    obtain ⟨before, rfl, hstanding⟩ := h
    exact List.append_ne_nil_of_right_ne_nil _ hstanding.piece.ne_nil
  | incorrectOperatorCall =>
    obtain ⟨before, p, rfl, -, hstanding⟩ := h
    exact List.append_ne_nil_of_right_ne_nil _ hstanding.piece.ne_nil
  | unexpectedClosingParenthesis =>
    rw [show read = [')'] from h]
    exact List.cons_ne_nil _ _
  | noArguments t =>
    obtain ⟨o, before, gap, gap', rest, -, rfl, -⟩ := h
    exact List.append_ne_nil_of_right_ne_nil _ (List.cons_ne_nil _ _)
  | unexpectedEndOfInput =>
    rw [show unread = [] from h, List.append_nil] at hne
    exact hne
  | missingArgument o =>
    rcases h with ⟨before, rfl⟩ | rfl
    · exact List.append_ne_nil_of_right_ne_nil _ (List.cons_ne_nil _ _)
    · rwa [List.append_nil] at hne

/-- A failure in a text that is not all blanks cuts the trimmed text in two. -/
theorem exists_cut {source : String} {err : ParseError} (h : parse source = .error err)
    (hgap : ¬Gap source.toList) : ∃ read unread, trim source.toList = read ++ unread ∧
      err.position = some read.length ∧ Tight read ∧ Apart read unread ∧
      PointsAt read unread err.cause := by
  rcases exists_stop h hgap with
    ⟨state, taken, wanting, hposition⟩ | ⟨front, p, back, state, hstop, hposition⟩
  · refine ⟨trim source.toList, [], (List.append_nil _).symm, hposition, ?_, .inl ending_nil, ?_⟩
    · rw [trim_eq]
      exact tight_rdropWhile _
    · refine pointsAt_end wanting ?_
      rintro rfl
      exact hgap (gap_of_run_start taken)
  · obtain ⟨unread, htext, hapart, hpoints⟩ := exists_cut_of_stop hstop
    exact ⟨_, unread, htext, hposition, tight_blamed hstop.piece err.cause, hapart, hpoints⟩

/-- The place of a failure. Only a text of blanks has none. Any other place is a number of characters,
at least one and no more than the trimmed text has; it is counted in front of a cursor that passes
blanks and reads pieces from the start of the trimmed text, and no such cursor ever stands inside a
character; and the text cut there ends and goes on as the cause says. -/
theorem place_of_failure {source : String} {err : ParseError} (h : parse source = .error err) :
    (err.position = none ↔ Gap source.toList) ∧
      (∀ c, Relation.ReflTransGen Cursor.Leads (.start (trim source.toList)) c → c.column?.isSome) ∧
      ∀ p, err.position = some p → 1 ≤ p ∧ p ≤ (trim source.toList).length ∧
        (∃ c, Relation.ReflTransGen Cursor.Leads (.start (trim source.toList)) c ∧
          c.column? = some p) ∧
        PointsAt ((trim source.toList).take p) ((trim source.toList).drop p) err.cause := by
  have hstart : Cursor.start (trim source.toList) = .ofScan (.start (trim source.toList)) := rfl
  refine ⟨?_, fun c hc => ?_, fun p hp => ?_⟩
  · constructor
    · intro hnone
      by_contra hgap
      obtain ⟨read, unread, -, hposition, -⟩ := exists_cut h hgap
      rw [hnone] at hposition
      cases hposition
    · intro hgap
      cases h.symm.trans (parse_of_gap hgap)
      rfl
  · rw [hstart] at hc
    obtain ⟨s, rfl⟩ := Cursor.exists_scan_of_leads hc
    rw [Cursor.column?_ofScan]
    rfl
  · have hgap : ¬Gap source.toList := by
      intro hgap
      cases h.symm.trans (parse_of_gap hgap)
      cases hp
    obtain ⟨read, unread, htext, hposition, htight, hapart, hpoints⟩ := exists_cut h hgap
    cases hp.symm.trans hposition
    have hne : read ++ unread ≠ [] := by
      rw [← htext, Ne, trim_eq_nil]
      exact hgap
    have hleads := Cursor.leads_append htight hapart []
    rw [List.append_nil] at hleads
    rw [htext, List.take_left, List.drop_left, List.length_append]
    refine ⟨List.length_pos_iff.2 (hpoints.ne_nil hne), Nat.le_add_right _ _, ⟨_, hleads, ?_⟩, hpoints⟩
    rw [Cursor.column?_ofScan, Scan.column, List.length_reverse]

/-- A letter of two bytes that is no symbol: it is the fourth character of the trimmed text. -/
theorem place_of_failure_of_letter :
    parse " (+ é x)" = .error ⟨.unknownSymbol "é", some 4, "(+ é x)".toList⟩ ∧
      (∃ c, Relation.ReflTransGen Cursor.Leads (.start "(+ é x)".toList) c ∧ c.column? = some 4) ∧
      PointsAt "(+ é".toList " x)".toList (.unknownSymbol "é") := by
  have h : parse " (+ é x)" = .error ⟨.unknownSymbol "é", some 4, "(+ é x)".toList⟩ := by
    decide +kernel
  have htrim : trim " (+ é x)".toList = "(+ é x)".toList := by decide
  obtain ⟨-, -, hplace⟩ := place_of_failure h
  obtain ⟨-, -, hcursor, hpoints⟩ := hplace 4 rfl
  rw [htrim] at hcursor hpoints
  exact ⟨h, hcursor, hpoints⟩

end Expr

end Polish
