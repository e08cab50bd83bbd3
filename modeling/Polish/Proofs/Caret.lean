import Polish.Proofs.Places

/-!
The caret of a report. A report is printed line by line, and only a line feed ends a line; but the
spaces in front of the caret are counted over the whole text that was read. Main statement:
`underlined_iff_one_line`, the caret stands directly below the last character in front of the place of
the failure if the text is a single line, and otherwise it does not.

    (+ é x)        (+ x
       ^           q)
                        ^
-/

namespace Polish

open Text

/-! ### Lines and columns -/

/-- Where a character is printed: its line, and how many characters stand in front of it on the line. -/
structure Spot where
  line : Nat
  column : Nat
  deriving DecidableEq

namespace Spot

/-- The spot of what is printed next behind a text. -/
def behind (cs : List Char) : Spot := ⟨cs.count '\n', (cs.rtakeWhile (· != '\n')).length⟩

/-- The spot on the next line and in the same column. -/
def below (s : Spot) : Spot := ⟨s.line + 1, s.column⟩

theorem below_mk (line column : Nat) : below ⟨line, column⟩ = ⟨line + 1, column⟩ := rfl

/-- What stands in front of the last line feed does not count for the column. -/
theorem rtakeWhile_append_newline (cs ds : List Char) :
    (cs ++ '\n' :: ds).rtakeWhile (· != '\n') = ds.rtakeWhile (· != '\n') := by
  induction ds using List.reverseRecOn with
  | nil => exact List.rtakeWhile_concat_neg _ cs '\n' (by decide)
  | append_singleton ds d ih =>
    rw [← List.cons_append, ← List.append_assoc, List.rtakeWhile_concat, List.rtakeWhile_concat, ih]

theorem behind_append_newline (cs ds : List Char) : behind (cs ++ '\n' :: ds) =
    ⟨cs.count '\n' + 1 + ds.count '\n', (ds.rtakeWhile (· != '\n')).length⟩ := by
  rw [behind, rtakeWhile_append_newline, List.count_append, List.count_cons_self, Nat.add_assoc,
    Nat.add_comm 1]

theorem length_rtakeWhile_eq {ds : List Char} :
    (ds.rtakeWhile (· != '\n')).length = ds.length ↔ '\n' ∉ ds := by
  have hwhole : ds.rtakeWhile (· != '\n') = ds ↔ '\n' ∉ ds := by
    rw [List.rtakeWhile_eq_self_iff]
    constructor
    · intro h hmem
      exact absurd (h _ hmem) (by decide)
    · rintro h c hc
      rw [bne_iff_ne]
      rintro rfl
      exact h hc
  rw [← hwhole]
  exact ⟨(List.rtakeWhile_suffix _ ds).eq_of_length, congrArg List.length⟩

end Spot

/-! ### The report -/

namespace ParseError

/-- What the report holds in front of the text that was read. -/
def heading (e : ParseError) : List Char := (e.cause.message ++ "\n").toList

/-- The report ends with a caret, and this stands directly below the last of the first `p` characters
of the text that was read. -/
def Underlined (e : ParseError) (p : Nat) : Prop :=
  ∃ c tail, e.source[p - 1]? = some c ∧
    e.message.toList = e.heading ++ e.source.take (p - 1) ++ c :: tail ++ ['^'] ∧
    Spot.behind (e.heading ++ e.source.take (p - 1) ++ c :: tail) =
      (Spot.behind (e.heading ++ e.source.take (p - 1))).below

variable {e : ParseError} {front back : List Char} {c : Char}

theorem toList_message (hsource : e.source = front ++ c :: back)
    (hposition : e.position = some (front.length + 1)) : e.message.toList =
      e.heading ++ front ++ c :: (back ++ '\n' :: List.replicate front.length ' ') ++ ['^'] := by
  rw [message, String.toList_append, ← heading, excerpt, String.toList_ofList, hsource, hposition]
  simp only [Option.getD_some, Nat.add_sub_cancel, List.append_assoc, List.cons_append]

theorem behind_heading_append (e : ParseError) (cs : List Char) :
    Spot.behind (e.heading ++ cs) = ⟨e.cause.message.toList.count '\n' + 1 + cs.count '\n',
      (cs.rtakeWhile (· != '\n')).length⟩ := by
  have hheading : e.heading = e.cause.message.toList ++ ['\n'] := String.toList_append
  rw [hheading, List.append_assoc, List.singleton_append, Spot.behind_append_newline]

/-- The caret is a line below the last line of the text, and as many columns from the left as characters
were counted. -/
theorem behind_spaces (e : ParseError) (cs : List Char) (count : Nat) :
    Spot.behind (e.heading ++ cs ++ '\n' :: List.replicate count ' ') =
      ⟨e.cause.message.toList.count '\n' + 1 + cs.count '\n' + 1, count⟩ := by
  have hspaces : '\n' ∉ List.replicate count ' ' := by simp
  have hlines : (e.heading ++ cs).count '\n' =
      e.cause.message.toList.count '\n' + 1 + cs.count '\n' :=
    congrArg Spot.line (e.behind_heading_append cs)
  rw [Spot.behind_append_newline, hlines, List.count_eq_zero.2 hspaces,
    Spot.length_rtakeWhile_eq.2 hspaces, List.length_replicate, Nat.add_zero]

/-- A character is underlined if there is no line feed in front of it, where the column would begin
anew, and none behind it, where lines would come in between. -/
theorem underlined_iff (hsource : e.source = front ++ c :: back) (hc : c ≠ '\n')
    (hposition : e.position = some (front.length + 1)) :
    e.Underlined (front.length + 1) ↔ '\n' ∉ e.source := by
  have hmessage := toList_message hsource hposition
  have hchar : e.source[front.length]? = some c := by rw [hsource]; simp
  have htake : e.source.take front.length = front := by rw [hsource, List.take_left]
  have hcaret : Spot.behind (e.heading ++ front ++ c ::
      (back ++ '\n' :: List.replicate front.length ' ')) =
        ⟨e.cause.message.toList.count '\n' + 1 + (front ++ c :: back).count '\n' + 1,
          front.length⟩ := by
    rw [← e.behind_spaces]
    simp only [List.append_assoc, List.cons_append]
  have hcount : (front ++ c :: back).count '\n' = front.count '\n' + back.count '\n' := by
    rw [List.count_append, List.count_cons_of_ne hc]
  have hline : '\n' ∉ e.source ↔ '\n' ∉ front ∧ back.count '\n' = 0 := by
    rw [hsource, List.mem_append, List.mem_cons, List.count_eq_zero]
    simp [hc.symm]
  rw [hline, Underlined, Nat.add_sub_cancel, hchar, htake, hmessage, behind_heading_append]
  constructor
  · rintro ⟨d, tail, hd, htail, hspot⟩
    cases hd
    rw [← List.append_cancel_right htail, hcaret, hcount, Spot.below_mk, Spot.mk.injEq] at hspot
    refine ⟨Spot.length_rtakeWhile_eq.1 hspot.2.symm, ?_⟩
    have hlines := hspot.1
    omega
  · rintro ⟨hfront, hback⟩
    refine ⟨c, _, rfl, rfl, ?_⟩
    rw [hcaret, hcount, hback, Spot.length_rtakeWhile_eq.2 hfront]
    rfl

end ParseError

namespace Expr

/-- A failure that has a place is about the trimmed text. -/
theorem source_of_parse {source : String} {err : ParseError} {p : Nat}
    (h : parse source = .error err) (hp : err.position = some p) : err.source = trim source.toList := by
  by_cases hgap : Gap source.toList
  · cases h.symm.trans (parse_of_gap hgap)
    cases hp
  · rw [parse_of_not_gap hgap] at h
    rcases hread : (Machine.readScan .start (.start (trim source.toList))).outcome with fault | e
    · rw [hread] at h
      cases h
      rfl
    · rw [hread] at h
      cases h

/-- The place of a failure is behind a character that is no blank. -/
theorem exists_char_of_position {source : String} {err : ParseError} {p : Nat}
    (h : parse source = .error err) (hp : err.position = some p) :
    ∃ front c back, err.source = front ++ c :: back ∧ p = front.length + 1 ∧ isBlank c = false := by
  have hgap : ¬Gap source.toList := by
    intro hgap
    cases h.symm.trans (parse_of_gap hgap)
    cases hp
  obtain ⟨read, unread, htext, hposition, htight, -, hpoints⟩ := exists_cut h hgap
  have hne : read ++ unread ≠ [] := by
    rw [← htext, Ne, trim_eq_nil]
    exact hgap
  obtain ⟨front, c, rfl⟩ := (List.eq_nil_or_concat read).resolve_left (hpoints.ne_nil hne)
  rw [List.concat_eq_append] at htext hposition htight
  cases hp.symm.trans hposition
  refine ⟨front, c, unread, ?_, List.length_append, htight c List.getLast?_concat⟩
  rw [source_of_parse h hp, htext, List.append_assoc]
  rfl

/-- The caret of a report stands directly below the last character in front of the place of the failure
exactly if the trimmed text is a single line. -/
theorem underlined_iff_one_line {source : String} {err : ParseError} {p : Nat}
    (h : parse source = .error err) (hp : err.position = some p) :
    err.Underlined p ↔ '\n' ∉ trim source.toList := by
  obtain ⟨front, c, back, hsource, rfl, hc⟩ := exists_char_of_position h hp
  rw [← source_of_parse h hp]
  refine ParseError.underlined_iff hsource ?_ hp
  rintro rfl
  cases hc

/-- A letter of two bytes counts as one character, and a carriage return does not end the line. -/
theorem underlined_iff_one_line_of_letter :
    parse "(+ 1\ré x)" = .error ⟨.unknownSymbol "é", some 6, "(+ 1\ré x)".toList⟩ ∧
      ParseError.Underlined ⟨.unknownSymbol "é", some 6, "(+ 1\ré x)".toList⟩ 6 := by
  have h : parse "(+ 1\ré x)" = .error ⟨.unknownSymbol "é", some 6, "(+ 1\ré x)".toList⟩ := by
    decide +kernel
  exact ⟨h, (underlined_iff_one_line h rfl).2 (by decide +kernel)⟩

/-- On the second line the caret stands too far to the right, since the first line is counted as well. -/
theorem not_underlined_on_second_line : ∃ err, parse "(+ x\nq)" = .error err ∧
    err.position = some 6 ∧
    err.message = "Incorrect expression - unknown symbol: q\n(+ x\nq)\n     ^" ∧
    ¬err.Underlined 6 := by
  refine ⟨⟨.unknownSymbol "q", some 6, "(+ x\nq)".toList⟩, by decide +kernel, rfl,
    by decide +kernel, ?_⟩
  intro hcaret
  have hsource : ParseError.source ⟨.unknownSymbol "q", some 6, "(+ x\nq)".toList⟩ =
      "(+ x\n".toList ++ 'q' :: [')'] := by decide
  have hline := (ParseError.underlined_iff hsource (by decide) rfl).1 hcaret
  exact absurd hline (by decide)

end Expr

end Polish
