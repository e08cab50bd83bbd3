import Polish.CommandLine
import Polish.Proofs.Labels
import Polish.Text.Fields

/-!
What a run writes, line by line. A text that is read gets its description, which begins with the prefix
text on a line of its own; a text that is refused gets a report, in which the lines of the message are
indented below a heading. Main statements: `outcome_of_ok` and `outcome_of_error`, the two kinds of
outcome; `fields_failure`, the lines of the report; `intercalate_outdent`, the message is got back from
them.

    Error: …                 prefix:  …
                             postfix: …
    Caused by:               value:   …
        the message          the drawing
-/

namespace Polish.CommandLine

open Text

variable {source : String} {p : Point} {draws : Bool} {e : Expr} {err : ParseError}

/-! ### The description -/

theorem read_of_ok (h : Expr.parse source = .ok e) : Expr.read source = .ok e := by
  rw [Expr.read, h]
  rfl

theorem read_of_error (h : Expr.parse source = .error err) :
    Expr.read source = .error ⟨source, err⟩ := by
  rw [Expr.read, h]
  rfl

/-- An expression that has been read has a value, and its description is what is written. -/
theorem outcome_of_ok (h : Expr.parse source = .ok e) (p : Point) (draws : Bool) :
    ∃ text, e.describe? p = some text ∧
      Job.outcome ⟨source, p, draws⟩ = ⟨0, text ++ "\n" ++ (if draws then e.drawing else ""), ""⟩ := by
  have hsome : (e.describe? p).isSome = true := by
    rw [Expr.describe?, Option.isSome_map]
    exact Expr.isSome_value? (Expr.wellFormed_of_parse h) p
  obtain ⟨text, htext⟩ := Option.isSome_iff_exists.1 hsome
  refine ⟨text, htext, ?_⟩
  simp only [Job.outcome, read_of_ok h, htext]

/-- The prefix text of an expression that has been read is read as this expression. -/
theorem parse_prefixText_of_parse (h : Expr.parse source = .ok e) : Expr.parse e.prefixText = .ok e := by
  apply Expr.parse_of_derives
  rw [Expr.pieces_prefixText_eq_spelling]
  exact (Expr.wellFormed_of_parse h).derives

/-- Two texts of one expression have the same outcome. -/
theorem outcome_congr {source' : String} (h : Expr.parse source = .ok e)
    (h' : Expr.parse source' = .ok e) :
    Job.outcome ⟨source, p, draws⟩ = Job.outcome ⟨source', p, draws⟩ := by
  simp only [Job.outcome, read_of_ok h, read_of_ok h']

/-- The first line of a description is the prefix text behind its label. -/
theorem head?_fields_describe? {text : String} (h : e.describe? p = some text) (rest : String) :
    (fields '\n' (text ++ rest)).head? = some ("prefix:  " ++ e.prefixText) := by
  obtain ⟨v, -, rfl⟩ := Option.map_eq_some_iff.1 h
  have hline : '\n' ∉ ("prefix:  " ++ e.prefixText).toList := by
    simp [e.newline_not_mem_prefixText]
  have htext : "prefix:  " ++ e.prefixText ++ "\npostfix: " ++ e.postfixText ++ "\nvalue:   " ++
      Decimal.text v ++ rest = "prefix:  " ++ e.prefixText ++ String.singleton '\n' ++
        ("postfix: " ++ e.postfixText ++ "\nvalue:   " ++ Decimal.text v ++ rest) := by
    rw [← String.toList_inj]
    simp
  rw [htext, fields_append hline, List.head?_cons]

/-! ### The report -/

theorem outcome_of_error (h : Expr.parse source = .error err) (p : Point) (draws : Bool) :
    Job.outcome ⟨source, p, draws⟩ = ⟨1, "", failure ⟨source, err⟩⟩ := by
  simp only [Job.outcome, read_of_error h]

theorem indent_of_not_mem {text : String} (h : '\n' ∉ text.toList) :
    indent text = "    " ++ text := by
  have hself : ∀ c ∈ text.toList, (if c = '\n' then "\n    " else String.singleton c) =
      String.singleton c := fun c hc => if_neg fun he : c = '\n' => h (he ▸ hc)
  rw [indent, List.map_congr_left hself, ← String.toList_inj]
  simp [List.flatMap_map]

theorem indent_append (front rest : String) :
    indent (front ++ String.singleton '\n' ++ rest) =
      indent front ++ String.singleton '\n' ++ indent rest := by
  rw [← String.toList_inj]
  simp [indent]

/-- The lines of an indented text are the lines of the text, each behind four spaces. -/
theorem fields_indent (text : String) :
    fields '\n' (indent text) = (fields '\n' text).map ("    " ++ ·) := by
  induction text using fields_induction '\n' with
  | field t ht =>
    have hindented : '\n' ∉ ("    " ++ t).toList := by simp [ht]
    rw [indent_of_not_mem ht, fields_of_not_mem hindented, fields_of_not_mem ht, List.map_singleton]
  | append t rest ht ih =>
    have hindented : '\n' ∉ ("    " ++ t).toList := by simp [ht]
    rw [indent_append, fields_append_separator, ih, indent_of_not_mem ht,
      fields_of_not_mem hindented, fields_append ht, List.map_cons, List.singleton_append]

/-- A line without the four spaces it begins with. -/
def outdent (line : String) : String :=
  match line.toList with
  | ' ' :: ' ' :: ' ' :: ' ' :: cs => String.ofList cs
  | _ => line

theorem outdent_append (line : String) : outdent ("    " ++ line) = line := by
  simp [outdent]

theorem newline_not_mem_message (u : Unreadable) : '\n' ∉ ("Error: " ++ u.message).toList := by
  have hquoted := newline_not_mem_quoted u.source
  unfold Unreadable.message
  simp [hquoted]

/-- The lines of a report: the sentence about the whole text, an empty line, a heading, the lines of
the message further in, and nothing behind the last line feed. -/
theorem fields_failure (u : Unreadable) :
    fields '\n' (failure u) = ("Error: " ++ u.message) :: "" :: "Caused by:" ::
      ((fields '\n' u.reason.message).map ("    " ++ ·) ++ [""]) := by
  have hreport : failure u = "Error: " ++ u.message ++ String.singleton '\n' ++
      ("" ++ String.singleton '\n' ++ ("Caused by:" ++ String.singleton '\n' ++
        (indent u.reason.message ++ String.singleton '\n' ++ ""))) := by
    rw [failure, ← String.toList_inj]
    simp
  rw [hreport, fields_append (newline_not_mem_message u), fields_append (by decide),
    fields_append (by decide), fields_append_separator, fields_indent, fields_empty]

/-- Moved back to the left, the lines below the heading are the message and a line feed. -/
theorem intercalate_outdent (message : String) :
    "\n".intercalate (((fields '\n' message).map ("    " ++ ·) ++ [""]).map outdent) =
      message ++ "\n" := by
  have hlines : (((fields '\n' message).map ("    " ++ ·) ++ [""]).map outdent) =
      fields '\n' (message ++ String.singleton '\n' ++ "") := by
    have hid : outdent ∘ ("    " ++ ·) = id := funext outdent_append
    rw [List.map_append, List.map_map, hid, List.map_id, fields_append_separator]
    rfl
  have hjoined : (String.singleton '\n').intercalate
      (fields '\n' (message ++ String.singleton '\n' ++ "")) = _ := intercalate_fields _
  rw [hlines]
  exact hjoined.trans String.append_empty

end Polish.CommandLine
