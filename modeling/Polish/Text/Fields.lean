/-!
Texts cut at a separator. Main statements: `fields_joined`, fields that hold no separator, each ended
by one, are the first fields of the text they make; `intercalate_fields`, joined again the fields are
the text.

    "x 1 +"   fields at ' '   "x"  "1"  "+"
-/

namespace Polish.Text

/-- What stands between the separators of a text, in front of the first and behind the last. -/
def fields (separator : Char) (text : String) : List String :=
  (text.toList.splitOn separator).map String.ofList

variable {separator : Char}

theorem fields_of_not_mem {text : String} (h : separator ∉ text.toList) :
    fields separator text = [text] := by
  rw [fields, List.splitOn_eq_singleton h, List.map_singleton, String.ofList_toList]

theorem fields_empty : fields separator "" = [""] := rfl

/-- A text is cut at each of its separators, whatever stands on either side of it. -/
theorem fields_append_separator (front rest : String) :
    fields separator (front ++ String.singleton separator ++ rest) =
      fields separator front ++ fields separator rest := by
  have htext : (front ++ String.singleton separator ++ rest).toList =
      front.toList ++ separator :: rest.toList := by
    rw [String.toList_append, String.toList_append, String.toList_singleton, List.append_assoc,
      List.singleton_append]
  rw [fields, htext, List.splitOn_append_cons_self, List.map_append, ← fields, ← fields]

theorem fields_append {field : String} (h : separator ∉ field.toList) (rest : String) :
    fields separator (field ++ String.singleton separator ++ rest) =
      field :: fields separator rest := by
  rw [fields_append_separator, fields_of_not_mem h, List.singleton_append]

/-- Nothing is lost: the fields with the separator between them are the text. -/
theorem intercalate_fields (text : String) :
    (String.singleton separator).intercalate (fields separator text) = text := by
  rw [← String.toList_inj, String.toList_intercalate, fields, List.map_map,
    String.toList_singleton]
  have hid : String.toList ∘ String.ofList = id := funext fun cs => String.toList_ofList
  rw [hid, List.map_id, List.intercalate_splitOn]

theorem fields_joined {texts : List String} (h : ∀ t ∈ texts, separator ∉ t.toList)
    (rest : String) :
    fields separator (String.join (texts.map (· ++ String.singleton separator)) ++ rest) =
      texts ++ fields separator rest := by
  induction texts with
  | nil => rw [List.map_nil, String.join_nil, String.empty_append, List.nil_append]
  | cons t texts ih =>
    obtain ⟨ht, htexts⟩ := List.forall_mem_cons.1 h
    rw [List.map_cons, String.join_cons, String.append_assoc, fields_append ht, ih htexts,
      List.cons_append]

/-- A text is a field, or a field in front of a separator and a text. -/
theorem fields_induction (separator : Char) {P : String → Prop}
    (field : ∀ t : String, separator ∉ t.toList → P t)
    (append : ∀ t rest : String, separator ∉ t.toList → P rest →
      P (t ++ String.singleton separator ++ rest)) (text : String) : P text := by
  by_cases hmem : separator ∈ text.toList
  · obtain ⟨front, rest, htext, hfront⟩ := List.eq_append_cons_of_mem hmem
    have hlt : rest.length < text.toList.length := by
      rw [htext, List.length_append, List.length_cons]
      omega
    have hrest := fields_induction separator field append (String.ofList rest)
    have happend := append (String.ofList front) _ (by rwa [String.toList_ofList]) hrest
    have heq : String.ofList front ++ String.singleton separator ++ String.ofList rest = text := by
      rw [← String.toList_inj, htext]
      simp
    rwa [heq] at happend
  · exact field text hmem
  termination_by text.toList.length
  decreasing_by rwa [String.toList_ofList]

end Polish.Text
