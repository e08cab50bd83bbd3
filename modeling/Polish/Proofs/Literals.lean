import Polish.Proofs.Assembly
import Polish.Proofs.NormalForm
import Polish.Proofs.Places

/-!
Integers as whole texts. A text shaped like an integer denotes at most one, and it is read as that
integer if 64 bits hold it and refused at its end if they do not. Main statement: `literals_exact`,
these texts are all that is read as an integer, but for blanks around them, and of the texts of one
integer a single one is ever written.

    shaped text ── digits, in range ──▶ its integer ── written ──▶ the shortest numeral
         └──── a sign alone, out of range ──▶ refused, behind the last character
-/

namespace Polish

open Text

namespace Numeral

/-- A `-` or a digit, and then digits only. -/
def Shaped (cs : List Char) : Prop :=
  ∃ c ds, cs = c :: ds ∧ (c = '-' ∨ c.isDigit = true) ∧ ∀ d ∈ ds, d.isDigit = true

variable {cs : List Char} {w : Int}

theorem integerShaped_eq_true : integerShaped cs = true ↔ Shaped cs := by
  cases cs with
  | nil => exact ⟨nofun, fun ⟨_, _, h, _⟩ => nomatch h⟩
  | cons c ds =>
    rw [integerShaped, Bool.and_eq_true, Bool.or_eq_true, beq_iff_eq, List.all_eq_true]
    constructor
    · rintro ⟨hc, hds⟩
      exact ⟨c, ds, rfl, hc, hds⟩
    · rintro ⟨_, _, h, hc, hds⟩
      cases h
      exact ⟨hc, hds⟩

/-- A text denotes one integer at most. -/
theorem Denotes.unique {v : Int} (hv : Denotes cs v) (hw : Denotes cs w) : v = w :=
  Option.some.inj ((readInt?_eq_some.2 hv).symm.trans (readInt?_eq_some.2 hw))

theorem Denotes.shaped (h : Denotes cs w) : Shaped cs := integerShaped_eq_true.1 h.integerShaped

/-- A shaped text denotes an integer if there is a digit in it, which only a sign alone has not. -/
theorem Shaped.exists_denotes (h : Shaped cs) :
    (∃ w, Denotes cs w) ↔ ∃ d ∈ cs, d.isDigit = true := by
  obtain ⟨c, ds, rfl, hc, hds⟩ := h
  constructor
  · rintro ⟨w, hw⟩
    exact List.any_eq_true.1 hw.any_isDigit
  · rintro ⟨d, hmem, hd⟩
    rcases hc with rfl | hc
    · -- the digit is not the sign, so it stands behind it
      rcases List.mem_cons.1 hmem with rfl | hmem
      · exact absurd hd (by decide)
      · exact ⟨_, .negative (List.ne_nil_of_mem hmem) hds⟩
    · exact ⟨_, .nonnegative (List.cons_ne_nil c ds) (List.forall_mem_cons.2 ⟨hc, hds⟩)⟩

theorem Shaped.word (h : Shaped cs) : Word cs := by
  obtain ⟨c, ds, rfl, hc, hds⟩ := h
  refine ⟨List.cons_ne_nil c ds, List.forall_mem_cons.2 ⟨?_, fun d hd => ?_⟩⟩
  · rcases hc with rfl | hc
    · decide
    · exact isDelimiter_of_isDigit hc
  · exact isDelimiter_of_isDigit (hds d hd)

theorem exists_int64 (hlo : -0x8000000000000000 ≤ w) (hhi : w < 0x8000000000000000) :
    ∃ v : Int64, v.toInt = w :=
  ⟨Int64.ofInt w, Int64.toInt_ofInt_of_le hlo hhi⟩

theorem int64_bounds (v : Int64) :
    -0x8000000000000000 ≤ v.toInt ∧ v.toInt < 0x8000000000000000 :=
  ⟨v.minValue_le_toInt, Int.lt_of_le_of_lt v.toInt_le (by decide)⟩

end Numeral

/-- A word is its own only piece, and there is nothing to trim. -/
theorem Text.Word.trim {cs : List Char} (h : Word cs) : trim cs = cs := by
  have hp : Piece cs [] := h.piece ending_nil
  refine trim_eq_self (fun c hc => ?_) (hp.tight [])
  exact hp.not_isBlank c (List.mem_of_mem_head? hc)

namespace Expr

open Machine Numeral

/-! ### Reading -/

/-- A shaped text is read as the integer of its numeral, or refused as a whole. -/
theorem parse_of_shaped {text : String} (h : Shaped text.toList) :
    parse text = match Numeral.read? text.toList with
      | some v => .ok (.integer v)
      | none => .error ⟨.invalidInteger text, some text.length, text.toList⟩ := by
  have htoken : Token.classify text = .integer text :=
    Token.classify_of_integerShaped (integerShaped_eq_true.2 h)
  have hpieces : pieces text.toList = [text] := by
    have hword := pieces_word h.word ending_nil
    rwa [List.append_nil, pieces_nil] at hword
  rcases hv : Numeral.read? text.toList with - | v
  · have hstop : Stop (trim text.toList) [] text.toList [] .start (.invalidInteger text) := by
      refine ⟨by rw [h.word.trim, List.nil_append, List.append_nil], gap_nil.apart _,
        h.word.piece ending_nil, ?_, ?_⟩
      · rw [tokensOf_of_gap gap_nil]
        rfl
      · rw [String.ofList_toList, htoken, step, takeOperand, hv]
    rw [parse_of_stop hstop, h.word.trim, blamed_of_ne (by simp), List.nil_append,
      String.length_toList]
  · exact parse_of_derives (hpieces ▸ .integer (read?_eq_some.1 hv))

theorem denotes_prefixText_integer (v : Int64) :
    Denotes (integer v).prefixText.toList v.toInt := by
  rw [prefixText, Numeral.text, String.toList_ofList]
  exact denotes_ofInt64 v

/-- What is read as an integer is a numeral of it, with blanks around. -/
theorem exists_numeral_of_parse {source : String} {v : Int64} (h : parse source = .ok (.integer v)) :
    ∃ front text back, source.toList = front ++ (text ++ back) ∧ Gap front ∧ Gap back ∧
      Denotes text v.toInt := by
  generalize hrow : pieces source.toList = ts
  have hderives := derives_of_parse h
  rw [hrow] at hderives
  cases hderives with
  | @integer text _ value =>
    rw [← List.nil_append [text]] at hrow
    obtain ⟨front, back, hsource, -, -, hback, hfront⟩ := exists_last_piece hrow
    exact ⟨front, text.toList, back, hsource, pieces_eq_nil.1 hfront, hback, value⟩

/-! ### Writing -/

/-- A parenthesis, an operator or a variable denotes no integer. -/
theorem not_denotes_of_read {t : String} (h : readInt? t.toList = none) (w : Int) :
    ¬Denotes t.toList w := by
  intro hw
  rw [readInt?_eq_some.2 hw] at h
  cases h

mutual

/-- Of the numerals of an integer only the shortest is ever written. -/
theorem eq_text_of_mem_spelling {t : String} {v : Int64} (hv : Denotes t.toList v.toInt) :
    (e : Expr) → t ∈ spelling e → t = Numeral.text v
  | integer u, h => by
    obtain rfl := List.mem_singleton.1 h
    rw [Numeral.text, String.toList_ofList] at hv
    rw [Int64.toInt_inj.1 ((denotes_ofInt64 u).unique hv)]
  | .var u, h => by
    obtain rfl := List.mem_singleton.1 h
    exact absurd hv (not_denotes_of_read (by cases u <;> decide) _)
  | operation o es, h => by
    rw [spelling, List.mem_append, List.mem_cons, List.mem_cons, List.mem_singleton] at h
    rcases h with (rfl | rfl | h) | rfl
    · exact absurd hv (not_denotes_of_read (by decide) _)
    · exact absurd hv (not_denotes_of_read (by cases o <;> decide) _)
    · exact eq_text_of_mem_spellingAll hv es h
    · exact absurd hv (not_denotes_of_read (by decide) _)

theorem eq_text_of_mem_spellingAll {t : String} {v : Int64} (hv : Denotes t.toList v.toInt) :
    (es : List Expr) → t ∈ spellingAll es → t = Numeral.text v
  | [], h => nomatch h
  | e :: es, h => by
    rcases List.mem_append.1 h with h | h
    · exact eq_text_of_mem_spelling hv e h
    · exact eq_text_of_mem_spellingAll hv es h

end

/-- Integer literals are exact. A text of the shape of an integer that has a digit denotes one; it is
read as that integer if this is a signed 64-bit one, and otherwise, as a sign alone is, refused behind
its last character. What is written for an integer is such a text, is read back, and is the only text
of that integer among the pieces of any expression's prefix text. And nothing is read as an integer
but a text that denotes it, with blanks around it. -/
theorem literals_exact :
    (∀ text : String, Shaped text.toList →
      ((∃ w, Denotes text.toList w) ↔ ∃ d ∈ text.toList, d.isDigit = true) ∧
      (∀ w, Denotes text.toList w → -0x8000000000000000 ≤ w → w < 0x8000000000000000 →
        ∃ v : Int64, v.toInt = w ∧ parse text = .ok (.integer v)) ∧
      ((∀ w, Denotes text.toList w → w < -0x8000000000000000 ∨ 0x8000000000000000 ≤ w) →
        parse text = .error ⟨.invalidInteger text, some text.length, text.toList⟩)) ∧
    (∀ v : Int64, Token.classify (integer v).prefixText = .integer (integer v).prefixText ∧
      parse (integer v).prefixText = .ok (.integer v) ∧
      ∀ (e : Expr), ∀ t ∈ pieces e.prefixText.toList, Denotes t.toList v.toInt →
        t = (integer v).prefixText) ∧
    ∀ (source : String) (v : Int64), parse source = .ok (.integer v) →
      ∃ front text back, source.toList = front ++ (text ++ back) ∧ Gap front ∧ Gap back ∧
        Shaped text ∧ Denotes text v.toInt := by
  refine ⟨fun text h => ⟨h.exists_denotes, fun w hw hlo hhi => ?_, fun hout => ?_⟩,
    fun v => ⟨Token.classify_of_denotes (denotes_prefixText_integer v), ?_, fun e t ht hv => ?_⟩,
    fun source v h => ?_⟩
  · obtain ⟨v, rfl⟩ := exists_int64 hlo hhi
    refine ⟨v, rfl, ?_⟩
    rw [parse_of_shaped h, read?_eq_some.2 hw]
  · have hread : Numeral.read? text.toList = none := by
      rw [Option.eq_none_iff_forall_ne_some]
      intro v hv
      have hbounds := int64_bounds v
      have hv' := hout _ (read?_eq_some.1 hv)
      omega
    rw [parse_of_shaped h, hread]
  · have hdenotes := denotes_prefixText_integer v
    rw [parse_of_shaped hdenotes.shaped, read?_eq_some.2 hdenotes]
  · rw [pieces_prefixText_eq_spelling] at ht
    exact eq_text_of_mem_spelling hv e ht
  · obtain ⟨front, text, back, hsource, hfront, hback, hv⟩ := exists_numeral_of_parse h
    exact ⟨front, text, back, hsource, hfront, hback, hv.shaped, hv⟩

/-- The lowest integer behind zeros, the next one below it, and the lowest with blanks around it. -/
theorem literals_exact_at_lowest :
    parse "-009223372036854775808" = .ok (.integer Int64.minValue) ∧
      parse "-9223372036854775809" = .error ⟨.invalidInteger "-9223372036854775809", some 20,
        "-9223372036854775809".toList⟩ ∧
      ∃ front text back, " -9223372036854775808\n".toList = front ++ (text ++ back) ∧ Gap front ∧
        Gap back ∧ Shaped text ∧ Denotes text Int64.minValue.toInt := by
  have hzeros : Denotes "-009223372036854775808".toList (-0x8000000000000000) :=
    readInt?_eq_some.1 (by decide +kernel)
  have hbelow : Denotes "-9223372036854775809".toList (-0x8000000000000001) :=
    readInt?_eq_some.1 (by decide +kernel)
  have hblanks : parse " -9223372036854775808\n" = .ok (.integer Int64.minValue) := by
    decide +kernel
  obtain ⟨hshaped, -, hsource⟩ := literals_exact
  obtain ⟨-, hread, -⟩ := hshaped _ hzeros.shaped
  obtain ⟨-, -, hrefused⟩ := hshaped _ hbelow.shaped
  obtain ⟨v, hv, hparse⟩ := hread _ hzeros (by decide) (by decide)
  refine ⟨?_, hrefused fun w hw => ?_, hsource _ _ hblanks⟩
  · rw [hparse, Int64.toInt_inj.1 (hv.trans (by decide : _ = Int64.minValue.toInt))]
  · rw [hw.unique hbelow]
    decide

end Expr

end Polish
