import Polish.Grammar
import Polish.Proofs.Pieces
import Polish.Token

/-!
Numerals as tokens. Main statements: `read?_eq_some`, a numeral is read as the integer that it
denotes, and as none if 64 bits cannot hold it, and `classify_of_denotes`, a text that denotes an
integer is an integer token.
-/

namespace Polish

namespace Numeral

theorem readNat?_eq_some {cs : List Char} {n : Nat} :
    readNat? cs = some n ↔ cs ≠ [] ∧ (∀ c ∈ cs, c.isDigit) ∧ n = Nat.ofDigitChars 10 cs 0 := by
  rw [readNat?, Option.ite_none_right_eq_some, Option.some.injEq, List.all_eq_true, and_assoc,
    eq_comm (a := n)]

/-- No digit is a sign. -/
theorem not_digits_minus {cs ds : List Char} (h : ∀ c ∈ cs, c.isDigit) : cs ≠ '-' :: ds := by
  rintro rfl
  exact absurd (h '-' List.mem_cons_self) (by decide)

theorem readInt?_eq_some {cs : List Char} {w : Int} : readInt? cs = some w ↔ Denotes cs w := by
  constructor
  · intro h
    unfold readInt? at h
    split at h
    · obtain ⟨n, hn, rfl⟩ := Option.map_eq_some_iff.1 h
      obtain ⟨hne, hdigits, rfl⟩ := readNat?_eq_some.1 hn
      exact .negative hne hdigits
    · obtain ⟨n, hn, rfl⟩ := Option.map_eq_some_iff.1 h
      obtain ⟨hne, hdigits, rfl⟩ := readNat?_eq_some.1 hn
      exact .nonnegative hne hdigits
  · intro h
    cases h with
    | nonnegative hne hdigits =>
      rw [readInt?_of_ne_minus fun _ => not_digits_minus hdigits,
        readNat?_eq_some.2 ⟨hne, hdigits, rfl⟩]
      rfl
    | negative hne hdigits =>
      rw [readInt?, readNat?_eq_some.2 ⟨hne, hdigits, rfl⟩]
      rfl

theorem toInt64?_eq_some {w : Int} {v : Int64} : toInt64? w = some v ↔ w = v.toInt := by
  constructor
  · intro h
    obtain ⟨⟨hlo, hhi⟩, hv⟩ := Option.ite_none_right_eq_some.1 h
    rw [← Option.some.inj hv, Int64.toInt_ofInt_of_le hlo (Int.lt_of_le_of_lt hhi (by decide))]
  · rintro rfl
    exact toInt64?_toInt v

/-- A numeral is read as the integer that it denotes. -/
theorem read?_eq_some {cs : List Char} {v : Int64} : read? cs = some v ↔ Denotes cs v.toInt := by
  rw [read?, Option.bind_eq_some_iff, ← readInt?_eq_some]
  constructor
  · rintro ⟨w, hw, hv⟩
    rw [hw, toInt64?_eq_some.1 hv]
  · exact fun h => ⟨_, h, toInt64?_toInt v⟩

theorem Denotes.integerShaped {cs : List Char} {w : Int} (h : Denotes cs w) :
    integerShaped cs = true := by
  cases h with
  | nonnegative hne hdigits =>
    obtain ⟨c, ds, rfl⟩ := List.exists_cons_of_ne_nil hne
    obtain ⟨hc, hds⟩ := List.forall_mem_cons.1 hdigits
    rw [Polish.integerShaped, hc, Bool.or_true, Bool.true_and, List.all_eq_true]
    exact hds
  | negative _ hdigits =>
    rw [Polish.integerShaped, beq_self_eq_true, Bool.true_or, Bool.true_and, List.all_eq_true]
    exact hdigits

/-- The shortest numeral of an integer is one that denotes it. -/
theorem denotes_ofInt64 (v : Int64) : Denotes (ofInt64 v) v.toInt :=
  read?_eq_some.1 (read?_ofInt64 v)

end Numeral

namespace Token

theorem classify_of_integerShaped {text : String} (h : integerShaped text.toList = true) :
    classify text = .integer text := by
  have hne (special : String) (hs : integerShaped special.toList = false) : text ≠ special := by
    rintro rfl
    rw [hs] at h
    exact Bool.false_ne_true h
  rw [classify, if_neg (hne "" (by decide)), if_neg (hne "(" (by decide)),
    if_neg (hne ")" (by decide)), if_pos h]

theorem classify_of_denotes {text : String} {w : Int} (h : Numeral.Denotes text.toList w) :
    classify text = .integer text :=
  classify_of_integerShaped h.integerShaped

@[simp] theorem classify_name (v : Variable) : classify v.name = .var v := by
  cases v <;> decide

end Token

end Polish
