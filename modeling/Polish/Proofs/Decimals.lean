import Mathlib.Data.List.TakeWhile
import Polish.Decimal.Reading

/-!
What a decimal text denotes. Its digits, before and behind the point, are those of one whole number; how
many stand behind the point and what the exponent says give the power of ten to multiply it by. Main
statement: `read?_eq_some`, a text is read as the float that it denotes, and any other text as none.

    - 12.50 e-1      − 1250 · 10 ^ (−1 − 2)
-/

namespace Polish.Decimal

/-- A row of decimal digits, perhaps an empty one. -/
def Digits (cs : List Char) : Prop := ∀ c ∈ cs, c.isDigit = true

/-- The whole number that decimal digits make. -/
def number (ds : List Char) : Nat := Nat.ofDigitChars 10 ds 0

/-- A sign or none, and whether it is a minus. -/
inductive Sign : List Char → Bool → Prop where
  | absent : Sign [] false
  | plus : Sign ['+'] false
  | minus : Sign ['-'] true

/-- An exponent, or none for zero: an `e` in either case, a sign or none, and digits. -/
inductive Exponent : List Char → Int → Prop where
  | absent : Exponent [] 0
  | present {c : Char} {sign ds : List Char} {negative : Bool} (mark : c = 'e' ∨ c = 'E')
      (signed : Sign sign negative) (some_ : ds ≠ []) (digits : Digits ds) :
      Exponent (c :: (sign ++ ds)) (if negative then -(number ds) else number ds)

/-- `Scaled cs n k`: the text is a way to write `n · 10 ^ k`, with digits before the point or behind it,
and a point only if it is wanted. -/
inductive Scaled : List Char → Nat → Int → Prop where
  | integer {ds es : List Char} {k : Int} (some_ : ds ≠ []) (digits : Digits ds)
      (exponent : Exponent es k) : Scaled (ds ++ es) (number ds) k
  | point {ds fs es : List Char} {k : Int} (some_ : ds ++ fs ≠ []) (digits : Digits (ds ++ fs))
      (exponent : Exponent es k) :
      Scaled (ds ++ '.' :: (fs ++ es)) (number (ds ++ fs)) (k - fs.length)

/-- The float of a text without a sign: infinity and what is no number by their names, in capital or
small letters, and the float nearest to a number in decimal notation. -/
inductive Unsigned : List Char → Float → Prop where
  | infinity {cs : List Char} (name : cs.map Char.toLower = ['i', 'n', 'f'] ∨
      cs.map Char.toLower = ['i', 'n', 'f', 'i', 'n', 'i', 't', 'y']) : Unsigned cs (1 / 0)
  | nan {cs : List Char} (name : cs.map Char.toLower = ['n', 'a', 'n']) : Unsigned cs (0 / 0)
  | scaled {cs : List Char} {n : Nat} {k : Int} (scaled : Scaled cs n k) :
      Unsigned cs (Float.ofScientific n (k < 0) k.natAbs)

/-- The float that a text denotes. -/
inductive Denotes : List Char → Float → Prop where
  | signed {sign cs : List Char} {negative : Bool} {v : Float} (signed : Sign sign negative)
      (unsigned : Unsigned cs v) : Denotes (sign ++ cs) (if negative then -v else v)

/-! ### Digits and signs -/

variable {cs ds : List Char}

theorem splitDigits_eq {rest : List Char} : splitDigits cs = (ds, rest) ↔
    cs = ds ++ rest ∧ Digits ds ∧ ∀ c ∈ rest.head?, c.isDigit = false := by
  constructor
  · intro h
    obtain ⟨rfl, rfl⟩ := Prod.mk.inj h
    refine ⟨List.takeWhile_append_dropWhile.symm, fun _ => List.mem_takeWhile_imp, fun c hc => ?_⟩
    have hhead := List.head?_dropWhile_not Char.isDigit cs
    rw [Option.mem_def.1 hc] at hhead
    simpa using hhead
  · rintro ⟨rfl, hdigits, hrest⟩
    rw [splitDigits, List.takeWhile_append_of_pos hdigits, List.dropWhile_append_of_pos hdigits]
    cases rest with
    | nil => simp
    | cons c rest =>
      have hc : ¬c.isDigit = true := by simp [hrest c rfl]
      rw [List.takeWhile_cons_of_neg hc, List.dropWhile_cons_of_neg hc, List.append_nil]

theorem exists_sign (cs : List Char) :
    ∃ sign, Sign sign (splitSign cs).1 ∧ cs = sign ++ (splitSign cs).2 := by
  unfold splitSign
  split
  · exact ⟨['-'], .minus, rfl⟩
  · exact ⟨['+'], .plus, rfl⟩
  · exact ⟨[], .absent, rfl⟩

theorem splitSign_append {sign : List Char} {negative : Bool} (h : Sign sign negative)
    (hplain : ∀ c ∈ cs.head?, c ≠ '-' ∧ c ≠ '+') : splitSign (sign ++ cs) = (negative, cs) := by
  cases h with
  | absent =>
    cases cs with
    | nil => rfl
    | cons c cs =>
      obtain ⟨hminus, hplus⟩ := hplain c rfl
      simp [splitSign, hminus, hplus]
  | plus => rfl
  | minus => rfl

/-- What a text without a sign begins with: a digit, a point or the first letter of a name. -/
def Beginning (c : Char) : Prop := c.isDigit = true ∨ c = '.' ∨ c.toLower = 'i' ∨ c.toLower = 'n'

instance (c : Char) : Decidable (Beginning c) := by
  unfold Beginning
  infer_instance

theorem Beginning.not_sign {c : Char} (h : Beginning c) : c ≠ '-' ∧ c ≠ '+' := by
  constructor
  · rintro rfl
    exact absurd h (by decide)
  · rintro rfl
    exact absurd h (by decide)

theorem Digits.not_sign (h : Digits ds) : ∀ c ∈ ds.head?, c ≠ '-' ∧ c ≠ '+' :=
  fun c hc => Beginning.not_sign (.inl (h c (List.mem_of_mem_head? hc)))

/-! ### Exponents -/

theorem Exponent.not_digit {es : List Char} {k : Int} (h : Exponent es k) :
    ∀ c ∈ es.head?, c.isDigit = false ∧ c ≠ '.' := by
  cases h with
  | absent => exact fun c hc => absurd hc (Option.not_mem_none c)
  | present mark =>
    intro c hc
    obtain rfl := Option.some.inj hc
    rcases mark with rfl | rfl <;> decide

theorem readExponent?_eq_some {es : List Char} {k : Int} : readExponent? es = some k ↔ Exponent es k := by
  constructor
  · intro h
    unfold readExponent? at h
    split at h
    · obtain rfl := Option.some.inj h
      exact .absent
    · rename_i c cs
      obtain ⟨⟨hmark, hsome, hdigits⟩, hvalue⟩ := Option.ite_none_right_eq_some.1 h
      obtain ⟨sign, hsign, hcs⟩ := exists_sign cs
      have hexponent := Exponent.present hmark hsign hsome (List.all_eq_true.1 hdigits)
      rw [← hcs] at hexponent
      exact Option.some.inj hvalue ▸ hexponent
  · intro h
    cases h with
    | absent => rfl
    | present mark signed some_ digits =>
      have hall := List.all_eq_true.2 digits
      simp only [readExponent?, splitSign_append signed digits.not_sign, mark, some_, hall, ne_eq,
        not_false_eq_true, and_self, if_true]
      rfl

/-! ### Numbers -/

theorem splitFraction_eq {rest fs es : List Char} (h : splitFraction rest = (fs, es)) :
    (rest = '.' :: (fs ++ es) ∧ Digits fs) ∨ (rest = es ∧ fs = []) := by
  unfold splitFraction at h
  split at h
  · obtain ⟨rfl, hdigits, -⟩ := splitDigits_eq.1 h
    exact .inl ⟨rfl, hdigits⟩
  · obtain ⟨rfl, rfl⟩ := Prod.mk.inj h
    exact .inr ⟨rfl, rfl⟩

theorem splitFraction_of_ne {es : List Char} (h : ∀ c ∈ es.head?, c ≠ '.') :
    splitFraction es = ([], es) := by
  unfold splitFraction
  split
  · exact absurd rfl (h '.' rfl)
  · rfl

/-- The reader by its parts. -/
theorem Literal.read?_eq {rest fs es : List Char} (hwhole : splitDigits cs = (ds, rest))
    (hfraction : splitFraction rest = (fs, es)) : Literal.read? cs =
      if ds = [] ∧ fs = [] then none
      else (readExponent? es).map fun e => ⟨number (ds ++ fs), e - fs.length⟩ := by
  simp only [Literal.read?, hwhole, hfraction, number]

theorem Literal.read?_eq_some {n : Nat} {k : Int} :
    Literal.read? cs = some ⟨n, k⟩ ↔ Scaled cs n k := by
  constructor
  · intro h
    rcases hwhole : splitDigits cs with ⟨ds, rest⟩
    rcases hfraction : splitFraction rest with ⟨fs, es⟩
    rw [Literal.read?_eq hwhole hfraction, Option.ite_none_left_eq_some] at h
    obtain ⟨hsome, hvalue⟩ := h
    obtain ⟨e, hexponent, hliteral⟩ := Option.map_eq_some_iff.1 hvalue
    obtain ⟨rfl, rfl⟩ := Literal.mk.inj hliteral
    rw [readExponent?_eq_some] at hexponent
    obtain ⟨rfl, hds, -⟩ := splitDigits_eq.1 hwhole
    rcases splitFraction_eq hfraction with ⟨rfl, hfs⟩ | ⟨rfl, rfl⟩
    · have hne : ds ++ fs ≠ [] := fun hnil => hsome (List.append_eq_nil_iff.1 hnil)
      exact .point hne (List.forall_mem_append.2 ⟨hds, hfs⟩) hexponent
    · have hne : ds ≠ [] := fun hnil => hsome ⟨hnil, rfl⟩
      simpa using Scaled.integer hne hds hexponent
  · intro h
    cases h with
    | integer some_ digits exponent =>
      have hes := exponent.not_digit
      have hwhole := splitDigits_eq.2 ⟨rfl, digits, fun c hc => (hes c hc).1⟩
      have hfraction := splitFraction_of_ne fun c hc => (hes c hc).2
      rw [Literal.read?_eq hwhole hfraction, readExponent?_eq_some.2 exponent]
      simp [some_]
    | @point ds fs es e some_ digits exponent =>
      obtain ⟨hds, hfs⟩ := List.forall_mem_append.1 digits
      have hpoint : ∀ c ∈ ('.' :: (fs ++ es)).head?, c.isDigit = false := by simp
      have hwhole := splitDigits_eq.2 ⟨rfl, hds, hpoint⟩
      have hfraction : splitFraction ('.' :: (fs ++ es)) = (fs, es) :=
        splitDigits_eq.2 ⟨rfl, hfs, fun c hc => (exponent.not_digit c hc).1⟩
      have hne : ¬(ds = [] ∧ fs = []) := fun hnil => some_ (List.append_eq_nil_iff.2 hnil)
      rw [Literal.read?_eq hwhole hfraction, readExponent?_eq_some.2 exponent, if_neg hne]
      rfl

/-! ### Floats -/

theorem toLower_of_isDigit {c : Char} (h : c.isDigit = true) : c.toLower = c := by
  obtain ⟨-, hnine⟩ := Bool.and_eq_true_iff.1 h
  have hnine : c.val ≤ '9'.val := of_decide_eq_true hnine
  have hsmall : ¬(c.val ≥ 'A'.val ∧ c.val ≤ 'Z'.val) := by
    rintro ⟨hcapital, -⟩
    exact absurd (UInt32.le_trans hcapital hnine) (by decide)
  exact dif_neg hsmall

/-- A number in decimal notation begins with a digit or the point. -/
theorem Scaled.head {n : Nat} {k : Int} (h : Scaled cs n k) :
    ∃ c rest, cs = c :: rest ∧ (c.isDigit = true ∨ c = '.') := by
  cases h with
  | @integer ds es k some_ digits exponent =>
    obtain ⟨c, ds, rfl⟩ := List.exists_cons_of_ne_nil some_
    exact ⟨c, _, rfl, .inl (digits c List.mem_cons_self)⟩
  | @point ds fs es k some_ digits exponent =>
    cases ds with
    | nil => exact ⟨'.', _, rfl, .inr rfl⟩
    | cons c ds => exact ⟨c, _, rfl, .inl (digits c List.mem_cons_self)⟩

theorem Unsigned.head {v : Float} (h : Unsigned cs v) :
    ∃ c rest, cs = c :: rest ∧ Beginning c := by
  have hletter {name : List Char} {d : Char} (hname : cs.map Char.toLower = d :: name) :
      ∃ c rest, cs = c :: rest ∧ c.toLower = d := by
    obtain ⟨c, rest, hcs, hc, -⟩ := List.map_eq_cons_iff.1 hname
    exact ⟨c, rest, hcs, hc⟩
  cases h with
  | infinity name =>
    rcases name with hname | hname
    all_goals
      obtain ⟨c, rest, hcs, hc⟩ := hletter hname
      exact ⟨c, rest, hcs, .inr (.inr (.inl hc))⟩
  | nan name =>
    obtain ⟨c, rest, hcs, hc⟩ := hletter name
    exact ⟨c, rest, hcs, .inr (.inr (.inr hc))⟩
  | scaled scaled =>
    obtain ⟨c, rest, hcs, hc⟩ := scaled.head
    exact ⟨c, rest, hcs, hc.imp_right .inl⟩

theorem Unsigned.not_sign {v : Float} (h : Unsigned cs v) : ∀ c ∈ cs.head?, c ≠ '-' ∧ c ≠ '+' := by
  obtain ⟨d, rest, rfl, hd⟩ := h.head
  intro c hc
  obtain rfl := Option.some.inj hc
  exact hd.not_sign

theorem readMagnitude?_eq_some {v : Float} : readMagnitude? cs = some v ↔ Unsigned cs v := by
  constructor
  · intro h
    simp only [readMagnitude?] at h
    split at h
    · rename_i hname
      exact Option.some.inj h ▸ .infinity hname
    · split at h
      · rename_i hname
        exact Option.some.inj h ▸ .nan hname
      · obtain ⟨l, hl, rfl⟩ := Option.map_eq_some_iff.1 h
        exact .scaled (Literal.read?_eq_some.1 hl)
  · intro h
    cases h with
    | infinity name => exact if_pos name
    | nan name =>
      rw [readMagnitude?, name]
      rfl
    | scaled scaled =>
      obtain ⟨c, rest, rfl, hc⟩ := scaled.head
      have hlower : c.toLower = c := by
        rcases hc with hc | rfl
        · exact toLower_of_isDigit hc
        · rfl
      have hletter : c ≠ 'i' ∧ c ≠ 'n' := by
        constructor
        · rintro rfl
          exact absurd hc (by decide)
        · rintro rfl
          exact absurd hc (by decide)
      have hread := Literal.read?_eq_some.2 scaled
      simp only [readMagnitude?, hread]
      simp [hlower, hletter, Literal.value]

/-- A text is read as the float that it denotes. -/
theorem read?_eq_some {text : String} {v : Float} : read? text = some v ↔ Denotes text.toList v := by
  have hread : read? text = (readMagnitude? (splitSign text.toList).2).map fun w =>
      if (splitSign text.toList).1 then -w else w := rfl
  rw [hread]
  constructor
  · intro h
    obtain ⟨sign, hsign, htext⟩ := exists_sign text.toList
    obtain ⟨w, hw, rfl⟩ := Option.map_eq_some_iff.1 h
    have hdenotes := Denotes.signed hsign (readMagnitude?_eq_some.1 hw)
    rwa [← htext] at hdenotes
  · intro h
    generalize text.toList = cs at h
    cases h with
    | signed signed unsigned =>
      rw [splitSign_append signed unsigned.not_sign, readMagnitude?_eq_some.2 unsigned, Option.map_some]

example : read? "-12.50e-1" = some (-(5 / 4)) := by decide +kernel

theorem isSome_read? (text : String) :
    (read? text).isSome = true ↔ ∃ number, Denotes text.toList number := by
  simp only [Option.isSome_iff_exists, read?_eq_some]

/-- A text that denotes a float is not empty, and begins with no equals sign. -/
theorem Denotes.head {v : Float} (h : Denotes cs v) : ∃ c rest, cs = c :: rest ∧ c ≠ '=' := by
  cases h with
  | signed signed unsigned =>
    obtain ⟨c, rest, rfl, hc⟩ := unsigned.head
    cases signed with
    | absent =>
      refine ⟨c, rest, rfl, ?_⟩
      rintro rfl
      exact absurd hc (by decide)
    | plus => exact ⟨'+', _, rfl, by decide⟩
    | minus => exact ⟨'-', _, rfl, by decide⟩

/-- A text denotes one float at most. -/
theorem Denotes.unique {v w : Float} (hv : Denotes cs v) (hw : Denotes cs w) : v = w := by
  rw [← String.toList_ofList (l := cs), ← read?_eq_some] at hv hw
  exact Option.some.inj (hv.symm.trans hw)

end Polish.Decimal
