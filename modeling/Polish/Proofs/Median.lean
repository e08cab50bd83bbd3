import Mathlib.Data.Int.Order.Basic
import Mathlib.Data.Prod.Lex
import Polish.Operator.Reduction

/-!
The middle one of three floats. Every float but the one that is no number has a rank, and floats are
compared by their ranks, which are in a linear order; so `≤` is total and transitive among numbers, and
says nothing of what is no number. Main statement: `median_of_three`, among numbers the median has two
of the three on either side, whatever their order and however many are equal, and it is the last of the
three if one is no number.

    band      -2        -1         0         1         2
             -inf   negative   -0, +0   positive    +inf
-/

namespace Polish

open Float.Model (UnpackedFloat)

namespace Rank

/-- The rank of a number: its band, and in a band of more than one number the exponent and then the
mantissa, both turned round for negative numbers. -/
def ofUnpacked? : UnpackedFloat → Option (ℤ ×ₗ ℤ ×ₗ ℤ)
  | .notANumber => none
  | .infinity .negative => some (toLex (-2, toLex (0, 0)))
  | .finite .negative mantissa exponent _ => some (toLex (-1, toLex (-exponent, -mantissa)))
  | .zero _ => some (toLex (0, toLex (0, 0)))
  | .finite .positive mantissa exponent _ => some (toLex (1, toLex (exponent, mantissa)))
  | .infinity .positive => some (toLex (2, toLex (0, 0)))

/-- The rank of a float. -/
def of? (v : Float) : Option (ℤ ×ₗ ℤ ×ₗ ℤ) := ofUnpacked? v.toModel.unpack

theorem compare_neg (a b : ℤ) : compare (-a) (-b) = (compare a b).swap := by
  rcases lt_trichotomy a b with h | rfl | h
  · rw [compare_gt_iff_gt.2 (Int.neg_lt_neg h), compare_lt_iff_lt.2 h]
    rfl
  · rw [compare_eq_iff_eq.2 rfl, compare_eq_iff_eq.2 rfl]
    rfl
  · rw [compare_lt_iff_lt.2 (Int.neg_lt_neg h), compare_gt_iff_gt.2 h]
    rfl

theorem compare_natCast (m n : ℕ) : compare (m : ℤ) (n : ℤ) = compare m n := by
  simp only [compare, compareOfLessAndEq, Int.ofNat_lt, Int.ofNat_inj]

/-- Floats are compared by their ranks. -/
theorem compare_eq (a b : UnpackedFloat) : a.compare b =
    (ofUnpacked? a).bind fun r => (ofUnpacked? b).map fun s => compare r s := by
  rcases a with (_ | _) | _ | (_ | _) | ⟨_ | _, m, e, hm⟩ <;>
    rcases b with (_ | _) | _ | (_ | _) | ⟨_ | _, n, f, hn⟩
  case finite.negative.finite.negative =>
    show _ = some ((compare (-e) (-f)).then (compare (-(m : ℤ)) (-(n : ℤ))))
    rw [compare_neg, compare_neg, compare_natCast, ← Ordering.swap_then]
    rfl
  case finite.positive.finite.positive =>
    show _ = some ((compare e f).then (compare (m : ℤ) (n : ℤ)))
    rw [compare_natCast]
    rfl
  -- in different bands, or in one band of a single number, it is the bands that decide
  all_goals rfl

variable {a b c : Float}

theorem le_iff : a ≤ b ↔ ∃ r ∈ of? a, ∃ s ∈ of? b, r ≤ s := by
  have hle : a ≤ b ↔ (a.toModel.unpack.compare b.toModel.unpack).any (·.isLE) = true :=
    decide_eq_true_iff
  rw [hle, compare_eq, ← of?, ← of?]
  rcases of? a with - | r
  · simp
  · rcases of? b with - | s
    · simp
    · have hrs : (compare r s).isLE = true ↔ r ≤ s := Ordering.isLE_iff_ne_gt.trans compare_le_iff_le
      simpa using hrs

theorem beq_iff : (a == b) = true ↔ ∃ r ∈ of? a, r ∈ of? b := by
  have hbeq : (a == b) = true ↔ (a.toModel.unpack.compare b.toModel.unpack == some .eq) = true :=
    Iff.rfl
  rw [hbeq, compare_eq, ← of?, ← of?]
  rcases of? a with - | r
  · simp
  · rcases of? b with - | s
    · simp
    · have hrs : compare r s = .eq ↔ s = r := compare_eq_iff_eq.trans eq_comm
      simpa using hrs

/-- What is no number is the one float without a rank. -/
theorem isNaN_iff : a.isNaN = true ↔ of? a = none := by
  have hnan : a.isNaN = a.toModel.unpack.isNaN := rfl
  rw [hnan, of?]
  rcases a.toModel.unpack with (_ | _) | _ | _ | ⟨_ | _, m, e, hm⟩ <;> constructor <;>
    first | intro; rfl | nofun

theorem exists_of_number (h : a.isNaN = false) : ∃ r, of? a = some r := by
  rw [← Option.ne_none_iff_exists', Ne, ← isNaN_iff, h]
  exact Bool.false_ne_true

theorem number_of_mem {r : ℤ ×ₗ ℤ ×ₗ ℤ} (h : r ∈ of? a) : a.isNaN = false := by
  rw [← Bool.not_eq_true, isNaN_iff, Option.mem_def.1 h]
  exact Option.some_ne_none r

theorem le_or_le (ha : a.isNaN = false) (hb : b.isNaN = false) : a ≤ b ∨ b ≤ a := by
  obtain ⟨r, hr⟩ := exists_of_number ha
  obtain ⟨s, hs⟩ := exists_of_number hb
  rw [le_iff, le_iff, hr, hs]
  simpa using le_total r s

theorem le_self (ha : a.isNaN = false) : a ≤ a := (le_or_le ha ha).elim id id

theorem le_of_le_of_le (hab : a ≤ b) (hbc : b ≤ c) : a ≤ c := by
  obtain ⟨r, hr, s, hs, hrs⟩ := le_iff.1 hab
  obtain ⟨s', hs', t, ht, hst⟩ := le_iff.1 hbc
  cases Option.mem_unique hs hs'
  exact le_iff.2 ⟨r, hr, t, ht, hrs.trans hst⟩

/-- Floats that are each no larger than the other are equal as numbers: they are the same float, or
two zeros. -/
theorem beq_of_le_of_le (hab : a ≤ b) (hba : b ≤ a) : (a == b) = true := by
  obtain ⟨r, hr, s, hs, hrs⟩ := le_iff.1 hab
  obtain ⟨s', hs', r', hr', hsr⟩ := le_iff.1 hba
  cases Option.mem_unique hs hs'
  cases Option.mem_unique hr hr'
  cases le_antisymm hrs hsr
  exact beq_iff.2 ⟨r, hr, hs⟩

theorem numbers_of_le (h : a ≤ b) : a.isNaN = false ∧ b.isNaN = false := by
  obtain ⟨r, hr, s, hs, -⟩ := le_iff.1 h
  exact ⟨number_of_mem hr, number_of_mem hs⟩

end Rank

namespace Reduction

open Rank

variable {a b c : Float}

/-- A middle one of three values: one of them, and at least two are no larger and at least two no
smaller. -/
structure Middle (m : Float) (values : List Float) : Prop where
  mem : m ∈ values
  two_le : 2 ≤ values.countP (· ≤ m)
  two_ge : 2 ≤ values.countP (m ≤ ·)

theorem Middle.perm {m : Float} {values values' : List Float} (h : Middle m values)
    (hperm : values.Perm values') : Middle m values' where
  mem := hperm.mem_iff.1 h.mem
  two_le := hperm.countP_eq _ ▸ h.two_le
  two_ge := hperm.countP_eq _ ▸ h.two_ge

/-- Of two middle values neither is larger: more than half of the values are no larger than the one,
more than half are no smaller than the other, and so some value is both. -/
theorem Middle.le {m m' : Float} {values : List Float} (h : Middle m values)
    (h' : Middle m' values) (hlength : values.length = 3) : m' ≤ m := by
  by_contra hnot
  have hapart : ∀ v ∈ values, decide (v ≤ m) = true → (!decide (m' ≤ v)) = true := by
    intro v _ hv
    rw [Bool.not_eq_true', decide_eq_false_iff_not]
    exact fun hv' => hnot (le_of_le_of_le hv' (of_decide_eq_true hv))
  have hmono := List.countP_mono_left hapart
  have hsum := List.length_eq_countP_add_countP (fun v => decide (m' ≤ v)) (l := values)
  have hle := h.two_le
  have hge := h'.two_ge
  simp only [Bool.not_eq_true, Bool.decide_eq_false] at hsum
  omega

theorem middle_of_le_of_le (hlow : b ≤ a) (hhigh : a ≤ c) : Middle a [a, b, c] := by
  have hself : a ≤ a := le_self (numbers_of_le hhigh).1
  refine ⟨List.mem_cons_self, ?_, ?_⟩
  · simp [hself, hlow]
  · simp [List.countP_cons, hself, hhigh]

theorem between_eq_true {low value high : Float} :
    between low value high = true ↔ low ≤ value ∧ value ≤ high := by
  rw [between, Bool.and_eq_true, decide_eq_true_iff, decide_eq_true_iff]

/-- Of three numbers, the third lies between the first two unless one of these does between the
others. -/
theorem third_between (ha : a.isNaN = false) (hb : b.isNaN = false) (hc : c.isNaN = false)
    (hfirst : ¬((b ≤ a ∧ a ≤ c) ∨ (c ≤ a ∧ a ≤ b)))
    (hsecond : ¬((a ≤ b ∧ b ≤ c) ∨ (c ≤ b ∧ b ≤ a))) : (a ≤ c ∧ c ≤ b) ∨ (b ≤ c ∧ c ≤ a) := by
  rcases le_or_le ha hb with hab | hba
  · refine .inl ⟨(le_or_le ha hc).resolve_right fun hca => ?_,
      (le_or_le hb hc).resolve_left fun hbc => ?_⟩
    · exact hfirst (.inr ⟨hca, hab⟩)
    · exact hsecond (.inl ⟨hab, hbc⟩)
  · refine .inr ⟨(le_or_le hb hc).resolve_right fun hcb => ?_,
      (le_or_le ha hc).resolve_left fun hac => ?_⟩
    · exact hsecond (.inr ⟨hcb, hba⟩)
    · exact hfirst (.inl ⟨hba, hac⟩)

theorem middle_median (ha : a.isNaN = false) (hb : b.isNaN = false) (hc : c.isNaN = false) :
    Middle (median a b c) [a, b, c] := by
  unfold median
  simp only [Bool.or_eq_true, between_eq_true]
  split_ifs with hfirst hsecond
  · rcases hfirst with ⟨hlow, hhigh⟩ | ⟨hlow, hhigh⟩
    · exact middle_of_le_of_le hlow hhigh
    · exact (middle_of_le_of_le hlow hhigh).perm ((List.Perm.swap b c []).cons a)
  · rcases hsecond with ⟨hlow, hhigh⟩ | ⟨hlow, hhigh⟩
    · exact (middle_of_le_of_le hlow hhigh).perm (List.Perm.swap a b [c])
    · exact (middle_of_le_of_le hlow hhigh).perm (List.perm_append_singleton a [b, c])
  · rcases third_between ha hb hc hfirst hsecond with ⟨hlow, hhigh⟩ | ⟨hlow, hhigh⟩
    · exact (middle_of_le_of_le hlow hhigh).perm (List.perm_append_singleton c [a, b]).symm
    · exact (middle_of_le_of_le hlow hhigh).perm (List.reverse_perm [a, b, c])

/-- All three values take part in each of the four questions, and none that is no number lies between
others or has another on either side. -/
theorem median_of_isNaN (h : a.isNaN = true ∨ b.isNaN = true ∨ c.isNaN = true) :
    median a b c = c := by
  have hnumbers {low value high : Float} (hbetween : low ≤ value ∧ value ≤ high) :
      low.isNaN = false ∧ value.isNaN = false ∧ high.isNaN = false :=
    ⟨(numbers_of_le hbetween.1).1, numbers_of_le hbetween.2⟩
  unfold median
  simp only [Bool.or_eq_true, between_eq_true]
  rw [if_neg, if_neg]
  all_goals
    rintro (hbetween | hbetween)
    all_goals
      obtain ⟨hlow, hvalue, hhigh⟩ := hnumbers hbetween
      simp only [hlow, hvalue, hhigh, Bool.false_eq_true, or_self] at h

/-- The median of three numbers is one of them, at least two of the three are no larger and at least two
are no smaller, and it is the same number in whatever order the three are given. If one of the three is
no number, the median is the last. -/
theorem median_of_three (a b c : Float) :
    (a.isNaN = false → b.isNaN = false → c.isNaN = false →
      ∃ m, Operator.median3.reduce? [a, b, c] = some m ∧ Middle m [a, b, c] ∧
        ∀ values, values.Perm [a, b, c] →
          ∃ m', Operator.median3.reduce? values = some m' ∧ (m' == m) = true) ∧
      (a.isNaN = true ∨ b.isNaN = true ∨ c.isNaN = true →
        Operator.median3.reduce? [a, b, c] = some c) := by
  refine ⟨fun ha hb hc => ⟨median a b c, rfl, middle_median ha hb hc, fun values hperm => ?_⟩,
    fun h => ?_⟩
  · match values, hperm.length_eq with
    | [a', b', c'], _ =>
      have hall : ∀ v ∈ [a, b, c], v.isNaN = false := List.forall_mem_cons.2
        ⟨ha, List.forall_mem_cons.2 ⟨hb, List.forall_mem_singleton.2 hc⟩⟩
      have hnumber : ∀ v ∈ [a', b', c'], v.isNaN = false := fun v hv => hall v (hperm.mem_iff.1 hv)
      have hmiddle := (middle_median (hnumber a' (by simp)) (hnumber b' (by simp))
        (hnumber c' (by simp))).perm hperm
      have hmiddle' := middle_median ha hb hc
      exact ⟨_, rfl, beq_of_le_of_le (hmiddle'.le hmiddle rfl) (hmiddle.le hmiddle' rfl)⟩
  · rw [Operator.reduce?, median_of_isNaN h]

/-- The two zeros and an infinity: the median is the zero that comes first, and either way a zero. -/
theorem median_of_three_zeros :
    let negativeZero := Float.ofBits 0x8000000000000000
    let zero := Float.ofBits 0
    let infinity := Float.ofBits 0x7ff0000000000000
    Operator.median3.reduce? [negativeZero, zero, infinity] = some negativeZero ∧
      Operator.median3.reduce? [infinity, zero, negativeZero] = some zero ∧
      Middle negativeZero [negativeZero, zero, infinity] ∧ (zero == negativeZero) = true := by
  intro negativeZero zero infinity
  have hmedian : median negativeZero zero infinity = negativeZero := by decide +kernel
  have hmedian' : median infinity zero negativeZero = zero := by decide +kernel
  obtain ⟨hnumbers, -⟩ := median_of_three negativeZero zero infinity
  obtain ⟨m, hm, hmiddle, hperm⟩ :=
    hnumbers (by decide +kernel) (by decide +kernel) (by decide +kernel)
  obtain ⟨m', hm', hsame⟩ := hperm [infinity, zero, negativeZero]
    (List.reverse_perm [negativeZero, zero, infinity])
  rw [Operator.reduce?, hmedian] at hm
  rw [Operator.reduce?, hmedian'] at hm'
  cases hm
  cases hm'
  exact ⟨congrArg some hmedian, congrArg some hmedian', hmiddle, hsame⟩

end Reduction

end Polish
