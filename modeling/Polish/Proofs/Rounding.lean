import Mathlib
import Polish.Operator.Reduction

/-!
What rounding a number and storing it keep. A number is a sign, a mantissa and an exponent; it is
rounded to a mantissa of 53 bits, and from an exponent above 971 on it is stored as an infinity. The
sign is kept throughout, and so is a bound on the exponent. Main statements: `sign?_stored`, and
`held_ofNat`, the float of a positive count below `2 ^ 1023` is no infinity.

    exponent    -1074 .................. 971
                  |  zeros and numbers   |  infinity
-/

namespace Polish

open Float.Model (Format UnpackedFloat totalExponent)
open Float.Model.UnpackedFloat

namespace Rounding

/-- An unpacked float as it is read back from the bits it is stored in. -/
def stored (u : UnpackedFloat) : UnpackedFloat := unpack .binary64 (pack .binary64 u)

/-- The sign of an unpacked float, unless it is no number. -/
def sign? : UnpackedFloat → Option Sign
  | .notANumber => none
  | .infinity s | .zero s | .finite s .. => some s

theorem sign?_eq_none_iff {u : UnpackedFloat} : sign? u = none ↔ u = .notANumber := by
  cases u <;> simp [sign?]

/-- A zero or a number of one sign, with a mantissa of 53 bits and an exponent up to a bound. -/
inductive Held (s : Sign) (k : ℤ) : UnpackedFloat → Prop where
  | zero : Held s k (.zero s)
  | finite {m : ℕ} {e : ℤ} {pos : 0 < m} (mantissa : m < 2 ^ 53) (exponent : e ≤ k) :
      Held s k (.finite s m e pos)

variable {s : Sign} {k : ℤ} {u : UnpackedFloat}

theorem Held.mono {k' : ℤ} (h : Held s k u) (hk : k ≤ k') : Held s k' u := by
  cases h with
  | zero => exact .zero
  | finite mantissa exponent => exact .finite mantissa (Int.le_trans exponent hk)

theorem Held.sign?_eq (h : Held s k u) : sign? u = some s := by
  cases h <;> rfl

/-! ### Storing -/

/-- What is read back from bits whose exponent field is not the last one is a zero or a number. -/
theorem held_unpack {e : BitVec 11} (he : e ≠ -1#11) (s : Sign) (m : BitVec 52) :
    Held s (max (e.toNat - 1075) (-1074)) (unpack .binary64 (packComponents .binary64 s e m)) := by
  have hbias : ((Format.binary64.exponentBias : ℕ) : ℤ) +
      Format.binary64.mantissaBitsWithoutImplicit = 1075 := rfl
  have hm := m.isLt
  rw [unpack]
  simp only [unpackMantissa_packComponents, unpackExponent_packComponents,
    unpackSign_packComponents, Sign.ofBitVec_toBitVec, if_neg he, hbias]
  split_ifs with he0 hm0
  · exact .zero
  · refine .finite (by omega) ?_
    subst he0
    decide
  · exact .finite (1#1 ++ m).isLt (le_max_left _ _)

/-- A number is stored as an infinity only if its exponent is above 971. -/
theorem stored_finite (s : Sign) {m : ℕ} {e : ℤ} (hm : 0 < m) :
    (971 < e ∧ stored (.finite s m e hm) = .infinity s) ∨
      Held s (max e (-1074)) (stored (.finite s m e hm)) := by
  have hbias : e + (Format.binary64.exponentBias : ℕ) +
      Format.binary64.mantissaBitsWithoutImplicit = e + 1075 := by
    rw [Int.add_assoc]
    rfl
  rw [stored, pack]
  simp only [hbias]
  split_ifs with hover hnormal
  · change 2 ^ 11 ≤ _ at hover
    left
    refine ⟨by omega, ?_⟩
    cases s <;> rfl
  · change ¬2 ^ 11 ≤ _ at hover
    have hfield : (BitVec.ofNat 11 (e + 1075).toNat).toNat = (e + 1075).toNat := by
      rw [BitVec.toNat_ofNat, Nat.mod_eq_of_lt (by omega)]
    right
    refine (held_unpack ?_ s _).mono ?_
    · intro hlast
      rw [hlast] at hfield
      simp at hfield
      omega
    · rw [hfield]
      omega
  · right
    exact (held_unpack (by decide) s _).mono (le_max_right _ _)

theorem sign?_stored (u : UnpackedFloat) : sign? (stored u) = sign? u := by
  cases u with
  | notANumber => rfl
  | infinity s | zero s => cases s <;> rfl
  | finite s m e hm =>
    rcases stored_finite s hm (e := e) with ⟨-, h⟩ | h
    · rw [h]
      rfl
    · exact h.sign?_eq

theorem Held.stored (h : Held s k u) (hlow : -1074 ≤ k) (hhigh : k ≤ 971) :
    Held s k (stored u) := by
  cases h with
  | zero => cases s <;> exact .zero
  | @finite m e pos mantissa exponent =>
    rcases stored_finite s pos (e := e) with ⟨habove, -⟩ | h
    · omega
    · exact h.mono (by omega)

/-! ### Rounding -/

theorem shiftRight_mantissa (em : ExtendedMantissa) (n : ℕ) :
    (em >>> n).mantissa = em.mantissa / 2 ^ n := by
  change (n.repeat ExtendedMantissa.shiftRightOne em).mantissa = _
  induction n with
  | zero => simp [Nat.repeat]
  | succ n ih =>
    rw [Nat.repeat, ExtendedMantissa.shiftRightOne, ih, Nat.div_div_eq_div_mul, Nat.pow_succ]

theorem roundedMantissa_le (em : ExtendedMantissa) : em.roundedMantissa ≤ em.mantissa + 1 := by
  rcases em with ⟨m, _ | _, _ | _⟩ <;>
    simp [ExtendedMantissa.roundedMantissa, ExtendedMantissa.accuracy, Accuracy.roundToNearestEven]
  omega

/-- A mantissa is shifted to 53 bits, and its exponent goes up with the shift, or to -1074. -/
theorem shift_bounds (m : ℕ) (e : ℤ) (accuracy : Accuracy) :
    (shiftToTargetExponent .binary64 m e accuracy).1.mantissa < 2 ^ 53 ∧
      (shiftToTargetExponent .binary64 m e accuracy).2 =
        max e (max (totalExponent m e - 53) (-1074)) := by
  have htarget : Format.binary64.targetExponent (totalExponent m e) =
      max (totalExponent m e - 53) (-1074) := rfl
  have hstart : (ExtendedMantissa.ofMantissaAndAccuracy m accuracy).mantissa = m := by
    rcases accuracy with _ | _ | _ | _ <;> rfl
  rw [shiftToTargetExponent, htarget, shiftToExponent]
  simp only [shiftRight_mantissa, hstart]
  refine ⟨?_, by omega⟩
  rw [Nat.div_lt_iff_lt_mul (Nat.two_pow_pos _), ← Nat.pow_add]
  refine Nat.lt_of_lt_of_le Nat.lt_log2_self (Nat.pow_le_pow_right (by decide) ?_)
  simp only [totalExponent]
  omega

theorem sign?_round (spec : Format) (s : Sign) (m : ℕ) (e : ℤ) (accuracy : Accuracy) :
    sign? (roundWithAccuracy spec s m e accuracy) = some s := by
  rw [roundWithAccuracy]
  dsimp only
  split <;> rfl

/-- Rounding a mantissa of `j` bits keeps a bound on the exponent, but for one step: the rounded
mantissa may have one bit more, and then it is shifted once again. -/
theorem held_round {e : ℤ} {m j : ℕ} (s : Sign) (accuracy : Accuracy) (hj : 0 < j) (hm : m < 2 ^ j)
    (hlow : -1074 ≤ k) (he : e ≤ k) (htotal : j + e - 53 ≤ k) :
    Held s (k + 1) (roundWithAccuracy .binary64 s m e accuracy) := by
  have hbits : m.log2 < j := by
    by_cases h : m = 0
    · rwa [h, Nat.log2_zero]
    · exact (Nat.log2_lt h).2 hm
  obtain ⟨hfirst, hfirst'⟩ := shift_bounds m e accuracy
  rw [totalExponent] at hfirst'
  rw [roundWithAccuracy]
  generalize shiftToTargetExponent .binary64 m e accuracy = first at hfirst hfirst'
  obtain ⟨em, e'⟩ := first
  dsimp only at hfirst hfirst' ⊢
  have hrounded := roundedMantissa_le em
  have hbits' : em.roundedMantissa.log2 ≤ 53 := by
    by_cases h : em.roundedMantissa = 0
    · rw [h]
      decide
    · have hlog := (Nat.log2_lt h (k := 54)).2 (by omega)
      omega
  obtain ⟨hsecond, hsecond'⟩ := shift_bounds em.roundedMantissa e' .exact
  split_ifs
  · exact .zero
  · refine .finite hsecond ?_
    rw [hsecond', totalExponent]
    omega

/-! ### Counts -/

theorem shiftLeft_lt {n j : ℕ} (h : n < 2 ^ j) (a : ℕ) : n <<< a < 2 ^ (j + a) := by
  rw [Nat.shiftLeft_eq, Nat.pow_add]
  exact Nat.mul_lt_mul_of_pos_right h (Nat.two_pow_pos a)

theorem held_natural {n : ℕ} (hn : 0 < n) (h : n < 2 ^ 53) :
    Held .positive 1 (ofNat .binary64 n) := by
  have hcompare : compare (n : ℤ) 0 = .gt := compare_gt_iff_gt.2 (by omega)
  rw [ofNat, ofInt, UnpackedFloat.normalize, hcompare]
  dsimp only
  rw [UnpackedFloat.round, decreaseExponent]
  refine held_round (k := 0) .positive .exact (by omega) (shiftLeft_lt h _) (by omega) (by omega) ?_
  omega

theorem held_mul_one (hk : 0 ≤ k) (h : Held .positive k u) :
    Held .positive (k + 2) (mul .binary64 u (.finite .positive (2 ^ 52) (-52) (by decide))) := by
  cases h with
  | zero => exact .zero
  | finite mantissa exponent =>
    refine (held_round (k := k + 1) (j := 53 + 53) .positive .exact (by omega) ?_ (by omega)
      (by omega) (by omega)).mono (by omega)
    rw [Nat.pow_add]
    exact Nat.mul_lt_mul'' mantissa (by decide)

/-- A count of up to 53 bits is made a float exactly, and multiplied by one. -/
theorem held_ofNat_of_small {n : ℕ} (hn : 0 < n) (h : n < 2 ^ 53) :
    Held .positive 3 (Float.ofNat n).toModel.unpack := by
  have hofNat : Float.ofNat n = n.toUInt64.toFloat * Float.ofBits 0x3FF0000000000000 :=
    dif_pos ⟨h, by decide⟩
  have hnat : n.toUInt64.toNat = n := by
    simp
    omega
  have hfactor := (held_natural hn h).stored (by omega) (by omega)
  rw [← hnat] at hfactor
  rw [hofNat]
  exact (held_mul_one (by decide) hfactor).stored (by decide) (by decide)

/-- A larger count is rounded once. -/
theorem held_ofNat {n j : ℕ} (hn : 0 < n) (hj : j ≤ 1023) (h : n < 2 ^ j) :
    Held .positive 971 (Float.ofNat n).toModel.unpack := by
  by_cases hsmall : n < 2 ^ 53
  · exact (held_ofNat_of_small hn hsmall).mono (by decide)
  · have hofNat : Float.ofNat n = .ofModel (.ofScientific n 0) := dif_neg fun h => hsmall h.1
    have hbits : Format.binary64.mantissaBits = 53 := rfl
    have hsmallest : (0 : ℤ) ≤ 2 ^ Format.binary64.exponentBits := by decide
    rw [hofNat]
    change Held .positive 971 (Rounding.stored (ofScientific .binary64 n 0))
    refine Held.stored ?_ (by decide) (by decide)
    rw [ofScientific, dif_neg (Nat.pos_iff_ne_zero.1 hn), if_neg (by decide), if_neg (by omega),
      if_pos (by decide), mul]
    simp only [hbits, Int.toNat_zero, Nat.pow_zero, Nat.mul_one]
    exact held_round (k := 970) .positive .exact (by omega) (shiftLeft_lt h 53) (by decide)
      (by omega) (by omega)

end Rounding

end Polish
