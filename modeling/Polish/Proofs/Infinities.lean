import Polish.Proofs.Rounding

/-!
Zeros and infinities among floats, and what sums and quotients make of them. Main statements:
`add_eq_nan_iff`, a sum of numbers is no number only if opposite infinities meet; `add_eq_infinity`,
any other sum with an infinity is that infinity; `signOf?_add`, a sum of one sign has that sign;
`one_div_zero` and `div_infinity`, the way from a zero to an infinity and back.

      a \ b   |  finite     +inf     -inf
      --------+---------------------------
      finite  |  number     +inf     -inf
       +inf   |   +inf      +inf      NaN
       -inf   |   -inf       NaN     -inf
-/

namespace Polish

open Float.Model (UnpackedFloat)
open Float.Model.UnpackedFloat

namespace Infinities

open Rounding

/-- The zero of a sign. -/
def zero (s : Sign) : Float := .ofModel (.pack (.zero s))

/-- The infinity of a sign. -/
def infinity (s : Sign) : Float := .ofModel (.pack (.infinity s))

/-- The sign of a float, unless it is no number. -/
def signOf? (v : Float) : Option Sign := sign? v.toModel.unpack

variable {a b v : Float} {s : Sign}

/-! ### Floats and their unpacked forms -/

theorem unpack_inj : a.toModel.unpack = b.toModel.unpack ↔ a = b := by
  rw [← Float.toBits_inj, ← UInt64.toBitVec_inj]
  exact unpack_inj_of_valid a.toModel.valid b.toModel.valid

@[simp] theorem unpack_zero (s : Sign) : (zero s).toModel.unpack = .zero s := by
  cases s <;> rfl

@[simp] theorem unpack_infinity (s : Sign) : (infinity s).toModel.unpack = .infinity s := by
  cases s <;> rfl

@[simp] theorem unpack_nan : Float.nan.toModel.unpack = .notANumber := rfl

theorem eq_zero_iff : v = zero s ↔ v.toModel.unpack = .zero s := by
  rw [← unpack_inj, unpack_zero]

theorem eq_infinity_iff : v = infinity s ↔ v.toModel.unpack = .infinity s := by
  rw [← unpack_inj, unpack_infinity]

theorem eq_nan_iff : v = .nan ↔ signOf? v = none := by
  rw [← unpack_inj, unpack_nan, signOf?, sign?_eq_none_iff]

@[simp] theorem signOf?_zero (s : Sign) : signOf? (zero s) = some s := by
  simp [signOf?, sign?]

@[simp] theorem signOf?_infinity (s : Sign) : signOf? (infinity s) = some s := by
  simp [signOf?, sign?]

theorem zero_positive : zero .positive = 0 := by decide +kernel

theorem zero_negative : zero .negative = -0 := by decide +kernel

theorem infinity_ne_zero (s : Sign) : infinity s ≠ 0 := by
  cases s <;> decide +kernel

/-- Only the two zeros are equal to zero as numbers. -/
theorem exists_zero_of_beq (h : (v == 0) = true) : ∃ s, v = zero s := by
  obtain ⟨-, -, rfl | ⟨rfl, -⟩ | ⟨rfl, -⟩⟩ := Float.beq_iff_ne_nan_and_eq.1 h
  · exact ⟨.positive, zero_positive.symm⟩
  · exact ⟨.positive, zero_positive.symm⟩
  · exact ⟨.negative, zero_negative.symm⟩

theorem ne_nan_of_isFinite (h : v.isFinite = true) : v ≠ .nan := by
  rintro rfl
  cases h

/-! ### Sums -/

theorem unpack_add (a b : Float) : (a + b).toModel.unpack =
    stored (add .binary64 a.toModel.unpack b.toModel.unpack) := rfl

theorem signOf?_eq_sign?_add (a b : Float) :
    signOf? (a + b) = sign? (add .binary64 a.toModel.unpack b.toModel.unpack) := by
  rw [signOf?, unpack_add, sign?_stored]

theorem eq_or_eq_neg (s t : Sign) : t = s ∨ t = -s := by
  cases s <;> cases t <;> first | exact .inl rfl | exact .inr rfl

@[simp] theorem ne_neg (s : Sign) : s ≠ -s := by
  cases s <;> nofun

theorem sign?_normalize (m e : ℤ) (s : Sign) : sign? (UnpackedFloat.normalize .binary64 m e s) =
    some (if m < 0 then .negative else if 0 < m then .positive else s) := by
  rw [UnpackedFloat.normalize]
  rcases lt_trichotomy m 0 with h | rfl | h
  · simp [compare_lt_iff_lt.2 h, UnpackedFloat.round, sign?_round, h]
  · simp [sign?]
  · simp [compare_gt_iff_gt.2 h, UnpackedFloat.round, sign?_round, h, Int.le_of_lt h]

theorem sign?_add_eq_none_iff (u w : UnpackedFloat) : sign? (add .binary64 u w) = none ↔
    u = .notANumber ∨ w = .notANumber ∨ ∃ s, u = .infinity s ∧ w = .infinity (-s) := by
  rcases u with s | _ | s | ⟨s, m, e, hm⟩ <;> rcases w with t | _ | t | ⟨t, n, f, hn⟩
  case infinity.infinity => rcases eq_or_eq_neg s t with rfl | rfl <;> simp [add, sign?]
  case zero.zero => rcases eq_or_eq_neg s t with rfl | rfl <;> simp [add, sign?]
  case finite.finite =>
    rw [add]
    dsimp only
    rw [sign?_normalize]
    simp
  all_goals simp [add, sign?]

/-- A sum is no number if one of the two is none, or if they are opposite infinities. -/
theorem add_eq_nan_iff :
    a + b = .nan ↔ a = .nan ∨ b = .nan ∨ ∃ s, a = infinity s ∧ b = infinity (-s) := by
  simp only [eq_nan_iff, eq_infinity_iff, signOf?_eq_sign?_add, sign?_add_eq_none_iff]
  simp only [signOf?, sign?_eq_none_iff]

theorem add_eq_infinity_or_none {u w : UnpackedFloat} (h : u = .infinity s ∨ w = .infinity s) :
    add .binary64 u w = .infinity s ∨ sign? (add .binary64 u w) = none := by
  rcases h with rfl | rfl
  · rcases w with t | _ | _ | _
    · rcases eq_or_eq_neg s t with rfl | rfl <;> simp [add, sign?]
    · exact .inr rfl
    · exact .inl rfl
    · exact .inl rfl
  · rcases u with t | _ | _ | _
    · rcases eq_or_eq_neg t s with rfl | rfl <;> simp [add, sign?]
    · exact .inr rfl
    · exact .inl rfl
    · exact .inl rfl

/-- An infinity absorbs what it is added to, unless the sum is no number. -/
theorem add_eq_infinity (h : a = infinity s ∨ b = infinity s) (hnumber : a + b ≠ .nan) :
    a + b = infinity s := by
  rw [Ne, eq_nan_iff, signOf?_eq_sign?_add] at hnumber
  rw [eq_infinity_iff, eq_infinity_iff] at h
  rw [eq_infinity_iff, unpack_add, (add_eq_infinity_or_none h).resolve_right hnumber]
  cases s <;> rfl

theorem sign?_add {u w : UnpackedFloat} (hu : sign? u = some s) (hw : sign? w = some s) :
    sign? (add .binary64 u w) = some s := by
  rcases u with _ | _ | _ | ⟨_, m, e, hm⟩ <;> rcases w with _ | _ | _ | ⟨_, n, f, hn⟩ <;>
    cases hu <;> cases hw
  case finite.finite =>
    have hm' : 0 < m <<< (e - min e f).toNat := Nat.shiftLeft_pos_iff.2 hm
    have hn' : 0 < n <<< (f - min e f).toNat := Nat.shiftLeft_pos_iff.2 hn
    rw [add]
    dsimp only [decreaseExponent]
    rw [sign?_normalize]
    generalize m <<< (e - min e f).toNat = m', n <<< (f - min e f).toNat = n' at hm' hn'
    cases s with
    | negative => rw [if_pos (by simp only [Sign.apply]; omega)]
    | positive =>
      rw [if_neg (by simp only [Sign.apply]; omega), if_pos (by simp only [Sign.apply]; omega)]
  all_goals simp [add, sign?]

/-- A sum of one sign has that sign. -/
theorem signOf?_add (ha : signOf? a = some s) (hb : signOf? b = some s) :
    signOf? (a + b) = some s := by
  rw [signOf?_eq_sign?_add]
  exact sign?_add ha hb

/-- The sum from zero on: zero itself has no say in the sign. -/
theorem signOf?_zero_add (hv : signOf? v = some s) : 0 + v = 0 ∨ signOf? (0 + v) = some s := by
  rw [← zero_positive, eq_zero_iff, signOf?_eq_sign?_add, unpack_add, unpack_zero]
  rw [signOf?] at hv
  generalize v.toModel.unpack = u at hv ⊢
  rcases u with _ | _ | t | _
  · exact .inr hv
  · cases hv
  · left
    cases t <;> rfl
  · exact .inr hv

/-! ### Quotients -/

theorem unpack_div (a b : Float) : (a / b).toModel.unpack =
    stored (div .binary64 a.toModel.unpack b.toModel.unpack) := rfl

theorem one_div_zero (s : Sign) : 1 / zero s = infinity s := by
  cases s <;> decide +kernel

/-- The reciprocal of a finite float is a number of the same sign. -/
theorem signOf?_one_div (hv : v.isFinite = true) : signOf? (1 / v) = signOf? v := by
  have hfinite : v.toModel.unpack.isFinite = true := hv
  have hone : (1 : Float).toModel.unpack = .finite .positive (2 ^ 52) (-52) (by decide) := rfl
  have hsign (s : Sign) : .positive / s = s := by cases s <;> rfl
  rw [signOf?, unpack_div, sign?_stored, hone, signOf?]
  cases hu : v.toModel.unpack with
  | notANumber | infinity => simp [hu, UnpackedFloat.isFinite] at hfinite
  | zero s => exact congrArg some (hsign s)
  | finite s m e hm =>
    rw [div]
    dsimp only
    rw [sign?_round, hsign]
    rfl

theorem div_infinity {k : ℤ} (h : Held .positive k v.toModel.unpack) (s : Sign) :
    v / infinity s = zero s := by
  rw [eq_zero_iff, unpack_div, unpack_infinity]
  generalize v.toModel.unpack = u at h ⊢
  cases h with
  | zero => cases s <;> rfl
  | finite =>
    rw [div]
    cases s <;> rfl

theorem div_nan (a : Float) : a / .nan = .nan := by
  rw [eq_nan_iff, signOf?, unpack_div, sign?_stored, unpack_nan]
  cases a.toModel.unpack <;> rfl

end Infinities

end Polish
