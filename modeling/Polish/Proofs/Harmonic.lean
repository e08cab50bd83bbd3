import Polish.Proofs.Infinities

/-!
The harmonic mean of operands one of which is a zero. The reciprocal of the zero is an infinity, the
sum of the reciprocals stays there, and the count over it is the zero again; unless the sum meets the
opposite infinity, as the reciprocal of a zero of the other sign or of an operand too small to have a
finite one. Main statement: `harmonicMean_of_zero`.

      sum:     0 ──▶ number ──▶ inf ──▶ NaN
                       ↺         ↺       ↺
      reciprocal:    finite    finite   any
                               or inf
-/

namespace Polish

open Float.Model.UnpackedFloat (Sign)

namespace Reduction

open Infinities Rounding

/-- The sum of the reciprocals of the values, added up from zero. -/
def reciprocalSum (values : List Float) : Float :=
  values.foldl (fun total v => total + 1 / v) 0

/-- Values are opposed if the reciprocal of one of them is an infinity, and the reciprocals in front of
it add up to the opposite infinity. -/
def Opposed (values : List Float) : Prop :=
  ∃ before v after s, values = before ++ v :: after ∧
    reciprocalSum before = infinity s ∧ 1 / v = infinity (-s)

variable {values : List Float} {v : Float} {s : Sign}

theorem reciprocalSum_concat (values : List Float) (v : Float) :
    reciprocalSum (values ++ [v]) = reciprocalSum values + 1 / v := by
  rw [reciprocalSum, List.foldl_append]
  rfl

theorem opposed_concat : Opposed (values ++ [v]) ↔
    Opposed values ∨ ∃ s, reciprocalSum values = infinity s ∧ 1 / v = infinity (-s) := by
  constructor
  · rintro ⟨before, w, after, s, hvalues, hsum, hw⟩
    rcases List.eq_nil_or_concat after with rfl | ⟨after, b, rfl⟩
    · obtain ⟨rfl, hlast⟩ := List.append_inj' hvalues rfl
      cases hlast
      exact .inr ⟨s, hsum, hw⟩
    · have hsplit : values ++ [v] = (before ++ w :: after) ++ [b] := by simp [hvalues]
      obtain ⟨rfl, -⟩ := List.append_inj' hsplit rfl
      exact .inl ⟨before, w, after, s, rfl, hsum, hw⟩
  · rintro (⟨before, w, after, s, rfl, hsum, hw⟩ | ⟨s, hsum, hv⟩)
    · exact ⟨before, w, after ++ [v], s, by simp, hsum, hw⟩
    · exact ⟨values, v, [], s, rfl, hsum, hv⟩

theorem one_div_ne_nan (hv : v.isFinite = true) : 1 / v ≠ .nan := by
  rw [Ne, eq_nan_iff, signOf?_one_div hv, ← eq_nan_iff]
  exact ne_nan_of_isFinite hv

/-- Reciprocals of finite values have a sum but if the values are opposed. -/
theorem reciprocalSum_eq_nan_iff (hfinite : ∀ v ∈ values, v.isFinite = true) :
    reciprocalSum values = .nan ↔ Opposed values := by
  induction values using List.reverseRecOn with
  | nil =>
    constructor
    · intro hnan
      exact absurd hnan (by decide +kernel)
    · rintro ⟨before, v, after, s, hvalues, -⟩
      simp at hvalues
  | append_singleton values v ih =>
    have hbefore : ∀ w ∈ values, w.isFinite = true := fun w hw => hfinite w (by simp [hw])
    have hnumber := one_div_ne_nan (hfinite v (by simp))
    rw [reciprocalSum_concat, add_eq_nan_iff, opposed_concat, ih hbefore]
    simp [hnumber]

/-- From the first zero on the sum of the reciprocals is an infinity. -/
theorem reciprocalSum_of_zero (hmem : zero s ∈ values)
    (hnumber : reciprocalSum values ≠ .nan) : reciprocalSum values = infinity s := by
  induction values using List.reverseRecOn with
  | nil => simp at hmem
  | append_singleton values v ih =>
    rw [reciprocalSum_concat] at hnumber ⊢
    rcases List.mem_append.1 hmem with hbefore | hlast
    · have hsum : reciprocalSum values ≠ .nan := by
        intro hnan
        exact hnumber (add_eq_nan_iff.2 (.inl hnan))
      exact add_eq_infinity (.inl (ih hbefore hsum)) hnumber
    · obtain rfl := List.mem_singleton.1 hlast
      exact add_eq_infinity (.inr (one_div_zero s)) hnumber

theorem reciprocalSum_of_not_opposed (hfinite : ∀ v ∈ values, v.isFinite = true)
    (hmem : zero s ∈ values) (hnot : ¬Opposed values) : reciprocalSum values = infinity s := by
  refine reciprocalSum_of_zero hmem ?_
  rw [Ne, reciprocalSum_eq_nan_iff hfinite]
  exact hnot

/-- Reciprocals of one sign add up to that sign, or have not got away from zero. -/
theorem signOf?_reciprocalSum (hfinite : ∀ v ∈ values, v.isFinite = true)
    (hsign : ∀ v ∈ values, signOf? v = some s) :
    reciprocalSum values = 0 ∨ signOf? (reciprocalSum values) = some s := by
  induction values using List.reverseRecOn with
  | nil => exact .inl rfl
  | append_singleton values v ih =>
    have hv : signOf? (1 / v) = some s := by
      rw [signOf?_one_div (hfinite v (by simp)), hsign v (by simp)]
    have hbefore := ih (fun w hw => hfinite w (by simp [hw])) (fun w hw => hsign w (by simp [hw]))
    rw [reciprocalSum_concat]
    rcases hbefore with hsum | hsum
    · rw [hsum]
      exact signOf?_zero_add hv
    · exact .inr (signOf?_add hsum hv)

theorem not_opposed_of_sign (hfinite : ∀ v ∈ values, v.isFinite = true)
    (hsign : ∀ v ∈ values, signOf? v = some s) : ¬Opposed values := by
  rintro ⟨before, v, after, t, rfl, hsum, hv⟩
  have hs : signOf? (1 / v) = some s := by
    rw [signOf?_one_div (hfinite v (by simp)), hsign v (by simp)]
  rw [hv, signOf?_infinity] at hs
  cases hs
  have hbefore : reciprocalSum before = 0 ∨ signOf? (reciprocalSum before) = some (-t) :=
    signOf?_reciprocalSum (fun w hw => hfinite w (by simp [hw])) fun w hw => hsign w (by simp [hw])
  rw [hsum] at hbefore
  rcases hbefore with hzero | hsame
  · exact infinity_ne_zero t hzero
  · rw [signOf?_infinity, Option.some.injEq] at hsame
    exact ne_neg t hsame

/-- Zeros of two signs ask for two infinities. -/
theorem opposed_of_zeros {t : Sign} (hfinite : ∀ v ∈ values, v.isFinite = true)
    (hs : zero s ∈ values) (ht : zero t ∈ values) (hne : zero t ≠ zero s) : Opposed values := by
  by_contra hnot
  have hsame : signOf? (infinity t) = signOf? (infinity s) := by
    rw [← reciprocalSum_of_not_opposed hfinite hs hnot,
      ← reciprocalSum_of_not_opposed hfinite ht hnot]
  rw [signOf?_infinity, signOf?_infinity, Option.some.injEq] at hsame
  exact hne (congrArg zero hsame)

/-- The harmonic mean of fewer than `2 ^ 1023` finite operands with a zero among them is that zero, and
no number if the operands are opposed. They are not opposed if all of them have the sign of the zero,
and they are if the other zero is among them too. -/
theorem harmonicMean_of_zero {values : List Float} {z : Float}
    (hfinite : ∀ v ∈ values, v.isFinite = true) (hmem : z ∈ values) (hzero : (z == 0) = true)
    (hlength : values.length < 2 ^ 1023) :
    ∃ m, Operator.harmonicMean.reduce? values = some m ∧ (¬Opposed values → m = z) ∧
      (Opposed values → m = .nan) ∧
        ((∀ v ∈ values, signOf? v = signOf? z) → ¬Opposed values) ∧
          ∀ v ∈ values, (v == 0) = true → v ≠ z → Opposed values := by
  obtain ⟨s, rfl⟩ := exists_zero_of_beq hzero
  have hmean : harmonicMean values = count values / reciprocalSum values := rfl
  refine ⟨harmonicMean values, rfl, fun hnot => ?_, fun hopposed => ?_, fun hsign => ?_,
    fun v hv hv0 hne => ?_⟩
  · have hcount := held_ofNat (List.length_pos_of_mem hmem) (Nat.le_refl 1023) hlength
    rw [hmean, reciprocalSum_of_not_opposed hfinite hmem hnot, count, div_infinity hcount]
  · rw [hmean, (reciprocalSum_eq_nan_iff hfinite).2 hopposed, div_nan]
  · rw [signOf?_zero] at hsign
    exact not_opposed_of_sign hfinite hsign
  · obtain ⟨t, rfl⟩ := exists_zero_of_beq hv0
    exact opposed_of_zeros hfinite hmem hv hne

/-- Two, the negative zero, and the negative operand nearest to it, whose reciprocal overflows. -/
theorem harmonicMean_of_negative_zero :
    let negativeZero := Float.ofBits 0x8000000000000000
    let values := [2, negativeZero, Float.ofBits 0x8000000000000001]
    ¬Opposed values ∧ Operator.harmonicMean.reduce? values = some negativeZero := by
  intro negativeZero values
  have hmean : harmonicMean values = negativeZero := by decide +kernel
  have hfinite : ∀ v ∈ values, v.isFinite = true := by decide +kernel
  have hmem : negativeZero ∈ values := by simp [values]
  have hzero : (negativeZero == 0) = true := by decide +kernel
  have hlength : values.length < 2 ^ 1023 := by decide +kernel
  obtain ⟨m, hm, -, hnan, -⟩ := harmonicMean_of_zero hfinite hmem hzero hlength
  rw [Operator.reduce?, hmean] at hm
  cases hm
  have hnot : ¬Opposed values := fun hopposed => absurd (hnan hopposed) (by decide +kernel)
  refine ⟨hnot, ?_⟩
  rw [Operator.reduce?, hmean]

/-- The mean of the two zeros is no number, and so it is no zero. -/
theorem harmonicMean_of_opposite_zeros :
    let values := [Float.ofBits 0, Float.ofBits 0x8000000000000000]
    (∀ v ∈ values, v.isFinite = true ∧ (v == 0) = true) ∧
      Operator.harmonicMean.reduce? values = some .nan ∧ (Float.nan == 0) = false := by
  intro values
  refine ⟨?_, ?_, Float.nan_beq_eq_false 0⟩
  · decide +kernel
  · have hmean : harmonicMean values = .nan := by decide +kernel
    rw [Operator.reduce?, hmean]

end Reduction

end Polish
