/-
Module: ImpStack.Proofs.ExactRounding
Purpose: Rounding to doubles depends on the number alone, not on the mantissa and the exponent that
  it is given by, and a number that is a double is rounded to itself; so is a quotient that is one.
Main exports: dyadic, Wide, roundWithAccuracy_congr, roundWithAccuracy_canonical, div_exact
-/
import ImpStack.Proofs.DoubleParts

namespace ImpStack

open Float.Model (UnpackedFloat Format totalExponent)
open Float.Model.UnpackedFloat (ExtendedMantissa Accuracy)

variable {m m' : ℕ} {e e' : ℤ}

/-! ### Numbers with a power of two

The same number has many mantissas and exponents; of two of them one is a shift of the other. The
total exponent says between which powers of two the number lies and is the same for all of them. -/

/-- The number with a mantissa and an exponent. -/
def dyadic (m : ℕ) (e : ℤ) : ℚ := m * 2 ^ e

theorem two_zpow_pos (e : ℤ) : (0 : ℚ) < 2 ^ e := zpow_pos zero_lt_two e

/-- Numbers are multiplied by multiplying mantissas and adding exponents. -/
theorem dyadic_mul (m n : ℕ) (e f : ℤ) : dyadic m e * dyadic n f = dyadic (m * n) (e + f) := by
  rw [dyadic, dyadic, dyadic, zpow_add₀ two_ne_zero, Nat.cast_mul]
  ring

theorem dyadic_zero (m : ℕ) : dyadic m 0 = m := by rw [dyadic, zpow_zero, mul_one]

/-- A shift of the mantissa that the exponent makes up for leaves the number as it is. -/
theorem dyadic_shiftLeft (m k : ℕ) (e : ℤ) : dyadic (m <<< k) (e - k) = dyadic m e := by
  rw [dyadic, dyadic, Nat.shiftLeft_eq, Nat.cast_mul, Nat.cast_pow, Nat.cast_ofNat, mul_assoc,
    ← zpow_natCast, ← zpow_add₀ two_ne_zero, add_sub_cancel]

theorem dyadic_pos (pos : 0 < m) (e : ℤ) : 0 < dyadic m e :=
  mul_pos (Nat.cast_pos.2 pos) (two_zpow_pos e)

/-- Of two forms of a number the one with the smaller exponent is the other one, shifted. -/
theorem eq_shiftLeft_of_dyadic (le : e' ≤ e) (same : dyadic m' e' = dyadic m e) :
    m' = m <<< (e - e').toNat := by
  have exponent : e - ((e - e').toNat : ℤ) = e' := by omega
  have shifted := dyadic_shiftLeft m (e - e').toNat e
  rw [exponent, ← same] at shifted
  have cancelled := mul_right_cancel₀ (two_zpow_pos e').ne' shifted
  exact (Nat.cast_injective cancelled).symm

/-- A number lies between the powers of two that its total exponent names. -/
theorem dyadic_bounds (pos : 0 < m) (e : ℤ) :
    2 ^ (totalExponent m e - 1) ≤ dyadic m e ∧ dyadic m e < 2 ^ totalExponent m e := by
  have low : ((2 ^ m.log2 : ℕ) : ℚ) ≤ m := Nat.cast_le.2 (Nat.log2_self_le pos.ne')
  have high : (m : ℚ) < (2 ^ (m.log2 + 1) : ℕ) := Nat.cast_lt.2 Nat.lt_log2_self
  have below : totalExponent m e - 1 = (m.log2 : ℤ) + e := by
    rw [totalExponent]
    omega
  have above : totalExponent m e = ((m.log2 + 1 : ℕ) : ℤ) + e := rfl
  rw [below, above, dyadic, zpow_add₀ two_ne_zero, zpow_add₀ two_ne_zero, zpow_natCast,
    zpow_natCast]
  rw [Nat.cast_pow, Nat.cast_ofNat] at low high
  exact ⟨mul_le_mul_of_nonneg_right low (two_zpow_pos e).le,
    mul_lt_mul_of_pos_right high (two_zpow_pos e)⟩

/-- A quotient has as many bits as the operands' difference says, or one less. -/
theorem totalExponent_sub_le {n : ℕ} {f : ℤ} {q : ℕ} {g : ℤ} (pos : 0 < m) (pos' : 0 < n)
    (pos'' : 0 < q) (quotient : dyadic m e = dyadic q g * dyadic n f) :
    totalExponent m e - totalExponent n f ≤ totalExponent q g := by
  have low := (dyadic_bounds pos e).1
  have high : dyadic q g * dyadic n f < 2 ^ totalExponent q g * 2 ^ totalExponent n f :=
    mul_lt_mul'' (dyadic_bounds pos'' g).2 (dyadic_bounds pos' f).2 (dyadic_pos pos'' g).le
      (dyadic_pos pos' f).le
  rw [quotient] at low
  have less := lt_of_le_of_lt low high
  rw [← zpow_add₀ two_ne_zero, zpow_lt_zpow_iff_right₀ one_lt_two] at less
  omega

/-- A shift does not change the total exponent. -/
theorem totalExponent_shiftLeft (pos : 0 < m) (k : ℕ) (e : ℤ) :
    totalExponent (m <<< k) (e - k) = totalExponent m e := by
  rw [totalExponent, totalExponent, log2_shiftLeft pos]
  omega

/-! ### Rounding

Rounding shifts the mantissa to the exponent that the result gets. As long as that does not have to
make up bits, the result depends on the number alone, and a canonical mantissa is not shifted at
all. -/

/-- Residual bits that are put behind a mantissa and taken away again leave no trace. -/
theorem shiftLeft_shiftRight_exact (m k : ℕ) :
    ExtendedMantissa.ofMantissaAndAccuracy (m <<< k) .exact >>> k =
      ExtendedMantissa.ofMantissaAndAccuracy m .exact := by
  induction k generalizing m with
  | zero => rfl
  | succ k ih =>
      have double : m <<< (k + 1) = (2 * m) <<< k := by
        rw [Nat.shiftLeft_eq, Nat.shiftLeft_eq, Nat.pow_succ]
        ring
      have whole : 2 * m / 2 = m := by omega
      have even : 2 * m % 2 = 0 := by omega
      show (ExtendedMantissa.ofMantissaAndAccuracy (m <<< (k + 1)) .exact >>> k).shiftRightOne = _
      rw [double, ih]
      simp only [ExtendedMantissa.ofMantissaAndAccuracy, ExtendedMantissa.shiftRightOne, whole,
        even]
      rfl

/-- Two shifts, with the bits they lose, are one. -/
theorem extended_shiftRight_add (em : ExtendedMantissa) (a b : ℕ) :
    em >>> (a + b) = (em >>> a) >>> b := by
  induction b with
  | zero => rfl
  | succ b ih => exact congrArg ExtendedMantissa.shiftRightOne ih

/-- A mantissa that has all the bits that rounding to doubles keeps, and an exponent. -/
structure Wide (m : ℕ) (e : ℤ) : Prop where
  pos : 0 < m
  below : e ≤ Format.binary64.targetExponent (totalExponent m e)

/-- A mantissa of 53 bits or more is wide enough, whatever its exponent is. -/
theorem wide_of_le (le : 2 ^ 52 ≤ m) (e : ℤ) : Wide m e := by
  have pos : 0 < m := lt_of_lt_of_le (by decide) le
  have bits := (Nat.le_log2 pos.ne').2 le
  refine ⟨pos, ?_⟩
  simp only [Format.targetExponent, totalExponent, Format.mantissaBits, Format.minExponent]
  omega

/-- A canonical number is rounded to the exponent that it has. -/
theorem Canonical.targetExponent (h : Canonical m e) :
    Format.binary64.targetExponent (totalExponent m e) = e := by
  have bits : m.log2 < 53 := (Nat.log2_lt h.pos.ne').2 h.high
  have least := h.least
  simp only [Format.targetExponent, totalExponent, Format.mantissaBits, Format.minExponent]
  rcases h.normal with normal | rfl
  · have full := (Nat.le_log2 h.pos.ne').2 normal
    omega
  · omega

/-- Shifting a wide mantissa first does not change what it is shifted to. -/
theorem shiftToTargetExponent_shiftLeft (wide : Wide m e) (k : ℕ) :
    UnpackedFloat.shiftToTargetExponent .binary64 (m <<< k) (e - k) .exact =
      UnpackedFloat.shiftToTargetExponent .binary64 m e .exact := by
  obtain ⟨pos, below⟩ := wide
  obtain ⟨n, amount⟩ := Int.le.dest below
  have short : (e + n - e).toNat = n := by omega
  have long : (e + n - (e - k)).toNat = k + n := by omega
  rw [UnpackedFloat.shiftToTargetExponent, UnpackedFloat.shiftToTargetExponent,
    totalExponent_shiftLeft pos, UnpackedFloat.shiftToExponent, UnpackedFloat.shiftToExponent,
    ← amount, short, long, extended_shiftRight_add, shiftLeft_shiftRight_exact]
  exact Prod.ext rfl (by omega)

/-- Rounding a number does not depend on the mantissa and the exponent that it is given by. -/
theorem roundWithAccuracy_congr (sign : UnpackedFloat.Sign) (wide : Wide m e) (le : e' ≤ e)
    (same : dyadic m' e' = dyadic m e) :
    UnpackedFloat.roundWithAccuracy .binary64 sign m' e' .exact =
      UnpackedFloat.roundWithAccuracy .binary64 sign m e .exact := by
  have exponent : e' = e - ((e - e').toNat : ℤ) := by omega
  have shifted := shiftToTargetExponent_shiftLeft wide (e - e').toNat
  rw [← exponent, ← eq_shiftLeft_of_dyadic le same] at shifted
  rw [UnpackedFloat.roundWithAccuracy, UnpackedFloat.roundWithAccuracy, shifted]

/-- A number that a double has is rounded to that double. -/
theorem roundWithAccuracy_canonical (sign : UnpackedFloat.Sign) (h : Canonical m e) (le : e' ≤ e)
    (same : dyadic m' e' = dyadic m e) :
    UnpackedFloat.roundWithAccuracy .binary64 sign m' e' .exact = .finite sign m e h.pos := by
  have kept : UnpackedFloat.shiftToTargetExponent .binary64 m e .exact =
      (⟨m, false, false⟩, e) := by
    have amount : (e - e).toNat = 0 := by omega
    rw [UnpackedFloat.shiftToTargetExponent, h.targetExponent, UnpackedFloat.shiftToExponent,
      amount]
    exact Prod.ext rfl (by omega)
  have rounded : (⟨m, false, false⟩ : ExtendedMantissa).roundedMantissa = m := rfl
  rw [roundWithAccuracy_congr sign ⟨h.pos, h.targetExponent.ge⟩ le same]
  simp only [UnpackedFloat.roundWithAccuracy, kept, rounded, dif_neg h.pos.ne']

/-! ### Quotients

Division computes a quotient of integers with enough bits and remembers whether something is left
over. If the quotient of the numbers is a double, nothing is left over and the rounding is exact. -/

/-- A quotient that has a mantissa and an exponent is the quotient of the mantissas, shifted so that
    nothing remains. -/
theorem div_exact {m₁ m₂ : ℕ} {e₁ e₂ : ℤ} (pos₁ : 0 < m₁) (pos₂ : 0 < m₂) (wide : Wide m e)
    (quotient : dyadic m₁ e₁ = dyadic m e * dyadic m₂ e₂)
    (low : min (e₁ - e₂) (Format.binary64.targetExponent (totalExponent m e)) ≤ e) :
    UnpackedFloat.div .binary64 (.finite .positive m₁ e₁ pos₁) (.finite .positive m₂ e₂ pos₂) =
      UnpackedFloat.roundWithAccuracy .binary64 .positive m e .exact := by
  have bits := totalExponent_sub_le pos₁ pos₂ wide.pos quotient
  obtain ⟨t, target⟩ : ∃ t, min (e₁ - e₂)
      (Format.binary64.targetExponent (totalExponent m₁ e₁ - totalExponent m₂ e₂)) = t := ⟨_, rfl⟩
  have le_shift : t ≤ e₁ - e₂ := target ▸ min_le_left _ _
  have le : t ≤ e := by
    refine le_trans (target ▸ min_le_min_left _ ?_) low
    simp only [Format.targetExponent]
    omega
  -- After the shift the divisor's mantissa divides the dividend's.
  have shifted : dyadic (m₁ <<< (e₁ - e₂ - t).toNat) (t + e₂) =
      dyadic (m <<< (e - t).toNat * m₂) (t + e₂) := by
    have first := dyadic_shiftLeft m₁ (e₁ - e₂ - t).toNat e₁
    have second := dyadic_shiftLeft m (e - t).toNat e
    have exponent₁ : e₁ - ((e₁ - e₂ - t).toNat : ℤ) = t + e₂ := by omega
    have exponent₂ : e - ((e - t).toNat : ℤ) = t := by omega
    rw [exponent₁] at first
    rw [exponent₂] at second
    rw [first, quotient, ← second, dyadic_mul]
  have exact : m₁ <<< (e₁ - e₂ - t).toNat = m <<< (e - t).toNat * m₂ :=
    Nat.cast_injective (mul_right_cancel₀ (two_zpow_pos _).ne' shifted)
  have core : UnpackedFloat.divCore .binary64 m₁ e₁ m₂ e₂ =
      (m <<< (e - t).toNat, t, .exact) := by
    simp only [UnpackedFloat.divCore, target, exact, Nat.mul_div_cancel _ pos₂,
      Nat.mul_mod_left]
    rfl
  have same : dyadic (m <<< (e - t).toNat) t = dyadic m e := by
    have exponent : e - ((e - t).toNat : ℤ) = t := by omega
    rw [← dyadic_shiftLeft m (e - t).toNat e, exponent]
  simp only [UnpackedFloat.div, core]
  exact roundWithAccuracy_congr .positive wide le same

end ImpStack
