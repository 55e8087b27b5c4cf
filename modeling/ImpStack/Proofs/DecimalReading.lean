/-
Module: ImpStack.Proofs.DecimalReading
Purpose: Reading decimals as doubles is exact where it can be. A decimal that is a double's number
  is read as that double, and a whole decimal is read as the same double with and without a zero
  behind the point.
Main exports: toFloat_quotient, toFloat_product, toFloat_canonical, toFloat_pointZero
-/
import ImpStack.Decimal.Scientific
import ImpStack.Proofs.ExactRounding

namespace ImpStack

open Float.Model (UnpackedFloat Format totalExponent)
open Decimal

variable {m n : ℕ} {e : ℤ}

/-! ### Whole numbers and powers of ten as doubles

Natural numbers below 2^53 are doubles exactly, and so are the powers of ten up to 10^22, which are
kept in a table. If the digits of a decimal and its power of ten are among these, then the only
inexact step of reading it is one product or quotient of doubles. -/

/-- Shifted by what its bits leave free, a small number has exactly the 53 bits of a mantissa. -/
theorem shiftLeft_bounds (pos : 0 < n) (small : n < 2 ^ 53) :
    2 ^ 52 ≤ n <<< (52 - n.log2) ∧ n <<< (52 - n.log2) < 2 ^ 53 := by
  have bits : n.log2 < 53 := (Nat.log2_lt pos.ne').2 small
  have whole : n.log2 - 52 = 0 := by omega
  have bounds := scaled_bounds pos
  rwa [whole, Nat.pow_zero, Nat.div_one] at bounds

/-- A small number, shifted to 53 bits, is the mantissa of a double. -/
theorem canonical_shiftLeft {j : ℤ} (pos : 0 < n) (small : n < 2 ^ 53) (low : 0 ≤ j)
    (high : j ≤ 900) : Canonical (n <<< (52 - n.log2)) (j - (52 - n.log2 : ℕ)) := by
  obtain ⟨lower, upper⟩ := shiftLeft_bounds pos small
  exact ⟨lt_of_lt_of_le (by decide) lower, upper, by omega, by omega, Or.inl lower⟩

/-- A double is a number exactly, with all the bits that its mantissa can have. -/
def HoldsExactly (x : Float) (q : ℚ) : Prop :=
  ∃ (m : ℕ) (e : ℤ) (pos : 0 < m), x.toModel.unpack = .finite .positive m e pos ∧
    dyadic m e = q ∧ 2 ^ 52 ≤ m

/-- A number of at most 53 bits, times a power of two, is a double. -/
theorem holdsExactly_round {j : ℤ} (pos : 0 < n) (small : n < 2 ^ 53) (low : 0 ≤ j)
    (high : j ≤ 900) :
    HoldsExactly (.ofModel (.pack (.round .binary64 .positive n j))) (dyadic n j) := by
  have canonical := canonical_shiftLeft pos small low high
  have target := canonical.targetExponent
  rw [totalExponent_shiftLeft pos] at target
  have amount : (j - (j - ((52 - n.log2 : ℕ) : ℤ))).toNat = 52 - n.log2 := by omega
  refine ⟨_, _, canonical.pos, ?_, dyadic_shiftLeft n _ j, (shiftLeft_bounds pos small).1⟩
  rw [← unpack_pack_canonical .positive canonical,
    ← roundWithAccuracy_canonical .positive canonical le_rfl rfl]
  simp only [UnpackedFloat.round, target, UnpackedFloat.decreaseExponent, amount]

/-- The double of a natural number below 2^53 is that number exactly. -/
theorem holdsExactly_natural (pos : 0 < n) (small : n < 2 ^ 53) :
    HoldsExactly n.toUInt64.toFloat n := by
  have kept : (n.toUInt64.toNat : ℤ) = n := congrArg Nat.cast (Nat.mod_eq_of_lt (by omega))
  have positive : compare (n : ℤ) 0 = .gt := Int.compare_eq_gt.2 (by omega)
  have rounded : n.toUInt64.toFloat = .ofModel (.pack (.round .binary64 .positive n 0)) := by
    show Float.ofModel (.pack (.ofInt .binary64 n.toUInt64.toNat)) = _
    simp only [kept, UnpackedFloat.ofInt, UnpackedFloat.normalize, positive, Int.toNat_natCast]
  rw [rounded, ← dyadic_zero]
  exact holdsExactly_round pos small le_rfl (by decide)

/-- The power of ten that is read from the table of those that are doubles. -/
def tabledPower (k : Fin 23) : Float := Float.exactlyRepresentablePowersOfTen[k]

/-- A power of ten is a power of five times a power of two. -/
theorem tabledPower_eq : ∀ k : Fin 23, tabledPower k =
    .ofModel (.pack (.round .binary64 .positive (5 ^ k.val) k.val)) := by
  decide +kernel

/-- The powers of ten in the table are exact. -/
theorem holdsExactly_tabledPower (k : Fin 23) : HoldsExactly (tabledPower k) (10 ^ k.val) := by
  have five : 5 ^ k.val < 2 ^ 53 :=
    lt_of_le_of_lt (Nat.pow_le_pow_right (by decide) (Nat.le_of_lt_succ k.isLt)) (by decide)
  have power : (10 : ℚ) ^ k.val = dyadic (5 ^ k.val) k.val := by
    rw [dyadic, zpow_natCast, Nat.cast_pow, ← mul_pow]
    norm_num
  rw [power, tabledPower_eq k]
  exact holdsExactly_round (Nat.pow_pos (by decide)) five (Int.natCast_nonneg k.val) (by omega)

/-! ### Decimals with a point

A negative exponent means a quotient by a power of ten, which is rounded once: as a quotient of
doubles if both of them are exact, and in integers otherwise. Either way a decimal that is a
double's number is read as that double. -/

/-- Dividing by a power of ten in full rounds the quotient. -/
theorem ofScientific_quotient {d k : ℕ} (pos : 0 < d) (wide : Wide m e)
    (low : min 0 (Format.binary64.targetExponent (totalExponent m e)) ≤ e) (least : 1 ≤ k)
    (greatest : k ≤ 2048) (quotient : (d : ℚ) = dyadic m e * 10 ^ k) :
    UnpackedFloat.ofScientific .binary64 d (-k) =
      .roundWithAccuracy .binary64 .positive m e .exact := by
  have quotient' : dyadic d 0 = dyadic m e * dyadic (10 ^ k) 0 := by
    rw [dyadic_zero, dyadic_zero, quotient, Nat.cast_pow, Nat.cast_ofNat]
  have divided := div_exact pos (Nat.pow_pos (by decide)) wide quotient' low
  have power : (- -(k : ℤ)).toNat = k := by omega
  have exponents : Format.binary64.exponentBits = 11 := rfl
  rw [UnpackedFloat.ofScientific, dif_neg pos.ne', exponents, if_neg (by omega),
    if_neg (by omega), if_neg (by omega)]
  simp only [power, divided]

/-- A decimal with `k` places is rounded as its number is. The mantissa must have all the bits that
    rounding keeps and no more, or be a whole number. -/
theorem toFloat_quotient {d k : ℕ} (wide : Wide m e)
    (tight : Format.binary64.targetExponent (totalExponent m e) ≤ e ∨ 2 ^ 53 ≤ d ∧ 0 ≤ e)
    (least : 1 ≤ k) (greatest : k ≤ 2048) (quotient : (d : ℚ) = dyadic m e * 10 ^ k) :
    (Scientific.mk d (-k)).toFloat =
      .ofModel (.pack (.roundWithAccuracy .binary64 .positive m e .exact)) := by
  have pos : 0 < d := by
    rw [← Nat.cast_pos (α := ℚ), quotient]
    exact mul_pos (dyadic_pos wide.pos e) (pow_pos (by norm_num) k)
  have negative : decide ((-k : ℤ) < 0) = true := decide_eq_true (by omega)
  have places : (-k : ℤ).natAbs = k := by omega
  rw [Scientific.toFloat, negative, places, Float.ofScientific]
  by_cases fast : d < 2 ^ 53 ∧ k ≤ 22
  · obtain ⟨f, g, positive, dividend, value, -⟩ := holdsExactly_natural pos fast.1
    obtain ⟨f', g', positive', divisor, value', -⟩ :=
      holdsExactly_tabledPower ⟨k, Nat.lt_succ_of_le fast.2⟩
    have divided := div_exact positive positive' wide (by rw [value, value', quotient])
      (le_trans (min_le_right _ _) (tight.resolve_right fun large => absurd fast.1 (by omega)))
    rw [dif_pos fast]
    show Float.ofModel (.pack (.div .binary64 d.toUInt64.toFloat.toModel.unpack
      (tabledPower ⟨k, Nat.lt_succ_of_le fast.2⟩).toModel.unpack)) = _
    rw [dividend, divisor, divided]
  · have low : min 0 (Format.binary64.targetExponent (totalExponent m e)) ≤ e :=
      tight.elim (le_trans (min_le_right _ _)) fun large => le_trans (min_le_left _ _) large.2
    rw [dif_neg fast, ← ofScientific_quotient pos wide low least greatest quotient]
    rfl

/-- The quotient of a decimal that has places is a double: it is read as this double. -/
theorem toFloat_canonical {d k : ℕ} (canonical : Canonical m e) (least : 1 ≤ k)
    (greatest : k ≤ 2048) (quotient : (d : ℚ) = dyadic m e * 10 ^ k) :
    (Scientific.mk d (-k)).toFloat = .ofModel (.pack (.finite .positive m e canonical.pos)) := by
  rw [toFloat_quotient ⟨canonical.pos, canonical.targetExponent.ge⟩
    (Or.inl canonical.targetExponent.le) least greatest quotient,
    roundWithAccuracy_canonical .positive canonical le_rfl rfl]

/-! ### Whole decimals

A whole number reads the same with a point and a zero behind it: one spelling has more digits and a
smaller exponent than the other. Both come to one rounding, since rounding depends on the number and
not on the mantissa and exponent that stand for it. -/

/-- How a number is split into mantissa and exponent makes no difference to its rounding, as long as
    the mantissa has enough bits. -/
theorem roundWithAccuracy_unique {m' : ℕ} {e' : ℤ} (wide : Wide m e) (wide' : Wide m' e')
    (same : dyadic m e = dyadic m' e') :
    UnpackedFloat.roundWithAccuracy .binary64 .positive m e .exact =
      UnpackedFloat.roundWithAccuracy .binary64 .positive m' e' .exact := by
  rcases le_total e e' with le | le
  · exact roundWithAccuracy_congr .positive wide' le same
  · exact (roundWithAccuracy_congr .positive wide le same.symm).symm

/-- A decimal of digits `d` and exponent `k` that is not negative is read like the literal of both.
    -/
theorem toFloat_natural (d k : ℕ) :
    (Scientific.mk d k).toFloat = Float.ofScientific d false k := by
  have nonnegative : decide ((k : ℤ) < 0) = false := decide_eq_false (by omega)
  rw [Scientific.toFloat, nonnegative, Int.natAbs_natCast]

/-- Multiplying with a power of ten in full rounds the product. -/
theorem ofScientific_product {d k : ℕ} (pos : 0 < d) (wide : Wide m e) (greatest : k ≤ 2048)
    (product : dyadic m e = d * 10 ^ k) :
    UnpackedFloat.ofScientific .binary64 d k =
      .roundWithAccuracy .binary64 .positive m e .exact := by
  have bits : 2 ^ 52 ≤ d <<< 53 := by
    rw [Nat.shiftLeft_eq]
    omega
  have ten : 0 < 10 ^ k := Nat.pow_pos (by decide)
  have wide' := wide_of_le (le_trans bits (Nat.le_mul_of_pos_right (d <<< 53) ten)) (-53 + 0)
  have factor : dyadic (d <<< 53) (-53) = d := by
    rw [← dyadic_zero d, ← dyadic_shiftLeft d 53 0]
    rfl
  have exponents : Format.binary64.exponentBits = 11 := rfl
  rw [UnpackedFloat.ofScientific, dif_neg pos.ne', exponents, if_neg (by omega),
    if_neg (by omega), if_pos (by omega), roundWithAccuracy_unique wide wide'
    (by rw [← dyadic_mul, factor, dyadic_zero, product, Nat.cast_pow, Nat.cast_ofNat])]
  rfl

/-- A decimal without places is rounded as its number is. -/
theorem toFloat_product {d k : ℕ} (wide : Wide m e) (greatest : k ≤ 2048)
    (product : dyadic m e = d * 10 ^ k) :
    (Scientific.mk d k).toFloat =
      .ofModel (.pack (.roundWithAccuracy .binary64 .positive m e .exact)) := by
  have pos : 0 < d := by
    apply Nat.pos_of_ne_zero
    rintro rfl
    rw [Nat.cast_zero, zero_mul] at product
    exact (dyadic_pos wide.pos e).ne' product
  rw [toFloat_natural, Float.ofScientific]
  by_cases fast : d < 2 ^ 53 ∧ k ≤ 22
  · obtain ⟨f, g, positive, factor, value, bits⟩ := holdsExactly_natural pos fast.1
    obtain ⟨f', g', positive', factor', value', -⟩ :=
      holdsExactly_tabledPower ⟨k, Nat.lt_succ_of_le fast.2⟩
    have wide' := wide_of_le (le_trans bits (Nat.le_mul_of_pos_right f positive')) (g + g')
    rw [dif_pos fast]
    show Float.ofModel (.pack (.mul .binary64 d.toUInt64.toFloat.toModel.unpack
      (tabledPower ⟨k, Nat.lt_succ_of_le fast.2⟩).toModel.unpack)) = _
    rw [factor, factor', roundWithAccuracy_unique wide wide'
      (by rw [← dyadic_mul, value, value', product])]
    rfl
  · rw [dif_neg fast, ← ofScientific_product pos wide greatest product]
    rfl

/-- A natural number has a split into mantissa and exponent with enough bits for a rounding that
    loses none of them. -/
theorem exists_tight (pos : 0 < n) : ∃ m e, Wide m e ∧ dyadic m e = n ∧
    (Format.binary64.targetExponent (totalExponent m e) ≤ e ∨ 2 ^ 53 ≤ n ∧ 0 ≤ e) := by
  by_cases small : n < 2 ^ 53
  · have canonical := canonical_shiftLeft pos small le_rfl (by decide)
    have value := (dyadic_shiftLeft n (52 - n.log2) 0).trans (dyadic_zero n)
    exact ⟨_, _, ⟨canonical.pos, canonical.targetExponent.ge⟩, value,
      Or.inl canonical.targetExponent.le⟩
  · exact ⟨n, 0, wide_of_le (by omega) 0, dyadic_zero n, Or.inr ⟨by omega, le_rfl⟩⟩

/-- No digits but zeros are read as zero, whatever the exponent is. -/
theorem toFloat_zero (k : ℕ) :
    (Scientific.mk 0 k).toFloat = .ofModel (.pack (.zero .positive)) := by
  rw [toFloat_natural]
  by_cases fast : k ≤ 22
  · have table : ∀ k : Fin 23,
        Float.ofScientific 0 false k = .ofModel (.pack (.zero .positive)) := by
      decide +kernel
    exact table ⟨k, Nat.lt_succ_of_le fast⟩
  · rw [Float.ofScientific, dif_neg (fun both => fast both.2)]
    rfl

/-- A positive number times too great a power of ten is read as infinite. -/
theorem toFloat_infinite {d k : ℕ} (pos : 0 < d) (large : 2048 < k) :
    (Scientific.mk d k).toFloat.isFinite = false := by
  have exponents : Format.binary64.exponentBits = 11 := rfl
  rw [toFloat_natural, Float.ofScientific, dif_neg (fun both => absurd both.2 (by omega))]
  show (Float.ofModel (.pack (.ofScientific .binary64 d k))).isFinite = false
  rw [UnpackedFloat.ofScientific, dif_neg pos.ne', exponents, if_pos (by omega)]
  decide +kernel

/-- A whole decimal and its digits in full with a zero behind the point are read as the same
    double, unless it is infinite. -/
theorem toFloat_pointZero {d k : ℕ} (finite : (Scientific.mk d k).toFloat.isFinite = true) :
    (Scientific.mk (d * 10 ^ (k + 1)) (-1)).toFloat = (Scientific.mk d k).toFloat := by
  rcases Nat.eq_zero_or_pos d with rfl | pos
  · rw [toFloat_zero, Nat.zero_mul]
    decide +kernel
  · have greatest : k ≤ 2048 := by
      by_contra large
      rw [toFloat_infinite pos (not_le.1 large)] at finite
      cases finite
    have ten : 0 < 10 ^ k := Nat.pow_pos (by decide)
    obtain ⟨m, e, wide, value, tight⟩ := exists_tight (Nat.mul_pos pos ten)
    rw [Nat.cast_mul, Nat.cast_pow, Nat.cast_ofNat] at value
    rw [toFloat_product wide greatest value]
    refine toFloat_quotient wide (tight.imp_right fun large => ⟨?_, large.2⟩) le_rfl (by decide) ?_
    · exact le_trans large.1 (Nat.mul_le_mul_left d (Nat.pow_le_pow_right (by decide) k.le_succ))
    · rw [value, Nat.cast_mul, Nat.cast_pow, Nat.cast_ofNat, pow_succ, pow_one, mul_assoc]

end ImpStack
