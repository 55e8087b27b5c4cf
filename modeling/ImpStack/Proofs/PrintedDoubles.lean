/-
Module: ImpStack.Proofs.PrintedDoubles
Purpose: A finite double is printed with as many digits as it takes to read it back: the numeral
  that is printed denotes exactly this double, the sign of a zero included.
Main exports: signed_abs, toFloat_floor, toFloat_shortest, toFloat_finiteNumeral
-/
import ImpStack.Proofs.DecimalReading
import ImpStack.Proofs.PrintedNumerals
import ImpStack.Value.Text

namespace ImpStack

open Float.Model (UnpackedFloat Format)
open Decimal

/-! ### Signs of doubles

Digits are found for the absolute value, and the sign is put in front. The sign of a zero is one of
its bits like any other sign, so taking the absolute value and putting the sign back gives the same
double. -/

section

variable {x : Float}

/-- A double is packed from what it unpacks to. -/
theorem pack_unpack (x : Float) : Float.ofModel (.pack x.toModel.unpack) = x := by
  obtain ⟨⟨⟨bits⟩, valid⟩⟩ := x
  exact congrArg Float.ofModel (Float.Model.mk.injEq .. ▸
    congrArg UInt64.ofBitVec (UnpackedFloat.pack_unpack_of_valid valid))

theorem unpack_abs (finite : x.isFinite = true) :
    x.abs.toModel.unpack = x.toModel.unpack.abs := by
  show (Float.Model.pack x.toModel.unpack.abs).unpack = _
  by_cases zero : mantissa x = 0
  · rw [unpack_of_zero zero]
    exact UnpackedFloat.unpack_packedZero
  · rw [unpack_of_finite finite zero]
    exact unpack_pack_canonical .positive (canonical_parts finite zero)

/-- A finite double is its absolute value with its sign. -/
theorem signed_abs (finite : x.isFinite = true) :
    (if isNegative x then -x.abs else x.abs) = x := by
  have opposite : -x.abs = .ofModel (.pack x.toModel.unpack.abs.neg) := by
    rw [← unpack_abs finite]
    rfl
  have parts : (if isNegative x then x.toModel.unpack.abs.neg else x.toModel.unpack.abs) =
      x.toModel.unpack := by
    by_cases zero : mantissa x = 0
    · rw [unpack_of_zero zero, floatSign]
      split <;> rfl
    · rw [unpack_of_finite finite zero, floatSign]
      split <;> rfl
  have same := pack_unpack x
  rw [← parts] at same
  rw [opposite]
  split at same
  case isTrue negative => rwa [if_pos negative]
  case isFalse positive =>
    rw [if_neg positive]
    exact same

theorem isFinite_abs (finite : x.isFinite = true) : x.abs.isFinite = true := by
  show x.abs.toModel.unpack.isFinite = true
  rw [unpack_abs finite]
  have unpacked : x.toModel.unpack.isFinite = true := finite
  revert unpacked
  cases x.toModel.unpack <;> exact id

/-- What compares equal to the absolute value of a double other than zero is that value. -/
theorem eq_abs_of_beq {y : Float} (finite : x.isFinite = true) (nonzero : mantissa x ≠ 0)
    (equal : (y == x.abs) = true) : y = x.abs := by
  have unpacked := unpack_abs finite
  rw [unpack_of_finite finite nonzero] at unpacked
  obtain ⟨-, -, same | ⟨-, zero⟩ | ⟨-, zero⟩⟩ :=
    (UnpackedFloat.unpack_beq_unpack_iff y.toModel.valid x.abs.toModel.valid).1 equal
  · rw [← pack_unpack y, ← pack_unpack x.abs]
    exact congrArg (fun bits => Float.ofModel (.pack (.unpack .binary64 bits))) same
  all_goals
    rw [Float.Model.unpack, zero, UnpackedFloat.unpack_packedZero] at unpacked
    cases unpacked

end

/-! ### Numerals of doubles

The magnitude of a finite double is a whole number or a fraction over a power of two. Either way
there are digits that are exactly this number, so the search for the shortest digits that read back
always ends in some. -/

section

variable {x : Float}

/-- The absolute value of any zero is the positive zero. -/
theorem abs_of_zero (zero : mantissa x = 0) : x.abs = .ofModel (.pack (.zero .positive)) := by
  show Float.ofModel (.pack x.toModel.unpack.abs) = _
  rw [unpack_of_zero zero]
  rfl

/-- The absolute value of another finite double has its mantissa and its exponent. -/
theorem abs_of_finite (finite : x.isFinite = true) (nonzero : mantissa x ≠ 0) :
    x.abs = .ofModel (.pack (.finite .positive (mantissa x) (binaryExponent x)
      (Nat.pos_of_ne_zero nonzero))) := by
  show Float.ofModel (.pack x.toModel.unpack.abs) = _
  rw [unpack_of_finite finite nonzero]
  rfl

/-- A magnitude is a mantissa times a power of two, or over one. -/
theorem magnitude_cases (x : Float) :
    (∃ k : ℕ, binaryExponent x = k ∧ magnitude x = ⟨mantissa x * 2 ^ k, 1⟩) ∨
      ∃ k : ℕ, 0 < k ∧ binaryExponent x = -k ∧ magnitude x = ⟨mantissa x, 2 ^ k⟩ := by
  rw [magnitude]
  by_cases nonnegative : 0 ≤ binaryExponent x
  · obtain ⟨k, exponent⟩ := Int.eq_ofNat_of_zero_le nonnegative
    exact Or.inl ⟨k, exponent, by rw [if_pos nonnegative, exponent]; rfl⟩
  · obtain ⟨k, exponent⟩ := Int.eq_ofNat_of_zero_le (a := -binaryExponent x) (by omega)
    exact Or.inr ⟨k, by omega, by omega, by rw [if_neg nonnegative, exponent]; rfl⟩

/-- A whole double is its mantissa times its power of two. -/
theorem floor_magnitude (whole : (magnitude x).isWhole = true) :
    ((magnitude x).floor : ℚ) = dyadic (mantissa x) (binaryExponent x) := by
  rcases magnitude_cases x with ⟨k, exponent, same⟩ | ⟨k, -, exponent, same⟩
  · rw [same, exponent, Ratio.floor, Nat.div_one, dyadic, zpow_natCast, Nat.cast_mul, Nat.cast_pow,
      Nat.cast_ofNat]
  · rw [same, Ratio.isWhole, beq_iff_eq] at whole
    rw [same, exponent, Ratio.floor, dyadic, zpow_neg, zpow_natCast, ← div_eq_mul_inv,
      Nat.cast_div (Nat.dvd_of_mod_eq_zero whole) (by positivity), Nat.cast_pow, Nat.cast_ofNat]

/-- A double that is not whole is a fraction. -/
theorem fraction_of_broken (broken : ¬ (magnitude x).isWhole = true) :
    mantissa x ≠ 0 ∧ ∃ k : ℕ, 0 < k ∧ binaryExponent x = -k := by
  rcases magnitude_cases x with ⟨k, -, same⟩ | ⟨k, pos, exponent, same⟩ <;>
    rw [same, Ratio.isWhole, beq_iff_eq] at broken
  · exact absurd (Nat.mod_one _) broken
  · refine ⟨fun zero => broken ?_, k, pos, exponent⟩
    rw [zero]
    exact Nat.zero_mod _

/-- A whole magnitude is read back from its digits. -/
theorem toFloat_floor (finite : x.isFinite = true) (whole : (magnitude x).isWhole = true) :
    (Scientific.mk (magnitude x).floor 0).toFloat = x.abs := by
  have value := floor_magnitude whole
  by_cases zero : mantissa x = 0
  · rw [zero, dyadic, Nat.cast_zero, zero_mul, Nat.cast_eq_zero] at value
    rw [value, abs_of_zero zero]
    exact toFloat_zero 0
  · have canonical := canonical_parts finite zero
    rw [abs_of_finite finite zero, ← roundWithAccuracy_canonical .positive canonical le_rfl rfl]
    refine toFloat_product (k := 0) ⟨canonical.pos, canonical.targetExponent.ge⟩ (by decide) ?_
    rw [value, pow_zero, mul_one]

/-- Another one is read back from all digits behind the point. -/
theorem toFloat_exact (finite : x.isFinite = true) (broken : ¬ (magnitude x).isWhole = true) :
    (exact x).toFloat = x.abs := by
  obtain ⟨nonzero, k, pos, exponent⟩ := fraction_of_broken broken
  have canonical := canonical_parts finite nonzero
  have least := canonical.least
  have digits : exact x = ⟨mantissa x * 5 ^ k, -k⟩ := by
    rw [exact, exponent, if_neg (by omega), Int.neg_neg, Int.toNat_natCast]
    rfl
  rw [digits, abs_of_finite finite nonzero]
  refine toFloat_canonical canonical pos (by omega) ?_
  rw [exponent, dyadic, zpow_neg, zpow_natCast, Nat.cast_mul, Nat.cast_pow, Nat.cast_ofNat,
    mul_assoc, ← inv_pow, ← mul_pow]
  norm_num

/-- Fewer digits are only taken where they read back. -/
theorem toFloat_shortest (finite : x.isFinite = true) (broken : ¬ (magnitude x).isWhole = true) :
    (shortest .up x).toFloat = x.abs := by
  have nonzero := (fraction_of_broken broken).1
  rw [shortest, if_neg nonzero]
  -- if no short decimal reads back, all digits are taken
  cases found : (List.range' 1 17).findSome? (withDigits .up x) with
  | none => exact toFloat_exact finite broken
  | some d =>
      obtain ⟨count, -, shorter⟩ := List.exists_of_findSome?_eq_some found
      rw [withDigits] at shorter
      have reads := List.find?_some shorter
      exact eq_abs_of_beq finite nonzero reads

/-- A zero behind the point does not change what is read. -/
theorem toFloat_pointed {d : Scientific} (finite : d.toFloat.isFinite = true) :
    (pointed d).toFloat = d.toFloat := by
  obtain ⟨digits, exponent⟩ := d
  rw [pointed]
  split
  case isTrue nonnegative =>
    obtain ⟨k, rfl⟩ := Int.eq_ofNat_of_zero_le nonnegative
    exact toFloat_pointZero finite
  case isFalse => rfl

/-- The numeral of a finite double denotes this double. -/
theorem toFloat_finiteNumeral (finite : x.isFinite = true) : (finiteNumeral x).toFloat = x := by
  obtain ⟨d, shown, reads⟩ :
      ∃ d, finiteNumeral x = positional (isNegative x) d ∧ d.toFloat = x.abs := by
    by_cases whole : (magnitude x).isWhole = true
    · exact ⟨_, by rw [finiteNumeral, if_pos whole], toFloat_floor finite whole⟩
    · exact ⟨_, by rw [finiteNumeral, if_neg whole], toFloat_shortest finite whole⟩
  have finite_d : d.toFloat.isFinite = true := reads ▸ isFinite_abs finite
  rw [shown, Numeral.toFloat, isNegative_positional, toScientific_positional,
    toFloat_pointed finite_d, reads, signed_abs finite]

end

end ImpStack
