/-
Module: ImpStack.Proofs.DoubleParts
Purpose: A finite double is its sign, its mantissa and its exponent. The parts that are read off its
  bits are those of its unpacked form, and packing them gives the double back.
Main exports: Canonical, floatSign, unpack_of_zero, unpack_of_finite, unpack_pack_canonical
-/
import ImpStack.Decimal.Magnitude
import ImpStack.Proofs.IntegerRounding

namespace ImpStack

open Float.Model (UnpackedFloat Format)
open Decimal

/-! ### Mantissas and exponents

A finite double other than zero is a mantissa and an exponent that are canonical. They survive
packing into bits and unpacking again; numbers with the least exponent are packed in a form of their
own, so they get a proof of their own. -/

/-- A mantissa and an exponent that a finite double has: 53 bits, or fewer with the least
    exponent. -/
structure Canonical (m : ℕ) (e : ℤ) : Prop where
  pos : 0 < m
  high : m < 2 ^ 53
  least : -1074 ≤ e
  greatest : e ≤ 971
  normal : 2 ^ 52 ≤ m ∨ e = -1074

/-- Packing a number with the least exponent and unpacking it gives the same number. -/
theorem unpack_pack_subnormal (sign : UnpackedFloat.Sign) {m : ℕ} (pos : 0 < m)
    (high : m < 2 ^ 52) :
    (Float.Model.pack (.finite sign m (-1074) pos)).unpack = .finite sign m (-1074) pos := by
  have bits : m.log2 < 52 := (Nat.log2_lt pos.ne').2 high
  have bias : Format.binary64.exponentBias = 1023 := rfl
  have kept : (BitVec.ofNat 52 m).toNat = m := by
    rw [BitVec.toNat_ofNat, Nat.mod_eq_of_lt high]
  have notZero : BitVec.ofNat 52 m ≠ 0#52 := by
    rw [ne_eq, ← BitVec.toNat_inj, kept]
    exact pos.ne'
  have packed : UnpackedFloat.pack .binary64 (.finite sign m (-1074) pos) =
      UnpackedFloat.packComponents .binary64 sign 0#11 (BitVec.ofNat 52 m) := by
    simp only [UnpackedFloat.pack, bias]
    rw [if_neg (by decide), if_neg]
    show ¬ m.log2 + 1 = 53
    omega
  show UnpackedFloat.unpack .binary64
    (UnpackedFloat.pack .binary64 (.finite sign m (-1074) pos)) = _
  rw [packed]
  have notOnes : (0#11 : BitVec 11) ≠ -1#11 := by decide
  simp only [UnpackedFloat.unpack, UnpackedFloat.unpackMantissa_packComponents,
    UnpackedFloat.unpackExponent_packComponents, UnpackedFloat.unpackSign_packComponents,
    UnpackedFloat.Sign.ofBitVec_toBitVec, notOnes, notZero, if_false, if_true, kept, bias]
  rfl

/-- Packing and unpacking give a canonical mantissa and exponent back. -/
theorem unpack_pack_canonical (sign : UnpackedFloat.Sign) {m : ℕ} {e : ℤ} (h : Canonical m e) :
    (Float.Model.pack (.finite sign m e h.pos)).unpack = .finite sign m e h.pos := by
  by_cases normal : 2 ^ 52 ≤ m
  · exact unpack_pack_normal sign h.pos normal h.high h.least h.greatest
  · obtain rfl := h.normal.resolve_left normal
    exact unpack_pack_subnormal sign h.pos (not_le.1 normal)

/-! ### The bits of a double

The sign, the exponent and the mantissa are read off the 64 bits with quotients and remainders.
The fields of the model's bit vector are the same numbers, from which it follows how a double
unpacks. -/

variable {x : Float}

/-- The sign of a double. -/
def floatSign (x : Float) : UnpackedFloat.Sign := if isNegative x then .negative else .positive

/-- The low 52 bits are the field of the mantissa. -/
theorem toNat_unpackMantissa (x : Float) :
    (@UnpackedFloat.unpackMantissa .binary64 x.toBits.toBitVec).toNat =
      x.toBits.toNat % 2 ^ 52 := by
  rw [UnpackedFloat.unpackMantissa_def, BitVec.extractLsb'_toNat, Nat.shiftRight_zero]
  rfl

/-- The 11 bits above them are the field of the exponent. -/
theorem toNat_unpackExponent (x : Float) :
    (@UnpackedFloat.unpackExponent .binary64 x.toBits.toBitVec).toNat =
      biasedExponent x := by
  rw [UnpackedFloat.unpackExponent_def, BitVec.extractLsb'_toNat, Nat.shiftRight_eq_div_pow]
  rfl

/-- The highest bit is the sign. -/
theorem ofBitVec_unpackSign (x : Float) :
    UnpackedFloat.Sign.ofBitVec
      (@UnpackedFloat.unpackSign .binary64 x.toBits.toBitVec) = floatSign x := by
  have top : (@UnpackedFloat.unpackSign .binary64 x.toBits.toBitVec).toNat =
      x.toBits.toNat / 2 ^ 63 % 2 := by
    rw [UnpackedFloat.unpackSign_def, BitVec.extractLsb'_toNat, Nat.shiftRight_eq_div_pow]
    rfl
  have size := x.toBits.toNat_lt
  have clear : @UnpackedFloat.unpackSign .binary64 x.toBits.toBitVec = 0#1 ↔
      ¬ 2 ^ 63 ≤ x.toBits.toNat := by
    rw [← BitVec.toNat_inj, top]
    show x.toBits.toNat / 2 ^ 63 % 2 = 0 ↔ _
    omega
  have pow : Nat.pow 2 63 = 2 ^ 63 := rfl
  simp only [UnpackedFloat.Sign.ofBitVec, floatSign, isNegative, clear, pow, decide_eq_true_eq,
    ite_not]

/-- The mantissa has a hidden bit above its field, unless the exponent's field is zero. -/
theorem mantissa_cases (x : Float) :
    biasedExponent x = 0 ∧ mantissa x = x.toBits.toNat % 2 ^ 52 ∨
      biasedExponent x ≠ 0 ∧ mantissa x = 2 ^ 52 + x.toBits.toNat % 2 ^ 52 := by
  rw [mantissa]
  by_cases zero : biasedExponent x = 0
  · exact Or.inl ⟨zero, if_pos zero⟩
  · exact Or.inr ⟨zero, (if_neg zero).trans (Nat.add_comm _ _)⟩

/-- The exponent bits of a finite double are not all set. -/
theorem biasedExponent_lt (finite : x.isFinite = true) : biasedExponent x < 2047 := by
  have bound : biasedExponent x < 2 ^ 11 := Nat.mod_lt _ (by decide)
  have unset : biasedExponent x ≠ 2047 := by
    intro set
    have special : @UnpackedFloat.unpackExponent .binary64 x.toBits.toBitVec =
        -1#11 := by
      rw [← BitVec.toNat_inj, toNat_unpackExponent, set]
      rfl
    have unpacked : x.isFinite =
      (UnpackedFloat.unpack .binary64 x.toBits.toBitVec).isFinite := rfl
    rw [unpacked, UnpackedFloat.unpack] at finite
    simp only [special, if_true] at finite
    split at finite <;> cases finite
  omega

/-- The mantissa and exponent that are read off a finite double other than zero are canonical. -/
theorem canonical_parts (finite : x.isFinite = true) (nonzero : mantissa x ≠ 0) :
    Canonical (mantissa x) (binaryExponent x) := by
  have exponent := biasedExponent_lt finite
  have fraction : x.toBits.toNat % 2 ^ 52 < 2 ^ 52 := Nat.mod_lt _ (Nat.two_pow_pos 52)
  have power : binaryExponent x = (max (biasedExponent x) 1 : ℕ) - 1075 := rfl
  rcases mantissa_cases x with ⟨zero, same⟩ | ⟨other, same⟩ <;>
    exact ⟨by omega, by omega, by omega, by omega, by omega⟩

/-- A finite double does not have the exponent that marks infinities and not-a-number. -/
theorem unpackExponent_ne_ones (finite : x.isFinite = true) :
    @UnpackedFloat.unpackExponent .binary64 x.toBits.toBitVec ≠ -1#11 := by
  have exponent := biasedExponent_lt finite
  rw [ne_eq, ← BitVec.toNat_inj, toNat_unpackExponent]
  show ¬ biasedExponent x = 2047
  omega

theorem unpackExponent_eq_zero_iff :
    @UnpackedFloat.unpackExponent .binary64 x.toBits.toBitVec = 0#11 ↔
      biasedExponent x = 0 := by
  rw [← BitVec.toNat_inj, toNat_unpackExponent]
  rfl

theorem unpackMantissa_eq_zero_iff :
    @UnpackedFloat.unpackMantissa .binary64 x.toBits.toBitVec = 0#52 ↔
      x.toBits.toNat % 2 ^ 52 = 0 := by
  rw [← BitVec.toNat_inj, toNat_unpackMantissa]
  rfl

/-- A double without a mantissa unpacks to the zero of its sign. -/
theorem unpack_of_zero (zero : mantissa x = 0) : x.toModel.unpack = .zero (floatSign x) := by
  rcases mantissa_cases x with ⟨exponent, same⟩ | ⟨_, same⟩
  · have noExponent := unpackExponent_eq_zero_iff.2 exponent
    have noMantissa := unpackMantissa_eq_zero_iff.2 (same.symm.trans zero)
    have notOnes : (0#11 : BitVec 11) ≠ -1#11 := by decide
    show UnpackedFloat.unpack .binary64 x.toBits.toBitVec = _
    simp only [UnpackedFloat.unpack, noExponent, noMantissa, notOnes, if_false, if_true, dite_true,
      ofBitVec_unpackSign]
  · omega

/-- Any other finite double unpacks to its sign, its mantissa and its exponent. -/
theorem unpack_of_finite (finite : x.isFinite = true) (nonzero : mantissa x ≠ 0) :
    x.toModel.unpack = .finite (floatSign x) (mantissa x) (binaryExponent x)
      (Nat.pos_of_ne_zero nonzero) := by
  have notOnes := unpackExponent_ne_ones finite
  have power : binaryExponent x = (max (biasedExponent x) 1 : ℕ) - 1075 := rfl
  show UnpackedFloat.unpack .binary64 x.toBits.toBitVec = _
  rcases mantissa_cases x with ⟨exponent, same⟩ | ⟨exponent, same⟩
  · have noExponent := unpackExponent_eq_zero_iff.2 exponent
    have someMantissa := mt unpackMantissa_eq_zero_iff.1 fun none => nonzero (same.trans none)
    simp only [UnpackedFloat.unpack, noExponent, someMantissa, if_false, if_true, dite_false,
      ofBitVec_unpackSign]
    refine UnpackedFloat.finite.injEq .. ▸ ⟨rfl, ?_, ?_⟩
    · rw [toNat_unpackMantissa, same]
    · rw [power, exponent]
      rfl
  · have someExponent := mt unpackExponent_eq_zero_iff.1 exponent
    simp only [UnpackedFloat.unpack, notOnes, someExponent, if_false, ofBitVec_unpackSign]
    refine UnpackedFloat.finite.injEq .. ▸ ⟨rfl, ?_, ?_⟩
    · rw [toNat_leadingBit, toNat_unpackMantissa, same]
    · rw [toNat_unpackExponent, power, max_eq_left (Nat.one_le_iff_ne_zero.2 exponent)]
      rfl

end ImpStack
