/-
Module: ImpStack.Proofs.IntegerRounding
Purpose: Rounding 64-bit integers to doubles keeps their order. A positive integer is scaled to 53
  bits and rounded there, where a greater integer never gets a lesser mantissa, and packing loses
  nothing of the result.
Main exports: naturalRank, integerRank, integerRank_mono, floatRank?_floatOfInt64
-/
import ImpStack.Proofs.FloatOrder

namespace ImpStack

open Float.Model (UnpackedFloat Format totalExponent)
open Float.Model.UnpackedFloat (ExtendedMantissa Accuracy)

/-! ### Mantissas with residual bits

Rounding works on a mantissa with two more bits: the one below the last, and one that says whether
anything lies below that. Read as one number they are ordered as the numbers they come from, and
shifting and rounding keep that order. -/

/-- A mantissa and its two residual bits as one number. -/
def extendedCode (em : ExtendedMantissa) : ℕ :=
  4 * em.mantissa + 2 * em.roundBit.toNat + em.stickyBit.toNat

/-- A shift by one halves the mantissa, and what falls off is remembered in the last residual bit.
    -/
theorem extendedCode_shiftRightOne (em : ExtendedMantissa) :
    extendedCode em.shiftRightOne =
      2 * (extendedCode em / 4) + min 1 (extendedCode em % 4) := by
  obtain ⟨m, round, sticky⟩ := em
  have parity : (m % 2 != 0).toNat = m % 2 := by
    rcases Nat.mod_two_eq_zero_or_one m with bit | bit <;> simp [bit]
  simp only [extendedCode, ExtendedMantissa.shiftRightOne, parity]
  cases round <;> cases sticky <;> simp <;> omega

/-- Shifting keeps the order of mantissas with residual bits. -/
theorem extendedCode_shiftRight_mono {a b : ExtendedMantissa}
    (le : extendedCode a ≤ extendedCode b) (n : ℕ) :
    extendedCode (a >>> n) ≤ extendedCode (b >>> n) := by
  induction n with
  | zero => exact le
  | succ n ih =>
      show extendedCode (a >>> n).shiftRightOne ≤ extendedCode (b >>> n).shiftRightOne
      rw [extendedCode_shiftRightOne, extendedCode_shiftRightOne]
      omega

theorem mantissa_shiftRight (em : ExtendedMantissa) (n : ℕ) :
    (em >>> n).mantissa = em.mantissa / 2 ^ n := by
  induction n with
  | zero => exact (Nat.div_one _).symm
  | succ n ih =>
      show (em >>> n).mantissa / 2 = em.mantissa / 2 ^ (n + 1)
      rw [ih, Nat.div_div_eq_div_mul, Nat.pow_succ]

/-- Rounding adds one to the mantissa or leaves it as it is. -/
theorem roundedMantissa_bounds (em : ExtendedMantissa) :
    em.mantissa ≤ em.roundedMantissa ∧ em.roundedMantissa ≤ em.mantissa + 1 := by
  obtain ⟨m, round, sticky⟩ := em
  cases round <;> cases sticky <;>
    simp [ExtendedMantissa.roundedMantissa, ExtendedMantissa.accuracy,
      Accuracy.roundToNearestEven]
  omega

/-- Ties go to even, so a greater mantissa does not round to less. -/
theorem roundedMantissa_mono {a b : ExtendedMantissa} (le : extendedCode a ≤ extendedCode b) :
    a.roundedMantissa ≤ b.roundedMantissa := by
  obtain ⟨m, round, sticky⟩ := a
  obtain ⟨m', round', sticky'⟩ := b
  cases round <;> cases sticky <;> cases round' <;> cases sticky' <;>
    simp [extendedCode, ExtendedMantissa.roundedMantissa, ExtendedMantissa.accuracy,
      Accuracy.roundToNearestEven] at le ⊢ <;> omega

/-! ### Rounding a natural number

The number is brought to 53 bits, by a shift to the left that loses nothing or by one to the right
that leaves residual bits, and then rounded. Only rounding up to 2^53 needs another exponent. -/

/-- A positive natural number scaled to 53 bits and rounded. -/
def roundedTo53 (n : ℕ) : ℕ :=
  (ExtendedMantissa.ofMantissaAndAccuracy (n <<< (52 - n.log2)) .exact >>>
    (n.log2 - 52)).roundedMantissa

/-- Every positive number is scaled to exactly 53 bits. -/
theorem scaled_bounds {n : ℕ} (pos : 0 < n) :
    2 ^ 52 ≤ n <<< (52 - n.log2) / 2 ^ (n.log2 - 52) ∧
      n <<< (52 - n.log2) / 2 ^ (n.log2 - 52) < 2 ^ 53 := by
  have low : 2 ^ n.log2 ≤ n := Nat.log2_self_le pos.ne'
  have high : n < 2 ^ (n.log2 + 1) := Nat.lt_log2_self
  rw [Nat.le_div_iff_mul_le (Nat.two_pow_pos _), Nat.div_lt_iff_lt_mul (Nat.two_pow_pos _),
    Nat.shiftLeft_eq, ← Nat.pow_add, ← Nat.pow_add]
  have lower : 2 ^ (52 + (n.log2 - 52)) = 2 ^ n.log2 * 2 ^ (52 - n.log2) := by
    rw [← Nat.pow_add]
    congr 1
    omega
  have upper : 2 ^ (53 + (n.log2 - 52)) = 2 ^ (n.log2 + 1) * 2 ^ (52 - n.log2) := by
    rw [← Nat.pow_add]
    congr 1
    omega
  rw [lower, upper]
  exact ⟨Nat.mul_le_mul_right _ low, Nat.mul_lt_mul_of_pos_right high (Nat.two_pow_pos _)⟩

/-- Rounding may reach 2^53, but not pass it. -/
theorem roundedTo53_bounds {n : ℕ} (pos : 0 < n) :
    2 ^ 52 ≤ roundedTo53 n ∧ roundedTo53 n ≤ 2 ^ 53 := by
  have bounds := roundedMantissa_bounds
    (ExtendedMantissa.ofMantissaAndAccuracy (n <<< (52 - n.log2)) .exact >>> (n.log2 - 52))
  rw [mantissa_shiftRight] at bounds
  obtain ⟨low, high⟩ := scaled_bounds pos
  exact ⟨le_trans low bounds.1, le_trans bounds.2 high⟩

/-- Of two numbers with as many bits, the greater one is not rounded to less. -/
theorem roundedTo53_mono {m n : ℕ} (same : m.log2 = n.log2) (le : m ≤ n) :
    roundedTo53 m ≤ roundedTo53 n := by
  apply roundedMantissa_mono
  rw [same]
  apply extendedCode_shiftRight_mono
  have scaled : m <<< (52 - n.log2) ≤ n <<< (52 - n.log2) := by
    rw [Nat.shiftLeft_eq, Nat.shiftLeft_eq]
    exact Nat.mul_le_mul_right _ le
  simp only [extendedCode, ExtendedMantissa.ofMantissaAndAccuracy]
  omega

/-- The mantissa of the double nearest to a positive natural number; rounding up to 54 bits makes
    it the least one, of the next exponent. -/
def naturalMantissa (n : ℕ) : ℕ := if roundedTo53 n = 2 ^ 53 then 2 ^ 52 else roundedTo53 n

/-- The exponent of the double nearest to a positive natural number. -/
def naturalExponent (n : ℕ) : ℤ := n.log2 - (if roundedTo53 n = 2 ^ 53 then 51 else 52)

/-- The mantissa that is kept has 53 bits again. -/
theorem naturalMantissa_bounds {n : ℕ} (pos : 0 < n) :
    2 ^ 52 ≤ naturalMantissa n ∧ naturalMantissa n < 2 ^ 53 := by
  have bounds := roundedTo53_bounds pos
  rw [naturalMantissa]
  split <;> omega

theorem log2_of_53_bits {m : ℕ} (low : 2 ^ 52 ≤ m) (high : m < 2 ^ 53) : m.log2 = 52 := by
  have nonzero : m ≠ 0 := by omega
  have at_least := (Nat.le_log2 nonzero).2 low
  have at_most := (Nat.log2_lt nonzero).2 high
  omega

/-- A number that is not tiny is rounded to 53 bits. -/
theorem targetExponent_eq {m : ℕ} {e : ℤ} (normal : -1022 ≤ m.log2 + e) :
    Format.binary64.targetExponent (totalExponent m e) = m.log2 + e - 52 := by
  simp only [Format.targetExponent, totalExponent, Format.mantissaBits, Format.minExponent]
  omega

/-- Shifting a normal number to 53 bits. -/
theorem shiftToTargetExponent_eq {m : ℕ} {e : ℤ} (accuracy : Accuracy) (k : ℕ)
    (normal : -1022 ≤ m.log2 + e) (excess : (m.log2 - 52 : ℤ).toNat = k) :
    UnpackedFloat.shiftToTargetExponent .binary64 m e accuracy =
      (ExtendedMantissa.ofMantissaAndAccuracy m accuracy >>> k, e + k) := by
  have amount : (m.log2 + e - 52 - e : ℤ).toNat = k := by omega
  rw [UnpackedFloat.shiftToTargetExponent, targetExponent_eq normal,
    UnpackedFloat.shiftToExponent, amount]

theorem log2_shiftLeft {n : ℕ} (pos : 0 < n) (k : ℕ) : (n <<< k).log2 = n.log2 + k := by
  induction k with
  | zero => rfl
  | succ k ih =>
      have nonzero : n <<< k ≠ 0 := by
        rw [Nat.shiftLeft_eq]
        exact (Nat.mul_pos pos (Nat.two_pow_pos k)).ne'
      rw [Nat.shiftLeft_succ, Nat.log2_two_mul nonzero, ih]
      rfl

/-- Rounding may have made one bit too many, which is a zero. -/
theorem shift_rounded {n : ℕ} (pos : 0 < n) :
    UnpackedFloat.shiftToTargetExponent .binary64 (roundedTo53 n) (n.log2 - 52) .exact =
      (⟨naturalMantissa n, false, false⟩, naturalExponent n) := by
  obtain ⟨low, high⟩ := roundedTo53_bounds pos
  by_cases carry : roundedTo53 n = 2 ^ 53
  · have bits : Nat.log2 (2 ^ 53) = 53 := Nat.log2_two_pow
    have shifted := shiftToTargetExponent_eq (m := 2 ^ 53) (e := n.log2 - 52) .exact 1
      (by omega) (by omega)
    rw [naturalMantissa, naturalExponent, if_pos carry, if_pos carry, carry, shifted]
    exact Prod.ext rfl (by omega)
  · have bits := log2_of_53_bits low (lt_of_le_of_ne high carry)
    have shifted := shiftToTargetExponent_eq (e := n.log2 - 52) .exact 0 (by omega)
      (show ((roundedTo53 n).log2 - 52 : ℤ).toNat = 0 by omega)
    rw [naturalMantissa, naturalExponent, if_neg carry, if_neg carry, shifted]
    exact Prod.ext rfl (by omega)

/-- A positive natural number rounds to its mantissa and exponent. -/
theorem round_natural (sign : UnpackedFloat.Sign) {n : ℕ} (pos : 0 < n) :
    UnpackedFloat.round .binary64 sign n 0 =
      .finite sign (naturalMantissa n) (naturalExponent n)
        (lt_of_lt_of_le (by decide) (naturalMantissa_bounds pos).1) := by
  have target : Format.binary64.targetExponent (totalExponent n 0) = n.log2 - 52 := by
    rw [targetExponent_eq (by omega)]
    omega
  have scale : (0 - (n.log2 - 52 : ℤ)).toNat = 52 - n.log2 := by omega
  have scaled := log2_shiftLeft pos (52 - n.log2)
  have first := shiftToTargetExponent_eq (m := n <<< (52 - n.log2))
    (e := 0 - (52 - n.log2 : ℕ)) .exact (n.log2 - 52) (by omega) (by omega)
  have exponent : (0 - (52 - n.log2 : ℕ) + (n.log2 - 52 : ℕ) : ℤ) = n.log2 - 52 := by omega
  have nonzero : naturalMantissa n ≠ 0 := by
    have := (naturalMantissa_bounds pos).1
    omega
  have rounded : (ExtendedMantissa.ofMantissaAndAccuracy (n <<< (52 - n.log2)) .exact >>>
      (n.log2 - 52)).roundedMantissa = roundedTo53 n := rfl
  rw [exponent] at first
  simp only [UnpackedFloat.round, target, UnpackedFloat.decreaseExponent, scale,
    UnpackedFloat.roundWithAccuracy, first, rounded, shift_rounded pos, dif_neg nonzero]

/-! ### Packing

Packing drops the leading bit, which a mantissa of 53 bits always has, and unpacking puts it back.
-/

/-- The implicit leading bit counts 2 ^ 52. -/
theorem toNat_leadingBit (v : BitVec 52) : (1#1 ++ v).toNat = 2 ^ 52 + v.toNat := by
  rw [BitVec.toNat_append, ← Nat.shiftLeft_add_eq_or_of_lt (BitVec.isLt _)]
  rfl

/-- Packing clears the leading bit of a mantissa and unpacking puts it back. -/
theorem leadingBit_append {m : ℕ} (low : 2 ^ 52 ≤ m) (high : m < 2 ^ 53) :
    (1#1 ++ BitVec.ofNat 52 m).toNat = m := by
  rw [toNat_leadingBit, BitVec.toNat_ofNat]
  omega

/-- Packing a normal number and unpacking it gives the same number. -/
theorem unpack_pack_normal (sign : UnpackedFloat.Sign) {m : ℕ} {e : ℤ} (pos : 0 < m)
    (low : 2 ^ 52 ≤ m) (high : m < 2 ^ 53) (least : -1074 ≤ e) (greatest : e ≤ 971) :
    (Float.Model.pack (.finite sign m e pos)).unpack = .finite sign m e pos := by
  obtain ⟨biased, exponent⟩ : ∃ biased : ℕ, (biased : ℤ) = e + 1075 :=
    ⟨(e + 1075).toNat, by omega⟩
  have bits := log2_of_53_bits low high
  have bias : Format.binary64.exponentBias = 1023 := rfl
  have toBiased : (e + (1023 : ℕ) + (52 : ℕ)).toNat = biased := by omega
  have kept : (BitVec.ofNat 11 biased).toNat = biased := by
    rw [BitVec.toNat_ofNat, Nat.mod_eq_of_lt (by omega)]
  have notZero : BitVec.ofNat 11 biased ≠ 0#11 := by
    rw [ne_eq, ← BitVec.toNat_inj, kept, BitVec.toNat_zero]
    omega
  have notOnes : BitVec.ofNat 11 biased ≠ -1#11 := by
    have ones : (-1#11).toNat = 2047 := rfl
    rw [ne_eq, ← BitVec.toNat_inj, kept, ones]
    omega
  have packed : UnpackedFloat.pack .binary64 (.finite sign m e pos) =
      UnpackedFloat.packComponents .binary64 sign (BitVec.ofNat 11 biased) (BitVec.ofNat 52 m) := by
    simp only [UnpackedFloat.pack, bits, bias, toBiased]
    rw [if_neg (by omega)]
    exact if_pos rfl
  show UnpackedFloat.unpack .binary64 (UnpackedFloat.pack .binary64 (.finite sign m e pos)) = _
  rw [packed]
  simp only [UnpackedFloat.unpack, UnpackedFloat.unpackMantissa_packComponents,
    UnpackedFloat.unpackExponent_packComponents, UnpackedFloat.unpackSign_packComponents,
    UnpackedFloat.Sign.ofBitVec_toBitVec, notOnes, notZero, if_false, kept,
    leadingBit_append low high, bias]
  congr 1
  omega

/-! ### Ranks of integers

The rank of an integer's double is a function of the integer. It is monotone for naturals by their
number of bits and then by their rounded mantissas, and for the others by mirroring. -/

/-- The rank of the double nearest to a natural number. -/
def naturalRank (n : ℕ) : Rank :=
  if n = 0 then .of 0 0 0 else .of 1 (naturalExponent n) (naturalMantissa n)

/-- The rank of the opposite. -/
def Rank.opposite (r : Rank) : Rank :=
  .of (-(ofLex r).1) (-(ofLex (ofLex r).2).1) (-(ofLex (ofLex r).2).2)

/-- The rank of the double nearest to an integer. -/
def integerRank (z : ℤ) : Rank :=
  if 0 ≤ z then naturalRank z.toNat else (naturalRank (-z).toNat).opposite

/-- Ranks are ordered by their parts, the first one that differs deciding. -/
theorem Rank.of_le_iff {k e m k' e' m' : ℤ} :
    Rank.of k e m ≤ Rank.of k' e' m' ↔ k < k' ∨ k = k' ∧ (e < e' ∨ e = e' ∧ m ≤ m') := by
  rw [Rank.of, Rank.of, Prod.Lex.toLex_le_toLex, Prod.Lex.toLex_le_toLex]

theorem Rank.opposite_le {r s : Rank} (le : r ≤ s) : s.opposite ≤ r.opposite := by
  obtain ⟨k, e, m⟩ := r
  obtain ⟨k', e', m'⟩ := s
  have parts := Rank.of_le_iff.1 (show Rank.of k e m ≤ Rank.of k' e' m' from le)
  show Rank.of (-k') (-e') (-m') ≤ Rank.of (-k) (-e) (-m)
  exact Rank.of_le_iff.2 (by omega)

theorem naturalRank_mono {m n : ℕ} (le : m ≤ n) : naturalRank m ≤ naturalRank n := by
  rw [naturalRank, naturalRank]
  by_cases zero : m = 0
  · rw [if_pos zero]
    split
    · exact le_rfl
    · exact Rank.of_le_iff.2 (Or.inl Int.zero_lt_one)
  · have pos : 0 < m := Nat.pos_of_ne_zero zero
    have pos' : 0 < n := lt_of_lt_of_le pos le
    rw [if_neg zero, if_neg pos'.ne']
    apply Rank.of_le_iff.2
    refine Or.inr ⟨rfl, ?_⟩
    have bounds := roundedTo53_bounds pos
    have bounds' := roundedTo53_bounds pos'
    have bits : m.log2 ≤ n.log2 :=
      (Nat.le_log2 pos'.ne').2 (le_trans (Nat.log2_self_le pos.ne') le)
    -- With fewer bits even a mantissa that became one bit too long is at most the least one.
    rcases lt_or_eq_of_le bits with fewer | same
    · simp only [naturalExponent, naturalMantissa]
      split <;> split <;> omega
    · have mono := roundedTo53_mono same le
      simp only [naturalExponent, naturalMantissa]
      split <;> split <;> omega

/-- A greater integer is not rounded to a lesser double. -/
theorem integerRank_mono {y z : ℤ} (le : y ≤ z) : integerRank y ≤ integerRank z := by
  rw [integerRank, integerRank]
  by_cases negative : 0 ≤ y
  · rw [if_pos negative, if_pos (le_trans negative le)]
    exact naturalRank_mono (by omega)
  · rw [if_neg negative]
    split
    · have below : (naturalRank (-y).toNat).opposite ≤ naturalRank 0 :=
        Rank.opposite_le (naturalRank_mono (Nat.zero_le _))
      exact le_trans below (naturalRank_mono (Nat.zero_le _))
    · exact Rank.opposite_le (naturalRank_mono (by omega))

/-- The double that an integer is converted to has the rank that belongs to the integer. -/
theorem unpackedRank?_ofInt {z : ℤ} (small : z.natAbs < 2 ^ 64) :
    unpackedRank? (Float.Model.pack (UnpackedFloat.ofInt .binary64 z)).unpack =
      some (integerRank z) := by
  have packed (sign : UnpackedFloat.Sign) {n : ℕ} (pos : 0 < n) (small : n < 2 ^ 64) :
      (Float.Model.pack (UnpackedFloat.round .binary64 sign n 0)).unpack =
        .finite sign (naturalMantissa n) (naturalExponent n)
          (lt_of_lt_of_le (by decide) (naturalMantissa_bounds pos).1) := by
    obtain ⟨low, high⟩ := naturalMantissa_bounds pos
    have bits : n.log2 < 64 := (Nat.log2_lt pos.ne').2 small
    have least : -1074 ≤ naturalExponent n := by
      rw [naturalExponent]
      split <;> omega
    have greatest : naturalExponent n ≤ 971 := by
      rw [naturalExponent]
      split <;> omega
    rw [round_natural sign pos]
    exact unpack_pack_normal sign _ low high least greatest
  rw [UnpackedFloat.ofInt, UnpackedFloat.normalize, integerRank]
  rcases lt_trichotomy z 0 with negative | rfl | positive
  · have pos : 0 < (-z).toNat := by omega
    rw [Int.compare_eq_lt.2 negative, if_neg (by omega), naturalRank, if_neg pos.ne']
    simp only []
    rw [packed .negative pos (by omega)]
    rfl
  · rfl
  · have pos : 0 < z.toNat := by omega
    rw [Int.compare_eq_gt.2 positive, if_pos (by omega), naturalRank, if_neg pos.ne']
    simp only []
    rw [packed .positive pos (by omega)]
    rfl

/-- The rank of the double nearest to a 64-bit integer. -/
theorem floatRank?_floatOfInt64 (n : Int64) :
    floatRank? (floatOfInt64 n) = some (integerRank n.toInt) := by
  have low := n.le_toInt
  have high := n.toInt_lt
  exact unpackedRank?_ofInt (by omega)

/-- 2 ^ 53: each integer up to it has a double of its own, and the next one has not. -/
def lastExact : Int64 := 9007199254740992

end ImpStack
