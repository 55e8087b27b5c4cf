/-
Module: ImpStack.Proofs.FloatOrder
Purpose: The order of doubles. Every double but not-a-number has a rank in a linear order, and
  doubles compare as their ranks do, so that laws of comparisons are laws of a linear order.
Main exports: Rank, floatRank?, float_lt_iff, float_beq_iff, compareFloats?_eq
-/
import Mathlib
import ImpStack.Value.Operator

namespace ImpStack

open Float.Model (UnpackedFloat)

/-! ### Ranks

A double's place among all doubles is computed from its sign, its exponent and its mantissa; only
not-a-number has none. Zeros of both signs have one rank. -/

/-- A place in the order of doubles: first by sign and kind, then by exponent, then by mantissa. -/
abbrev Rank := ℤ ×ₗ ℤ ×ₗ ℤ

/-- A rank from its three parts. -/
def Rank.of (kind exponent mantissa : ℤ) : Rank := toLex (kind, toLex (exponent, mantissa))

/-- The rank of an unpacked double. The two zeros share one, and a negative number mirrors its
    opposite. -/
def unpackedRank? : UnpackedFloat → Option Rank
  | .notANumber => none
  | .infinity .negative => some (.of (-2) 0 0)
  | .finite .negative m e _ => some (.of (-1) (-e) (-m))
  | .zero _ => some (.of 0 0 0)
  | .finite .positive m e _ => some (.of 1 e m)
  | .infinity .positive => some (.of 2 0 0)

/-- The rank of a double. -/
def floatRank? (x : Float) : Option Rank := unpackedRank? x.toModel.unpack

/-- Only not-a-number has no rank. -/
theorem floatRank?_eq_none_iff {x : Float} : floatRank? x = none ↔ x.isNaN = true := by
  show unpackedRank? x.toModel.unpack = none ↔ x.toModel.unpack.isNaN = true
  rcases x.toModel.unpack with (_ | _) | _ | _ | (_ | _) <;>
    simp [unpackedRank?, UnpackedFloat.isNaN]

/-! ### Comparing ranks

Ranks are compared part by part, and a rank of a negative number is that of its opposite turned
around. The model's comparison of unpacked doubles is of the same form, so the two agree case by
case. -/

/-- The order of two ranks, if there are two. -/
def compareRanks? (r s : Option Rank) : Option Ordering :=
  r.bind fun r => s.map fun s => compare r s

/-- Ranks are compared where both sides have one. -/
theorem compareRanks?_eq_some_iff {r s : Option Rank} {order : Ordering} :
    compareRanks? r s = some order ↔
      ∃ a b, r = some a ∧ s = some b ∧ compare a b = order := by
  cases r <;> cases s <;> simp [compareRanks?]

theorem compareRanks?_eq_eq_iff {r s : Option Rank} :
    compareRanks? r s = some .eq ↔ ∃ a, r = some a ∧ s = some a := by
  rw [compareRanks?_eq_some_iff]
  constructor
  · rintro ⟨a, b, left, right, same⟩
    cases compare_eq_iff_eq.1 same
    exact ⟨a, left, right⟩
  · rintro ⟨a, left, right⟩
    exact ⟨a, a, left, right, compare_eq_iff_eq.2 rfl⟩

/-- Swapping the sides turns the order around. -/
theorem compareRanks?_swap (r s : Option Rank) :
    compareRanks? s r = (compareRanks? r s).map .swap := by
  cases r with
  | none => cases s <;> rfl
  | some a =>
      cases s with
      | none => rfl
      | some b => exact congrArg some Std.OrientedOrd.eq_swap

/-- Ranks are compared by sign first, then by exponent, then by mantissa. -/
theorem Rank.compare_of (k e m k' e' m' : ℤ) :
    compare (Rank.of k e m) (Rank.of k' e' m') =
      (compare k k').then ((compare e e').then (compare m m')) := rfl

theorem compare_neg_neg (a b : ℤ) : compare (-a) (-b) = (compare a b).swap := by
  have anti : StrictAnti fun n : ℤ => -n := fun _ _ less => Int.neg_lt_neg less
  rw [← Std.OrientedOrd.eq_swap, ← cmp_eq_compare, ← cmp_eq_compare]
  exact anti.cmp_map_eq a b

theorem compare_natCast (m n : ℕ) : compare (m : ℤ) n = compare m n := by
  have mono : StrictMono fun n : ℕ => (n : ℤ) := fun _ _ less => Int.ofNat_lt.2 less
  rw [← cmp_eq_compare, ← cmp_eq_compare]
  exact mono.cmp_map_eq m n

/-- Unpacked doubles compare as their ranks. -/
theorem unpacked_compare_eq (a b : UnpackedFloat) :
    a.compare b = compareRanks? (unpackedRank? a) (unpackedRank? b) := by
  rcases a with (_ | _) | _ | _ | (_ | _) <;> rcases b with (_ | _) | _ | _ | (_ | _) <;>
    simp [UnpackedFloat.compare, unpackedRank?, compareRanks?, Rank.compare_of, compare_neg_neg,
      compare_natCast, Ordering.swap_then] <;> rfl

/-! ### Comparing doubles

Less, equal and the three-way comparison of doubles are now all read off the ranks, and with them
their laws: what is true of a linear order holds wherever both sides have a rank. -/

/-- A double is less than another exactly if its rank is. -/
theorem float_lt_iff {x y : Float} :
    x < y ↔ compareRanks? (floatRank? x) (floatRank? y) = some .lt := by
  rw [floatRank?, floatRank?, ← unpacked_compare_eq, ← beq_iff_eq]
  exact decide_eq_true_iff

/-- Doubles are equal exactly if they have one rank; not-a-number is not equal to itself. -/
theorem float_beq_iff {x y : Float} :
    (x == y) = true ↔ compareRanks? (floatRank? x) (floatRank? y) = some .eq := by
  have defined : (x == y) = (x.toModel.unpack.compare y.toModel.unpack == some .eq) := rfl
  rw [defined, beq_iff_eq, unpacked_compare_eq, floatRank?, floatRank?]

/-- Doubles compare as their ranks. -/
theorem compareFloats?_eq (x y : Float) :
    Value.compareFloats? x y = compareRanks? (floatRank? x) (floatRank? y) := by
  have swapped := compareRanks?_swap (floatRank? x) (floatRank? y)
  simp only [Value.compareFloats?, float_lt_iff, float_beq_iff, swapped]
  cases compareRanks? (floatRank? x) (floatRank? y) with
  | none => rfl
  | some order => cases order <;> rfl

end ImpStack
