/-
Module: ImpStack.Proofs.StrictOrder
Purpose: The order of values. Greater is a strict order on numbers, integers and doubles mixed, and
  on texts; greater or equal is greater or equal in the sense of equality; and both are refused for
  the same pairs.
Main exports: Value.Comparable, Value.compare?_eq_error_iff, Value.greater_trans,
  isGt_strict_order
-/
import ImpStack.Proofs.Comparison

namespace ImpStack

variable {σ : Type} {a b c : Value}

namespace Value

/-! ### Pairs that have an order

Two numbers of any types can be compared, and so can two texts. For all other pairs both comparisons
of the machine report a mismatch of types. -/

/-- Whether a value is a text. -/
def isStr : Value → Bool
  | str _ => true
  | _ => false

/-- Both values are numbers, or both are texts. -/
def Comparable (a b : Value) : Prop :=
  (∃ x, a.number? = some x) ∧ (∃ y, b.number? = some y) ∨ a.isStr = true ∧ b.isStr = true

/-- Comparing fails for the pairs that are not comparable, and names the types of the pair. -/
theorem compare?_eq_error_iff {e : OperatorError} :
    compare? a b = .error e ↔ ¬ a.Comparable b ∧ e = mismatch a b := by
  rw [eq_comm (a := e)]
  cases a <;> cases b <;> simp [compare?, Comparable, number?, isStr]

/-- A pair that can be compared has an order, or is known to have none because of not-a-number. -/
theorem exists_order (h : a.Comparable b) : ∃ order, compare? a b = .ok order := by
  cases compared : compare? a b with
  | ok order => exact ⟨order, rfl⟩
  | error e => exact absurd h (compare?_eq_error_iff.1 compared).1

/-! ### Greater

Greater is described by three rules, from which asymmetry and transitivity are read off. Mixed
chains are no problem here, as the double of a lesser integer is never greater: see
`integerRank_mono`. -/

/-- Greater is one of the outcomes of the three-way comparison. -/
theorem greater_iff : a.greater b = .ok true ↔ compare? a b = .ok (some .gt) := by
  rw [greater]
  cases compare? a b <;> simp

/-- Of two numbers the one with the greater rank is greater, also if both are integers, which
    compare exactly. -/
theorem greater_of_rank? {r s : Rank} (left : a.rank? = some r) (right : b.rank? = some s)
    (less : s < r) : a.greater b = .ok true := by
  by_cases mixed : a.isFloat = true ∨ b.isFloat = true
  · rw [greater_iff, compare?_of_rank? left right mixed, compare_gt_iff_gt.2 less]
  · obtain ⟨m, rfl⟩ := int_of_rank? left fun h => mixed (Or.inl h)
    obtain ⟨n, rfl⟩ := int_of_rank? right fun h => mixed (Or.inr h)
    rw [rank?_int] at left right
    cases left
    cases right
    have above : n.toInt < m.toInt := not_le.1 fun le => not_lt.2 (integerRank_mono le) less
    rw [greater_int, decide_eq_true (Int64.lt_iff_toInt_lt.2 above)]

/-- What it means that a value is greater than another: an integer than an integer, a text than a
    text, or a number than a number by rank. -/
inductive Exceeds : Value → Value → Prop where
  | int {m n : Int64} (less : n < m) : Exceeds (.int m) (.int n)
  | str {s t : String} (less : t < s) : Exceeds (.str s) (.str t)
  | rank {a b : Value} {r s : Rank} (left : a.rank? = some r) (right : b.rank? = some s)
      (less : s < r) : Exceeds a b

/-- If a value is greater, one of the rules says so. -/
theorem exceeds_of_greater (h : a.greater b = .ok true) : a.Exceeds b := by
  have floats {x y : Float} (order : compareFloats? x y = some .gt) :
      ∃ r s, floatRank? x = some r ∧ floatRank? y = some s ∧ s < r := by
    rw [compareFloats?_eq, compareRanks?_eq_some_iff] at order
    obtain ⟨r, s, left, right, order⟩ := order
    exact ⟨r, s, left, right, compare_gt_iff_gt.1 order⟩
  rw [greater_iff] at h
  cases a <;> cases b <;> simp [compare?, number?] at h
  case int.int m n => exact .int (Std.compare_eq_gt.1 h)
  case str.str s t => exact .str (compare_gt_iff_gt.1 h)
  all_goals
    obtain ⟨r, s, left, right, less⟩ := floats h
    exact .rank left right less

/-- The rules hold of greater values only. -/
theorem Exceeds.greater (h : a.Exceeds b) : a.greater b = .ok true := by
  cases h with
  | int less => rw [greater_int, decide_eq_true less]
  | str less => rw [greater_iff, compare?, compare_gt_iff_gt.2 less]
  | rank left right less => exact greater_of_rank? left right less

/-- Between an integer and a lesser integer there is room in the ranks only downwards. -/
theorem rank?_le_of_int_lt {m n : Int64} (less : n < m) :
    ∃ r s, (int m).rank? = some r ∧ (int n).rank? = some s ∧ s ≤ r :=
  ⟨_, _, rank?_int m, rank?_int n, integerRank_mono (Int64.lt_iff_toInt_lt.1 less).le⟩

/-- The rules are transitive, also in mixed chains. -/
theorem Exceeds.trans (first : a.Exceeds b) (second : b.Exceeds c) : a.Exceeds c := by
  cases first with
  | int less =>
      cases second with
      | int less' => exact .int (Int64.lt_trans less' less)
      | rank left right less' =>
          obtain ⟨r, s, above, below, le⟩ := rank?_le_of_int_lt less
          cases below.symm.trans left
          exact .rank above right (lt_of_lt_of_le less' le)
  | str less =>
      cases second with
      | str less' => exact .str (lt_trans less' less)
      | rank left => cases left
  | rank left right less =>
      cases second with
      | int less' =>
          obtain ⟨r, s, above, below, le⟩ := rank?_le_of_int_lt less'
          cases above.symm.trans right
          exact .rank left below (lt_of_le_of_lt le less)
      | str => cases right
      | rank left' right' less' =>
          cases right.symm.trans left'
          exact .rank left right' (lt_trans less' less)

/-- Greater is transitive, whatever integers and doubles are mixed: rounding an integer does not
    carry it past a double. -/
theorem greater_trans (first : a.greater b = .ok true) (second : b.greater c = .ok true) :
    a.greater c = .ok true :=
  ((exceeds_of_greater first).trans (exceeds_of_greater second)).greater

/-- Greater holds in one direction at most. -/
theorem greater_asymm (h : a.greater b = .ok true) : b.greater a ≠ .ok true := by
  rw [greater_iff] at h
  rw [ne_eq, greater_iff, compare?_swap, h]
  nofun

/-- For a comparable pair, greater or equal is greater or equal. -/
theorem greaterOrEqual_eq (h : a.Comparable b) :
    ∃ t, a.greater b = .ok t ∧ a.greaterOrEqual b = .ok (t || a.equal b) := by
  obtain ⟨order, compared⟩ := exists_order h
  have same := equal_iff_compare? compared
  refine ⟨decide (order = some .gt), by rw [greater, compared]; rfl, ?_⟩
  rw [greaterOrEqual, compared]
  have same' : a.equal b = decide (order = some .eq) :=
    Bool.eq_iff_iff.2 (same.trans decide_eq_true_iff.symm)
  rw [same', ← Bool.decide_or]
  rfl

end Value

/-! ### The comparisons of the machine

The laws are carried over to machines that are about to execute one of the two opcodes, for all
values and whatever else is on the stack. -/

namespace Machine

variable {m m₁ m₂ m₃ : Machine σ} {below below₁ below₂ below₃ : List Value}

/-- The machine was stopped because an opcode does not combine the types of two values. -/
def Mismatches (m : Machine σ) (op : Opcode) (a b : Value) : Prop :=
  m.state.status = .failed (.typeMismatch op a.typeName b.typeName)

/-- An operator that asks for an order fails for the pairs that have none, by their types. -/
theorem Applies.mismatches_iff {op : BinaryOp} (here : m.Applies op a b below)
    (ordering : op.isOrdering = true) :
    (m.operated op).Mismatches op.opcode a b ↔ ¬ a.Comparable b := by
  obtain ⟨leaves, fails⟩ := here.finished
  have result := BinaryOp.result_eq ordering a b
  constructor
  · intro mismatch comparable
    obtain ⟨order, compared⟩ := Value.exists_order comparable
    rw [compared] at result
    exact (leaves _ result).not_fails ⟨_, mismatch⟩
  · intro other
    rw [Value.compare?_eq_error_iff.2 ⟨other, rfl⟩] at result
    exact fails _ result

/-- An operator whose results are truth values leaves the one that it computes. -/
theorem Applies.leaves_bool_iff {op : BinaryOp} (here : m.Applies op a b below)
    {answer : Except OperatorError Bool} (result : op.result a b = Value.bool <$> answer)
    {t : Bool} : (m.operated op).Leaves (.bool t) below ↔ answer = .ok t := by
  rw [here.leaves_iff, result]
  cases answer <;> simp

theorem Applies.leaves_gt_iff (here : m.Applies .gt a b below) {t : Bool} :
    (m.operated .gt).Leaves (.bool t) below ↔ a.greater b = .ok t :=
  here.leaves_bool_iff (id_map _)

theorem Applies.leaves_ge_iff (here : m.Applies .ge a b below) {t : Bool} :
    (m.operated .ge).Leaves (.bool t) below ↔ a.greaterOrEqual b = .ok t :=
  here.leaves_bool_iff (id_map _)

/-- For a comparable pair `ISGE` leaves whether `ISGT` or `ISEQ` does. -/
theorem Applies.greaterOrEqual (greater : m₁.Applies .gt a b below₁)
    (either : m₂.Applies .ge a b below₂) (equal : m₃.Applies .eq a b below₃)
    (comparable : a.Comparable b) :
    ∃ t u : Bool, (m₁.operated .gt).Leaves (.bool t) below₁ ∧
      (m₃.operated .eq).Leaves (.bool u) below₃ ∧
        (m₂.operated .ge).Leaves (.bool (t || u)) below₂ := by
  obtain ⟨t, computed, computed'⟩ := Value.greaterOrEqual_eq comparable
  exact ⟨t, a.equal b, greater.leaves_gt_iff.2 computed, equal.leaves_iff.2 rfl,
    either.leaves_ge_iff.2 computed'⟩

end Machine

/-- `ISGT` is a strict order, and `ISGE` agrees with it and with `ISEQ`, in any programs: `ISGT` and
    `ISGE` fail by a type mismatch for the pairs that are neither two numbers nor two texts, and for
    no others; else `ISGE` leaves true exactly when `ISGT` or `ISEQ` does. `ISGT` never leaves true
    both ways round, and what it leaves is transitive, for integers and doubles of any kind. -/
theorem isGt_strict_order :
    (∀ (a b : Value) (m₁ m₂ m₃ : Machine σ) (below₁ below₂ below₃ : List Value),
      m₁.Applies .gt a b below₁ → m₂.Applies .ge a b below₂ → m₃.Applies .eq a b below₃ →
        ((m₁.operated .gt).Mismatches .isGt a b ↔ ¬ a.Comparable b) ∧
          ((m₂.operated .ge).Mismatches .isGe a b ↔ ¬ a.Comparable b) ∧
          (a.Comparable b → ∃ t u : Bool, (m₁.operated .gt).Leaves (.bool t) below₁ ∧
            (m₃.operated .eq).Leaves (.bool u) below₃ ∧
              (m₂.operated .ge).Leaves (.bool (t || u)) below₂)) ∧
      (∀ (a b : Value) (m₁ m₂ : Machine σ) (below₁ below₂ : List Value),
        m₁.Applies .gt a b below₁ → m₂.Applies .gt b a below₂ →
          ¬ ((m₁.operated .gt).Leaves (.bool true) below₁ ∧
            (m₂.operated .gt).Leaves (.bool true) below₂)) ∧
      ∀ (a b c : Value) (m₁ m₂ m₃ : Machine σ) (below₁ below₂ below₃ : List Value),
        m₁.Applies .gt a b below₁ → m₂.Applies .gt b c below₂ → m₃.Applies .gt a c below₃ →
          (m₁.operated .gt).Leaves (.bool true) below₁ →
            (m₂.operated .gt).Leaves (.bool true) below₂ →
              (m₃.operated .gt).Leaves (.bool true) below₃ := by
  refine ⟨?_, ?_, ?_⟩
  · intro a b m₁ m₂ m₃ below₁ below₂ below₃ greater either equal
    exact ⟨greater.mismatches_iff rfl, either.mismatches_iff rfl,
      greater.greaterOrEqual either equal⟩
  · rintro a b m₁ m₂ below₁ below₂ there back ⟨left, right⟩
    exact Value.greater_asymm (there.leaves_gt_iff.1 left) (back.leaves_gt_iff.1 right)
  · intro a b c m₁ m₂ m₃ below₁ below₂ below₃ first second both left right
    exact both.leaves_gt_iff.2
      (Value.greater_trans (first.leaves_gt_iff.1 left) (second.leaves_gt_iff.1 right))

/-- 2 ^ 53 + 1 is equal to the double 2 ^ 53 to which it rounds. The double 2 ^ 53 + 2 lies between
    it and 2 ^ 53 + 3, and none of these two integers is a double itself. -/
theorem isGt_strict_order_rounded :
    (∃ t u : Bool,
      ((Machine.onConstants .gt (.int (lastExact + 1)) (.float (floatOfInt64 lastExact))).operated
          .gt).Leaves (.bool t) [] ∧
        ((Machine.onConstants .eq (.int (lastExact + 1)) (.float (floatOfInt64 lastExact))).operated
          .eq).Leaves (.bool u) [] ∧
        ((Machine.onConstants .ge (.int (lastExact + 1)) (.float (floatOfInt64 lastExact))).operated
          .ge).Leaves (.bool (t || u)) []) ∧
      ¬ (((Machine.onConstants .gt (.int (lastExact + 1)) (.int lastExact)).operated .gt).Leaves
          (.bool true) [] ∧
        ((Machine.onConstants .gt (.int lastExact) (.int (lastExact + 1))).operated .gt).Leaves
          (.bool true) []) ∧
      ((Machine.onConstants .gt (.int (lastExact + 3)) (.int (lastExact + 1))).operated .gt).Leaves
        (.bool true) [] := by
  have applies (op : BinaryOp) (a b : Value) : (Machine.onConstants op a b).Applies op a b [] :=
    (Machine.operates_onConstants op a b).applies
  have numbers : (Value.int (lastExact + 1)).Comparable (.float (floatOfInt64 lastExact)) :=
    Or.inl ⟨⟨_, rfl⟩, ⟨_, rfl⟩⟩
  have above : (Value.int (lastExact + 3)).greater (.float (floatOfInt64 (lastExact + 2))) =
      .ok true := by decide +kernel
  have below : (Value.float (floatOfInt64 (lastExact + 2))).greater (.int (lastExact + 1)) =
      .ok true := by decide +kernel
  obtain ⟨consistent, asymmetric, transitive⟩ := isGt_strict_order (σ := Unit)
  refine ⟨?_, ?_, ?_⟩
  · exact (consistent _ _ _ _ _ _ _ _ (applies .gt _ _) (applies .ge _ _)
      (applies .eq _ _)).2.2 numbers
  · exact asymmetric _ _ _ _ _ _ (applies .gt _ _) (applies .gt _ _)
  · exact transitive _ _ _ _ _ _ _ _ _ (applies .gt _ _) (applies .gt _ _) (applies .gt _ _)
      ((applies .gt _ _).leaves_gt_iff.2 above) ((applies .gt _ _).leaves_gt_iff.2 below)

end ImpStack
