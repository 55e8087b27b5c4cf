/-
Module: ImpStack.Proofs.Comparison
Purpose: Laws of comparisons. Numbers of different types compare by rank as doubles, two integers
  exactly. Equality is symmetric, and transitive but through a double that two integers round to; a
  comparison and its mirror image agree but for not-a-number.
Main exports: Value.isNaN, Value.rank?, Value.equal_trans, Value.compare?_swap,
  BinaryOp.result_eq, comparisons_mirror, isEq_equality
-/
import ImpStack.Proofs.IntegerRounding
import ImpStack.Proofs.Operators

namespace ImpStack

variable {σ : Type} {a b c : Value}

namespace Value

/-- Whether a value is not-a-number. -/
def isNaN : Value → Bool
  | float x => x.isNaN
  | _ => false

/-- The rank of a number as a double. -/
def rank? (v : Value) : Option Rank := v.number?.bind floatRank?

/-- Whether a value is a double. -/
def isFloat : Value → Bool
  | float _ => true
  | _ => false

/-- The rank of an integer is that of the double that it rounds to. -/
theorem rank?_int (n : Int64) : (int n).rank? = some (integerRank n.toInt) :=
  floatRank?_floatOfInt64 n

/-- The values with a rank are the numbers other than not-a-number. -/
theorem ranked_iff :
    (∃ r, a.rank? = some r) ↔ (∃ x, a.number? = some x) ∧ a.isNaN = false := by
  cases a with
  | int n => simp [rank?_int, number?, isNaN]
  | float x =>
      have ranked : floatRank? x ≠ none ↔ x.isNaN = false := by
        rw [ne_eq, floatRank?_eq_none_iff, Bool.not_eq_true]
      show (∃ r, floatRank? x = some r) ↔ (∃ y, some x = some y) ∧ x.isNaN = false
      rw [← ranked, Option.ne_none_iff_exists']
      exact (and_iff_right ⟨x, rfl⟩).symm
  | str s => simp [rank?, number?]
  | bool t => simp [rank?, number?]
  | nil => simp [rank?, number?]

/-! ### Equality

Two integers are compared as integers and any other two numbers as doubles. The rank of a number,
where it lies among all numbers, decides equality as soon as one side is a double; this is why
equality is transitive except through two integers that one double cannot tell apart. -/

/-- Two values are equal if they are the same and no double, or if one is a double and both have
    one rank. -/
theorem equal_iff :
    a.equal b = true ↔
      a = b ∧ a.isFloat = false ∨
        (a.isFloat = true ∨ b.isFloat = true) ∧ ∃ r, a.rank? = some r ∧ b.rank? = some r := by
  unfold equal
  cases a <;> cases b <;> simp [number?, isFloat, rank?, float_beq_iff, compareRanks?_eq_eq_iff]

/-- Only not-a-number differs from itself. -/
theorem equal_self : a.equal a = true ↔ a.isNaN = false := by
  have other (h : a.isFloat = false) : a.equal a = true := equal_iff.2 (Or.inl ⟨rfl, h⟩)
  cases a with
  | float x =>
      have ranked := ranked_iff (a := float x)
      rw [and_iff_right ⟨x, rfl⟩] at ranked
      rw [← ranked, equal_iff]
      simp [isFloat]
  | int n => exact iff_of_true (other rfl) rfl
  | str s => exact iff_of_true (other rfl) rfl
  | bool t => exact iff_of_true (other rfl) rfl
  | nil => exact iff_of_true (other rfl) rfl

theorem equal_comm (a b : Value) : a.equal b = b.equal a := by
  have swap {a b : Value} (h : a.equal b = true) : b.equal a = true := by
    rcases equal_iff.1 h with ⟨rfl, _⟩ | ⟨double, r, left, right⟩
    · exact h
    · exact equal_iff.2 (Or.inr ⟨double.symm, r, right, left⟩)
  exact Bool.eq_iff_iff.2 ⟨swap, swap⟩

theorem float_of_isFloat (double : a.isFloat = true) : ∃ x, a = float x := by
  cases a with
  | float x => exact ⟨x, rfl⟩
  | int n => cases double
  | str s => cases double
  | bool t => cases double
  | nil => cases double

/-- A value with a rank that is no double is an integer. -/
theorem int_of_rank? {r : Rank} (ranked : a.rank? = some r) (single : ¬ a.isFloat = true) :
    ∃ n, a = int n := by
  cases a with
  | int n => exact ⟨n, rfl⟩
  | float x => exact absurd rfl single
  | str s => cases ranked
  | bool t => cases ranked
  | nil => cases ranked

/-- Equality goes through all values but a double between two integers. -/
theorem equal_trans (first : a.equal b = true) (second : b.equal c = true) :
    a.equal c = true ∨ ∃ m x n, a = int m ∧ b = float x ∧ c = int n := by
  rcases equal_iff.1 first with ⟨rfl, _⟩ | ⟨mixed, r, left, right⟩
  · exact Or.inl second
  rcases equal_iff.1 second with ⟨rfl, _⟩ | ⟨_, r', left', right'⟩
  · exact Or.inl first
  cases right.symm.trans left'
  by_cases double : a.isFloat = true ∨ c.isFloat = true
  · exact Or.inl (equal_iff.2 (Or.inr ⟨double, r, left, right'⟩))
  · obtain ⟨m, rfl⟩ := int_of_rank? left fun h => double (Or.inl h)
    obtain ⟨n, rfl⟩ := int_of_rank? right' fun h => double (Or.inr h)
    obtain ⟨x, rfl⟩ := float_of_isFloat (mixed.resolve_left nofun)
    exact Or.inr ⟨m, x, n, rfl, rfl, rfl⟩

/-! ### Order

The order of two numbers is read off in the same way: as integers if both are, and by rank
otherwise. Not-a-number has no rank, so it is in no order with anything. -/

/-- Comparing the other way round gives the opposite order, and fails for the same pairs. -/
theorem compare?_swap (a b : Value) :
    compare? b a = match compare? a b with
      | .ok order => .ok (order.map .swap)
      | .error _ => .error (mismatch b a) := by
  have floats (x y : Float) : compareFloats? y x = (compareFloats? x y).map .swap := by
    rw [compareFloats?_eq, compareFloats?_eq, compareRanks?_swap]
  cases a <;> cases b
  all_goals try rfl
  case int.int m n => exact congrArg (fun order => Except.ok (some order)) Std.OrientedOrd.eq_swap
  case str.str s t => exact congrArg (fun order => Except.ok (some order)) Std.OrientedOrd.eq_swap
  all_goals exact congrArg Except.ok (floats _ _)

/-- Numbers that are not both integers compare by rank. -/
theorem compare?_of_rank? {r s : Rank} (left : a.rank? = some r) (right : b.rank? = some s)
    (mixed : a.isFloat = true ∨ b.isFloat = true) :
    compare? a b = .ok (some (compare r s)) := by
  obtain ⟨x, number, ranked⟩ := Option.bind_eq_some_iff.1 left
  obtain ⟨y, number', ranked'⟩ := Option.bind_eq_some_iff.1 right
  have floats : compareFloats? x y = some (compare r s) := by
    rw [compareFloats?_eq, ranked, ranked']
    rfl
  rw [← floats]
  rcases mixed with double | double
  · obtain ⟨_, rfl⟩ := float_of_isFloat double
    cases number
    cases b <;> cases number' <;> rfl
  · obtain ⟨_, rfl⟩ := float_of_isFloat double
    cases number'
    cases a <;> cases number <;> rfl

/-- Two values that can be compared have an order unless one of them is not-a-number. -/
theorem eq_none_iff_isNaN {order : Option Ordering} (h : compare? a b = .ok order) :
    order = none ↔ a.isNaN = true ∨ b.isNaN = true := by
  have floats (x y : Float) :
      compareFloats? x y = none ↔ floatRank? x = none ∨ floatRank? y = none := by
    rw [compareFloats?_eq]
    cases floatRank? x <;> cases floatRank? y <;> simp [compareRanks?]
  cases a <;> cases b <;> cases h <;>
    simp [isNaN, floats, floatRank?_eq_none_iff, floatRank?_floatOfInt64]

/-- Of two values that can be compared, those are equal that neither is greater. -/
theorem equal_iff_compare? {order : Option Ordering} (h : compare? a b = .ok order) :
    a.equal b = true ↔ order = some .eq := by
  have floats (x y : Float) : (x == y) = true ↔ compareFloats? x y = some .eq := by
    rw [float_beq_iff, compareFloats?_eq]
  unfold equal
  cases a <;> cases b <;> cases h <;> simp [number?, floats]

/-- Integers compare exactly. -/
theorem greater_int (m n : Int64) : (int m).greater (int n) = .ok (decide (n < m)) := by
  have order : some (compare m n) = some .gt ↔ n < m := by
    rw [Option.some.injEq, Std.compare_eq_gt]
  exact congrArg Except.ok (decide_eq_decide.2 order)

theorem greaterOrEqual_int (m n : Int64) :
    (int m).greaterOrEqual (int n) = .ok (decide (n ≤ m)) := by
  have order : (some (compare m n) = some .gt ∨ some (compare m n) = some .eq) ↔ n ≤ m := by
    rw [← Std.isGE_compare]
    cases compare m n <;> decide
  exact congrArg Except.ok (decide_eq_decide.2 order)

end Value

/-! ### Comparison operators

The machine has instructions for three of the six comparisons; the others are negations of their
complements. Mirroring a comparison swaps its sides, which is the same as asking for the mirrored
order, unless not-a-number makes the answer of a negation true. -/

namespace BinaryOp

/-- The operators that ask for an order. -/
def isOrdering : BinaryOp → Bool
  | .lt | .le | .gt | .ge => true
  | _ => false

/-- Whether an operator that asks for an order is content with one. Numbers without an order are
    neither greater nor equal, so what is computed by negation is content with them. -/
def accepts : BinaryOp → Option Ordering → Bool
  | .gt, order => order = some .gt
  | .ge, order => order = some .gt ∨ order = some .eq
  | .le, order => order ≠ some .gt
  | .lt, order => order ≠ some .gt ∧ order ≠ some .eq
  | _, _ => false

/-- The operator that asks for the opposite order. -/
def mirrored : BinaryOp → BinaryOp
  | .lt => .gt
  | .gt => .lt
  | .le => .ge
  | .ge => .le
  | op => op

/-- A mirrored comparison accepts the swapped orders. -/
theorem accepts_mirrored {op : BinaryOp} (ordering : op.isOrdering = true) (order : Ordering) :
    op.mirrored.accepts (some order.swap) = op.accepts (some order) := by
  cases op
  case lt | le | gt | ge => cases order <;> rfl
  all_goals cases ordering

/-- An operator that asks for an order depends on the operands' order alone. -/
theorem result_eq {op : BinaryOp} (ordering : op.isOrdering = true) (a b : Value) :
    op.result a b = (fun order => .bool (op.accepts order)) <$> a.compare? b := by
  cases op
  case lt | le | gt | ge =>
    simp only [result, compute, negated, Value.greater, Value.greaterOrEqual]
    cases a.compare? b <;> simp [accepts, Value.truthy]
  all_goals cases ordering

end BinaryOp

namespace Machine

variable {m m' : Machine σ} {below below' : List Value}

/-- A comparison by negation and its mirror image fail for the same operands. Else they agree,
    unless an operand is not-a-number: then the negation is true and the mirror image false. -/
theorem Applies.mirror {op : BinaryOp} (less : op = .lt ∨ op = .le)
    (here : m.Applies op a b below) (there : m'.Applies op.mirrored b a below') :
    ((m.operated op).Fails ↔ (m'.operated op.mirrored).Fails) ∧
      (¬ (m.operated op).Fails → ∃ t t' : Bool,
        (m.operated op).Leaves (.bool t) below ∧
          (m'.operated op.mirrored).Leaves (.bool t') below' ∧
          if a.isNaN = true ∨ b.isNaN = true then t = true ∧ t' = false else t = t') := by
  have ordering : op.isOrdering = true := by rcases less with rfl | rfl <;> rfl
  have mirrored : op.mirrored.isOrdering = true := by rcases less with rfl | rfl <;> rfl
  have unordered : op.accepts none = true ∧ op.mirrored.accepts none = false := by
    rcases less with rfl | rfl <;> exact ⟨rfl, rfl⟩
  simp only [here.fails_iff, there.fails_iff, here.leaves_iff, there.leaves_iff,
    BinaryOp.result_eq ordering, BinaryOp.result_eq mirrored]
  have swapped := Value.compare?_swap a b
  cases compared : a.compare? b with
  | error e =>
      rw [compared] at swapped
      rw [swapped]
      exact ⟨⟨fun _ => ⟨_, rfl⟩, fun _ => ⟨_, rfl⟩⟩, fun succeeds => absurd ⟨_, rfl⟩ succeeds⟩
  | ok order =>
      rw [compared] at swapped
      rw [swapped]
      refine ⟨⟨nofun, nofun⟩, fun _ => ⟨_, _, rfl, rfl, ?_⟩⟩
      -- there is no order exactly if not-a-number is among the operands
      have missing := Value.eq_none_iff_isNaN compared
      cases order with
      | none =>
          rw [if_pos (missing.1 rfl)]
          exact unordered
      | some order =>
          rw [if_neg fun nan => absurd (missing.2 nan) nofun]
          exact (BinaryOp.accepts_mirrored ordering order).symm

/-- At most one of `<`, `==` and `>` is true of two values. -/
theorem Applies.trichotomy {m₁ m₂ m₃ : Machine σ} {below₁ below₂ below₃ : List Value}
    (less : m₁.Applies .lt a b below₁) (equal : m₂.Applies .eq a b below₂)
    (greater : m₃.Applies .gt a b below₃) :
    ¬ ((m₁.operated .lt).Leaves (.bool true) below₁ ∧
        (m₂.operated .eq).Leaves (.bool true) below₂) ∧
      ¬ ((m₁.operated .lt).Leaves (.bool true) below₁ ∧
        (m₃.operated .gt).Leaves (.bool true) below₃) ∧
      ¬ ((m₂.operated .eq).Leaves (.bool true) below₂ ∧
        (m₃.operated .gt).Leaves (.bool true) below₃) := by
  have compares : BinaryOp.eq.result a b = .ok (.bool (a.equal b)) := rfl
  have lt := @BinaryOp.result_eq .lt rfl a b
  have gt := @BinaryOp.result_eq .gt rfl a b
  simp only [less.leaves_iff, equal.leaves_iff, greater.leaves_iff, compares, lt, gt]
  cases compared : a.compare? b with
  | error e => exact ⟨nofun, nofun, nofun⟩
  | ok order =>
      have same := Value.equal_iff_compare? compared
      rcases order with _ | (_ | _ | _) <;> simp [BinaryOp.accepts, same]

end Machine

/-! ### Comparisons in programs

From the operator to a program that is compiled and run: the result of a comparison is on top of the
stack when its code has been executed. -/

/-- `<` and `<=` against `>` and `>=` of the operands exchanged, in any two programs: both fail or
    neither does, and what they leave is the same unless an operand is not-a-number; then `<` and
    `<=` are true and the others false. At most one of `<`, `==` and `>` is true of two values. -/
theorem comparisons_mirror :
    (∀ (op : BinaryOp) (a b : Value) (m m' : Machine σ) (below below' : List Value),
      op = .lt ∨ op = .le → m.Operates op a b below → m'.Operates op.mirrored b a below' →
        ((m.operated op).Fails ↔ (m'.operated op.mirrored).Fails) ∧
          (¬ (m.operated op).Fails → ∃ t t' : Bool,
            (m.operated op).Leaves (.bool t) below ∧
              (m'.operated op.mirrored).Leaves (.bool t') below' ∧
              if a.isNaN = true ∨ b.isNaN = true then t = true ∧ t' = false else t = t')) ∧
      ∀ (a b : Value) (m₁ m₂ m₃ : Machine σ) (below₁ below₂ below₃ : List Value),
        m₁.Operates .lt a b below₁ → m₂.Operates .eq a b below₂ → m₃.Operates .gt a b below₃ →
          ¬ ((m₁.operated .lt).Leaves (.bool true) below₁ ∧
              (m₂.operated .eq).Leaves (.bool true) below₂) ∧
            ¬ ((m₁.operated .lt).Leaves (.bool true) below₁ ∧
              (m₃.operated .gt).Leaves (.bool true) below₃) ∧
            ¬ ((m₂.operated .eq).Leaves (.bool true) below₂ ∧
              (m₃.operated .gt).Leaves (.bool true) below₃) := by
  constructor
  · intro op a b m m' below below' less here there
    exact here.applies.mirror less there.applies
  · intro a b m₁ m₂ m₃ below₁ below₂ below₃ less equal greater
    exact less.applies.trichotomy equal.applies greater.applies

/-- The integer 1 and the double 2. -/
theorem comparisons_mirror_constants :
    ∃ t t' : Bool,
      ((Machine.onConstants .le (.int 1) (.float (floatOfInt64 2))).operated .le).Leaves
          (.bool t) [] ∧
        ((Machine.onConstants .ge (.float (floatOfInt64 2)) (.int 1)).operated .ge).Leaves
          (.bool t') [] ∧
        if (Value.int 1).isNaN = true ∨ (Value.float (floatOfInt64 2)).isNaN = true then
          t = true ∧ t' = false
        else t = t' := by
  have leaves : ((Machine.onConstants .le (.int 1) (.float (floatOfInt64 2))).operated .le).Leaves
      (.bool true) [] := ⟨rfl, by decide +kernel⟩
  exact (comparisons_mirror.1 .le (.int 1) (.float (floatOfInt64 2)) _ _ _ _ (Or.inr rfl)
    (Machine.operates_onConstants _ _ _) (Machine.operates_onConstants _ _ _)).2 leaves.not_fails

/-- Not-a-number, as the difference of two numbers that are too large. -/
def notANumber : Value :=
  .float (floatOfInt64 1 / floatOfInt64 0 - floatOfInt64 1 / floatOfInt64 0)

/-- Compiled code finds not-a-number less than one, and one not greater than it. -/
theorem less_but_not_exceeded :
    compile [] ⟨[.binary .lt (.literal notANumber) (.literal (.int 1))]⟩ =
        .ok (.onConstants .lt notANumber (.int 1)) ∧
      compile [] ⟨[.binary .gt (.literal (.int 1)) (.literal notANumber)]⟩ =
        .ok (.onConstants .gt (.int 1) notANumber) ∧
      (Machine.onConstants .lt notANumber (.int 1)).Operates .lt notANumber (.int 1) [] ∧
      (Machine.onConstants .gt (.int 1) notANumber).Operates .gt (.int 1) notANumber [] ∧
      ((Machine.onConstants .lt notANumber (.int 1)).operated .lt).Leaves (.bool true) [] ∧
      ((Machine.onConstants .gt (.int 1) notANumber).operated .gt).Leaves (.bool false) [] := by
  refine ⟨compile_onConstants _ _ _, compile_onConstants _ _ _, Machine.operates_onConstants _ _ _,
    Machine.operates_onConstants _ _ _, ⟨rfl, ?_⟩, ⟨rfl, ?_⟩⟩
  · decide +kernel
  · decide +kernel

/-! ### Equality in programs

The same of the instruction for equality. A chain through an integer, a double and another integer
shows that nothing stronger than the statement on transitivity holds. -/

/-- What `ISEQ` leaves, in any program, is an equality but for doubles: not-a-number differs from
    itself, and a double may be equal to two integers that differ. -/
theorem isEq_equality :
    (∀ (a b : Value) (m : Machine σ) (below : List Value), m.Applies .eq a b below →
        (m.operated .eq).Leaves (.bool (a.equal b)) below) ∧
      (∀ a : Value, a.equal a = true ↔ a.isNaN = false) ∧
      (∀ a b : Value, a.equal b = b.equal a) ∧
      ∀ a b c : Value, a.equal b = true → b.equal c = true →
        a.equal c = true ∨
          ∃ m x n, a = .int m ∧ b = .float x ∧ c = .int n ∧ m ≠ n ∧ a.equal c = false := by
  refine ⟨?_, fun a => Value.equal_self, Value.equal_comm, ?_⟩
  · intro a b m below applies
    exact applies.leaves_iff.2 rfl
  · intro a b c first second
    rcases Value.equal_trans first second with same | ⟨m, x, n, rfl, rfl, rfl⟩
    · exact Or.inl same
    · have exact : (Value.int m).equal (.int n) = decide (m = n) := rfl
      by_cases same : m = n
      · exact Or.inl (exact.trans (decide_eq_true same))
      · exact Or.inr ⟨m, x, n, rfl, rfl, rfl, same, exact.trans (decide_eq_false same)⟩

/-- An integer, the same number as a double, and the integer again. -/
theorem isEq_equality_mixed :
    (Value.int 7).equal (.float (floatOfInt64 7)) = true ∧
      (Value.float (floatOfInt64 7)).equal (.int 7) = true ∧
      ((Value.int 7).equal (.int 7) = true ∨
        ∃ m x n, Value.int 7 = .int m ∧ Value.float (floatOfInt64 7) = .float x ∧
          Value.int 7 = .int n ∧ m ≠ n ∧ (Value.int 7).equal (.int 7) = false) := by
  have first : (Value.int 7).equal (.float (floatOfInt64 7)) = true := by decide +kernel
  have second : (Value.float (floatOfInt64 7)).equal (.int 7) = true := by decide +kernel
  exact ⟨first, second, (isEq_equality (σ := Unit)).2.2.2 _ _ _ first second⟩

/-- In three programs that each compare two constants, the double that two integers round to is
    equal to both, but they are not equal. -/
theorem isEq_not_transitive :
    ((Machine.onConstants .eq (.int lastExact) (.float (floatOfInt64 lastExact))).operated
        .eq).Leaves (.bool true) [] ∧
      ((Machine.onConstants .eq (.float (floatOfInt64 lastExact)) (.int (lastExact + 1))).operated
        .eq).Leaves (.bool true) [] ∧
      ((Machine.onConstants .eq (.int lastExact) (.int (lastExact + 1))).operated
        .eq).Leaves (.bool false) [] := by
  refine ⟨⟨rfl, ?_⟩, ⟨rfl, ?_⟩, ⟨rfl, ?_⟩⟩
  · decide +kernel
  · decide +kernel
  · decide +kernel

end ImpStack
