/-
Module: ImpStack.Proofs.Extremes
Purpose: What the host functions `min` and `max` pick. They look at numbers as doubles, so the pick
  has an extreme rank; another argument beats it in the machine's own comparison only if both are
  integers that round to one double.
Main exports: Standard.extreme_ok, Value.NotGreaterRounded, extremes_ok
-/
import ImpStack.Proofs.Comparison

namespace ImpStack

variable {σ κ : Type}

/-! ### Going through the arguments

The pick is found by one pass that keeps the best argument so far. A strict comparison must beat it,
so of equals the first one stays. -/

namespace Standard

variable [LinearOrder κ] {beats : Float → Float → Bool} {key : Rank → κ}

/-- The pick among numbers is one of them, and no key of theirs is greater than its key. -/
theorem extremeOf_ok
    (beats_iff : ∀ x y r s, floatRank? x = some r → floatRank? y = some s →
      (beats x y = true ↔ key s < key r)) {rest : List Value} :
    ∀ {best : Value} {bestNumber : Float} {top : Rank}, best.number? = some bestNumber →
      floatRank? bestNumber = some top → (∀ v ∈ rest, ∃ s, v.rank? = some s) →
        ∃ pick ∈ best :: rest, extremeOf beats best bestNumber rest = .ok pick ∧
          ∃ t, pick.rank? = some t ∧ key top ≤ key t ∧
            ∀ v ∈ rest, ∀ s, v.rank? = some s → key s ≤ key t := by
  induction rest with
  | nil =>
      intro best bestNumber top number ranked _
      have same : best.rank? = some top := by rw [Value.rank?, number, Option.bind_some, ranked]
      exact ⟨best, List.mem_singleton.2 rfl, rfl, top, same, le_rfl, List.forall_mem_nil _⟩
  | cons v rest ih =>
      intro best bestNumber top number ranked numbers
      obtain ⟨⟨s, found⟩, others⟩ := List.forall_mem_cons.1 numbers
      obtain ⟨x, number', ranked'⟩ := Option.bind_eq_some_iff.1 found
      have wins := beats_iff x bestNumber s top ranked' ranked
      rw [extremeOf, number']
      simp only []
      by_cases beaten : beats x bestNumber = true
      · obtain ⟨pick, mem, ok, t, picked, above, greatest⟩ := ih number' ranked' others
        rw [if_pos beaten]
        refine ⟨pick, List.mem_cons_of_mem best mem, ok, t, picked, ?_, ?_⟩
        · exact le_trans (wins.1 beaten).le above
        · refine List.forall_mem_cons.2 ⟨fun s' found' => ?_, greatest⟩
          cases found.symm.trans found'
          exact above
      · obtain ⟨pick, mem, ok, t, picked, above, greatest⟩ := ih number ranked others
        rw [if_neg beaten]
        refine ⟨pick, ?_, ok, t, picked, above, ?_⟩
        · rcases List.mem_cons.1 mem with rfl | mem
          · exact List.mem_cons_self
          · exact List.mem_cons_of_mem _ (List.mem_cons_of_mem v mem)
        · refine List.forall_mem_cons.2 ⟨fun s' found' => ?_, greatest⟩
          cases found.symm.trans found'
          exact le_trans (not_lt.1 (mt wins.2 beaten)) above

/-- Among numbers, of which there is one at least, one with a greatest key is picked. -/
theorem extreme_ok
    (beats_iff : ∀ x y r s, floatRank? x = some r → floatRank? y = some s →
      (beats x y = true ↔ key s < key r)) {args : List Value} (nonempty : args ≠ [])
    (numbers : ∀ v ∈ args, ∃ s, v.rank? = some s) :
    ∃ pick ∈ args, extreme beats args = .ok pick ∧
      ∃ t, pick.rank? = some t ∧ ∀ v ∈ args, ∀ s, v.rank? = some s → key s ≤ key t := by
  cases args with
  | nil => exact absurd rfl nonempty
  | cons v rest =>
      obtain ⟨⟨s, found⟩, others⟩ := List.forall_mem_cons.1 numbers
      obtain ⟨x, number, ranked⟩ := Option.bind_eq_some_iff.1 found
      obtain ⟨pick, mem, ok, t, picked, above, greatest⟩ :=
        extremeOf_ok beats_iff number ranked others
      rw [extreme, number]
      refine ⟨pick, mem, ok, t, picked, List.forall_mem_cons.2 ⟨fun s' found' => ?_, greatest⟩⟩
      cases found.symm.trans found'
      exact above

end Standard

/-! ### The machine's comparison of the pick

The functions compare numbers as doubles while the machine compares two integers as integers. An
extreme rank therefore settles the machine's comparison except where two integers round to one
double. -/

namespace Value

/-- The first value is not greater than the second in the machine's comparison, or both are integers
    of which it is the greater one, but they round to one double. -/
def NotGreaterRounded (a b : Value) : Prop :=
  a.greater b = .ok false ∨
    ∃ m n, a = .int m ∧ b = .int n ∧ n < m ∧ (floatOfInt64 m == floatOfInt64 n) = true

/-- The machine agrees with the ranks, unless both values are integers that round to one double. -/
theorem notGreaterRounded_of_rank? {a b : Value} {r s : Rank} (left : a.rank? = some r)
    (right : b.rank? = some s) (le : r ≤ s) : a.NotGreaterRounded b := by
  by_cases mixed : a.isFloat = true ∨ b.isFloat = true
  · have less : compare r s ≠ .gt := compare_le_iff_le.2 le
    rw [NotGreaterRounded, greater, compare?_of_rank? left right mixed]
    exact Or.inl (congrArg Except.ok (by simp [less]))
  · obtain ⟨m, rfl⟩ := int_of_rank? left fun h => mixed (Or.inl h)
    obtain ⟨n, rfl⟩ := int_of_rank? right fun h => mixed (Or.inr h)
    by_cases less : n < m
    · refine Or.inr ⟨m, n, rfl, rfl, less, ?_⟩
      have above := integerRank_mono (Int64.lt_iff_toInt_lt.1 less).le
      rw [rank?_int] at left right
      cases left
      cases right
      rw [float_beq_iff, floatRank?_floatOfInt64, floatRank?_floatOfInt64, le_antisymm le above]
      exact compareRanks?_eq_eq_iff.2 ⟨_, rfl, rfl⟩
    · exact Or.inl (by rw [greater_int, decide_eq_false less])

end Value

/-! ### The host functions

The two functions differ in a name and in the direction of the comparison only, so what is said
of the pick is proved for both at once. That the exception is real is shown for 2^53 and its
successor. -/

section

variable {write : String → σ → Except String Unit × σ} {world : σ} {args : List Value}
  {pick : Value}

/-- A call of one of the standard functions that only compute returns what they compute. -/
theorem standard_call {name : String} {f : List Value → Except String Value}
    (found : (Builtins.standard write world).functions.find? name = some (.ofPure f))
    (ok : f args = .ok pick) :
    ((Builtins.standard write world).call name args).1 = .ok pick := by
  simp [Builtins.call, found, HostFunction.ofPure, ok]

end

/-- What `max` and `min` of the standard host functions return for numbers without not-a-number is
    one of them, unchanged. `ISGT` finds no argument on the wrong side of it, unless that one and
    the returned one are integers that round to one double. -/
theorem extremes_ok (write : String → σ → Except String Unit × σ) (world : σ) {args : List Value}
    (nonempty : args ≠ [])
    (numbers : ∀ v ∈ args, (∃ x, v.number? = some x) ∧ v.isNaN = false) :
    (∀ (a b : Value) (m : Machine σ) (below : List Value), m.Applies .gt a b below →
        ∀ t, (m.operated .gt).Leaves (.bool t) below ↔ a.greater b = .ok t) ∧
      (∃ pick ∈ args, ((Builtins.standard write world).call "max" args).1 = .ok pick ∧
        ∀ v ∈ args, v.NotGreaterRounded pick) ∧
      ∃ pick ∈ args, ((Builtins.standard write world).call "min" args).1 = .ok pick ∧
        ∀ v ∈ args, pick.NotGreaterRounded v := by
  have ranked : ∀ v ∈ args, ∃ s, v.rank? = some s := fun v mem =>
    Value.ranked_iff.2 (numbers v mem)
  refine ⟨?_, ?_, ?_⟩
  · intro a b m below applies t
    have result : BinaryOp.gt.result a b = Value.bool <$> a.greater b := id_map _
    rw [applies.leaves_iff, result]
    cases a.greater b <;> simp
  -- `max` beats by greater ranks, and `min` by ranks in the dual order
  · have beats_iff (x y : Float) (r s : Rank) (left : floatRank? x = some r)
        (right : floatRank? y = some s) : decide (y < x) = true ↔ id s < id r := by
      rw [decide_eq_true_iff, float_lt_iff, left, right]
      exact (Option.some.injEq _ _).to_iff.trans compare_lt_iff_lt
    obtain ⟨pick, mem, ok, t, picked, greatest⟩ :=
      Standard.extreme_ok beats_iff nonempty ranked
    refine ⟨pick, mem, standard_call rfl ok, fun v mem' => ?_⟩
    obtain ⟨s, found⟩ := ranked v mem'
    exact Value.notGreaterRounded_of_rank? found picked (greatest v mem' s found)
  · have beats_iff (x y : Float) (r s : Rank) (left : floatRank? x = some r)
        (right : floatRank? y = some s) :
        decide (x < y) = true ↔ OrderDual.toDual s < OrderDual.toDual r := by
      rw [decide_eq_true_iff, float_lt_iff, left, right]
      exact (Option.some.injEq _ _).to_iff.trans compare_lt_iff_lt
    obtain ⟨pick, mem, ok, t, picked, greatest⟩ :=
      Standard.extreme_ok beats_iff nonempty ranked
    refine ⟨pick, mem, standard_call rfl ok, fun v mem' => ?_⟩
    obtain ⟨s, found⟩ := ranked v mem'
    exact Value.notGreaterRounded_of_rank? picked found (greatest v mem' s found)

/-- The standard host functions of a host that takes all text. -/
def Builtins.silent : Builtins Unit := .standard (fun _ world => (.ok (), world)) ()

/-- An integer, the double below it and the integer above, in disorder. -/
theorem extremes_ok_mixed :
    ∃ pick ∈ [Value.int 7, .float (floatOfInt64 6), .int 8],
      (Builtins.silent.call "max" [.int 7, .float (floatOfInt64 6), .int 8]).1 = .ok pick ∧
        ∀ v ∈ [Value.int 7, .float (floatOfInt64 6), .int 8], v.NotGreaterRounded pick := by
  refine (extremes_ok _ _ (List.cons_ne_nil _ _) fun v mem => ?_).2.1
  have proper : v.number?.isSome = true ∧ v.isNaN = false := by
    revert v
    decide +kernel
  exact ⟨Option.isSome_iff_exists.1 proper.1, proper.2⟩

/-- Of 2 ^ 53 and the next integer `max` returns the first, and `ISGT` finds the other greater. -/
theorem max_not_greatest :
    (Builtins.silent.call "max" [.int lastExact, .int (lastExact + 1)]).1 =
        .ok (.int lastExact) ∧
      (Machine.onConstants .gt (.int (lastExact + 1)) (.int lastExact)).Applies .gt
        (.int (lastExact + 1)) (.int lastExact) [] ∧
      ((Machine.onConstants .gt (.int (lastExact + 1)) (.int lastExact)).operated .gt).Leaves
        (.bool true) [] := by
  refine ⟨standard_call rfl ?_, (Machine.operates_onConstants _ _ _).applies, ⟨rfl, ?_⟩⟩
  · decide +kernel
  · decide +kernel

end ImpStack
