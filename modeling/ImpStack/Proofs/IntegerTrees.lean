/-
Module: ImpStack.Proofs.IntegerTrees
Purpose: Arithmetic on integers is exact. A tree of integer constants, sums, differences, products
  and opposites is compiled to code that leaves its mathematical value, or fails at the first of its
  parts whose value has no 64 bits.
Main exports: IntTree, IntTree.value, IntTree.subtrees, IntTree.Fits, Eval.Yields,
  integer_trees_exact
-/
import Mathlib
import ImpStack.Proofs.Correctness
import ImpStack.Proofs.Rejection

namespace ImpStack

variable {σ : Type}

/-! ### Trees

A tree has a value in mathematics, and its subtrees come in the order in which they are computed.
The first of them whose value has no 64 bits is where the computation stops. -/

/-- The operators that make an integer of two. -/
inductive IntOp where
  | add
  | sub
  | mul
deriving DecidableEq

namespace IntOp

/-- The operator in syntax trees. -/
def operator : IntOp → BinaryOp
  | add => .add
  | sub => .sub
  | mul => .mul

/-- The operation on the integers of mathematics. -/
def apply : IntOp → Int → Int → Int
  | add => (· + ·)
  | sub => (· - ·)
  | mul => (· * ·)

end IntOp

/-- A tree of integer constants and operators on integers. -/
inductive IntTree where
  | literal (n : Int64)
  | binary (op : IntOp) (left right : IntTree)
  | neg (operand : IntTree)
deriving DecidableEq

namespace IntTree

/-- The syntax tree. -/
def node : IntTree → Node
  | literal n => .literal (.int n)
  | binary op left right => .binary op.operator left.node right.node
  | neg operand => .unary .neg operand.node

/-- The value in mathematics. -/
def value : IntTree → Int
  | literal n => n.toInt
  | binary op left right => op.apply left.value right.value
  | neg operand => -operand.value

/-- The opcode that computes the root from its operands. The opposite is a product with minus
    one. -/
def opcode : IntTree → Opcode
  | literal _ => .push
  | binary op _ _ => op.operator.opcode
  | neg _ => .mul

/-- All subtrees, operands before the operator that they belong to and left before right. -/
def subtrees : IntTree → List IntTree
  | literal n => [literal n]
  | binary op left right => left.subtrees ++ right.subtrees ++ [binary op left right]
  | neg operand => operand.subtrees ++ [neg operand]

/-- Whether the value is a signed number of 64 bits. -/
def Fits (t : IntTree) : Prop := -2 ^ 63 ≤ t.value ∧ t.value < 2 ^ 63

instance (t : IntTree) : Decidable t.Fits := inferInstanceAs (Decidable (_ ∧ _))

/-- Fitting means being the value of a signed number of 64 bits. -/
theorem fits_iff {t : IntTree} : t.Fits ↔ ∃ n : Int64, n.toInt = t.value := by
  constructor
  · rintro ⟨low, high⟩
    exact ⟨.ofInt t.value, Int64.toInt_ofInt_of_le low high⟩
  · rintro ⟨n, same⟩
    rw [Fits, ← same]
    exact ⟨n.le_toInt, n.toInt_lt⟩

/-- The first subtree whose value does not fit. -/
def misfit? (t : IntTree) : Option IntTree := t.subtrees.find? fun s => ¬ s.Fits

end IntTree

/-! ### Evaluation

By induction on the tree: each part adds its value to the stack and changes nothing else, until
there is a misfit. An operator fails exactly if its own value does not fit, as those of its operands
did. -/

/-- How an evaluation that adds an integer to the stack ends: that is all it changes, or, if some
    tree does not fit, it fails by an overflow in its opcode. It does not call the host. -/
inductive Yielded (env : Env σ) :
    Option IntTree → Int → EStateM.Result Interruption (Env σ) Unit → Prop where
  | done (n : Int64) : Yielded env none n.toInt (.ok () { env with stack := .int n :: env.stack })
  | overflow {s : IntTree} {z : Int} {env' : Env σ} (calls : env'.calls = env.calls) :
      Yielded env (some s) z (.error (.failed (.integerOverflow s.opcode)) env')

namespace Eval

def Yields (x : Eval σ Unit) (misfit? : Option IntTree) (z : Int) : Prop :=
  ∀ env, Yielded env misfit? z (x env)

theorem yields_push (n : Int64) : Yields (push (.int n) : Eval σ Unit) none n.toInt :=
  fun _ => .done n

/-- The opcode of a tree's root makes of the operands' values the tree's, if it fits. -/
theorem yielded_operate {t : IntTree} (op : IntOp) (opcode : t.opcode = op.operator.opcode)
    {m n : Int64} (value : t.value = op.apply m.toInt n.toInt) (env : Env σ) :
    Yielded env (if t.Fits then none else some t) t.value
      (operate op.operator { env with stack := .int n :: .int m :: env.stack }) := by
  have computed : op.operator.compute (.int m) (.int n) =
      (exactInt64? t.value).elim (.error .overflow) fun k => .ok (.int k) := by
    rw [value]
    cases op with
    | add => exact Value.combine_int (· + ·) (· + ·) m n
    | sub => exact Value.combine_int (· - ·) (· - ·) m n
    | mul => exact Value.combine_int (· * ·) (· * ·) m n
  have plain : op.operator.negated = false := by cases op <;> rfl
  by_cases fits : t.Fits
  · obtain ⟨k, same⟩ := IntTree.fits_iff.1 fits
    rw [exactInt64?_eq_some_iff.2 same, Option.elim_some] at computed
    rw [if_pos fits, operate_apply plain rfl computed, ← same]
    exact .done k
  · have none : exactInt64? t.value = none :=
      Option.eq_none_iff_forall_ne_some.2 fun k found =>
        fits (IntTree.fits_iff.2 ⟨k, exactInt64?_eq_some_iff.1 found⟩)
    rw [none, Option.elim_none] at computed
    rw [if_neg fits, operate, bind_apply, combine_apply rfl, computed, ← opcode]
    exact .overflow rfl

/-- Two operands and their operator. The first misfit is the left operand's, else the right one's,
    else the whole tree if it does not fit. -/
theorem Yields.operate {x y : Eval σ Unit} {left? right? : Option IntTree} {t : IntTree}
    {a b : Int} (op : IntOp) (opcode : t.opcode = op.operator.opcode)
    (value : t.value = op.apply a b) (left : Yields x left? a) (right : Yields y right? b) :
    Yields (do x; y; operate op.operator)
      ((left?.or right?).or (if t.Fits then none else some t)) t.value := by
  intro env
  have first := left env
  rw [bind_apply]
  generalize x env = r at first
  cases first with
  | overflow calls => exact .overflow calls
  | done m =>
      have second := right { env with stack := .int m :: env.stack }
      simp only [bind_apply]
      generalize y { env with stack := .int m :: env.stack } = r at second
      cases second with
      | overflow calls => exact .overflow calls
      | done n => exact yielded_operate op opcode value env

end Eval

namespace IntTree

theorem misfit?_literal (n : Int64) : (literal n).misfit? = none := by
  have fits : (literal n).Fits := fits_iff.2 ⟨n, rfl⟩
  simp [misfit?, subtrees, fits]

theorem find?_misfit (t : IntTree) :
    [t].find? (fun s => ¬ s.Fits) = if t.Fits then none else some t := by
  by_cases fits : t.Fits <;> simp [fits]

/-- The first misfit is in the left operand, else in the right one, else it is the whole. -/
theorem misfit?_binary (op : IntOp) (left right : IntTree) :
    (binary op left right).misfit? = (left.misfit?.or right.misfit?).or
      (if (binary op left right).Fits then none else some (binary op left right)) := by
  rw [misfit?, subtrees, List.find?_append, List.find?_append, find?_misfit]
  rfl

theorem misfit?_neg (operand : IntTree) :
    (neg operand).misfit? = (operand.misfit?.or none).or
      (if (neg operand).Fits then none else some (neg operand)) := by
  rw [misfit?, subtrees, List.find?_append, find?_misfit, Option.or_none]
  rfl

/-- Evaluating a tree adds its value to the stack, or fails at its first misfit. -/
theorem evalNode_yields (hosted : List String) (rounds : Nat) (enter : String → Eval σ Unit)
    (t : IntTree) : Eval.Yields (evalNode hosted rounds enter t.node) t.misfit? t.value := by
  induction t with
  | literal n =>
      rw [misfit?_literal]
      exact Eval.yields_push n
  | binary op left right ihl ihr =>
      rw [misfit?_binary]
      exact ihl.operate op rfl rfl ihr
  | neg operand ih =>
      have value : (neg operand).value = IntOp.mul.apply operand.value (-1 : Int64).toInt := by
        show -operand.value = operand.value * -1
        omega
      rw [misfit?_neg]
      exact ih.operate .mul rfl value (Eval.yields_push (-1))

/-! ### Compilation

A tree makes a program without declarations and calls, so the compiler always accepts it. The rest
is what holds of all compiled programs: they end as their source does. -/

theorem nested_node (t : IntTree) : t.node.nested = [] := by
  induction t with
  | literal n => rfl
  | binary op left right ihl ihr => rw [node, Node.nested, ihl, ihr]; rfl
  | neg operand ih => exact ih

theorem calls_node (t : IntTree) : t.node.calls = [] := by
  induction t with
  | literal n => rfl
  | binary op left right ihl ihr => rw [node, Node.calls, ihl, ihr]; rfl
  | neg operand ih => exact ih

/-- The program that consists of a tree. -/
def program (t : IntTree) : Program := ⟨[t.node]⟩

theorem declaration?_node (t : IntTree) : t.node.declaration? = none := by
  cases t <;> rfl

theorem declarations_program (t : IntTree) : t.program.declarations = [] := by
  simp [program, Program.declarations, declaration?_node]

theorem body_program (t : IntTree) : t.program.body = [t.node] := by
  simp [program, Program.body, declaration?_node]

/-- The compiler accepts every tree, whatever the host's functions are. -/
theorem compiles (hosted : List String) (t : IntTree) :
    ∃ b, compile hosted t.program = .ok b := by
  refine (compile_stops hosted t.program).ok_iff.2 ?_
  rw [Program.faults, Program.calls, declarations_program, body_program, Node.nestedAll,
    Node.callsAll, nested_node, calls_node]
  rfl

/-- How the program of a tree ends: with the tree's value alone on the stack, or at its first
    misfit. -/
inductive EndsBy (t : IntTree) : Option IntTree → Verdict → Prop where
  | value {n : Int64} (exact : n.toInt = t.value) :
      EndsBy t none (.halted [.int n] NameTable.empty [])
  | overflow (s : IntTree) : EndsBy t (some s) (.failed (.integerOverflow s.opcode) [])

/-- The program of a tree evaluates to the tree's value, or to the overflow of its first misfit. -/
theorem evaluatesTo (t : IntTree) (host : Builtins σ) :
    ∃ v, t.EndsBy t.misfit? v ∧ t.program.EvaluatesTo host v := by
  have root := evalNode_yields host.names 0 (enterFunction host.names [] 0) t
    ⟨[], NameTable.empty, host, []⟩
  generalize evaluated : evalNode host.names 0 (enterFunction host.names [] 0) t.node
    ⟨[], NameTable.empty, host, []⟩ = r at root
  have body : evalNodes host.names 0 (enterFunction host.names t.program.declarations 0)
      t.program.body ⟨[], NameTable.empty, host, []⟩ = r := by
    rw [declarations_program, body_program, evalNodes, Eval.bind_apply, evaluated]
    cases r <;> rfl
  generalize t.misfit? = misfit? at root
  generalize exact : t.value = z at root
  cases root with
  | done n =>
      have ended : t.program.evaluate host 0 = .ok () ⟨[.int n], NameTable.empty, host, []⟩ := by
        rw [Program.evaluate, body]
      exact ⟨_, .value exact.symm, 0, congrArg verdictOf? ended⟩
  | @overflow s _ env' calls =>
      have failed : t.program.evaluate host 0 =
          .error (.failed (.integerOverflow s.opcode)) env' := by
        rw [Program.evaluate, body]
      refine ⟨_, .overflow s, 0, (congrArg verdictOf? failed).trans ?_⟩
      exact congrArg (fun calls => some (Verdict.failed _ calls)) calls

theorem runsTo {b : Bytecode} {host : Builtins σ} {t : IntTree}
    (compiled : compile host.names t.program = .ok b) :
    ∃ v, t.EndsBy t.misfit? v ∧ b.RunsTo host v := by
  obtain ⟨functions, start, main, assembly⟩ := compile_assembly compiled
  obtain ⟨v, ends, evaluates⟩ := t.evaluatesTo host
  exact ⟨v, ends, (assembly.runsTo_iff v).2 evaluates⟩

/-- No constant is a misfit. -/
theorem opcode_of_misfit {s : IntTree} (other : ¬ s.Fits) : s.opcode ∈ [.add, .sub, .mul] := by
  cases s with
  | literal n => exact absurd (fits_iff.2 ⟨n, rfl⟩) other
  | binary op left right => cases op <;> simp [opcode, IntOp.operator, BinaryOp.opcode]
  | neg operand => simp [opcode]

end IntTree

/-- Arithmetic on integers is exact. The program of a tree of integers is compiled, and runs to the
    tree's value if all subtrees fit; else it fails by an overflow in the opcode of the first
    subtree, operands before their operator and left before right, that does not fit. Whenever it
    halts, it leaves the tree's value. -/
theorem integer_trees_exact (host : Builtins σ) (t : IntTree) :
    ∃ b, compile host.names t.program = .ok b ∧
      ((∀ s ∈ t.subtrees, s.Fits) → ∃ n : Int64, n.toInt = t.value ∧
        b.RunsTo host (.halted [.int n] NameTable.empty [])) ∧
      (∀ before s after, t.subtrees = before ++ s :: after → (∀ r ∈ before, r.Fits) → ¬ s.Fits →
        s.opcode ∈ [.add, .sub, .mul] ∧ b.RunsTo host (.failed (.integerOverflow s.opcode) [])) ∧
      ∀ stack bindings calls, b.RunsTo host (.halted stack bindings calls) →
        ∃ n : Int64, n.toInt = t.value ∧ stack = [.int n] := by
  obtain ⟨b, compiled⟩ := t.compiles host.names
  obtain ⟨v, ends, runs⟩ := IntTree.runsTo compiled
  refine ⟨b, compiled, ?_, ?_, ?_⟩
  · intro fit
    have none : t.misfit? = none := by
      rw [IntTree.misfit?, List.find?_eq_none]
      simpa using fit
    rw [none] at ends
    cases ends with
    | value exact => exact ⟨_, exact, runs⟩
  · intro before s after split fit other
    have first : t.misfit? = some s := by
      rw [IntTree.misfit?, List.find?_eq_some_iff_append]
      exact ⟨by simpa using other, before, after, split, by simpa using fit⟩
    rw [first] at ends
    cases ends with
    | overflow => exact ⟨IntTree.opcode_of_misfit other, runs⟩
  · intro stack bindings calls halted
    -- a program runs to one verdict only
    cases runs.unique halted
    generalize t.misfit? = misfit? at ends
    cases ends with
    | value exact => exact ⟨_, exact, rfl⟩

/-- `0 * -(-2 ^ 63)`. -/
def leastOpposite : IntTree := .binary .mul (.literal 0) (.neg (.literal Int64.minValue))

/-- `-2 ^ 63 - -1`. -/
def leastNext : IntTree := .binary .sub (.literal Int64.minValue) (.neg (.literal 1))

/-- The least integer has no opposite, although the product with zero would fit; its successor is
    an integer again. -/
theorem integer_trees_exact_least :
    (∃ b, compile [] leastOpposite.program = .ok b ∧
      b.RunsTo (.empty ()) (.failed (.integerOverflow .mul) [])) ∧
      ∃ b, compile [] leastNext.program = .ok b ∧ ∃ n : Int64, n.toInt = -2 ^ 63 + 1 ∧
        b.RunsTo (.empty ()) (.halted [.int n] NameTable.empty []) := by
  constructor
  · obtain ⟨b, compiled, -, fails, -⟩ := integer_trees_exact (.empty ()) leastOpposite
    exact ⟨b, compiled, (fails [.literal 0, .literal Int64.minValue]
      (.neg (.literal Int64.minValue)) [leastOpposite] rfl (by decide) (by decide)).2⟩
  · obtain ⟨b, compiled, halts, -⟩ := integer_trees_exact (.empty ()) leastNext
    exact ⟨b, compiled, halts (by decide)⟩

end ImpStack
