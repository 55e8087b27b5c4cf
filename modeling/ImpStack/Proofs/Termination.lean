/-
Module: ImpStack.Proofs.Termination
Purpose: Programs that always end. If a program has no loops but those that count from one integer
  to another one with a variable of their own, and no function calls itself, not even through
  others, then its run comes to an end with any host. A loop runs for as many rounds as its text
  says, and no more calls are nested than there are functions.
Main exports: Node.counted, Node.rounds, Program.Bounded, Eval.Finishes, evalNode_finishes,
  Program.Bounded.enterFunction_finishes, bounded_programs_end
-/
import ImpStack.Proofs.Comparison
import ImpStack.Proofs.Correctness
import ImpStack.Proofs.Rejection

namespace ImpStack

variable {σ α β : Type}

/-! ### Bounded programs

Both conditions can be checked on the source. The number of rounds of a loop is in its text, so a
bound for all loops of a program is known before it runs. -/

namespace Node

/-- The variable that an assignment or a counting loop sets. -/
def assigned? : Node → Option String
  | .assign name _ => some name
  | .forRange var _ _ _ => some var
  | _ => none

/-- Whether a node is no loop, or a loop that counts from an integer to an integer and whose body
    does not set its variable. -/
def counted : Node → Bool
  | .whileLoop .. | .doWhile .. => false
  | .forRange var (.literal (.int _)) (.literal (.int _)) body =>
    body.parts.all (·.assigned? ≠ some var)
  | .forRange .. => false
  | _ => true

/-- How many rounds a counting loop has. -/
def rounds : Node → Nat
  | .forRange _ (.literal (.int first)) (.literal (.int last)) _ =>
    (last.toInt - first.toInt).toNat
  | _ => 0

/-- A number that is above the rounds of all nodes. -/
def roundsBound : List Node → Nat
  | [] => 0
  | node :: rest => max (node.rounds + 1) (roundsBound rest)

theorem rounds_lt_bound {nodes : List Node} {node : Node} (mem : node ∈ nodes) :
    node.rounds < roundsBound nodes := by
  induction nodes with
  | nil => cases mem
  | cons first rest ih =>
      rcases List.mem_cons.1 mem with rfl | mem
      · exact Nat.le_max_left _ _
      · exact Nat.lt_of_lt_of_le (ih mem) (Nat.le_max_right _ _)

/-- A loop that counts has integers for bounds, and its body does not set its variable. -/
theorem forRange_of_counted {var : String} {start stop body : Node}
    (h : (Node.forRange var start stop body).counted = true) :
    ∃ first last, start = .literal (.int first) ∧ stop = .literal (.int last) ∧
      ∀ part ∈ body.parts, part.assigned? ≠ some var := by
  unfold counted at h
  split at h
  · cases ‹_›
  · cases ‹_›
  · rename_i same
    cases same
    exact ⟨_, _, rfl, rfl, by simpa using h⟩
  · cases h
  · rename_i other
    exact absurd rfl (other _ _ _ _)

end Node

/-- All loops count, and no function reaches itself by calls. -/
structure Program.Bounded (p : Program) : Prop where
  counted : ∀ s ∈ p.statements, ∀ part ∈ s.parts, part.counted = true
  acyclic : ∀ d ∈ p.declarations, ¬ p.Reaches d.body d

/-! ### Finished evaluations

An evaluation is unfinished only if the number of rounds or of nested calls was too small. It is
shown together that evaluations finish and that they keep variables that nothing in them sets, since
a loop counts only as long as its variable is kept. -/

namespace Eval

variable {ends : Prop} {kept : String → Prop} {env : Env σ}

theorem failed_ne_unfinished (e : RuntimeError) : Interruption.failed e ≠ .unfinished := by
  intro same
  cases same

theorem returned_ne_unfinished : Interruption.returned ≠ .unfinished := by
  intro same
  cases same

/-- What comes of an evaluation that was begun in `env`: if it is done, then the variables that
    `kept` holds of are as they were; and it is finished, if `ends` says so. -/
def Finished (ends : Prop) (kept : String → Prop) (env : Env σ) :
    EStateM.Result Interruption (Env σ) α → Prop
  | .ok _ env' => ∀ name, kept name → env'.bindings.find? name = env.bindings.find? name
  | .error cause _ => ends → cause ≠ .unfinished

/-- This comes of an evaluation wherever it is begun. -/
def Finishes (ends : Prop) (kept : String → Prop) (x : Eval σ α) : Prop :=
  ∀ env, Finished ends kept env (x env)

theorem Finished.bind {x : Eval σ α} {f : α → Eval σ β} (first : Finished ends kept env (x env))
    (next : ∀ a env', x env = .ok a env' → Finished ends kept env' (f a env')) :
    Finished ends kept env ((x >>= f) env) := by
  rw [bind_apply]
  cases result : x env with
  | ok a env' =>
      rw [result] at first
      have rest := next a env' result
      show Finished ends kept env (f a env')
      cases again : f a env' with
      | ok b env'' =>
          rw [again] at rest
          intro name keeps
          rw [rest name keeps, first name keeps]
      | error cause env'' =>
          rw [again] at rest
          exact rest
  | error cause env' =>
      rw [result] at first
      exact first

theorem Finishes.bind {x : Eval σ α} {f : α → Eval σ β} (first : Finishes ends kept x)
    (next : ∀ a, Finishes ends kept (f a)) : Finishes ends kept (x >>= f) :=
  fun env => (first env).bind fun a env' _ => next a env'

theorem Finishes.mono {kept' : String → Prop} {x : Eval σ α} (h : Finishes ends kept x)
    (keeps : ∀ name, kept' name → kept name) : Finishes ends kept' x := by
  intro env
  have finished := h env
  cases result : x env with
  | ok a env' =>
      rw [result] at finished
      exact fun name held => finished name (keeps name held)
  | error cause env' =>
      rw [result] at finished
      exact finished

theorem finishes_pure (a : α) : Finishes ends kept (pure a : Eval σ α) := fun _ _ _ => rfl

theorem finishes_fail (e : RuntimeError) : Finishes ends kept (fail e : Eval σ α) :=
  fun _ _ => failed_ne_unfinished e

theorem finishes_push (v : Value) : Finishes ends kept (push v : Eval σ Unit) := fun _ _ _ => rfl

theorem finishes_pop (op : Opcode) : Finishes ends kept (pop op : Eval σ Value) := by
  rintro ⟨stack, bindings, builtins, calls⟩
  cases stack with
  | nil => exact fun _ => failed_ne_unfinished _
  | cons v rest => exact fun _ _ => rfl

theorem finishes_negate : Finishes ends kept (negate : Eval σ Unit) :=
  (finishes_pop .not).bind fun _ => finishes_push _

theorem finishes_operate (op : BinaryOp) : Finishes ends kept (operate op : Eval σ Unit) := by
  have combined : Finishes ends kept (combine op.opcode op.compute : Eval σ Unit) := by
    refine (finishes_pop _).bind fun right => (finishes_pop _).bind fun left => ?_
    cases op.compute left right with
    | ok v => exact finishes_push v
    | error e => exact finishes_fail _
  refine combined.bind fun _ => ?_
  cases op.negated with
  | false => exact finishes_pure ()
  | true => exact finishes_negate

theorem finishes_test (op : Opcode) : Finishes ends kept (test op : Eval σ Bool) :=
  (finishes_pop op).bind fun _ => finishes_pure _

theorem finishes_load (name : String) : Finishes ends kept (load name : Eval σ Unit) := by
  intro env
  rw [load_apply]
  cases env.bindings.find? name with
  | some v => exact finishes_push v env
  | none => exact finishes_fail _ env

theorem finishes_store {name : String} (free : ¬ kept name) :
    Finishes ends kept (store name : Eval σ Unit) := by
  refine (finishes_pop _).bind fun v env other held => ?_
  have different : other ≠ name := fun same => free (same ▸ held)
  show (env.bindings.insert name v).find? other = env.bindings.find? other
  rw [NameTable.find?_insert, if_neg different]

theorem finishes_storeAll {names : List String} (free : ∀ name ∈ names, ¬ kept name) :
    Finishes ends kept (storeAll names : Eval σ Unit) := by
  induction names with
  | nil => exact finishes_pure ()
  | cons name rest ih =>
      have later := ih fun other mem => free other (List.mem_cons_of_mem name mem)
      exact (finishes_store (free name List.mem_cons_self)).bind fun _ => later

theorem finishes_callHost (name : String) (count : Nat) :
    Finishes ends kept (callHost name count : Eval σ Unit) := by
  intro env
  by_cases enough : count ≤ env.stack.length
  · rw [callHost_of_le enough rfl]
    cases (env.builtins.call name _).1 with
    | ok v => exact fun _ _ => rfl
    | error e => exact fun _ => failed_ne_unfinished e
  · rw [callHost_of_lt enough]
    exact fun _ => failed_ne_unfinished _

/-- A call gives back all variables. -/
theorem Finishes.invoke {body : Eval σ Unit} (params : List String)
    (h : Finishes ends (fun _ => False) body) : Finishes ends kept (invoke params body) := by
  intro env
  have stored : Finishes ends (fun _ => False) (storeAll params.reverse : Eval σ Unit) :=
    finishes_storeAll fun _ _ => id
  have finished := stored.bind (fun _ => h) { env with bindings := NameTable.empty }
  rw [Eval.invoke]
  cases result : (do storeAll params.reverse; body : Eval σ Unit)
      { env with bindings := NameTable.empty } with
  | ok a env' => exact fun _ _ => rfl
  | error cause env' =>
      rw [result] at finished
      cases cause with
      | returned => exact fun _ _ => rfl
      | failed e => exact fun _ => failed_ne_unfinished e
      | unfinished => exact finished

theorem finishes_increment {name : String} (free : ¬ kept name) :
    Finishes ends kept (increment name : Eval σ Unit) :=
  (finishes_load name).bind fun _ => (finishes_push _).bind fun _ =>
    (finishes_operate .add).bind fun _ => finishes_store free

/-! ### Loops

In each round the variable is one greater, as the body keeps it, and at the other bound the loop is
left. Adding one does not overflow below that bound. -/

/-- A loop that may be unfinished keeps what its rounds keep. -/
theorem finishes_loop {round : Eval σ Bool} (endless : ¬ ends) (h : Finishes ends kept round)
    (n : Nat) : Finishes ends kept (loop round n) := by
  induction n with
  | zero => exact fun _ finite => absurd finite endless
  | succ n ih =>
      refine h.bind fun again => ?_
      cases again with
      | true => exact ih
      | false => exact finishes_pure ()

/-- A loop is finished if each round is, and if there is always a bound on the number of rounds to
    come that is below the number of rounds that are allowed. -/
theorem finished_loop {round : Eval σ Bool} {I : Nat → Env σ → Prop}
    (h : ∀ k env, I k env → Finished ends kept env (round env) ∧
      ∀ env', round env = .ok true env' → ∃ k' < k, I k' env') {n : Nat} :
    ∀ {k : Nat} {env : Env σ}, I k env → k < n → Finished ends kept env (loop round n env) := by
  induction n with
  | zero => exact fun _ less => absurd less (Nat.not_lt_zero _)
  | succ n ih =>
      intro k env invariant less
      obtain ⟨finished, next⟩ := h k env invariant
      refine finished.bind fun again env' result => ?_
      cases again with
      | false => exact finishes_pure () env'
      | true =>
          obtain ⟨k', fewer, invariant'⟩ := next env' result
          exact ih invariant' (Nat.lt_of_lt_of_le fewer (Nat.le_of_lt_succ less))

/-- One round of a loop that counts to `stop`. -/
def countRound (var : String) (stop body : Eval σ Unit) : Eval σ Bool := do
  load var
  stop
  operate .ge
  if ← test .jumpIf then pure false
  else do
    body
    increment var
    pure true

/-- The test of a counting loop compares integers. -/
theorem compute_ge (i last : Int64) :
    BinaryOp.ge.compute (.int i) (.int last) = .ok (.bool (decide (last ≤ i))) :=
  congrArg (Value.bool <$> ·) (Value.greaterOrEqual_int i last)

/-- What a round does while the variable is an integer. -/
theorem countRound_apply {var : String} {i : Int64}
    (counts : env.bindings.find? var = some (.int i)) (last : Int64) (body : Eval σ Unit) :
    countRound var (push (.int last)) body env =
      (if last ≤ i then pure false else do body; increment var; pure true : Eval σ Bool) env := by
  rw [countRound, bind_apply, load_apply, counts]
  show (do operate .ge; if ← test .jumpIf then pure false else do body; increment var; pure true :
    Eval σ Bool) { env with stack := .int last :: .int i :: env.stack } = _
  rw [bind_apply, operate_apply rfl rfl (compute_ge i last)]
  show (if decide (last ≤ i) then pure false else do body; increment var; pure true :
    Eval σ Bool) env = _
  simp only [decide_eq_true_eq]

/-- An integer that is not the greatest has a successor. -/
theorem toInt_add_one {i last : Int64} (below : i < last) : (i + 1).toInt = i.toInt + 1 := by
  have least := i.le_toInt
  have less := Int64.lt_iff_toInt_lt.1 below
  have greatest := last.toInt_lt
  have sum : i + 1 = Int64.ofInt (i.toInt + 1) := by
    rw [Int64.ofInt_add, Int64.ofInt_toInt]
    rfl
  rw [sum, Int64.toInt_ofInt_of_le (by omega) (by omega)]

/-- A counter that is below an integer can be incremented. -/
theorem increment_apply {var : String} {i last : Int64}
    (counts : env.bindings.find? var = some (.int i)) (below : i < last) :
    increment var env = .ok () { env with bindings := env.bindings.insert var (.int (i + 1)) } := by
  have exact : exactInt64? (i.toInt + 1) = some (i + 1) :=
    exactInt64?_eq_some_iff.2 (toInt_add_one below)
  have sum : BinaryOp.add.compute (.int i) (.int 1) = .ok (.int (i + 1)) := by
    show Value.combine (· + ·) (· + ·) (.int i) (.int 1) = _
    have one : (1 : Int64).toInt = 1 := rfl
    rw [Value.combine_int, one, exact, Option.elim_some]
  rw [increment, bind_apply, load_apply, counts]
  show (do operate .add; store var : Eval σ Unit)
    { env with stack := .int 1 :: .int i :: env.stack } = _
  rw [bind_apply, operate_apply rfl rfl sum]
  rfl

theorem done_of_bind {x : Eval σ α} {f : α → Eval σ β} {b : β} {env env'' : Env σ}
    (done : (x >>= f) env = .ok b env'') :
    ∃ a env', x env = .ok a env' ∧ f a env' = .ok b env'' := by
  rw [bind_apply] at done
  cases result : x env with
  | ok a env' =>
      rw [result] at done
      exact ⟨a, env', rfl, done⟩
  | error cause env' =>
      rw [result] at done
      cases done

/-- A loop that counts to `last` is finished if it may run for as many rounds as are left. -/
theorem finished_count {var : String} {body : Eval σ Unit} {last : Int64}
    (keeps : Finishes ends (fun name => kept name ∨ name = var) body) (own : ¬ kept var) {n : Nat}
    {i : Int64} (counts : env.bindings.find? var = some (.int i))
    (enough : (last.toInt - i.toInt).toNat < n) :
    Finished ends kept env (loop (countRound var (push (.int last)) body) n env) := by
  refine finished_loop (I := fun k env => ∃ i : Int64, env.bindings.find? var = some (.int i) ∧
    (last.toInt - i.toInt).toNat = k) ?_ ⟨i, counts, rfl⟩ enough
  rintro k env ⟨i, counts, rfl⟩
  rw [countRound_apply counts]
  split
  · exact ⟨finishes_pure false env, nofun⟩
  · rename_i below
    constructor
    · have kept : Finishes ends kept body := keeps.mono fun name held => Or.inl held
      exact (kept.bind fun _ => (finishes_increment own).bind fun _ => finishes_pure true) env
    · intro env' done
      obtain ⟨_, env₁, ran, done⟩ := done_of_bind done
      obtain ⟨_, env₂, incremented, done⟩ := done_of_bind done
      cases done
      have same := keeps env
      rw [ran] at same
      -- the body keeps the variable, and adding one does not overflow below `last`
      have counts₁ := (same var (Or.inr rfl)).trans counts
      have less : i < last := Int64.not_le.1 below
      rw [increment_apply counts₁ less] at incremented
      cases incremented
      have next := toInt_add_one less
      rw [Int64.lt_iff_toInt_lt] at less
      refine ⟨(last.toInt - (i + 1).toInt).toNat, by omega, i + 1, ?_, rfl⟩
      show (env₁.bindings.insert var (.int (i + 1))).find? var = some (.int (i + 1))
      rw [NameTable.find?_insert, if_pos rfl]

end Eval

/-! ### Nodes

By induction on the node, if entering functions finishes. -/

section

open Eval

variable {ends : Prop} {hosted : List String} {n : Nat} {enter : String → Eval σ Unit}
  {kept : String → Prop} {node part : Node}

/-- No variable that `kept` holds of is set in a node, and the functions that are entered give back
    all variables. If `ends` says so, then all loops in the node count, for less than `n` rounds,
    and the functions are finished. -/
structure Steady (ends : Prop) (hosted : List String) (n : Nat) (enter : String → Eval σ Unit)
    (kept : String → Prop) (node : Node) : Prop where
  counted : ends → ∀ part ∈ node.parts, part.counted = true
  rounds : ends → ∀ part ∈ node.parts, part.rounds < n
  keeps : ∀ part ∈ node.parts, ∀ name, part.assigned? = some name → ¬ kept name
  calls : ∀ site ∈ node.calls, hosted.contains site.callee = false →
    Finishes ends (fun _ => True) (enter site.callee)

theorem Steady.child (h : Steady ends hosted n enter kept node) (mem : part ∈ node.children) :
    Steady ends hosted n enter kept part where
  counted finite inner below := h.counted finite inner (Node.parts_of_child mem below)
  rounds finite inner below := h.rounds finite inner (Node.parts_of_child mem below)
  keeps inner below := h.keeps inner (Node.parts_of_child mem below)
  calls site call := h.calls site (Node.calls_of_child mem call)

theorem evalNodes_finishes {nodes : List Node}
    (h : ∀ node ∈ nodes, Finishes ends kept (evalNode hosted n enter node)) :
    Finishes ends kept (evalNodes hosted n enter nodes) := by
  induction nodes with
  | nil => exact finishes_pure ()
  | cons node rest ih =>
      have later := ih fun e mem => h e (List.mem_cons_of_mem node mem)
      exact (h node List.mem_cons_self).bind fun _ => later

/-- A counting loop is finished, since its variable only changes between its rounds. -/
theorem forRange_finishes {var : String} {first last : Int64} {body : Node}
    (rounds : (last.toInt - first.toInt).toNat < n) (own : ¬ kept var)
    (h : Finishes ends (fun name => kept name ∨ name = var) (evalNode hosted n enter body)) :
    Finishes ends kept (evalNode hosted n enter
      (.forRange var (.literal (.int first)) (.literal (.int last)) body)) := by
  have stored : Finishes ends kept (do push (.int first); store var : Eval σ Unit) :=
    (finishes_push _).bind fun _ => finishes_store own
  intro env
  refine (stored env).bind (f := fun _ =>
    loop (countRound var (push (.int last)) (evalNode hosted n enter body)) n) ?_
  intro _ env' done
  cases done
  refine finished_count h own ?_ rounds
  show (env.bindings.insert var (.int first)).find? var = some (.int first)
  rw [NameTable.find?_insert, if_pos rfl]

/-- A node is finished if its loops count and the functions that it enters are finished. -/
theorem evalNode_finishes (node : Node) : ∀ {kept : String → Prop},
    Steady ends hosted n enter kept node → Finishes ends kept (evalNode hosted n enter node) := by
  induction node using Node.induction_on_children with
  | step node ih =>
      intro kept steady
      have below (part : Node) (mem : part ∈ node.children) :
          Finishes ends kept (evalNode hosted n enter part) := ih part mem (steady.child mem)
      cases node with
      | literal value => exact finishes_push value
      | ident name => exact finishes_load name
      | binary op left right =>
          have l := below left (by simp [Node.children, Node.operands])
          have r := below right (by simp [Node.children, Node.operands])
          exact l.bind fun _ => r.bind fun _ => finishes_operate op
      | unary op operand =>
          have o := below operand (by simp [Node.children, Node.operands])
          cases op with
          | not => exact o.bind fun _ => finishes_negate
          | neg => exact o.bind fun _ => (finishes_push _).bind fun _ => finishes_operate .mul
      | call callee args =>
          have all := evalNodes_finishes fun e mem => below e (List.mem_append_left _ mem)
          refine all.bind fun _ => ?_
          cases host : hosted.contains callee with
          | true => exact finishes_callHost callee args.length
          | false =>
              have entered := steady.calls ⟨callee, args.length⟩ (by simp [Node.calls]) host
              exact entered.mono fun _ _ => trivial
      | assign name value =>
          have v := below value (by simp [Node.children, Node.operands])
          exact v.bind fun _ => finishes_store (steady.keeps _ (Node.self_mem_parts _) name rfl)
      | block children => exact evalNodes_finishes below
      | ifThen condition thenBranch =>
          have c := below condition (by simp [Node.children, Node.operands])
          refine c.bind fun _ => (finishes_test .not).bind fun holds => ?_
          cases holds with
          | true => exact below thenBranch (by simp [Node.children, Node.bodies])
          | false => exact finishes_pure ()
      | ifElse condition thenBranch elseBranch =>
          have c := below condition (by simp [Node.children, Node.operands])
          refine c.bind fun _ => (finishes_test .not).bind fun holds => ?_
          cases holds with
          | true => exact below thenBranch (by simp [Node.children, Node.bodies])
          | false => exact below elseBranch (by simp [Node.children, Node.bodies])
      | whileLoop condition body =>
          by_cases finite : ends
          -- such a loop does not count, so nothing is claimed of its end
          · exact absurd (steady.counted finite _ (Node.self_mem_parts _)) Bool.false_ne_true
          · have c := below condition (by simp [Node.children, Node.operands])
            have b := below body (by simp [Node.children, Node.bodies])
            refine finishes_loop finite ?_ n
            refine c.bind fun _ => (finishes_test .not).bind fun holds => ?_
            cases holds with
            | true => exact b.bind fun _ => finishes_pure true
            | false => exact finishes_pure false
      | doWhile body condition =>
          by_cases finite : ends
          · exact absurd (steady.counted finite _ (Node.self_mem_parts _)) Bool.false_ne_true
          · have b := below body (by simp [Node.children, Node.bodies])
            have c := below condition (by simp [Node.children, Node.operands])
            exact finishes_loop finite
              (b.bind fun _ => c.bind fun _ => finishes_test .jumpIf) n
      | forRange var start stop body =>
          have own := steady.keeps _ (Node.self_mem_parts _) var rfl
          by_cases finite : ends
          · obtain ⟨first, last, rfl, rfl, free⟩ :=
              Node.forRange_of_counted (steady.counted finite _ (Node.self_mem_parts _))
            have mem : body ∈ (Node.forRange var (.literal (.int first)) (.literal (.int last))
              body).children := by simp [Node.children, Node.bodies]
            have inside := steady.child mem
            -- the body also keeps the variable of this loop
            refine forRange_finishes (steady.rounds finite _ (Node.self_mem_parts _)) own
              (ih body mem { inside with keeps := fun inner within name assigned => ?_ })
            rintro (held | rfl)
            · exact inside.keeps inner within name assigned held
            · exact free inner within assigned
          · have s := below start (by simp [Node.children, Node.operands])
            have e := below stop (by simp [Node.children, Node.operands])
            have b := below body (by simp [Node.children, Node.bodies])
            refine s.bind fun _ => (finishes_store own).bind fun _ => finishes_loop finite ?_ n
            refine (finishes_load var).bind fun _ => e.bind fun _ =>
              (finishes_operate .ge).bind fun _ => (finishes_test .jumpIf).bind fun done => ?_
            cases done with
            | true => exact finishes_pure false
            | false =>
                exact b.bind fun _ => (finishes_increment own).bind fun _ => finishes_pure true
      | function name params body => exact finishes_pure ()
      | ret value =>
          have v := below value (by simp [Node.children, Node.operands])
          exact v.bind fun _ _ _ => returned_ne_unfinished

end

/-! ### Functions

The functions whose calls are open form a path on which none occurs twice. So there are at most as
many of them as functions in the program, which bounds the nested calls. -/

namespace Program

variable {p : Program} {builtins : List String}

/-- The functions whose calls are open when `d` is entered, the last one first: all of them reach
    `d`, and none is open twice. -/
structure Path (p : Program) (path : List Declaration) (d : Declaration) : Prop where
  declared : ∀ c ∈ d :: path, c ∈ p.declarations
  reaches : ∀ c ∈ path, p.Reaches c.body d
  nodup : (d :: path).Nodup

/-- No more calls are nested than there are functions. -/
theorem Path.length_le {path : List Declaration} {d : Declaration} (h : p.Path path d) :
    path.length + 1 ≤ p.declarations.length :=
  h.nodup.length_le_of_subset h.declared

/-- A function that is called from the top level is a path by itself. -/
theorem Path.single {callee : String} {d : Declaration} (found : p.callee? callee = some d) :
    p.Path [] d where
  declared c mem := by
    rw [List.mem_singleton.1 mem]
    exact (mem_of_callee found).1
  reaches := nofun
  nodup := List.nodup_cons.2 ⟨List.not_mem_nil, List.nodup_nil⟩

/-- A function that is called has not been called before. -/
theorem Path.call (bounded : p.Bounded) {path : List Declaration} {d c : Declaration}
    (h : p.Path path d) {site : CallSite} (mem : site ∈ d.body.calls)
    (found : p.callee? site.callee = some c) : p.Path (d :: path) c := by
  have declared : c ∈ p.declarations := (mem_of_callee found).1
  have reaches : ∀ b ∈ d :: path, p.Reaches b.body c := by
    intro b below
    rcases List.mem_cons.1 below with rfl | below
    · exact .calls mem found
    · exact .through (h.reaches b below) mem found
  have fresh : c ∉ d :: path := fun before => bounded.acyclic c declared (reaches c before)
  exact ⟨List.forall_mem_cons.2 ⟨declared, h.declared⟩, reaches, List.nodup_cons.2 ⟨fresh, h.nodup⟩⟩

/-- A call that goes neither to the host nor to a function would not have been compiled. -/
theorem WellFormed.callee (h : p.WellFormed builtins) {s : Node} (statement : s ∈ p.statements)
    {site : CallSite} (mem : site ∈ s.calls) (unhosted : builtins.contains site.callee = false) :
    ∃ d, p.callee? site.callee = some d := by
  rcases h.known s statement site mem with hosted | declared
  · rw [List.contains_iff_mem.2 hosted] at unhosted
    cases unhosted
  · obtain ⟨d, mem, name⟩ := List.mem_map.1 declared
    rw [← Option.isSome_iff_exists, callee?, List.find?_isSome]
    exact ⟨d, mem, decide_eq_true name⟩

/-- A bound that the loops of a program stay below. -/
def rounds (p : Program) : Nat := Node.roundsBound (p.statements.flatMap Node.parts)

theorem rounds_lt {s part : Node} (statement : s ∈ p.statements) (mem : part ∈ s.parts) :
    part.rounds < p.rounds :=
  Node.rounds_lt_bound (List.mem_flatMap.2 ⟨s, statement, mem⟩)

/-- What a statement of a bounded program needs to be finished is that the functions that it calls
    are. -/
theorem Bounded.steady (h : p.Bounded) {s : Node} (statement : s ∈ p.statements) {n : Nat}
    (enough : p.rounds ≤ n) {enter : String → Eval σ Unit}
    (calls : ∀ site ∈ s.calls, builtins.contains site.callee = false →
      Eval.Finishes True (fun _ => True) (enter site.callee)) :
    Steady True builtins n enter (fun _ => False) s where
  counted _ := h.counted s statement
  rounds _ _ mem := Nat.lt_of_lt_of_le (rounds_lt statement mem) enough
  keeps _ _ _ _ := id
  calls := calls

/-- A function is finished within as many nested calls as there are functions that are not open when
    it is entered. -/
theorem Bounded.enterFunction_finishes (h : p.Bounded) (compiles : p.WellFormed builtins)
    (k : Nat) : ∀ {path : List Declaration} {callee : String} {d : Declaration},
      p.callee? callee = some d → p.Path path d → p.declarations.length ≤ path.length + k →
        ∀ {n : Nat}, p.rounds + k ≤ n →
          Eval.Finishes (σ := σ) True (fun _ => True)
            (enterFunction builtins p.declarations n callee) := by
  -- by induction on the number of functions that are not open: without any, none can be entered
  induction k with
  | zero =>
      intro path callee d _ live few
      exact absurd (Nat.le_trans live.length_le few) (Nat.not_succ_le_self _)
  | succ k ih =>
      intro path callee d found live few n enough
      obtain ⟨n, rfl⟩ : ∃ m, n = m + 1 := ⟨n - 1, by omega⟩
      have declared := statement_of_declaration (mem_of_callee found).1
      have left : p.rounds + k ≤ n := Nat.le_of_succ_le_succ enough
      -- a callee of the body extends the path, since no function reaches itself
      have calls (site : CallSite) (mem : site ∈ d.body.calls)
          (unhosted : builtins.contains site.callee = false) :
          Eval.Finishes (σ := σ) True (fun _ => True)
            (enterFunction builtins p.declarations n site.callee) := by
        obtain ⟨c, next⟩ := compiles.callee declared mem unhosted
        refine ih next (live.call h mem next) ?_ left
        rw [List.length_cons]
        omega
      have steady := h.steady declared (Nat.le_of_add_right_le left) calls
      rw [callee?] at found
      rw [enterFunction, found]
      exact .invoke d.params
        (evalNode_finishes d.body (steady.child (List.mem_singleton_self d.body)))

/-- The evaluation of a bounded program comes to a verdict within as many nested calls as there are
    functions. -/
theorem Bounded.evaluates (h : p.Bounded) (compiles : p.WellFormed builtins) (host : Builtins σ) :
    ∃ v n, verdictOf? (p.evaluateFor builtins host n) = some v := by
  have finishes : Eval.Finishes (σ := σ) True (fun _ => False)
      (evalNodes builtins (p.rounds + p.declarations.length)
        (enterFunction builtins p.declarations (p.rounds + p.declarations.length)) p.body) := by
    refine evalNodes_finishes fun s mem => evalNode_finishes s ?_
    have statement := (List.mem_filter.1 mem).1
    refine h.steady statement (Nat.le_add_right _ _) fun site mem unhosted => ?_
    obtain ⟨d, found⟩ := compiles.callee statement mem unhosted
    exact h.enterFunction_finishes compiles _ found (.single found) (Nat.le_add_left _ _)
      (Nat.le_refl _)
  have finished := finishes ⟨[], NameTable.empty, host, []⟩
  suffices ∃ v, verdictOf? (p.evaluateFor builtins host (p.rounds + p.declarations.length)) =
      some v from this.imp fun v verdict => ⟨_, verdict⟩
  rw [evaluateFor]
  generalize evalNodes builtins _ _ p.body ⟨[], NameTable.empty, host, []⟩ = outcome at finished
  cases outcome with
  | ok _ env => exact ⟨_, rfl⟩
  | error cause env =>
      cases cause with
      | returned => exact ⟨_, rfl⟩
      | failed e => exact ⟨_, rfl⟩
      | unfinished => exact absurd rfl (finished trivial)

/-- The order of the calls of a program: no function reaches itself if each one only calls functions
    of lower rank. -/
theorem acyclic_of_rank (rank : String → Nat)
    (descends : ∀ d ∈ p.declarations, ∀ site ∈ d.body.calls,
      site.callee ∈ p.declarations.map (·.name) → rank site.callee < rank d.name) :
    ∀ d ∈ p.declarations, ¬ p.Reaches d.body d := by
  have step {d c : Declaration} {site : CallSite} (declared : d ∈ p.declarations)
      (mem : site ∈ d.body.calls) (found : p.callee? site.callee = some c) :
      rank c.name < rank d.name := by
    obtain ⟨listed, name⟩ := mem_of_callee found
    rw [name]
    exact descends d declared site mem (List.mem_map.2 ⟨c, listed, name⟩)
  have below {d c : Declaration} (declared : d ∈ p.declarations) (reached : p.Reaches d.body c) :
      rank c.name < rank d.name := by
    induction reached with
    | calls mem found => exact step declared mem found
    | through reached mem found ih => exact Nat.lt_trans (step reached.declared mem found) ih
  exact fun d declared reached => Nat.lt_irrefl _ (below declared reached)

end Program

/-- Bounded programs end: if all loops of a program count and no function calls itself, not even
    through others, then the run of its bytecode without limits comes to a verdict, a halt or an
    error, whatever the functions of the host do. -/
theorem bounded_programs_end {builtins : List String} {p : Program} {b : Bytecode}
    (compiled : compile builtins p = .ok b) (bounded : p.Bounded) (host : Builtins σ) :
    ∃ v, b.RunsTo host v := by
  obtain ⟨functions, start, main, assembly⟩ := compile_assembly compiled
  obtain ⟨v, evaluates⟩ := bounded.evaluates (compiles_iff.1 ⟨b, compiled⟩) host
  exact ⟨v, (assembly.runsTo_iff_evaluateFor host v).2 evaluates⟩

/-- Loops in calls in loops. -/
def Program.grid : Program where
  statements := [
    .function "row" ["i"] (.forRange "j" (.literal (.int 0)) (.literal (.int 2))
      (.call "print" [.binary .add (.ident "i") (.ident "j")])),
    .forRange "k" (.literal (.int 0)) (.literal (.int 3)) (.call "rows" []),
    .function "rows" [] (.forRange "i" (.literal (.int (-1))) (.literal (.int 1)) (.block [
      .call "row" [.ident "i"],
      .ifThen (.binary .gt (.ident "i") (.literal (.int 5))) (.ret (.ident "i"))]))]

/-- The program of loops in calls in loops ends. -/
theorem bounded_programs_end_grid :
    ∃ b v, compile ["print"] .grid = .ok b ∧ b.RunsTo Builtins.printer v := by
  have bounded : Program.grid.Bounded := by
    refine ⟨by decide, Program.acyclic_of_rank (fun name => if name = "rows" then 1 else 0) ?_⟩
    decide
  obtain ⟨b, compiled⟩ : ∃ b, compile ["print"] .grid = .ok b := ⟨_, rfl⟩
  obtain ⟨v, runs⟩ := bounded_programs_end compiled bounded Builtins.printer
  exact ⟨b, v, compiled, runs⟩

end ImpStack
