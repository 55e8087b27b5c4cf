/-
Module: ImpStack.Proofs.CountedLoop
Purpose: Loops that count from one integer to another with a variable that their body does not set.
  If each execution of the body comes to its end, then a run executes it once for each integer from
  the first up to the last one, which is not counted, and leaves the loop behind its code with the
  greater of the two in the variable.
Main exports: Assembly.keeps_variable, entryValues, BodyEnds, LoopCode, CountsOut, counted_loop
-/
import ImpStack.Proofs.Termination

namespace ImpStack

variable {σ : Type}

/-! ### Variables that code does not set

Nothing but a store sets a variable, and a function that is called has variables of its own. So a
variable that no store in the body of a loop names keeps its value, in whatever way the body is
executed. -/

/-- Whatever a called function does to variables of the same names, the caller's are kept. -/
theorem enterFunction_keeps (hosted : List String) (declarations : List Declaration) (n : Nat)
    (callee : String) :
    Eval.Finishes (σ := σ) False (fun _ => True)
      (enterFunction hosted declarations n callee) := by
  cases n with
  | zero => exact fun _ => False.elim
  | succ n =>
      rw [enterFunction]
      cases declarations.find? (·.name = callee) with
      | none => exact fun _ => False.elim
      | some d =>
          apply Eval.Finishes.invoke
          intro env
          cases evalNode hosted n (enterFunction hosted declarations n) d.body env with
          | ok a env' => exact fun _ => False.elim
          | error cause env' => exact False.elim

/-- A return does not go on at the depth where it was. -/
theorem At.ret_shallower {m : Machine σ} {t ip : Nat} {act : Activation} {env : Env σ}
    (here : At m t act ip env) (table : m.table = .standard)
    (fetch : m.program.get? ip = some (.plain .ret))
    (goes : (m.after (t + 1)).state.status = .running) :
    (m.after (t + 1)).state.frames.callers.length < act.depth := by
  obtain ⟨returnTo, callers⟩ := act
  have agrees := here.fetched (.plain .ret)
  cases callers with
  | nil =>
      rw [(here.ret_root table fetch).1] at goes
      cases goes
  | cons caller callers =>
      obtain ⟨left, popped, _, rest⟩ := CallStack.pop?_of_call agrees.callers
      rw [here.step_ret table fetch, Exec.bind_apply, Exec.leave_apply, popped]
      show left.callers.length < callers.length + 1
      rw [rest]
      exact Nat.lt_succ_self _

/-- Passing through code to its end excludes returning from it. -/
theorem Traverses.not_ret {m : Machine σ} {start stop t t' u ip : Nat} {act : Activation}
    {env : Env σ} (h : Traverses m start stop t t') (table : m.table = .standard)
    (level : (m.after t).state.frames.callers.length = act.depth) (after : t ≤ u) (before : u < t')
    (here : At m u act ip env) : m.program.get? ip ≠ some (.plain .ret) := by
  intro ret
  have shallower := here.ret_shallower table ret (Machine.running_of_le before h.running)
  have next : u + 1 ≤ t' := before
  rcases Nat.lt_or_eq_of_le next with before | same
  · have inside := h.inside (u + 1) (Nat.le_succ_of_le after) before
    rw [level] at inside
    rcases inside.place with ⟨same, _⟩ | deeper
    · exact absurd shallower (Nat.not_lt_of_le (Nat.le_of_eq same.symm))
    · exact absurd shallower (Nat.not_lt_of_gt deeper)
  · rw [same, h.frame, level] at shallower
    exact absurd shallower (Nat.lt_irrefl _)

/-- Passing through code from its start to its end leaves a variable as it was. -/
def KeepsVariable (m : Machine σ) (var : String) (start stop : Nat) : Prop :=
  ∀ t t' act env, At m t act start env → Traverses m start stop t t' →
    ∃ env', At m t' act stop env' ∧ env'.bindings.find? var = env.bindings.find? var

section

variable {host : Builtins σ} {p : Program} {b : Bytecode} {functions : List FunctionCode}
  {start : Nat} {main : OpenCode}

/-- A run through the code of a node keeps the variables that the node does not set. -/
theorem Assembly.keeps_variable (h : Assembly host.names p b functions start main) {scope : Scope}
    {node : Node} {base : Nat} {code : OpenCode} (names : scope.builtins = host.names)
    (emitted : emit scope base node = .ok code) (placed : Placed b base code) {var : String}
    (own : ∀ part ∈ node.parts, part.assigned? ≠ some var) :
    KeepsVariable (Machine.start b host .unbounded) var base (base + code.length) := by
  intro t t' act env here traverses
  have keeps : Eval.Finishes (σ := σ) False (· = var) (evalNode host.names (t' + 1)
      (enterFunction host.names p.declarations (t' + 1)) node) :=
    evalNode_finishes node
      { counted := False.elim
        rounds := False.elim
        keeps := by
          rintro part mem name assigned rfl
          exact own part mem assigned
        calls := fun _ _ _ => enterFunction_keeps _ _ _ _ }
  have callers : ((Machine.start b host .unbounded).after t).state.frames.callers.length =
      act.depth := congrArg List.length here.callers
  have outside := traverses.outside base (Nat.le_refl _)
  rw [callers] at outside
  obtain ⟨u, after, early, inside, outcome⟩ :=
    h.node_passed names emitted placed here traverses.le traverses.running outside
  have kept := keeps env
  -- a return would leave the frame in which the run comes to the end of the code
  rcases outcome with ⟨_, env', done, arrived⟩ | ⟨env', _, within, ip, arrived, ret⟩
  · rw [done] at kept
    rcases Nat.lt_or_eq_of_le early with before | rfl
    · have still := traverses.inside u after before
      rw [callers] at still
      exact absurd still (arrived.outside (Nat.le_refl _))
    · exact ⟨env', arrived, kept var rfl⟩
  · have still : u ≠ t' := by
      rintro rfl
      exact outside within
    exact absurd ret
      (traverses.not_ret rfl callers after (Nat.lt_of_le_of_ne early still) arrived)

end

/-! ### Executions of a body

Executions of the body are listed by the steps in which control enters it at the depth of the loop.
A list over a stretch of steps is put together from the lists over its parts, which is how rounds
are counted one by one. -/

variable {m : Machine σ} {lo hi start stop depth t t' u : Nat}

/-- In step `u` a run passes from the instruction before the code at `start` to that code. -/
structure EntersBody (m : Machine σ) (start depth u : Nat) : Prop where
  before : (m.after u).state.ip + 1 = start
  level : (m.after u).state.frames.callers.length = depth
  entered : (m.after (u + 1)).state.ip = start
  goes : (m.after (u + 1)).state.status = .running

instance (m : Machine σ) (start depth u : Nat) : Decidable (EntersBody m start depth u) :=
  decidable_of_iff
    ((m.after u).state.ip + 1 = start ∧ (m.after u).state.frames.callers.length = depth ∧
      (m.after (u + 1)).state.ip = start ∧ (m.after (u + 1)).state.status = .running)
    ⟨fun ⟨before, level, entered, goes⟩ => ⟨before, level, entered, goes⟩,
      fun h => ⟨h.before, h.level, h.entered, h.goes⟩⟩

/-- The steps from `t` on, but before `t'`, in which a run passes to the code at `start`. -/
def entries (m : Machine σ) (start depth t t' : Nat) : List Nat :=
  (List.range' t (t' - t)).filter fun u => decide (EntersBody m start depth u)

/-- The entries of a stretch are the steps in it that enter the body. -/
theorem mem_entries :
    u ∈ entries m start depth t t' ↔ t ≤ u ∧ u < t' ∧ EntersBody m start depth u := by
  rw [entries, List.mem_filter, List.mem_range'_1, decide_eq_true_iff, and_assoc]
  refine and_congr_right fun after => and_congr_left fun _ => ?_
  omega

theorem entries_append (first : t ≤ u) (second : u ≤ t') :
    entries m start depth t t' = entries m start depth t u ++ entries m start depth u t' := by
  have whole : t' - t = (u - t) + (t' - u) := by omega
  have middle : t + (u - t) = u := by omega
  rw [entries, whole, ← List.range'_append_1, middle, List.filter_append]
  rfl

/-- A stretch in which the body is not entered has no entries. -/
theorem entries_eq_nil (h : ∀ u, t ≤ u → u < t' → ¬ EntersBody m start depth u) :
    entries m start depth t t' = [] := by
  refine List.eq_nil_iff_forall_not_mem.2 fun u mem => ?_
  obtain ⟨after, before, enters⟩ := mem_entries.1 mem
  exact h u after before enters

theorem entries_single (h : EntersBody m start depth u) :
    entries m start depth u (u + 1) = [u] := by
  have one : u + 1 - u = 1 := Nat.add_sub_cancel_left u 1
  rw [entries, one, List.range'_one]
  exact List.filter_cons_of_pos (decide_eq_true h)

/-- The values that a variable has when a run has just passed to the code at `start`. -/
def entryValues (m : Machine σ) (var : String) (start depth t t' : Nat) : List (Option Value) :=
  (entries m start depth t t').map fun u => (m.after (u + 1)).state.frames.active.lookup? var

/-- The counter's values over two stretches one behind the other. -/
theorem entryValues_append (var : String) (first : t ≤ u) (second : u ≤ t') :
    entryValues m var start depth t t' =
      entryValues m var start depth t u ++ entryValues m var start depth u t' := by
  rw [entryValues, entries_append first second, List.map_append]
  rfl

/-- From step `t` up to step `t'` a run stays in code or in functions called from there. -/
def Stays (m : Machine σ) (lo hi depth t t' : Nat) : Prop :=
  ∀ j, t ≤ j → j < t' → Inside m lo hi depth j

theorem Stays.trans (first : Stays m lo hi depth t u) (second : Stays m lo hi depth u t') :
    Stays m lo hi depth t t' := by
  intro j after before
  rcases Nat.lt_or_ge j u with early | late
  · exact first j after early
  · exact second j late before

theorem Stays.mono {lo' hi' : Nat} (low : lo' ≤ lo) (high : hi ≤ hi')
    (h : Stays m lo hi depth t t') : Stays m lo' hi' depth t t' :=
  fun j after before => (h j after before).mono low high

theorem At.stays {act : Activation} {ip : Nat} {env : Env σ} (here : At m t act ip env)
    (low : lo ≤ ip) (high : ip < hi) : Stays m lo hi act.depth t (t + 1) := by
  intro j after before
  rw [Nat.le_antisymm (Nat.le_of_lt_succ before) after]
  exact here.inside low high

/-- Code that is traversed is not left in between. -/
theorem Traverses.stays (h : Traverses m lo hi t t')
    (level : (m.after t).state.frames.callers.length = depth) : Stays m lo hi depth t t' := by
  rw [← level]
  exact h.inside

/-- Code that does not reach up to the instruction before `start`, or that lies behind it, does not
    pass to `start`. -/
theorem Stays.entries_eq_nil (h : Stays m lo hi depth t t') (away : hi < start ∨ start ≤ lo) :
    entries m start depth t t' = [] := by
  refine ImpStack.entries_eq_nil fun u after before enters => ?_
  have passed := enters.before
  rcases (h u after before).place with ⟨_, low, high⟩ | deeper
  · omega
  · rw [enters.level] at deeper
    exact Nat.lt_irrefl _ deeper

/-- Every execution of the code from `start` to `stop` that is begun while a run stays between two
    addresses comes to its end. -/
def BodyEnds (m : Machine σ) (lo hi start stop depth t : Nat) : Prop :=
  ∀ u, t ≤ u → Stays m lo hi depth t (u + 1) → EntersBody m start depth u →
    ∃ u', Traverses m start stop (u + 1) u'

/-- A promise about the executions of the body holds from later steps on as well. -/
theorem BodyEnds.later (h : BodyEnds m lo hi start stop depth t) (later : t ≤ t')
    (stays : Stays m lo hi depth t t') : BodyEnds m lo hi start stop depth t' :=
  fun u after stays' enters => h u (Nat.le_trans later after) (stays.trans stays') enters

/-! ### Rounds

A round tests the counter, executes the body and adds one. As long as the counter is below the end
the sum does not overflow, since the end is an integer of 64 bits; so the rounds are counted down by
what is left to the end. -/

/-- The code of a loop that counts from `first` to `last`, with a body of `n` instructions. -/
structure LoopCode (b : Bytecode) (var : String) (first last : Int64) (base n : Nat) : Prop where
  initial : b.get? base = some (.push (.int first))
  init : b.get? (base + 1) = some (.store var)
  load : b.get? (base + 2) = some (.load var)
  bound : b.get? (base + 3) = some (.push (.int last))
  compare : b.get? (base + 4) = some (.plain .isGe)
  exit : b.get? (base + 5) = some (.jumpIf (base + 6 + n + 5))
  reload : b.get? (base + 6 + n) = some (.load var)
  one : b.get? (base + 6 + n + 1) = some (.push (.int 1))
  add : b.get? (base + 6 + n + 2) = some (.plain .add)
  store : b.get? (base + 6 + n + 3) = some (.store var)
  again : b.get? (base + 6 + n + 4) = some (.jump (base + 2))

/-- The parts of the code of a counting loop. -/
theorem loopCode_of_emit {b : Bytecode} {scope : Scope} {var : String} {first last : Int64}
    {body : Node} {base : Nat} {code : OpenCode}
    (emitted : emit scope base
      (.forRange var (.literal (.int first)) (.literal (.int last)) body) = .ok code)
    (placed : Placed b base code) :
    ∃ bodyCode, emit scope (base + 6) body = .ok bodyCode ∧ Placed b (base + 6) bodyCode ∧
      LoopCode b var first last base bodyCode.length ∧
      code.length = 6 + bodyCode.length + 5 := by
  obtain ⟨startCode, hs, stopCode, hp, bodyCode, hb, rfl⟩ := emit_forRange_ok.1 emitted
  cases emit_literal_ok.1 hs
  cases emit_literal_ok.1 hp
  simp only [List.length_append, List.length_cons, List.length_nil, Nat.zero_add, Nat.add_assoc,
    placed_append, placed_plain_cons, placed_settled_cons, placed_nil, and_true,
    Nat.reduceAdd] at placed hb ⊢
  simp only [← Nat.add_assoc] at placed
  obtain ⟨⟨⟨⟨⟨initial, init, load⟩, bound⟩, compare, exit⟩, bodyPlaced⟩, reload, one, add, store,
    again⟩ := placed
  exact ⟨bodyCode, hb, bodyPlaced,
    ⟨initial, init, load, bound, compare, exit, reload, one, add, store, again⟩, by omega⟩

theorem max_of_le {i j : Int64} (h : i ≤ j) : max i j = j := if_pos h

theorem max_of_ge {i j : Int64} (h : j ≤ i) : max i j = i := by
  show (if i ≤ j then j else i) = i
  split
  · exact Int64.le_antisymm h ‹_›
  · rfl

namespace LoopCode

variable {var : String} {first last i : Int64} {base n : Nat} {act : Activation} {env : Env σ}
  (code : LoopCode m.program var first last base n) (table : m.table = .standard)

include code table

/-- The beginning of a loop sets its variable. -/
theorem starts (here : At m t act base env) :
    ∃ env₁, env₁.bindings.find? var = some (.int first) ∧
      Stays m base (base + 2) act.depth t (t + 2) ∧ At m (t + 2) act (base + 2) env₁ := by
  have pushed := here.computed table code.initial rfl nofun (Handler.refines_push _) rfl
  have stored := pushed.computed table code.init rfl nofun (Handler.refines_store var) rfl
  refine ⟨_, ?_, (here.stays (Nat.le_refl _) (by omega)).trans
    (pushed.stays (by omega) (by omega)), stored⟩
  show (env.bindings.insert var (.int first)).find? var = some (.int first)
  rw [NameTable.find?_insert, if_pos rfl]

/-- The test of a loop leaves it if its variable is not below `last`, else it passes to the body. -/
theorem test (here : At m t act (base + 2) env)
    (counts : env.bindings.find? var = some (.int i)) :
    Stays m (base + 2) (base + 6) act.depth t (t + 4) ∧
      At m (t + 4) act (if last ≤ i then base + 6 + n + 5 else base + 6) env ∧
      entries m (base + 6) act.depth t (t + 4) = if last ≤ i then [] else [t + 3] := by
  have load : Eval.load var env = .ok () { env with stack := .int i :: env.stack } := by
    rw [Eval.load_apply, counts]
    rfl
  have compare : Eval.combine .isGe BinaryOp.ge.compute
      { env with stack := .int last :: .int i :: env.stack } =
        .ok () { env with stack := .bool (decide (last ≤ i)) :: env.stack } := by
    rw [Eval.combine_apply rfl, Eval.compute_ge]
  have loaded := here.computed table code.load rfl nofun (Handler.refines_load var) load
  have pushed := loaded.computed table code.bound rfl nofun (Handler.refines_push _) rfl
  have compared := pushed.computed table code.compare rfl nofun (Handler.refines_opcode .ge) compare
  have jumped : At m (t + 3 + 1) act
      (if decide (last ≤ i) = true then base + 6 + n + 5 else base + 6) env :=
    compared.jumpIf table code.exit rfl
  simp only [decide_eq_true_eq] at jumped
  have early : Stays m (base + 2) (base + 5) act.depth t (t + 3) :=
    ((here.stays (by omega) (by omega)).trans (loaded.stays (by omega) (by omega))).trans
      (pushed.stays (by omega) (by omega))
  have ends : Stays m (base + 2) (base + 6) act.depth (t + 3) (t + 4) :=
    compared.stays (by omega) (by omega)
  -- the body can only be entered by the last of these steps
  refine ⟨(early.mono (Nat.le_refl _) (by omega)).trans ends, jumped, ?_⟩
  rw [entries_append (Nat.le_add_right t 3) (Nat.le_succ _),
    early.entries_eq_nil (Or.inl (Nat.lt_succ_self _)), List.nil_append]
  split at jumped
  · rename_i reached
    rw [if_pos reached]
    refine entries_eq_nil fun u after before enters => ?_
    cases Nat.le_antisymm (Nat.le_of_lt_succ before) after
    have left := enters.entered.symm.trans jumped.ip
    omega
  · rename_i below
    rw [if_neg below]
    exact entries_single
      ⟨congrArg (· + 1) compared.ip, congrArg List.length compared.callers, jumped.ip,
        jumped.running⟩

/-- Behind the body the variable is incremented. -/
theorem next (here : At m t act (base + 6 + n) env)
    (counts : env.bindings.find? var = some (.int i)) (below : i < last) :
    ∃ t₁ env₁, t ≤ t₁ ∧ env₁.bindings.find? var = some (.int (i + 1)) ∧
      Stays m (base + 6 + n) (base + 6 + n + 5) act.depth t t₁ ∧
      At m t₁ act (base + 2) env₁ := by
  have run := here.increment (N := 0) table (Nat.le_refl _) (Nat.lt_succ_self _) code.reload
    code.one code.add code.store
  rw [Eval.increment_apply counts below] at run
  obtain ⟨u, after, inside, there⟩ := run
  refine ⟨u + 1, _, by omega, ?_, ?_, there.jump table code.again⟩
  · show (env.bindings.insert var (.int (i + 1))).find? var = some (.int (i + 1))
    rw [NameTable.find?_insert, if_pos rfl]
  · have before : Stays m (base + 6 + n) (base + 6 + n + 4) act.depth t u := inside
    exact (before.mono (Nat.le_refl _) (Nat.le_succ _)).trans
      (there.stays (by omega) (Nat.lt_succ_self _))

/-- A round with a body that comes to its end and keeps the variable of the loop. -/
theorem round (keeps : KeepsVariable m var (base + 6) (base + 6 + n))
    (here : At m t act (base + 2) env) (counts : env.bindings.find? var = some (.int i))
    (below : i < last)
    (ends : BodyEnds m base (base + 6 + n + 5) (base + 6) (base + 6 + n) act.depth t) :
    ∃ t₁ env₁, t ≤ t₁ ∧ env₁.bindings.find? var = some (.int (i + 1)) ∧
      Stays m base (base + 6 + n + 5) act.depth t t₁ ∧ At m t₁ act (base + 2) env₁ ∧
      entryValues m var (base + 6) act.depth t t₁ = [some (.int i)] := by
  obtain ⟨tested, entered, passed⟩ := code.test table here counts
  rw [if_neg (Int64.not_le.2 below)] at entered passed
  have stays : Stays m base (base + 6 + n + 5) act.depth t (t + 4) :=
    tested.mono (by omega) (by omega)
  have passes : EntersBody m (base + 6) act.depth (t + 3) := by
    have mem : t + 3 ∈ entries m (base + 6) act.depth t (t + 4) := by
      rw [passed]
      exact List.mem_singleton_self _
    exact (mem_entries.1 mem).2.2
  obtain ⟨t₂, ran⟩ := ends (t + 3) (Nat.le_add_right t 3) stays passes
  obtain ⟨env₂, behind, kept⟩ := keeps _ _ _ _ entered ran
  obtain ⟨t₃, env₃, later, incremented, updated, again⟩ :=
    code.next table behind (kept.trans counts) below
  -- behind the test the round stays at `base + 6` or above, so it does not enter the body again
  have inBody := ran.stays (congrArg List.length entered.callers)
  have rest : Stays m (base + 6) (base + 6 + n + 5) act.depth (t + 4) t₃ :=
    (inBody.mono (Nat.le_refl _) (Nat.le_add_right _ 5)).trans
      (updated.mono (Nat.le_add_right _ n) (Nat.le_refl _))
  have goesOn : t + 4 ≤ t₃ := Nat.le_trans ran.le later
  refine ⟨t₃, env₃, Nat.le_of_add_right_le goesOn, incremented,
    stays.trans (rest.mono (Nat.le_add_right base 6) (Nat.le_refl _)), again, ?_⟩
  rw [entryValues_append var (Nat.le_add_right t 4) goesOn, entryValues, entryValues, passed,
    rest.entries_eq_nil (Or.inr (Nat.le_refl _)), List.map_nil, List.append_nil, List.map_singleton,
    Frame.lookup?, entered.bindings, counts]

/-- From the test on, a loop has as many rounds as there are integers left. -/
theorem counts (keeps : KeepsVariable m var (base + 6) (base + 6 + n))
    (k : Nat) : ∀ {t : Nat} {i : Int64} {env : Env σ}, (last.toInt - i.toInt).toNat = k →
      At m t act (base + 2) env → env.bindings.find? var = some (.int i) →
        BodyEnds m base (base + 6 + n + 5) (base + 6) (base + 6 + n) act.depth t →
          ∃ t' env', t ≤ t' ∧ env'.bindings.find? var = some (.int (max i last)) ∧
            Stays m base (base + 6 + n + 5) act.depth t t' ∧
            At m t' act (base + 6 + n + 5) env' ∧
            entryValues m var (base + 6) act.depth t t' =
              (List.range k).map fun j => some (.int (.ofInt (i.toInt + j))) := by
  -- by induction on the integers that are left: a round takes one of them
  induction k with
  | zero =>
      intro t i env left here counts ends
      have reached : last ≤ i := by
        rw [Int64.le_iff_toInt_le]
        omega
      obtain ⟨tested, left, passed⟩ := code.test table here counts
      rw [if_pos reached] at left passed
      refine ⟨t + 4, env, Nat.le_add_right t 4, ?_, tested.mono (by omega) (by omega), left, ?_⟩
      · rw [counts, max_of_ge reached]
      · rw [entryValues, passed]
        rfl
  | succ k ih =>
      intro t i env left here counts ends
      have below : i < last := by
        rw [Int64.lt_iff_toInt_lt]
        omega
      have next := Eval.toInt_add_one below
      obtain ⟨t₁, env₁, later, counts₁, stays₁, here₁, values₁⟩ :=
        code.round table keeps here counts below ends
      obtain ⟨t', env', later', counts', stays', here', values'⟩ :=
        ih (by omega) here₁ counts₁ (ends.later later stays₁)
      refine ⟨t', env', Nat.le_trans later later', ?_, stays₁.trans stays', here', ?_⟩
      · have above : i + 1 ≤ last := by
          rw [Int64.le_iff_toInt_le]
          omega
        rw [counts', max_of_le above, max_of_le (Int64.le_of_lt below)]
      · have shift (j : Nat) : i.toInt + (j + 1 : Nat) = (i + 1).toInt + j := by omega
        rw [entryValues_append var later later', values₁, values', List.range_succ_eq_map,
          List.map_cons, List.map_map]
        simp only [Function.comp_def, Nat.succ_eq_add_one, shift, Int.natCast_zero, Int.add_zero,
          Int64.ofInt_toInt, List.singleton_append]

end LoopCode

/-- Whenever a run enters the code of a loop that counts from `first` to `last` with a body of `n`
    instructions, and all executions of that body come to their end, the run comes to the end of the
    loop without an error. The body has then been executed once for each integer from `first` up to
    but not including `last`, with the variable set to that integer, and the variable is left with
    the greater of the two. -/
def CountsOut (m : Machine σ) (var : String) (first last : Int64) (base n : Nat) : Prop :=
  ∀ t, (m.after t).state.ip = base → (m.after t).state.status = .running →
    BodyEnds m base (base + 6 + n + 5) (base + 6) (base + 6 + n)
      (m.after t).state.frames.callers.length t →
      ∃ t', Traverses m base (base + 6 + n + 5) t t' ∧
        entryValues m var (base + 6) (m.after t).state.frames.callers.length t t' =
          ((List.range (last.toInt - first.toInt).toNat).map fun k =>
            some (.int (.ofInt (first.toInt + k)))) ∧
        (m.after t').state.frames.active.lookup? var = some (.int (max first last))

/-- From its first value on the counter is counted out, by induction on the number of values that
    are left. -/
theorem LoopCode.countsOut {var : String} {first last : Int64} {base n : Nat}
    (code : LoopCode m.program var first last base n) (table : m.table = .standard)
    (unbounded : m.state.limits = .unbounded)
    (keeps : KeepsVariable m var (base + 6) (base + 6 + n)) :
    CountsOut m var first last base n := by
  intro t entered running ends
  have here := Machine.at_of_running table unbounded running
  rw [entered] at here
  obtain ⟨env₁, counts₁, stays₁, here₁⟩ := code.starts table here
  have widened : Stays m base (base + 6 + n + 5)
      (m.after t).state.frames.callers.length t (t + 2) :=
    stays₁.mono (Nat.le_refl base) (by omega)
  obtain ⟨t', env', later, counts', stays', here', values⟩ :=
    code.counts table keeps _ rfl here₁ counts₁ (ends.later (Nat.le_add_right t 2) widened)
  have after : t ≤ t' := Nat.le_of_add_right_le later
  refine ⟨t', .of_at here here' after (widened.trans stays'), ?_, ?_⟩
  · have before : entries m (base + 6) (m.after t).state.frames.callers.length t (t + 2) = [] :=
      stays₁.entries_eq_nil (Or.inl (by omega))
    rw [entryValues_append var (Nat.le_add_right t 2) later, entryValues, before]
    exact values
  · rw [Frame.lookup?, here'.bindings, counts']

/-- Loops count out: in a program that compiles, take a loop from one integer to another whose body
    neither assigns the loop's variable nor contains a loop with it. Its code lies somewhere in the
    bytecode, and wherever it lies, a run without limits that enters it counts out. -/
theorem counted_loop {host : Builtins σ} {p : Program} {b : Bytecode}
    (compiled : compile host.names p = .ok b) {s : Node} (statement : s ∈ p.statements)
    {var : String} {first last : Int64} {body : Node}
    (loop : .forRange var (.literal (.int first)) (.literal (.int last)) body ∈ s.parts)
    (own : ∀ part ∈ body.parts, part.assigned? ≠ some var) :
    (∃ scope, scope.builtins = host.names ∧
      Holds b scope (.forRange var (.literal (.int first)) (.literal (.int last)) body)) ∧
    ∀ scope base code, scope.builtins = host.names →
      emit scope base (.forRange var (.literal (.int first)) (.literal (.int last)) body) =
        .ok code → Placed b base code →
      ∃ bodyCode, emit scope (base + 6) body = .ok bodyCode ∧ Placed b (base + 6) bodyCode ∧
        code.length = 6 + bodyCode.length + 5 ∧
        CountsOut (Machine.start b host .unbounded) var first last base bodyCode.length := by
  obtain ⟨functions, start, main, h⟩ := compile_assembly compiled
  refine ⟨h.part_placed statement loop rfl, fun scope base code names emitted placed => ?_⟩
  obtain ⟨bodyCode, bodyEmitted, bodyPlaced, loopCode, size⟩ := loopCode_of_emit emitted placed
  refine ⟨bodyCode, bodyEmitted, bodyPlaced, size, ?_⟩
  exact loopCode.countsOut rfl rfl (h.keeps_variable names bodyEmitted bodyPlaced own)

/-- A loop up to the greatest integer, with a body that calls a function for its value, does not use
    the value, and has the name of the loop's variable set by the function. -/
def Program.lastRounds : Program where
  statements := [
    .function "noisy" [] (.block [.assign "i" (.literal (.int 7)), .ret (.ident "i")]),
    .forRange "i" (.literal (.int 9223372036854775805)) (.literal (.int 9223372036854775807))
      (.call "noisy" [])]

/-- The bytecode of `Program.lastRounds`. -/
def Bytecode.lastRounds : Bytecode :=
  match compile [] .lastRounds with
  | .ok b => b
  | .error _ => default

theorem compile_lastRounds : compile [] .lastRounds = .ok .lastRounds := rfl

/-- The machine that runs it. -/
def Machine.lastRounds : Machine Unit := .start .lastRounds (Builtins.empty ()) .unbounded

theorem counted_loop_last_rounds :
    ∃ t', Traverses Machine.lastRounds 5 17 1 t' ∧
      entryValues Machine.lastRounds "i" 11 0 1 t' =
        [some (.int 9223372036854775805), some (.int 9223372036854775806)] ∧
      (Machine.lastRounds.after t').state.frames.active.lookup? "i" =
        some (.int 9223372036854775807) := by
  have names : (Builtins.empty ()).names = [] := Builtins.names_empty ()
  have compiled : compile (Builtins.empty ()).names .lastRounds = .ok .lastRounds := by
    rw [names]
    exact compile_lastRounds
  have loop := (counted_loop compiled (s := .forRange "i" (.literal (.int 9223372036854775805))
    (.literal (.int 9223372036854775807)) (.call "noisy" []))
    (List.mem_cons_of_mem _ List.mem_cons_self) (Node.self_mem_parts _) (by decide)).2
  rw [names] at loop
  have placed : Placed .lastRounds 5 [.settled (.push (.int 9223372036854775805)),
      .settled (.store "i"), .settled (.load "i"), .settled (.push (.int 9223372036854775807)),
      .plain .isGe, .settled (.jumpIf 17), .call "noisy", .settled (.load "i"),
      .settled (.push (.int 1)), .plain .add, .settled (.store "i"), .settled (.jump 7)] := by
    simp only [placed_settled_cons, placed_plain_cons, placed_call_cons, placed_nil]
    have called : ∃ entry, Bytecode.lastRounds.functions.find? "noisy" = some entry ∧
        Bytecode.lastRounds.get? 11 = some (.call entry) := ⟨1, by decide +kernel, rfl⟩
    exact ⟨rfl, rfl, rfl, rfl, rfl, rfl, called, rfl, rfl, rfl, rfl, rfl, trivial⟩
  obtain ⟨bodyCode, emitted, _, _, counts⟩ := loop ⟨[], none⟩ 5 _ rfl rfl placed
  cases emitted
  have ends : BodyEnds Machine.lastRounds 5 17 11 12 0 1 := by
    intro u _ _ enters
    -- the run has ended by then, so the entries can be enumerated
    have few : u < 36 := by
      refine Nat.lt_of_not_le fun late => ?_
      have halted := Machine.running_of_le (Nat.le_succ_of_le late) enters.goes
      revert halted
      decide +kernel
    have twice : ∀ u < 36, EntersBody Machine.lastRounds 11 0 u → u = 6 ∨ u = 20 := by
      decide +kernel
    rcases twice u few enters with rfl | rfl
    · exact ⟨12, by decide +kernel⟩
    · exact ⟨26, by decide +kernel⟩
  exact counts 1 (by decide +kernel) (by decide +kernel) ends

end ImpStack
