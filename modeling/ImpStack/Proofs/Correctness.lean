/-
Module: ImpStack.Proofs.Correctness
Purpose: Compiler correctness: a compiled program ends if and only if the evaluation of its source
  does, and both come to the same end after the same calls of the host.
Main exports: Verdict, Bytecode.RunsTo, Bytecode.Ends, Program.EvaluatesTo, Program.Ends,
  compile_correct
-/
import ImpStack.Proofs.ControlFlow
import ImpStack.Proofs.Simulation

namespace ImpStack

variable {σ : Type} {builtins : List String} {host : Builtins σ} {p : Program} {b : Bytecode}
  {functions : List FunctionCode} {start : Nat} {main : OpenCode}

/-! ### Functions

A call of a function is found by its name in the source and by its entry in the code. That the
machine follows the evaluation of a call is shown by induction on the number of calls that the
evaluation may nest, with `evalNode_follows` for the body in each step. -/

namespace Assembly

/-- Functions with the same entry are the same. -/
theorem eq_of_entry_eq (h : Assembly builtins p b functions start main) {f g : FunctionCode}
    (hf : f ∈ functions) (hg : g ∈ functions) (same : f.entry = g.entry) : f = g := by
  have increasing := h.increasing
  rw [h.entries, List.map_map, List.pairwise_map] at increasing
  exact List.Pairwise.forall_of_forall_of_flip (R := fun f g => f.entry = g.entry → f = g)
    (fun _ _ _ => rfl) (increasing.imp fun less same => absurd same (Nat.ne_of_lt less))
    (increasing.imp fun less same => absurd same (Nat.ne_of_gt less)) hf hg same

/-- A function is found by its name. -/
theorem find?_declaration (h : Assembly builtins p b functions start main) {f : FunctionCode}
    (hf : f ∈ functions) :
    p.declarations.find? (·.name = f.declaration.name) = some f.declaration := by
  rw [← h.declarations]
  cases found : (functions.map FunctionCode.declaration).find?
      (·.name = f.declaration.name) with
  | none =>
      have other := List.find?_eq_none.1 found f.declaration (List.mem_map_of_mem hf)
      simp at other
  | some d =>
      obtain ⟨g, hg, rfl⟩ := List.mem_map.1 (List.mem_of_find?_eq_some found)
      have name : g.declaration.name = f.declaration.name := by
        simpa using List.find?_some found
      have same := h.eq_of_entry_eq hg hf (h.eq_of_name_eq hg hf name)
      rw [same]

/-- A called function never runs past its end. -/
theorem not_at_stop (h : Assembly builtins p b functions start main) {f : FunctionCode}
    (hf : f ∈ functions) {ip t : Nat} (fetch : b.get? ip = some (.call f.entry)) {frame : Frame}
    {callers : List Frame} {env : Env σ} :
    ¬ At (Machine.start b host .unbounded) t ⟨some (ip + 1), frame :: callers⟩ f.stop env := by
  intro here
  obtain ⟨r, chain, place⟩ := (Confined.after h host .unbounded t here.running).region
  rw [CallStack.frames, here.callers] at chain
  have inside : f.stop ∈ r := by
    rcases place with inside | ⟨root, _⟩
    · rwa [here.ip] at inside
    · rw [here.callers] at root
      cases root
  cases chain with
  | call below site next call function returns =>
      rw [here.returnTo, Option.some.injEq, Nat.add_right_cancel_iff] at returns
      subst returns
      rw [fetch, Option.some.injEq] at call
      rw [h.functionRegions_eq] at function
      obtain ⟨g, hg, same⟩ := List.mem_map.1 function
      cases same
      have entry : f.entry = g.entry := by
        injection call with _ operands
        injection operands with address
        injection address
      have same := h.eq_of_entry_eq hf hg entry
      subst same
      exact absurd inside.2 (Nat.lt_irrefl _)

/-- The code of a function's body lies behind that of its parameters. -/
theorem body_placed (h : Assembly builtins p b functions start main) {f : FunctionCode}
    (hf : f ∈ functions) :
    ∃ body, emit ⟨builtins, some f.declaration.name⟩
        (f.entry + f.declaration.params.length) f.declaration.body = .ok body ∧
      (f.code = f.declaration.stores ++ body ∧ endsInReturn f.entry f.code = true ∨
        f.code = f.declaration.stores ++ body ++ [.plain .ret]) ∧
      Placed b f.entry f.declaration.stores ∧
      Placed b (f.entry + f.declaration.params.length) body := by
  obtain ⟨body, hb, shape⟩ := emitFunction_ok (h.emitted f hf)
  have placed : Placed b f.entry (f.declaration.stores ++ body) := by
    have placed := h.placed f hf
    rcases shape with ⟨code, _⟩ | code
    · rwa [code] at placed
    · rw [code, placed_append] at placed
      exact placed.1
  rw [placed_append, f.declaration.length_stores] at placed
  exact ⟨body, hb, shape, placed.1, placed.2⟩

/-- Where the body of a function ends, a return follows. -/
theorem body_end (h : Assembly builtins p b functions start main) {f : FunctionCode}
    (hf : f ∈ functions) {ip t : Nat} (fetch : b.get? ip = some (.call f.entry)) {frame : Frame}
    {callers : List Frame} {env : Env σ} {body : OpenCode}
    (shape : f.code = f.declaration.stores ++ body ∧ endsInReturn f.entry f.code = true ∨
      f.code = f.declaration.stores ++ body ++ [.plain .ret])
    (here : At (Machine.start b host .unbounded) t ⟨some (ip + 1), frame :: callers⟩
      (f.entry + (f.declaration.stores ++ body).length) env) :
    b.get? (f.entry + (f.declaration.stores ++ body).length) = some (.plain .ret) := by
  have placed := h.placed f hf
  rcases shape with ⟨code, _⟩ | code
  · rw [← code] at here
    exact absurd here (h.not_at_stop hf fetch)
  · rw [code, placed_append, placed_plain_cons] at placed
    exact placed.2.1

/-- Entering a function is followed, within any number of nested calls. -/
theorem enterFunction_follows (h : Assembly builtins p b functions start main)
    (host : Builtins σ) (N n : Nat) :
    EntersFollowed (Machine.start b host .unbounded) N n
      (enterFunction builtins p.declarations n) := by
  induction n with
  | zero =>
      intro callee entry found ip fetch lo hi low high t act env here enough
      rw [Nat.zero_add] at enough
      exact .here ⟨enough, here.running⟩
  | succ n ih =>
      intro callee entry found ip fetch lo hi low high t act env here enough
      obtain ⟨g, hg, name, rfl⟩ := h.find?_entry.1 found
      subst name
      obtain ⟨body, hb, shape, storesPlaced, bodyPlaced⟩ := h.body_placed hg
      have table : (Machine.start b host .unbounded).table = .standard := rfl
      have entered := here.call table fetch
      rw [enterFunction, h.find?_declaration hg]
      have reversed : g.declaration.params.reverse.length = g.declaration.params.length :=
        List.length_reverse
      have below : g.entry + g.declaration.params.reverse.length ≤
          g.entry + g.declaration.params.length + body.length := by
        rw [reversed]
        exact Nat.le_add_right _ _
      have stored := storeAll_follows (N := N) table (Nat.le_refl g.entry) below storesPlaced
        entered
      rw [reversed] at stored
      refine .later (here.inside low high) (invoke_follows table (.seq stored ?_) lo hi)
      intro t₁ _ env₁ later₁ arrived₁
      -- within the body one nested call less is allowed, which is the induction hypothesis
      have bodyRun := evalNode_follows table ih hb bodyPlaced (Nat.le_add_right g.entry _)
        (Nat.le_refl _) arrived₁ (by omega)
      refine bodyRun.mono (fun _ inside => inside) fun t₂ _ env₂ _ arrived₂ => ?_
      rw [Nat.add_assoc, ← g.declaration.length_stores, ← List.length_append] at arrived₂
      exact ⟨_, arrived₂, h.body_end hg fetch shape arrived₂⟩

end Assembly

/-! ### Whole programs

A verdict is what a run and an evaluation have in common when they are over: the values and
variables that are left and the calls of the host, or the error behind these calls. Both have it or
neither has, because a machine follows an evaluation that is finished up to its end, and one that is
not finished for as many steps as the evaluation was allowed rounds. -/

/-- How a program ends, as far as it can be seen from outside. -/
inductive Verdict where
  /-- At the final halt: the operand stack, the variables of the top-level code, and the calls of
      host functions with their arguments and results, in order. -/
  | halted (stack : List Value) (bindings : NameTable Value) (calls : List HostCall)
  /-- By an error, after calls of host functions. -/
  | failed (e : RuntimeError) (calls : List HostCall)
deriving DecidableEq

/-- The verdict on a machine that does not run any more, after calls of host functions. -/
def Machine.verdict? (m : Machine σ) (calls : List HostCall) : Option Verdict :=
  match m.state.status with
  | .running => none
  | .halted => some (.halted m.state.stack m.state.frames.outermost.bindings calls)
  | .failed e => some (.failed e calls)

/-- The verdict on an evaluation that came to an end. -/
def verdictOf? : EStateM.Result Interruption (Env σ) Unit → Option Verdict
  | .ok _ env => some (.halted env.stack env.bindings env.calls)
  | .error (.failed e) env => some (.failed e env.calls)
  | .error _ _ => none

/-- A run of a machine with the standard handlers and without bounds ends in a verdict. -/
def Bytecode.RunsTo (b : Bytecode) (host : Builtins σ) (v : Verdict) : Prop :=
  ∃ fuel m, (Machine.start b host .unbounded).run fuel = some m ∧
    m.verdict? ((Machine.start b host .unbounded).hostCalls fuel) = some v

/-- The evaluation of a program ends in a verdict. -/
def Program.EvaluatesTo (p : Program) (host : Builtins σ) (v : Verdict) : Prop :=
  ∃ n, verdictOf? (p.evaluate host n) = some v

/-- The run comes to an end. -/
def Bytecode.Ends (b : Bytecode) (host : Builtins σ) : Prop :=
  ∃ fuel m, (Machine.start b host .unbounded).run fuel = some m

/-- The evaluation comes to an end, within some number of rounds and calls. -/
def Program.Ends (p : Program) (host : Builtins σ) : Prop :=
  ∃ n, ∀ env, p.evaluate host n ≠ .error .unfinished env

/-- A halted machine asks the host for nothing more. -/
theorem Machine.hostCalls_of_halted {m : Machine σ} {t : Nat}
    (halted : (m.after t).state.isHalted = true) (k : Nat) :
    m.hostCalls (t + k) = m.hostCalls t := by
  induction k with
  | zero => rfl
  | succ k ih =>
      have still : (m.after (t + k)).state.isHalted = true := by
        rw [Machine.after_add, Machine.after_of_halted halted, halted]
      rw [← Nat.add_assoc, Machine.hostCalls, ih, Machine.hostCall?_of_halted still]
      exact List.append_nil _

/-- There is no verdict on a machine that still runs. -/
theorem Machine.isHalted_of_verdict {m : Machine σ} {calls : List HostCall} {v : Verdict}
    (h : m.verdict? calls = some v) : m.state.isHalted = true := by
  rw [verdict?] at h
  cases status : m.state.status with
  | running =>
      rw [status] at h
      cases h
  | halted => rw [State.isHalted, status]
  | failed e => rw [State.isHalted, status]

/-- A machine that has ended stays as it is, so its verdict is the same ever after. -/
theorem Machine.verdict_unique {m : Machine σ} {t t' : Nat} {v v' : Verdict}
    (h : (m.after t).verdict? (m.hostCalls t) = some v)
    (h' : (m.after t').verdict? (m.hostCalls t') = some v') : v = v' := by
  have later {t t' : Nat} {v v' : Verdict} (le : t ≤ t')
      (h : (m.after t).verdict? (m.hostCalls t) = some v)
      (h' : (m.after t').verdict? (m.hostCalls t') = some v') : v = v' := by
    obtain ⟨k, rfl⟩ := Nat.exists_eq_add_of_le le
    have halted := isHalted_of_verdict h
    rw [after_add, after_of_halted halted, hostCalls_of_halted halted, h] at h'
    exact Option.some.inj h'
  rcases Nat.le_total t t' with le | le
  · exact later le h h'
  · exact (later le h' h).symm

/-- The verdict on a run can be read off after any number of steps that is large enough. -/
theorem Bytecode.runsTo_iff {v : Verdict} : b.RunsTo host v ↔
    ∃ t, ((Machine.start b host .unbounded).after t).verdict?
      ((Machine.start b host .unbounded).hostCalls t) = some v := by
  constructor
  · rintro ⟨fuel, m, run, verdict⟩
    obtain ⟨rfl, _⟩ := Machine.run_eq_some_iff.1 run
    exact ⟨fuel, verdict⟩
  · rintro ⟨t, verdict⟩
    exact ⟨t, _, Machine.run_eq_some_iff.2 ⟨rfl, Machine.isHalted_of_verdict verdict⟩, verdict⟩

/-- A run has one verdict at most. -/
theorem Bytecode.RunsTo.unique {v v' : Verdict} (h : b.RunsTo host v) (h' : b.RunsTo host v') :
    v = v' := by
  obtain ⟨t, verdict⟩ := runsTo_iff.1 h
  obtain ⟨t', verdict'⟩ := runsTo_iff.1 h'
  exact Machine.verdict_unique verdict verdict'

theorem Bytecode.ends_iff : b.Ends host ↔ ∃ v, b.RunsTo host v := by
  constructor
  · rintro ⟨fuel, m, run⟩
    have halted := (Machine.run_eq_some_iff.1 run).2
    rw [State.isHalted] at halted
    cases status : m.state.status with
    | running =>
        rw [status] at halted
        cases halted
    | halted => exact ⟨_, fuel, m, run, by rw [Machine.verdict?, status]⟩
    | failed e => exact ⟨_, fuel, m, run, by rw [Machine.verdict?, status]⟩
  · rintro ⟨_, fuel, m, run, _⟩
    exact ⟨fuel, m, run⟩

/-- The evaluation of a program never ends by a return. -/
theorem Program.evaluate_ne_returned (n : Nat) (env : Env σ) :
    p.evaluate host n ≠ .error .returned env := by
  rw [Program.evaluate]
  split
  · exact nofun
  · rename_i other
    exact other env

theorem Program.ends_iff : p.Ends host ↔ ∃ v, p.EvaluatesTo host v := by
  constructor
  · rintro ⟨n, finished⟩
    cases outcome : p.evaluate host n with
    | ok a env => exact ⟨_, n, congrArg verdictOf? outcome⟩
    | error cause env =>
        cases cause with
        | failed e => exact ⟨_, n, congrArg verdictOf? outcome⟩
        | returned => exact absurd outcome (evaluate_ne_returned n env)
        | unfinished => exact absurd outcome (finished env)
  · rintro ⟨v, n, verdict⟩
    refine ⟨n, fun env unfinished => ?_⟩
    rw [unfinished] at verdict
    cases verdict

/-- The frame of the top-level code. -/
def Activation.root : Activation := ⟨none, []⟩

/-- The machine gets to the top-level code first. -/
theorem Assembly.main_entered (h : Assembly builtins p b functions start main)
    (host : Builtins σ) :
    ∃ t, At (Machine.start b host .unbounded) t .root start ⟨[], NameTable.empty, host, []⟩ := by
  have initial : At (Machine.start b host .unbounded) 0 .root 0 ⟨[], NameTable.empty, host, []⟩ :=
    { running := rfl, limits := rfl, ip := rfl, stack := rfl, bindings := rfl, returnTo := rfl,
      callers := rfl, builtins := rfl, calls := rfl }
  rcases h.prologue with ⟨_, rfl⟩ | ⟨_, jump, _⟩
  · exact ⟨0, initial⟩
  · exact ⟨1, initial.jump rfl jump⟩

/-- The evaluation of a program in which calls of the names `hosted` go to the host, whether it has
    functions of these names or not. -/
def Program.evaluateFor (p : Program) (hosted : List String) (host : Builtins σ) (n : Nat) :
    EStateM.Result Interruption (Env σ) Unit :=
  match evalNodes hosted n (enterFunction hosted p.declarations n) p.body
      ⟨[], NameTable.empty, host, []⟩ with
  | .error .returned env => .error (.failed (.stackUnderflow .frame .ret)) env
  | result => result

/-- The machine follows the evaluation of the whole program: it comes to the same verdict, and if
    the evaluation is not finished within `n` rounds and calls, the machine takes `n` steps. -/
theorem Assembly.evaluate_follows (h : Assembly builtins p b functions start main)
    (host : Builtins σ) (n : Nat) :
    ∃ t, match verdictOf? (p.evaluateFor builtins host n) with
      | some v => ((Machine.start b host .unbounded).after t).verdict?
          ((Machine.start b host .unbounded).hostCalls t) = some v
      | none => n ≤ t ∧ ((Machine.start b host .unbounded).after t).state.status = .running := by
  obtain ⟨t₀, entered⟩ := h.main_entered host
  have table : (Machine.start b host .unbounded).table = .standard := rfl
  obtain ⟨mainPlaced, halt⟩ := placed_append.1 h.mainPlaced
  have run := evalNodes_follows table (h.enterFunction_follows host n n) h.mainEmitted mainPlaced
    (Nat.le_refl start) (Nat.le_refl _) entered (Nat.le_add_right n t₀)
  obtain ⟨t, _, _, arrives⟩ := run
  rw [Program.evaluateFor]
  generalize evalNodes builtins n (enterFunction builtins p.declarations n) p.body
    ⟨[], NameTable.empty, host, []⟩ = outcome at arrives
  match outcome, arrives with
  | .ok _ env, here =>
      -- behind the statements comes the halt, which is one step more
      obtain ⟨state, calls⟩ := At.halt here table (placed_plain_cons.1 halt).1
      have outermost :
          ((Machine.start b host .unbounded).after t).state.frames.outermost.bindings =
            env.bindings := by
        rw [CallStack.outermost, here.callers]
        exact here.bindings
      refine ⟨t + 1, ?_⟩
      show Machine.verdict? _ _ = _
      rw [Machine.verdict?, state, calls, ← outermost, ← here.stack]
      rfl
  | .error .returned env, ⟨_, ip, here, fetch⟩ =>
      -- a return at the top level fails in the machine as it does in the evaluation
      obtain ⟨status, calls⟩ := At.ret_root table here fetch
      refine ⟨t + 1, ?_⟩
      show Machine.verdict? _ _ = _
      rw [Machine.verdict?, status, calls]
  | .error (.failed e) env, ⟨status, calls⟩ =>
      refine ⟨t, ?_⟩
      show Machine.verdict? _ _ = _
      rw [Machine.verdict?, status, calls]
  | .error .unfinished _, arrives => exact ⟨t, arrives⟩

/-- The machine comes to a verdict if and only if the evaluation comes to it within some bound. -/
theorem Assembly.runsTo_iff_evaluateFor (h : Assembly builtins p b functions start main)
    (host : Builtins σ) (v : Verdict) :
    b.RunsTo host v ↔ ∃ n, verdictOf? (p.evaluateFor builtins host n) = some v := by
  constructor
  · intro runs
    obtain ⟨t, verdict⟩ := Bytecode.runsTo_iff.1 runs
    -- more rounds and calls than the run has steps cannot be unfinished
    obtain ⟨t', follows⟩ := h.evaluate_follows host (t + 1)
    cases evaluation : verdictOf? (p.evaluateFor builtins host (t + 1)) with
    | some v' =>
        rw [evaluation] at follows
        have same := Machine.verdict_unique verdict follows
        exact ⟨t + 1, by rw [evaluation, same]⟩
    | none =>
        rw [evaluation] at follows
        obtain ⟨later, running⟩ := follows
        obtain ⟨k, rfl⟩ := Nat.exists_eq_add_of_le (Nat.le_of_succ_le later)
        have halted := Machine.isHalted_of_verdict verdict
        rw [Machine.after_add, Machine.after_of_halted halted] at running
        rw [State.isHalted, running] at halted
        cases halted
  · rintro ⟨n, verdict⟩
    obtain ⟨t, follows⟩ := h.evaluate_follows host n
    rw [verdict] at follows
    exact Bytecode.runsTo_iff.2 ⟨t, follows⟩

theorem Assembly.runsTo_iff (h : Assembly host.names p b functions start main) (v : Verdict) :
    b.RunsTo host v ↔ p.EvaluatesTo host v := h.runsTo_iff_evaluateFor host v

/-- Compiler correctness: a compiled program ends if and only if its source does, and it runs to
    exactly the verdict that its source evaluates to. -/
theorem compile_correct (compiled : compile host.names p = .ok b) :
    (b.Ends host ↔ p.Ends host) ∧ ∀ v, b.RunsTo host v ↔ p.EvaluatesTo host v := by
  obtain ⟨functions, start, main, h⟩ := compile_assembly compiled
  constructor
  · rw [Bytecode.ends_iff, Program.ends_iff]
    exact exists_congr h.runsTo_iff
  · exact h.runsTo_iff

/-- Three is not even: the program prints that, and leaves what printing returns on the stack. -/
theorem compile_correct_parity :
    Bytecode.parity.RunsTo Builtins.printer
      (.halted [.nil] NameTable.empty [⟨"print", [.bool false], .ok .nil⟩]) := by
  have compiled : compile Builtins.printer.names .parity = .ok .parity := by
    rw [Builtins.names_printer]
    exact compile_parity
  refine ((compile_correct compiled).2 _).2 ⟨5, ?_⟩
  rw [Program.evaluate, Builtins.names_printer]
  decide +kernel

end ImpStack
