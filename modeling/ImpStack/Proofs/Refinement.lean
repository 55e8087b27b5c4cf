/-
Module: ImpStack.Proofs.Refinement
Purpose: The work of single instructions refines the parts of an evaluation: from a state that
  agrees with what the evaluation has, both come out the same.
Main exports: Exec.Refines, At.compute, At.test, At.host, At.call, At.ret
-/
import ImpStack.Proofs.Trace

namespace ImpStack

variable {σ α β : Type}

/-! ### Handlers

What a handler does to the machine is compared with what an evaluation does to its environment, for
the same result or the same error. The relation is closed under sequence, so handlers are taken
apart as they are written. -/

/-- The results of some work and of an evaluation: both end and agree, or both fail alike. -/
inductive Refined (op : Opcode) (act : Activation) (ip : Nat) (env : Env σ) :
    EStateM.Result RuntimeError (State σ) α → EStateM.Result Interruption (Env σ) α → Prop where
  | ok {a : α} {s' : State σ} {env' : Env σ} (opcode : s'.opcode = op)
      (agrees : Agrees s' act ip env') (calls : env'.calls = env.calls) :
      Refined op act ip env (.ok a s') (.ok a env')
  | error {e : RuntimeError} {s' : State σ} {env' : Env σ} (calls : env'.calls = env.calls) :
      Refined op act ip env (.error e s') (.error (.failed e) env')

namespace Exec

/-- Work on behalf of an opcode that does what an evaluation says, without calling the host. -/
def Refines (op : Opcode) (x : Exec σ α) (y : Eval σ α) : Prop :=
  ∀ s act ip env, s.opcode = op → Agrees s act ip env → Refined op act ip env (x s) (y env)

/-- Work in sequence refines evaluation in sequence. -/
theorem refines_bind {op : Opcode} {x : Exec σ α} {y : Eval σ α} {f : α → Exec σ β}
    {g : α → Eval σ β} (first : Refines op x y) (next : ∀ a, Refines op (f a) (g a)) :
    Refines op (x >>= f) (y >>= g) := by
  intro s act ip env opcode agrees
  have result := first s act ip env opcode agrees
  rw [bind_apply, Eval.bind_apply]
  generalize x s = r, y env = r' at result
  cases result with
  | error calls => exact .error calls
  | @ok a s' env' opcode' agrees' calls =>
      have rest := next a s' act ip env' opcode' agrees'
      simp only []
      generalize f a s' = r, g a env' = r' at rest
      cases rest with
      | error calls' => exact .error (calls'.trans calls)
      | ok opcode'' agrees'' calls' => exact .ok opcode'' agrees'' (calls'.trans calls)

theorem refines_push {op : Opcode} (v : Value) :
    Refines op (push v : Exec σ Unit) (Eval.push v) := by
  intro s act ip env opcode agrees
  have free : s.stackLimit? = none := by
    rw [State.stackLimit?, agrees.limits]
    rfl
  rw [push_apply, free]
  exact .ok opcode { agrees with stack := congrArg (v :: ·) agrees.stack } rfl

/-- Popping from the machine is popping from the environment, with the same underflow. -/
theorem refines_pop {op : Opcode} : Refines op (pop : Exec σ Value) (Eval.pop op) := by
  intro s act ip env opcode agrees
  obtain ⟨stack, bindings, builtins, calls⟩ := env
  subst opcode
  rw [pop_apply, agrees.stack]
  cases stack with
  | nil => exact .error rfl
  | cons v rest => exact .ok rfl { agrees with stack := rfl } rfl

/-- Variables of the active frame are those of the environment. -/
theorem refines_bindVariable {op : Opcode} (name : String) (v : Value) :
    Refines op (Exec.bind name v : Exec σ Unit)
      (modify fun env => { env with bindings := env.bindings.insert name v }) := by
  intro s act ip env opcode agrees
  have bindings : (s.frames.active.bindings.insert name v) = env.bindings.insert name v := by
    rw [agrees.bindings]
  exact .ok opcode { agrees with bindings := bindings } rfl

end Exec

namespace Handler

open Exec

theorem refines_push (v : Value) :
    Refines .push (push [.value v] : Exec σ Unit) (Eval.push v) :=
  Exec.refines_push v

/-- A binary operator refines the evaluation that combines two values. -/
theorem refines_binary {op : Opcode} (f : Value → Value → Except OperatorError Value) :
    Refines op (binary f [] : Exec σ Unit) (Eval.combine op f) := by
  refine refines_bind refines_pop fun right => refines_bind refines_pop fun left => ?_
  cases f left right with
  | ok v => exact Exec.refines_push v
  | error e =>
      intro s act ip env opcode agrees
      rw [← opcode]
      exact .error rfl

/-- The instruction for negation refines the evaluation that negates. -/
theorem refines_not : Refines .not (not [] : Exec σ Unit) Eval.negate :=
  refines_bind refines_pop fun v => Exec.refines_push (.bool !v.truthy)

theorem refines_load (name : String) :
    Refines .load (load [.name name] : Exec σ Unit) (Eval.load name) := by
  intro s act ip env opcode agrees
  have same : s.frames.active.lookup? name = env.bindings.find? name := by
    rw [Frame.lookup?, agrees.bindings]
  rw [load_apply, Eval.load_apply, same]
  cases env.bindings.find? name with
  | some v => exact Exec.refines_push v s act ip env opcode agrees
  | none => exact .error rfl

theorem refines_store (name : String) :
    Refines .store (store [.name name] : Exec σ Unit) (Eval.store name) :=
  refines_bind refines_pop fun v => refines_bindVariable name v

/-- The opcode of a binary operator computes the operator or its negation. -/
theorem refines_opcode (op : BinaryOp) :
    Refines op.opcode (ofOpcode op.opcode [] : Exec σ Unit)
      (Eval.combine op.opcode op.compute) := by
  have handler : (ofOpcode op.opcode : Handler σ) = binary op.compute := by cases op <;> rfl
  rw [handler]
  exact refines_binary op.compute

end Handler

/-! ### Single instructions

A machine at an instruction makes one step, which is the handler's work between two states that
agree with the environment. Sequences of instructions are then put together from such steps, and
branches are followed. -/

variable {m : Machine σ} {t N lo hi : Nat} {act : Activation} {ip : Nat} {env : Env σ}

/-- A step that refines an evaluation arrives where the evaluation does. -/
theorem Arrives.of_refined {I : Nat → Prop} {op : Opcode}
    {r : EStateM.Result RuntimeError (State σ) Unit} {r' : EStateM.Result Interruption (Env σ) Unit}
    (step : m.after (t + 1) = (m.after t).settle r) (result : Refined op act ip env r r')
    (calls : m.hostCalls (t + 1) = env.calls) :
    Arrives m I N act (fun t' _ env' => At m t' act ip env') (t + 1) r' := by
  cases result with
  | ok opcode agrees same =>
      refine { toAgrees := ?_, calls := calls.trans same.symm }
      rw [step]
      exact agrees
  | error same =>
      refine ⟨?_, calls.trans same.symm⟩
      rw [step]
      rfl

namespace At

/-- The state that an instruction's handler starts in. -/
theorem fetched (here : At m t act ip env) (i : Instruction) :
    Agrees (Machine.fetched (m.after t).state i) act (ip + 1) env :=
  { here.toAgrees with ip := congrArg (· + 1) here.ip }

theorem stepLimit? (here : At m t act ip env) : (m.after t).state.stepLimit? = none := by
  rw [State.stepLimit?, here.limits]
  rfl

/-- The instruction of the program at the address is the one that is fetched. -/
theorem fetch (here : At m t act ip env) {i : Instruction} (fetch : m.program.get? ip = some i) :
    (m.after t).program.get? (m.after t).state.ip = some i := by
  rw [Machine.after_program, here.ip, fetch]

/-- The next step is the work of the instruction at hand. -/
theorem step (here : At m t act ip env) (table : m.table = .standard) {i : Instruction}
    (fetch : m.program.get? ip = some i) (arity : i.operands.length = i.opcode.arity) :
    m.after (t + 1) = (m.after t).settle
      (Handler.ofOpcode i.opcode i.operands (Machine.fetched (m.after t).state i)) := by
  refine Machine.step_eq ?_ here.running here.stepLimit? (here.fetch fetch) arity
  rw [Machine.after_table, table]

/-- No other instruction calls the host. -/
theorem calls_step (here : At m t act ip env) {i : Instruction}
    (fetch : m.program.get? ip = some i) (other : i.opcode ≠ .func) :
    m.hostCalls (t + 1) = env.calls := by
  have none := Machine.hostCall?_eq_none (here.fetch fetch) fun name count func =>
    other (congrArg Instruction.opcode func)
  rw [Machine.hostCalls, none, here.calls]
  exact List.append_nil _

/-- One step arrives where the evaluation does that its work refines. -/
theorem arrives {I : Nat → Prop} (here : At m t act ip env) (table : m.table = .standard)
    {i : Instruction} (fetch : m.program.get? ip = some i)
    (arity : i.operands.length = i.opcode.arity) (other : i.opcode ≠ .func) {y : Eval σ Unit}
    (refines : Exec.Refines i.opcode (Handler.ofOpcode i.opcode i.operands) y) :
    Arrives m I N act (fun t' _ env' => At m t' act (ip + 1) env') (t + 1) (y env) := by
  have result := refines _ act (ip + 1) env rfl (here.fetched i)
  have step := here.step table fetch arity
  have calls := here.calls_step fetch other
  exact .of_refined step result calls

/-- An instruction follows the evaluation that its work refines. -/
theorem compute (here : At m t act ip env) (table : m.table = .standard) (low : lo ≤ ip)
    (high : ip < hi) {i : Instruction} (fetch : m.program.get? ip = some i)
    (arity : i.operands.length = i.opcode.arity) (other : i.opcode ≠ .func) {y : Eval σ Unit}
    (refines : Exec.Refines i.opcode (Handler.ofOpcode i.opcode i.operands) y) :
    Follows m (Inside m lo hi act.depth) N act t (y env) fun t' _ env' =>
      At m t' act (ip + 1) env' :=
  .later (here.inside low high) (.here (here.arrives table fetch arity other refines))

/-- A step whose evaluation is done. -/
theorem computed (here : At m t act ip env) (table : m.table = .standard) {i : Instruction}
    (fetch : m.program.get? ip = some i) (arity : i.operands.length = i.opcode.arity)
    (other : i.opcode ≠ .func) {y : Eval σ Unit}
    (refines : Exec.Refines i.opcode (Handler.ofOpcode i.opcode i.operands) y) {env' : Env σ}
    (done : y env = .ok () env') : At m (t + 1) act (ip + 1) env' := by
  have arrived := here.arrives (I := fun _ => True) (N := 0) table fetch arity other refines
  rwa [done] at arrived

/-- A step whose evaluation fails. -/
theorem failed (here : At m t act ip env) (table : m.table = .standard) {i : Instruction}
    (fetch : m.program.get? ip = some i) (arity : i.operands.length = i.opcode.arity)
    (other : i.opcode ≠ .func) {y : Eval σ Unit}
    (refines : Exec.Refines i.opcode (Handler.ofOpcode i.opcode i.operands) y) {env' : Env σ}
    {e : RuntimeError} (fails : y env = .error (.failed e) env') :
    (m.after (t + 1)).state.status = .failed e := by
  have arrived := here.arrives (I := fun _ => True) (N := 0) table fetch arity other refines
  rw [fails] at arrived
  exact arrived.1

/-- An unconditional jump. -/
theorem jump (here : At m t act ip env) (table : m.table = .standard) {target : Nat}
    (fetch : m.program.get? ip = some (.jump target)) : At m (t + 1) act target env := by
  refine { toAgrees := ?_, calls := here.calls_step fetch nofun }
  rw [here.step table fetch rfl]
  exact { here.toAgrees with ip := rfl }

/-- A conditional jump pops its condition and goes on at its target if that is true. -/
theorem jumpIf (here : At m t act ip env) (table : m.table = .standard) {target : Nat}
    (fetch : m.program.get? ip = some (.jumpIf target)) {v : Value} {rest : List Value}
    (stack : env.stack = v :: rest) :
    At m (t + 1) act (if v.truthy then target else ip + 1) { env with stack := rest } := by
  have step : m.after (t + 1) = (m.after t).settle
      ((Exec.pop >>= fun condition => if condition.truthy then Exec.jump target else pure ())
        (Machine.fetched (m.after t).state (.jumpIf target))) := here.step table fetch rfl
  have agrees := here.fetched (.jumpIf target)
  rw [Exec.bind_apply, Exec.pop_apply, agrees.stack, stack] at step
  refine { toAgrees := ?_, calls := here.calls_step fetch nofun }
  rw [step]
  cases truth : v.truthy with
  | true =>
      simp only [truth, if_true]
      exact { agrees with ip := rfl, stack := rfl }
  | false =>
      simp only [truth, Bool.false_eq_true, if_false]
      exact { agrees with stack := rfl }

/-- A conditional jump follows the test of its condition. -/
theorem test (here : At m t act ip env) (table : m.table = .standard) (low : lo ≤ ip)
    (high : ip < hi) {target : Nat}
    (fetch : m.program.get? ip = some (.jumpIf target)) :
    Follows m (Inside m lo hi act.depth) N act t (Eval.test .jumpIf env) fun t' taken env' =>
      t < t' ∧ At m t' act (if taken then target else ip + 1) env' := by
  refine .later (here.inside low high) (.here ?_)
  cases values : env.stack with
  | nil =>
      have step : m.after (t + 1) = (m.after t).settle
          ((Exec.pop >>= fun condition => if condition.truthy then Exec.jump target else pure ())
            (Machine.fetched (m.after t).state (.jumpIf target))) := here.step table fetch rfl
      rw [Exec.bind_apply, Exec.pop_apply, (here.fetched _).stack, values] at step
      obtain ⟨stack, bindings, builtins, hosted⟩ := env
      cases values
      refine ⟨?_, here.calls_step fetch nofun⟩
      rw [step]
      rfl
  | cons v rest =>
      have arrived := here.jumpIf table fetch values
      obtain ⟨stack, bindings, builtins, hosted⟩ := env
      cases values
      exact ⟨Nat.lt_succ_self t, arrived⟩

end At

/-- Testing for a negation's sake pops the value that the negation would. -/
theorem Eval.test_not :
    (Eval.test .not : Eval σ Bool) =
      (do Eval.negate; let skip ← Eval.test .jumpIf; pure (!skip)) := by
  funext env
  obtain ⟨stack, bindings, builtins, calls⟩ := env
  cases stack with
  | nil => rfl
  | cons v rest =>
      show EStateM.Result.ok v.truthy _ = EStateM.Result.ok (!!v.truthy) _
      rw [Bool.not_not]

namespace At

/-- A branch goes on behind its two instructions if the condition is true, else at the target. -/
theorem branch (here : At m t act ip env) (table : m.table = .standard) (low : lo ≤ ip)
    (high : ip + 1 < hi) {target : Nat}
    (not : m.program.get? ip = some (.plain .not))
    (jump : m.program.get? (ip + 1) = some (.jumpIf target)) :
    Follows m (Inside m lo hi act.depth) N act t (Eval.test .not env) fun t' holds env' =>
      t < t' ∧ At m t' act (if holds then ip + 2 else target) env' := by
  rw [Eval.test_not]
  have negated := here.compute (N := N) table low (Nat.lt_of_succ_lt high) not rfl nofun
    Handler.refines_not
  refine .seq negated fun t' _ env' later arrived => ?_
  refine .seq (arrived.test table (Nat.le_succ_of_le low) high jump) ?_
  intro t'' skip env'' _ arrived'
  refine .here ⟨Nat.lt_of_le_of_lt later arrived'.1, ?_⟩
  cases skip with
  | true => exact arrived'.2
  | false => exact arrived'.2

/-! ### Calls and returns

These change the frames, which the environment does not have. A call starts a new activation above
the old one, and a return goes back to it; what the stack holds stays where it is. -/

/-- A call of the host. -/
theorem host (here : At m t act ip env) (table : m.table = .standard) (low : lo ≤ ip)
    (high : ip < hi) {name : String} {count : Nat}
    (fetch : m.program.get? ip = some (.func name count)) :
    Follows m (Inside m lo hi act.depth) N act t (Eval.callHost name count env)
      fun t' _ env' => At m t' act (ip + 1) env' := by
  have step : m.after (t + 1) = (m.after t).settle (Handler.func [.name name, .count count]
      (Machine.fetched (m.after t).state (.func name count))) := here.step table fetch rfl
  have agrees := here.fetched (.func name count)
  have asked := Machine.hostCall?_func here.running here.stepLimit? (here.fetch fetch)
  have calls : m.hostCalls (t + 1) = env.calls ++ (m.after t).hostCall?.toList := by
    rw [Machine.hostCalls, here.calls]
  rw [here.stack, here.builtins] at asked
  rw [asked] at calls
  rw [Handler.func_apply, agrees.stack, agrees.builtins] at step
  refine .later (here.inside low high) (.here ?_)
  by_cases enough : count ≤ env.stack.length
  · rw [if_pos enough] at step calls
    generalize taken : (env.stack.take count).reverse = args at step calls
    rw [Eval.callHost_of_le enough taken]
    have called : m.hostCalls (t + 1) =
        env.calls ++ [⟨name, args, (env.builtins.call name args).1⟩] := calls
    generalize env.builtins.call name args = answer at step called ⊢
    rcases answer with ⟨e | v, after⟩
    · refine ⟨?_, called⟩
      rw [step]
      rfl
    · refine .of_refined step (Exec.refines_push v _ act (ip + 1) _ rfl ?_) called
      exact { agrees with stack := rfl, builtins := rfl }
  · rw [if_neg enough] at step calls
    rw [Eval.callHost_of_lt enough]
    refine ⟨?_, calls.trans (List.append_nil _)⟩
    rw [step]
    rfl

/-- A call of a function of the program enters a frame without variables. -/
theorem call (here : At m t act ip env) (table : m.table = .standard) {entry : Nat}
    (fetch : m.program.get? ip = some (.call entry)) :
    At m (t + 1) ⟨some (ip + 1), ⟨act.returnTo, env.bindings⟩ :: act.callers⟩ entry
      { env with bindings := NameTable.empty } := by
  have step : m.after (t + 1) = (m.after t).settle
      ((Exec.enter (.returningTo ((m.after t).state.ip + 1)) >>= fun _ => Exec.jump entry)
        (Machine.fetched (m.after t).state (.call entry))) := here.step table fetch rfl
  have agrees := here.fetched (.call entry)
  have free : (Machine.fetched (m.after t).state (.call entry)).frameLimit? = none := by
    rw [State.frameLimit?, agrees.limits]
    rfl
  refine { toAgrees := ?_, calls := here.calls_step fetch nofun }
  rw [step, Exec.bind_apply, Exec.enter_apply, free]
  refine { agrees with ip := rfl, bindings := rfl, returnTo := ?_, callers := ?_ }
  · exact congrArg some agrees.ip
  · show (m.after t).state.frames.active :: (m.after t).state.frames.callers = _
    rw [here.callers, ← here.bindings, ← here.returnTo]

/-- A return leaves the active frame. -/
theorem step_ret (here : At m t act ip env) (table : m.table = .standard)
    (fetch : m.program.get? ip = some (.plain .ret)) :
    m.after (t + 1) = (m.after t).settle
      ((Exec.leave >>= fun frame => Exec.jump frame.returnAddress)
        (Machine.fetched (m.after t).state (.plain .ret))) :=
  here.step table fetch rfl

/-- A return goes on behind the call, with the variables of the frame below. -/
theorem ret (table : m.table = .standard) {next : Nat} {caller : Frame} {callers : List Frame}
    (here : At m t ⟨some next, caller :: callers⟩ ip env)
    (fetch : m.program.get? ip = some (.plain .ret)) :
    At m (t + 1) ⟨caller.returnTo, callers⟩ next { env with bindings := caller.bindings } := by
  have agrees := here.fetched (.plain .ret)
  obtain ⟨left, popped, active, rest⟩ := CallStack.pop?_of_call agrees.callers
  refine { toAgrees := ?_, calls := here.calls_step fetch nofun }
  rw [here.step_ret table fetch, Exec.bind_apply, Exec.leave_apply, popped]
  refine { agrees with ip := ?_, bindings := ?_, returnTo := ?_, callers := rest }
  · show Frame.returnAddress _ = next
    rw [Frame.returnAddress, agrees.returnTo]
    rfl
  · exact congrArg Frame.bindings active
  · exact congrArg Frame.returnTo active

/-- There is no frame below that of the top-level statements. -/
theorem ret_root (table : m.table = .standard) {returnTo : Option Nat}
    (here : At m t ⟨returnTo, []⟩ ip env) (fetch : m.program.get? ip = some (.plain .ret)) :
    (m.after (t + 1)).state.status = .failed (.stackUnderflow .frame .ret) ∧
      m.hostCalls (t + 1) = env.calls := by
  have agrees := here.fetched (.plain .ret)
  refine ⟨?_, here.calls_step fetch nofun⟩
  rw [here.step_ret table fetch, Exec.bind_apply, Exec.leave_apply,
    CallStack.pop?_of_root agrees.callers]
  rfl

/-- A halt ends the run and changes nothing else. -/
theorem halt (here : At m t act ip env) (table : m.table = .standard)
    (fetch : m.program.get? ip = some (.plain .halt)) :
    (m.after (t + 1)).state = { Machine.fetched (m.after t).state (.plain .halt) with
      status := .halted } ∧ m.hostCalls (t + 1) = env.calls := by
  refine ⟨?_, here.calls_step fetch nofun⟩
  rw [here.step table fetch rfl]
  rfl

end At

end ImpStack
