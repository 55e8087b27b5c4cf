/-
Module: ImpStack.Proofs.HostCalls
Purpose: The calls of host functions that a run makes. The host is changed by these calls and by
  nothing else: its state after any number of steps is what answering them one after the other makes
  of it, and each of them has the result that the host gave then.
Main exports: HostCall, Machine.hostCalls, Builtins.replay, Builtins.Answers, Machine.host_replays
-/
import ImpStack.Proofs.Action

namespace ImpStack

variable {σ : Type}

instance decidableEqHostResult : DecidableEq (Except RuntimeError Value)
  | .ok v, .ok w => decidable_of_iff (v = w) (by simp)
  | .error e, .error e' => decidable_of_iff (e = e') (by simp)
  | .ok _, .error _ => isFalse nofun
  | .error _, .ok _ => isFalse nofun

/-- A call of a host function, and what came of it. -/
structure HostCall where
  name : String
  args : List Value
  result : Except RuntimeError Value
deriving DecidableEq

/-! ### What the host says to calls

The host is a state that each call may change. A list of calls with their results is what the host
gives if each result is what it answers after the calls before. -/

namespace Builtins

/-- The host after calls, one after the other. -/
def replay (b : Builtins σ) : List HostCall → Builtins σ
  | [] => b
  | c :: rest => (b.call c.name c.args).2.replay rest

/-- Whether calls, one after the other, have the results that the host gives. -/
def Answers (b : Builtins σ) : List HostCall → Prop
  | [] => True
  | c :: rest => (b.call c.name c.args).1 = c.result ∧ (b.call c.name c.args).2.Answers rest

/-- Replaying calls goes from left to right. -/
theorem replay_append (calls calls' : List HostCall) :
    ∀ b : Builtins σ, b.replay (calls ++ calls') = (b.replay calls).replay calls' := by
  induction calls with
  | nil => exact fun b => rfl
  | cons c rest ih => exact fun b => ih (b.call c.name c.args).2

/-- The host answers calls in two parts if it answers the second from where the first has left it.
    -/
theorem answers_append (calls calls' : List HostCall) :
    ∀ b : Builtins σ, b.Answers (calls ++ calls') ↔
      b.Answers calls ∧ (b.replay calls).Answers calls' := by
  induction calls with
  | nil => exact fun b => (and_iff_right trivial).symm
  | cons c rest ih =>
      intro b
      rw [List.cons_append, Answers, Answers, ih, replay, and_assoc]

end Builtins

/-! ### The instruction for host functions

Only one opcode calls the host, and only after its arguments were taken. The result is then pushed,
which may fail at the bound on values although the host has been asked. -/

/-- No action asks the host. -/
theorem Action.perform_host (a : Action) (s : State σ) :
    (Exec.endState (a.perform s)).builtins = s.builtins := by
  have push (v : Value) (s : State σ) : (Exec.endState (Exec.push v s)).builtins = s.builtins := by
    rw [Exec.push_apply]
    cases s.stackLimit? <;> rfl
  cases a with
  | push v => exact push v s
  | pushTwice v =>
      rw [perform_pushTwice]
      cases s.stackLimit? with
      | some limit => rfl
      | none => exact push v _
  | call target =>
      rw [perform_call]
      cases s.frameLimit? <;> rfl
  | ret =>
      rw [perform_ret]
      cases s.frames.pop? <;> rfl
  | skip => rfl
  | bind name v => rfl
  | jump target => rfl
  | halt => rfl

namespace Handler

open Exec

/-- Arguments are the top values, the topmost one last. -/
theorem popArguments_apply (n : Nat) :
    ∀ (args : List Value) (s : State σ), popArguments n args s =
      if n ≤ s.stack.length then
        .ok ((s.stack.take n).reverse ++ args) { s with stack := s.stack.drop n }
      else .error (.stackUnderflow .operand s.opcode) { s with stack := [] } := by
  induction n with
  | zero => exact fun args s => rfl
  | succ n ih =>
      intro args s
      rw [popArguments, bind_apply, pop_apply]
      obtain ⟨ip, stack, frames, status, builtins, limits, stats, fetchedAt, opcode⟩ := s
      cases stack with
      | nil => exact (if_neg (Nat.not_succ_le_zero n)).symm
      | cons v rest =>
          simp only [ih, List.length_cons, Nat.succ_le_succ_iff, List.take_succ_cons,
            List.reverse_cons, List.append_assoc, List.drop_succ_cons]
          rfl

/-- The host is called with the top values, unless there are too few; its result is pushed. -/
theorem func_apply (name : String) (count : Nat) (s : State σ) :
    func [.name name, .count count] s =
      if count ≤ s.stack.length then
        match s.builtins.call name (s.stack.take count).reverse with
        | (.ok v, builtins) => Exec.push v { s with stack := s.stack.drop count, builtins }
        | (.error e, builtins) => .error e { s with stack := s.stack.drop count, builtins }
      else .error (.stackUnderflow .operand s.opcode) { s with stack := [] } := by
  have work : func [.name name, .count count] s =
      (popArguments count [] >>= fun args =>
        callBuiltin name args >>= fun result => Exec.push result) s := rfl
  rw [work, bind_apply, popArguments_apply, List.append_nil]
  by_cases enough : count ≤ s.stack.length
  · rw [if_pos enough, if_pos enough]
    simp only [bind_apply, callBuiltin_apply]
    rcases s.builtins.call name (s.stack.take count).reverse with ⟨_ | _, _⟩ <;> rfl
  · rw [if_neg enough, if_neg enough]

/-- With other operands the instruction for host functions calls none. -/
theorem func_host {operands : List Operand} (arity : operands.length = 2)
    (other : ∀ name count, operands ≠ [.name name, .count count]) (s : State σ) :
    (endState (func operands s)).builtins = s.builtins := by
  match operands, arity with
  | [first, second], _ =>
      cases first with
      | name name =>
          cases second with
          | count count => exact absurd rfl (other name count)
          | value _ => rfl
          | name _ => rfl
          | address _ => rfl
      | value _ => rfl
      | address _ => rfl
      | count _ => rfl

/-- Other instructions call none either. -/
theorem ofOpcode_host {op : Opcode} (other : op ≠ .func) (operands : List Operand) (s : State σ) :
    (endState (ofOpcode op operands s)).builtins = s.builtins := by
  obtain ⟨e, t, fails, -, drawn, -⟩ | ⟨a, t, acts, -, drawn, -⟩ := ofOpcode_cases op operands s
  · rw [fails]
    exact drawn.host other
  · rw [acts, a.perform_host]
    exact drawn.host other

/-- So an instruction with as many operands as its opcode takes keeps the host, unless it names a
    function of it. -/
theorem ofInstruction_host {i : Instruction} (arity : i.operands.length = i.opcode.arity)
    (other : ∀ name count, i ≠ .func name count) (s : State σ) :
    (endState (ofOpcode i.opcode i.operands s)).builtins = s.builtins := by
  obtain ⟨op, operands⟩ := i
  by_cases func : op = .func
  · subst func
    refine func_host arity ?_ s
    rintro name count rfl
    exact other name count rfl
  · exact ofOpcode_host func operands s

end Handler

/-! ### Calls in a run

What a step asks of the host is read off the state before it, so the calls of a run are known
without running the host again: replaying them gives its state and its answers. -/

namespace Machine

variable {m : Machine σ}

/-- The call of a host function that the next step makes, if it makes one. -/
def hostCall? (m : Machine σ) : Option HostCall :=
  if m.state.isHalted ∨ m.state.stepLimit?.isSome then none
  else
    match m.program.get? m.state.ip with
    | some ⟨.func, [.name name, .count count]⟩ =>
      if count ≤ m.state.stack.length then
        let args := (m.state.stack.take count).reverse
        some ⟨name, args, (m.state.builtins.call name args).1⟩
      else none
    | _ => none

/-- The calls of host functions in the first steps of a run, in order. -/
def hostCalls (m : Machine σ) : Nat → List HostCall
  | 0 => []
  | n + 1 => m.hostCalls n ++ (m.after n).hostCall?.toList

/-- Only the instruction for host functions calls one. -/
theorem hostCall?_eq_none {i : Instruction} (fetch : m.program.get? m.state.ip = some i)
    (other : ∀ name count, i ≠ .func name count) : m.hostCall? = none := by
  rw [hostCall?]
  split
  · rfl
  · rw [fetch]
    split
    · rename_i func
      cases func
      exact absurd rfl (other _ _)
    · rfl

theorem hostCall?_of_halted (halted : m.state.isHalted = true) : m.hostCall? = none := by
  rw [hostCall?, if_pos (Or.inl halted)]

/-- What that instruction asks of the host. -/
theorem hostCall?_func (running : m.state.status = .running) (left : m.state.stepLimit? = none)
    {name : String} {count : Nat} (fetch : m.program.get? m.state.ip = some (.func name count)) :
    m.hostCall? =
      if count ≤ m.state.stack.length then
        some ⟨name, (m.state.stack.take count).reverse,
          (m.state.builtins.call name (m.state.stack.take count).reverse).1⟩
      else none := by
  have fetch' : m.program.get? m.state.ip = some ⟨.func, [.name name, .count count]⟩ := fetch
  rw [hostCall?, isHalted_eq_false_iff.2 running, left, fetch']
  exact if_neg (by simp)

/-- The call that a step makes has the host's own answer as its result. -/
theorem hostCall?_answers (m : Machine σ) : m.state.builtins.Answers m.hostCall?.toList := by
  rw [hostCall?]
  split
  · trivial
  · split
    · split
      · exact ⟨rfl, trivial⟩
      · trivial
    · trivial

/-- Recording the outcome of a step does not touch the host. -/
theorem settle_host (result : EStateM.Result RuntimeError (State σ) Unit) :
    (m.settle result).state.builtins = (Exec.endState result).builtins := by
  cases result <;> rfl

/-- The instruction for host functions changes the host by its call, also if that fails. -/
theorem settle_func (running : m.state.status = .running) (left : m.state.stepLimit? = none)
    {name : String} {count : Nat} (fetch : m.program.get? m.state.ip = some (.func name count)) :
    (m.settle (Handler.func [.name name, .count count]
      (fetched m.state (.func name count)))).state.builtins =
        m.state.builtins.replay m.hostCall?.toList := by
  rw [hostCall?_func running left fetch, Handler.func_apply]
  have stack : (fetched m.state (.func name count)).stack = m.state.stack := rfl
  have host : (fetched m.state (.func name count)).builtins = m.state.builtins := rfl
  rw [stack, host]
  by_cases enough : count ≤ m.state.stack.length
  · rw [if_pos enough, if_pos enough]
    rw [Option.toList_some, Builtins.replay, Builtins.replay]
    rcases m.state.builtins.call name (m.state.stack.take count).reverse with ⟨e | v, after⟩
    · rfl
    · exact (settle_host _).trans ((Action.push v).perform_host _)
  · rw [if_neg enough, if_neg enough]
    rfl

/-- A step changes the host by the call that it makes, and by nothing else. -/
theorem step_host (table : m.table = .standard) :
    m.step.state.builtins = m.state.builtins.replay m.hostCall?.toList := by
  cases halted : m.state.isHalted with
  | true =>
      rw [step_of_halted halted, hostCall?_of_halted halted]
      rfl
  | false =>
      have running := isHalted_eq_false_iff.1 halted
      rw [step_of_running running, execute_apply, table]
      cases left : m.state.stepLimit? with
      | some limit =>
          rw [hostCall?, if_pos (Or.inr (by rw [left]; rfl))]
          rfl
      | none =>
          cases fetch : m.program.get? m.state.ip with
          | none =>
              rw [hostCall?, fetch, ite_self]
              rfl
          | some i =>
              simp only [InstructionTable.resolve_standard]
              -- no other instruction gets to the host
              by_cases calls : ∃ name count, i = .func name count
              · obtain ⟨name, count, rfl⟩ := calls
                exact settle_func running left fetch
              · have other : ∀ name count, i ≠ .func name count :=
                  fun name count same => calls ⟨name, count, same⟩
                rw [hostCall?_eq_none fetch other]
                split
                · rename_i arity
                  exact (settle_host _).trans (Handler.ofInstruction_host arity other _)
                · rfl

/-- The state of the host after any number of steps is what the calls so far make of it, and they
    have the results that it gave. -/
theorem host_replays (table : m.table = .standard) (n : Nat) :
    (m.after n).state.builtins = m.state.builtins.replay (m.hostCalls n) ∧
      m.state.builtins.Answers (m.hostCalls n) := by
  induction n with
  | zero => exact ⟨rfl, trivial⟩
  | succ n ih =>
      obtain ⟨host, answers⟩ := ih
      have table' : (m.after n).table = .standard := by rw [after_table, table]
      rw [hostCalls, Builtins.replay_append, Builtins.answers_append, ← host]
      exact ⟨step_host table', answers, hostCall?_answers (m.after n)⟩

end Machine

/-! ### Hosts

Later examples run with a host that has no functions, or with one that only prints. -/

theorem Builtins.names_empty (world : σ) : (Builtins.empty world).names = [] := by
  rw [Builtins.names, NameTable.sortedNames, NameTable.sorted]
  exact congrArg (List.map Prod.fst) List.mergeSort_nil

/-- A host that only prints, and keeps the lines that it printed. -/
def Builtins.printer : Builtins (List String) :=
  (Builtins.empty []).register "print"
    (Standard.print fun line printed => (.ok (), printed ++ [line]))

theorem Builtins.names_printer : Builtins.printer.names = ["print"] := by
  rw [Builtins.names, NameTable.sortedNames, NameTable.sorted]
  exact congrArg (List.map Prod.fst) (List.mergeSort_singleton _)

end ImpStack
