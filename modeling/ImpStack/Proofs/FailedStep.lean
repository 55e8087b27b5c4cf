/-
Module: ImpStack.Proofs.FailedStep
Purpose: What a step that fails leaves behind. Values that its instruction has taken stay taken, and
  a function of the host that it has called has been called; else the machine is as it was, except
  that it has gone past the instruction if it got to fetch it.
Main exports: RuntimeError.BeforeFetch, LeftBehind, Handler.ofOpcode_stack,
  Handler.ofOpcode_host_failed, failed_step_leaves
-/
import ImpStack.Proofs.Control
import ImpStack.Proofs.HostCalls

namespace ImpStack

variable {σ α β : Type}

/-! ### The operand stack

What is drawn for an instruction is taken off the top of the operand stack, and a value is pushed
only as the last thing that is done. The one instruction that pushes two values first puts back the
one that it has taken. -/

/-- Whatever work yields, if it does not fail, has a property. -/
def Exec.Yields (P : α → Prop) (x : Exec σ α) : Prop := ∀ s t a, x s = .ok a t → P a

namespace Exec

variable {P : α → Prop} {Q : β → Prop}

theorem yields_pure {a : α} (h : P a) : Yields P (pure a : Exec σ α) := by
  rintro s _ _ ⟨⟩
  exact h

/-- Work that fails yields nothing, so it has every property. -/
theorem yields_throw (e : RuntimeError) : Yields P (throw e : Exec σ α) := by
  intro s t a h
  cases h

/-- What comes first does not matter. -/
theorem yields_bind {x : Exec σ α} {f : α → Exec σ β} (next : ∀ a, Yields Q (f a)) :
    Yields Q (x >>= f) := by
  intro s t b h
  obtain ⟨a, s', -, done⟩ := bind_apply_ok h
  exact next a s' t b done

end Exec

namespace Handler

open Exec

theorem yields_combine {P : Action → Prop} (f : Value → Value → Except OperatorError Value)
    (h : ∀ v, P (.push v)) : Yields P (combine f : Exec σ Action) := by
  refine yields_bind fun right => yields_bind fun left => ?_
  cases f left right with
  | ok v => exact yields_pure (h v)
  | error e => exact yields_bind fun s => yields_throw _

/-- Only to duplicate a value is it pushed twice. -/
theorem yields_draw {op : Opcode} (other : op ≠ .dup) (operands : List Operand) :
    Yields (fun a => ∀ v, a ≠ .pushTwice v) (draw op operands : Exec σ Action) := by
  cases op with
  | dup => exact absurd rfl other
  | push => exact yields_bind fun v => yields_pure nofun
  | pop => exact yields_bind fun _ => yields_pure nofun
  | not => exact yields_bind fun v => yields_pure nofun
  | jump => exact yields_bind fun target => yields_pure nofun
  | jumpIf =>
      refine yields_bind fun target => yields_bind fun condition => yields_pure ?_
      cases condition.truthy with
      | true => exact nofun
      | false => exact nofun
  | load =>
      refine yields_bind fun name => yields_bind fun s => ?_
      cases s.frames.active.lookup? name with
      | some v => exact yields_pure nofun
      | none => exact yields_throw _
  | store => exact yields_bind fun name => yields_bind fun v => yields_pure nofun
  | call => exact yields_bind fun target => yields_pure nofun
  | ret => exact yields_pure nofun
  | func =>
      refine yields_bind fun name => yields_bind fun count => yields_bind fun args => ?_
      exact yields_bind fun result => yields_pure nofun
  | halt => exact yields_pure nofun
  | _ =>
      rw [draw]
      exact yields_combine _ fun v => nofun

/-- A value that was there before stays there if it cannot be pushed twice. -/
theorem dup_stack {s t : State σ} {operands : List Operand} {e : RuntimeError}
    (h : ofOpcode .dup operands s = .error e t) : t.stack <:+ s.stack := by
  rw [ofOpcode_eq, draw, bind_assoc, bind_apply, pop_apply] at h
  cases stack : s.stack with
  | nil =>
      rw [stack] at h
      cases h
      exact stack ▸ List.suffix_refl _
  | cons v rest =>
      simp only [stack, pure_bind, Action.perform_pushTwice] at h
      split at h
      · cases h
        exact List.suffix_cons v rest
      · obtain ⟨-, rfl⟩ := push_failed h
        exact List.suffix_refl _

/-- An instruction that fails has taken values from the stack at most. -/
theorem ofOpcode_stack {op : Opcode} {operands : List Operand} {s t : State σ} {e : RuntimeError}
    (h : ofOpcode op operands s = .error e t) : t.stack <:+ s.stack := by
  by_cases dup : op = .dup
  · subst dup
    exact dup_stack h
  · obtain ⟨e', t', fails, -, drawn, -⟩ | ⟨a, t', acts, draws, drawn, -⟩ :=
      ofOpcode_cases op operands s
    · rw [fails] at h
      cases h
      exact drawn.stack
    · rw [acts] at h
      rw [Action.perform_failed_eq (yields_draw dup operands _ _ _ draws) h]
      exact drawn.stack

/-- A call of the host that fails has changed its state only if the function has failed, or if its
    result found no room on the stack. -/
theorem func_host_failed {name : String} {count : Nat} {s t : State σ} {e : RuntimeError}
    (h : func [.name name, .count count] s = .error e t) (changed : t.builtins ≠ s.builtins) :
    (∃ name message, e = .builtin name message) ∨ ∃ k, e = .stackOverflow k := by
  rw [func_apply] at h
  split at h
  · rcases answer : s.builtins.call name (s.stack.take count).reverse with ⟨e' | v, host⟩
    · simp only [answer] at h
      cases h
      rcases call_error (congrArg Prod.fst answer) with ⟨missing, rfl⟩ | builtin
      · rw [Builtins.call, missing] at answer
        exact absurd (congrArg Prod.snd answer).symm changed
      · exact Or.inl ⟨name, builtin⟩
    · simp only [answer] at h
      exact Or.inr (push_failed h).1
  · cases h
    exact absurd rfl changed

/-- An instruction that fails has changed the host only if it called a function of it. -/
theorem ofOpcode_host_failed {i : Instruction} (arity : i.operands.length = i.opcode.arity)
    {s t : State σ} {e : RuntimeError} (h : ofOpcode i.opcode i.operands s = .error e t)
    (changed : t.builtins ≠ s.builtins) :
    i.opcode = .func ∧
      ((∃ name message, e = .builtin name message) ∨ ∃ k, e = .stackOverflow k) := by
  by_cases calls : ∃ name count, i = .func name count
  · obtain ⟨name, count, rfl⟩ := calls
    exact ⟨rfl, func_host_failed h changed⟩
  · have same := ofInstruction_host arity (fun name count func => calls ⟨name, count, func⟩) s
    rw [h] at same
    exact absurd same changed

end Handler

/-! ### Steps that fail

A step fails before the fetch or after it. Before the fetch nothing has changed; behind it the
machine has counted the step and gone on to the next address, and the instruction has taken what it
got to take. -/

/-- The errors that are found before an instruction is fetched. -/
inductive RuntimeError.BeforeFetch : RuntimeError → Prop where
  | steps (limit : Nat) : BeforeFetch (.stepLimitExceeded limit)
  | address (address size : Nat) : BeforeFetch (.invalidAddress address size)

/-- No instruction fails with one of these. -/
theorem Handler.ofOpcode_fetched {op : Opcode} {operands : List Operand} {s t : State σ}
    {e : RuntimeError} (h : ofOpcode op operands s = .error e t) : ¬ e.BeforeFetch := by
  intro before
  rcases ofOpcode_error h with fault | ⟨k, rfl⟩ | ⟨k, rfl⟩ | ⟨-, -, rfl⟩
  · cases fault with
    | operator e => cases e <;> cases before
    | _ => cases before
  · cases before
  · cases before
  · cases before

/-- What a step from the state `s` of a machine that runs `program` leaves behind if it fails with
    `e`. -/
structure LeftBehind (program : Bytecode) (e : RuntimeError) (s t : State σ) : Prop where
  /-- The variables and return addresses of all frames are as before. -/
  frames : t.frames = s.frames
  calls : t.stats.calls = s.stats.calls
  returns : t.stats.returns = s.stats.returns
  maxDepth : t.stats.maxDepth = s.stats.maxDepth
  /-- Values may be gone from the top of the stack. -/
  stack : t.stack <:+ s.stack
  unfetched : e.BeforeFetch → t.ip = s.ip ∧ t.stats.steps = s.stats.steps ∧ t.stack = s.stack ∧
    t.builtins = s.builtins
  /-- The machine has gone past the instruction. -/
  fetched : ¬ e.BeforeFetch → t.ip = s.ip + 1 ∧ t.stats.steps = s.stats.steps + 1
  /-- Only a call of the host can have changed its state. -/
  host : t.builtins ≠ s.builtins → (∃ i, program.get? s.ip = some i ∧ i.opcode = .func) ∧
    ((∃ name message, e = .builtin name message) ∨ ∃ k, e = .stackOverflow k)

namespace LeftBehind

variable {program : Bytecode} {e : RuntimeError} {s t : State σ}

/-- Nothing has changed yet when the fetch fails. -/
theorem of_unfetched (before : e.BeforeFetch) : LeftBehind program e s s where
  frames := rfl
  calls := rfl
  returns := rfl
  maxDepth := rfl
  stack := List.suffix_refl _
  unfetched _ := ⟨rfl, rfl, rfl, rfl⟩
  fetched after := absurd before after
  host changed := absurd rfl changed

/-- What fails after the fetch has changed the stack and the host at most. -/
theorem of_fetched {i : Instruction} (fetch : program.get? s.ip = some i) (after : ¬ e.BeforeFetch)
    (rest : t = { Machine.fetched s i with stack := t.stack, builtins := t.builtins })
    (stack : t.stack <:+ s.stack)
    (host : t.builtins ≠ s.builtins → i.opcode = .func ∧
      ((∃ name message, e = .builtin name message) ∨ ∃ k, e = .stackOverflow k)) :
    LeftBehind program e s t where
  frames := by rw [rest]; rfl
  calls := by rw [rest]; rfl
  returns := by rw [rest]; rfl
  maxDepth := by rw [rest]; rfl
  stack := stack
  unfetched before := absurd before after
  fetched _ := by rw [rest]; exact ⟨rfl, rfl⟩
  host changed := ⟨⟨i, fetch, (host changed).1⟩, (host changed).2⟩

end LeftBehind

/-- The parts of a step that fails, put together: the failure is one before the fetch or one of the
    handler. -/
theorem Machine.execute_leaves {program : Bytecode} {s t : State σ} {e : RuntimeError}
    (h : execute program .standard s = .error e t) : LeftBehind program e s t := by
  rw [execute_apply] at h
  cases left : s.stepLimit? with
  | some limit =>
      rw [left] at h
      cases h
      exact .of_unfetched (.steps limit)
  | none =>
      cases fetch : program.get? s.ip with
      | none =>
          rw [left, fetch] at h
          cases h
          exact .of_unfetched (.address s.ip program.size)
      | some i =>
          rw [left, fetch] at h
          simp only [InstructionTable.resolve_standard] at h
          split at h
          · rename_i arity
            exact .of_fetched fetch (Handler.ofOpcode_fetched h) (Handler.ofOpcode_failed h)
              (Handler.ofOpcode_stack (s := fetched s i) h)
              (Handler.ofOpcode_host_failed (s := fetched s i) arity h)
          · cases h
            exact .of_fetched fetch nofun rfl (List.suffix_refl _) (absurd rfl)

/-- A step that fails leaves the frames and the calls as they were, and takes values from the stack
    at most. It has gone past an instruction unless it failed before the fetch, and only a call of
    the host can have changed the host. -/
theorem failed_step_leaves {m : Machine σ} (table : m.table = .standard)
    (running : m.state.status = .running) {e : RuntimeError} (failed : m.step.outcome = .error e) :
    LeftBehind m.program e m.state m.step.state := by
  obtain ⟨t, result, state⟩ :=
    Machine.execute_of_failed table running (Machine.failed_of_outcome failed)
  rw [state]
  exact { Machine.execute_leaves result with }

/-- A machine with room for one value, whose host counts its calls. -/
def Machine.counting : Machine Nat :=
  .start ⟨#[.push (.int 7), .func "count" 0], NameTable.empty⟩
    ((Builtins.empty 0).register "count" fun _ n => (.ok (.int (Int64.ofNat n)), n + 1))
    ⟨none, none, some 1⟩

/-- The host has counted the call whose result found no room. -/
theorem failed_step_leaves_counting :
    Machine.counting.step.step.outcome = .error (.stackOverflow 1) ∧
      Machine.counting.step.step.state.builtins.world = 1 ∧
      LeftBehind Machine.counting.program (.stackOverflow 1) Machine.counting.step.state
        Machine.counting.step.step.state := by
  have status : Machine.counting.step.step.state.status = .failed (.stackOverflow 1) := by
    decide +kernel
  have failed : Machine.counting.step.step.outcome = .error (.stackOverflow 1) := by
    simp only [Machine.outcome, State.error?, status]
  have table : Machine.counting.table = .standard := rfl
  have running : Machine.counting.step.state.status = .running := by decide +kernel
  exact ⟨failed, by decide +kernel,
    failed_step_leaves ((Machine.step_table _).trans table) running failed⟩

end ImpStack
