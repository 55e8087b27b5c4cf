/-
Module: ImpStack.Proofs.Control
Purpose: How instructions move control. Drawing leaves the instruction pointer, the calls and the
  counters alone; a step that does not fail then only computes, or goes to an address, or enters or
  leaves a frame, or halts. A step that fails leaves control where the fetch has put it.
Main exports: SameControl, Transfer, Handler.ofOpcode_transfer, Machine.step_cases,
  Machine.step_failed
-/
import ImpStack.Proofs.Action

namespace ImpStack

variable {σ : Type}

/-- Two states that differ at most in the operand stack, the variables of the active frame and the
    state of the host. -/
structure SameControl (s s' : State σ) : Prop where
  ip : s'.ip = s.ip
  callers : s'.frames.callers = s.frames.callers
  returnTo : s'.frames.active.returnTo = s.frames.active.returnTo
  status : s'.status = s.status
  functions : s'.builtins.functions = s.builtins.functions
  limits : s'.limits = s.limits
  stats : s'.stats = s.stats
  fetchedAt : s'.fetchedAt = s.fetchedAt
  opcode : s'.opcode = s.opcode

theorem Drawn.sameControl {op : Opcode} {s s' : State σ} (h : Drawn op s s') :
    SameControl s s' := by
  have functions := h.functions
  rw [h.rest]
  exact ⟨rfl, rfl, rfl, rfl, functions, rfl, rfl, rfl, rfl⟩

/-- A push that does not fail leaves control in its place. -/
theorem SameControl.push {s t t' : State σ} {v : Value} (same : SameControl s t)
    (h : Exec.push v t = .ok () t') : SameControl s t' := by
  rw [Exec.push_apply] at h
  cases limit : t.stackLimit? <;> rw [limit] at h <;> cases h
  exact { same with }

/-! ### Transfers of control

A step that succeeds moves control in one of five ways, which its opcode decides. Each way says what
else may change, so that proofs about runs need no other view of a step. -/

/-- What an instruction with an opcode and operands can do to a state, whose instruction pointer is
    already past it, when it does not fail. -/
inductive Transfer (op : Opcode) (operands : List Operand) (s s' : State σ) : Prop where
  /-- Go on with the next instruction. -/
  | next (h : op ∉ [.jump, .call, .ret, .halt]) (same : SameControl s s')
  /-- Go on at an address. -/
  | jump (target : Nat) (h : op = .jump ∨ op = .jumpIf)
      (operand : operands[0]? = some (.address target))
      (same : SameControl { s with ip := target } s')
  /-- Enter a frame that returns to the next instruction. -/
  | call (target : Nat) (h : op = .call) (operand : operands[0]? = some (.address target))
      (state : s' = { s with
        ip := target
        frames := s.frames.push (.returningTo s.ip)
        stats := { s.stats with
          calls := s.stats.calls + 1
          maxDepth := max s.stats.maxDepth (s.frames.depth + 1) } })
  /-- Leave a frame for the one below it. -/
  | ret (frame : Frame) (frames : CallStack) (h : op = .ret)
      (left : s.frames.pop? = some (frame, frames))
      (state : s' = { s with
        ip := frame.returnAddress
        frames := frames
        stats := { s.stats with returns := s.stats.returns + 1 } })
  | halt (h : op = .halt) (state : s' = { s with status := .halted })

/-- No instruction changes the bounds of a machine. -/
theorem Transfer.limits {op : Opcode} {operands : List Operand} {s s' : State σ}
    (h : Transfer op operands s s') : s'.limits = s.limits := by
  cases h with
  | next _ same => exact same.limits
  | jump _ _ _ same => exact same.limits
  | call _ _ _ state => rw [state]
  | ret _ _ _ _ state => rw [state]
  | halt _ state => rw [state]

/-- No handler counts instructions. -/
theorem Transfer.steps {op : Opcode} {operands : List Operand} {s s' : State σ}
    (h : Transfer op operands s s') : s'.stats.steps = s.stats.steps := by
  cases h with
  | next _ same => rw [same.stats]
  | jump _ _ _ same => rw [same.stats]
  | call _ _ _ state => rw [state]
  | ret _ _ _ _ state => rw [state]
  | halt _ state => rw [state]

/-- An action that suits an instruction and does not fail moves control in one of these ways,
    provided that calls, returns and halts drew nothing. -/
theorem Action.perform_transfer {op : Opcode} {operands : List Operand} {a : Action}
    (suits : a.Suits op operands) {s t s' : State σ} (same : SameControl s t)
    (untouched : op ∈ [.call, .ret, .halt] → t = s) (h : a.perform t = .ok () s') :
    Transfer op operands s s' := by
  cases a with
  | skip =>
      cases h
      exact .next suits same
  | push v => exact .next suits (same.push h)
  | pushTwice v =>
      obtain ⟨_, t', first, second⟩ := Exec.bind_apply_ok h
      exact .next suits ((same.push first).push second)
  | bind name v =>
      cases h
      exact .next suits { same with }
  | jump target =>
      cases h
      exact .jump target suits.1 suits.2 { same with ip := rfl }
  | call target =>
      obtain ⟨rfl, operand⟩ := suits
      obtain rfl := untouched (by decide)
      rw [perform_call] at h
      cases limit : t.frameLimit? <;> rw [limit] at h <;> cases h
      exact .call target rfl operand rfl
  | ret =>
      cases suits
      obtain rfl := untouched (by decide)
      rw [perform_ret] at h
      cases popped : t.frames.pop? <;> rw [popped] at h <;> cases h
      exact .ret _ _ rfl popped rfl
  | halt =>
      cases suits
      obtain rfl := untouched (by decide)
      cases h
      exact .halt rfl rfl

/-- An instruction that does not fail moves control in one of these ways. -/
theorem Handler.ofOpcode_transfer {op : Opcode} {operands : List Operand} {s s' : State σ}
    (h : ofOpcode op operands s = .ok () s') : Transfer op operands s s' := by
  obtain ⟨e, t, fails, -⟩ | ⟨a, t, acts, draws, drawn, suits⟩ := ofOpcode_cases op operands s
  · rw [fails] at h
    cases h
  · rw [acts] at h
    exact a.perform_transfer suits drawn.sameControl (fun moves => draw_untouched moves draws) h

/-- An instruction that does not fail leaves no error behind. -/
theorem Transfer.succeeds {op : Opcode} {operands : List Operand} {s s' : State σ}
    (h : Transfer op operands s s') (running : s.status = .running) : s'.error? = none := by
  have status : s'.status = .running ∨ s'.status = .halted := by
    cases h with
    | next _ same => exact Or.inl (same.status.trans running)
    | jump _ _ _ same => exact Or.inl (same.status.trans running)
    | call _ _ _ state =>
        rw [state]
        exact Or.inl running
    | ret _ _ _ _ state =>
        rw [state]
        exact Or.inl running
    | halt _ state =>
        rw [state]
        exact Or.inr rfl
  rcases status with running | halted
  · rw [State.error?, running]
  · rw [State.error?, halted]

/-- What the standard handlers execute without failing transfers control as the instruction at the
    instruction pointer says. -/
theorem Machine.execute_transfer {program : Bytecode} {s s' : State σ}
    (h : execute program .standard s = .ok () s') :
    ∃ i, program.get? s.ip = some i ∧ Transfer i.opcode i.operands (fetched s i) s' := by
  obtain ⟨i, fetch, -, done⟩ := execute_ok h
  exact ⟨i, fetch, Handler.ofOpcode_transfer done⟩

/-- A step of a running machine with the standard handlers fails, or transfers control as the
    instruction at the instruction pointer says. -/
theorem Machine.step_cases {m : Machine σ} (table : m.table = .standard)
    (running : m.state.status = .running) :
    (∃ e, m.step.state.status = .failed e) ∨
      ∃ i, m.program.get? m.state.ip = some i ∧
        Transfer i.opcode i.operands (fetched m.state i) m.step.state := by
  rw [step_of_running running, table]
  cases result : execute m.program .standard m.state with
  | error e s => exact Or.inl ⟨e, rfl⟩
  | ok _ s => exact Or.inr (execute_transfer result)

/-! ### Failures

A step that fails has fetched its instruction and drawn what it draws; then nothing else has
happened. So control is where the fetch has put it, and the calls are as they were. -/

/-- An action that fails has done nothing, unless it is to push a value twice. -/
theorem Action.perform_failed_eq {a : Action} (other : ∀ v, a ≠ .pushTwice v) {s t : State σ}
    {e : RuntimeError} (h : a.perform s = .error e t) : t = s := by
  cases a with
  | pushTwice v => exact absurd rfl (other v)
  | push v => exact (Exec.push_failed h).2
  | call target =>
      rw [perform_call] at h
      cases bound : s.frameLimit? <;> rw [bound] at h <;> cases h
      rfl
  | ret =>
      rw [perform_ret] at h
      cases popped : s.frames.pop? <;> rw [popped] at h <;> cases h
      rfl
  | skip => cases h
  | bind name v => cases h
  | jump target => cases h
  | halt => cases h

/-- An action that fails has changed the operand stack at most. -/
theorem Action.perform_failed {a : Action} {s t : State σ} {e : RuntimeError}
    (h : a.perform s = .error e t) : t = { s with stack := t.stack } := by
  cases a with
  | pushTwice v =>
      rw [perform_pushTwice] at h
      cases bound : s.stackLimit? with
      | some k =>
          rw [bound] at h
          cases h
          rfl
      | none =>
          rw [bound] at h
          obtain rfl := (Exec.push_failed h).2
          rfl
  | _ =>
      obtain rfl := perform_failed_eq (by exact nofun) h
      rfl

/-- An instruction that fails has changed the operand stack and the state of the host at most. -/
theorem Handler.ofOpcode_failed {op : Opcode} {operands : List Operand} {s t : State σ}
    {e : RuntimeError} (h : ofOpcode op operands s = .error e t) :
    t = { s with stack := t.stack, builtins := t.builtins } := by
  obtain ⟨e', t', fails, -, drawn, -⟩ | ⟨a, t', acts, -, drawn, -⟩ := ofOpcode_cases op operands s
  · rw [fails] at h
    cases h
    exact drawn.rest
  · rw [acts] at h
    rw [Action.perform_failed h, drawn.rest]

/-- What fails with the standard handlers fails before the fetch and changes nothing, or it has gone
    past an instruction and has changed the operand stack and the state of the host at most. -/
theorem Machine.execute_failed {program : Bytecode} {s t : State σ} {e : RuntimeError}
    (h : execute program .standard s = .error e t) :
    t = s ∨ ∃ i, program.get? s.ip = some i ∧
      t = { fetched s i with stack := t.stack, builtins := t.builtins } := by
  rw [execute_apply] at h
  cases left : s.stepLimit? with
  | some limit =>
      rw [left] at h
      cases h
      exact Or.inl rfl
  | none =>
      cases fetch : program.get? s.ip with
      | none =>
          rw [left, fetch] at h
          cases h
          exact Or.inl rfl
      | some i =>
          rw [left, fetch] at h
          simp only [InstructionTable.resolve_standard] at h
          split at h
          · exact Or.inr ⟨i, rfl, Handler.ofOpcode_failed h⟩
          · cases h
            exact Or.inr ⟨i, rfl, rfl⟩

/-- A step that fails has failed to execute an instruction. -/
theorem Machine.execute_of_failed {m : Machine σ} (table : m.table = .standard)
    (running : m.state.status = .running) {e : RuntimeError}
    (failed : m.step.state.status = .failed e) :
    ∃ t, execute m.program .standard m.state = .error e t ∧
      m.step.state = { t with status := .failed e } := by
  rw [step_of_running running, table] at failed ⊢
  cases result : execute m.program .standard m.state with
  | error e' t =>
      rw [result] at failed
      cases failed
      exact ⟨t, rfl, rfl⟩
  | ok _ t =>
      obtain ⟨i, _, transfer⟩ := execute_transfer result
      have succeeds := transfer.succeeds running
      rw [result] at failed
      simp only [settle] at failed
      simp [State.error?, failed] at succeeds

/-- A step that fails keeps the frames, the calls and the returns, and leaves the instruction
    pointer where it was, or behind the instruction there. -/
theorem Machine.step_failed {m : Machine σ} (table : m.table = .standard)
    (running : m.state.status = .running) {e : RuntimeError}
    (failed : m.step.state.status = .failed e) :
    m.step.state.frames = m.state.frames ∧ m.step.state.stats.calls = m.state.stats.calls ∧
      m.step.state.stats.returns = m.state.stats.returns ∧
      (m.step.state.ip = m.state.ip ∨
        ∃ i, m.program.get? m.state.ip = some i ∧ m.step.state.ip = m.state.ip + 1) := by
  obtain ⟨t, result, state⟩ := execute_of_failed table running failed
  rw [state]
  rcases execute_failed result with rfl | ⟨i, fetch, same⟩
  · exact ⟨rfl, rfl, rfl, Or.inl rfl⟩
  · rw [same]
    exact ⟨rfl, rfl, rfl, Or.inr ⟨i, fetch, rfl⟩⟩

end ImpStack
