/-
Module: ImpStack.Proofs.Step
Purpose: Steps of a machine: the standard table finds the handler of every opcode, each part of a
  handler's work has an equation, and a run is a number of steps up to the first halted machine.
Main exports: InstructionTable.resolve_standard, CallStack.pop?_eq_some_iff, Machine.settle,
  Machine.execute_ok, Machine.step_eq, Machine.after,
  Machine.run_eq_some_iff
-/
import ImpStack.Machine
import ImpStack.Proofs.NameTable

namespace ImpStack

variable {σ α β : Type}

/-! ### The standard table

Every opcode is found in the table under its own name, since the names are distinct. The equations
of the handlers follow, and no later proof searches the table. -/

/-- Opcodes are told apart by their names. -/
theorem Opcode.name_injective {op op' : Opcode} (h : op.name = op'.name) : op = op' := by
  have known (op : Opcode) : Opcode.ofName? op.name = some op := by cases op <;> rfl
  rw [← Option.some.injEq, ← known op, ← known op', h]

/-- The standard table resolves every opcode to its standard handler. -/
theorem InstructionTable.resolve_standard (op : Opcode) :
    (standard : InstructionTable σ).resolve op.name = .ok ⟨op.arity, Handler.ofOpcode op⟩ := by
  have distinct : ((Opcode.all.map fun op =>
      (op.name, (⟨op.arity, Handler.ofOpcode op⟩ : Descriptor σ))).map Prod.fst).Nodup := by
    rw [List.map_map, List.Nodup, List.pairwise_map]
    have opcodes : Opcode.all.Nodup := by decide
    exact opcodes.imp fun differ same => differ (Opcode.name_injective same)
  have found : (standard : InstructionTable σ).descriptors.find? op.name =
      some ⟨op.arity, Handler.ofOpcode op⟩ :=
    (NameTable.find?_ofList distinct).2 (List.mem_map.2 ⟨op, by cases op <;> decide, rfl⟩)
  rw [resolve, found]

/-! ### Frames

How the frames look as one list, with the active one in front. -/

theorem CallStack.length_frames (s : CallStack) : s.frames.length = s.depth := s.depth_eq.symm

/-- Every list of frames with one frame in it is that of a stack. -/
theorem CallStack.exists_frames (above : List Frame) (f : Frame) (callers : List Frame) :
    ∃ s : CallStack, s.frames = above ++ f :: callers := by
  cases above with
  | nil => exact ⟨⟨f, callers, _, rfl⟩, rfl⟩
  | cons active above => exact ⟨⟨active, above ++ f :: callers, _, rfl⟩, rfl⟩

theorem CallStack.frames_bind {s : CallStack} {f : Frame} {callers : List Frame}
    (h : s.frames = f :: callers) (name : String) (v : Value) :
    (s.setActive (s.active.bind name v)).frames = f.bind name v :: callers := by
  obtain ⟨rfl, rfl⟩ := List.cons.inj h
  rfl

/-- The outermost frame is not popped. -/
theorem CallStack.pop?_of_root {s : CallStack} (root : s.callers = []) : s.pop? = none := by
  obtain ⟨active, callers, depth, depth_eq⟩ := s
  cases root
  rfl

theorem CallStack.pop?_of_call {s : CallStack} {caller : Frame} {rest : List Frame}
    (called : s.callers = caller :: rest) :
    ∃ left, s.pop? = some (s.active, left) ∧ left.active = caller ∧ left.callers = rest := by
  obtain ⟨active, callers, depth, depth_eq⟩ := s
  cases called
  exact ⟨_, rfl, rfl, rfl⟩

/-- Leaving the active frame takes it from the frames, of which one has to be left. -/
theorem CallStack.pop?_eq_some_iff {s t : CallStack} {f : Frame} :
    s.pop? = some (f, t) ↔ s.frames = f :: t.frames := by
  constructor
  · intro popped
    obtain ⟨active, callers, depth, depth_eq⟩ := s
    cases callers with
    | nil => cases popped
    | cons caller rest =>
        cases popped
        rfl
  · intro frames
    obtain ⟨rfl, called⟩ := List.cons.inj frames
    obtain ⟨left, popped, active, callers⟩ := pop?_of_call called
    rw [popped, CallStack.ext active callers]

/-! ### Parts of an instruction's work

One equation for each part, as a match on the state that it looks at. Work in sequence is taken
apart with `bind_apply`. -/

namespace Exec

theorem bind_apply (x : Exec σ α) (f : α → Exec σ β) (s : State σ) :
    (x >>= f) s = match x s with
      | .ok a s' => f a s'
      | .error e s' => .error e s' := by
  cases h : x s <;> simp [Bind.bind, EStateM.bind, h]

/-- A sequence of two steps ends without an error if and only if both do. -/
theorem bind_apply_ok {x : Exec σ α} {f : α → Exec σ β} {s t : State σ} {c : β}
    (h : (x >>= f) s = .ok c t) : ∃ a s', x s = .ok a s' ∧ f a s' = .ok c t := by
  rw [bind_apply] at h
  cases hx : x s with
  | ok a s' =>
      rw [hx] at h
      exact ⟨a, s', rfl, h⟩
  | error e s' =>
      rw [hx] at h
      cases h

theorem get_apply (s : State σ) : (get : Exec σ (State σ)) s = .ok s s := rfl

theorem set_apply (s t : State σ) : (set t : Exec σ PUnit) s = .ok () t := rfl

/-- Pushing fails only at the bound on the operand stack. -/
theorem push_apply (v : Value) (s : State σ) :
    push v s = match s.stackLimit? with
      | some limit => .error (.stackOverflow limit) s
      | none => .ok () { s with stack := v :: s.stack } := by
  rw [push, bind_apply, get_apply]
  cases h : s.stackLimit? <;> simp only [h] <;> rfl

/-- A push fails for lack of room only, and then it has changed nothing. -/
theorem push_failed {v : Value} {s t : State σ} {e : RuntimeError}
    (h : push v s = .error e t) : (∃ k, e = .stackOverflow k) ∧ t = s := by
  rw [push_apply] at h
  cases bound : s.stackLimit? <;> rw [bound] at h <;> cases h
  exact ⟨⟨_, rfl⟩, rfl⟩

theorem pop_apply (s : State σ) :
    (pop : Exec σ Value) s = match s.stack with
      | [] => .error (.stackUnderflow .operand s.opcode) s
      | v :: rest => .ok v { s with stack := rest } := by
  rw [pop, bind_apply, get_apply]
  cases h : s.stack <;> simp only [h] <;> rfl

theorem callBuiltin_apply (name : String) (args : List Value) (s : State σ) :
    callBuiltin name args s =
      match (s.builtins.call name args).1 with
      | .ok v => .ok v { s with builtins := (s.builtins.call name args).2 }
      | .error e => .error e { s with builtins := (s.builtins.call name args).2 } := by
  rw [callBuiltin, bind_apply, get_apply]
  cases h : (s.builtins.call name args).1 <;> simp only [bind_apply, set_apply, h] <;> rfl

/-- A call of the host changes its state, not its functions. -/
theorem call_functions (b : Builtins σ) (name : String) (args : List Value) :
    (b.call name args).2.functions = b.functions := by
  rw [Builtins.call]
  split
  · rfl
  · split <;> rfl

/-- A call of the host fails because there is no such function, or because the function fails. -/
theorem call_error {b : Builtins σ} {name : String} {args : List Value} {e : RuntimeError}
    (h : (b.call name args).1 = .error e) :
    b.functions.find? name = none ∧ e = .unknownBuiltin name ∨
      ∃ message, e = .builtin name message := by
  rw [Builtins.call] at h
  cases found : b.functions.find? name with
  | none =>
      rw [found] at h
      cases h
      exact Or.inl ⟨rfl, rfl⟩
  | some f =>
      rw [found] at h
      simp only [] at h
      split at h
      · cases h
      · cases h
        exact Or.inr ⟨_, rfl⟩

theorem enter_apply (frame : Frame) (s : State σ) :
    enter frame s = match s.frameLimit? with
      | some limit => .error (.frameLimitExceeded limit) s
      | none => .ok () { s with
          frames := s.frames.push frame
          stats := { s.stats with
            calls := s.stats.calls + 1
            maxDepth := max s.stats.maxDepth (s.frames.depth + 1) } } := by
  rw [enter, bind_apply, get_apply]
  cases h : s.frameLimit? <;> simp only [h] <;> rfl

theorem leave_apply (s : State σ) :
    (leave : Exec σ Frame) s = match s.frames.pop? with
      | none => .error (.stackUnderflow .frame s.opcode) s
      | some (frame, frames) => .ok frame { s with
          frames := frames
          stats := { s.stats with returns := s.stats.returns + 1 } } := by
  rw [leave, bind_apply, get_apply]
  cases h : s.frames.pop? <;> simp only [h] <;> rfl

end Exec

/-- Decoding an operand changes nothing. -/
theorem Handler.operand_apply (index : Nat) (kind : OperandKind) (read? : Operand → Option α)
    (operands : List Operand) (s : State σ) :
    operand index kind read? operands s =
      match operands[index]? with
      | none => Exec.malformed ("missing operand " ++ toString index) s
      | some found =>
        match read? found with
        | some a => .ok a s
        | none => Exec.malformed
            ("expected " ++ kind.text ++ " operand, found " ++ found.kind.text) s := by
  rw [operand]
  cases operands[index]? with
  | none => rfl
  | some found =>
      simp only []
      cases read? found <;> rfl

/-- Decoding operands does not touch the state. -/
theorem Handler.operand_untouched {index : Nat} {kind : OperandKind} {read? : Operand → Option α}
    {operands : List Operand} {s s' : State σ} {a : α}
    (h : operand index kind read? operands s = .ok a s') : s' = s := by
  rw [operand_apply] at h
  split at h
  · cases h
  · split at h <;> cases h
    rfl

theorem Handler.load_apply (name : String) (s : State σ) :
    load [.name name] s = match s.frames.active.lookup? name with
      | some v => Exec.push v s
      | none => .error (.unboundVariable name) s := by
  have decoded : nameOperand [.name name] s = .ok name s := rfl
  simp only [load, Exec.bind_apply, decoded, Exec.get_apply]
  cases s.frames.active.lookup? name <;> rfl

/-- The state that work ends in, with an error or without. -/
def Exec.endState : EStateM.Result RuntimeError (State σ) α → State σ
  | .ok _ s => s
  | .error _ s => s

/-! ### One step

A step fetches, executes and settles. `execute_ok` and `step_eq` are what later modules use of
it. -/

namespace Machine

/-- A machine after the work of an instruction: an error is final. -/
def settle (m : Machine σ) : EStateM.Result RuntimeError (State σ) Unit → Machine σ
  | .ok _ s => { m with state := s }
  | .error e s => { m with state := { s with status := .failed e } }

@[simp] theorem settle_program (m : Machine σ) (r : EStateM.Result RuntimeError (State σ) Unit) :
    (m.settle r).program = m.program := by cases r <;> rfl

@[simp] theorem settle_table (m : Machine σ) (r : EStateM.Result RuntimeError (State σ) Unit) :
    (m.settle r).table = m.table := by cases r <;> rfl

theorem execute_apply (program : Bytecode) (table : InstructionTable σ) (s : State σ) :
    execute program table s =
      match s.stepLimit?, program.get? s.ip with
      | some limit, _ => .error (.stepLimitExceeded limit) s
      | none, none => .error (.invalidAddress s.ip program.size) s
      | none, some i =>
        match table.resolve i.opcode.name with
        | .error e => .error e (fetched s i)
        | .ok d =>
          if i.operands.length = d.arity then d.handler i.operands (fetched s i)
          else Exec.malformed ("expected " ++ toString d.arity ++ " operand(s), found " ++
            toString i.operands.length) (fetched s i) := by
  rw [execute, Exec.bind_apply, Exec.get_apply]
  simp only []
  cases s.stepLimit? with
  | some limit => rfl
  | none =>
      cases program.get? s.ip with
      | none => rfl
      | some i =>
          simp only [Exec.bind_apply, Exec.set_apply]
          cases table.resolve i.opcode.name with
          | error e => rfl
          | ok d =>
              simp only []
              split <;> rfl

/-- What executes without an error has fetched an instruction with as many operands as its opcode
    takes. -/
theorem execute_ok {program : Bytecode} {s t : State σ}
    (h : execute program .standard s = .ok () t) :
    ∃ i, program.get? s.ip = some i ∧ i.operands.length = i.opcode.arity ∧
      Handler.ofOpcode i.opcode i.operands (fetched s i) = .ok () t := by
  rw [execute_apply] at h
  cases left : s.stepLimit? with
  | some limit =>
      rw [left] at h
      cases h
  | none =>
      cases fetch : program.get? s.ip with
      | none =>
          rw [left, fetch] at h
          cases h
      | some i =>
          rw [left, fetch] at h
          simp only [InstructionTable.resolve_standard] at h
          split at h
          · exact ⟨i, rfl, ‹_›, h⟩
          · cases h

theorem isHalted_eq_false_iff {s : State σ} : s.isHalted = false ↔ s.status = .running := by
  cases h : s.status <;> simp [State.isHalted, h]

theorem step_of_running {m : Machine σ} (running : m.state.status = .running) :
    m.step = m.settle (execute m.program m.table m.state) := by
  rw [step, isHalted_eq_false_iff.2 running, if_neg Bool.false_ne_true]
  cases execute m.program m.table m.state <;> rfl

theorem step_of_halted {m : Machine σ} (halted : m.state.isHalted = true) : m.step = m := by
  rw [step, if_pos halted]

@[simp] theorem step_program (m : Machine σ) : m.step.program = m.program := by
  cases h : m.state.isHalted with
  | true => rw [step_of_halted h]
  | false => rw [step_of_running (isHalted_eq_false_iff.1 h), settle_program]

@[simp] theorem step_table (m : Machine σ) : m.step.table = m.table := by
  cases h : m.state.isHalted with
  | true => rw [step_of_halted h]
  | false => rw [step_of_running (isHalted_eq_false_iff.1 h), settle_table]

/-- With the standard handlers and steps left, an instruction with as many operands as its opcode
    takes is handed to the opcode's handler. -/
theorem step_eq {m : Machine σ} {i : Instruction} (table : m.table = .standard)
    (running : m.state.status = .running) (left : m.state.stepLimit? = none)
    (fetch : m.program.get? m.state.ip = some i) (arity : i.operands.length = i.opcode.arity) :
    m.step = m.settle (Handler.ofOpcode i.opcode i.operands (fetched m.state i)) := by
  rw [step_of_running running, execute_apply, left, fetch, table]
  simp only [InstructionTable.resolve_standard, arity, if_true]

/-! ### Many steps

Steps are counted whether the machine is halted or not; a halted machine stays as it is. A run is
found at the first number of steps after which the machine has halted. -/

/-- The machine after a number of steps. -/
def after (m : Machine σ) : Nat → Machine σ
  | 0 => m
  | n + 1 => (m.after n).step

theorem after_step (m : Machine σ) (n : Nat) : m.step.after n = m.after (n + 1) := by
  induction n with
  | zero => rfl
  | succ n ih =>
      rw [after, ih]
      rfl

theorem after_add (m : Machine σ) (n k : Nat) : m.after (n + k) = (m.after n).after k := by
  induction k with
  | zero => rfl
  | succ k ih => rw [← Nat.add_assoc, after, ih, after]

@[simp] theorem after_program (m : Machine σ) (n : Nat) : (m.after n).program = m.program := by
  induction n with
  | zero => rfl
  | succ n ih => rw [after, step_program, ih]

@[simp] theorem after_table (m : Machine σ) (n : Nat) : (m.after n).table = m.table := by
  induction n with
  | zero => rfl
  | succ n ih => rw [after, step_table, ih]

/-- A halted machine stays as it is. -/
theorem after_of_halted {m : Machine σ} (halted : m.state.isHalted = true) (n : Nat) :
    m.after n = m := by
  induction n with
  | zero => rfl
  | succ n ih => rw [after, ih, step_of_halted halted]

/-- A machine that runs after a step ran before it. -/
theorem running_of_step {m : Machine σ} (goes : m.step.state.status = .running) :
    m.state.status = .running := by
  by_cases halted : m.state.isHalted = true
  · rwa [step_of_halted halted] at goes
  · exact isHalted_eq_false_iff.1 (Bool.eq_false_iff.2 halted)

/-- A machine that is running has been running all along. -/
theorem running_of_le {m : Machine σ} {n n' : Nat} (le : n ≤ n')
    (running : (m.after n').state.status = .running) : (m.after n).state.status = .running := by
  obtain ⟨k, rfl⟩ := Nat.exists_eq_add_of_le le
  induction k with
  | zero => exact running
  | succ k ih => exact ih (Nat.le_add_right n k) (running_of_step running)

/-- An error is final. -/
theorem failed_of_le {m : Machine σ} {n n' : Nat} {e : RuntimeError} (le : n ≤ n')
    (failed : (m.after n).state.status = .failed e) : (m.after n').state.status = .failed e := by
  obtain ⟨k, rfl⟩ := Nat.exists_eq_add_of_le le
  have halted : (m.after n).state.isHalted = true := by rw [State.isHalted, failed]
  rw [after_add, after_of_halted halted, failed]

/-- A machine without an error had none before. -/
theorem succeeds_of_le {m : Machine σ} {n n' : Nat} (le : n ≤ n')
    (succeeds : (m.after n').state.error? = none) : (m.after n).state.error? = none := by
  cases status : (m.after n).state.status with
  | failed e =>
      rw [State.error?, failed_of_le le status] at succeeds
      cases succeeds
  | running => rw [State.error?, status]
  | halted => rw [State.error?, status]

/-- The error that is reported stopped the machine. -/
theorem failed_of_outcome {m : Machine σ} {e : RuntimeError} (h : m.outcome = .error e) :
    m.state.status = .failed e := by
  cases status : m.state.status with
  | running => simp [outcome, State.error?, status] at h
  | halted => simp [outcome, State.error?, status] at h
  | failed e' =>
      simp only [outcome, State.error?, status, Except.error.injEq] at h
      rw [h]

/-- A run ends in the machine after as many steps as it may take, provided that one is halted. -/
theorem run_eq_some_iff {fuel : Nat} :
    ∀ {m m' : Machine σ}, m.run fuel = some m' ↔
      m.after fuel = m' ∧ m'.state.isHalted = true := by
  induction fuel with
  | zero =>
      intro m m'
      rw [run]
      cases h : m.state.isHalted with
      | true => simpa [after] using fun same => by rw [← same, h]
      | false => simpa [after] using fun same => by rw [← same, h]
  | succ fuel ih =>
      intro m m'
      rw [run]
      cases h : m.state.isHalted with
      | true =>
          rw [after_of_halted h]
          simpa using fun same => by rw [← same, h]
      | false =>
          rw [← after_step, ← ih]
          rfl

end Machine

end ImpStack
