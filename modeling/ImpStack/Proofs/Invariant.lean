/-
Module: ImpStack.Proofs.Invariant
Purpose: What holds of a machine at any time, whatever program it runs and under whatever names its
  table has the standard handlers: only the outermost frame is that of the top-level statements,
  the counters tell the depth of the calls, and no bound is passed. An instruction keeps this also
  when it fails half way.
Main exports: Rooted, State.Sound, Advances, Action.perform_advances, machine_invariant
-/
import ImpStack.Proofs.Action
import ImpStack.Proofs.Session

namespace ImpStack

variable {σ : Type} {size : Nat}

/-! ### Frames

The outermost frame is never popped, since popping it is an error. All others were pushed by calls,
which return to the address behind them. -/

/-- The outermost frame is that of the top-level statements; the others are those of calls in a
    program of `size` instructions. -/
def Rooted (size : Nat) (frames : List Frame) : Prop :=
  ∃ calls root, frames = calls ++ [root] ∧ root.isRoot = true ∧
    ∀ f ∈ calls, f.isRoot = false ∧ 1 ≤ f.returnAddress ∧ f.returnAddress ≤ size

namespace Rooted

theorem start : Rooted size CallStack.start.frames := ⟨[], .root, rfl, rfl, nofun⟩

/-- Setting a variable keeps the frame what it is. -/
theorem bind {s : CallStack} (h : Rooted size s.frames) (name : String) (v : Value) :
    Rooted size (s.setActive (s.active.bind name v)).frames := by
  obtain ⟨calls, root, same, isRoot, returns⟩ := h
  cases calls with
  | nil =>
      obtain ⟨rfl, callers⟩ := List.cons.inj same
      exact ⟨[], s.active.bind name v, congrArg _ callers, isRoot, nofun⟩
  | cons f calls =>
      obtain ⟨rfl, callers⟩ := List.cons.inj same
      refine ⟨s.active.bind name v :: calls, root, congrArg _ callers, isRoot, ?_⟩
      rintro g (_ | ⟨_, mem⟩)
      · exact returns s.active (List.mem_cons_self ..)
      · exact returns g (List.mem_cons_of_mem _ mem)

/-- A call adds a frame that is not the outermost one. -/
theorem push {s : CallStack} (h : Rooted size s.frames) {address : Nat} (first : 1 ≤ address)
    (last : address ≤ size) : Rooted size (s.push (.returningTo address)).frames := by
  obtain ⟨calls, root, same, isRoot, returns⟩ := h
  refine ⟨.returningTo address :: calls, root, congrArg _ same, isRoot, ?_⟩
  rintro g (_ | ⟨_, mem⟩)
  · exact ⟨rfl, first, last⟩
  · exact returns g mem

/-- A return leaves the outermost frame where it is. -/
theorem pop {s left : CallStack} {f : Frame} (h : Rooted size s.frames)
    (popped : s.pop? = some (f, left)) : Rooted size left.frames := by
  obtain ⟨calls, root, same, isRoot, returns⟩ := h
  obtain ⟨active, callers, depth, depth_eq⟩ := s
  cases callers with
  | nil => cases popped
  | cons caller rest =>
      cases popped
      cases calls with
      | nil => cases (List.cons.inj same).2
      | cons g calls =>
          exact ⟨calls, root, (List.cons.inj same).2, isRoot, fun g mem =>
            returns g (List.mem_cons_of_mem _ mem)⟩

end Rooted

theorem CallStack.depth_of_pop {s left : CallStack} {f : Frame}
    (popped : s.pop? = some (f, left)) : s.depth = left.depth + 1 := by
  obtain ⟨active, callers, depth, depth_eq⟩ := s
  cases callers with
  | nil => cases popped
  | cons caller rest =>
      cases popped
      simp only [List.length_cons] at depth_eq
      simp only []
      omega

/-! ### Bounds

The tests of the three bounds are of one form: the error is there if the count has reached the
bound. Where there is none, one more still fits. -/

namespace State

variable {s : State σ}

/-- A bound is not used up as long as the count is below it. -/
theorem lt_of_filter {bound : Option Nat} {count k : Nat} (room : bound.filter (· ≤ count) = none)
    (set : bound = some k) : count < k := by
  subst set
  simpa using room

/-- There is room for another value below the bound. -/
theorem stack_lt {k : Nat} (room : s.stackLimit? = none) (set : s.limits.maxStack = some k) :
    s.stack.length < k := lt_of_filter room set

theorem depth_lt {k : Nat} (room : s.frameLimit? = none) (set : s.limits.maxFrames = some k) :
    s.frames.depth < k := lt_of_filter room set

theorem steps_lt {k : Nat} (room : s.stepLimit? = none) (set : s.limits.maxSteps = some k) :
    s.stats.steps < k := lt_of_filter room set

end State

/-! ### The invariant

What an instruction makes of the machine is put as a relation between states, with the invariant as
one of its fields. Relations of parts compose, and a failure half way is a part like any other. -/

/-- What holds of a state of a machine whose program has `size` instructions. -/
structure State.Sound (size : Nat) (s : State σ) : Prop where
  frames : Rooted size s.frames.frames
  /-- Every call is open or has returned. -/
  calls : s.frames.depth + s.stats.returns = 1 + s.stats.calls
  stack : ∀ k, s.limits.maxStack = some k → s.stack.length ≤ k
  /-- The outermost frame is open even if no frame is allowed. -/
  depth : ∀ k, s.limits.maxFrames = some k → s.frames.depth ≤ max 1 k
  steps : ∀ k, s.limits.maxSteps = some k → s.stats.steps ≤ k

/-- What an instruction or a part of it makes of the invariant. -/
structure Advances (size : Nat) (s s' : State σ) : Prop where
  limits : s'.limits = s.limits
  sound : s.Sound size → s'.Sound size
  /-- The greatest depth counts the new state in. -/
  reached : s.frames.depth ≤ s.stats.maxDepth →
    s'.stats.maxDepth = max s.stats.maxDepth s'.frames.depth

namespace State.Sound

variable {s : State σ}

theorem start (host : Builtins σ) (limits : Limits) : (State.start host limits).Sound size where
  frames := .start
  calls := rfl
  stack _ _ := Nat.zero_le _
  depth k _ := Nat.le_max_left 1 k
  steps _ _ := Nat.zero_le _

/-- Values that were taken from the stack leave it below its bound. -/
theorem drawn {op : Opcode} {s' : State σ} (h : s.Sound size) (drawn : Drawn op s s') :
    s'.Sound size := by
  obtain ⟨frames, calls, stack, depth, steps⟩ := h
  have shorter := drawn.stack.length_le
  rw [drawn.rest]
  exact ⟨frames, calls, fun k set => Nat.le_trans shorter (stack k set), depth, steps⟩

theorem push (h : s.Sound size) (room : s.stackLimit? = none) (v : Value) :
    State.Sound size { s with stack := v :: s.stack } :=
  { h with stack := fun _ set => State.stack_lt room set }

theorem bind (h : s.Sound size) (name : String) (v : Value) :
    State.Sound size { s with frames := s.frames.setActive (s.frames.active.bind name v) } :=
  { h with frames := h.frames.bind name v }

/-- Counting a step and going on to the next address keeps the invariant. -/
theorem fetched (h : s.Sound size) (left : s.stepLimit? = none) (i : Instruction) :
    (Machine.fetched s i).Sound size :=
  { h with steps := fun _ set => State.steps_lt left set }

end State.Sound

namespace Advances

variable {s t u : State σ}

theorem refl (s : State σ) : Advances size s s :=
  ⟨rfl, id, fun deep => (Nat.max_eq_left deep).symm⟩

/-- Work on the same frames and counters, followed by other work. -/
theorem after_same (h : Advances size t u) (limits : t.limits = s.limits)
    (sound : s.Sound size → t.Sound size) (depth : t.frames.depth = s.frames.depth)
    (maxDepth : t.stats.maxDepth = s.stats.maxDepth) : Advances size s u where
  limits := h.limits.trans limits
  sound before := h.sound (sound before)
  reached deep := by
    rw [← maxDepth, h.reached]
    rwa [depth, maxDepth]

/-- What does not touch the frames keeps what is said of them. -/
theorem of_same (limits : t.limits = s.limits) (sound : s.Sound size → t.Sound size)
    (depth : t.frames.depth = s.frames.depth) (maxDepth : t.stats.maxDepth = s.stats.maxDepth) :
    Advances size s t := (refl t).after_same limits sound depth maxDepth

/-- Drawing first makes no difference to what an instruction keeps. -/
theorem after_drawn {op : Opcode} (h : Advances size t u) (drawn : Drawn op s t) :
    Advances size s u := by
  refine h.after_same ?_ (·.drawn drawn) ?_ ?_
  · rw [drawn.rest]
  · rw [drawn.rest]
  · rw [drawn.rest]

end Advances

/-! ### What instructions keep

An action keeps the invariant by cases on what it does; what was drawn for it has only taken values
from the stack. So all instructions keep it, also those that fail. -/

namespace Exec

theorem push_advances (v : Value) (s : State σ) : Advances size s (endState (push v s)) := by
  rw [push_apply]
  cases room : s.stackLimit? with
  | some limit => exact .refl s
  | none => exact .of_same rfl (·.push room v) rfl rfl

theorem pushTwice_advances (v : Value) (s : State σ) :
    Advances size s (endState ((Action.pushTwice v).perform s)) := by
  rw [Action.perform_pushTwice]
  cases room : s.stackLimit? with
  | some limit => exact .refl s
  | none => exact (push_advances v _).after_same rfl (·.push room v) rfl rfl

/-- A frame is entered only while fewer are open than allowed. -/
theorem call_advances (s : State σ) (first : 1 ≤ s.ip) (last : s.ip ≤ size) (target : Nat) :
    Advances size s (endState ((Action.call target).perform s)) := by
  rw [Action.perform_call]
  cases room : s.frameLimit? with
  | some limit => exact .refl s
  | none =>
      refine ⟨rfl, fun h => ?_, fun _ => rfl⟩
      refine { h with frames := h.frames.push first last, calls := ?_, depth := fun k set => ?_ }
      · have calls : s.frames.depth + s.stats.returns = 1 + s.stats.calls := h.calls
        show s.frames.depth + 1 + s.stats.returns = 1 + (s.stats.calls + 1)
        omega
      · have below : s.frames.depth < k := State.depth_lt room set
        show s.frames.depth + 1 ≤ max 1 k
        omega

/-- A return counts itself and closes one frame, so the counters still tell the depth. -/
theorem ret_advances (s : State σ) :
    Advances size s (endState (Action.ret.perform s)) := by
  rw [Action.perform_ret]
  cases popped : s.frames.pop? with
  | none => exact .refl s
  | some left =>
      obtain ⟨frame, frames⟩ := left
      have depth : s.frames.depth = frames.depth + 1 := CallStack.depth_of_pop popped
      refine ⟨rfl, fun h => ?_, fun deep => ?_⟩
      · refine { h with frames := h.frames.pop popped, calls := ?_, depth := fun k set => ?_ }
        · have calls : s.frames.depth + s.stats.returns = 1 + s.stats.calls := h.calls
          show frames.depth + (s.stats.returns + 1) = 1 + s.stats.calls
          omega
        · have bounded : s.frames.depth ≤ max 1 k := h.depth k set
          show frames.depth ≤ max 1 k
          omega
      · show s.stats.maxDepth = max s.stats.maxDepth frames.depth
        omega

end Exec

open Exec (endState)

/-- An action advances a machine that has just gone past an instruction of its program. -/
theorem Action.perform_advances (a : Action) (s : State σ) (first : 1 ≤ s.ip)
    (last : s.ip ≤ size) : Advances size s (endState (a.perform s)) := by
  cases a with
  | skip => exact .refl s
  | push v => exact Exec.push_advances v s
  | pushTwice v => exact Exec.pushTwice_advances v s
  | bind name v => exact .of_same rfl (·.bind name v) rfl rfl
  | jump target => exact .of_same rfl (fun h => { h with }) rfl rfl
  | call target => exact Exec.call_advances s first last target
  | ret => exact Exec.ret_advances s
  | halt => exact .of_same rfl (fun h => { h with }) rfl rfl

/-- So does every instruction, also one that fails. -/
theorem Handler.ofOpcode_advances (op : Opcode) (operands : List Operand) (s : State σ)
    (first : 1 ≤ s.ip) (last : s.ip ≤ size) :
    Advances size s (endState (ofOpcode op operands s)) := by
  obtain ⟨e, t, fails, -, drawn, -⟩ | ⟨a, t, acts, -, drawn, -⟩ := ofOpcode_cases op operands s
  · rw [fails]
    exact (Advances.refl t).after_drawn drawn
  · have ip : t.ip = s.ip := by rw [drawn.rest]
    rw [acts]
    exact (a.perform_advances t (ip ▸ first) (ip ▸ last)).after_drawn drawn

/-! ### Tables of standard handlers

Names may be given to other instructions. The invariant is kept as long as each handler is a
standard one, whichever name it has. -/

/-- A table whose names, whichever they are, have standard handlers with any numbers of
    operands. -/
def InstructionTable.Remaps (table : InstructionTable σ) : Prop :=
  ∀ name d, table.resolve name = .ok d → ∃ op, d.handler = Handler.ofOpcode op

namespace InstructionTable

/-- Only what stands in the table is resolved. -/
theorem find?_of_resolve {table : InstructionTable σ} {name : String} {d : Descriptor σ}
    (resolved : table.resolve name = .ok d) : table.descriptors.find? name = some d := by
  rw [resolve] at resolved
  cases found : table.descriptors.find? name with
  | none =>
      rw [found] at resolved
      cases resolved
  | some d' =>
      rw [found] at resolved
      cases resolved
      rfl

theorem remaps_empty : (empty : InstructionTable σ).Remaps := nofun

/-- Registering a standard handler under any name keeps a table one of standard handlers. -/
theorem Remaps.register {table : InstructionTable σ} (h : table.Remaps) (name : String)
    (arity : Nat) (op : Opcode) : (table.register name ⟨arity, Handler.ofOpcode op⟩).Remaps := by
  intro other d resolved
  have found := find?_of_resolve resolved
  rw [InstructionTable.register, NameTable.find?_insert] at found
  split at found
  · cases found
    exact ⟨op, rfl⟩
  · refine h other d ?_
    rw [resolve, found]

/-- The standard table has standard handlers only. -/
theorem remaps_standard : (standard : InstructionTable σ).Remaps := by
  have all (ops : List Opcode) : ∀ table : InstructionTable σ, table.Remaps →
      (ops.foldl (fun t op => t.register op.name ⟨op.arity, Handler.ofOpcode op⟩)
        table).Remaps := by
    induction ops with
    | nil => exact fun _ h => h
    | cons op rest ih => exact fun table h => ih _ (h.register op.name op.arity op)
  exact all Opcode.all empty remaps_empty

end InstructionTable

/-! ### Steps and sessions

From steps to sessions by induction, with registrations between the runs. The greatest depth was
reached by some machine of the session, which is kept as a list of its past. -/

namespace Machine

/-- A step that is executed keeps the invariant, wherever it fails. -/
theorem execute_advances {table : InstructionTable σ} (remaps : table.Remaps)
    (program : Bytecode) (s : State σ) :
    Advances program.size s (endState (execute program table s)) := by
  rw [execute_apply]
  cases left : s.stepLimit? with
  | some limit => exact .refl s
  | none =>
      cases fetch : program.get? s.ip with
      | none => exact .refl s
      | some i =>
          have inside : s.ip < program.size := (Array.getElem?_eq_some_iff.1 fetch).1
          have counted : Advances program.size s (fetched s i) :=
            .of_same rfl (·.fetched left i) rfl rfl
          simp only []
          cases resolved : table.resolve i.opcode.name with
          | error e => exact counted
          | ok d =>
              obtain ⟨op, handler⟩ := remaps _ d resolved
              simp only [handler]
              split
              · exact (Handler.ofOpcode_advances op i.operands (fetched s i) (Nat.succ_pos _)
                  inside).after_same rfl (·.fetched left i) rfl rfl
              · exact counted

/-- So does a step of the machine, which may also do nothing since it has halted. -/
theorem step_advances {m : Machine σ} (remaps : m.table.Remaps) :
    Advances m.program.size m.state m.step.state := by
  cases halted : m.state.isHalted with
  | true =>
      rw [step_of_halted halted]
      exact .refl _
  | false =>
      rw [step_of_running (isHalted_eq_false_iff.1 halted)]
      have advances := execute_advances remaps m.program m.state
      cases done : execute m.program m.table m.state with
      | ok _ s =>
          rw [done] at advances
          exact advances
      | error e s =>
          rw [done] at advances
          exact ⟨advances.limits, fun h => { advances.sound h with }, advances.reached⟩

end Machine

namespace Session

variable {program : Bytecode} {table : InstructionTable σ} {host : Builtins σ} {limits : Limits}
  {m : Machine σ} {past : List (Machine σ)}

/-- The invariant holds at any time, under the bounds that the machine was given. -/
theorem sound (remaps : table.Remaps)
    (h : Session ⟨program, table, .start host limits⟩ past m) :
    m.state.limits = limits ∧ m.state.Sound program.size := by
  induction h with
  | start => exact ⟨rfl, .start host limits⟩
  | @step past m before ih =>
      have advances := Machine.step_advances (m := m) (before.table ▸ remaps)
      rw [before.program] at advances
      exact ⟨advances.limits.trans ih.1, advances.sound ih.2⟩
  | register before name f ih => exact ⟨ih.1, { ih.2 with }⟩

/-- The greatest depth that is counted is that of the deepest machine so far. -/
theorem deepest (remaps : table.Remaps)
    (h : Session ⟨program, table, .start host limits⟩ past m) :
    (∀ m' ∈ m :: past, m'.state.frames.depth ≤ m.state.stats.maxDepth) ∧
      ∃ m' ∈ m :: past, m'.state.frames.depth = m.state.stats.maxDepth := by
  induction h with
  | start => exact ⟨by simp [State.start, CallStack.start], _, List.mem_cons_self .., rfl⟩
  | @step past m before ih =>
      obtain ⟨bounded, top, mem, depth⟩ := ih
      have advances := Machine.step_advances (m := m) (before.table ▸ remaps)
      have reached := advances.reached (bounded m (List.mem_cons_self ..))
      refine ⟨?_, ?_⟩
      · rintro m' (_ | ⟨_, mem'⟩)
        · rw [reached]
          exact Nat.le_max_right ..
        · rw [reached]
          exact Nat.le_trans (bounded m' mem') (Nat.le_max_left ..)
      · rcases Nat.le_total m.step.state.frames.depth m.state.stats.maxDepth with below | above
        · exact ⟨top, List.mem_cons_of_mem _ mem, by rw [depth, reached, Nat.max_eq_left below]⟩
        · exact ⟨m.step, List.mem_cons_self .., by rw [reached, Nat.max_eq_right above]⟩
  | @register past m before name f ih =>
      obtain ⟨bounded, top, mem, depth⟩ := ih
      refine ⟨?_, top, List.mem_cons_of_mem _ mem, depth⟩
      rintro m' (_ | ⟨_, mem'⟩)
      · exact bounded m (List.mem_cons_self ..)
      · exact bounded m' mem'

end Session

/-- Whatever a machine runs, under whatever names its table has the standard handlers and whatever
    a host does with it: the invariant holds under the bounds that the machine was given, the
    greatest depth that is counted is that of the deepest machine so far, and an error is final. -/
theorem machine_invariant {program : Bytecode} {table : InstructionTable σ} (remaps : table.Remaps)
    {host : Builtins σ} {limits : Limits} {m : Machine σ} {past : List (Machine σ)}
    (session : Session ⟨program, table, .start host limits⟩ past m) :
    m.state.limits = limits ∧ m.state.Sound program.size ∧
      (∀ m' ∈ m :: past, m'.state.frames.depth ≤ m.state.stats.maxDepth) ∧
      (∃ m' ∈ m :: past, m'.state.frames.depth = m.state.stats.maxDepth) ∧
      ∀ e, m.state.error? = some e → m.state.isHalted = true := by
  obtain ⟨same, sound⟩ := session.sound remaps
  obtain ⟨bounded, reached⟩ := session.deepest remaps
  refine ⟨same, sound, bounded, reached, fun e failed => ?_⟩
  cases status : m.state.status with
  | running => simp [State.error?, status] at failed
  | halted => simp [State.isHalted, status]
  | failed e' => simp [State.isHalted, status]

/-- A table under which a push enters a frame and a halt leaves it. -/
def InstructionTable.remapped : InstructionTable Unit :=
  (empty.register "PUSH" ⟨1, Handler.ofOpcode .call⟩).register "HALT" ⟨0, Handler.ofOpcode .ret⟩

/-- A program of one push and one halt. -/
def Bytecode.pushHalt : Bytecode := ⟨#[⟨.push, [.address 1]⟩, ⟨.halt, []⟩], NameTable.empty⟩

/-- A push that calls and a halt that returns, under the names of the standard instructions: the
    third step returns from the outermost frame, and the invariant holds there. -/
theorem machine_invariant_remapped :
    ∃ (past : List (Machine Unit)) (m : Machine Unit),
      m.state.error? = some (.stackUnderflow .frame .halt) ∧ m.state.stats = ⟨3, 1, 1, 2⟩ ∧
      m.state.Sound Bytecode.pushHalt.size ∧
      (∃ m' ∈ m :: past, m'.state.frames.depth = m.state.stats.maxDepth) ∧
      m.state.isHalted = true :=
  have session : Session ⟨.pushHalt, .remapped, .start (Builtins.empty ()) ⟨some 5, some 2, some 0⟩⟩
      _ _ := Session.start.step.step.step
  have remaps : InstructionTable.remapped.Remaps :=
    (InstructionTable.remaps_empty.register "PUSH" 1 .call).register "HALT" 0 .ret
  have invariant := machine_invariant remaps session
  ⟨_, _, by decide +kernel, by decide +kernel, invariant.2.1, invariant.2.2.2.1,
    invariant.2.2.2.2 (.stackUnderflow .frame .halt) (by decide +kernel)⟩

end ImpStack
