/-
Module: ImpStack.Proofs.Locality
Purpose: Execution is local. What an instruction draws depends on the values that it takes, on the
  variables of the active frame and on the host; so a machine does not notice other values below its
  own on the operand stack, nor other frames below the one that it started in.
Main exports: Alike, Exec.Local, Handler.draw_local, SameAbove, SameView, execution_is_local
-/
import ImpStack.Proofs.Bounds
import ImpStack.Proofs.Layout
import ImpStack.Proofs.HostCalls

namespace ImpStack

variable {σ α β : Type} {below : List Value}

/-! ### What an instruction can see

Work is local if it cannot tell states that look alike. Locality is closed under sequence, so it is
shown for each elementary piece of work and then for what every instruction draws. Failing is
treated apart, since values below may save the second machine from an underflow. -/

/-- Two states that look alike to an instruction, as long as it takes no value from the part of the
    operand stack that only the second one has. -/
structure Alike (below : List Value) (s s' : State σ) : Prop where
  stack : s'.stack = s.stack ++ below
  bindings : s'.frames.active.bindings = s.frames.active.bindings
  builtins : s'.builtins = s.builtins
  opcode : s'.opcode = s.opcode

/-- Work that only looks at what states that look alike share. It fails alike in both where none of
    the two has more values, unless the error tells the address of the instruction. -/
structure Exec.Local (x : Exec σ α) : Prop where
  ok {below : List Value} {s s' t : State σ} {a : α} : Alike below s s' → x s = .ok a t →
    ∃ t', x s' = .ok a t' ∧ Alike below t t'
  error {s s' t : State σ} {e : RuntimeError} : Alike [] s s' → x s = .error e t →
    (∃ t', x s' = .error e t' ∧ Alike [] t t') ∨
      ∃ address opcode reason, e = .malformedInstruction address opcode reason

namespace Exec

theorem local_pure (a : α) : Local (pure a : Exec σ α) where
  ok := by
    rintro below s s' _ _ alike ⟨⟩
    exact ⟨s', rfl, alike⟩
  error := nofun

theorem local_throw (e : RuntimeError) : Local (throw e : Exec σ α) where
  ok := nofun
  error := by
    rintro s s' _ _ alike ⟨⟩
    exact Or.inl ⟨s', rfl, alike⟩

/-- A malformed instruction is reported with its address, which two states need not share. -/
theorem local_malformed (reason : String) : Local (malformed reason : Exec σ α) where
  ok := nofun
  error := by
    rintro s s' _ _ alike ⟨⟩
    exact Or.inr ⟨_, _, _, rfl⟩

theorem local_bind {x : Exec σ α} {f : α → Exec σ β} (first : Local x)
    (next : ∀ a, Local (f a)) : Local (x >>= f) where
  ok := by
    intro below s s' t b alike h
    obtain ⟨a, u, hx, hf⟩ := bind_apply_ok h
    obtain ⟨u', hx', alike'⟩ := first.ok alike hx
    obtain ⟨t', hf', alike''⟩ := (next a).ok alike' hf
    exact ⟨t', by rw [bind_apply, hx']; exact hf', alike''⟩
  error := by
    intro s s' t e alike h
    rw [bind_apply] at h
    cases hx : x s with
    | error e' u =>
        rw [hx] at h
        cases h
        refine (first.error alike hx).imp_left ?_
        rintro ⟨t', hx', alike'⟩
        exact ⟨t', by rw [bind_apply, hx'], alike'⟩
    | ok a u =>
        rw [hx] at h
        obtain ⟨u', hx', alike'⟩ := first.ok alike hx
        refine ((next a).error alike' h).imp_left ?_
        rintro ⟨t', hf', alike''⟩
        exact ⟨t', by rw [bind_apply, hx']; exact hf', alike''⟩

/-- Reading something that looks alike. -/
theorem local_read {f : State σ → Exec σ α} (next : ∀ s, Local (f s))
    (same : ∀ {below s s'}, Alike below s s' → f s' = f s) : Local (get >>= f) where
  ok := by
    intro below s s' t a alike h
    obtain ⟨t', h', alike'⟩ := (next s).ok alike h
    rw [← same alike] at h'
    exact ⟨t', h', alike'⟩
  error := by
    intro s s' t e alike h
    have failed := (next s).error alike h
    rw [← same alike] at failed
    exact failed

/-- The top value is the same in states that look alike. -/
theorem local_pop : Local (pop : Exec σ Value) where
  ok := by
    intro below s s' t v alike h
    have stack := alike.stack
    rw [pop_apply] at h ⊢
    cases values : s.stack with
    | nil =>
        rw [values] at h
        cases h
    | cons top rest =>
        rw [values] at h stack
        cases h
        rw [stack]
        exact ⟨_, rfl, { alike with stack := rfl }⟩
  error := by
    intro s s' t e alike h
    have stack := alike.stack
    rw [pop_apply] at h ⊢
    cases values : s.stack with
    | nil =>
        rw [values] at h stack
        cases h
        rw [stack, ← alike.opcode]
        exact Or.inl ⟨s', rfl, alike⟩
    | cons top rest =>
        rw [values] at h
        cases h

/-- The host is the same in states that look alike, so it answers the same. -/
theorem local_callBuiltin (name : String) (args : List Value) :
    Local (callBuiltin name args : Exec σ Value) where
  ok := by
    intro below s s' t v alike h
    rw [callBuiltin_apply] at h ⊢
    rw [alike.builtins]
    cases answer : (s.builtins.call name args).1 with
    | ok v =>
        rw [answer] at h
        cases h
        exact ⟨_, rfl, { alike with builtins := rfl }⟩
    | error e =>
        rw [answer] at h
        cases h
  error := by
    intro s s' t e alike h
    rw [callBuiltin_apply] at h ⊢
    rw [alike.builtins]
    cases answer : (s.builtins.call name args).1 with
    | ok v =>
        rw [answer] at h
        cases h
    | error e =>
        rw [answer] at h
        cases h
        exact Or.inl ⟨_, rfl, { alike with builtins := rfl }⟩

end Exec

namespace Handler

open Exec

/-- Operands are read off the instruction, not off the state. -/
theorem local_operand (index : Nat) (kind : OperandKind) (read? : Operand → Option α)
    (operands : List Operand) : Local (operand index kind read? operands : Exec σ α) := by
  rw [operand]
  cases operands[index]? with
  | none => exact local_malformed _
  | some found =>
      simp only []
      cases read? found with
      | some a => exact local_pure a
      | none => exact local_malformed _

theorem local_popArguments (n : Nat) : ∀ args : List Value,
    Local (popArguments n args : Exec σ (List Value)) := by
  induction n with
  | zero => exact local_pure
  | succ n ih => exact fun args => local_bind local_pop fun v => ih (v :: args)

/-- Operators see the two values that they take. -/
theorem local_combine (f : Value → Value → Except OperatorError Value) :
    Local (combine f : Exec σ Action) := by
  refine local_bind local_pop fun right => local_bind local_pop fun left => ?_
  cases f left right with
  | ok v => exact local_pure _
  | error e => exact local_read (fun s => local_throw _) fun alike => by rw [alike.opcode]

/-- What an instruction draws is local. -/
theorem draw_local (op : Opcode) (operands : List Operand) :
    Local (draw op operands : Exec σ Action) := by
  cases op with
  | push => exact local_bind (local_operand ..) fun v => local_pure _
  | pop => exact local_bind local_pop fun _ => local_pure _
  | dup => exact local_bind local_pop fun _ => local_pure _
  | not => exact local_bind local_pop fun _ => local_pure _
  | jump => exact local_bind (local_operand ..) fun target => local_pure _
  | jumpIf =>
      exact local_bind (local_operand ..) fun target =>
        local_bind local_pop fun condition => local_pure _
  | load =>
      refine local_bind (local_operand ..) fun name => local_read (fun s => ?_) fun alike => ?_
      · cases s.frames.active.lookup? name with
        | some v => exact local_pure _
        | none => exact local_throw _
      · simp only [Frame.lookup?, alike.bindings]
  | store =>
      exact local_bind (local_operand ..) fun name => local_bind local_pop fun v => local_pure _
  | call => exact local_bind (local_operand ..) fun target => local_pure _
  | ret => exact local_pure _
  | func =>
      refine local_bind (local_operand ..) fun name => local_bind (local_operand ..) fun count => ?_
      refine local_bind (local_popArguments count []) fun args => ?_
      exact local_bind (local_callBuiltin name args) fun result => local_pure _
  | halt => exact local_pure _
  | _ =>
      rw [draw]
      exact local_combine _

end Handler

/-! ### Frames above a common height

Two runs may start above different callers. As long as neither returns from the frame that it has
started in, their frames are pushed and popped alike. -/

/-- Calls with the same frames above their bases. The frames of the two bases themselves have the
    same variables, and what is below them is as in the bases. -/
def SameAbove (base base' s s' : CallStack) : Prop :=
  ∃ above own, s.frames = above ++ { base.active with bindings := own } :: base.callers ∧
    s'.frames = above ++ { base'.active with bindings := own } :: base'.callers

namespace SameAbove

variable {base base' s s' : CallStack}

theorem start (same : base'.active.bindings = base.active.bindings) :
    SameAbove base base' base base' :=
  ⟨[], base.active.bindings, rfl, by rw [← same]; rfl⟩

theorem bindings (h : SameAbove base base' s s') :
    s'.active.bindings = s.active.bindings := by
  obtain ⟨above, own, frames, frames'⟩ := h
  cases above with
  | nil => rw [(List.cons.inj frames).1, (List.cons.inj frames').1]
  | cons f above => rw [(List.cons.inj frames).1, (List.cons.inj frames').1]

theorem bind (h : SameAbove base base' s s') (name : String) (v : Value) :
    SameAbove base base' (s.setActive (s.active.bind name v))
      (s'.setActive (s'.active.bind name v)) := by
  obtain ⟨above, own, frames, frames'⟩ := h
  cases above with
  | nil =>
      exact ⟨[], own.insert name v, CallStack.frames_bind frames ..,
        CallStack.frames_bind frames' ..⟩
  | cons f above =>
      exact ⟨f.bind name v :: above, own, CallStack.frames_bind frames ..,
        CallStack.frames_bind frames' ..⟩

/-- Entering the same frame keeps the frames alike. -/
theorem push (h : SameAbove base base' s s') (f : Frame) :
    SameAbove base base' (s.push f) (s'.push f) := by
  obtain ⟨above, own, frames, frames'⟩ := h
  exact ⟨f :: above, own, congrArg _ frames, congrArg _ frames'⟩

/-- As long as a base is not left, the same frame is left in both. -/
theorem pop (h : SameAbove base base' s s') {f : Frame} {t : CallStack}
    (popped : s.pop? = some (f, t)) (deep : base.depth ≤ t.depth) :
    ∃ t', s'.pop? = some (f, t') ∧ SameAbove base base' t t' := by
  obtain ⟨above, own, frames, frames'⟩ := h
  rw [CallStack.pop?_eq_some_iff.1 popped] at frames
  cases above with
  | nil =>
      obtain ⟨-, left⟩ := List.cons.inj frames
      have fewer := congrArg List.length left
      rw [t.length_frames] at fewer
      have size := base.depth_eq
      omega
  | cons g above =>
      obtain ⟨rfl, left⟩ := List.cons.inj frames
      obtain ⟨t', left'⟩ := CallStack.exists_frames above
        { base'.active with bindings := own } base'.callers
      exact ⟨t', CallStack.pop?_eq_some_iff.2 (by rw [frames', left']; rfl),
        above, own, left, left'⟩

end SameAbove

/-! ### Machines that see the same

The first machine's run decides: while it neither fails nor goes below its base, the second machine
makes the same steps. This is shown for one step and then for any number of them. -/

/-- Two states without bounds that only differ in what a machine does not see: in the values in
    `below`, in the frames below the bases and in the counters. -/
structure SameView (below : List Value) (base base' : CallStack) (s s' : State σ) : Prop where
  ip : s'.ip = s.ip
  status : s'.status = s.status
  stack : s'.stack = s.stack ++ below
  builtins : s'.builtins = s.builtins
  frames : SameAbove base base' s.frames s'.frames
  free : s.limits = .unbounded
  free' : s'.limits = .unbounded

namespace SameView

variable {base base' : CallStack} {s s' t t' : State σ}

/-- Fetching keeps the view, although both count the step. -/
theorem fetched (h : SameView below base base' s s') (i : Instruction) :
    SameView below base base' (Machine.fetched s i) (Machine.fetched s' i) :=
  { h with ip := congrArg Nat.succ h.ip }

/-- Machines that see the same have states that look alike to an instruction. -/
theorem alike (h : SameView below base base' s s') (opcode : s'.opcode = s.opcode) :
    Alike below s s' :=
  ⟨h.stack, h.frames.bindings, h.builtins, opcode⟩

/-- Drawing keeps to what both see. -/
theorem drawn (h : SameView below base base' s s') {op op' : Opcode} (drawn : Drawn op s t)
    (drawn' : Drawn op' s' t') (alike : Alike below t t') : SameView below base base' t t' := by
  rw [drawn.rest, drawn'.rest]
  exact { h with stack := alike.stack, builtins := alike.builtins }

theorem push (h : SameView below base base' s s') (v : Value) :
    SameView below base base' { s with stack := v :: s.stack }
      { s' with stack := v :: s'.stack } :=
  { h with stack := congrArg _ h.stack }

end SameView

/-- An action that does not fail and does not leave the base does the same in both. -/
theorem Action.perform_sameView {base base' : CallStack} {s s' t : State σ} (a : Action)
    (h : SameView below base base' s s') (done : a.perform s = .ok () t)
    (deep : base.depth ≤ t.frames.depth) :
    ∃ t', a.perform s' = .ok () t' ∧ SameView below base base' t t' := by
  cases a with
  | skip =>
      cases done
      exact ⟨s', rfl, h⟩
  | push v =>
      rw [perform, Exec.push_unbounded h.free] at done
      cases done
      exact ⟨_, Exec.push_unbounded h.free' v, h.push v⟩
  | pushTwice v =>
      have room : s.stackLimit? = none := by rw [State.stackLimit?, h.free]; rfl
      have room' : s'.stackLimit? = none := by rw [State.stackLimit?, h.free']; rfl
      rw [perform_pushTwice, room] at done
      simp only [Exec.push_unbounded (h.push v).free] at done
      cases done
      rw [perform_pushTwice, room']
      exact ⟨_, Exec.push_unbounded (h.push v).free' v, (h.push v).push v⟩
  | bind name v =>
      cases done
      exact ⟨_, rfl, { h with frames := h.frames.bind name v }⟩
  | jump target =>
      cases done
      exact ⟨_, rfl, { h with ip := rfl }⟩
  | call target =>
      have room : s.frameLimit? = none := by rw [State.frameLimit?, h.free]; rfl
      have room' : s'.frameLimit? = none := by rw [State.frameLimit?, h.free']; rfl
      rw [perform_call, room] at done
      cases done
      rw [perform_call, room', h.ip]
      exact ⟨_, rfl, { h with ip := rfl, frames := h.frames.push _ }⟩
  | ret =>
      rw [perform_ret] at done ⊢
      cases popped : s.frames.pop? with
      | none =>
          rw [popped] at done
          cases done
      | some left =>
          rw [popped] at done
          cases done
          -- the base itself is not left, since the run stays at least as deep
          obtain ⟨frames, popped', same⟩ := h.frames.pop popped deep
          rw [popped']
          exact ⟨_, rfl, { h with ip := rfl, frames := same }⟩
  | halt =>
      cases done
      exact ⟨_, rfl, { h with status := rfl }⟩

/-- An instruction that does not fail and does not leave the base does the same in both. -/
theorem Handler.ofOpcode_sameView {base base' : CallStack} {s s' t : State σ} {op : Opcode}
    {operands : List Operand} (h : SameView below base base' s s') (opcode : s'.opcode = s.opcode)
    (done : ofOpcode op operands s = .ok () t) (deep : base.depth ≤ t.frames.depth) :
    ∃ t', ofOpcode op operands s' = .ok () t' ∧ SameView below base base' t t' := by
  have draws := draw_draws (σ := σ) op operands
  rw [ofOpcode_eq] at done ⊢
  obtain ⟨a, u, drawn, acts⟩ := Exec.bind_apply_ok done
  obtain ⟨u', drawn', alike⟩ := (draw_local op operands).ok (h.alike opcode) drawn
  have view := h.drawn (draws.ok drawn).1 (draws.ok drawn').1 alike
  obtain ⟨t', acts', view'⟩ := a.perform_sameView view acts deep
  exact ⟨t', by rw [Exec.bind_apply, drawn']; exact acts', view'⟩

namespace Machine

variable {m m' : Machine σ} {base base' : CallStack}

/-- A step that does not fail and does not leave the base is the same step in both. -/
theorem step_sameView (table : m.table = .standard) (table' : m'.table = .standard)
    (program : m'.program = m.program) (h : SameView below base base' m.state m'.state)
    (succeeds : m.step.state.error? = none) (deep : base.depth ≤ m.step.state.frames.depth) :
    SameView below base base' m.step.state m'.step.state := by
  cases halted : m.state.isHalted with
  | true =>
      have halted' : m'.state.isHalted = true := by rw [State.isHalted, h.status]; exact halted
      rw [step_of_halted halted, step_of_halted halted']
      exact h
  | false =>
      have running := isHalted_eq_false_iff.1 halted
      have running' := h.status.trans running
      rw [step_of_running running, table] at succeeds deep ⊢
      cases result : execute m.program .standard m.state with
      | error e t =>
          rw [result] at succeeds
          cases succeeds
      | ok _ t =>
          rw [result] at deep
          obtain ⟨i, fetch, arity, done⟩ := execute_ok result
          obtain ⟨t', done', view⟩ := Handler.ofOpcode_sameView (h.fetched i) rfl done deep
          have left' : m'.state.stepLimit? = none := by rw [State.stepLimit?, h.free']; rfl
          rw [step_eq table' running' left' (by rw [program, h.ip, fetch]) arity, done']
          exact view

/-- As long as it does not fail and does not leave the base, what a machine does is the same in
    both. -/
theorem after_sameView (table : m.table = .standard) (table' : m'.table = .standard)
    (program : m'.program = m.program) (h : SameView below base base' m.state m'.state) (n : Nat) :
    (m.after n).state.error? = none →
      (∀ j ≤ n, base.depth ≤ (m.after j).state.frames.depth) →
        SameView below base base' (m.after n).state (m'.after n).state := by
  induction n with
  | zero => exact fun _ _ => h
  | succ n ih =>
      intro succeeds deep
      have before := succeeds_of_le (Nat.le_succ n) succeeds
      have view := ih before fun j le => deep j (Nat.le_succ_of_le le)
      exact step_sameView (by rw [after_table, table]) (by rw [after_table, table'])
        (by rw [after_program, after_program, program]) view succeeds (deep _ (Nat.le_refl _))

end Machine

/-- Two machines without bounds that run the same program from the same place. The second one has
    more values at the bottom of the operand stack; the frames below the active one are any, and so
    are the counters. -/
structure SameTask (below : List Value) (m m' : Machine σ) : Prop where
  program : m'.program = m.program
  table : m.table = .standard
  table' : m'.table = .standard
  free : m.state.limits = .unbounded
  free' : m'.state.limits = .unbounded
  ip : m'.state.ip = m.state.ip
  status : m'.state.status = m.state.status
  builtins : m'.state.builtins = m.state.builtins
  bindings : m'.state.frames.active.bindings = m.state.frames.active.bindings
  stack : m'.state.stack = m.state.stack ++ below

/-- Execution depends only on the active frame and on the values that it uses. As long as a machine
    does not fail and does not leave the frame that it starts in, one with other values and other
    frames below does the same: its frames from that one upwards have the same variables and return
    addresses, where that frame itself keeps its own, and all that lies below is as it was. -/
theorem execution_is_local {m m' : Machine σ} (task : SameTask below m m') (n : Nat)
    (succeeds : (m.after n).state.error? = none)
    (deep : ∀ j ≤ n, m.state.frames.depth ≤ (m.after j).state.frames.depth) :
    (m'.after n).state.error? = none ∧
      (m'.after n).state.ip = (m.after n).state.ip ∧
      (m'.after n).state.status = (m.after n).state.status ∧
      (m'.after n).state.builtins = (m.after n).state.builtins ∧
      (m'.after n).state.stack = (m.after n).state.stack ++ below ∧
      SameAbove m.state.frames m'.state.frames
        (m.after n).state.frames (m'.after n).state.frames := by
  have start : SameView below m.state.frames m'.state.frames m.state m'.state :=
    { task with frames := .start task.bindings }
  have view := Machine.after_sameView task.table task.table' task.program start n succeeds deep
  have succeeds' : (m'.after n).state.error? = none := by
    rw [State.error?, view.status]
    exact succeeds
  exact ⟨succeeds', view.ip, view.status, view.builtins, view.stack, view.frames⟩

/-- A machine with other values and other frames below its active one. -/
def Machine.atop (m : Machine σ) (below : List Value) (callers : List Frame) : Machine σ :=
  { m with state := { m.state with
      stack := m.state.stack ++ below
      frames := ⟨m.state.frames.active, callers, _, rfl⟩ } }

/-- A machine that is put on top of other values and frames has the same task. -/
theorem SameTask.atop {m : Machine σ} (table : m.table = .standard)
    (free : m.state.limits = .unbounded) (below : List Value) (callers : List Frame) :
    SameTask below m (m.atop below callers) :=
  ⟨rfl, table, table, free, free, rfl, rfl, rfl, rfl, rfl⟩

/-- Whether three is even is found out in the same way, whoever asks. -/
theorem execution_is_local_parity :
    ((((Machine.start .parity Builtins.printer .unbounded).after 3).atop [.int 7]
      [.returningTo 5, .root]).after 40).state.stack = [.bool false, .int 7] := by
  have task := SameTask.atop (Machine.after_table (.start .parity Builtins.printer .unbounded) 3)
    (Machine.sound_after .parity Builtins.printer .unbounded 3).1 [.int 7] [.returningTo 5, .root]
  have succeeds : (((Machine.start .parity Builtins.printer .unbounded).after 3).after
      40).state.error? = none := by decide +kernel
  have deep : ∀ j ≤ 40,
      ((Machine.start .parity Builtins.printer .unbounded).after 3).state.frames.depth ≤
        (((Machine.start .parity Builtins.printer .unbounded).after 3).after
          j).state.frames.depth := by decide +kernel
  have answer : (((Machine.start .parity Builtins.printer .unbounded).after 3).after
      40).state.stack = [.bool false] := by decide +kernel
  have same := execution_is_local task 40 succeeds deep
  rw [same.2.2.2.2.1, answer]
  rfl

end ImpStack
