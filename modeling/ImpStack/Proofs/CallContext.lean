/-
Module: ImpStack.Proofs.CallContext
Purpose: What calls leave alone. From its call to its return a function, with all the functions that
  it calls in turn, keeps the frames below its own; when the depth of the calls is again what it was
  before the call, the caller goes on behind the call with its frames as they were.
Main exports: Activation.Open, Machine.open_step, Machine.open_after, Calls, ComesBack,
  call_gives_back_context
-/
import ImpStack.Proofs.Bounds
import ImpStack.Proofs.Layout
import ImpStack.Proofs.HostCalls
import ImpStack.Proofs.Trace

namespace ImpStack

variable {σ : Type} {act : Activation}

/-! ### Activations that have not returned

An activation stays open as long as its frame is among those of the calls. Steps push and pop at the
top only, so while the depth is greater than that of its callers they do not touch these. -/

/-- An activation has not returned: its frame lies above those of its callers and below those of the
    calls that it has made. -/
def Activation.Open (act : Activation) (s : CallStack) : Prop :=
  ∃ calls own, s.frames = calls ++ own :: act.callers ∧ own.returnTo = act.returnTo

namespace Activation.Open

variable {s t : CallStack}

/-- An open activation is deeper than its callers. -/
theorem depth (h : act.Open s) : act.callers.length < s.depth := by
  obtain ⟨calls, own, frames, _⟩ := h
  rw [← s.length_frames, frames, List.length_append, List.length_cons]
  omega

/-- Variables have no part in it. -/
theorem congr (h : act.Open s) (callers : t.callers = s.callers)
    (returnTo : t.active.returnTo = s.active.returnTo) : act.Open t := by
  obtain ⟨calls, own, frames, returns⟩ := h
  cases calls with
  | nil =>
      obtain ⟨rfl, below⟩ := List.cons.inj frames
      exact ⟨[], t.active, congrArg _ (callers.trans below), returnTo.trans returns⟩
  | cons active calls =>
      obtain ⟨rfl, below⟩ := List.cons.inj frames
      exact ⟨t.active :: calls, own, congrArg _ (callers.trans below), returns⟩

theorem push (h : act.Open s) (f : Frame) : act.Open (s.push f) := by
  obtain ⟨calls, own, frames, returns⟩ := h
  exact ⟨f :: calls, own, congrArg _ frames, returns⟩

/-- Leaving a frame leaves the activation open, unless the frame is its own. -/
theorem pop (h : act.Open s) {f : Frame} (popped : s.pop? = some (f, t)) :
    act.Open t ∨ t.frames = act.callers ∧ f.returnTo = act.returnTo := by
  obtain ⟨calls, own, frames, returns⟩ := h
  rw [CallStack.pop?_eq_some_iff.1 popped] at frames
  cases calls with
  | nil =>
      obtain ⟨rfl, below⟩ := List.cons.inj frames
      exact Or.inr ⟨below, returns⟩
  | cons active calls =>
      obtain ⟨-, below⟩ := List.cons.inj frames
      exact Or.inl ⟨calls, own, below, returns⟩

end Activation.Open

namespace Machine

variable {m : Machine σ}

/-- A step leaves an activation open, unless it is the return of the activation: then only the
    frames of its callers are left, and control is where it returns to. -/
theorem open_step (table : m.table = .standard) (h : act.Open m.state.frames) :
    act.Open m.step.state.frames ∨ m.step.state.frames.frames = act.callers ∧
      m.step.state.ip = act.returnTo.getD Frame.rootAddress := by
  cases halted : m.state.isHalted with
  | true =>
      rw [step_of_halted halted]
      exact Or.inl h
  | false =>
      have running := isHalted_eq_false_iff.1 halted
      rcases step_cases table running with ⟨e, failed⟩ | ⟨i, fetch, transfer⟩
      · rw [(step_failed table running failed).1]
        exact Or.inl h
      · cases transfer with
        | next _ same => exact Or.inl (h.congr same.callers same.returnTo)
        | jump target _ _ same => exact Or.inl (h.congr same.callers same.returnTo)
        | call target _ _ state =>
            rw [state]
            exact Or.inl (h.push _)
        | ret frame frames _ left state =>
            rw [state]
            rcases h.pop left with stays | ⟨callers, returns⟩
            · exact Or.inl stays
            · exact Or.inr ⟨callers, by rw [← returns]; rfl⟩
        | halt _ state =>
            rw [state]
            exact Or.inl h

/-- As long as the calls are not as few as before it, an activation is open. -/
theorem open_after (table : m.table = .standard) {t : Nat}
    (entered : act.Open (m.after t).state.frames) (k : Nat) :
    (∀ j, t < j → j ≤ t + k → (m.after j).state.frames.depth ≠ act.callers.length) →
      act.Open (m.after (t + k)).state.frames := by
  induction k with
  | zero => exact fun _ => entered
  | succ k ih =>
      intro deeper
      have table' : (m.after (t + k)).table = .standard := by rw [after_table, table]
      have before := ih fun j after before => deeper j after (Nat.le_succ_of_le before)
      rcases open_step table' before with stays | ⟨callers, _⟩
      · exact stays
      · have depth : (m.after (t + k + 1)).state.frames.depth = act.callers.length := by
          rw [after, ← CallStack.length_frames, callers]
        exact absurd depth (deeper _ (by omega) (Nat.le_refl _))

/-! ### Calls that return

The first time that the depth is again what it was before a call, the return of that very call has
just been executed: an earlier return would have reached the depth before, and a deeper one does not
reach it. -/

/-- A step never takes back a call that was counted. -/
theorem calls_le_step (table : m.table = .standard) :
    m.state.stats.calls ≤ m.step.state.stats.calls := by
  cases halted : m.state.isHalted with
  | true => exact Nat.le_of_eq (congrArg (·.state.stats.calls) (step_of_halted halted)).symm
  | false =>
      have running := isHalted_eq_false_iff.1 halted
      rcases step_cases table running with ⟨e, failed⟩ | ⟨i, fetch, transfer⟩
      · exact Nat.le_of_eq (step_failed table running failed).2.1.symm
      · cases transfer with
        | next _ same => exact Nat.le_of_eq (congrArg Stats.calls same.stats).symm
        | jump target _ _ same => exact Nat.le_of_eq (congrArg Stats.calls same.stats).symm
        | call target _ _ state =>
            rw [state]
            exact Nat.le_succ _
        | ret frame frames _ left state =>
            exact Nat.le_of_eq (congrArg (·.stats.calls) state).symm
        | halt _ state => exact Nat.le_of_eq (congrArg (·.stats.calls) state).symm

/-- Calls are never taken back. -/
theorem calls_le_after (table : m.table = .standard) {t t' : Nat} (le : t ≤ t') :
    (m.after t).state.stats.calls ≤ (m.after t').state.stats.calls := by
  obtain ⟨k, rfl⟩ := Nat.exists_eq_add_of_le le
  induction k with
  | zero => exact Nat.le_refl _
  | succ k ih =>
      have table' : (m.after (t + k)).table = .standard := by rw [after_table, table]
      exact Nat.le_trans (ih (Nat.le_add_right t k)) (calls_le_step table')

end Machine

/-- A machine executes the instruction for calls at an address in its step after the first `t`, and
    does not fail. -/
structure Calls (m : Machine σ) (t a : Nat) : Prop where
  ip : (m.after t).state.ip = a
  fetch : (m.program.get? a).map Instruction.opcode = some .call
  goes : (m.after (t + 1)).state.status = .running

/-- After `t'` steps the calls of a machine are as deep as after `t` steps, for the first time. -/
structure ComesBack (m : Machine σ) (t t' : Nat) : Prop where
  later : t < t'
  depth : (m.after t').state.frames.depth = (m.after t).state.frames.depth
  first : ∀ j, t < j → j < t' → (m.after j).state.frames.depth ≠ (m.after t).state.frames.depth

instance (m : Machine σ) (t a : Nat) : Decidable (Calls m t a) :=
  decidable_of_iff
    ((m.after t).state.ip = a ∧ (m.program.get? a).map Instruction.opcode = some .call ∧
      (m.after (t + 1)).state.status = .running)
    ⟨fun ⟨ip, fetch, goes⟩ => ⟨ip, fetch, goes⟩, fun h => ⟨h.ip, h.fetch, h.goes⟩⟩

instance (m : Machine σ) (t t' : Nat) : Decidable (ComesBack m t t') :=
  decidable_of_iff
    (t < t' ∧ (m.after t').state.frames.depth = (m.after t).state.frames.depth ∧
      ∀ j, j < t' → t < j → (m.after j).state.frames.depth ≠ (m.after t).state.frames.depth)
    ⟨fun ⟨later, depth, first⟩ => ⟨later, depth, fun j after before => first j before after⟩,
      fun h => ⟨h.later, h.depth, fun j before after => h.first j after before⟩⟩

/-- A call opens an activation on top of all frames, which returns behind the call. -/
theorem Calls.frames {m : Machine σ} (table : m.table = .standard) {t a : Nat}
    (h : Calls m t a) : ∃ own, own.returnTo = some (a + 1) ∧
      (m.after (t + 1)).state.frames = (m.after t).state.frames.push own := by
  have table' : (m.after t).table = .standard := by rw [Machine.after_table, table]
  have running := Machine.running_of_step h.goes
  rcases Machine.step_cases table' running with ⟨e, failed⟩ | ⟨i, fetch, transfer⟩
  · have goes := h.goes
    rw [Machine.after, failed] at goes
    cases goes
  rw [Machine.after_program, h.ip] at fetch
  have call : i.opcode = .call := by simpa [fetch] using h.fetch
  rw [call] at transfer
  cases transfer with
  | call target _ _ state =>
      refine ⟨.returningTo (a + 1), rfl, ?_⟩
      rw [Machine.after, state, ← h.ip]
      rfl
  | next computes _ => exact absurd (by decide) computes
  | jump _ jumps _ _ => simp at jumps
  | ret _ _ ret _ _ => cases ret
  | halt halt _ => cases halt

/-- When the calls are as deep again as before a call, control is behind the call and all frames are
    as they were. -/
theorem Calls.restored {m : Machine σ} (table : m.table = .standard) {t t' a : Nat}
    (h : Calls m t a) (back : ComesBack m t t') :
    (m.after t').state.ip = a + 1 ∧ (m.after t').state.frames = (m.after t).state.frames := by
  obtain ⟨own, returns, pushed⟩ := h.frames table
  have deeper : (m.after (t + 1)).state.frames.depth = (m.after t).state.frames.depth + 1 := by
    rw [pushed]
    rfl
  have size := (m.after t).state.frames.length_frames
  obtain ⟨k, rfl⟩ : ∃ k, t' = t + 1 + k + 1 := by
    have later := back.later
    have other : t' ≠ t + 1 := by
      rintro rfl
      have depth := back.depth
      omega
    exact ⟨t' - (t + 2), by omega⟩
  have table' : (m.after (t + 1 + k)).table = .standard := by rw [Machine.after_table, table]
  -- the activation of the called function is open until the step that brings the depth back
  have entered : Activation.Open ⟨some (a + 1), (m.after t).state.frames.frames⟩
      (m.after (t + 1)).state.frames := by
    rw [pushed]
    exact ⟨[], own, rfl, returns⟩
  have before := Machine.open_after table entered k fun j after before => by
    rw [size]
    exact back.first j (by omega) (by omega)
  -- if the last step left it open, the calls would still be deeper
  rcases Machine.open_step table' before with stays | ⟨callers, ip⟩
  · have above := stays.depth
    have depth := back.depth
    rw [Machine.after] at depth
    rw [depth, size] at above
    exact absurd above (Nat.lt_irrefl _)
  · obtain ⟨active, below⟩ := List.cons.inj callers
    exact ⟨ip, CallStack.ext active below⟩

/-- A call gives the caller back its context. When the calls are as deep again as before a call, for
    the first time, control is behind the call, all frames have the return addresses and the
    variables that they had, and as many calls have returned as have been made since. -/
theorem call_gives_back_context (b : Bytecode) (host : Builtins σ) (limits : Limits)
    {t t' a : Nat} (call : Calls (.start b host limits) t a)
    (back : ComesBack (.start b host limits) t t') :
    ((Machine.start b host limits).after t').state.ip = a + 1 ∧
      ((Machine.start b host limits).after t').state.frames =
        ((Machine.start b host limits).after t).state.frames ∧
      ∃ k, ((Machine.start b host limits).after t').state.stats.calls =
          ((Machine.start b host limits).after t).state.stats.calls + k ∧
        ((Machine.start b host limits).after t').state.stats.returns =
          ((Machine.start b host limits).after t).state.stats.returns + k := by
  have table : (Machine.start b host limits).table = .standard := rfl
  obtain ⟨ip, frames⟩ := call.restored table back
  have more := Machine.calls_le_after table (Nat.le_of_lt back.later)
  have before := (Machine.sound_after b host limits t).2.calls
  have after := (Machine.sound_after b host limits t').2.calls
  rw [frames] at after
  obtain ⟨k, calls⟩ := Nat.exists_eq_add_of_le more
  exact ⟨ip, frames, k, calls, by omega⟩

/-- Three is not even: four calls are made and return before the top-level code goes on. -/
theorem call_gives_back_context_parity :
    Calls (.start .parity Builtins.printer .unbounded) 2 28 ∧
      ComesBack (.start .parity Builtins.printer .unbounded) 2 44 ∧
      ((Machine.start .parity Builtins.printer .unbounded).after 44).state.ip = 29 :=
  have call : Calls (.start .parity Builtins.printer .unbounded) 2 28 := by decide +kernel
  have back : ComesBack (.start .parity Builtins.printer .unbounded) 2 44 := by decide +kernel
  ⟨call, back, (call_gives_back_context .parity Builtins.printer .unbounded call back).1⟩

end ImpStack
