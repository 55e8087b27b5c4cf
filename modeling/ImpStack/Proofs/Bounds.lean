/-
Module: ImpStack.Proofs.Bounds
Purpose: Bounds only cut a run short. A machine with bounds does what it would do without them, up
  to the instruction that passes a bound; there it fails with that bound.
Main exports: State.under, Limits.Exceeded, Cut, Limits.Cuts, Machine.step_under, bounds_only_cut
-/
import ImpStack.Proofs.Control
import ImpStack.Proofs.Invariant

namespace ImpStack

variable {σ α : Type} {limits : Limits} {calls : Prop}

/-! ### Errors of bounds

A machine has three bounds, and an error for each of them. No instruction has one of these errors
for another reason, so they tell whether a bound has cut a run short. -/

/-- The errors of machines that pass a bound. -/
inductive RuntimeError.OfBound : RuntimeError → Prop where
  | steps (k : Nat) : OfBound (.stepLimitExceeded k)
  | frames (k : Nat) : OfBound (.frameLimitExceeded k)
  | stack (k : Nat) : OfBound (.stackOverflow k)

/-- No instruction fails to draw because of a bound. -/
theorem Fault.not_ofBound {op : Opcode} {operands : List Operand} {s : State σ} {e : RuntimeError}
    (h : Fault op operands s e) : ¬ e.OfBound := by
  intro bound
  cases h with
  | operator e => cases e <;> cases bound
  | _ => cases bound

/-! ### What passes a bound

The bounds on frames and on values are tested where something is pushed. Without bounds the same
work ends in a state from which it can be read off which bound would have stopped it. -/

/-- The bounds that work passes which would end in a state without them: that on frames if the work
    is a call, and that on values. -/
inductive Limits.Exceeded (limits : Limits) (calls : Prop) (t : State σ) : RuntimeError → Prop where
  | frames {k : Nat} (call : calls) (set : limits.maxFrames = some k) (deep : k < t.frames.depth) :
      Exceeded limits calls t (.frameLimitExceeded k)
  | stack {k : Nat} (set : limits.maxStack = some k) (high : k < t.stack.length) :
      Exceeded limits calls t (.stackOverflow k)

/-- Work without bounds and the same work under bounds. -/
inductive Cut (limits : Limits) (calls : Prop) :
    EStateM.Result RuntimeError (State σ) Unit → EStateM.Result RuntimeError (State σ) Unit → Prop
    where
  /-- Both fail alike. -/
  | fails (e : RuntimeError) (t : State σ) (own : ¬ e.OfBound) :
      Cut limits calls (.error e t) (.error e (t.under limits))
  /-- Both end alike. -/
  | within (t : State σ) (room : ∀ e, ¬ limits.Exceeded calls t e) :
      Cut limits calls (.ok () t) (.ok () (t.under limits))
  /-- The one ends beyond a bound, and the other fails with it. -/
  | exceeds (t t' : State σ) (e : RuntimeError) (only : ∀ e', limits.Exceeded calls t e' ↔ e' = e) :
      Cut limits calls (.ok () t) (.error e t')

/-- The values on the operand stack are not more than allowed. -/
def State.Fits (limits : Limits) (s : State σ) : Prop :=
  ∀ k, limits.maxStack = some k → s.stack.length ≤ k

namespace Cut

variable {t t' : State σ} {k : Nat}

/-- Work other than calls passes no bound if it does not push. -/
theorem of_fits (other : ¬ calls) (fits : t.Fits limits) :
    Cut limits calls (.ok () t) (.ok () (t.under limits)) := by
  refine .within t fun e exceeded => ?_
  cases exceeded with
  | frames call _ _ => exact other call
  | stack set high => exact Nat.not_le_of_lt high (fits _ set)

/-- Work other than calls passes only the bound on values. -/
theorem of_high (other : ¬ calls) (set : limits.maxStack = some k) (high : k < t.stack.length) :
    Cut limits calls (.ok () t) (.error (.stackOverflow k) t') := by
  refine .exceeds t t' _ fun e => ⟨fun exceeded => ?_, ?_⟩
  · cases exceeded with
    | frames call _ _ => exact absurd call other
    | stack set' _ => rw [Option.some.inj (set.symm.trans set')]
  · rintro rfl
    exact .stack set high

/-- A call passes only the bound on frames. -/
theorem of_deep (call : calls) (fits : t.Fits limits) (set : limits.maxFrames = some k)
    (deep : k < t.frames.depth) :
    Cut limits calls (.ok () t) (.error (.frameLimitExceeded k) t') := by
  refine .exceeds t t' _ fun e => ⟨fun exceeded => ?_, ?_⟩
  · cases exceeded with
    | frames _ set' _ => rw [Option.some.inj (set.symm.trans set')]
    | stack set' high => exact absurd (fits _ set') (Nat.not_le_of_lt high)
  · rintro rfl
    exact .frames call set deep

end Cut

/-! ### Instructions under bounds

An instruction pushes at most two values or one frame. So it either does the same with bounds as
without, or it stops at exactly one bound, which its outcome without bounds exceeds. -/

namespace Exec

/-- Without bounds a push succeeds. -/
theorem push_unbounded {s : State σ} (free : s.limits = .unbounded) (v : Value) :
    push v s = .ok () { s with stack := v :: s.stack } := by
  have room : s.stackLimit? = none := by rw [State.stackLimit?, free]; rfl
  rw [push_apply, room]

/-- A push is cut short by the bound on values, unless the work counts as a call. -/
theorem push_cut {s : State σ} (free : s.limits = .unbounded) (other : ¬ calls) (v : Value) :
    Cut limits calls (push v s) (push v (s.under limits)) := by
  rw [push_unbounded free, push_apply]
  cases bound : (s.under limits).stackLimit? with
  | some k =>
      obtain ⟨set, used⟩ := Option.filter_eq_some_iff.1 bound
      refine .of_high other set ?_
      exact Nat.lt_succ_of_le (of_decide_eq_true used)
  | none => exact .of_fits other fun k set => State.lt_of_filter bound set

end Exec

namespace Action

variable {op : Opcode} {operands : List Operand}

/-- An action under bounds ends as it would without them, or fails with the bound that it would
    pass. -/
theorem perform_cut (a : Action) (suits : a.Suits op operands) {s : State σ}
    (free : s.limits = .unbounded) (fits : s.Fits limits) :
    Cut limits (op = .call) (a.perform s) (a.perform (s.under limits)) := by
  cases a with
  | skip => exact .of_fits (by rintro rfl; simp [Suits] at suits) fits
  | push v => exact Exec.push_cut free (by rintro rfl; simp [Suits] at suits) v
  | pushTwice v =>
      have other : op ≠ .call := by rintro rfl; simp [Suits] at suits
      have first : s.stackLimit? = none := by rw [State.stackLimit?, free]; rfl
      rw [perform_pushTwice, perform_pushTwice, first]
      cases bound : (s.under limits).stackLimit? with
      | some k =>
          obtain ⟨set, used⟩ := Option.filter_eq_some_iff.1 bound
          -- the first push has no room already, and without bounds the stack is higher still
          simp only [Exec.push_unbounded (s := { s with stack := v :: s.stack }) free]
          refine .of_high other set ?_
          exact Nat.lt_succ_of_lt (Nat.lt_succ_of_le (of_decide_eq_true used))
      | none => exact Exec.push_cut (s := { s with stack := v :: s.stack }) free other v
  | bind name v => exact .of_fits (by rintro rfl; simp [Suits] at suits) fits
  | jump target => exact .of_fits (by rintro rfl; simp [Suits] at suits) fits
  | call target =>
      have room : s.frameLimit? = none := by rw [State.frameLimit?, free]; rfl
      rw [perform_call, perform_call, room]
      cases bound : (s.under limits).frameLimit? with
      | some k =>
          obtain ⟨set, used⟩ := Option.filter_eq_some_iff.1 bound
          refine .of_deep suits.1 fits set ?_
          exact Nat.lt_succ_of_le (of_decide_eq_true used)
      | none =>
          refine .within _ fun e exceeded => ?_
          -- neither the frames nor the values pass their bounds
          cases exceeded with
          | frames _ set deep => exact Nat.not_le_of_lt deep (State.lt_of_filter bound set)
          | stack set high => exact Nat.not_le_of_lt high (fits _ set)
  | ret =>
      cases suits
      have frames : (s.under limits).frames = s.frames := rfl
      rw [perform_ret, perform_ret, frames]
      cases s.frames.pop? with
      | none => exact .fails _ _ (by intro bound; cases bound)
      | some left => exact .of_fits (by decide) fits
  | halt =>
      cases suits
      exact .of_fits (by decide) fits

end Action

/-- An instruction under bounds does what it would do without them, or fails with the bound that it
    would pass. -/
theorem Handler.ofOpcode_cut (op : Opcode) (operands : List Operand) {s : State σ}
    (free : s.limits = .unbounded) (fits : s.Fits limits) :
    Cut limits (op = .call) (ofOpcode op operands s) (ofOpcode op operands (s.under limits)) := by
  have draws := draw_draws (σ := σ) op operands
  rw [ofOpcode_eq, Exec.bind_apply, Exec.bind_apply, draws.under]
  cases drawn : draw op operands s with
  | error e t => exact .fails e t (draws.error drawn).2.not_ofBound
  | ok a t =>
      obtain ⟨changes, suits⟩ := draws.ok drawn
      refine a.perform_cut suits ?_ fun k set => ?_
      · rw [changes.rest]
        exact free
      · exact Nat.le_trans changes.stack.length_le (fits k set)

/-! ### Machines under bounds

The bound on steps comes before everything else, as it is tested before the fetch. Together with the
two others this is `Limits.Cuts`, which says of the machine without bounds what the one with bounds
fails with. -/

/-- A machine under other bounds. -/
def Machine.under (m : Machine σ) (limits : Limits) : Machine σ :=
  { m with state := m.state.under limits }

/-- The bound that the next instruction of a machine passes, which has no bounds itself. -/
inductive Limits.Cuts (limits : Limits) (m : Machine σ) : RuntimeError → Prop where
  /-- As many instructions as allowed were executed. -/
  | steps {k : Nat} (set : limits.maxSteps = some k) (used : m.state.stats.steps = k) :
      Cuts limits m (.stepLimitExceeded k)
  /-- A call succeeds and leaves more frames than allowed. -/
  | frames {k : Nat} (left : ∀ n, limits.maxSteps = some n → m.state.stats.steps < n)
      (call : (m.program.get? m.state.ip).map Instruction.opcode = some .call)
      (succeeds : m.step.state.error? = none)
      (set : limits.maxFrames = some k) (deep : k < m.step.state.frames.depth) :
      Cuts limits m (.frameLimitExceeded k)
  /-- An instruction succeeds and leaves more values than allowed. -/
  | stack {k : Nat} (left : ∀ n, limits.maxSteps = some n → m.state.stats.steps < n)
      (succeeds : m.step.state.error? = none)
      (set : limits.maxStack = some k) (high : k < m.step.state.stack.length) :
      Cuts limits m (.stackOverflow k)

namespace Limits.Cuts

variable {m : Machine σ}

/-- As long as steps are left, an instruction that succeeds passes the bounds which its work
    passes. -/
theorem iff_exceeded (left : ∀ n, limits.maxSteps = some n → m.state.stats.steps < n)
    (succeeds : m.step.state.error? = none) (e : RuntimeError) :
    limits.Cuts m e ↔ limits.Exceeded
      ((m.program.get? m.state.ip).map Instruction.opcode = some .call) m.step.state e := by
  constructor
  · intro cuts
    cases cuts with
    | steps set used => exact absurd used (Nat.ne_of_lt (left _ set))
    | frames _ call _ set deep => exact .frames call set deep
    | stack _ _ set high => exact .stack set high
  · intro exceeded
    cases exceeded with
    | frames call set deep => exact .frames left call succeeds set deep
    | stack set high => exact .stack left succeeds set high

/-- An instruction that fails by itself passes no bound. -/
theorem not_of_failed (left : ∀ n, limits.maxSteps = some n → m.state.stats.steps < n)
    {own : RuntimeError} (failed : m.step.state.status = .failed own) (e : RuntimeError) :
    ¬ limits.Cuts m e := by
  intro cuts
  cases cuts with
  | steps set used => exact absurd used (Nat.ne_of_lt (left _ set))
  | frames _ _ succeeds => simp [State.error?, failed] at succeeds
  | stack _ succeeds => simp [State.error?, failed] at succeeds

/-- A machine that has used up its steps passes no other bound. -/
theorem iff_of_used {k : Nat} (set : limits.maxSteps = some k) (used : m.state.stats.steps = k)
    (e : RuntimeError) : limits.Cuts m e ↔ e = .stepLimitExceeded k := by
  constructor
  · intro cuts
    cases cuts with
    | steps set' _ => rw [Option.some.inj (set.symm.trans set')]
    | frames left => exact absurd used (Nat.ne_of_lt (left k set))
    | stack left => exact absurd used (Nat.ne_of_lt (left k set))
  · rintro rfl
    exact .steps set used

/-- Only bounds are passed. -/
theorem ofBound {e : RuntimeError} (h : limits.Cuts m e) : e.OfBound := by
  cases h with
  | steps => exact .steps _
  | frames => exact .frames _
  | stack => exact .stack _

end Limits.Cuts

namespace Machine

/-- While steps are left, what a machine executes under bounds is what it would execute without. -/
theorem execute_cut (program : Bytecode) {s : State σ} (free : s.limits = .unbounded)
    (fits : s.Fits limits) (left : (s.under limits).stepLimit? = none) :
    Cut limits ((program.get? s.ip).map Instruction.opcode = some .call)
      (execute program .standard s) (execute program .standard (s.under limits)) := by
  have ip : (s.under limits).ip = s.ip := rfl
  have left' : s.stepLimit? = none := by rw [State.stepLimit?, free]; rfl
  rw [execute_apply, execute_apply, left, left', ip]
  cases program.get? s.ip with
  | none => exact .fails _ _ nofun
  | some i =>
      simp only [InstructionTable.resolve_standard, Option.map_some, Option.some.injEq]
      split
      · exact Handler.ofOpcode_cut i.opcode i.operands (s := fetched s i) free fits
      · exact .fails _ _ nofun

variable {m : Machine σ}

theorem step_under_of_halted (halted : m.state.isHalted = true) (limits : Limits) :
    (m.under limits).step = m.step.under limits := by
  rw [step_of_halted halted, step_of_halted (m := m.under limits) halted]

/-- A machine whose steps are used up fails before it fetches anything. -/
theorem step_of_used {k : Nat} (running : m.state.status = .running)
    (used : m.state.stepLimit? = some k) :
    m.step = { m with state := { m.state with status := .failed (.stepLimitExceeded k) } } := by
  rw [step_of_running running, execute_apply, used]
  rfl

/-- A step under bounds does what it would do without them, or fails with the bound that it would
    pass. -/
theorem step_under {size : Nat} (table : m.table = .standard) (free : m.state.limits = .unbounded)
    (running : m.state.status = .running) (sound : (m.state.under limits).Sound size) :
    ((m.under limits).step = m.step.under limits ∧ (∀ e, ¬ limits.Cuts m e) ∧
        ∀ e, e.OfBound → m.step.state.status ≠ .failed e) ∨
      ∃ e, (m.under limits).step.state.status = .failed e ∧ ∀ e', limits.Cuts m e' ↔ e' = e := by
  -- the bound on steps is tested before anything is fetched
  cases used : (m.under limits).state.stepLimit? with
  | some k =>
      obtain ⟨set, reached⟩ := Option.filter_eq_some_iff.1 used
      refine Or.inr ⟨.stepLimitExceeded k, ?_, ?_⟩
      · rw [step_of_used (m := m.under limits) running used]
      · refine Limits.Cuts.iff_of_used set ?_
        exact Nat.le_antisymm (sound.steps k set) (of_decide_eq_true reached)
  | none =>
      have left : ∀ n, limits.maxSteps = some n → m.state.stats.steps < n :=
        fun n set => State.lt_of_filter used set
      have fits : m.state.Fits limits := sound.stack
      have cut := execute_cut m.program free fits used
      have unbounded : m.step = m.settle (execute m.program .standard m.state) := by
        rw [step_of_running running, table]
      have bounded : (m.under limits).step =
          (m.under limits).settle (execute m.program .standard (m.state.under limits)) := by
        rw [step_of_running (m := m.under limits) running]
        rw [show (m.under limits).table = .standard from table]
        rfl
      cases done : execute m.program .standard m.state with
      | error e t =>
          rw [done] at cut unbounded
          generalize execute m.program .standard (m.state.under limits) = result at cut bounded
          cases cut with
          | fails _ _ own =>
              -- what fails without bounds fails in the same way with them
              have failed : m.step.state.status = .failed e := by
                rw [unbounded]
                rfl
              have none := Limits.Cuts.not_of_failed left failed
              refine Or.inl ⟨by rw [unbounded, bounded]; rfl, none, ?_⟩
              intro e' bound failed'
              rw [failed] at failed'
              cases failed'
              exact own bound
      | ok _ t =>
          have succeeds : m.step.state.error? = none := by
            obtain ⟨i, _, transfer⟩ := execute_transfer done
            rw [unbounded, done]
            exact transfer.succeeds running
          have cuts := Limits.Cuts.iff_exceeded left succeeds
          rw [unbounded, done] at cuts
          rw [done] at cut
          generalize execute m.program .standard (m.state.under limits) = result at cut bounded
          cases cut with
          | within _ room =>
              refine Or.inl ⟨by rw [unbounded, bounded, done]; rfl, ?_, fun e _ failed => ?_⟩
              · exact fun e cut => room e ((cuts e).1 cut)
              · simp [State.error?, failed] at succeeds
          | exceeds _ t' e only =>
              refine Or.inr ⟨e, by rw [bounded]; rfl, fun e' => ?_⟩
              exact (cuts e').trans (only e')

/-- A machine that runs has executed an instruction with every step. -/
theorem steps_of_running (table : m.table = .standard) (n : Nat) :
    (m.after n).state.status = .running →
      (m.after n).state.stats.steps = m.state.stats.steps + n := by
  induction n with
  | zero => exact fun _ => rfl
  | succ n ih =>
      intro goes
      have running := running_of_step goes
      have table' : (m.after n).table = .standard := by rw [after_table, table]
      rcases step_cases table' running with ⟨e, failed⟩ | ⟨i, _, transfer⟩
      · rw [after, failed] at goes
        cases goes
      · rw [after, transfer.steps]
        show (m.after n).state.stats.steps + 1 = _
        rw [ih running, Nat.add_assoc]

end Machine

/-! ### Runs under bounds

By induction on the steps, the two machines are the same up to the first cut, and behind it the one
with bounds has halted with the error of the bound. The clauses of `bounds_only_cut` are read off
this. -/

section

variable (b : Bytecode) (host : Builtins σ) (limits : Limits)

/-- A machine keeps its bounds, and stays within them. -/
theorem Machine.sound_after (n : Nat) :
    ((start b host limits).after n).state.limits = limits ∧
      ((start b host limits).after n).state.Sound b.size := by
  have before : Session (start b host limits) [] (start b host limits) := .start
  obtain ⟨past, session⟩ := before.steps n
  exact session.sound InstructionTable.remaps_standard

/-- As long as both machines agree and run, the next step keeps them in agreement, or the one with
    bounds fails with the only bound that cuts. -/
theorem Machine.step_after_under {n : Nat}
    (agree : (start b host limits).after n = ((start b host .unbounded).after n).under limits)
    (running : ((start b host limits).after n).state.status = .running) :
    ((start b host limits).after (n + 1) = ((start b host .unbounded).after (n + 1)).under limits ∧
        (∀ e, ¬ limits.Cuts ((start b host .unbounded).after n) e) ∧
        ∀ e, e.OfBound → ((start b host .unbounded).after (n + 1)).state.status ≠ .failed e) ∨
      ∃ e, ((start b host limits).after (n + 1)).state.status = .failed e ∧
        ∀ e', limits.Cuts ((start b host .unbounded).after n) e' ↔ e' = e := by
  have sound := (sound_after b host limits n).2
  have free := (sound_after b host .unbounded n).1
  rw [agree] at running sound
  rw [after, agree]
  exact step_under (after_table ..) free running sound

/-- After as many steps, machines with bounds and without are the same, or the one with bounds has
    failed with one of them and was the same until then. -/
theorem Machine.after_under (n : Nat) :
    (start b host limits).after n = ((start b host .unbounded).after n).under limits ∨
      ∃ k < n, ∃ e, RuntimeError.OfBound e ∧
        (start b host limits).after k = ((start b host .unbounded).after k).under limits ∧
        ((start b host limits).after k).state.status = .running ∧
        ((start b host limits).after (k + 1)).state.status = .failed e := by
  induction n with
  | zero => exact Or.inl rfl
  | succ n ih =>
      rcases ih with agree | ⟨k, before, e, stopped⟩
      · cases halted : ((start b host limits).after n).state.isHalted with
        | true =>
            rw [agree] at halted
            refine Or.inl ?_
            rw [after, agree]
            exact step_under_of_halted (m := (start b host .unbounded).after n) halted limits
        | false =>
            have running := isHalted_eq_false_iff.1 halted
            rcases step_after_under b host limits agree running with ⟨same, -⟩ | ⟨e, failed, cuts⟩
            · exact Or.inl same
            · have cut := (cuts e).2 rfl
              exact Or.inr ⟨n, Nat.lt_succ_self n, e, cut.ofBound, agree, running, failed⟩
      · exact Or.inr ⟨k, Nat.lt_succ_of_lt before, e, stopped⟩

theorem Machine.agree_of_running {n : Nat}
    (running : ((start b host limits).after n).state.status = .running) :
    (start b host limits).after n = ((start b host .unbounded).after n).under limits := by
  rcases after_under b host limits n with agree | ⟨k, before, e, -, -, -, failed⟩
  · exact agree
  · have goes := running_of_le before running
    rw [failed] at goes
    cases goes

/-- A machine that runs fails with a bound in its next step if and only if it would pass that
    bound. -/
theorem Machine.failed_iff_cuts {n : Nat} {e : RuntimeError} (bound : e.OfBound)
    (running : ((start b host limits).after n).state.status = .running) :
    ((start b host limits).after (n + 1)).state.status = .failed e ↔
      limits.Cuts ((start b host .unbounded).after n) e := by
  have agree := agree_of_running b host limits running
  rcases step_after_under b host limits agree running with ⟨same, none, own⟩ | ⟨e', failed, cuts⟩
  · rw [same]
    exact ⟨fun failed => absurd failed (own e bound), fun cut => absurd cut (none e)⟩
  · rw [failed, cuts]
    exact ⟨fun same => (Status.failed.inj same).symm, fun same => by rw [same]⟩

end

/-- What bounds make of the run of a machine. -/
structure CutShort (limits : Limits) (free bounded : Machine σ) : Prop where
  /-- With bounds and without, the machines are the same after as many steps, also when they have
      halted or failed. Otherwise the one with bounds failed with one of them and was the same until
      then. -/
  agree (n : Nat) : bounded.after n = (free.after n).under limits ∨
    ∃ k < n, ∃ e, RuntimeError.OfBound e ∧ bounded.after k = (free.after k).under limits ∧
      (bounded.after k).state.status = .running ∧ (bounded.after (k + 1)).state.status = .failed e
  /-- As long as it runs, every step executes one instruction. -/
  counted (n : Nat) : (bounded.after n).state.status = .running →
    (bounded.after n).state.stats.steps = n
  /-- The bound on steps stops a machine that runs and has executed as many instructions. -/
  steps (n k : Nat) : (bounded.after n).state.status = .running →
    ((bounded.after (n + 1)).state.status = .failed (.stepLimitExceeded k) ↔
      limits.maxSteps = some k ∧ n = k)
  /-- It stops it before it fetches anything. -/
  unfetched (n k : Nat) : (bounded.after n).state.status = .running →
    (bounded.after (n + 1)).state.status = .failed (.stepLimitExceeded k) →
    (bounded.after (n + 1)).state =
      { (bounded.after n).state with status := .failed (.stepLimitExceeded k) }
  /-- The bound on frames stops it at a call that would succeed and leave more frames. -/
  frames (n k : Nat) : (bounded.after n).state.status = .running →
    ((bounded.after (n + 1)).state.status = .failed (.frameLimitExceeded k) ↔
      limits.maxFrames = some k ∧ (∀ most, limits.maxSteps = some most → n < most) ∧
      (free.program.get? (free.after n).state.ip).map Instruction.opcode = some .call ∧
      (free.after (n + 1)).state.error? = none ∧
      k < (free.after (n + 1)).state.frames.depth)
  /-- The bound on values stops it at an instruction that would succeed and leave more values. -/
  stack (n k : Nat) : (bounded.after n).state.status = .running →
    ((bounded.after (n + 1)).state.status = .failed (.stackOverflow k) ↔
      limits.maxStack = some k ∧ (∀ most, limits.maxSteps = some most → n < most) ∧
      (free.after (n + 1)).state.error? = none ∧
      k < (free.after (n + 1)).state.stack.length)
  /-- With a bound on steps, every run ends. -/
  ends (k : Nat) : limits.maxSteps = some k → ∃ m, bounded.run (k + 1) = some m

namespace CutShort

variable (b : Bytecode) (host : Builtins σ) (limits : Limits)

/-- A machine that is still running has counted every step. -/
theorem counted_of_running {n : Nat}
    (running : ((Machine.start b host limits).after n).state.status = .running) :
    ((Machine.start b host limits).after n).state.stats.steps = n := by
  rw [Machine.steps_of_running (m := Machine.start b host limits) rfl n running]
  exact Nat.zero_add n

/-- The machine without bounds has executed as many instructions. -/
theorem counted_free {n : Nat}
    (running : ((Machine.start b host limits).after n).state.status = .running) :
    ((Machine.start b host .unbounded).after n).state.stats.steps = n := by
  have agree := Machine.agree_of_running b host limits running
  rw [agree] at running
  exact counted_of_running b host .unbounded running

/-- A machine that fails because its steps are used up has only that changed. -/
theorem unfetched_of_failed {n k : Nat}
    (running : ((Machine.start b host limits).after n).state.status = .running)
    (failed : ((Machine.start b host limits).after (n + 1)).state.status =
      .failed (.stepLimitExceeded k)) :
    ((Machine.start b host limits).after (n + 1)).state =
      { ((Machine.start b host limits).after n).state with
        status := .failed (.stepLimitExceeded k) } := by
  have cut := (Machine.failed_iff_cuts b host limits (.steps k) running).1 failed
  cases cut with
  | steps set used =>
      have counted := counted_of_running b host limits running
      have free := counted_free b host limits running
      have limited := (Machine.sound_after b host limits n).1
      have exhausted : ((Machine.start b host limits).after n).state.stepLimit? = some k := by
        rw [State.stepLimit?, limited, set, counted, ← used, free]
        simp
      rw [Machine.after, Machine.step_of_used running exhausted]

/-- With a bound on steps, a machine is halted after one step more. -/
theorem halted_of_bound {k : Nat} (set : limits.maxSteps = some k) :
    ((Machine.start b host limits).after (k + 1)).state.isHalted = true := by
  cases halted : ((Machine.start b host limits).after (k + 1)).state.isHalted with
  | true => rfl
  | false =>
      have counted := counted_of_running b host limits (Machine.isHalted_eq_false_iff.1 halted)
      obtain ⟨same, sound⟩ := Machine.sound_after b host limits (k + 1)
      have bounded := sound.steps k (by rw [same, set])
      omega

end CutShort

/-- Bounds only cut a run short, and exactly where they should. -/
theorem bounds_only_cut (b : Bytecode) (host : Builtins σ) (limits : Limits) :
    CutShort limits (Machine.start b host .unbounded) (Machine.start b host limits) where
  agree := Machine.after_under b host limits
  counted _ running := CutShort.counted_of_running b host limits running
  steps n k running := by
    -- a machine that is still running has made as many steps as it was told to
    have counted := CutShort.counted_free b host limits running
    rw [Machine.failed_iff_cuts b host limits (.steps k) running]
    constructor
    · rintro ⟨set, used⟩
      exact ⟨set, counted.symm.trans used⟩
    · rintro ⟨set, rfl⟩
      exact .steps set counted
  unfetched _ _ running failed := CutShort.unfetched_of_failed b host limits running failed
  frames n k running := by
    have counted := CutShort.counted_free b host limits running
    rw [Machine.failed_iff_cuts b host limits (.frames k) running]
    constructor
    · intro cut
      cases cut with
      | frames left call succeeds set deep =>
          exact ⟨set, fun most set => counted ▸ left most set,
            by simpa only [Machine.after_program] using call, succeeds, deep⟩
    · rintro ⟨set, left, call, succeeds, deep⟩
      exact .frames (fun most set => by rw [counted]; exact left most set)
        (by simpa only [Machine.after_program] using call) succeeds set deep
  stack n k running := by
    have counted := CutShort.counted_free b host limits running
    rw [Machine.failed_iff_cuts b host limits (.stack k) running]
    constructor
    · intro cut
      cases cut with
      | stack left succeeds set high =>
          exact ⟨set, fun most set => by rw [← counted]; exact left most set, succeeds, high⟩
    · rintro ⟨set, left, succeeds, high⟩
      exact .stack (fun most set => by rw [counted]; exact left most set) succeeds set high
  ends k set := ⟨_, Machine.run_eq_some_iff.2 ⟨rfl, CutShort.halted_of_bound b host limits set⟩⟩

/-- A value that fills the operand stack can be taken and pushed back, but not twice. -/
example : ((Machine.start ⟨#[.push (.int 7), .plain .dup], NameTable.empty⟩ (Builtins.empty ())
    ⟨none, none, some 1⟩).after 2).state.status = .failed (.stackOverflow 1) := by decide +kernel

end ImpStack
