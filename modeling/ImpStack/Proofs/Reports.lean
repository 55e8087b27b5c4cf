/-
Module: ImpStack.Proofs.Reports
Purpose: What a host is told when it calls a machine. A step reports how the execution of one
  instruction ended, and a run reports the error of the step that it stopped at; a machine that has
  come to its end repeats what it reported then. All of this agrees with what the machine records,
  so it does not matter by which calls a machine was brought to its end.
Main exports: Machine.stepReport, Machine.runReport, Machine.runReport_eq, Call, Dialogue,
  halting_is_final
-/
import ImpStack.Proofs.Control
import ImpStack.Proofs.Invariant

namespace ImpStack

variable {σ : Type}

/-! ### What calls report

A step reports how executing an instruction has ended, and a run passes on the report of the step
that it stops at. Both look at the recorded error first, so nothing is executed after a failure. -/

namespace Machine

/-- What a call of step reports: the error that has stopped the machine before, or how the execution
    of the next instruction ends. -/
def stepReport (m : Machine σ) : Except RuntimeError Unit :=
  match m.state.error? with
  | some e => .error e
  | none =>
    if m.state.isHalted then .ok ()
    else
      match execute m.program m.table m.state with
      | .ok _ _ => .ok ()
      | .error e _ => .error e

/-- Step until the machine is halted or a step reports an error; the report, and the machine then.
    Nothing if that takes more steps than `fuel`. -/
def loopReport (fuel : Nat) (m : Machine σ) : Option (Except RuntimeError Unit × Machine σ) :=
  if m.state.isHalted then some (.ok (), m)
  else
    match fuel with
    | 0 => none
    | fuel + 1 =>
      match m.stepReport with
      | .error e => some (.error e, m.step)
      | .ok _ => loopReport fuel m.step

/-- What a call of run reports, and the machine then: an error that has stopped the machine before
    is reported without another step. -/
def runReport (fuel : Nat) (m : Machine σ) : Option (Except RuntimeError Unit × Machine σ) :=
  match m.state.error? with
  | some e => some (.error e, m)
  | none => loopReport fuel m

/-- The outcome is a success if no error is recorded. -/
theorem outcome_eq_ok_iff {m : Machine σ} : m.outcome = .ok () ↔ m.state.error? = none := by
  rw [outcome]
  cases m.state.error? <;> simp

theorem error?_of_running {s : State σ} (running : s.status = .running) : s.error? = none := by
  rw [State.error?, running]

/-- No handler records an error of its own: what executes without an error leaves none behind. -/
theorem execute_succeeds {program : Bytecode} {table : InstructionTable σ} (remaps : table.Remaps)
    {s t : State σ} (running : s.status = .running) (h : execute program table s = .ok () t) :
    t.error? = none := by
  rw [execute_apply] at h
  cases left : s.stepLimit? with
  | some limit =>
      rw [left] at h
      cases h
  | none =>
      cases fetch : program.get? s.ip with
      | none =>
          rw [left, fetch] at h
          cases h
      | some i =>
          rw [left, fetch] at h
          cases resolved : table.resolve i.opcode.name with
          | error e =>
              simp only [resolved] at h
              cases h
          | ok d =>
              obtain ⟨op, handler⟩ := remaps _ d resolved
              simp only [resolved, handler] at h
              split at h
              · exact (Handler.ofOpcode_transfer h).succeeds running
              · cases h

/-- A machine that has come to its end reports it again. -/
theorem stepReport_of_halted {m : Machine σ} (halted : m.state.isHalted = true) :
    m.stepReport = m.outcome := by
  rw [stepReport, outcome, halted]
  cases m.state.error? <;> rfl

/-- A run of a machine that has halted reports its outcome and leaves it as it is. -/
theorem runReport_of_halted {m : Machine σ} (halted : m.state.isHalted = true) (fuel : Nat) :
    m.runReport fuel = some (m.outcome, m) := by
  rw [runReport, outcome]
  cases m.state.error? with
  | some e => rfl
  | none => rw [loopReport.eq_def, if_pos halted]

/-- A step reports what the machine then records. -/
theorem stepReport_eq {m : Machine σ} (remaps : m.table.Remaps) :
    m.stepReport = m.step.outcome := by
  cases halted : m.state.isHalted with
  | true => rw [step_of_halted halted, stepReport_of_halted halted]
  | false =>
      have status := isHalted_eq_false_iff.1 halted
      rw [step_of_running status, stepReport, error?_of_running status, halted]
      cases done : execute m.program m.table m.state with
      | error e t => rfl
      | ok _ t => exact (outcome_eq_ok_iff.2 (execute_succeeds remaps status done)).symm

/-- Stepping until something is reported is running, and the report is the outcome. -/
theorem loopReport_eq (fuel : Nat) : ∀ {m : Machine σ}, m.table.Remaps →
    m.state.error? = none → m.loopReport fuel = (m.run fuel).map fun m' => (m'.outcome, m') := by
  induction fuel with
  | zero =>
      intro m _ clean
      rw [loopReport, run]
      split
      · rw [Option.map_some, outcome_eq_ok_iff.2 clean]
      · rfl
  | succ fuel ih =>
      intro m remaps clean
      rw [loopReport, run]
      split
      · rw [Option.map_some, outcome_eq_ok_iff.2 clean]
      · simp only [stepReport_eq remaps]
        cases reported : m.step.outcome with
        | ok _ => exact ih (m.step_table ▸ remaps) (outcome_eq_ok_iff.1 reported)
        | error e =>
            have halted : m.step.state.isHalted = true := by
              rw [State.isHalted, failed_of_outcome reported]
            have ran : m.step.run fuel = some m.step :=
              run_eq_some_iff.2 ⟨after_of_halted halted fuel, halted⟩
            simp only [ran, Option.map_some, reported]

/-- A run reports what the machine records in the end. -/
theorem runReport_eq {m : Machine σ} (remaps : m.table.Remaps) (fuel : Nat) :
    m.runReport fuel = (m.run fuel).map fun m' => (m'.outcome, m') := by
  cases halted : m.state.isHalted with
  | true =>
      have ran : m.run fuel = some m := run_eq_some_iff.2 ⟨after_of_halted halted fuel, halted⟩
      rw [runReport_of_halted halted, ran, Option.map_some]
  | false =>
      have clean := error?_of_running (isHalted_eq_false_iff.1 halted)
      rw [runReport, clean]
      exact loopReport_eq fuel remaps clean

/-- A run reports the end that the machine comes to by single steps. -/
theorem runReport_eq_some_iff {m m' : Machine σ} (remaps : m.table.Remaps) {fuel : Nat}
    {report : Except RuntimeError Unit} :
    m.runReport fuel = some (report, m') ↔
      m.after fuel = m' ∧ m'.state.isHalted = true ∧ report = m'.outcome := by
  rw [runReport_eq remaps, Option.map_eq_some_iff]
  simp only [Prod.mk.injEq, run_eq_some_iff]
  constructor
  · rintro ⟨_, ⟨reached, halted⟩, rfl, rfl⟩
    exact ⟨reached, halted, rfl⟩
  · rintro ⟨reached, halted, rfl⟩
    exact ⟨m', ⟨reached, halted⟩, rfl, rfl⟩

end Machine

/-! ### Sequences of calls

A host may mix steps and runs and register functions in between. A report of success means only that
the machine has no error so far; when the machine has halted, each report is its outcome. -/

/-- What a host asks of a machine. -/
inductive Call (σ : Type) where
  | step
  | run
  | register (name : String) (f : HostFunction σ)

/-- Whether a call only goes on with the program. -/
def Call.goesOn : Call σ → Bool
  | .step | .run => true
  | .register .. => false

/-- A host has brought a machine from `first` to another one by calls, and was given reports by
    those of step and run. Both are listed from the latest one back. -/
inductive Dialogue (first : Machine σ) :
    List (Call σ) → List (Except RuntimeError Unit) → Machine σ → Prop where
  | start : Dialogue first [] [] first
  | step {calls : List (Call σ)} {reports : List (Except RuntimeError Unit)} {m : Machine σ}
      (before : Dialogue first calls reports m) :
      Dialogue first (.step :: calls) (m.stepReport :: reports) m.step
  | run {calls : List (Call σ)} {reports : List (Except RuntimeError Unit)} {m m' : Machine σ}
      (before : Dialogue first calls reports m) {fuel : Nat} {report : Except RuntimeError Unit}
      (ran : m.runReport fuel = some (report, m')) :
      Dialogue first (.run :: calls) (report :: reports) m'
  | register {calls : List (Call σ)} {reports : List (Except RuntimeError Unit)} {m : Machine σ}
      (before : Dialogue first calls reports m) (name : String) (f : HostFunction σ) :
      Dialogue first (.register name f :: calls) reports (m.register name f)

namespace Dialogue

variable {first m : Machine σ} {calls : List (Call σ)} {reports : List (Except RuntimeError Unit)}

theorem table (h : Dialogue first calls reports m) (remaps : first.table.Remaps) :
    m.table.Remaps := by
  induction h with
  | start => exact remaps
  | step before ih => rwa [Machine.step_table]
  | run before ran ih =>
      obtain ⟨rfl, -, -⟩ := (Machine.runReport_eq_some_iff ih).1 ran
      rwa [Machine.after_table]
  | register before name f ih => exact ih

/-- Without registrations a host only lets the machine take steps. -/
theorem after (h : Dialogue first calls reports m) (remaps : first.table.Remaps)
    (goOn : ∀ c ∈ calls, c.goesOn = true) : ∃ n, first.after n = m := by
  induction h with
  | start => exact ⟨0, rfl⟩
  | step before ih =>
      obtain ⟨n, rfl⟩ := ih fun c hc => goOn c (List.mem_cons_of_mem _ hc)
      exact ⟨n + 1, rfl⟩
  | @run _ _ m m' before fuel _ ran ih =>
      obtain ⟨n, rfl⟩ := ih fun c hc => goOn c (List.mem_cons_of_mem _ hc)
      obtain ⟨rfl, -, -⟩ := (Machine.runReport_eq_some_iff (before.table remaps)).1 ran
      exact ⟨n + fuel, first.after_add n fuel⟩
  | register before name f ih => cases goOn (.register name f) List.mem_cons_self

/-- The last report tells what the machine records; before any report it runs. -/
theorem reported (h : Dialogue first calls reports m) (remaps : first.table.Remaps)
    (running : first.state.status = .running) :
    reports = [] ∧ m.state.status = .running ∨ reports.head? = some m.outcome := by
  induction h with
  | start => exact Or.inl ⟨rfl, running⟩
  | step before ih =>
      exact Or.inr (congrArg some (Machine.stepReport_eq (before.table remaps)))
  | run before ran ih =>
      obtain ⟨-, -, rfl⟩ := (Machine.runReport_eq_some_iff (before.table remaps)).1 ran
      exact Or.inr rfl
  | register before name f ih => exact ih

/-- Calls of a halted machine change nothing but the registered functions, and every report repeats
    what the machine has recorded. -/
theorem of_halted (h : Dialogue first calls reports m) (halted : first.state.isHalted = true) :
    m = { first with state := { first.state with
      builtins := { first.state.builtins with functions := m.state.builtins.functions } } } ∧
      ∀ report ∈ reports, report = first.outcome := by
  induction h with
  | start => exact ⟨rfl, nofun⟩
  | @step _ _ m before ih =>
      obtain ⟨same, repeated⟩ := ih
      have still : m.state.isHalted = true := by rwa [same]
      have recorded : m.outcome = first.outcome := by rw [same]; rfl
      rw [Machine.step_of_halted still, Machine.stepReport_of_halted still, recorded]
      exact ⟨same, List.forall_mem_cons.2 ⟨rfl, repeated⟩⟩
  | @run _ _ m m' before fuel _ ran ih =>
      obtain ⟨same, repeated⟩ := ih
      have still : m.state.isHalted = true := by rwa [same]
      have recorded : m.outcome = first.outcome := by rw [same]; rfl
      rw [Machine.runReport_of_halted still, recorded] at ran
      cases ran
      exact ⟨same, List.forall_mem_cons.2 ⟨rfl, repeated⟩⟩
  | @register _ _ m before name f ih =>
      obtain ⟨same, repeated⟩ := ih
      refine ⟨?_, repeated⟩
      generalize m.state.builtins.functions = functions at same
      rw [same]
      rfl

end Dialogue

/-! ### The end of a machine

The machine that a dialogue of steps and runs ends with is the one that a single run leads to, if it
has halted. Calls that come later change nothing but the registered functions, and repeat the
outcome. -/

/-- A machine comes to one end only. -/
theorem Machine.after_unique {m : Machine σ} {n k : Nat}
    (halted : (m.after n).state.isHalted = true) (halted' : (m.after k).state.isHalted = true) :
    m.after n = m.after k := by
  have later {n k : Nat} (le : n ≤ k) (halted : (m.after n).state.isHalted = true) :
      m.after n = m.after k := by
    obtain ⟨d, rfl⟩ := Nat.exists_eq_add_of_le le
    rw [after_add, after_of_halted halted]
  rcases Nat.le_total n k with le | le
  · exact later le halted
  · exact (later le halted').symm

/-- Stepping and running agree, and halting is final. Suppose that a host has brought a running
    machine to its end by calls. The last report tells what the machine has recorded. If the calls
    were steps and runs, then a single run of the machine comes to its end as well, and just in that
    machine and with that report. And whatever calls follow, they change nothing but the registered
    functions; as the state of the host stays as well, none of its functions is called; and each
    step and run reports the same again. -/
theorem halting_is_final {first m : Machine σ} (remaps : first.table.Remaps)
    (running : first.state.status = .running) {calls : List (Call σ)}
    {reports : List (Except RuntimeError Unit)} (dialogue : Dialogue first calls reports m)
    (halted : m.state.isHalted = true) :
    reports.head? = some m.outcome ∧
      ((∀ c ∈ calls, c.goesOn = true) → ∀ report last,
        (∃ fuel, first.runReport fuel = some (report, last)) ↔ last = m ∧ report = m.outcome) ∧
      ∀ later reports' m', Dialogue m later reports' m' →
        m' = { m with state := { m.state with
          builtins := { m.state.builtins with functions := m'.state.builtins.functions } } } ∧
        ∀ report ∈ reports', report = m.outcome := by
  refine ⟨?_, fun goOn report last => ?_, fun later reports' m' h => h.of_halted halted⟩
  · rcases dialogue.reported remaps running with ⟨-, goes⟩ | reported
    · rw [State.isHalted, goes] at halted
      cases halted
    · exact reported
  · obtain ⟨n, rfl⟩ := dialogue.after remaps goOn
    simp only [Machine.runReport_eq_some_iff remaps]
    constructor
    · rintro ⟨fuel, rfl, ended, rfl⟩
      have same := Machine.after_unique halted ended
      rw [same]
      exact ⟨rfl, rfl⟩
    · rintro ⟨rfl, rfl⟩
      exact ⟨n, rfl, halted, rfl⟩

/-- A machine under whose table a push enters a frame and a halt leaves it. -/
def Machine.remapped : Machine Unit :=
  ⟨.pushHalt, .remapped, .start (Builtins.empty ()) ⟨some 5, some 2, some 0⟩⟩

/-- Its program leaves one frame too many, which is found out by a step and a run as well as by a
    run, and is told to all later calls. -/
theorem halting_is_final_remapped :
    ∃ m, Dialogue .remapped [.run, .step] [.error (.stackUnderflow .frame .halt), .ok ()] m ∧
      (∃ fuel, Machine.remapped.runReport fuel =
        some (.error (.stackUnderflow .frame .halt), m)) ∧
      ∀ later reports m', Dialogue m later reports m' → m'.state.stats = ⟨3, 1, 1, 2⟩ ∧
        ∀ report ∈ reports, report = .error (.stackUnderflow .frame .halt) := by
  have remaps : Machine.remapped.table.Remaps :=
    (InstructionTable.remaps_empty.register "PUSH" 1 .call).register "HALT" 0 .ret
  have halted : (Machine.remapped.step.after 2).state.isHalted = true := by decide +kernel
  have outcome : (Machine.remapped.step.after 2).outcome =
      .error (.stackUnderflow .frame .halt) := rfl
  have counted : (Machine.remapped.step.after 2).state.stats = ⟨3, 1, 1, 2⟩ := by decide +kernel
  have entered : Machine.remapped.stepReport = .ok () := rfl
  have ran : Machine.remapped.step.runReport 2 =
      some (.error (.stackUnderflow .frame .halt), Machine.remapped.step.after 2) :=
    (Machine.runReport_eq_some_iff (Machine.remapped.step_table ▸ remaps)).2
      ⟨rfl, halted, outcome.symm⟩
  have fresh : Dialogue Machine.remapped [] [] Machine.remapped := .start
  have dialogue := entered ▸ fresh.step.run ran
  obtain ⟨-, single, final⟩ := halting_is_final remaps rfl dialogue halted
  refine ⟨_, dialogue, (single (by decide) _ _).2 ⟨rfl, outcome.symm⟩, ?_⟩
  intro later reports m' h
  obtain ⟨same, repeated⟩ := final later reports m' h
  rw [outcome] at repeated
  refine ⟨?_, repeated⟩
  rw [same]
  exact counted

end ImpStack
