/-
Module: ImpStack.Proofs.Containment
Purpose: Checked programs stay inside. Addresses that contain the targets of all branches and what
  follows an instruction are never left, neither by jumps nor by returns. All addresses up to the
  end of a checked program are of this kind, and if its last instruction leaves for good, so are
  those before the end.
Main exports: Bytecode.Closed, Contained, Contained.step, Machine.checked_fault,
  checked_stays_inside
-/
import ImpStack.Proofs.Control
import ImpStack.Proofs.Layout
import ImpStack.Proofs.Session

namespace ImpStack

variable {σ : Type} {b : Bytecode} {good : Nat → Prop}

/-! ### Addresses that control does not leave

A set of addresses is closed if no instruction leads out of it. Returns need a part of their own:
where they go was decided when the call was executed, so the invariant speaks of the return
addresses of all frames. -/

/-- Addresses between which the instructions of a program move control: those of all branches, and
    what follows an instruction, unless it goes elsewhere in any case. -/
structure Bytecode.Closed (b : Bytecode) (good : Nat → Prop) : Prop where
  target : ∀ a i target, b.get? a = some i → i.opcode.isBranch = true →
    i.operands[0]? = some (.address target) → good target
  next : ∀ a i, b.get? a = some i → i.opcode ∉ [.jump, .ret, .halt] → good (a + 1)

/-- The calls that have not returned go on at such addresses. -/
def CallStack.ReturnsTo (good : Nat → Prop) (s : CallStack) : Prop :=
  ∀ f ∈ s.frames.dropLast, ∃ a, f.returnTo = some a ∧ good a

namespace CallStack.ReturnsTo

variable {s t : CallStack}

/-- No call is under way at the start. -/
theorem start : CallStack.start.ReturnsTo good := by
  intro f mem
  cases mem

/-- Variables have no part in where calls return to. -/
theorem congr (h : s.ReturnsTo good) (callers : t.callers = s.callers)
    (returnTo : t.active.returnTo = s.active.returnTo) : t.ReturnsTo good := by
  intro f mem
  rw [frames, callers] at mem
  cases below : s.callers with
  | nil =>
      rw [below] at mem
      cases mem
  | cons caller rest =>
      rw [ReturnsTo, frames, below] at h
      rw [below, List.dropLast_cons_cons, List.mem_cons] at mem
      rw [List.dropLast_cons_cons] at h
      rcases mem with rfl | mem
      · rw [returnTo]
        exact h s.active List.mem_cons_self
      · exact h f (List.mem_cons_of_mem _ mem)

/-- A call returns to the address behind it. -/
theorem push (h : s.ReturnsTo good) {a : Nat} (next : good a) :
    (s.push (.returningTo a)).ReturnsTo good := by
  intro f mem
  rw [frames, CallStack.push, List.dropLast_cons_cons, List.mem_cons] at mem
  rcases mem with rfl | mem
  · exact ⟨a, rfl, next⟩
  · exact h f mem

/-- A return goes on at such an address. -/
theorem pop (h : s.ReturnsTo good) {f : Frame} (popped : s.pop? = some (f, t)) :
    good f.returnAddress ∧ t.ReturnsTo good := by
  rw [ReturnsTo, pop?_eq_some_iff.1 popped, frames, List.dropLast_cons_cons] at h
  obtain ⟨a, returnTo, next⟩ := h f List.mem_cons_self
  refine ⟨?_, fun g mem => h g (List.mem_cons_of_mem _ mem)⟩
  rw [Frame.returnAddress, returnTo]
  exact next

end CallStack.ReturnsTo

/-- Control is inside a program, at such an address as long as it moves on, and it returns to such
    addresses. -/
structure Contained (b : Bytecode) (good : Nat → Prop) (s : State σ) : Prop where
  ip : s.ip ≤ b.size
  place : s.status = .running → good s.ip
  returns : s.frames.ReturnsTo good

namespace Contained

variable {s s' : State σ}

/-- A machine is contained at its start if the first address is good. -/
theorem start (host : Builtins σ) (limits : Limits) (first : good 0) :
    Contained b good (State.start host limits) :=
  ⟨Nat.zero_le _, fun _ => first, .start⟩

/-- An instruction that does not fail leads to such an address. -/
theorem transfer (closed : b.Closed good) (inside : ∀ a, good a → a ≤ b.size) {i : Instruction}
    (fetch : b.get? s.ip = some i) (contained : Contained b good s)
    (h : Transfer i.opcode i.operands (Machine.fetched s i) s') : Contained b good s' := by
  have before : s.ip < b.size := (Array.getElem?_eq_some_iff.1 fetch).1
  cases h with
  | next computes same =>
      -- only a halt, a jump or a return may be followed by an address that is not good
      have next : good (s.ip + 1) := by
        refine closed.next _ i fetch fun leaves => computes ?_
        simp only [List.mem_cons, List.not_mem_nil, or_false] at leaves ⊢
        exact leaves.imp_right Or.inr
      refine ⟨?_, fun _ => ?_, contained.returns.congr same.callers same.returnTo⟩
      · rw [same.ip]
        exact before
      · rw [same.ip]
        exact next
  | jump target jumps operand same =>
      have branch : i.opcode.isBranch = true := by
        rcases jumps with jump | jump <;> rw [jump] <;> rfl
      have arrives := closed.target _ i target fetch branch operand
      refine ⟨?_, fun _ => ?_, contained.returns.congr same.callers same.returnTo⟩
      · rw [same.ip]
        exact inside target arrives
      · rw [same.ip]
        exact arrives
  | call target call operand state =>
      have branch : i.opcode.isBranch = true := by rw [call]; rfl
      have arrives := closed.target _ i target fetch branch operand
      have next := closed.next _ i fetch (by rw [call]; decide)
      rw [state]
      exact ⟨inside target arrives, fun _ => arrives, contained.returns.push next⟩
  | ret frame frames ret left state =>
      obtain ⟨arrives, returns⟩ := contained.returns.pop left
      rw [state]
      exact ⟨inside _ arrives, fun _ => arrives, returns⟩
  | halt halt state =>
      rw [state]
      exact ⟨before, nofun, contained.returns⟩

/-- So does a step, unless it fails. -/
theorem step {m : Machine σ} (table : m.table = .standard) (closed : m.program.Closed good)
    (inside : ∀ a, good a → a ≤ m.program.size) (contained : Contained m.program good m.state) :
    Contained m.program good m.step.state := by
  cases halted : m.state.isHalted with
  | true =>
      rw [Machine.step_of_halted halted]
      exact contained
  | false =>
      have running := Machine.isHalted_eq_false_iff.1 halted
      rcases Machine.step_cases table running with ⟨e, failed⟩ | ⟨i, fetch, transfer⟩
      · obtain ⟨frames, -, -, ip⟩ := Machine.step_failed table running failed
        refine ⟨?_, fun goes => ?_, ?_⟩
        · rcases ip with stays | ⟨i, fetch, next⟩
          · rw [stays]
            exact contained.ip
          · rw [next]
            exact (Array.getElem?_eq_some_iff.1 fetch).1
        · rw [failed] at goes
          cases goes
        · rw [frames]
          exact contained.returns
      · exact contained.transfer closed inside fetch transfer

end Contained

/-! ### Checked programs

The check accepts only branches into the program, so the addresses up to its end are closed, and
those before its end are if the last instruction never goes on. Operands of the right kinds rule out
the errors of malformed instructions. -/

/-- A branch of a checked program goes to an address inside. -/
theorem target_inside (checked : b.check = .ok ()) {a target : Nat} {i : Instruction}
    (fetch : b.get? a = some i) (branch : i.opcode.isBranch = true)
    (operand : i.operands[0]? = some (.address target)) : target < b.size := by
  obtain ⟨target', found, inside⟩ := target_of_check checked fetch branch
  obtain ⟨op, operands⟩ := i
  cases operands with
  | nil => cases operand
  | cons first rest =>
      cases operand
      rw [Instruction.target?, if_pos branch] at found
      cases found
      exact inside

/-- In a checked program nothing leads beyond the address behind its last instruction. -/
theorem Bytecode.closed_of_check (checked : b.check = .ok ()) : b.Closed (· ≤ b.size) where
  target _ _ _ fetch branch operand := Nat.le_of_lt (target_inside checked fetch branch operand)
  next _ _ fetch _ := (Array.getElem?_eq_some_iff.1 fetch).1

/-- If the last instruction leaves for good, none is followed by the end of the program. -/
theorem Bytecode.closed_of_last (checked : b.check = .ok ()) {last : Instruction}
    (final : b.code.back? = some last) (leaves : last.opcode ∈ [.halt, .jump, .ret]) :
    b.Closed (· < b.size) where
  target _ _ _ fetch branch operand := target_inside checked fetch branch operand
  next a i fetch goes := by
    have before : a < b.size := (Array.getElem?_eq_some_iff.1 fetch).1
    refine Nat.lt_of_le_of_ne before fun stop => goes ?_
    have position : a = b.code.size - 1 := Nat.eq_sub_of_add_eq stop
    rw [Array.back?, ← position, ← Bytecode.get?, fetch, Option.some.injEq] at final
    subst final
    simp only [List.mem_cons, List.not_mem_nil, or_false] at leaves ⊢
    rcases leaves with halt | jump | ret
    · exact Or.inr (Or.inr halt)
    · exact Or.inl jump
    · exact Or.inr (Or.inl ret)

/-- The errors of a checked program whose control keeps to such addresses. -/
def Bytecode.CheckedFault (b : Bytecode) (good : Nat → Prop) : RuntimeError → Prop
  | .unsupportedInstruction _ => False
  | .malformedInstruction .. => False
  | .invalidAddress address _ => good address ∧ b.size ≤ address
  | _ => True

/-- An instruction of a checked program is supported and well formed. -/
theorem Bytecode.handler_checked (checked : b.check = .ok ()) {s t : State σ} {a : Nat}
    {i : Instruction} (fetch : b.get? a = some i) {e : RuntimeError}
    (failed : Handler.ofOpcode i.opcode i.operands s = .error e t) : b.CheckedFault good e := by
  rcases Handler.ofOpcode_error failed with fault | ⟨k, rfl⟩ | ⟨k, rfl⟩ | ⟨_, _, rfl⟩
  · cases fault with
    | malformed reason kinds => exact kinds (kinds_of_check checked fetch)
    | operator e => cases e <;> trivial
    | _ => trivial
  · trivial
  · trivial
  · trivial

/-- A step of a checked program fails with such an error. -/
theorem Machine.checked_fault {m : Machine σ} (table : m.table = .standard)
    (checked : m.program.check = .ok ()) (running : m.state.status = .running)
    (place : good m.state.ip) {e : RuntimeError} (failed : m.step.state.status = .failed e) :
    m.program.CheckedFault good e := by
  obtain ⟨t, result, -⟩ := execute_of_failed table running failed
  rw [execute_apply] at result
  cases left : m.state.stepLimit? with
  | some limit =>
      rw [left] at result
      cases result
      trivial
  | none =>
      cases fetch : m.program.get? m.state.ip with
      | none =>
          rw [left, fetch] at result
          cases result
          exact ⟨place, Array.getElem?_eq_none_iff.1 fetch⟩
      | some i =>
          have arity : i.operands.length = i.opcode.arity := by
            rw [Opcode.arity, ← kinds_of_check checked fetch, List.length_map]
          simp only [left, fetch, InstructionTable.resolve_standard, if_pos arity] at result
          exact Bytecode.handler_checked checked fetch result

/-! ### Sessions

Steps, runs and registrations of host functions keep control inside, so this holds in every session.
The example runs into the end of a checked program, behind a call that is its last instruction. -/

/-- However a host steps a machine with a checked program, and whatever functions it registers in
    between: control keeps to such addresses, and errors are those of a checked program. -/
theorem Session.contained (checked : b.check = .ok ()) (closed : b.Closed good)
    (inside : ∀ a, good a → a ≤ b.size) (first : good 0) {host : Builtins σ} {limits : Limits}
    {m : Machine σ} {past : List (Machine σ)} (session : Session (.start b host limits) past m) :
    Contained b good m.state ∧ ∀ e, m.state.status = .failed e → b.CheckedFault good e := by
  induction session with
  | start => exact ⟨.start host limits first, nofun⟩
  | @step past m before ih =>
      obtain ⟨contained, faults⟩ := ih
      have program : m.program = b := before.program
      have table : m.table = .standard := before.table
      subst program
      refine ⟨contained.step table closed inside, fun e failed => ?_⟩
      cases halted : m.state.isHalted with
      | true =>
          rw [Machine.step_of_halted halted] at failed
          exact faults e failed
      | false =>
          have running := Machine.isHalted_eq_false_iff.1 halted
          exact Machine.checked_fault table checked running (contained.place running) failed
  | register before name f ih =>
      obtain ⟨contained, faults⟩ := ih
      exact ⟨⟨contained.ip, contained.place, contained.returns⟩, faults⟩

/-- A checked program stays inside. Its instruction pointer never gets beyond the end, no
    instruction is malformed or unsupported, and a fetch fails only at the end; it never fails if
    the last instruction is a halt, a jump or a return. -/
theorem checked_stays_inside (checked : b.check = .ok ()) {host : Builtins σ} {limits : Limits}
    {m : Machine σ} {past : List (Machine σ)} (session : Session (.start b host limits) past m) :
    m.state.ip ≤ b.size ∧
      (∀ name, m.outcome ≠ .error (.unsupportedInstruction name)) ∧
      (∀ address opcode reason,
        m.outcome ≠ .error (.malformedInstruction address opcode reason)) ∧
      ∀ address size, m.outcome = .error (.invalidAddress address size) →
        address = b.size ∧
          ∀ last, b.code.back? = some last → last.opcode ∉ [.halt, .jump, .ret] := by
  obtain ⟨contained, faults⟩ := session.contained checked (Bytecode.closed_of_check checked)
    (fun _ inside => inside) (Nat.zero_le _)
  refine ⟨contained.ip, fun name failed => ?_, fun address opcode reason failed => ?_,
    fun address size failed => ⟨?_, fun last final leaves => ?_⟩⟩
  · exact faults _ (Machine.failed_of_outcome failed)
  · exact faults _ (Machine.failed_of_outcome failed)
  · obtain ⟨below, above⟩ := faults _ (Machine.failed_of_outcome failed)
    exact Nat.le_antisymm below above
  · have nonempty : 0 < b.size := by
      rw [Array.back?] at final
      have found := (Array.getElem?_eq_some_iff.1 final).1
      exact Nat.lt_of_le_of_lt (Nat.zero_le _) found
    have strict := session.contained checked (Bytecode.closed_of_last checked final leaves)
      (fun _ inside => Nat.le_of_lt inside) nonempty
    obtain ⟨below, above⟩ := strict.2 _ (Machine.failed_of_outcome failed)
    exact Nat.not_lt_of_le above below

/-- A function, and behind it a call of it as the last instruction. -/
def Bytecode.callAtEnd : Bytecode := ⟨#[.jump 2, .plain .ret, .call 1], NameTable.empty⟩

/-- The call returns to the end of the program. -/
theorem checked_stays_inside_callAtEnd :
    ∃ (past : List (Machine Unit)) (m : Machine Unit),
      Session (.start .callAtEnd (Builtins.empty ()) .unbounded) past m ∧
      m.outcome = .error (.invalidAddress 3 3) ∧ m.state.ip ≤ Bytecode.callAtEnd.size ∧
      3 = Bytecode.callAtEnd.size ∧
      ∀ last, Bytecode.callAtEnd.code.back? = some last → last.opcode ∉ [.halt, .jump, .ret] := by
  have session : Session (.start .callAtEnd (Builtins.empty ()) .unbounded) _ _ :=
    Session.start.step.step.step.step
  obtain ⟨inside, -, -, address⟩ := checked_stays_inside (b := .callAtEnd) rfl session
  exact ⟨_, _, session, rfl, inside, address 3 3 rfl⟩

end ImpStack
