/-
Module: ImpStack.Proofs.Session
Purpose: What a host can do with a machine: let it step, let it run, and register functions in
  between. Whatever it does, the machine keeps its program and its handlers, and functions that are
  registered stay so.
Main exports: Session, Session.run, Session.steps, Session.contains
-/
import ImpStack.Proofs.HostCalls

namespace ImpStack

variable {σ : Type}

/-- A host has brought a machine from `first` to `m` by steps and registrations; the machines that
    it had on the way are `past`, the latest one first. -/
inductive Session (first : Machine σ) : List (Machine σ) → Machine σ → Prop where
  | start : Session first [] first
  | step {past : List (Machine σ)} {m : Machine σ} (before : Session first past m) :
      Session first (m :: past) m.step
  | register {past : List (Machine σ)} {m : Machine σ} (before : Session first past m)
      (name : String) (f : HostFunction σ) : Session first (m :: past) (m.register name f)

namespace Session

variable {first m m' : Machine σ} {past : List (Machine σ)}

/-- Any number of steps. -/
theorem steps (h : Session first past m) (n : Nat) :
    ∃ passed, Session first (passed ++ past) (m.after n) := by
  induction n with
  | zero => exact ⟨[], h⟩
  | succ n ih =>
      obtain ⟨passed, before⟩ := ih
      exact ⟨m.after n :: passed, before.step⟩

/-- To run a machine is to step it until it is halted. -/
theorem run (h : Session first past m) {fuel : Nat} (run : m.run fuel = some m') :
    ∃ passed, Session first (passed ++ past) m' := by
  obtain ⟨rfl, _⟩ := Machine.run_eq_some_iff.1 run
  exact h.steps fuel

theorem program (h : Session first past m) : m.program = first.program := by
  induction h with
  | start => rfl
  | step before ih => rw [Machine.step_program, ih]
  | register before name f ih => exact ih

theorem table (h : Session first past m) : m.table = first.table := by
  induction h with
  | start => rfl
  | step before ih => rw [Machine.step_table, ih]
  | register before name f ih => exact ih

end Session

/-! ### Registered functions

Functions of the host are added or replaced, never removed, and calls of the host change its state
only. So a name that the host has once is there for the rest of the session. -/

namespace Builtins

theorem functions_replay (calls : List HostCall) :
    ∀ b : Builtins σ, (b.replay calls).functions = b.functions := by
  induction calls with
  | nil => exact fun _ => rfl
  | cons c rest ih =>
      intro b
      rw [replay, ih, Exec.call_functions]

/-- Registering a function removes none. -/
theorem contains_register {b : Builtins σ} {name : String} (f : HostFunction σ) {x : String}
    (h : b.contains x = true) : (b.register name f).contains x = true := by
  exact (NameTable.contains_insert f).2 (Or.inr h)

/-- The names that a program is compiled against are those of the registered functions. -/
theorem mem_names {b : Builtins σ} {name : String} : name ∈ b.names ↔ b.contains name = true := by
  rw [names, NameTable.sortedNames, NameTable.sorted, List.mem_map, contains,
    NameTable.contains_iff, NameTable.names, List.mem_map]
  simp only [List.mem_mergeSort]

end Builtins

/-- Functions that are registered stay so. -/
theorem Session.contains {first m : Machine σ} {past : List (Machine σ)}
    (h : Session first past m) (table : first.table = .standard) {name : String}
    (registered : first.state.builtins.contains name = true) :
    m.state.builtins.contains name = true := by
  induction h with
  | start => exact registered
  | step before ih =>
      rw [Machine.step_host (before.table.trans table), Builtins.contains,
        Builtins.functions_replay]
      exact ih
  | register before other f ih => exact Builtins.contains_register f ih

end ImpStack
