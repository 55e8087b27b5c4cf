/-
Module: ImpStack.Machine.State
Purpose: What an instruction may read and change: the instruction pointer, the two stacks, the host
  functions, the counters. The program itself is no part of it.
Main exports: Status, Stats, State, Exec, push, pop, jump, enter, leave, malformed
-/
import ImpStack.Machine.Builtins
import ImpStack.Machine.Frame
import ImpStack.Machine.Limits

namespace ImpStack

/-- Whether a machine goes on. -/
inductive Status where
  /-- It does. -/
  | running
  /-- It was halted by an instruction. -/
  | halted
  /-- It was stopped by an error, the first one. -/
  | failed (e : RuntimeError)
deriving DecidableEq, Inhabited

/-- What a run counts. -/
structure Stats where
  /-- The instructions that were fetched. -/
  steps : Nat
  calls : Nat
  returns : Nat
  /-- The greatest number of frames at a time. -/
  maxDepth : Nat
deriving DecidableEq, Inhabited

/-- The state of a machine whose host has states of type `σ`. -/
structure State (σ : Type) where
  /-- The address of the next instruction. -/
  ip : Nat
  /-- The operand stack, its top first. -/
  stack : List Value
  frames : CallStack
  status : Status
  builtins : Builtins σ
  limits : Limits
  stats : Stats
  /-- The address of the instruction that was fetched last. -/
  fetchedAt : Nat
  /-- The opcode of the instruction that was fetched last. -/
  opcode : Opcode

/-- The state before the first instruction. -/
def State.start {σ : Type} (builtins : Builtins σ) (limits : Limits) : State σ where
  ip := 0
  stack := []
  frames := .start
  status := .running
  builtins := builtins
  limits := limits
  stats := ⟨0, 0, 0, 1⟩
  fetchedAt := 0
  opcode := .halt

namespace State

variable {σ : Type}

/-- Whether no instruction will be fetched any more. -/
def isHalted (s : State σ) : Bool :=
  match s.status with
  | .running => false
  | _ => true

/-- The error that stopped the machine, if one did. -/
def error? (s : State σ) : Option RuntimeError :=
  match s.status with
  | .failed e => some e
  | _ => none

/-- The bound on the number of instructions, if it is used up. -/
def stepLimit? (s : State σ) : Option Nat := s.limits.maxSteps.filter (· ≤ s.stats.steps)

/-- The bound on the operand stack, if it is used up. -/
def stackLimit? (s : State σ) : Option Nat := s.limits.maxStack.filter (· ≤ s.stack.length)

/-- The bound on the number of frames, if it is used up. -/
def frameLimit? (s : State σ) : Option Nat := s.limits.maxFrames.filter (· ≤ s.frames.depth)

end State

/-- A part of an instruction's work. An error keeps the state that it arose in. -/
abbrev Exec (σ : Type) := EStateM RuntimeError (State σ)

namespace Exec

variable {σ : Type}

/-- Fail because of the operands of the instruction. -/
def malformed {α : Type} (reason : String) : Exec σ α := do
  let s ← get
  throw (.malformedInstruction s.fetchedAt s.opcode reason)

/-- Push a value, unless the operand stack is as high as allowed. -/
def push (v : Value) : Exec σ Unit := do
  let s ← get
  match s.stackLimit? with
  | some limit => throw (.stackOverflow limit)
  | none => set { s with stack := v :: s.stack }

/-- Pop a value. -/
def pop : Exec σ Value := do
  let s ← get
  match s.stack with
  | [] => throw (.stackUnderflow .operand s.opcode)
  | v :: rest => do
    set { s with stack := rest }
    pure v

/-- Go on at an address. -/
def jump (target : Nat) : Exec σ Unit := modify fun s => { s with ip := target }

/-- Fetch no further instruction. -/
def halt : Exec σ Unit := modify fun s => { s with status := .halted }

/-- Set a variable of the active frame. -/
def bind (name : String) (v : Value) : Exec σ Unit :=
  modify fun s => { s with frames := s.frames.setActive (s.frames.active.bind name v) }

/-- Enter a frame, unless as many are open as allowed. -/
def enter (frame : Frame) : Exec σ Unit := do
  let s ← get
  match s.frameLimit? with
  | some limit => throw (.frameLimitExceeded limit)
  | none =>
    let frames := s.frames.push frame
    let stats :=
      { s.stats with calls := s.stats.calls + 1, maxDepth := max s.stats.maxDepth frames.depth }
    set { s with frames, stats }

/-- Leave the active frame; the outermost one is never left. -/
def leave : Exec σ Frame := do
  let s ← get
  match s.frames.pop? with
  | none => throw (.stackUnderflow .frame s.opcode)
  | some (frame, frames) => do
    set { s with frames, stats := { s.stats with returns := s.stats.returns + 1 } }
    pure frame

/-- Call a host function; a failure keeps what the function did to the state of the host. -/
def callBuiltin (name : String) (args : List Value) : Exec σ Value := do
  let s ← get
  let (result, builtins) := s.builtins.call name args
  set { s with builtins }
  match result with
  | .ok v => pure v
  | .error e => throw e

end Exec

end ImpStack
