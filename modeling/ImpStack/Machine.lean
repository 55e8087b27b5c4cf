/-
Module: ImpStack.Machine
Purpose: The stack machine: one instruction after the other is fetched and handed to its handler,
  until a halt or the first error, which is final.
Main exports: Machine, Machine.start, Machine.execute, Machine.step, Machine.run, Machine.outcome
-/
import ImpStack.Bytecode
import ImpStack.Machine.InstructionTable

namespace ImpStack

/-- A program, the handlers that run it, and how far it has come. -/
structure Machine (σ : Type) where
  program : Bytecode
  table : InstructionTable σ
  state : State σ

namespace Machine

variable {σ : Type}

/-- A machine with the standard handlers before its first instruction. -/
def start (program : Bytecode) (builtins : Builtins σ) (limits : Limits) : Machine σ :=
  ⟨program, .standard, .start builtins limits⟩

/-- Count an instruction, keep its place and opcode, and go past it. -/
def fetched (s : State σ) (i : Instruction) : State σ :=
  { s with
    ip := s.ip + 1
    stats := { s.stats with steps := s.stats.steps + 1 }
    fetchedAt := s.ip
    opcode := i.opcode }

/-- Fetch an instruction and hand it to its handler. The bound on steps is looked at before the
    fetch; a failed fetch changes nothing. -/
def execute (program : Bytecode) (table : InstructionTable σ) : Exec σ Unit := do
  let s ← get
  match s.stepLimit? with
  | some limit => throw (.stepLimitExceeded limit)
  | none =>
    match program.get? s.ip with
    | none => throw (.invalidAddress s.ip program.size)
    | some i => do
      set (fetched s i)
      match table.resolve i.opcode.name with
      | .error e => throw e
      | .ok d =>
        if i.operands.length = d.arity then d.handler i.operands
        else
          Exec.malformed ("expected " ++ toString d.arity ++ " operand(s), found " ++
            toString i.operands.length)

/-- What step and run report: the error that stopped the machine, if one did. -/
def outcome (m : Machine σ) : Except RuntimeError Unit :=
  match m.state.error? with
  | some e => .error e
  | none => .ok ()

/-- Execute one instruction; an error is final. A machine that does not run stays as it is. -/
def step (m : Machine σ) : Machine σ :=
  if m.state.isHalted then m
  else
    match execute m.program m.table m.state with
    | .ok _ s => { m with state := s }
    | .error e s => { m with state := { s with status := .failed e } }

/-- Step until the machine does not run any more; nothing if that takes more steps than `fuel`. -/
def run (fuel : Nat) (m : Machine σ) : Option (Machine σ) :=
  if m.state.isHalted then some m
  else
    match fuel with
    | 0 => none
    | fuel + 1 => run fuel m.step

/-- Register a host function while the machine may already have run. -/
def register (m : Machine σ) (name : String) (f : HostFunction σ) : Machine σ :=
  { m with state := { m.state with builtins := m.state.builtins.register name f } }

/-- The variables of the top-level statements, by name. -/
def globals (m : Machine σ) : List (String × Value) :=
  m.state.frames.outermost.variables.sorted

end Machine

end ImpStack
