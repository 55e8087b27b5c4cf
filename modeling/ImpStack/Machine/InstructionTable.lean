/-
Module: ImpStack.Machine.InstructionTable
Purpose: The handlers of a machine by the name of the opcode. A machine may be given other handlers
  than the standard ones, or none for some opcodes.
Main exports: Descriptor, InstructionTable, InstructionTable.standard, InstructionTable.resolve
-/
import ImpStack.Machine.Handler

namespace ImpStack

/-- A handler and the number of immediate operands that its instructions carry. -/
structure Descriptor (σ : Type) where
  arity : Nat
  handler : Handler σ

/-- Handlers by the name of the opcode. -/
structure InstructionTable (σ : Type) where
  descriptors : NameTable (Descriptor σ)

namespace InstructionTable

variable {σ : Type}

/-- The table without handlers. -/
def empty : InstructionTable σ := ⟨NameTable.empty⟩

/-- Register a handler in place of any other one of its name. -/
def register (t : InstructionTable σ) (name : String) (d : Descriptor σ) : InstructionTable σ :=
  ⟨t.descriptors.insert name d⟩

/-- The table with the standard handler of every opcode. -/
def standard : InstructionTable σ :=
  ⟨NameTable.ofList (Opcode.all.map fun op => (op.name, ⟨op.arity, Handler.ofOpcode op⟩))⟩

/-- The handler of a name. -/
def resolve (t : InstructionTable σ) (name : String) : Except RuntimeError (Descriptor σ) :=
  match t.descriptors.find? name with
  | some d => .ok d
  | none => .error (.unsupportedInstruction name)

/-- The number of names with a handler. -/
def size (t : InstructionTable σ) : Nat := t.descriptors.size

/-- Whether no name has a handler. -/
def isEmpty (t : InstructionTable σ) : Bool := t.descriptors.isEmpty

end InstructionTable

end ImpStack
