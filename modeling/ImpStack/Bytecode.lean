/-
Module: ImpStack.Bytecode
Purpose: Compiled programs: a flat sequence of instructions, addressed by position, and the entry
  addresses of its functions.
Main exports: Bytecode, Bytecode.size, Bytecode.get?, Bytecode.functionAt?
-/
import ImpStack.Instruction
import ImpStack.NameTable

namespace ImpStack

/-- A sequence of instructions with a table of function entries. The table serves listings; the
    machine does not read it. -/
structure Bytecode where
  /-- The instructions; an address is a position in this array. -/
  code : Array Instruction
  /-- The entry addresses of the functions, in order of declaration. -/
  functions : NameTable Nat
deriving DecidableEq, Inhabited

namespace Bytecode

/-- The number of instructions. -/
def size (b : Bytecode) : Nat := b.code.size

/-- Whether there is no instruction. -/
def isEmpty (b : Bytecode) : Bool := b.code.isEmpty

/-- The instruction at an address. -/
def get? (b : Bytecode) (address : Nat) : Option Instruction := b.code[address]?

/-- The name of the first function in the table whose entry is this address. -/
def functionAt? (b : Bytecode) (address : Nat) : Option String :=
  (b.functions.entries.find? (·.2 == address)).map (·.1)

end Bytecode

end ImpStack
