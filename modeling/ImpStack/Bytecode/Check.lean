/-
Module: ImpStack.Bytecode.Check
Purpose: The static check of a sequence of instructions: operand counts, operand kinds, branch
  targets, function entries.
Main exports: BytecodeError, BytecodeError.message, Bytecode.checkInstruction, Bytecode.check
-/
import ImpStack.Bytecode

namespace ImpStack

/-- What is wrong with a sequence of instructions. -/
inductive BytecodeError where
  /-- An instruction has not as many operands as its opcode takes. -/
  | arityMismatch (address : Nat) (opcode : Opcode) (expected found : Nat)
  /-- An operand is of another kind than its opcode takes. -/
  | operandKind (address : Nat) (opcode : Opcode) (index : Nat) (expected found : OperandKind)
  /-- A branch leaves the program. -/
  | invalidTarget (address : Nat) (opcode : Opcode) (target size : Nat)
  /-- A function entry lies outside the program. -/
  | invalidEntry (name : String) (entry size : Nat)
deriving DecidableEq, Inhabited

/-- The text of a fault in a sequence of instructions. -/
def BytecodeError.message : BytecodeError → String
  | arityMismatch address opcode expected found =>
    opcode.name ++ " at " ++ Text.addressText address ++ " expects " ++ toString expected ++
      " operand(s), found " ++ toString found
  | operandKind address opcode index expected found =>
    opcode.name ++ " at " ++ Text.addressText address ++ ": operand " ++ toString index ++
      " should be " ++ expected.text ++ ", found " ++ found.text
  | invalidTarget address opcode target size =>
    opcode.name ++ " at " ++ Text.addressText address ++ " targets " ++ Text.addressText target ++
      ", outside the program (len " ++ toString size ++ ")"
  | invalidEntry name entry size =>
    "function '" ++ name ++ "' entry " ++ Text.addressText entry ++
      " is outside the program (len " ++ toString size ++ ")"

namespace Bytecode

/-- The first operand of an instruction whose kind is not the one that the opcode takes in its
    place: its position, the kind taken and the kind found. -/
def mismatch? : Nat → List OperandKind → List Operand → Option (Nat × OperandKind × OperandKind)
  | index, expected :: kinds, operand :: operands =>
    if operand.kind = expected then mismatch? (index + 1) kinds operands
    else some (index, expected, operand.kind)
  | _, _, _ => none

/-- Check one instruction of a program of `size` instructions: first the number of its operands,
    then their kinds from left to right, then its target. -/
def checkInstruction (size address : Nat) (i : Instruction) : Except BytecodeError Unit :=
  if i.operands.length ≠ i.opcode.arity then
    .error (.arityMismatch address i.opcode i.opcode.arity i.operands.length)
  else
    match mismatch? 0 i.opcode.operandKinds i.operands with
    | some (index, expected, found) =>
      .error (.operandKind address i.opcode index expected found)
    | none =>
      match i.target? with
      | some target =>
        if target < size then .ok () else .error (.invalidTarget address i.opcode target size)
      | none => .ok ()

/-- Check instructions that follow each other from an address on. -/
def checkFrom (size : Nat) : Nat → List Instruction → Except BytecodeError Unit
  | _, [] => .ok ()
  | address, i :: rest => do
    checkInstruction size address i
    checkFrom size (address + 1) rest

/-- Check that function entries lie in a program of `size` instructions. -/
def checkEntries (size : Nat) : List (String × Nat) → Except BytecodeError Unit
  | [] => .ok ()
  | (name, entry) :: rest =>
    if entry < size then checkEntries size rest else .error (.invalidEntry name entry size)

/-- Check a program: its instructions by ascending address, then its function entries; the first
    fault decides. -/
def check (b : Bytecode) : Except BytecodeError Unit := do
  checkFrom b.size 0 b.code.toList
  checkEntries b.size b.functions.entries

end Bytecode

end ImpStack
