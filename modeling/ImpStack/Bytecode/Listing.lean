/-
Module: ImpStack.Bytecode.Listing
Purpose: Programs as text, an instruction a line, with labels at function entries and marks at
  branch targets; and how often each opcode occurs.
Main exports: Bytecode.targets, Bytecode.instructionText, Bytecode.listing, Bytecode.opcodeCounts
-/
import ImpStack.Bytecode

namespace ImpStack.Bytecode

/-- The addresses that some branch of the program names. -/
def targets (b : Bytecode) : List Nat := b.code.toList.filterMap Instruction.target?

/-- An opcode in the column before its operands. -/
def column (op : Opcode) : String := Text.padRight 10 op.name

/-- The text of the instruction at an address. A call shows the function that it enters, another
    branch whether it goes back or forward. -/
def instructionText (b : Bytecode) (address : Nat) (i : Instruction) : String :=
  match i.target? with
  | some target =>
    if i.opcode = .call then
      column i.opcode ++ Text.addressText target ++
        match b.functionAt? target with
        | some name => " ; " ++ name
        | none => ""
    else
      column i.opcode ++ Text.addressText target ++ if target ≤ address then " ↑" else " ↓"
  | none =>
    if i.operands.isEmpty then i.opcode.name
    else column i.opcode ++ String.intercalate " " (i.operands.map Operand.text)

/-- The line before a branch target that is no function entry. -/
def separator : String := "      ┌──────────────────────────────────\n"

/-- The lines of the instruction at an address, given the branch targets of the program: a label or
    a separator if the address has one, and the instruction with a mark if it is a target. -/
def lineText (b : Bytecode) (targets : List Nat) (address : Nat) (i : Instruction) : String :=
  let isTarget := targets.contains address
  let above :=
    match b.functionAt? address with
    | some name => name ++ ":\n"
    | none => if isTarget then separator else ""
  above ++ Text.addressText address ++ (if isTarget then " ► " else "   ") ++
    b.instructionText address i ++ "\n"

/-- The text of instructions that follow each other from an address on. -/
def listingFrom (b : Bytecode) (targets : List Nat) : Nat → List Instruction → String
  | _, [] => ""
  | address, i :: rest => b.lineText targets address i ++ b.listingFrom targets (address + 1) rest

/-- The text of a program. -/
def listing (b : Bytecode) : String := b.listingFrom b.targets 0 b.code.toList

/-- How often each opcode occurs, in the order of the instruction set, without those that do not
    occur. -/
def opcodeCounts (b : Bytecode) : List (Opcode × Nat) :=
  (Opcode.all.map fun op => (op, b.code.toList.countP (·.opcode = op))).filter (0 < ·.2)

end ImpStack.Bytecode
