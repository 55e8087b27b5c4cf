/-
Module: ImpStack.Instruction
Purpose: Instructions with their immediate operands. An instruction may carry operands of any number
  and kind; whether they suit its opcode is checked elsewhere.
Main exports: Operand, Operand.kind, Operand.text, Instruction, Instruction.target?,
  Instruction.retarget?
-/
import ImpStack.Opcode
import ImpStack.Value.Text
import ImpStack.Text.Padded
import ImpStack.Text.Quoted

namespace ImpStack

/-- An immediate operand. -/
inductive Operand where
  /-- A constant. -/
  | value (v : Value)
  /-- The name of a variable or of a host function. -/
  | name (s : String)
  /-- A code address. -/
  | address (a : Nat)
  /-- A number of arguments. -/
  | count (n : Nat)
deriving DecidableEq, Inhabited

namespace Operand

/-- The kind of an operand. -/
def kind : Operand → OperandKind
  | value _ => .value
  | name _ => .name
  | address _ => .address
  | count _ => .count

/-- The constant that an operand is, if it is one. -/
def value? : Operand → Option Value
  | value v => some v
  | _ => none

/-- The name that an operand is, if it is one. -/
def name? : Operand → Option String
  | name s => some s
  | _ => none

/-- The address that an operand is, if it is one. -/
def address? : Operand → Option Nat
  | address a => some a
  | _ => none

/-- The number of arguments that an operand is, if it is one. -/
def count? : Operand → Option Nat
  | count n => some n
  | _ => none

/-- The text of an operand in a listing: text constants are quoted, names are not. -/
def text : Operand → String
  | value (.str s) => Text.quote s
  | value v => v.text
  | name s => s
  | address a => Text.addressText a
  | count n => toString n

end Operand

/-- An opcode with its operands. -/
structure Instruction where
  opcode : Opcode
  operands : List Operand
deriving DecidableEq, Inhabited

namespace Instruction

/-- An instruction without operands. -/
def plain (op : Opcode) : Instruction := ⟨op, []⟩

/-- Push a constant. -/
def push (v : Value) : Instruction := ⟨.push, [.value v]⟩

/-- Push a variable. -/
def load (name : String) : Instruction := ⟨.load, [.name name]⟩

/-- Pop into a variable. -/
def store (name : String) : Instruction := ⟨.store, [.name name]⟩

/-- Go to an address. -/
def jump (target : Nat) : Instruction := ⟨.jump, [.address target]⟩

/-- Go to an address if the popped condition is true. -/
def jumpIf (target : Nat) : Instruction := ⟨.jumpIf, [.address target]⟩

/-- Enter a function of the program. -/
def call (entry : Nat) : Instruction := ⟨.call, [.address entry]⟩

/-- Call a host function. -/
def func (name : String) (argumentCount : Nat) : Instruction :=
  ⟨.func, [.name name, .count argumentCount]⟩

/-- The code address of a branch; a branch whose first operand is no address has none. -/
def target? (i : Instruction) : Option Nat :=
  if i.opcode.isBranch then
    match i.operands with
    | .address target :: _ => some target
    | _ => none
  else none

/-- The same branch with another code address; nothing if the instruction has no code address. -/
def retarget? (i : Instruction) (target : Nat) : Option Instruction :=
  if i.opcode.isBranch then
    match i.operands with
    | .address _ :: rest => some ⟨i.opcode, .address target :: rest⟩
    | _ => none
  else none

end Instruction

end ImpStack
