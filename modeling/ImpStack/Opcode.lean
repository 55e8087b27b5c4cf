/-
Module: ImpStack.Opcode
Purpose: The instruction set of the stack machine: names, operand kinds, branches.
Main exports: Opcode, Opcode.all, Opcode.name, Opcode.ofName?, Opcode.operandKinds, Opcode.arity,
  Opcode.isBranch, OperandKind
-/

namespace ImpStack

/-- The kinds of immediate operands. -/
inductive OperandKind where
  | value
  | name
  | address
  | count
deriving DecidableEq, Inhabited

/-- The word for a kind of operand in error texts. -/
def OperandKind.text : OperandKind → String
  | value => "value"
  | name => "name"
  | address => "address"
  | count => "count"

/-- The operations of the machine. -/
inductive Opcode where
  /-- Push the operand. -/
  | push
  /-- Drop the top value. -/
  | pop
  /-- Push the top value again. -/
  | dup
  | add
  | sub
  | mul
  | div
  | and
  | or
  | not
  | isEq
  | isGt
  | isGe
  /-- Go to the operand's address. -/
  | jump
  /-- Pop a condition and go to the operand's address if it is true. -/
  | jumpIf
  /-- Push the value of a variable of the active frame. -/
  | load
  /-- Pop into a variable of the active frame. -/
  | store
  /-- Enter a new frame at the operand's address. -/
  | call
  /-- Leave the active frame. -/
  | ret
  /-- Call a host function with the operand's number of arguments. -/
  | func
  | halt
deriving DecidableEq, Inhabited

namespace Opcode

/-- Every opcode, in the order in which the instruction set lists them. -/
def all : List Opcode :=
  [push, pop, dup, add, sub, mul, div, and, or, not, isEq, isGt, isGe, jump, jumpIf, load, store,
   call, ret, func, halt]

/-- The name of the opcode in listings, error texts and instruction tables. -/
def name : Opcode → String
  | push => "PUSH"
  | pop => "POP"
  | dup => "DUP"
  | add => "ADD"
  | sub => "SUB"
  | mul => "MUL"
  | div => "DIV"
  | and => "AND"
  | or => "OR"
  | not => "NOT"
  | isEq => "ISEQ"
  | isGt => "ISGT"
  | isGe => "ISGE"
  | jump => "JUMP"
  | jumpIf => "JUMP_IF"
  | load => "LOAD"
  | store => "STORE"
  | call => "CALL"
  | ret => "RET"
  | func => "FUNC"
  | halt => "HALT"

/-- The opcode of this name; upper and lower case differ. -/
def ofName? (s : String) : Option Opcode := all.find? (·.name == s)

/-- The kinds of the operands that an instruction with this opcode carries, in order. -/
def operandKinds : Opcode → List OperandKind
  | push => [.value]
  | load | store => [.name]
  | jump | jumpIf | call => [.address]
  | func => [.name, .count]
  | _ => []

/-- The number of operands that an instruction with this opcode carries. -/
def arity (op : Opcode) : Nat := op.operandKinds.length

/-- Whether the opcode's operand is a code address. -/
def isBranch : Opcode → Bool
  | jump | jumpIf | call => true
  | _ => false

end Opcode

end ImpStack
