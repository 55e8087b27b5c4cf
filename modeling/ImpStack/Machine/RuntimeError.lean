/-
Module: ImpStack.Machine.RuntimeError
Purpose: Why a machine stops before a halt.
Main exports: StackKind, RuntimeError, RuntimeError.message, RuntimeError.ofOperator
-/
import ImpStack.Opcode
import ImpStack.Text.Padded
import ImpStack.Value.Operator

namespace ImpStack

/-- The two stacks of the machine. -/
inductive StackKind where
  /-- The stack of values. -/
  | operand
  /-- The stack of calls. -/
  | frame
deriving DecidableEq, Inhabited

/-- The words for a stack in error texts. -/
def StackKind.text : StackKind → String
  | operand => "operand stack"
  | frame => "call-frame stack"

/-- Why a machine stops before a halt. -/
inductive RuntimeError where
  /-- The instruction table has no handler for an opcode. -/
  | unsupportedInstruction (name : String)
  /-- The operands of an instruction are not those that its handler takes. -/
  | malformedInstruction (address : Nat) (opcode : Opcode) (reason : String)
  /-- Nothing is left to pop; of the calls, the outermost one is never left. -/
  | stackUnderflow (stack : StackKind) (opcode : Opcode)
  /-- A variable has no value in the active frame. -/
  | unboundVariable (name : String)
  /-- No host function has this name. -/
  | unknownBuiltin (name : String)
  /-- A host function failed. -/
  | builtin (name message : String)
  /-- The operands have types that the operator does not combine. -/
  | typeMismatch (opcode : Opcode) (left right : String)
  /-- A divisor is zero. -/
  | divisionByZero
  /-- An integer result lies outside the signed 64-bit range. -/
  | integerOverflow (opcode : Opcode)
  /-- The next instruction lies outside the program. -/
  | invalidAddress (address size : Nat)
  /-- As many instructions as allowed were executed. -/
  | stepLimitExceeded (limit : Nat)
  /-- As many calls as allowed are open. -/
  | frameLimitExceeded (limit : Nat)
  /-- The operand stack is as high as allowed. -/
  | stackOverflow (limit : Nat)
deriving DecidableEq, Inhabited

namespace RuntimeError

/-- The text of a runtime error after the words that all of them start with. -/
def detail : RuntimeError → String
  | unsupportedInstruction name => "instruction '" ++ name ++ "' is not supported"
  | malformedInstruction address opcode reason =>
    "malformed " ++ opcode.name ++ " at " ++ Text.addressText address ++ ": " ++ reason
  | stackUnderflow stack opcode => opcode.name ++ " underflowed the " ++ stack.text
  | unboundVariable name => "variable '" ++ name ++ "' is not bound in the current frame"
  | unknownBuiltin name => "unknown builtin '" ++ name ++ "'"
  | builtin name message => "builtin '" ++ name ++ "' failed: " ++ message
  | typeMismatch opcode left right =>
    "type error: cannot apply " ++ opcode.name ++ " to " ++ left ++ " and " ++ right
  | divisionByZero => "division by zero"
  | integerOverflow opcode => "integer overflow in " ++ opcode.name
  | invalidAddress address size =>
    "instruction pointer " ++ Text.addressText address ++ " is outside the program (len " ++
      toString size ++ ")"
  | stepLimitExceeded limit => "execution step limit exceeded (" ++ toString limit ++ ")"
  | frameLimitExceeded limit =>
    "call depth limit exceeded (" ++ toString limit ++ ") - possible infinite recursion"
  | stackOverflow limit => "operand stack size limit exceeded (" ++ toString limit ++ ")"

/-- The text of a runtime error. -/
def message (e : RuntimeError) : String := "runtime error: " ++ e.detail

/-- The error of an operator in the instruction that applied it. -/
def ofOperator (opcode : Opcode) : OperatorError → RuntimeError
  | .overflow => integerOverflow opcode
  | .divisionByZero => divisionByZero
  | .typeMismatch left right => typeMismatch opcode left right

end RuntimeError

end ImpStack
