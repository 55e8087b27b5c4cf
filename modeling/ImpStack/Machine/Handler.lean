/-
Module: ImpStack.Machine.Handler
Purpose: What each opcode does. A handler finds the instruction pointer already past its
  instruction; of two operands on the stack the left one was pushed first.
Main exports: Handler, Handler.ofOpcode
-/
import ImpStack.Instruction
import ImpStack.Machine.State

namespace ImpStack

/-- The work of an instruction, given its immediate operands. -/
abbrev Handler (σ : Type) := List Operand → Exec σ Unit

namespace Handler

variable {σ : Type}

/-! ### Immediate operands -/

/-- The immediate operand at a position, which has to be of a kind. -/
def operand {α : Type} (index : Nat) (kind : OperandKind) (read? : Operand → Option α)
    (operands : List Operand) : Exec σ α :=
  match operands[index]? with
  | none => Exec.malformed ("missing operand " ++ toString index)
  | some found =>
    match read? found with
    | some a => pure a
    | none =>
      Exec.malformed ("expected " ++ kind.text ++ " operand, found " ++ found.kind.text)

/-- The constant of an instruction. -/
def valueOperand : List Operand → Exec σ Value := operand 0 .value Operand.value?

/-- The variable or host function of an instruction. -/
def nameOperand : List Operand → Exec σ String := operand 0 .name Operand.name?

/-- The code address of an instruction. -/
def addressOperand : List Operand → Exec σ Nat := operand 0 .address Operand.address?

/-- The number of arguments of an instruction. -/
def countOperand : List Operand → Exec σ Nat := operand 1 .count Operand.count?

/-! ### Values -/

/-- Push the constant. -/
def push : Handler σ := fun operands => do
  Exec.push (← valueOperand operands)

/-- Drop the top value. -/
def pop : Handler σ := fun _ => do
  let _ ← Exec.pop

/-- Replace the top value by two of it. -/
def dup : Handler σ := fun _ => do
  let top ← Exec.pop
  Exec.push top
  Exec.push top

/-- Replace the two top values by what an operator makes of them. -/
def binary (op : Value → Value → Except OperatorError Value) : Handler σ := fun _ => do
  let right ← Exec.pop
  let left ← Exec.pop
  match op left right with
  | .ok v => Exec.push v
  | .error e => do
    let s ← get
    throw (.ofOperator s.opcode e)

/-- Replace the two top values by a truth value that depends on theirs. -/
def logical (op : Bool → Bool → Bool) : Handler σ :=
  binary fun left right => .ok (.bool (op left.truthy right.truthy))

/-- Replace the top value by the opposite of its truth. -/
def not : Handler σ := fun _ => do
  let v ← Exec.pop
  Exec.push (.bool !v.truthy)

/-- Replace the two top values by whether they stand in a relation. -/
def relation (op : Value → Value → Except OperatorError Bool) : Handler σ :=
  binary fun left right => Value.bool <$> op left right

/-! ### Control and variables -/

/-- Fetch no further instruction. -/
def halt : Handler σ := fun _ => Exec.halt

/-- Go on at the address. -/
def jump : Handler σ := fun operands => do
  Exec.jump (← addressOperand operands)

/-- Pop a condition and go on at the address if it is true. -/
def jumpIf : Handler σ := fun operands => do
  let target ← addressOperand operands
  let condition ← Exec.pop
  if condition.truthy then Exec.jump target else pure ()

/-- Push a variable of the active frame. -/
def load : Handler σ := fun operands => do
  let name ← nameOperand operands
  let s ← get
  match s.frames.active.lookup? name with
  | some v => Exec.push v
  | none => throw (.unboundVariable name)

/-- Pop into a variable of the active frame. -/
def store : Handler σ := fun operands => do
  let name ← nameOperand operands
  let v ← Exec.pop
  Exec.bind name v

/-! ### Calls -/

/-- Enter a new frame that returns to the next instruction, and go on at the address. -/
def call : Handler σ := fun operands => do
  let target ← addressOperand operands
  let s ← get
  Exec.enter (.returningTo s.ip)
  Exec.jump target

/-- Leave the active frame and go on where it returns to. The operand stack stays as it is. -/
def ret : Handler σ := fun _ => do
  let frame ← Exec.leave
  Exec.jump frame.returnAddress

/-- Pop as many values as told in front of those given; the last one popped comes first. -/
def popArguments : Nat → List Value → Exec σ (List Value)
  | 0, args => pure args
  | n + 1, args => do
    let v ← Exec.pop
    popArguments n (v :: args)

/-- Pop the arguments, call the host function and push its result. -/
def func : Handler σ := fun operands => do
  let name ← nameOperand operands
  let count ← countOperand operands
  let args ← popArguments count []
  let result ← Exec.callBuiltin name args
  Exec.push result

/-- The standard handler of each opcode. -/
def ofOpcode : Opcode → Handler σ
  | .push => push
  | .pop => pop
  | .dup => dup
  | .add => binary Value.add
  | .sub => binary Value.sub
  | .mul => binary Value.mul
  | .div => binary Value.div
  | .and => logical (· && ·)
  | .or => logical (· || ·)
  | .not => not
  | .isEq => relation fun left right => .ok (left.equal right)
  | .isGt => relation Value.greater
  | .isGe => relation Value.greaterOrEqual
  | .jump => jump
  | .jumpIf => jumpIf
  | .load => load
  | .store => store
  | .call => call
  | .ret => ret
  | .func => func
  | .halt => halt

end Handler

end ImpStack
