/-
Module: ImpStack.OpenCode
Purpose: The code of a node before linking. Addresses within the code are settled, since the length
  of every part is known; a call of a function of the program still names its callee, whose entry
  may come later.
Main exports: OpenInstruction, OpenCode, Scope, BinaryOp.opcodes, emit, emitAll
-/
import ImpStack.CompileError
import ImpStack.Instruction
import ImpStack.Program

namespace ImpStack

/-- An instruction before linking. -/
inductive OpenInstruction where
  /-- An instruction that linking does not change. -/
  | settled (i : Instruction)
  /-- A call of a function of the program, by name. -/
  | call (callee : String)
deriving DecidableEq, Inhabited

/-- A sequence of instructions before linking. -/
abbrev OpenCode := List OpenInstruction

namespace OpenInstruction

/-- The address that a settled branch names; an open call names none yet. -/
def target? : OpenInstruction → Option Nat
  | settled i => i.target?
  | call _ => none

/-- A settled instruction without operands. -/
def plain (op : Opcode) : OpenInstruction := settled (.plain op)

end OpenInstruction

/-- What the code of a node depends on besides the node. -/
structure Scope where
  /-- The names whose calls go to the host. -/
  builtins : List String
  /-- The function whose body the node is in. -/
  enclosing : Option String
deriving Inhabited

/-- The operations that follow the two operands of an operator. The three comparisons without an
    opcode of their own are negations of their complements. -/
def BinaryOp.opcodes : BinaryOp → List Opcode
  | .add => [.add]
  | .sub => [.sub]
  | .mul => [.mul]
  | .div => [.div]
  | .eq => [.isEq]
  | .ne => [.isEq, .not]
  | .lt => [.isGe, .not]
  | .gt => [.isGt]
  | .le => [.isGt, .not]
  | .ge => [.isGe]
  | .and => [.and]
  | .or => [.or]

/-- The code that follows the operand of an operator: arithmetic negation multiplies by minus
    one. -/
def UnaryOp.code : UnaryOp → OpenCode
  | .not => [.plain .not]
  | .neg => [.settled (.push (.int (-1))), .plain .mul]

/-- The code that follows the arguments of a call. -/
def Scope.callCode (scope : Scope) (callee : String) (argumentCount : Nat) : OpenCode :=
  if scope.builtins.contains callee then [.settled (.func callee argumentCount)]
  else [.call callee]

mutual

/-- The code of a node when it starts at the address `base`. Parts are emitted in the order in which
    they run, and the first declaration among them is an error. -/
def emit (scope : Scope) (base : Nat) : Node → Except CompileError OpenCode
  | .literal value => .ok [.settled (.push value)]
  | .ident name => .ok [.settled (.load name)]
  | .assign name value => do
    let valueCode ← emit scope base value
    .ok (valueCode ++ [.settled (.store name)])
  | .binary op left right => do
    let leftCode ← emit scope base left
    let rightCode ← emit scope (base + leftCode.length) right
    .ok (leftCode ++ rightCode ++ op.opcodes.map .plain)
  | .unary op operand => do
    let operandCode ← emit scope base operand
    .ok (operandCode ++ op.code)
  | .call callee args => do
    let argsCode ← emitAll scope base args
    .ok (argsCode ++ scope.callCode callee args.length)
  | .ret value => do
    let valueCode ← emit scope base value
    .ok (valueCode ++ [.plain .ret])
  | .block children => emitAll scope base children
  | .ifThen condition thenBranch => do
    let conditionCode ← emit scope base condition
    let thenBase := base + conditionCode.length + 2
    let thenCode ← emit scope thenBase thenBranch
    let stop := thenBase + thenCode.length
    .ok (conditionCode ++ [.plain .not, .settled (.jumpIf stop)] ++ thenCode)
  | .ifElse condition thenBranch elseBranch => do
    let conditionCode ← emit scope base condition
    let thenBase := base + conditionCode.length + 2
    let thenCode ← emit scope thenBase thenBranch
    let elseBase := thenBase + thenCode.length + 1
    let elseCode ← emit scope elseBase elseBranch
    let stop := elseBase + elseCode.length
    .ok (conditionCode ++ [.plain .not, .settled (.jumpIf elseBase)] ++ thenCode ++
      [.settled (.jump stop)] ++ elseCode)
  | .whileLoop condition body => do
    let conditionCode ← emit scope base condition
    let bodyBase := base + conditionCode.length + 2
    let bodyCode ← emit scope bodyBase body
    let stop := bodyBase + bodyCode.length + 1
    .ok (conditionCode ++ [.plain .not, .settled (.jumpIf stop)] ++ bodyCode ++
      [.settled (.jump base)])
  | .doWhile body condition => do
    let bodyCode ← emit scope base body
    let conditionCode ← emit scope (base + bodyCode.length) condition
    .ok (bodyCode ++ conditionCode ++ [.settled (.jumpIf base)])
  | .forRange var start stop body => do
    let startCode ← emit scope base start
    let top := base + startCode.length + 1
    let stopCode ← emit scope (top + 1) stop
    let bodyBase := top + 1 + stopCode.length + 2
    let bodyCode ← emit scope bodyBase body
    let exit := bodyBase + bodyCode.length + 5
    .ok (startCode ++ [.settled (.store var), .settled (.load var)] ++ stopCode ++
      [.plain .isGe, .settled (.jumpIf exit)] ++ bodyCode ++
      [.settled (.load var), .settled (.push (.int 1)), .plain .add, .settled (.store var),
        .settled (.jump top)])
  | .function name _ _ => .error (.nestedFunction name scope.enclosing)

/-- The code of a sequence of nodes, one after the other. -/
def emitAll (scope : Scope) (base : Nat) : List Node → Except CompileError OpenCode
  | [] => .ok []
  | node :: rest => do
    let code ← emit scope base node
    let restCode ← emitAll scope (base + code.length) rest
    .ok (code ++ restCode)

end

end ImpStack
