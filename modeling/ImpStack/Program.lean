/-
Module: ImpStack.Program
Purpose: The syntax trees of the language: expressions and statements in one type, and programs as
  sequences of top-level statements.
Main exports: BinaryOp, UnaryOp, Node, Node.kindName, Node.ofLiteral, Declaration, Program
-/
import ImpStack.Literal

namespace ImpStack

/-- The binary operators. -/
inductive BinaryOp where
  | add
  | sub
  | mul
  | div
  | eq
  | ne
  | lt
  | gt
  | le
  | ge
  | and
  | or
deriving DecidableEq, Inhabited

namespace BinaryOp

/-- Every binary operator. -/
def all : List BinaryOp := [add, sub, mul, div, eq, ne, lt, gt, le, ge, and, or]

/-- How the operator is written. -/
def symbol : BinaryOp → String
  | add => "+"
  | sub => "-"
  | mul => "*"
  | div => "/"
  | eq => "=="
  | ne => "!="
  | lt => "<"
  | gt => ">"
  | le => "<="
  | ge => ">="
  | and => "&&"
  | or => "||"

/-- The operator that is written like this. -/
def ofSymbol? (s : String) : Option BinaryOp := all.find? (·.symbol == s)

end BinaryOp

/-- The unary operators. -/
inductive UnaryOp where
  /-- Logical negation. -/
  | not
  /-- Arithmetic negation. -/
  | neg
deriving DecidableEq, Inhabited

namespace UnaryOp

/-- Every unary operator. -/
def all : List UnaryOp := [not, neg]

/-- How the operator is written. -/
def symbol : UnaryOp → String
  | not => "!"
  | neg => "-"

/-- The operator that is written like this. -/
def ofSymbol? (s : String) : Option UnaryOp := all.find? (·.symbol == s)

end UnaryOp

/-- A syntax tree. Any node may stand in any position; the only restriction is that a function
    declaration belongs at the top level of a program. -/
inductive Node where
  /-- A constant. -/
  | literal (value : Value)
  /-- The value of a variable. -/
  | ident (name : String)
  /-- Both operands, the left one first, then the operator. -/
  | binary (op : BinaryOp) (left right : Node)
  /-- The operand, then the operator. -/
  | unary (op : UnaryOp) (operand : Node)
  /-- The arguments from left to right, then the function of the program or of the host. -/
  | call (callee : String) (args : List Node)
  /-- Set a variable of the running function. -/
  | assign (name : String) (value : Node)
  /-- A sequence. -/
  | block (children : List Node)
  /-- A branch without alternative. -/
  | ifThen (condition thenBranch : Node)
  /-- A branch with an alternative. -/
  | ifElse (condition thenBranch elseBranch : Node)
  /-- A loop that tests before each round. -/
  | whileLoop (condition body : Node)
  /-- A loop that tests after each round. -/
  | doWhile (body condition : Node)
  /-- A loop that counts `var` up from `start` while it is below `stop`, which is evaluated before
      each round. -/
  | forRange (var : String) (start stop body : Node)
  /-- A function declaration. -/
  | function (name : String) (params : List String) (body : Node)
  /-- Leave the running function. -/
  | ret (value : Node)
deriving Inhabited

namespace Node

/-- What kind of node this is; literals are told apart by the type of their value. -/
def kindName : Node → String
  | literal (.int _) => "integer literal"
  | literal (.float _) => "float literal"
  | literal (.str _) => "string literal"
  | literal (.bool _) => "bool literal"
  | literal .nil => "nil literal"
  | ident _ => "identifier"
  | binary .. => "binary expression"
  | unary .. => "unary expression"
  | call .. => "call"
  | assign .. => "assignment"
  | block _ => "block"
  | ifThen .. => "if"
  | ifElse .. => "if"
  | whileLoop .. => "while"
  | doWhile .. => "do-while"
  | forRange .. => "for"
  | function .. => "function"
  | ret _ => "return"

/-- The literal node of a literal's text. -/
def ofLiteral (source : String) : Except LiteralError Node := literal <$> readLiteral source

end Node

/-- A function declaration at the top level of a program. -/
structure Declaration where
  name : String
  params : List String
  body : Node
deriving Inhabited

/-- The declaration that a node is, if it is one. -/
def Node.declaration? : Node → Option Declaration
  | function name params body => some ⟨name, params, body⟩
  | _ => none

/-- A program: its top-level statements, among which function declarations may stand anywhere. -/
structure Program where
  statements : List Node
deriving Inhabited

namespace Program

/-- The function declarations at the top level, in source order. -/
def declarations (p : Program) : List Declaration := p.statements.filterMap Node.declaration?

/-- The top-level statements that are no declarations, in source order. -/
def body (p : Program) : List Node := p.statements.filter (·.declaration?.isNone)

end Program

end ImpStack
