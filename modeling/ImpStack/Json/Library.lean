/-
Module: ImpStack.Json.Library
Purpose: Programs in the JSON of any library. A library writes and reads documents and has a form
  for every type of data that occurs in programs. Types say no more than what they are: choices
  with their cases, records with their fields, lists, and tables of names.
Main exports: JsonForm, JsonCase, JsonLibrary, Value.jsonCases, Opcode.jsonCases,
  Operand.jsonCases, JsonLibrary.toText, JsonLibrary.ofText?
-/
import ImpStack.Bytecode
import ImpStack.Json

namespace ImpStack

/-- How the data of a type look in JSON, and which JSON they are read from. A type may be read from
    more than what is ever written for it. -/
structure JsonForm (α : Type) where
  toJson : α → Json
  ofJson? : Json → Option α

/-- One case of a choice with its name: a single value, or a value for each content. -/
inductive JsonCase (α : Type) : Type 1 where
  | empty (name : String) (a : α)
  | full {β : Type} (name : String) (form : JsonForm β) (make : β → α)

/-- A JSON library, as far as programs are concerned. -/
structure JsonLibrary where
  /-- The text of a document. -/
  write : Json → String
  /-- The document of a text. -/
  read? : String → Option Json
  int : JsonForm Int64
  nat : JsonForm Nat
  float : JsonForm Float
  text : JsonForm String
  truth : JsonForm Bool
  value : JsonForm Value
  opcode : JsonForm Opcode
  operand : JsonForm Operand
  operands : JsonForm (List Operand)
  instruction : JsonForm Instruction
  instructions : JsonForm (List Instruction)
  entries : JsonForm (NameTable Nat)
  program : JsonForm Bytecode

/-- A value is a choice between its types. -/
def Value.jsonCases (L : JsonLibrary) : List (JsonCase Value) :=
  [.full "Int" L.int .int, .full "Float" L.float .float, .full "Str" L.text .str,
    .full "Bool" L.truth .bool, .empty "Nil" .nil]

/-- The name of an opcode in JSON. -/
def Opcode.jsonName : Opcode → String
  | push => "Push"
  | pop => "Pop"
  | dup => "Dup"
  | add => "Add"
  | sub => "Sub"
  | mul => "Mul"
  | div => "Div"
  | and => "And"
  | or => "Or"
  | not => "Not"
  | isEq => "IsEq"
  | isGt => "IsGt"
  | isGe => "IsGe"
  | jump => "Jump"
  | jumpIf => "JumpIf"
  | load => "Load"
  | store => "Store"
  | call => "Call"
  | ret => "Ret"
  | func => "Func"
  | halt => "Halt"

/-- An opcode is a choice without contents. -/
def Opcode.jsonCases : List (JsonCase Opcode) := all.map fun op => .empty op.jsonName op

/-- An operand is a choice between its kinds. -/
def Operand.jsonCases (L : JsonLibrary) : List (JsonCase Operand) :=
  [.full "Value" L.value .value, .full "Name" L.text .name, .full "Address" L.nat .address,
    .full "Count" L.nat .count]

namespace JsonLibrary

variable (L : JsonLibrary)

/-- The JSON text of a program. -/
def toText (b : Bytecode) : String := L.write (L.program.toJson b)

/-- The program of a JSON text. -/
def ofText? (s : String) : Option Bytecode := (L.read? s).bind L.program.ofJson?

end JsonLibrary

end ImpStack
