/-
Module: ImpStack.Json.Bytecode
Purpose: The library that programs are written and read with here: a form for each type of their
  data, up to the instructions with their operands and the function entries in order.
Main exports: Bytecode.toJson, Bytecode.ofJson?, Json.library, Bytecode.toJsonText,
  Bytecode.ofJsonText?
-/
import ImpStack.Json.Fields
import ImpStack.Json.Library
import ImpStack.Json.Number
import ImpStack.Json.Reader
import ImpStack.Json.Writer

namespace ImpStack

/-! ### Values -/

/-- The JSON form of a value: a case named for its type. -/
def Value.toJson : Value → Json
  | int n => .ofCase "Int" (.ofInt n.toInt)
  | float x => .ofCase "Float" (.ofFloat x)
  | str s => .ofCase "Str" (.ofString s)
  | bool b => .ofCase "Bool" (.bool b)
  | nil => .ofString "Nil"

/-- The text that a JSON text is. -/
def Json.string? : Json → Option String
  | .string codePoints => text? codePoints
  | _ => none

/-- The truth value that a JSON word is. -/
def Json.bool? : Json → Option Bool
  | .bool b => some b
  | _ => none

/-- The value of a JSON form. -/
def Value.ofJson? (j : Json) : Option Value :=
  match j.case? with
  | some ("Int", some content) => content.int64?.map int
  | some ("Float", some content) => content.float?.map float
  | some ("Str", some content) => content.string?.map str
  | some ("Bool", some content) => content.bool?.map bool
  | some ("Nil", content) => if Json.isEmptyContent content then some nil else none
  | _ => none

/-! ### Instructions -/

/-- The JSON form of an opcode: a case without content. -/
def Opcode.toJson (op : Opcode) : Json := .ofString op.jsonName

/-- The opcode of a JSON form. -/
def Opcode.ofJson? (j : Json) : Option Opcode :=
  match j.case? with
  | some (name, content) =>
    if Json.isEmptyContent content then all.find? (·.jsonName == name) else none
  | none => none

/-- The JSON form of an operand: a case named for its kind. -/
def Operand.toJson : Operand → Json
  | value v => .ofCase "Value" v.toJson
  | name s => .ofCase "Name" (.ofString s)
  | address a => .ofCase "Address" (.ofNat a)
  | count n => .ofCase "Count" (.ofNat n)

/-- The operand of a JSON form. -/
def Operand.ofJson? (j : Json) : Option Operand :=
  match j.case? with
  | some ("Value", some content) => (Value.ofJson? content).map value
  | some ("Name", some content) => content.string?.map name
  | some ("Address", some content) => content.nat64?.map address
  | some ("Count", some content) => content.nat64?.map count
  | _ => none

/-- The items of a JSON array, each read by `read?`. -/
def Json.listOf? {α : Type} (read? : Json → Option α) : Json → Option (List α)
  | .array items => items.mapM read?
  | _ => none

/-- The JSON form of an instruction. -/
def Instruction.toJson (i : Instruction) : Json :=
  .ofMembers [("opcode", i.opcode.toJson), ("operands", .array (i.operands.map Operand.toJson))]

/-- The instruction whose two fields have these JSON forms. -/
def Instruction.ofFields? (opcode operands : Json) : Option Instruction := do
  let opcode ← Opcode.ofJson? opcode
  let operands ← operands.listOf? Operand.ofJson?
  some ⟨opcode, operands⟩

/-- The instruction of a JSON form. -/
def Instruction.ofJson? : Json → Option Instruction := Json.record? "opcode" "operands" ofFields?

/-! ### Programs -/

/-- The JSON form of function entries: a member for each name. -/
def entriesToJson (entries : NameTable Nat) : Json :=
  .ofMembers (entries.entries.map fun (name, entry) => (name, .ofNat entry))

/-- The function entries of a JSON form. A repeated name keeps its first place and takes its last
    entry. -/
def entriesOfJson? : Json → Option (NameTable Nat)
  | .object members => do
    let members ← Json.members? members
    let pairs ← members.mapM fun (name, entry) => entry.nat64?.map (name, ·)
    some (NameTable.ofList pairs)
  | _ => none

namespace Bytecode

/-- The JSON form of a program. -/
def toJson (b : Bytecode) : Json :=
  .ofMembers
    [("code", .array (b.code.toList.map Instruction.toJson)),
      ("functions", entriesToJson b.functions)]

/-- The program whose two fields have these JSON forms. -/
def ofFields? (code functions : Json) : Option Bytecode := do
  let code ← code.listOf? Instruction.ofJson?
  let functions ← entriesOfJson? functions
  some ⟨code.toArray, functions⟩

/-- The program of a JSON form. -/
def ofJson? : Json → Option Bytecode := Json.record? "code" "functions" ofFields?

end Bytecode

/-! ### The library

Nothing that is proved of programs in JSON is about these forms in particular. They are one library
among those that keep to the documentation, namely the one that runs. -/

/-- The readers and writers of these modules as a JSON library. -/
def Json.library : JsonLibrary where
  write j := String.ofList j.write
  read? := read?
  int := ⟨fun n => ofInt n.toInt, int64?⟩
  nat := ⟨ofNat, nat64?⟩
  float := ⟨ofFloat, float?⟩
  text := ⟨ofString, string?⟩
  truth := ⟨bool, bool?⟩
  value := ⟨Value.toJson, Value.ofJson?⟩
  opcode := ⟨Opcode.toJson, Opcode.ofJson?⟩
  operand := ⟨Operand.toJson, Operand.ofJson?⟩
  operands := ⟨fun l => array (l.map Operand.toJson), listOf? Operand.ofJson?⟩
  instruction := ⟨Instruction.toJson, Instruction.ofJson?⟩
  instructions := ⟨fun l => array (l.map Instruction.toJson), listOf? Instruction.ofJson?⟩
  entries := ⟨entriesToJson, entriesOfJson?⟩
  program := ⟨Bytecode.toJson, Bytecode.ofJson?⟩

/-- The JSON text of a program. -/
def Bytecode.toJsonText (b : Bytecode) : String := Json.library.toText b

/-- The program of a JSON text. -/
def Bytecode.ofJsonText? (s : String) : Option Bytecode := Json.library.ofText? s

end ImpStack
