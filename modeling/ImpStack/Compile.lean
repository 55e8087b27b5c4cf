/-
Module: ImpStack.Compile
Purpose: From a program to its bytecode. The functions come first, in the order of their
  declarations, behind a jump over them; the other statements follow, and a halt ends the program.
Main exports: firstRepeated?, checkDeclaration, emitFunction, emitFunctions, link, compile
-/
import ImpStack.Bytecode
import ImpStack.OpenCode
import ImpStack.Text.Ordered

namespace ImpStack

/-- The first element of a list that is equal to an earlier one; `seen` are those before the
    list. -/
def firstRepeated? (seen : List String) : List String → Option String
  | [] => none
  | name :: rest => if seen.contains name then some name else firstRepeated? (name :: seen) rest

/-- Check the head of a declaration against the host functions and the functions declared before
    it. -/
def checkDeclaration (builtins : List String) (declared : NameTable Nat) (d : Declaration) :
    Except CompileError Unit :=
  if declared.contains d.name then .error (.duplicateFunction d.name)
  else if builtins.contains d.name then .error (.shadowsBuiltin d.name)
  else
    match firstRepeated? [] d.params with
    | some param => .error (.duplicateParameter d.name param)
    | none => .ok ()

/-- Whether code that starts at `base` ends with a return that no jump within the code skips. -/
def endsInReturn (base : Nat) (code : OpenCode) : Bool :=
  decide (code.getLast? = some (.plain .ret)) &&
    code.all fun i => decide (i.target? ≠ some (base + code.length))

/-- The code of a function. Its arguments were pushed in the order of its parameters, so they are
    popped in the reverse order; a return ends it unless its body ends in one. -/
def emitFunction (builtins : List String) (base : Nat) (d : Declaration) :
    Except CompileError OpenCode := do
  let stores : OpenCode := d.params.reverse.map fun param => .settled (.store param)
  let body ← emit ⟨builtins, some d.name⟩ (base + stores.length) d.body
  let code := stores ++ body
  .ok (if endsInReturn base code then code else code ++ [.plain .ret])

/-- The code of declarations, one after the other from the address `base` on, and the table of
    entries, which adds theirs to those of the declarations before them. -/
def emitFunctions (builtins : List String) :
    Nat → NameTable Nat → List Declaration → Except CompileError (OpenCode × NameTable Nat)
  | _, declared, [] => .ok ([], declared)
  | base, declared, d :: rest => do
    checkDeclaration builtins declared d
    let code ← emitFunction builtins base d
    let (restCode, table) ←
      emitFunctions builtins (base + code.length) (declared.insert d.name base) rest
    .ok (code ++ restCode, table)

/-- The code of all functions of a program behind a jump over them; nothing at all if there are
    none. -/
def emitDeclarations (builtins : List String) :
    List Declaration → Except CompileError (OpenCode × NameTable Nat)
  | [] => .ok ([], NameTable.empty)
  | declarations => do
    let (code, table) ← emitFunctions builtins 1 NameTable.empty declarations
    .ok (.settled (.jump (1 + code.length)) :: code, table)

/-- Give an open call the entry of its callee. -/
def OpenInstruction.link (builtins : List String) (entries : NameTable Nat) :
    OpenInstruction → Except CompileError Instruction
  | .settled i => .ok i
  | .call callee =>
    match entries.find? callee with
    | some entry => .ok (.call entry)
    | none => .error (.unknownFunction callee (Text.orderedNames builtins))

/-- Link a sequence of instructions; the first call without an entry is an error. -/
def link (builtins : List String) (entries : NameTable Nat) :
    OpenCode → Except CompileError (List Instruction)
  | [] => .ok []
  | i :: rest => do
    let linked ← i.link builtins entries
    let restLinked ← link builtins entries rest
    .ok (linked :: restLinked)

/-- Compile a program, given the names of the host functions that it may call. -/
def compile (builtins : List String) (p : Program) : Except CompileError Bytecode := do
  let (functions, entries) ← emitDeclarations builtins p.declarations
  let main ← emitAll ⟨builtins, none⟩ functions.length p.body
  let code ← link builtins entries (functions ++ main ++ [.plain .halt])
  .ok ⟨code.toArray, entries⟩

end ImpStack
