/-
Module: ImpStack.Machine.Builtins
Purpose: Host functions, the only way of a program to the world outside. They are registered by name
  and pass the state of the host from one call to the next.
Main exports: HostFunction, Builtins, Builtins.register, Builtins.call, Builtins.standard
-/
import ImpStack.Machine.RuntimeError
import ImpStack.NameTable
import ImpStack.Value.Text

namespace ImpStack

/-- A host function: from its arguments, in order, and the state of the host to one value or a
    failure in words, and the next state of the host. -/
abbrev HostFunction (σ : Type) := List Value → σ → Except String Value × σ

/-- A host function that neither reads nor changes the state of the host. -/
def HostFunction.ofPure {σ : Type} (f : List Value → Except String Value) : HostFunction σ :=
  fun args world => (f args, world)

/-- The registered host functions and the state of the host. -/
structure Builtins (σ : Type) where
  functions : NameTable (HostFunction σ)
  world : σ

namespace Builtins

variable {σ : Type}

/-- No host functions. -/
def empty (world : σ) : Builtins σ := ⟨NameTable.empty, world⟩

/-- Register a host function in place of any other one of its name. -/
def register (b : Builtins σ) (name : String) (f : HostFunction σ) : Builtins σ :=
  { b with functions := b.functions.insert name f }

/-- Whether a name is registered. -/
def contains (b : Builtins σ) (name : String) : Bool := b.functions.contains name

/-- The registered names, in the order of their characters. -/
def names (b : Builtins σ) : List String := b.functions.sortedNames

/-- Call a host function by name. -/
def call (b : Builtins σ) (name : String) (args : List Value) :
    Except RuntimeError Value × Builtins σ :=
  match b.functions.find? name with
  | none => (.error (.unknownBuiltin name), b)
  | some f =>
    match f args b.world with
    | (.ok value, world) => (.ok value, { b with world })
    | (.error message, world) => (.error (.builtin name message), { b with world })

end Builtins

/-! ### The standard host functions -/

namespace Standard

/-- The failure of a function of numbers on another value. -/
def notNumber (v : Value) : String := "expected number, got " ++ v.typeName

/-- Apply a function of one argument. -/
def onSingle (f : Value → Except String Value) : List Value → Except String Value
  | [v] => f v
  | args => .error ("expected 1 argument(s), got " ++ toString args.length)

/-- The absolute value of a number of the same type. -/
def absolute : Value → Except String Value
  | .int n =>
    match exactInt64? n.toInt.natAbs with
    | some r => .ok (.int r)
    | none => .error "integer overflow"
  | .float x => .ok (.float x.abs)
  | v => .error (notNumber v)

/-- The number of characters of a text. -/
def textLength : Value → Except String Value
  | .str s => .ok (.int (Int64.ofNat s.length))
  | v => .error ("expected string, got " ++ v.typeName)

/-- The text of a value, as a value. -/
def toText (v : Value) : Except String Value := .ok (.str v.text)

/-- Go through numbers and keep the one that beats all before it; `best` is the one so far and
    `bestNumber` its numeric reading. -/
def extremeOf (beats : Float → Float → Bool) (best : Value) (bestNumber : Float) :
    List Value → Except String Value
  | [] => .ok best
  | v :: rest =>
    match v.number? with
    | none => .error (notNumber v)
    | some x =>
      if beats x bestNumber then extremeOf beats v x rest
      else extremeOf beats best bestNumber rest

/-- The first of the arguments that no later one beats, unchanged in type and value. -/
def extreme (beats : Float → Float → Bool) : List Value → Except String Value
  | [] => .error "expected at least 1 argument"
  | v :: rest =>
    match v.number? with
    | none => .error (notNumber v)
    | some x => extremeOf beats v x rest

/-- The least of the arguments. -/
def minimum : List Value → Except String Value := extreme fun x best => x < best

/-- The greatest of the arguments. -/
def maximum : List Value → Except String Value := extreme fun x best => best < x

/-- The line that `print` writes: the texts of the arguments with spaces between them. -/
def printedLine (args : List Value) : String :=
  String.intercalate " " (args.map Value.text) ++ "\n"

/-- Write the arguments as a line by `write`; a failure to write is a failure of the call. -/
def print {σ : Type} (write : String → σ → Except String Unit × σ) : HostFunction σ :=
  fun args world =>
    match write (printedLine args) world with
    | (.ok _, world) => (.ok .nil, world)
    | (.error message, world) => (.error message, world)

end Standard

/-- The standard host functions; `write` is how the host takes printed text. -/
def Builtins.standard {σ : Type} (write : String → σ → Except String Unit × σ) (world : σ) :
    Builtins σ :=
  (Builtins.empty world)
    |>.register "print" (Standard.print write)
    |>.register "abs" (.ofPure (Standard.onSingle Standard.absolute))
    |>.register "min" (.ofPure Standard.minimum)
    |>.register "max" (.ofPure Standard.maximum)
    |>.register "len" (.ofPure (Standard.onSingle Standard.textLength))
    |>.register "str" (.ofPure (Standard.onSingle Standard.toText))

end ImpStack
