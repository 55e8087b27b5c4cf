/-
Module: ImpStack.Json.Limits
Purpose: Reading the bounds on a run from JSON.
Main exports: Limits.ofJson?, Limits.ofJsonText?
-/
import ImpStack.Json.Fields
import ImpStack.Json.Number
import ImpStack.Json.Reader
import ImpStack.Machine.Limits

namespace ImpStack.Limits

/-- A bound: a natural number of 64 bits, or none for `null`. -/
def bound? : Json → Option (Option Nat)
  | .null => some none
  | j => j.nat64?.map some

/-- A bound that need not be given. -/
def optionalBound? : Option Json → Option (Option Nat)
  | none => some none
  | some j => bound? j

/-- The names of the fields, in order. -/
def fieldNames : List String := ["max_steps", "max_frames", "max_stack"]

/-- The bounds whose fields have these JSON forms, if given. -/
def ofFields? (maxSteps maxFrames maxStack : Option Json) : Option Limits := do
  some ⟨← optionalBound? maxSteps, ← optionalBound? maxFrames, ← optionalBound? maxStack⟩

/-- The bounds of a JSON form: an object of some of the fields, or an array of the first of them.
    Other members are refused. -/
def ofJson? : Json → Option Limits
  | .object members => do
    let members ← Json.members? members
    if members.all fun (name, _) => fieldNames.contains name then
      ofFields? (← Json.field members "max_steps") (← Json.field members "max_frames")
        (← Json.field members "max_stack")
    else none
  | .array items =>
    if items.length ≤ fieldNames.length then ofFields? items[0]? items[1]? items[2]? else none
  | _ => none

/-- The bounds of a JSON text. -/
def ofJsonText? (s : String) : Option Limits := (Json.read? s).bind ofJson?

end ImpStack.Limits
