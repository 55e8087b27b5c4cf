/-
Module: ImpStack.CompileError
Purpose: Why a program is not compiled.
Main exports: CompileError, CompileError.message
-/

namespace ImpStack

/-- Why a program is not compiled. -/
inductive CompileError where
  /-- A call of a name that is neither declared nor among the host functions, which are listed. -/
  | unknownFunction (name : String) (builtins : List String)
  /-- A declaration below the top level: in the body of the function `outer`, or else in another
      top-level statement. -/
  | nestedFunction (name : String) (outer : Option String)
  /-- A second declaration of a name. -/
  | duplicateFunction (name : String)
  /-- A declaration of the name of a host function, which calls would never reach. -/
  | shadowsBuiltin (name : String)
  /-- A declaration with a parameter that is equal to an earlier one. -/
  | duplicateParameter (function param : String)
deriving DecidableEq, Inhabited

namespace CompileError

/-- What to do about a call of an unknown function. -/
def callHint : List String → String
  | [] => "no builtins are registered"
  | builtins => "declare it, or call a builtin: " ++ String.intercalate ", " builtins

/-- Where a declaration below the top level stands. -/
def context : Option String → String
  | some outer => "function '" ++ outer ++ "'"
  | none => "a nested block"

/-- The text of a compile error. -/
def message : CompileError → String
  | unknownFunction name builtins =>
    "compile error: unknown function '" ++ name ++ "'\n  hint: " ++ callHint builtins
  | nestedFunction name outer =>
    "compile error: function '" ++ name ++ "': declarations cannot appear inside " ++
      context outer ++ "\n  hint: declare functions at the top level of the program"
  | duplicateFunction name =>
    "compile error: function '" ++ name ++ "' is declared more than once"
  | shadowsBuiltin name =>
    "compile error: function '" ++ name ++ "' shadows the builtin of the same name"
  | duplicateParameter function param =>
    "compile error: function '" ++ function ++ "' declares parameter '" ++ param ++
      "' more than once"

end CompileError

end ImpStack
