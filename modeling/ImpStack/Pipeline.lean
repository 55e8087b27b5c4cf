/-
Module: ImpStack.Pipeline
Purpose: Compiling and running in one go.
Main exports: compileAndRun
-/
import ImpStack.Compile
import ImpStack.Machine

namespace ImpStack

/-- Compile a program against host functions and run it with them under limits: the machine that has
    come to its end, whose outcome tells whether by a halt, or why there is none. Nothing if the run
    takes more steps than `fuel`. -/
def compileAndRun {σ : Type} (fuel : Nat) (p : Program) (builtins : Builtins σ) (limits : Limits) :
    Option (Except CompileError (Machine σ)) :=
  match compile builtins.names p with
  | .error e => some (.error e)
  | .ok code => (Machine.run fuel (.start code builtins limits)).map .ok

end ImpStack
