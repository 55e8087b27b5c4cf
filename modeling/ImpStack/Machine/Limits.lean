/-
Module: ImpStack.Machine.Limits
Purpose: Bounds on what a run may use. Each is off unless it is set.
Main exports: Limits
-/

namespace ImpStack

/-- Bounds on a run; `none` means without bound. -/
structure Limits where
  /-- The most instructions to execute. -/
  maxSteps : Option Nat
  /-- The most frames, the outermost one counted. -/
  maxFrames : Option Nat
  /-- The most values on the operand stack. -/
  maxStack : Option Nat
deriving DecidableEq, Inhabited

/-- No bound at all. -/
def Limits.unbounded : Limits := ⟨none, none, none⟩

end ImpStack
