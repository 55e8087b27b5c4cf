/-
Module: ImpStack.Text.Ordered
Purpose: Names in the order of their characters, each once.
Main exports: orderedNames
-/

namespace ImpStack.Text

/-- The names of a list in the order of their characters, without repetition. -/
def orderedNames (names : List String) : List String :=
  (names.mergeSort fun a b => decide (a ≤ b)).eraseReps

end ImpStack.Text
