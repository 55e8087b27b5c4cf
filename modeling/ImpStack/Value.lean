/-
Module: ImpStack.Value
Purpose: The dynamically typed values that the language computes with, their truth and their
  numeric reading.
Main exports: Value, Value.typeName, Value.truthy, Value.number?, floatOfInt64, exactInt64?
-/

namespace ImpStack

/-- The double nearest to a 64-bit integer; ties go to the even neighbour. -/
def floatOfInt64 (n : Int64) : Float := Float.ofModel (Float.Model.ofInt64 n)

/-- The 64-bit signed integer that denotes `n`, when `n` lies in the signed 64-bit range. -/
def exactInt64? (n : Int) : Option Int64 :=
  if Int64.minValue.toInt ≤ n ∧ n ≤ Int64.maxValue.toInt then some (Int64.ofInt n) else none

theorem exactInt64?_eq_some_iff {z : Int} {n : Int64} :
    exactInt64? z = some n ↔ n.toInt = z := by
  rw [exactInt64?, Option.ite_none_right_eq_some, Option.some.injEq]
  constructor
  · rintro ⟨⟨low, high⟩, rfl⟩
    exact Int64.toInt_ofInt_of_le low (Int.lt_add_one_of_le high)
  · rintro rfl
    exact ⟨⟨n.minValue_le_toInt, n.toInt_le⟩, Int64.ofInt_toInt n⟩

/-- A value on the operand stack or in a variable. -/
inductive Value where
  /-- A signed 64-bit integer. -/
  | int (n : Int64)
  /-- A double-precision number. -/
  | float (x : Float)
  /-- A text. -/
  | str (s : String)
  /-- A truth value. -/
  | bool (b : Bool)
  /-- No value: what a host function with nothing to report returns. -/
  | nil
deriving DecidableEq, Inhabited

namespace Value

/-- The name of the value's type, as fault texts show it. -/
def typeName : Value → String
  | int _ => "int"
  | float _ => "float"
  | str _ => "string"
  | bool _ => "bool"
  | nil => "nil"

/-- The truth of a value as a condition: zero of either sign, the empty text, `false` and `nil`
    are false, all else is true (not-a-number included). -/
def truthy : Value → Bool
  | int n => n ≠ 0
  | float x => !(x == 0.0)
  | str s => s ≠ ""
  | bool b => b
  | nil => false

/-- The numeric reading of a value, if it has one; an integer is rounded to the nearest double. -/
def number? : Value → Option Float
  | int n => some (floatOfInt64 n)
  | float x => some x
  | _ => none

end Value

end ImpStack
