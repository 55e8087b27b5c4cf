/-
Module: ImpStack.Value.Operator
Purpose: Arithmetic and comparison of values. Two integers give an integer, and no result ever
  wraps; an integer next to a double is read as the nearest double.
Main exports: OperatorError, Value.add, Value.sub, Value.mul, Value.div, Value.equal,
  Value.compare?, Value.greater, Value.greaterOrEqual
-/
import ImpStack.Value

namespace ImpStack

/-- Why an operator has no result. -/
inductive OperatorError where
  /-- An integer result outside the signed 64-bit range. -/
  | overflow
  /-- A divisor that is zero. -/
  | divisionByZero
  /-- Operands of types that the operator does not combine, by name. -/
  | typeMismatch (left right : String)
deriving DecidableEq, Inhabited

namespace Value

/-! ### Arithmetic -/

/-- The type mismatch of two operands. -/
def mismatch (a b : Value) : OperatorError := .typeMismatch a.typeName b.typeName

/-- Combine two numbers: integers exactly, anything else as doubles. -/
def combine (onInts : Int → Int → Int) (onFloats : Float → Float → Float) (a b : Value) :
    Except OperatorError Value :=
  match a, b with
  | int m, int n =>
    match exactInt64? (onInts m.toInt n.toInt) with
    | some r => .ok (int r)
    | none => .error .overflow
  | a, b =>
    match a.number?, b.number? with
    | some x, some y => .ok (float (onFloats x y))
    | _, _ => .error (mismatch a b)

/-- Integers combine to an integer, if it has 64 bits. -/
theorem combine_int (onInts : Int → Int → Int) (onFloats : Float → Float → Float) (m n : Int64) :
    combine onInts onFloats (int m) (int n) =
      (exactInt64? (onInts m.toInt n.toInt)).elim (.error .overflow) fun r => .ok (int r) := by
  rw [combine]
  cases exactInt64? (onInts m.toInt n.toInt) <;> rfl

/-- The sum of two numbers, or two texts joined. -/
def add : Value → Value → Except OperatorError Value
  | str s, str t => .ok (str (s ++ t))
  | a, b => combine (· + ·) (· + ·) a b

/-- The difference of two numbers. -/
def sub : Value → Value → Except OperatorError Value := combine (· - ·) (· - ·)

/-- The product of two numbers. -/
def mul : Value → Value → Except OperatorError Value := combine (· * ·) (· * ·)

/-- The quotient of two numbers as doubles; a divisor that is a zero of either sign is an error. -/
def div (a b : Value) : Except OperatorError Value :=
  match a.number?, b.number? with
  | some x, some y => if y == 0.0 then .error .divisionByZero else .ok (float (x / y))
  | _, _ => .error (mismatch a b)

/-! ### Comparison -/

/-- Whether two values are equal: integers exactly, an integer and a double as doubles, and values
    of other types if they are the same. Not-a-number is equal to nothing. -/
def equal : Value → Value → Bool
  | int m, int n => m == n
  | str s, str t => s == t
  | bool a, bool b => a == b
  | nil, nil => true
  | a, b =>
    match a.number?, b.number? with
    | some x, some y => x == y
    | _, _ => false

/-- The order of two doubles; there is none if one of them is not-a-number. -/
def compareFloats? (x y : Float) : Option Ordering :=
  if x < y then some .lt else if y < x then some .gt else if x == y then some .eq else none

/-- The order of two integers, of two texts by their characters, or of two numbers as doubles. -/
def compare? (a b : Value) : Except OperatorError (Option Ordering) :=
  match a, b with
  | int m, int n => .ok (some (compare m n))
  | str s, str t => .ok (some (compare s t))
  | a, b =>
    match a.number?, b.number? with
    | some x, some y => .ok (compareFloats? x y)
    | _, _ => .error (mismatch a b)

/-- Whether the first value is greater; false for numbers that have no order. -/
def greater (a b : Value) : Except OperatorError Bool :=
  (fun order => decide (order = some .gt)) <$> compare? a b

/-- Whether the first value is greater or equal; false for numbers that have no order. -/
def greaterOrEqual (a b : Value) : Except OperatorError Bool :=
  (fun order => decide (order = some .gt ∨ order = some .eq)) <$> compare? a b

end Value

end ImpStack
