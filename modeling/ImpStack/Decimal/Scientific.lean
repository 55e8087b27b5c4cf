/-
Module: ImpStack.Decimal.Scientific
Purpose: Decimals as a whole number and a power of ten, and the double nearest to one.
Main exports: Scientific, Scientific.toFloat, natOfDigits
-/

namespace ImpStack.Decimal

/-- The decimal `digits * 10 ^ exponent`. -/
structure Scientific where
  digits : Nat
  exponent : Int
deriving DecidableEq, Inhabited

/-- The double nearest to a decimal; ties go to the even neighbour, and what is too large becomes
    infinite. -/
def Scientific.toFloat (d : Scientific) : Float :=
  Float.ofScientific d.digits (decide (d.exponent < 0)) d.exponent.natAbs

/-- The number that a sequence of decimal digits denotes. -/
def natOfDigits (digits : List Char) : Nat :=
  digits.foldl (fun n c => n * 10 + (c.toNat - '0'.toNat)) 0

end ImpStack.Decimal
