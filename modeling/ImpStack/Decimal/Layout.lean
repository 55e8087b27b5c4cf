/-
Module: ImpStack.Decimal.Layout
Purpose: The numerals of a decimal: positional with a point, or with one digit before the point and
  a signed power of ten.
Main exports: positional, withExponent
-/
import ImpStack.Numeral

namespace ImpStack.Decimal

/-- As many zeros. -/
def zeros (count : Nat) : List Char := List.replicate count '0'

/-- The sign of a number that is negative or not. -/
def signOf (negative : Bool) : Option Sign := if negative then some .minus else none

/-- A decimal with a point and at least one digit on each side of it. -/
def positional (negative : Bool) (d : Scientific) : Numeral :=
  let digits := Nat.toDigits 10 d.digits
  if 0 ≤ d.exponent then
    ⟨signOf negative, digits ++ zeros d.exponent.toNat, some ['0'], none⟩
  else
    let places := (-d.exponent).toNat
    if places < digits.length then
      let whole := digits.length - places
      ⟨signOf negative, digits.take whole, some (digits.drop whole), none⟩
    else ⟨signOf negative, ['0'], some (zeros (places - digits.length) ++ digits), none⟩

/-- The power of ten of the first digit of a decimal. -/
def leadingPower (d : Scientific) : Int := (Nat.toDigits 10 d.digits).length + d.exponent - 1

/-- A decimal as its first digit, a point and its other digits if it has any, and the power of ten
    of the first digit, which always has a sign. -/
def withExponent (negative : Bool) (d : Scientific) : Numeral :=
  let digits := Nat.toDigits 10 d.digits
  let power := leadingPower d
  ⟨signOf negative, digits.take 1, if digits.length = 1 then none else some (digits.drop 1),
    some (some (if power < 0 then .minus else .plus), Nat.toDigits 10 power.natAbs)⟩

end ImpStack.Decimal
