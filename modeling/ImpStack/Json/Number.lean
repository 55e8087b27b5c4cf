/-
Module: ImpStack.Json.Number
Purpose: The numbers that JSON numerals stand for. Integers are exact; a double is made by scaling
  the leading digits, as many as fit in 64 bits, by a power of ten in double precision, so it is not
  always the nearest one.
Main exports: Json.nat64?, Json.int64?, Json.scaled?, Json.float?, Json.ofNat, Json.ofInt,
  Json.ofFloat
-/
import ImpStack.Decimal.Layout
import ImpStack.Decimal.Shortest
import ImpStack.Json
import ImpStack.Value

namespace ImpStack.Json

/-! ### Integers -/

/-- The greatest number of 64 bits. -/
def maxNat64 : Nat := UInt64.size - 1

/-- The natural number of 64 bits that a numeral stands for. One with a minus, a point or an
    exponent stands for none. -/
def nat64? : Json → Option Nat
  | number n =>
    let value := Decimal.natOfDigits n.whole
    if n.isInteger && !n.isNegative && decide (value ≤ maxNat64) then some value else none
  | _ => none

/-- The signed integer of 64 bits that a numeral stands for. Minus zero stands for none. -/
def int64? : Json → Option Int64
  | number n =>
    if n.isInteger && !(n.isNegative && n.toInt == 0) then exactInt64? n.toInt else none
  | _ => none

/-! ### Doubles -/

/-- Append digits to a number while it fits in 64 bits; the number and how many digits were left
    out. -/
def takeWhole (significand : Nat) : List Char → Nat × Nat
  | [] => (significand, 0)
  | c :: rest =>
    let next := significand * 10 + (c.toNat - '0'.toNat)
    if next ≤ maxNat64 then takeWhole next rest else (significand, rest.length + 1)

/-- Append digits to a number while it fits in 64 bits; the number and how many digits were
    taken. -/
def takeFraction (significand : Nat) : List Char → Nat × Nat
  | [] => (significand, 0)
  | c :: rest =>
    let next := significand * 10 + (c.toNat - '0'.toNat)
    if next ≤ maxNat64 then
      let (result, taken) := takeFraction next rest
      (result, taken + 1)
    else (significand, 0)

/-- The leading digits of a numeral as one number of 64 bits and the power of ten that they are to
    be scaled by, before the numeral's own exponent. -/
def significand (n : Numeral) : Nat × Int :=
  let (whole, left) := takeWhole 0 n.whole
  let (all, taken) := takeFraction whole (n.fraction.getD [])
  (all, (left : Int) - taken)

/-- The double nearest to a power of ten. -/
def tenTo (k : Nat) : Float := Float.ofScientific 1 false k

/-- Divide repeatedly by the greatest power of ten of a double; zero stays zero. -/
def divideDown : Nat → Float → Float
  | 0, x => x
  | k + 1, x => if x == 0.0 then x else divideDown k (x / tenTo 308)

/-- Scale a number by a power of ten in double precision. A result that is too large is an error,
    one that is too small becomes zero. -/
def scale? (significand : Nat) (exponent : Int) : Option Float :=
  let x := (UInt64.ofNat significand).toFloat
  if 0 ≤ exponent then
    if 308 < exponent then (if x == 0.0 then some x else none)
    else
      let scaled := x * tenTo exponent.toNat
      if scaled.isInf then none else some scaled
  else
    let down := (-exponent).toNat
    let rounds := (down - 1) / 308
    some (divideDown rounds x / tenTo (down - rounds * 308))

/-- The greatest exponent that a numeral may have. -/
def maxExponent : Nat := Nat.pow 2 31 - 1

/-- The size of the double that a numeral stands for. An exponent beyond the greatest one makes the
    result zero, unless it asks for a number that is too large. -/
def size? (n : Numeral) : Option Float :=
  let (digits, power) := significand n
  if maxExponent < n.powerOfTen.natAbs then
    if digits ≠ 0 ∧ 0 < n.powerOfTen then none else some 0.0
  else scale? digits (power + n.powerOfTen)

/-- The double that a numeral stands for. -/
def scaled? (n : Numeral) : Option Float :=
  (size? n).map fun x => if n.isNegative then -x else x

/-- The double that a JSON number stands for. -/
def float? : Json → Option Float
  | number n => scaled? n
  | _ => none

/-! ### Writing -/

/-- A natural number as JSON. -/
def ofNat (n : Nat) : Json := number (.ofNat n)

/-- An integer as JSON. -/
def ofInt (n : Int) : Json := number (.ofInt n)

/-- The numeral of a finite double in JSON: the fewest digits that read back (of two equally near
    the even one), positional from `0.00001` up to sixteen digits before the point. -/
def numeralOfFloat (x : Float) : Numeral :=
  let d := Decimal.shortest .even x
  let negative := Decimal.isNegative x
  if -5 ≤ Decimal.leadingPower d ∧ Decimal.leadingPower d ≤ 15 then
    Decimal.positional negative d
  else Decimal.withExponent negative d

/-- A double as JSON, which has no infinities and no not-a-number. -/
def ofFloat (x : Float) : Json := if x.isFinite then number (numeralOfFloat x) else null

end ImpStack.Json
