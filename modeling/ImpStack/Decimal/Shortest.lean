/-
Module: ImpStack.Decimal.Shortest
Purpose: The shortest decimal that reads back as a given double, and of those with as few digits
  the one nearest to it.
Main exports: Tie, exact, shortest
-/
import ImpStack.Decimal.Magnitude
import ImpStack.Decimal.Scientific

namespace ImpStack.Decimal

/-- Whether a decimal reads back as the absolute value of a double. -/
def Scientific.readsBackAs (d : Scientific) (x : Float) : Bool := d.toFloat == x.abs

/-- Which neighbour to take when a value lies halfway between two of equal length. -/
inductive Tie where
  /-- The larger one. -/
  | up
  /-- The one whose last digit is even. -/
  | even
deriving DecidableEq

/-- The number of decimal digits of a natural number; zero has one. -/
def digitCount (n : Nat) : Nat := (Nat.toDigits 10 n).length

/-- For a positive quotient, the `p` with `10 ^ (p - 1) ≤ r < 10 ^ p`. The digit counts of its two
    parts determine it up to one, and a comparison decides. -/
def leadingPlace (r : Ratio) : Int :=
  let p : Int := (digitCount r.numerator : Int) - digitCount r.denominator
  let scaled := r.downBy p
  if scaled.denominator ≤ scaled.numerator then p + 1 else p

/-- The integers on either side of a quotient, the nearer one first; if the quotient is an integer
    itself, it comes first. -/
def neighbours (tie : Tie) (r : Ratio) : List Nat :=
  let below := r.floor
  let twice := 2 * (r.numerator % r.denominator)
  let nearerAbove :=
    decide (r.denominator < twice) ||
      (decide (twice = r.denominator) && (tie = .up || below % 2 = 1))
  if nearerAbove then [below + 1, below] else [below, below + 1]

/-- The decimal `digits * 10 ^ exponent`, where `digits` has `count` digits or is the next power of
    ten; a power of ten is written with the digit one alone. -/
def Scientific.ofDigits (count digits : Nat) (exponent : Int) : Scientific :=
  if digits = Nat.pow 10 count then ⟨1, exponent + count⟩ else ⟨digits, exponent⟩

/-- The nearest decimal with `count` digits that reads back as `x`, if one does. -/
def withDigits (tie : Tie) (x : Float) (count : Nat) : Option Scientific :=
  let r := magnitude x
  let exponent := leadingPlace r - count
  ((neighbours tie (r.downBy exponent)).map (Scientific.ofDigits count · exponent)).find?
    (·.readsBackAs x)

/-- The absolute value of a finite double with all its digits: a negative power of two is the same
    power of five, shifted. -/
def exact (x : Float) : Scientific :=
  let e := binaryExponent x
  if 0 ≤ e then ⟨mantissa x * Nat.pow 2 e.toNat, 0⟩ else ⟨mantissa x * Nat.pow 5 (-e).toNat, e⟩

/-- The decimal with the fewest digits that reads back as the absolute value of a finite double, and
    of these the nearest to it. Seventeen digits always suffice. -/
def shortest (tie : Tie) (x : Float) : Scientific :=
  if mantissa x = 0 then ⟨0, 0⟩
  else ((List.range' 1 17).findSome? (withDigits tie x)).getD (exact x)

end ImpStack.Decimal
