/-
Module: ImpStack.Decimal.Magnitude
Purpose: The exact value of a finite double, as a sign and a quotient of two natural numbers.
Main exports: Ratio, isNegative, mantissa, binaryExponent, magnitude, Ratio.isWhole
-/

namespace ImpStack.Decimal

/-- A non-negative rational number; the denominator is positive wherever this module makes one. -/
structure Ratio where
  numerator : Nat
  denominator : Nat
deriving DecidableEq, Inhabited

/-- Whether the quotient is a natural number. -/
def Ratio.isWhole (r : Ratio) : Bool := r.numerator % r.denominator == 0

/-- The quotient without its fractional part. -/
def Ratio.floor (r : Ratio) : Nat := r.numerator / r.denominator

/-- The quotient divided by `10 ^ k`. -/
def Ratio.downBy (r : Ratio) (k : Int) : Ratio :=
  if 0 ≤ k then ⟨r.numerator, r.denominator * Nat.pow 10 k.toNat⟩
  else ⟨r.numerator * Nat.pow 10 (-k).toNat, r.denominator⟩

/-- Whether the sign bit of a double is set; it is for `-0.0`. -/
def isNegative (x : Float) : Bool := decide (Nat.pow 2 63 ≤ x.toBits.toNat)

/-- The eleven bits of a double that hold its biased exponent. -/
def biasedExponent (x : Float) : Nat := x.toBits.toNat / Nat.pow 2 52 % Nat.pow 2 11

/-- The significand of a finite double as an integer: the leading bit is implicit unless the biased
    exponent is zero. -/
def mantissa (x : Float) : Nat :=
  let fraction := x.toBits.toNat % Nat.pow 2 52
  if biasedExponent x = 0 then fraction else fraction + Nat.pow 2 52

/-- The power of two that the significand is multiplied by. -/
def binaryExponent (x : Float) : Int := (max (biasedExponent x) 1 : Nat) - 1075

/-- The absolute value of a finite double, exactly. -/
def magnitude (x : Float) : Ratio :=
  let e := binaryExponent x
  if 0 ≤ e then ⟨mantissa x * Nat.pow 2 e.toNat, 1⟩ else ⟨mantissa x, Nat.pow 2 (-e).toNat⟩

end ImpStack.Decimal
