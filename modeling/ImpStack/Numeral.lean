/-
Module: ImpStack.Numeral
Purpose: Numerals as they are written, digit by digit: their text, reading them, and the number that
  they denote.
Main exports: Sign, Numeral, Numeral.text, Numeral.ofChars?, Numeral.toInt, Numeral.toFloat
-/
import ImpStack.Decimal.Scientific

namespace ImpStack

/-- A written sign. -/
inductive Sign where
  | plus
  | minus
deriving DecidableEq, Inhabited

/-- How a sign is written. -/
def Sign.char : Sign → Char
  | plus => '+'
  | minus => '-'

/-- The parts of a numeral as they are written. -/
structure Numeral where
  sign : Option Sign
  /-- The digits before the point. -/
  whole : List Char
  /-- The digits after the point, when there is a point. -/
  fraction : Option (List Char)
  /-- The sign and digits after the exponent mark, when there is one. -/
  exponent : Option (Option Sign × List Char)
deriving DecidableEq, Inhabited

/-! ### Parts of a text -/

/-- A sign at the front of a text, if there is one, and the rest. -/
def splitSign : List Char → Option Sign × List Char
  | '+' :: rest => (some .plus, rest)
  | '-' :: rest => (some .minus, rest)
  | text => (none, text)

/-- The text before the first character of a class, and the text after it if there is one. -/
def splitAtFirst (mark : Char → Bool) : List Char → List Char × Option (List Char)
  | [] => ([], none)
  | c :: rest =>
    if mark c then ([], some rest)
    else (c :: (splitAtFirst mark rest).1, (splitAtFirst mark rest).2)

/-- Whether a character marks the exponent of a numeral. -/
def isExponentMark (c : Char) : Bool := c == 'e' || c == 'E'

/-- Whether a text consists of one or more ASCII digits. -/
def isDigits (text : List Char) : Bool := !text.isEmpty && text.all Char.isDigit

namespace Numeral

/-- The text of a numeral; its exponent is marked by a small `e`. -/
def text (n : Numeral) : List Char :=
  (n.sign.map Sign.char).toList ++ n.whole ++
    (match n.fraction with
      | some digits => '.' :: digits
      | none => []) ++
    (match n.exponent with
      | some (sign, digits) => 'e' :: (sign.map Sign.char).toList ++ digits
      | none => [])

/-- The numeral of an integer. -/
def ofInt (n : Int) : Numeral :=
  ⟨if n < 0 then some .minus else none, Nat.toDigits 10 n.natAbs, none, none⟩

/-- The numeral of a natural number. -/
def ofNat (n : Nat) : Numeral := ⟨none, Nat.toDigits 10 n, none, none⟩

/-- The parts of a text that has the form of a numeral: an optional sign, digits, optionally a point
    with any number of digits, optionally an `e` or `E` with an optional sign and digits. -/
def ofChars? (text : List Char) : Option Numeral :=
  let (sign, unsigned) := splitSign text
  let (significand, exponent) := splitAtFirst isExponentMark unsigned
  let (whole, fraction) := splitAtFirst (· == '.') significand
  let exponent := exponent.map splitSign
  if isDigits whole && fraction.all (·.all Char.isDigit) && exponent.all (isDigits ·.2) then
    some ⟨sign, whole, fraction, exponent⟩
  else none

/-! ### The number that a numeral denotes -/

/-- Whether the numeral is written without a point and without an exponent. -/
def isInteger (n : Numeral) : Bool := n.fraction.isNone && n.exponent.isNone

/-- Whether a minus stands in front of the numeral. -/
def isNegative (n : Numeral) : Bool := n.sign = some .minus

/-- The number of an integer numeral. -/
def toInt (n : Numeral) : Int :=
  if n.isNegative then -(Decimal.natOfDigits n.whole : Int) else Decimal.natOfDigits n.whole

/-- The power of ten after the exponent mark; zero if there is none. -/
def powerOfTen (n : Numeral) : Int :=
  match n.exponent with
  | some (some .minus, digits) => -(Decimal.natOfDigits digits : Int)
  | some (_, digits) => Decimal.natOfDigits digits
  | none => 0

/-- The digits of the numeral as one whole number, with the power of ten that puts the point in its
    place. The sign does not count. -/
def toScientific (n : Numeral) : Decimal.Scientific :=
  let fraction := n.fraction.getD []
  ⟨Decimal.natOfDigits (n.whole ++ fraction), n.powerOfTen - fraction.length⟩

/-- The double nearest to the numeral's number, ties to even; what is too large is infinite, and the
    sign of a zero is kept. -/
def toFloat (n : Numeral) : Float :=
  if n.isNegative then -n.toScientific.toFloat else n.toScientific.toFloat

end Numeral

end ImpStack
