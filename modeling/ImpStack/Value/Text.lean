/-
Module: ImpStack.Value.Text
Purpose: The text of a value, as the host function `print` writes it.
Main exports: finiteNumeral, floatText, Value.text
-/
import ImpStack.Decimal.Layout
import ImpStack.Decimal.Shortest
import ImpStack.Value

namespace ImpStack

open Decimal

/-- The numeral of a finite double: a whole one is written exactly with a zero after the point,
    another one with the fewest digits that read back (of two equally near the larger), never with
    a power of ten. -/
def finiteNumeral (x : Float) : Numeral :=
  let r := magnitude x
  positional (isNegative x) (if r.isWhole then ⟨r.floor, 0⟩ else shortest .up x)

/-- The text of a double. -/
def floatText (x : Float) : String :=
  if x.isNaN then "NaN"
  else if x.isInf then (if isNegative x then "-inf" else "inf")
  else String.ofList (finiteNumeral x).text

/-- The text of a value. -/
def Value.text : Value → String
  | int n => String.ofList (Numeral.ofInt n.toInt).text
  | float x => floatText x
  | str s => s
  | bool b => if b then "true" else "false"
  | nil => "nil"

end ImpStack
