/-
Module: ImpStack.Json
Purpose: JSON as a tree. Nothing that its text says is lost but blanks and the spelling of escapes:
  numbers are kept as they are written, members in their order, repeated ones included.
Main exports: Json, Json.ofString, Json.text?
-/
import ImpStack.Numeral

namespace ImpStack

/-- A JSON tree. A quoted text is kept as its code points, because it may name half of a surrogate
    pair, which is no character. -/
inductive Json where
  | null
  | bool (b : Bool)
  | number (n : Numeral)
  | string (codePoints : List Nat)
  | array (items : List Json)
  | object (members : List (List Nat × Json))
deriving Inhabited

namespace Json

/-- The code points of a text. -/
def codePoints (s : String) : List Nat := s.toList.map Char.toNat

/-- The character of a code point, if it has one. -/
def char? (n : Nat) : Option Char := if n.isValidChar then some (Char.ofNat n) else none

/-- The text of code points, if all of them are characters. -/
def text? (codePoints : List Nat) : Option String := String.ofList <$> codePoints.mapM char?

/-- A text as JSON. -/
def ofString (s : String) : Json := string (codePoints s)

/-- An object with these members. -/
def ofMembers (members : List (String × Json)) : Json :=
  object (members.map fun (key, value) => (codePoints key, value))

end Json

end ImpStack
