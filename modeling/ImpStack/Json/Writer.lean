/-
Module: ImpStack.Json.Writer
Purpose: The text of a JSON tree, without blanks.
Main exports: Json.writeCode, Json.write
-/
import ImpStack.Json

namespace ImpStack.Json

/-- The four hexadecimal digits of a code point below `10000` hexadecimal. -/
def fourDigits (n : Nat) : List Char :=
  [n / 0x1000, n / 0x100, n / 0x10, n].map fun d => Nat.digitChar (d % 0x10)

/-- Whether a code point is half of a surrogate pair. -/
def isSurrogate (n : Nat) : Bool := decide (0xD800 ≤ n ∧ n ≤ 0xDFFF)

/-- A code point between quotes: quotes and backslashes are escaped, controls by a letter if they
    have one and else by their digits, as are halves of surrogate pairs; all else is raw. -/
def writeCode (n : Nat) : List Char :=
  match n with
  | 0x22 => ['\\', '"']
  | 0x5C => ['\\', '\\']
  | 0x08 => ['\\', 'b']
  | 0x09 => ['\\', 't']
  | 0x0A => ['\\', 'n']
  | 0x0C => ['\\', 'f']
  | 0x0D => ['\\', 'r']
  | n =>
    if n < 0x20 || isSurrogate n then ['\\', 'u'] ++ fourDigits n else [Char.ofNat n]

/-- A text between quotes. -/
def writeText (codePoints : List Nat) : List Char :=
  '"' :: codePoints.flatMap writeCode ++ ['"']

mutual

/-- The text of a tree. -/
def write : Json → List Char
  | null => ['n', 'u', 'l', 'l']
  | bool true => ['t', 'r', 'u', 'e']
  | bool false => ['f', 'a', 'l', 's', 'e']
  | number n => n.text
  | string codePoints => writeText codePoints
  | array items => '[' :: writeItems items ++ [']']
  | object members => '\x7b' :: writeMembers members ++ ['\x7d']

/-- The items of an array with commas between them. -/
def writeItems : List Json → List Char
  | [] => []
  | [item] => write item
  | item :: rest => write item ++ ',' :: writeItems rest

/-- The members of an object with commas between them. -/
def writeMembers : List (List Nat × Json) → List Char
  | [] => []
  | [(key, value)] => writeText key ++ ':' :: write value
  | (key, value) :: rest => writeText key ++ ':' :: write value ++ ',' :: writeMembers rest

end

end ImpStack.Json
