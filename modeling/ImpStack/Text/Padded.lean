/-
Module: ImpStack.Text.Padded
Purpose: Texts brought to a least width: names by spaces on the right, addresses by zeros on the
  left.
Main exports: padRight, addressText
-/

namespace ImpStack.Text

/-- The text followed by as many spaces as it needs to be `width` characters wide. -/
def padRight (width : Nat) (text : String) : String :=
  text ++ "".pushn ' ' (width - text.length)

/-- An address in decimal, with zeros in front up to four digits. -/
def addressText (address : Nat) : String :=
  let digits := toString address
  "".pushn '0' (4 - digits.length) ++ digits

end ImpStack.Text
