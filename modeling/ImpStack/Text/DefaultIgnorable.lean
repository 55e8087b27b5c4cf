/-
Module: ImpStack.Text.DefaultIgnorable
Purpose: The characters with the Unicode property Default_Ignorable_Code_Point, which leave no mark
  in print: joiners, direction marks, variation selectors and the letters that only fill a place.
Main exports: isDefaultIgnorable
-/

namespace ImpStack.Text

/-- The ranges of code points, ends included, with the Unicode property
    Default_Ignorable_Code_Point. -/
def defaultIgnorableRanges : List (Nat × Nat) :=
  [(0xAD, 0xAD), (0x34F, 0x34F), (0x61C, 0x61C), (0x115F, 0x1160), (0x17B4, 0x17B5),
   (0x180B, 0x180F), (0x200B, 0x200F), (0x202A, 0x202E), (0x2060, 0x206F), (0x3164, 0x3164),
   (0xFE00, 0xFE0F), (0xFEFF, 0xFEFF), (0xFFA0, 0xFFA0), (0xFFF0, 0xFFF8), (0x1BCA0, 0x1BCA3),
   (0x1D173, 0x1D17A), (0xE0000, 0xE0FFF)]

/-- Whether a character has the Unicode property Default_Ignorable_Code_Point. -/
def isDefaultIgnorable (c : Char) : Bool :=
  defaultIgnorableRanges.any fun (first, last) => decide (first ≤ c.toNat ∧ c.toNat ≤ last)

end ImpStack.Text
