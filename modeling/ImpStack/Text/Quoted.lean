/-
Module: ImpStack.Text.Quoted
Purpose: Texts between quotes as listings show them: what cannot be seen in print is escaped.
Main exports: quoteChar, quote
-/
import ImpStack.Text.Printable

namespace ImpStack.Text

/-- The backslash form of a character by its code point in lower-case hexadecimal. -/
def codePointEscape (c : Char) : List Char :=
  ['\\', 'u', '\x7b'] ++ Nat.toDigits 16 c.toNat ++ ['\x7d']

/-- The form of a character between quotes: five characters and the null character have a short
    escape, and any other character that is not printable is shown by its code point. An apostrophe
    stays as it is. -/
def quoteChar (c : Char) : List Char :=
  match c with
  | '\x00' => ['\\', '0']
  | '\t' => ['\\', 't']
  | '\r' => ['\\', 'r']
  | '\n' => ['\\', 'n']
  | '\\' => ['\\', '\\']
  | '"' => ['\\', '"']
  | c => if isPrintable c then [c] else codePointEscape c

/-- A text between quotes. -/
def quote (s : String) : String :=
  String.ofList ('"' :: s.toList.flatMap quoteChar ++ ['"'])

end ImpStack.Text
