/-
Module: ImpStack.Literal
Purpose: Reading the text of a literal: numerals, quoted texts and truth values. The text is only
  ever read as one literal, never evaluated.
Main exports: LiteralError, Numeral.value?, unescape, readLiteral
-/
import ImpStack.Numeral
import ImpStack.Value
import ImpStack.Text.Blank

namespace ImpStack

/-- Why a text is not a literal. -/
inductive LiteralError where
  /-- Nothing but blanks. -/
  | empty
  /-- It starts as a numeral and is none, or is an integer outside the signed 64-bit range. -/
  | invalidNumber (text : String)
  /-- It starts with a quote, and its closing quote is missing or is not its last character. -/
  | unterminatedString (text : String)
  /-- A backslash is followed by a character that it does not escape. -/
  | invalidEscape (c : Char)
  /-- No form of literal starts like this. -/
  | unrecognized (text : String)
deriving DecidableEq, Inhabited

/-- The text of a literal error. -/
def LiteralError.message : LiteralError → String
  | empty => "empty literal"
  | invalidNumber text => "invalid numeric literal '" ++ text ++ "'"
  | unterminatedString text => "unterminated string literal " ++ text
  | invalidEscape c => "unknown escape sequence '\\" ++ c.toString ++ "' in string literal"
  | unrecognized text => "unrecognized literal '" ++ text ++ "'"

/-! ### Quoted texts -/

/-- The character that a backslash and `c` stand for. -/
def escapedChar? : Char → Option Char
  | 'n' => some '\n'
  | 't' => some '\t'
  | 'r' => some '\r'
  | '0' => some '\x00'
  | '\\' => some '\\'
  | '"' => some '"'
  | '\'' => some '\''
  | _ => none

/-- Resolve the escapes between two quotes. A quote that stands alone and a backslash at the end
    give the error `unterminated`; the leftmost fault decides. -/
def unescape (unterminated : LiteralError) : List Char → Except LiteralError (List Char)
  | [] => .ok []
  | '"' :: _ => .error unterminated
  | '\\' :: [] => .error unterminated
  | '\\' :: c :: rest =>
    match escapedChar? c with
    | some meant => (meant :: ·) <$> unescape unterminated rest
    | none => .error (.invalidEscape c)
  | c :: rest => (c :: ·) <$> unescape unterminated rest

/-! ### Literals -/

/-- The value of a numeral: an integer, which must lie in the signed 64-bit range, if it is written
    as one, and a double otherwise. -/
def Numeral.value? (n : Numeral) : Option Value :=
  if n.isInteger then (exactInt64? n.toInt).map .int else some (.float n.toFloat)

/-- Read a quoted text; `afterQuote` is what follows its opening quote. -/
def readQuoted (text : String) (afterQuote : List Char) : Except LiteralError Value :=
  if afterQuote.getLast? = some '"' then
    (fun content => .str (String.ofList content)) <$>
      unescape (.unterminatedString text) afterQuote.dropLast
  else .error (.unterminatedString text)

/-- Read a numeral. -/
def readNumeral (text : List Char) : Except LiteralError Value :=
  match (Numeral.ofChars? text).bind Numeral.value? with
  | some value => .ok value
  | none => .error (.invalidNumber (String.ofList text))

/-- Read the text of a literal. Blanks around it do not count; its first character decides its
    form. -/
def readLiteral (source : String) : Except LiteralError Value :=
  let text := Text.trim source.toList
  match text with
  | [] => .error .empty
  | '"' :: rest => readQuoted (String.ofList text) rest
  | c :: _ =>
    if c.isDigit || c == '+' || c == '-' then readNumeral text
    else
      match String.ofList text with
      | "true" | "True" => .ok (.bool true)
      | "false" | "False" => .ok (.bool false)
      | other => .error (.unrecognized other)

end ImpStack
