import SnapshotArchive.Text.Printable

/-!
# Quoted texts

Messages show a text that was refused in quotes, so that blanks and control characters in it can
be told apart. The quotes are single, or double when the text holds a single quote and no double
one; the quote in use and the backslash are escaped, and a character that is not printable is
written by its code point.
-/

namespace SnapshotArchive.Text

/-- One hexadecimal digit, in lower case. -/
def hexDigit (n : Nat) : Char :=
  if n < 10 then Char.ofNat (48 + n) else Char.ofNat (87 + n)

/-- The last `width` hexadecimal digits of a number. -/
def hexDigits : (width : Nat) → (n : Nat) → List Char
  | 0, _ => []
  | width + 1, n => hexDigits width (n / 16) ++ [hexDigit (n % 16)]

/-- The escape of a character by its code point: two, four or eight digits. -/
def escapedPoint (n : Nat) : List Char :=
  if n < 0x100 then '\\' :: 'x' :: hexDigits 2 n
  else if n < 0x10000 then '\\' :: 'u' :: hexDigits 4 n
  else '\\' :: 'U' :: hexDigits 8 n

/-- A character inside quotes `quote`. -/
def quotedChar (quote c : Char) : List Char :=
  if c = quote || c = '\\' then ['\\', c]
  else if c = '\n' then ['\\', 'n']
  else if c = '\r' then ['\\', 'r']
  else if c = '\t' then ['\\', 't']
  else if isPrintable c then [c]
  else escapedPoint c.toNat

/-- The quote that a text is put in. -/
def quoteOf (s : String) : Char :=
  if s.toList.contains '\'' && !s.toList.contains '"' then '"' else '\''

/-- A text in quotes. -/
def quoted (s : String) : String :=
  let quote := quoteOf s
  String.ofList (quote :: s.toList.flatMap (quotedChar quote) ++ [quote])

/-- A text in quotes, or the word for a missing one. -/
def quotedOrNone : Option String → String
  | some s => quoted s
  | none => "None"

/-- A text as it is, or the word for a missing one. -/
def plain : Option String → String
  | some s => s
  | none => "None"

end SnapshotArchive.Text
