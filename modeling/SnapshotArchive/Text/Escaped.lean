import SnapshotArchive.Text.Quoted

/-!
# Escaped texts

How a text is written in a document: between double quotes, in plain characters only. Every other
character is written by its code units of 16 bits, so that one beyond the basic plane takes two.

* `units16` : the code units of a character.
* `readEscaped` : reads a text up to its closing quote.
-/

namespace SnapshotArchive.Text

/-! ### Writing -/

/-- The code units of a character: one, or a high and a low surrogate. -/
def units16 (c : Char) : List Nat :=
  if c.toNat < 0x10000 then [c.toNat]
  else
    let n := c.toNat - 0x10000
    [0xD800 + n / 0x400, 0xDC00 + n % 0x400]

/-- The characters with an escape of their own, and the letter of it. -/
def shortEscapes : List (Char × Char) :=
  [('"', '"'), ('\\', '\\'), ('\n', 'n'), ('\r', 'r'), ('\t', 't'), ('\x08', 'b'), ('\x0c', 'f')]

/-- A character of an escaped text. -/
def escapedChar (c : Char) : List Char :=
  match shortEscapes.lookup c with
  | some letter => ['\\', letter]
  | none =>
    if 0x20 ≤ c.toNat && c.toNat < 0x7F then [c]
    else (units16 c).flatMap fun unit => '\\' :: 'u' :: hexDigits 4 unit

/-- A text between double quotes. -/
def escaped (s : String) : String :=
  String.ofList ('"' :: s.toList.flatMap escapedChar ++ ['"'])

/-! ### Reading -/

/-- The value of a hexadecimal digit. -/
def hexValue? (c : Char) : Option Nat :=
  if '0' ≤ c && c ≤ '9' then some (c.toNat - 48)
  else if 'a' ≤ c && c ≤ 'f' then some (c.toNat - 87)
  else if 'A' ≤ c && c ≤ 'F' then some (c.toNat - 55)
  else none

/-- The code unit of four hexadecimal digits. -/
def unit? (a b c d : Char) : Option Nat := do
  let a ← hexValue? a
  let b ← hexValue? b
  let c ← hexValue? c
  let d ← hexValue? d
  return ((a * 16 + b) * 16 + c) * 16 + d

/-- The character that an escape letter stands for. -/
def unescaped? (letter : Char) : Option Char :=
  if letter = '/' then some '/' else (shortEscapes.find? (·.2 = letter)).map (·.1)

/-- Puts a character in front of a text that was read. -/
def consRead (c : Char) : Option (List Char × List Char) → Option (List Char × List Char) :=
  Option.map fun (text, rest) => (c :: text, rest)

/-- Puts a code unit in front of a text that was read; a high surrogate joins the low one that
`low?` holds, and a lone one becomes the replacement character. -/
def unitChar (unit : Nat) (low? : Option Nat) : Char :=
  match low? with
  | some low => Char.ofNat (0x10000 + (unit - 0xD800) * 0x400 + (low - 0xDC00))
  | none => if 0xD800 ≤ unit && unit < 0xE000 then Char.ofNat 0xFFFD else Char.ofNat unit

/-- Whether two code units are a high and a low surrogate. -/
def isPair (high low : Nat) : Bool :=
  0xD800 ≤ high && high < 0xDC00 && 0xDC00 ≤ low && low < 0xE000

/-- Reads a text up to its closing quote; gives the text and what follows the quote. -/
def readEscaped : List Char → Option (List Char × List Char)
  | [] => none
  | '"' :: rest => some ([], rest)
  | '\\' :: 'u' :: a :: b :: c :: d :: '\\' :: 'u' :: e :: f :: g :: h :: rest =>
    match unit? a b c d, unit? e f g h with
    | some high, some low =>
      if isPair high low then consRead (unitChar high low) (readEscaped rest)
      else consRead (unitChar high none) (readEscaped ('\\' :: 'u' :: e :: f :: g :: h :: rest))
    | _, _ => none
  | '\\' :: 'u' :: a :: b :: c :: d :: rest =>
    match unit? a b c d with
    | some unit => consRead (unitChar unit none) (readEscaped rest)
    | none => none
  | '\\' :: letter :: rest =>
    match unescaped? letter with
    | some c => consRead c (readEscaped rest)
    | none => none
  | c :: rest => consRead c (readEscaped rest)

end SnapshotArchive.Text
