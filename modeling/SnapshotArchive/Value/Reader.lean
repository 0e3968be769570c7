import SnapshotArchive.Value
import SnapshotArchive.Text.Escaped

/-!
# Reading values

The inverse of writing a value: a document in one or several lines is read back into the value.

* `Value.ofText?` : the value of a whole document.
-/

namespace SnapshotArchive

open Text

namespace Value

/-! ### Words and numbers -/

/-- Whether a character may stand between the parts of a document. -/
def isSpace (c : Char) : Bool :=
  c = ' ' || c = '\n' || c = '\r' || c = '\t'

/-- Whether a character belongs to a word or a number. -/
def isWordChar (c : Char) : Bool :=
  c.isAlphanum || c = '-' || c = '+' || c = '.'

/-- Whether characters are a whole number in decimal digits. -/
def isWhole : List Char → Bool
  | '-' :: cs => cs ≠ [] && cs.all Char.isDigit
  | cs => cs ≠ [] && cs.all Char.isDigit

/-- The number that decimal digits denote. -/
def digitsValue (cs : List Char) : Nat :=
  cs.foldl (fun n c => 10 * n + (c.toNat - 48)) 0

/-- The whole number that characters denote. -/
def wholeValue : List Char → Int
  | '-' :: cs => -digitsValue cs
  | cs => digitsValue cs

/-- Whether characters are a floating-point number. -/
def isReal (cs : List Char) : Bool :=
  cs.any Char.isDigit && cs.all fun c => c.isDigit || "+-.eE".toList.contains c

/-- The value of a word or a number. -/
def ofWord? (cs : List Char) : Option Value :=
  match String.ofList cs with
  | "null" => some null
  | "true" => some (truth true)
  | "false" => some (truth false)
  | "nan" => some (real "nan")
  | "inf" => some (real "inf")
  | "-inf" => some (real "-inf")
  | word =>
    if isWhole cs then some (whole (wholeValue cs))
    else if isReal cs then some (real word)
    else none

/-! ### Values -/

mutual

/-- Reads one value and gives what follows it. -/
def readValue : (fuel : Nat) → List Char → Option (Value × List Char)
  | 0, _ => none
  | fuel + 1, cs =>
    match cs.dropWhile isSpace with
    | '"' :: rest => (readEscaped rest).map fun (s, rest) => (text (String.ofList s), rest)
    | '[' :: rest => (readElements fuel rest).map fun (vs, rest) => (list vs, rest)
    | '\x7b' :: rest => (readFields fuel rest).map fun (fs, rest) => (record fs, rest)
    | rest => (ofWord? (rest.takeWhile isWordChar)).map (·, rest.dropWhile isWordChar)

/-- Reads the elements of a list up to its closing bracket. -/
def readElements : (fuel : Nat) → List Char → Option (List Value × List Char)
  | 0, _ => none
  | fuel + 1, cs =>
    match cs.dropWhile isSpace with
    | ']' :: rest => some ([], rest)
    | ',' :: rest => readElements fuel rest
    | rest => do
      let (v, rest) ← readValue fuel rest
      let (vs, rest) ← readElements fuel rest
      return (v :: vs, rest)

/-- Reads the fields of a record up to its closing bracket. -/
def readFields : (fuel : Nat) → List Char → Option (List (String × Value) × List Char)
  | 0, _ => none
  | fuel + 1, cs =>
    match cs.dropWhile isSpace with
    | '\x7d' :: rest => some ([], rest)
    | ',' :: rest => readFields fuel rest
    | '"' :: rest => do
      let (name, rest) ← readEscaped rest
      match rest.dropWhile isSpace with
      | ':' :: rest =>
        let (v, rest) ← readValue fuel rest
        let (fs, rest) ← readFields fuel rest
        return ((String.ofList name, v) :: fs, rest)
      | _ => none
    | _ => none

end

/-- The value of a document. -/
def ofText? (s : String) : Option Value :=
  let cs := s.toList
  match readValue (cs.length + 1) cs with
  | some (v, rest) => if rest.all isSpace then some v else none
  | none => none

/-! ### Taking values apart -/

/-- A field of a record. -/
def field? (name : String) : Value → Option Value
  | record fields => fields.lookup name
  | _ => none

/-- The text of a value. -/
def text? : Value → Option String
  | text s => some s
  | _ => none

/-- The whole number of a value. -/
def whole? : Value → Option Int
  | whole n => some n
  | _ => none

/-- The truth value of a value. -/
def truth? : Value → Option Bool
  | truth b => some b
  | _ => none

/-- The elements of a list. -/
def list? : Value → Option (List Value)
  | list elements => some elements
  | _ => none

end Value

end SnapshotArchive
