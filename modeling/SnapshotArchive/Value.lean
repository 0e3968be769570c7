import SnapshotArchive.Text.Escaped

/-!
# Captured values

The value of a process variable is any tree of data that has a stored form. It is stored and given
back as it is; the archive asks of it only whether it can be stored at all. A value is written as a
document: on one line, or with one element a line and an indent of two blanks. The fields of a
record are written in ascending order of their names.

* `Value.compact` : on one line.
* `Value.pretty` : on several lines.
-/

namespace SnapshotArchive

open Text

/-- A captured value. -/
inductive Value where
  | null
  | truth (b : Bool)
  | whole (n : Int)
  /-- A floating-point number, by its shortest text. -/
  | real (text : String)
  | text (s : String)
  | list (elements : List Value)
  | record (fields : List (String × Value))
  /-- An object that has no stored form. -/
  | foreign
  deriving Inhabited

namespace Value

mutual

/-- Whether a value has a stored form: no part of it is foreign. -/
def isStorable : Value → Bool
  | foreign => false
  | list elements => areStorable elements
  | record fields => fieldsStorable fields
  | _ => true

/-- Whether all of a list have a stored form. -/
def areStorable : List Value → Bool
  | [] => true
  | v :: vs => v.isStorable && areStorable vs

/-- Whether all values of a record have a stored form. -/
def fieldsStorable : List (String × Value) → Bool
  | [] => true
  | (_, v) :: fs => v.isStorable && fieldsStorable fs

end

/-- Fields in ascending order of names. -/
def byName (fields : List (String × String)) : List (String × String) :=
  fields.mergeSort (·.1 ≤ ·.1)

/-! ### On one line -/

mutual

/-- A value on one line. What has no stored form is written as nothing. -/
def compact : Value → String
  | null => "null"
  | truth b => if b then "true" else "false"
  | whole n => toString n
  | real digits => digits
  | text s => escaped s
  | list elements => "[" ++ ", ".intercalate (compactAll elements) ++ "]"
  | record fields =>
    let written := (byName (compactFields fields)).map fun f => s!"{escaped f.1}: {f.2}"
    "\x7b" ++ ", ".intercalate written ++ "\x7d"
  | foreign => "null"

/-- The elements of a list, each on one line. -/
def compactAll : List Value → List String
  | [] => []
  | v :: vs => v.compact :: compactAll vs

/-- The fields of a record, each value on one line. -/
def compactFields : List (String × Value) → List (String × String)
  | [] => []
  | (name, v) :: fs => (name, v.compact) :: compactFields fs

end

/-! ### On several lines -/

/-- Parts between brackets, one a line, with an indent one deeper than that of the brackets. -/
def bracketed (opening closing : String) (depth : Nat) (parts : List String) : String :=
  let indent (depth : Nat) := "\n" ++ String.ofList (List.replicate (2 * depth) ' ')
  if parts.isEmpty then opening ++ closing
  else
    let lines := parts.map (indent (depth + 1) ++ ·)
    opening ++ ",".intercalate lines ++ indent depth ++ closing

mutual

/-- A value on several lines, of which all but the first are indented for `depth`. -/
def prettyAt (depth : Nat) : Value → String
  | list elements => bracketed "[" "]" depth (prettyAll (depth + 1) elements)
  | record fields =>
    let written := (byName (prettyFields (depth + 1) fields)).map fun f => s!"{escaped f.1}: {f.2}"
    bracketed "\x7b" "\x7d" depth written
  | v => v.compact

/-- The elements of a list. -/
def prettyAll (depth : Nat) : List Value → List String
  | [] => []
  | v :: vs => v.prettyAt depth :: prettyAll depth vs

/-- The fields of a record. -/
def prettyFields (depth : Nat) : List (String × Value) → List (String × String)
  | [] => []
  | (name, v) :: fs => (name, v.prettyAt depth) :: prettyFields depth fs

end

/-- A value on several lines. -/
def pretty (v : Value) : String :=
  v.prettyAt 0

end Value

end SnapshotArchive
