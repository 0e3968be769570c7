import SnapshotArchive.Text.CaseTable

/-!
# Letter case

Settings and flags are read without regard to case. `lower` is the full lower case of a text, with
the capital sigma written as a final one at the end of a word; `upperPlain` raises the characters
whose upper case is plain text, which is all that a comparison with a plain word can see.
-/

namespace SnapshotArchive.Text

/-! ### Lower case -/

/-- The lower case of a character on its own. -/
def lowerChar (c : Char) : List Char :=
  if c.toNat = 0x130 then ['i', Char.ofNat 0x307]
  else
    match lowerRuns.find? fun (first, last, step, _) =>
      first ≤ c.toNat && c.toNat ≤ last && (c.toNat - first) % step = 0 with
    | some (first, _, _, image) => [Char.ofNat (c.toNat - first + image)]
    | none => [c]

/-- Whether a character is cased. -/
def isCased (c : Char) : Bool :=
  inRanges casedRanges c.toNat

/-- Whether the rule for a final sigma skips a character. -/
def isCaseIgnorable (c : Char) : Bool :=
  inRanges caseIgnorableRanges c.toNat

/-- Whether the first character that counts is cased. -/
def startsCased (cs : List Char) : Bool :=
  match cs.dropWhile isCaseIgnorable with
  | c :: _ => isCased c
  | [] => false

/-- Lowers a text; `afterCased` says whether the last character that counts was cased. A capital
sigma is final after a cased character and before none. -/
def lowerChars (afterCased : Bool) : List Char → List Char
  | [] => []
  | c :: cs =>
    let image :=
      if c.toNat = 0x3A3 then
        [Char.ofNat (if afterCased && !startsCased cs then 0x3C2 else 0x3C3)]
      else lowerChar c
    image ++ lowerChars (if isCaseIgnorable c then afterCased else isCased c) cs

/-- The lower case of a text. -/
def lower (s : String) : String :=
  String.ofList (lowerChars false s.toList)

/-! ### Plain upper case -/

/-- The characters outside plain text whose upper case is plain. -/
def plainUppers : List (Nat × String) :=
  [(0xDF, "SS"), (0x131, "I"), (0x17F, "S"), (0xFB00, "FF"), (0xFB01, "FI"), (0xFB02, "FL"),
    (0xFB03, "FFI"), (0xFB04, "FFL"), (0xFB05, "ST"), (0xFB06, "ST")]

/-- The text with every character raised whose upper case is plain. -/
def upperPlain (s : String) : String :=
  String.ofList (s.toList.flatMap fun c =>
    match plainUppers.lookup c.toNat with
    | some image => image.toList
    | none => [c.toUpper])

end SnapshotArchive.Text
