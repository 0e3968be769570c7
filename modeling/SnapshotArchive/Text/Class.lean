/-!
# Blanks, digits and numerals

A character class is a list of closed ranges of code points. Names, comments and numbers are read
without the blanks around them; blank are the white-space characters of Unicode and the four
information separators. A whole number in a setting has blanks around it, one sign, decimal digits
of any script, and single underscores between digits.

* `strip_strip` : a stripped text has no blanks around it.
* `digit?` : the decimal digits of all scripts come in blocks of ten, from zero to nine
  (Unicode 14).
* `integer?` : the whole number that a text denotes.
-/

namespace SnapshotArchive.Text

/-- Whether a code point lies in one of the ranges. -/
def inRanges (ranges : List (Nat × Nat)) (point : Nat) : Bool :=
  ranges.any fun r => r.1 ≤ point && point ≤ r.2

/-! ### Blanks -/

/-- The blank code points. -/
def blankRanges : List (Nat × Nat) :=
  [(0x09, 0x0D), (0x1C, 0x20), (0x85, 0x85), (0xA0, 0xA0), (0x1680, 0x1680), (0x2000, 0x200A),
    (0x2028, 0x2029), (0x202F, 0x202F), (0x205F, 0x205F), (0x3000, 0x3000)]

/-- Whether a character is blank. -/
def isBlank (c : Char) : Bool :=
  inRanges blankRanges c.toNat

/-! ### Dropping blanks at both ends -/

/-- The characters between the blanks at both ends. -/
def stripChars (cs : List Char) : List Char :=
  ((cs.dropWhile isBlank).reverse.dropWhile isBlank).reverse

/-- The text without the blanks at both ends. -/
def strip (s : String) : String :=
  String.ofList (stripChars s.toList)

/-- The characters of a stripped text are those between the blanks at both ends. -/
@[simp] theorem toList_strip (s : String) : (strip s).toList = stripChars s.toList :=
  String.toList_ofList

/-- A text is stripped exactly if its characters are. -/
theorem strip_eq_self_iff {s : String} : strip s = s ↔ stripChars s.toList = s.toList := by
  rw [← String.toList_inj, toList_strip]

/-- If the first character of a text is not to be dropped, none is. -/
theorem dropWhile_eq_self {p : Char → Bool} {l : List Char} (h : ∀ c ∈ l.head?, p c = false) :
    l.dropWhile p = l := by
  cases l with
  | nil => rfl
  | cons c l => simp [h c (by simp)]

/-- After dropping, the first character is one that is not dropped. -/
theorem not_blank_head_dropWhile (p : Char → Bool) (l : List Char) :
    ∀ c ∈ (l.dropWhile p).head?, p c = false := by
  induction l with
  | nil => simp
  | cons c l ih =>
    by_cases h : p c
    · simpa [List.dropWhile_cons, h] using ih
    · simp [h]

/-- A stripped text does not start with a blank. -/
theorem not_blank_head_stripChars (cs : List Char) :
    ∀ c ∈ (stripChars cs).head?, isBlank c = false := by
  intro c hc
  have hp : stripChars cs <+: cs.dropWhile isBlank := by
    have := List.dropWhile_suffix (l := (cs.dropWhile isBlank).reverse) isBlank
    simpa [stripChars] using List.reverse_prefix.2 this
  obtain ⟨t, ht⟩ := hp
  refine not_blank_head_dropWhile isBlank cs c ?_
  rw [← ht]
  cases h : stripChars cs with
  | nil => simp [h] at hc
  | cons d l => simpa [h] using hc

/-- A stripped text does not end in a blank. -/
theorem not_blank_getLast_stripChars (cs : List Char) :
    ∀ c ∈ (stripChars cs).getLast?, isBlank c = false := by
  intro c hc
  refine not_blank_head_dropWhile isBlank (cs.dropWhile isBlank).reverse c ?_
  simpa [stripChars] using hc

/-- A text is stripped exactly if it neither starts with a blank nor ends in one. -/
theorem stripChars_eq_self_iff {cs : List Char} :
    stripChars cs = cs ↔
      (∀ c ∈ cs.head?, isBlank c = false) ∧ ∀ c ∈ cs.getLast?, isBlank c = false := by
  constructor
  · intro h
    rw [← h]
    exact ⟨not_blank_head_stripChars cs, not_blank_getLast_stripChars cs⟩
  · rintro ⟨hh, hl⟩
    rw [stripChars, dropWhile_eq_self hh, dropWhile_eq_self (by simpa using hl),
      List.reverse_reverse]

/-- Stripping once is enough. -/
theorem stripChars_stripChars (cs : List Char) : stripChars (stripChars cs) = stripChars cs :=
  stripChars_eq_self_iff.2 ⟨not_blank_head_stripChars cs, not_blank_getLast_stripChars cs⟩

/-- A stripped text has no blanks around it. -/
theorem strip_strip (s : String) : strip (strip s) = strip s := by
  rw [strip_eq_self_iff, toList_strip, stripChars_stripChars]

/-! ### Digits -/

/-- The code points of the digits zero. -/
def zeroDigits : List Nat :=
  [0x30, 0x660, 0x6F0, 0x7C0, 0x966, 0x9E6, 0xA66, 0xAE6, 0xB66, 0xBE6, 0xC66, 0xCE6, 0xD66,
    0xDE6, 0xE50, 0xED0, 0xF20, 0x1040, 0x1090, 0x17E0, 0x1810, 0x1946, 0x19D0, 0x1A80, 0x1A90,
    0x1B50, 0x1BB0, 0x1C40, 0x1C50, 0xA620, 0xA8D0, 0xA900, 0xA9D0, 0xA9F0, 0xAA50, 0xABF0,
    0xFF10, 0x104A0, 0x10D30, 0x11066, 0x110F0, 0x11136, 0x111D0, 0x112F0, 0x11450, 0x114D0,
    0x11650, 0x116C0, 0x11730, 0x118E0, 0x11950, 0x11C50, 0x11D50, 0x11DA0, 0x16A60, 0x16AC0,
    0x16B50, 0x1D7CE, 0x1D7D8, 0x1D7E2, 0x1D7EC, 0x1D7F6, 0x1E140, 0x1E2F0, 0x1E950, 0x1FBF0]

/-- The value of a decimal digit of any script. -/
def digit? (c : Char) : Option Nat :=
  (zeroDigits.find? fun z => z ≤ c.toNat && c.toNat < z + 10).map (c.toNat - ·)

example : "0123456789".toList.map digit? = (List.range 10).map some := by
  decide

/-! ### Numerals -/

/-- Reads digits on from the value `value`; `afterDigit` says whether the last character was a
digit, as the end and an underscore require. -/
def readDigits (value : Nat) (afterDigit : Bool) : List Char → Option Nat
  | [] => if afterDigit then some value else none
  | c :: cs =>
    if c = '_' then
      if afterDigit then readDigits value false cs else none
    else
      match digit? c with
      | some d => readDigits (10 * value + d) true cs
      | none => none

/-- Reads a sign and digits. -/
def readSigned : List Char → Option Int
  | '-' :: cs => (readDigits 0 false cs).map fun n => -(n : Int)
  | '+' :: cs => (readDigits 0 false cs).map fun n => (n : Int)
  | cs => (readDigits 0 false cs).map fun n => (n : Int)

/-- The blanks allowed around a numeral: all but the information separators. -/
def isNumeralBlank (c : Char) : Bool :=
  isBlank c && !inRanges [(0x1C, 0x1F)] c.toNat

/-- The whole number that a text denotes, if it is a numeral. -/
def integer? (s : String) : Option Int :=
  readSigned ((s.toList.dropWhile isNumeralBlank).reverse.dropWhile isNumeralBlank).reverse

end SnapshotArchive.Text
