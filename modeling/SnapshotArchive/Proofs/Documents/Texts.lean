import SnapshotArchive.Text.Escaped
import Mathlib.Tactic.IntervalCases

/-!
# Escaped texts are read back

A text is read back from its escaped form, whatever characters are in it and whatever follows its
closing quote. A character is written in one of four ways, and for each of them there is a lemma
that says what the reader makes of it.

* `readEscaped_letter`, `readEscaped_plain`, `readEscaped_unit`, `readEscaped_pair` : the four ways.
* `readEscaped_escaped` : a whole text.
-/

namespace SnapshotArchive.Text

/-! ### Hexadecimal digits -/

/-- A hexadecimal digit is read back. -/
theorem hexValue?_hexDigit {n : Nat} (h : n < 16) : hexValue? (hexDigit n) = some n := by
  interval_cases n <;> decide

/-- A code unit is read back from its four digits. -/
theorem unit?_hexDigits {n : Nat} (h : n < 0x10000) :
    ∃ a b c d, hexDigits 4 n = [a, b, c, d] ∧ unit? a b c d = some n := by
  refine ⟨_, _, _, _, rfl, ?_⟩
  have hmod (k : Nat) : hexValue? (hexDigit (k % 16)) = some (k % 16) :=
    hexValue?_hexDigit (Nat.mod_lt k (by decide))
  simp only [unit?, hmod, Option.bind_eq_bind, Option.bind_some, Option.pure_def, Option.some.injEq]
  omega

/-! ### One character -/

/-- A character without an escape stands for itself. -/
theorem readEscaped_plain {c : Char} (hquote : c ≠ '"') (hescape : c ≠ '\\') (cs : List Char) :
    readEscaped (c :: cs) = consRead c (readEscaped cs) := by
  rw [readEscaped.eq_def]
  split <;> simp_all

/-- An escape letter stands for its character. -/
theorem readEscaped_letter {letter c : Char} (hc : unescaped? letter = some c) (hu : letter ≠ 'u')
    (cs : List Char) : readEscaped ('\\' :: letter :: cs) = consRead c (readEscaped cs) := by
  rw [readEscaped.eq_def]
  split <;> grind

/-- Two surrogates become one character. -/
theorem readEscaped_pair {a b c d e f g h : Char} {high low : Nat}
    (hhigh : unit? a b c d = some high) (hlow : unit? e f g h = some low)
    (hpair : isPair high low) (cs : List Char) :
    readEscaped ('\\' :: 'u' :: a :: b :: c :: d :: '\\' :: 'u' :: e :: f :: g :: h :: cs) =
      consRead (unitChar high low) (readEscaped cs) := by
  rw [readEscaped]
  simp [hhigh, hlow, hpair]

/-- What is no code unit ends the reading. -/
theorem readEscaped_eq_none {a b c d : Char} (hunit : unit? a b c d = none) (cs : List Char) :
    readEscaped ('\\' :: 'u' :: a :: b :: c :: d :: cs) = none := by
  rw [readEscaped.eq_def]
  split <;> grind

/-- A unit that is no high surrogate stands for itself, whatever follows it. -/
theorem readEscaped_unit {a b c d : Char} {unit : Nat} (hunit : unit? a b c d = some unit)
    (hsingle : unit < 0xD800 ∨ 0xDC00 ≤ unit) (cs : List Char) :
    readEscaped ('\\' :: 'u' :: a :: b :: c :: d :: cs) =
      consRead (unitChar unit none) (readEscaped cs) := by
  have hpair (low : Nat) : isPair unit low = false := by
    simp only [isPair, Bool.and_eq_false_iff, decide_eq_false_iff_not]
    omega
  rw [readEscaped.eq_def]
  split
  case h_3 heq =>
    -- Another unit follows; if it is none, neither side reads on.
    cases heq
    rw [hunit]
    split
    · rename_i high low hhigh hlow
      obtain rfl := Option.some.inj hhigh
      rw [hpair, if_neg Bool.false_ne_true]
    · rename_i hnone
      rw [readEscaped_eq_none, consRead, Option.map_none]
      exact Option.eq_none_iff_forall_ne_some.2 fun low hlow => hnone unit low rfl hlow
  all_goals grind

/-! ### A whole text -/

/-- The letter of an escape stands for the character that is written by it. -/
theorem unescaped?_of_lookup {c letter : Char} (h : shortEscapes.lookup c = some letter) :
    unescaped? letter = some c ∧ letter ≠ 'u' := by
  have hall : ∀ e ∈ shortEscapes, unescaped? e.2 = some e.1 ∧ e.2 ≠ 'u' := by decide
  obtain ⟨before, after, hsplit, -⟩ := List.lookup_eq_some_iff.1 h
  exact hall (c, letter) (by rw [hsplit]; simp)

/-- The units of a character are read back as the character. -/
theorem readEscaped_units16 (c : Char) (cs : List Char) :
    readEscaped (((units16 c).flatMap fun unit => '\\' :: 'u' :: hexDigits 4 unit) ++ cs) =
      consRead c (readEscaped cs) := by
  have hvalid : c.toNat < 0xD800 ∨ 0xDFFF < c.toNat ∧ c.toNat < 0x110000 := c.valid
  by_cases hbasic : c.toNat < 0x10000
  · obtain ⟨x₁, x₂, x₃, x₄, hdigits, hunit⟩ := unit?_hexDigits hbasic
    have hchar : unitChar c.toNat none = c := by
      rw [unitChar, if_neg, Char.ofNat_toNat]
      simp only [Bool.and_eq_true, decide_eq_true_eq]
      omega
    rw [units16, if_pos hbasic, List.flatMap_singleton, hdigits]
    exact (readEscaped_unit hunit (by omega) cs).trans (by rw [hchar])
  · generalize hn : c.toNat - 0x10000 = n
    have hbound : n < 0x100000 := by omega
    have hhigh : 0xD800 + n / 0x400 < 0x10000 := by omega
    have hlow : 0xDC00 + n % 0x400 < 0x10000 := by omega
    obtain ⟨x₁, x₂, x₃, x₄, hdigits, hunit⟩ := unit?_hexDigits hhigh
    obtain ⟨y₁, y₂, y₃, y₄, hdigits', hunit'⟩ := unit?_hexDigits hlow
    have hpair : isPair (0xD800 + n / 0x400) (0xDC00 + n % 0x400) := by
      simp only [isPair, Bool.and_eq_true, decide_eq_true_eq]
      omega
    have hchar : unitChar (0xD800 + n / 0x400) (some (0xDC00 + n % 0x400)) = c := by
      have hpoint : 0x10000 + (0xD800 + n / 0x400 - 0xD800) * 0x400 +
          (0xDC00 + n % 0x400 - 0xDC00) = c.toNat := by omega
      rw [unitChar, hpoint, Char.ofNat_toNat]
    rw [units16, if_neg hbasic, hn]
    simp only [List.flatMap_cons, List.flatMap_nil, List.append_nil, hdigits, hdigits']
    exact (readEscaped_pair hunit hunit' hpair cs).trans (by rw [hchar])

/-- A character is read back from how it is written, whatever follows it. -/
theorem readEscaped_escapedChar (c : Char) (cs : List Char) :
    readEscaped (escapedChar c ++ cs) = consRead c (readEscaped cs) := by
  unfold escapedChar
  split
  case h_1 letter h =>
    obtain ⟨hc, hu⟩ := unescaped?_of_lookup h
    exact readEscaped_letter hc hu cs
  case h_2 h =>
    split
    · have hquote : c ≠ '"' := by
        rintro rfl
        cases h
      have hescape : c ≠ '\\' := by
        rintro rfl
        cases h
      exact readEscaped_plain hquote hescape cs
    · exact readEscaped_units16 c cs

/-- A text is read up to its closing quote. -/
theorem readEscaped_escaped (s rest : List Char) :
    readEscaped (s.flatMap escapedChar ++ '"' :: rest) = some (s, rest) := by
  induction s with
  | nil => rfl
  | cons c s ih =>
    rw [List.flatMap_cons, List.append_assoc, readEscaped_escapedChar, ih]
    rfl

end SnapshotArchive.Text
