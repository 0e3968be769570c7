import SnapshotArchive.Value.Reader
import SnapshotArchive.Proofs.Documents.Texts
import Mathlib.Data.List.Forall2

/-!
# Written values are read back

A value that is written on one line or on several is read back from the text, with the fields of its
records in the order in which they were written.

* `Value.Denotes` : what it is for a text to be read as a value; its length is fuel enough.
* `Value.Lists` : the same for what stands between brackets.
* `Value.ofText?_compact`, `Value.ofText?_pretty` : written values are read back.
-/

namespace SnapshotArchive

open Text

namespace Value

/-! ### Induction on values -/

/-- Induction on a value, with one hypothesis for all elements of a list and one for all fields of a
record. -/
@[elab_as_elim]
theorem inductionOn {motive : Value → Prop} (null : motive null) (truth : ∀ b, motive (truth b))
    (whole : ∀ n, motive (whole n)) (real : ∀ word, motive (real word))
    (text : ∀ s, motive (text s)) (list : ∀ vs, (∀ v ∈ vs, motive v) → motive (list vs))
    (record : ∀ fs, (∀ f ∈ fs, motive f.2) → motive (record fs)) (foreign : motive foreign)
    (v : Value) : motive v :=
  @Value.rec motive (fun vs => ∀ v ∈ vs, motive v) (fun fs => ∀ f ∈ fs, motive f.2)
    (fun f => motive f.2) null truth whole real text list record foreign nofun
    (fun _ _ hv hvs => List.forall_mem_cons.2 ⟨hv, hvs⟩) nofun
    (fun _ _ hf hfs => List.forall_mem_cons.2 ⟨hf, hfs⟩) (fun _ _ hv => hv) v

/-! ### Values as they are written -/

/-- Whether a text is how a floating-point number is written. -/
def isRealText (word : String) : Bool :=
  ["nan", "inf", "-inf"].contains word || isReal word.toList && !isWhole word.toList

mutual

/-- A value as its text shows it: the fields of records in ascending order of names, and nothing in
the place of what has no stored form. -/
def asWritten : Value → Value
  | list elements => list (allAsWritten elements)
  | record fields => record ((fieldsAsWritten fields).mergeSort (·.1 ≤ ·.1))
  | foreign => null
  | v => v

/-- The elements of a list as they are written. -/
def allAsWritten : List Value → List Value
  | [] => []
  | v :: vs => v.asWritten :: allAsWritten vs

/-- The fields of a record, each as it is written. -/
def fieldsAsWritten : List (String × Value) → List (String × Value)
  | [] => []
  | (name, v) :: fs => (name, v.asWritten) :: fieldsAsWritten fs

end

mutual

/-- Whether the floating-point numbers in a value are given by texts of such numbers. -/
def hasRealTexts : Value → Bool
  | real word => isRealText word
  | list elements => allHaveRealTexts elements
  | record fields => fieldsHaveRealTexts fields
  | _ => true

/-- The same for the elements of a list. -/
def allHaveRealTexts : List Value → Bool
  | [] => true
  | v :: vs => v.hasRealTexts && allHaveRealTexts vs

/-- The same for the fields of a record. -/
def fieldsHaveRealTexts : List (String × Value) → Bool
  | [] => true
  | (_, v) :: fs => v.hasRealTexts && fieldsHaveRealTexts fs

end

/-- What is asked of a list is asked of each element. -/
theorem allHaveRealTexts_iff {vs : List Value} :
    allHaveRealTexts vs ↔ ∀ v ∈ vs, v.hasRealTexts := by
  induction vs with
  | nil => simp [allHaveRealTexts]
  | cons v vs ih => simp [allHaveRealTexts, ih]

/-- What is asked of a record is asked of each field. -/
theorem fieldsHaveRealTexts_iff {fs : List (String × Value)} :
    fieldsHaveRealTexts fs ↔ ∀ f ∈ fs, f.2.hasRealTexts := by
  induction fs with
  | nil => simp [fieldsHaveRealTexts]
  | cons f fs ih => simp only [fieldsHaveRealTexts, Bool.and_eq_true, ih, List.forall_mem_cons]

/-- The elements of a list are written one by one. -/
theorem allAsWritten_eq_map (vs : List Value) : allAsWritten vs = vs.map asWritten := by
  induction vs with
  | nil => rfl
  | cons v vs ih => rw [allAsWritten, ih, List.map_cons]

/-- So are the fields of a record. -/
theorem fieldsAsWritten_eq_map (fs : List (String × Value)) :
    fieldsAsWritten fs = fs.map fun f => (f.1, f.2.asWritten) := by
  induction fs with
  | nil => rfl
  | cons f fs ih => rw [fieldsAsWritten, ih, List.map_cons]

/-- Each element of a list is put on one line. -/
theorem compactAll_eq_map (vs : List Value) : compactAll vs = vs.map compact := by
  induction vs with
  | nil => rfl
  | cons v vs ih => rw [compactAll, ih, List.map_cons]

/-- So is each field of a record. -/
theorem compactFields_eq_map (fs : List (String × Value)) :
    compactFields fs = fs.map fun f => (f.1, f.2.compact) := by
  induction fs with
  | nil => rfl
  | cons f fs ih => rw [compactFields, ih, List.map_cons]

/-- Each element of a list is put on lines of the same depth. -/
theorem prettyAll_eq_map (depth : Nat) (vs : List Value) :
    prettyAll depth vs = vs.map (prettyAt depth) := by
  induction vs with
  | nil => rfl
  | cons v vs ih => rw [prettyAll, ih, List.map_cons]

/-- So is each field of a record. -/
theorem prettyFields_eq_map (depth : Nat) (fs : List (String × Value)) :
    prettyFields depth fs = fs.map fun f => (f.1, f.2.prettyAt depth) := by
  induction fs with
  | nil => rfl
  | cons f fs ih => rw [prettyFields, ih, List.map_cons]

/-! ### Fields in order -/

section

variable {α β : Type}

/-- The order of fields by name is transitive. -/
theorem field_le_trans (f g h : String × α) (hfg : decide (f.1 ≤ g.1)) (hgh : decide (g.1 ≤ h.1)) :
    decide (f.1 ≤ h.1) :=
  decide_eq_true (String.le_trans (of_decide_eq_true hfg) (of_decide_eq_true hgh))

/-- The order of fields by name is total. -/
theorem field_le_total (f g : String × α) : decide (f.1 ≤ g.1) || decide (g.1 ≤ f.1) := by
  simpa using String.le_total f.1 g.1

/-- Putting fields in order once is enough. -/
theorem mergeSort_mergeSort_fields (fs : List (String × α)) :
    (fs.mergeSort fun a b => a.1 ≤ b.1).mergeSort (fun a b => a.1 ≤ b.1) =
      fs.mergeSort fun a b => a.1 ≤ b.1 :=
  List.mergeSort_of_pairwise (List.pairwise_mergeSort field_le_trans field_le_total fs)

/-- Fields stay in their order when their values are replaced. -/
theorem mergeSort_map_fields (g : α → β) (fs : List (String × α)) :
    (fs.map fun f => (f.1, g f.2)).mergeSort (fun a b => a.1 ≤ b.1) =
      (fs.mergeSort fun a b => a.1 ≤ b.1).map fun f => (f.1, g f.2) := by
  rw [List.map_mergeSort]
  exact fun _ _ _ _ => rfl

end

/-- What is written of a value as it is written is no other. -/
theorem asWritten_asWritten (v : Value) : v.asWritten.asWritten = v.asWritten := by
  induction v using inductionOn with
  | list vs ih =>
    simp only [asWritten, allAsWritten_eq_map, List.map_map]
    exact congrArg list (List.map_congr_left ih)
  | record fs ih =>
    simp only [asWritten, fieldsAsWritten_eq_map, mergeSort_map_fields, mergeSort_mergeSort_fields]
    rw [List.map_map]
    refine congrArg record (List.map_congr_left fun f hf => Prod.ext rfl ?_)
    exact ih f (List.mem_mergeSort.1 hf)
  | _ => rfl

/-- A value as it is written is written in the same lines. -/
theorem prettyAt_asWritten (v : Value) (depth : Nat) :
    v.asWritten.prettyAt depth = v.prettyAt depth := by
  induction v using inductionOn generalizing depth with
  | list vs ih =>
    simp only [asWritten, allAsWritten_eq_map, prettyAt, prettyAll_eq_map, List.map_map]
    exact congrArg _ (List.map_congr_left fun v hv => ih v hv (depth + 1))
  | record fs ih =>
    simp only [asWritten, fieldsAsWritten_eq_map, prettyAt, prettyFields_eq_map, byName,
      mergeSort_map_fields, mergeSort_mergeSort_fields]
    simp only [List.map_map]
    refine congrArg _ (List.map_congr_left fun f hf => ?_)
    simp only [Function.comp_apply, ih f (List.mem_mergeSort.1 hf) (depth + 1)]
  | _ => rfl

/-! ### What a text is read as -/

/-- Whether no word or number goes on at the start of a text. -/
def EndsWord (cs : List Char) : Prop :=
  ∀ c ∈ cs.head?, isWordChar c = false

/-- Whether a text is read as a value, whatever follows it. Its length is fuel enough. -/
structure Denotes (cs : List Char) (v : Value) : Prop where
  starts : ∃ c tail, cs = c :: tail ∧ isSpace c = false ∧ c ≠ ']' ∧ c ≠ ','
  reads : ∀ fuel rest, cs.length ≤ fuel → EndsWord rest →
    readValue fuel (cs ++ rest) = some (v, rest)

/-- A blank before a value is passed over. -/
theorem readValue_blank {c : Char} (hc : isSpace c) (fuel : Nat) (cs : List Char) :
    readValue fuel (c :: cs) = readValue fuel cs := by
  cases fuel with
  | zero => rfl
  | succ fuel => rw [readValue, readValue, List.dropWhile_cons_of_pos hc]

/-! ### Words and numbers -/

/-- A character of a word is none that belongs to no word. -/
theorem ne_of_isWordChar {c d : Char} (h : isWordChar c) (hd : isWordChar d = false) : c ≠ d := by
  rintro rfl
  rw [hd] at h
  cases h

/-- A blank belongs to no word. -/
theorem isWordChar_eq_false_of_isSpace {c : Char} (h : isSpace c) : isWordChar c = false := by
  simp only [isSpace, Bool.or_eq_true, decide_eq_true_eq] at h
  rcases h with ((rfl | rfl) | rfl) | rfl <;> decide

/-- A word is read as the value that it stands for. -/
theorem Denotes.word {cs : List Char} {v : Value} (hne : cs ≠ []) (hall : cs.all isWordChar)
    (hv : ofWord? cs = some v) : Denotes cs v := by
  have hchars : ∀ c ∈ cs, isWordChar c := List.all_eq_true.1 hall
  obtain ⟨c, tail, rfl⟩ := List.exists_cons_of_ne_nil hne
  have hc := hchars c List.mem_cons_self
  have hspace : isSpace c = false :=
    Bool.eq_false_iff.2 fun h => ne_of_isWordChar hc (isWordChar_eq_false_of_isSpace h) rfl
  refine ⟨⟨c, tail, rfl, hspace, ne_of_isWordChar hc rfl, ne_of_isWordChar hc rfl⟩,
    fun fuel rest hfuel hrest => ?_⟩
  obtain ⟨fuel, rfl⟩ : ∃ k, fuel = k + 1 := ⟨fuel - 1, by simp at hfuel; omega⟩
  have hquote : c ≠ '"' := ne_of_isWordChar hc rfl
  have hlist : c ≠ '[' := ne_of_isWordChar hc rfl
  have hrecord : c ≠ '\x7b' := ne_of_isWordChar hc rfl
  have htake : rest.takeWhile isWordChar = [] ∧ rest.dropWhile isWordChar = rest := by
    cases rest with
    | nil => exact ⟨rfl, rfl⟩
    | cons d rest => simp [hrest d rfl]
  rw [readValue, List.cons_append, List.dropWhile_cons_of_neg (by simp [hspace])]
  split
  case h_4 =>
    rw [← List.cons_append, List.takeWhile_append_of_pos hchars,
      List.dropWhile_append_of_pos hchars, htake.1, htake.2, List.append_nil, hv]
    rfl
  all_goals simp_all

/-- Whether a character can stand in a number. -/
def isNumberChar (c : Char) : Bool :=
  c.isDigit || "+-.eE".toList.contains c

/-- What can stand in a number belongs to a word. -/
theorem isWordChar_of_isNumberChar {c : Char} (h : isNumberChar c) : isWordChar c := by
  simp only [isNumberChar, Bool.or_eq_true, List.contains_iff_mem] at h
  rcases h with h | h
  · simp [isWordChar, Char.isAlphanum, h]
  · exact List.all_eq_true.1 (by decide : "+-.eE".toList.all isWordChar) c h

/-- The words for other values are no numbers. -/
theorem ofWord?_of_number {cs : List Char} (h : ∀ c ∈ cs, isNumberChar c) :
    ofWord? cs = if isWhole cs then some (whole (wholeValue cs))
      else if isReal cs then some (real (String.ofList cs)) else none := by
  have hother : ∀ word ∈ ["null", "true", "false", "nan", "inf", "-inf"],
      ¬word.toList.all isNumberChar := by
    decide
  have hne : ∀ word ∈ ["null", "true", "false", "nan", "inf", "-inf"], String.ofList cs ≠ word := by
    rintro word hword rfl
    exact hother _ hword (by rwa [String.toList_ofList, List.all_eq_true])
  unfold ofWord?
  split
  case h_7 => rfl
  all_goals exact absurd ‹_› (hne _ (by simp))

/-- Digits are a whole number, which is their value. -/
theorem isWhole_of_digits {cs : List Char} (hne : cs ≠ []) (h : ∀ c ∈ cs, c.isDigit) :
    isWhole cs ∧ wholeValue cs = digitsValue cs := by
  unfold isWhole wholeValue
  split
  · exact absurd (h '-' List.mem_cons_self) (by decide)
  · simpa [hne] using h

/-- A whole number is read from its digits. -/
theorem denotes_whole (n : Int) : Denotes (toString n).toList (whole n) := by
  have hdigit {m : Nat} {c : Char} (hc : c ∈ Nat.toDigits 10 m) : c.isDigit :=
    Nat.isDigit_of_mem_toDigits (by decide) (by decide) hc
  have hvalue (m : Nat) : digitsValue (Nat.toDigits 10 m) = m := Nat.ofDigitChars_ten_toDigits
  suffices hnumber : ∃ cs, (toString n).toList = cs ∧ cs ≠ [] ∧ (∀ c ∈ cs, isNumberChar c) ∧
      isWhole cs ∧ wholeValue cs = n by
    obtain ⟨cs, hcs, hne, hchars, hwhole, hn⟩ := hnumber
    rw [hcs]
    refine .word hne (List.all_eq_true.2 fun c hc => isWordChar_of_isNumberChar (hchars c hc)) ?_
    rw [ofWord?_of_number hchars, if_pos hwhole, hn]
  cases n with
  | ofNat m =>
    obtain ⟨hwhole, hn⟩ := isWhole_of_digits Nat.toDigits_ne_nil fun c hc => hdigit (m := m) hc
    refine ⟨_, Nat.toList_repr, Nat.toDigits_ne_nil, fun c hc => ?_, hwhole, ?_⟩
    · simp [isNumberChar, hdigit hc]
    · rw [hn, hvalue]
      rfl
  | negSucc m =>
    refine ⟨'-' :: Nat.toDigits 10 (m + 1), ?_, by simp, fun c hc => ?_, ?_, ?_⟩
    · simp [Int.toString_eq_repr, Int.repr, Nat.toList_repr]
    · rcases List.mem_cons.1 hc with rfl | hc
      · decide
      · simp [isNumberChar, hdigit hc]
    · simpa [isWhole, Nat.toDigits_ne_nil] using fun c hc => hdigit hc
    · rw [wholeValue, hvalue]
      rfl

/-- A floating-point number is read from its text. -/
theorem denotes_real {word : String} (h : isRealText word) : Denotes word.toList (real word) := by
  simp only [isRealText, Bool.or_eq_true, Bool.and_eq_true, List.contains_iff_mem] at h
  rcases h with h | ⟨hreal, hwhole⟩
  · revert h
    revert word
    simp only [List.forall_mem_cons]
    refine ⟨?_, ?_, ?_, nofun⟩
    all_goals exact .word (by decide) (by decide) (by rfl)
  · obtain ⟨hdigit, hchars⟩ := Bool.and_eq_true_iff.1 hreal
    have hchars : ∀ c ∈ word.toList, isNumberChar c := List.all_eq_true.1 hchars
    obtain ⟨c, hc, -⟩ := List.any_eq_true.1 hdigit
    have hall : word.toList.all isWordChar :=
      List.all_eq_true.2 fun c hc => isWordChar_of_isNumberChar (hchars c hc)
    refine .word (List.ne_nil_of_mem hc) hall ?_
    rw [ofWord?_of_number hchars, if_neg (by simpa using hwhole), if_pos hreal,
      String.ofList_toList]

/-! ### Texts -/

/-- A text is read from its escaped form. -/
theorem Denotes.text (s : String) : Denotes (escaped s).toList (.text s) where
  starts := ⟨'"', _, by rw [escaped, String.toList_ofList]; rfl, by decide⟩
  reads fuel rest hfuel _ := by
    cases fuel with
    | zero => simp [escaped] at hfuel
    | succ fuel =>
      have hread := readEscaped_escaped s.toList rest
      simp [escaped, readValue, isSpace, hread]

/-! ### Between brackets -/

/-- A reader of elements or fields. It passes over blanks and commas and ends at its bracket. -/
structure IsSequence {α : Type} (read : Nat → List Char → Option (List α × List Char))
    (closing : Char) : Prop where
  blank : ∀ {c : Char}, isSpace c → ∀ fuel cs, read fuel (c :: cs) = read fuel cs
  comma : ∀ fuel cs, read (fuel + 1) (',' :: cs) = read fuel cs
  last : ∀ fuel cs, read (fuel + 1) (closing :: cs) = some ([], cs)
  endsWord : isWordChar closing = false

/-- The elements of a list are read as a sequence. -/
theorem isSequence_readElements : IsSequence readElements ']' where
  blank hc fuel cs := by
    cases fuel with
    | zero => rfl
    | succ fuel => rw [readElements, readElements, List.dropWhile_cons_of_pos hc]
  comma fuel cs := by simp [readElements, isSpace]
  last fuel cs := by simp [readElements, isSpace]
  endsWord := by decide

/-- The fields of a record are read as a sequence. -/
theorem isSequence_readFields : IsSequence readFields '\x7d' where
  blank hc fuel cs := by
    cases fuel with
    | zero => rfl
    | succ fuel => rw [readFields, readFields, List.dropWhile_cons_of_pos hc]
  comma fuel cs := by simp [readFields, isSpace]
  last fuel cs := by simp [readFields, isSpace]
  endsWord := by decide

section

variable {α : Type} {read : Nat → List Char → Option (List α × List Char)} {closing : Char}

/-- Whether a reader takes one part from a text and goes on behind it. -/
structure Takes (read : Nat → List Char → Option (List α × List Char)) (x : α) (cs : List Char) :
    Prop where
  ne_nil : cs ≠ []
  reads : ∀ fuel rest, cs.length ≤ fuel → EndsWord rest →
    read (fuel + 1) (cs ++ rest) = (read fuel rest).map fun r => (x :: r.1, r.2)

/-- Whether a reader takes some parts from a text up to its bracket. -/
def Lists (read : Nat → List Char → Option (List α × List Char)) (closing : Char) (xs : List α)
    (cs : List Char) : Prop :=
  ∀ fuel rest, cs.length < fuel → read fuel (cs ++ closing :: rest) = some (xs, rest)

variable (hread : IsSequence read closing)

include hread

/-- Blanks before a part are passed over. -/
theorem IsSequence.blanks {pad : List Char} (hpad : ∀ c ∈ pad, isSpace c) (fuel : Nat)
    (cs : List Char) : read fuel (pad ++ cs) = read fuel cs := by
  induction pad with
  | nil => rfl
  | cons c pad ih =>
    rw [List.cons_append, hread.blank (hpad c List.mem_cons_self)]
    exact ih fun d hd => hpad d (List.mem_cons_of_mem _ hd)

/-- A part may have blanks before it. -/
theorem Takes.pad {x : α} {cs pad : List Char} (h : Takes read x cs)
    (hpad : ∀ c ∈ pad, isSpace c) : Takes read x (pad ++ cs) where
  ne_nil := by simp [h.ne_nil]
  reads fuel rest hfuel hrest := by
    rw [List.append_assoc, hread.blanks hpad]
    exact h.reads fuel rest (by simp at hfuel; omega) hrest

/-- Before the closing bracket there may be nothing. -/
theorem Lists.nil : Lists read closing ([] : List α) [] := by
  intro fuel rest hfuel
  obtain ⟨fuel, rfl⟩ : ∃ k, fuel = k + 1 := ⟨fuel - 1, by omega⟩
  exact hread.last fuel rest

/-- Before the first part there may be blanks. -/
theorem Lists.blanks {xs : List α} {cs pad : List Char} (hpad : ∀ c ∈ pad, isSpace c)
    (h : Lists read closing xs cs) : Lists read closing xs (pad ++ cs) := by
  intro fuel rest hfuel
  rw [List.append_assoc, hread.blanks hpad]
  rw [List.length_append] at hfuel
  exact h fuel rest (by omega)

/-- Before a part there may be a comma. -/
theorem Lists.comma {xs : List α} {cs : List Char} (h : Lists read closing xs cs) :
    Lists read closing xs (',' :: cs) := by
  intro fuel rest hfuel
  rw [List.length_cons] at hfuel
  obtain ⟨fuel, rfl⟩ : ∃ k, fuel = k + 1 := ⟨fuel - 1, by omega⟩
  rw [List.cons_append, hread.comma]
  exact h fuel rest (by omega)

omit hread in
/-- A part may come before others, if it ends where they start. -/
theorem Lists.cons {x : α} {xs : List α} {cs tail : List Char} (hx : Takes read x cs)
    (h : Lists read closing xs tail) (hend : EndsWord (tail ++ [closing])) :
    Lists read closing (x :: xs) (cs ++ tail) := by
  intro fuel rest hfuel
  have hpos := List.length_pos_iff.2 hx.ne_nil
  rw [List.length_append] at hfuel
  obtain ⟨fuel, rfl⟩ : ∃ k, fuel = k + 1 := ⟨fuel - 1, by omega⟩
  have hbehind : EndsWord (tail ++ closing :: rest) := by
    cases tail <;> exact hend
  rw [List.append_assoc, hx.reads fuel _ (by omega) hbehind, h fuel rest (by omega),
    Option.map_some]

/-- Parts with commas between them, blanks behind the commas and blanks at the end. -/
theorem Lists.intercalate {blanks pad : List Char} (hblanks : ∀ c ∈ blanks, isSpace c)
    (hpad : ∀ c ∈ pad, isSpace c) {xs : List α} {parts : List (List Char)}
    (h : List.Forall₂ (Takes read) xs parts) :
    Lists read closing xs ((',' :: blanks).intercalate parts ++ pad) := by
  have hlast : Lists read closing [] pad := by
    simpa using Lists.blanks hread hpad (Lists.nil hread)
  induction h with
  | nil => exact hlast
  | @cons x part xs parts hx h ih =>
    cases parts with
    | nil =>
      cases h
      rw [List.intercalate_singleton]
      refine .cons hx hlast ?_
      cases pad with
      | nil => simp [EndsWord, hread.endsWord]
      | cons c pad =>
        simpa [EndsWord] using isWordChar_eq_false_of_isSpace (hpad c List.mem_cons_self)
    | cons part' parts =>
      rw [List.intercalate_cons_cons, List.append_assoc, List.append_assoc]
      refine .cons hx (.comma hread (.blanks hread hblanks ih)) ?_
      simp [EndsWord]
      decide

end

/-! ### Elements and fields -/

/-- The text of a value is taken as an element. -/
theorem Denotes.takes_element {cs : List Char} {v : Value} (h : Denotes cs v) :
    Takes readElements v cs := by
  obtain ⟨c, tail, rfl, hspace, hbracket, hcomma⟩ := h.starts
  refine ⟨List.cons_ne_nil _ _, fun fuel rest hfuel hrest => ?_⟩
  rw [readElements, List.cons_append, List.dropWhile_cons_of_neg (by simp [hspace])]
  split
  case h_3 =>
    rw [← List.cons_append, h.reads fuel rest hfuel hrest]
    simp only [Option.bind_eq_bind, Option.bind_some]
    cases readElements fuel rest <;> rfl
  all_goals simp_all

/-- A name, a colon and the text of a value are taken as a field. -/
theorem Denotes.takes_field {cs : List Char} {v : Value} (h : Denotes cs v) (name : String) :
    Takes readFields (name, v) ((escaped name).toList ++ ':' :: ' ' :: cs) := by
  refine ⟨by simp, fun fuel rest hfuel hrest => ?_⟩
  have hname := readEscaped_escaped name.toList (':' :: ' ' :: cs ++ rest)
  have hvalue : readValue fuel (' ' :: cs ++ rest) = some (v, rest) := by
    rw [List.cons_append, readValue_blank (by decide)]
    simp only [List.length_append, List.length_cons] at hfuel
    exact h.reads fuel rest (by omega) hrest
  simp only [List.cons_append] at hname hvalue
  simp [escaped, readFields, isSpace, hname, hvalue]
  cases readFields fuel rest <;> rfl

/-- Elements between square brackets are read as a list. -/
theorem Denotes.list {vs : List Value} {cs : List Char} (h : Lists readElements ']' vs cs) :
    Denotes ('[' :: cs ++ [']']) (.list vs) where
  starts := ⟨'[', _, rfl, by decide⟩
  reads fuel rest hfuel _ := by
    simp only [List.length_append, List.length_cons, List.length_nil] at hfuel
    obtain ⟨fuel, rfl⟩ : ∃ k, fuel = k + 1 := ⟨fuel - 1, by omega⟩
    have hbody := h fuel rest (by omega)
    simp [readValue, isSpace, hbody]

/-- Fields between braces are read as a record. -/
theorem Denotes.record {fs : List (String × Value)} {cs : List Char}
    (h : Lists readFields '\x7d' fs cs) : Denotes ('\x7b' :: cs ++ ['\x7d']) (.record fs) where
  starts := ⟨'\x7b', _, rfl, by decide⟩
  reads fuel rest hfuel _ := by
    simp only [List.length_append, List.length_cons, List.length_nil] at hfuel
    obtain ⟨fuel, rfl⟩ : ∃ k, fuel = k + 1 := ⟨fuel - 1, by omega⟩
    have hbody := h fuel rest (by omega)
    simp [readValue, isSpace, hbody]

/-- A text that is read as a value, with blanks behind it, has that value. -/
theorem Denotes.ofText? {s : String} {cs blanks : List Char} {v : Value} (h : Denotes cs v)
    (hs : s.toList = cs ++ blanks) (hblanks : ∀ c ∈ blanks, isSpace c) :
    Value.ofText? s = some v := by
  have hend : EndsWord blanks := fun c hc =>
    isWordChar_eq_false_of_isSpace (hblanks c (List.mem_of_mem_head? hc))
  have hread := h.reads ((cs ++ blanks).length + 1) blanks (by simp; omega) hend
  simp only [Value.ofText?, hs, hread]
  rw [if_pos (List.all_eq_true.2 hblanks)]

/-! ### Both forms -/

/-- The fields of a record in the order in which they are written, each as it is written. -/
theorem takes_fields {write : Value → String} {fs : List (String × Value)}
    (h : ∀ f ∈ fs, Denotes (write f.2).toList f.2.asWritten) :
    List.Forall₂ (Takes readFields) ((fieldsAsWritten fs).mergeSort (·.1 ≤ ·.1))
      (((byName (fs.map fun f => (f.1, write f.2))).map fun f => s!"{escaped f.1}: {f.2}").map
        String.toList) := by
  rw [fieldsAsWritten_eq_map, byName, mergeSort_map_fields, mergeSort_map_fields, List.map_map,
    List.map_map, List.forall₂_map_left_iff, List.forall₂_map_right_iff, List.forall₂_same]
  intro f hf
  have htakes := (h f (List.mem_mergeSort.1 hf)).takes_field f.1
  simpa [toString] using htakes

/-- The elements of a list are taken as they are written. -/
theorem takes_elements {write : Value → String} {vs : List Value}
    (h : ∀ v ∈ vs, Denotes (write v).toList v.asWritten) :
    List.Forall₂ (Takes readElements) (allAsWritten vs) ((vs.map write).map String.toList) := by
  rw [allAsWritten_eq_map, List.map_map, List.forall₂_map_left_iff, List.forall₂_map_right_iff,
    List.forall₂_same]
  exact fun v hv => (h v hv).takes_element

/-! ### On one line -/

/-- Parts on one line, with a comma and a blank between them. -/
theorem Lists.compact {α : Type} {read : Nat → List Char → Option (List α × List Char)}
    {closing : Char} (hread : IsSequence read closing) {xs : List α} {parts : List String}
    (h : List.Forall₂ (Takes read) xs (parts.map String.toList)) :
    Lists read closing xs (", ".intercalate parts).toList := by
  have hlists := Lists.intercalate hread (List.forall_mem_singleton.2 rfl : ∀ c ∈ [' '], isSpace c)
    (by simp : ∀ c ∈ [], isSpace c) h
  rw [List.append_nil] at hlists
  rwa [String.toList_intercalate]

/-- A value on one line is read as it is written. -/
theorem denotes_compact (v : Value) (h : v.hasRealTexts) :
    Denotes v.compact.toList v.asWritten := by
  induction v using inductionOn with
  | null => exact .word (by decide) (by decide) rfl
  | truth b => cases b <;> exact .word (by decide) (by decide) rfl
  | whole n => exact denotes_whole n
  | real word => exact denotes_real h
  | text s => exact .text s
  | list vs ih =>
    have hvs := takes_elements fun v hv => ih v hv (allHaveRealTexts_iff.1 h v hv)
    simpa [compact, asWritten, compactAll_eq_map] using
      Denotes.list (.compact isSequence_readElements hvs)
  | record fs ih =>
    have hfs := takes_fields fun f hf => ih f hf (fieldsHaveRealTexts_iff.1 h f hf)
    simpa [compact, asWritten, compactFields_eq_map] using
      Denotes.record (.compact isSequence_readFields hfs)
  | foreign => exact .word (by decide) (by decide) rfl

/-- What is written on one line is read back. -/
theorem ofText?_compact {v : Value} (h : v.hasRealTexts) : ofText? v.compact = some v.asWritten :=
  (denotes_compact v h).ofText? (List.append_nil _).symm (by simp)

/-! ### On several lines -/

/-- Parts that are written one a line. -/
theorem Lists.bracketed {α : Type} {read : Nat → List Char → Option (List α × List Char)}
    {closing : Char} (hread : IsSequence read closing) {xs : List α} {parts : List String}
    (h : List.Forall₂ (Takes read) xs (parts.map String.toList)) (opening last : String)
    (depth : Nat) : ∃ cs, Lists read closing xs cs ∧
      (Value.bracketed opening last depth parts).toList = opening.toList ++ cs ++ last.toList := by
  cases parts with
  | nil =>
    cases h
    exact ⟨[], .nil hread, by simp [Value.bracketed]⟩
  | cons part parts =>
    have hblank (k : Nat) : ∀ c ∈ '\n' :: List.replicate k ' ', isSpace c := by
      simp [isSpace]
    have hlines : List.Forall₂ (Takes read) xs (((part :: parts).map String.toList).map
        ('\n' :: List.replicate (2 * (depth + 1)) ' ' ++ ·)) := by
      rw [List.forall₂_map_right_iff]
      exact h.imp fun _ _ hx => hx.pad hread (hblank _)
    refine ⟨_, Lists.intercalate hread (by simp : ∀ c ∈ [], isSpace c) (hblank (2 * depth)) hlines,
      ?_⟩
    have hindent (k : Nat) : ("\n" ++ String.ofList (List.replicate k ' ')).toList =
        '\n' :: List.replicate k ' ' := by
      simp
    rw [Value.bracketed, if_neg (by simp)]
    simp only [String.toList_append, String.toList_intercalate, hindent, List.map_map,
      Function.comp_def]
    simp

/-- A value on several lines is read as it is written. -/
theorem denotes_prettyAt (v : Value) (depth : Nat) (h : v.hasRealTexts) :
    Denotes (v.prettyAt depth).toList v.asWritten := by
  induction v using inductionOn generalizing depth with
  | list vs ih =>
    have hvs := takes_elements fun v hv => ih v hv (depth + 1) (allHaveRealTexts_iff.1 h v hv)
    obtain ⟨cs, hlists, hcs⟩ := Lists.bracketed isSequence_readElements hvs "[" "]" depth
    rw [prettyAt, asWritten, prettyAll_eq_map, hcs]
    exact .list hlists
  | record fs ih =>
    have hfs := takes_fields fun f hf => ih f hf (depth + 1) (fieldsHaveRealTexts_iff.1 h f hf)
    obtain ⟨cs, hlists, hcs⟩ := Lists.bracketed isSequence_readFields hfs "\x7b" "\x7d" depth
    rw [prettyAt, asWritten, prettyFields_eq_map, hcs]
    exact .record hlists
  | _ => exact denotes_compact _ h

/-- What is written on several lines is read back. -/
theorem ofText?_pretty {v : Value} (h : v.hasRealTexts) : ofText? v.pretty = some v.asWritten :=
  (denotes_prettyAt v 0 h).ofText? (List.append_nil _).symm (by simp)

end Value

end SnapshotArchive
