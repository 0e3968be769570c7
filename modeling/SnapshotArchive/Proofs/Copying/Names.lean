import SnapshotArchive.Copy
import SnapshotArchive.Node
import SnapshotArchive.Proofs.Editing

/-!
# Names of copies

A copy whose name is taken gets a suffix, a numbered one from the second attempt on. What is tried
is a name whenever the name of the original is one, and no name is tried twice. So among more
attempts than the target has children there is one that none of them holds.

* `isName_copyName` : whatever is tried is a name.
* `copyName_injective` : no name is tried twice.
* `Store.sibling?_freeName` : the name that a copy gets is free.
-/

namespace SnapshotArchive

open Text

/-! ### What is tried -/

/-- What an attempt adds to a name. -/
def copySuffix : (attempt : Nat) → List Char
  | 0 => []
  | 1 => " (copy)".toList
  | attempt => " (copy ".toList ++ Nat.toDigits 10 attempt ++ [')']

/-- The first attempt adds nothing. -/
@[simp] theorem copySuffix_zero : copySuffix 0 = [] := rfl

/-- The second attempt adds a suffix without a number. -/
@[simp] theorem copySuffix_one : copySuffix 1 = " (copy)".toList := rfl

/-- Every later attempt adds a suffix with its number. -/
@[simp] theorem copySuffix_add_two (k : Nat) :
    copySuffix (k + 2) = " (copy ".toList ++ Nat.toDigits 10 (k + 2) ++ [')'] := rfl

/-- What is tried is the name with what the attempt adds. -/
theorem toList_copyName (name : String) (attempt : Nat) :
    (copyName name attempt).toList = name.toList ++ copySuffix attempt := by
  match attempt with
  | 0 => simp [copyName]
  | 1 => simp [copyName, toString]
  | k + 2 => simp [copyName, toString, Nat.toList_repr]

/-- An added suffix ends in a bracket. -/
theorem copySuffix_eq (attempt : Nat) :
    copySuffix attempt = [] ∨ ∃ cs, copySuffix attempt = cs ++ [')'] ∧ '/' ∉ cs := by
  match attempt with
  | 0 => exact .inl rfl
  | 1 => exact .inr ⟨" (copy".toList, rfl, by decide⟩
  | k + 2 =>
    refine .inr ⟨_, rfl, fun h => ?_⟩
    rcases List.mem_append.1 h with h | h
    · revert h
      decide
    · exact absurd (Nat.isDigit_of_mem_toDigits (by decide) (by decide) h) (by decide)

/-- A suffix keeps a name a name: the first character is the same as before, and the last one is not
blank. -/
theorem isName_copyName {name : String} (h : IsName name) (attempt : Nat) :
    IsName (copyName name attempt) := by
  obtain ⟨hne, hstrip, hslash⟩ := h
  rw [strip_eq_self_iff, stripChars_eq_self_iff] at hstrip
  have hne : name.toList ≠ [] := by simpa using hne
  rw [IsName, strip_eq_self_iff, stripChars_eq_self_iff, ne_eq, ← String.toList_eq_nil_iff,
    toList_copyName]
  rcases copySuffix_eq attempt with hs | ⟨cs, hs, hcs⟩
  · rw [hs, List.append_nil]
    exact ⟨hne, hstrip, hslash⟩
  · rw [hs, List.head?_append_of_ne_nil _ hne, ← List.append_assoc, List.getLast?_concat]
    refine ⟨by simp, ⟨hstrip.1, ?_⟩, ?_⟩
    · rintro _ ⟨⟩
      decide
    · simp [hslash, hcs]

/-- Numbers with the same digits are the same. -/
theorem toDigits_injective : Function.Injective (Nat.toDigits 10) := by
  intro m n h
  rw [← Nat.ofDigitChars_ten_toDigits (n := m), h, Nat.ofDigitChars_ten_toDigits]

/-- Different attempts add different suffixes. -/
theorem copySuffix_injective : Function.Injective copySuffix := by
  intro i j h
  match i, j with
  | 0, 0 => rfl
  | 0, 1 => cases h
  | 0, k + 2 => simp at h
  | 1, 0 => cases h
  | 1, 1 => rfl
  | 1, k + 2 => simp at h
  | k + 2, 0 => simp at h
  | k + 2, 1 => simp at h
  | k + 2, l + 2 =>
    have hdigits : Nat.toDigits 10 (k + 2) = Nat.toDigits 10 (l + 2) := by
      simpa using h
    exact toDigits_injective hdigits

/-- No name is tried twice. -/
theorem copyName_injective (name : String) : Function.Injective (copyName name) := by
  intro i j h
  have hlists := congrArg String.toList h
  rw [toList_copyName, toList_copyName] at hlists
  exact copySuffix_injective (List.append_cancel_left hlists)

/-! ### The name that a copy gets -/

namespace Store

/-- What a copy is called is one of the names that are tried. -/
theorem freeName_eq (s : Store) (target : Id) (n : Node) :
    ∃ attempt, s.freeName target n = copyName n.name attempt := by
  simp only [freeName]
  generalize h : List.find? _ _ = found
  cases found with
  | none => exact ⟨0, rfl⟩
  | some name =>
    obtain ⟨attempt, -, rfl⟩ := List.mem_map.1 (List.mem_of_find?_eq_some h)
    exact ⟨attempt, rfl⟩

/-- More names are tried than the target has children, so one of them is free. -/
theorem sibling?_freeName (s : Store) (target : Id) (n : Node) :
    (s.sibling? target n.kind (s.freeName target n)).isNone := by
  simp only [freeName]
  generalize h : List.find? _ _ = found
  cases found with
  | some name =>
    have hfree := List.find?_some h
    exact hfree
  | none =>
    exfalso
    have htaken : (List.range ((s.children target).length + 1)).map (copyName n.name) ⊆
        (s.children target).map (·.name) := by
      intro name hname
      have hsome := List.find?_eq_none.1 h name hname
      obtain ⟨o, ho⟩ := Option.ne_none_iff_exists'.1 (by simpa using hsome)
      have hmem := List.mem_of_find?_eq_some ho
      obtain ⟨-, hp, -, hoName, -⟩ := holdsName_iff.1 (List.find?_some ho)
      exact List.mem_map.2 ⟨o, mem_children_iff.2 ⟨hmem, hp⟩, hoName⟩
    have hle := (List.nodup_range.map (copyName_injective n.name)).length_le_of_subset htaken
    simp only [List.length_map, List.length_range] at hle
    omega

/-- It is the first of them that is free. -/
theorem freeName_first (s : Store) (target : Id) (n : Node) :
    ∃ attempt, s.freeName target n = copyName n.name attempt ∧
      ∀ i < attempt, (s.sibling? target n.kind (copyName n.name i)).isSome := by
  simp only [freeName, List.find?_map]
  generalize h : List.find? _ (List.range _) = found
  cases found with
  | none => exact ⟨0, rfl, fun i hi => absurd hi (Nat.not_lt_zero i)⟩
  | some attempt =>
    refine ⟨attempt, rfl, fun i hi => ?_⟩
    have hbefore := (List.find?_range_eq_some.1 h).2.2 i hi
    simpa [Option.isSome_iff_ne_none] using hbefore

end Store

end SnapshotArchive
