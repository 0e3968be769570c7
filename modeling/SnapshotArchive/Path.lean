import SnapshotArchive.Failure

/-!
# Paths

A path is written with a slash before each name: `/Accelerator/RF Settings`. Read, it may have
slashes in a row and one at its end; the path of the root is a lone slash.

* `splitPath_joinPath` : the names of a written path are read back.
* `writable_of_mem_segments` : what is read as a name can be written as one.
-/

namespace SnapshotArchive

/-! ### Splitting at slashes -/

/-- The pieces between slashes, empty ones too. -/
def pieces : List Char → List (List Char)
  | [] => [[]]
  | c :: cs =>
    if c = '/' then [] :: pieces cs
    else
      match pieces cs with
      | p :: ps => (c :: p) :: ps
      | [] => [[c]]

/-- The names between the slashes of a text. -/
def segments (cs : List Char) : List String :=
  ((pieces cs).filter (· ≠ [])).map String.ofList

/-- The names of a path, which must start with a slash. -/
def splitPath (path : Option String) : Except Failure (List String) := do
  let cs := (path.getD "").toList
  ensure (cs.head? = some '/') (.relativePath path)
  return segments cs

/-! ### Joining -/

/-- The characters of names, each after a slash. -/
def joined (names : List String) : List Char :=
  names.flatMap fun name => '/' :: name.toList

/-- The path with the given names. -/
def joinPath : List String → String
  | [] => "/"
  | names => String.ofList (joined names)

/-- A path is written with a slash before each name. -/
theorem joinPath_eq (names : List String) : joinPath names = "/" ++ "/".intercalate names := by
  cases names with
  | nil => rfl
  | cons name names =>
    apply String.toList_inj.1
    simp only [joinPath, String.toList_ofList, String.toList_append, String.toList_intercalate]
    induction names generalizing name with
    | nil => simp [joined, List.intercalate]
    | cons next names ih =>
      have hjoined : joined (name :: next :: names) =
          '/' :: (name.toList ++ joined (next :: names)) := by simp [joined]
      rw [hjoined, ih next]
      simp [List.intercalate]

/-- A path that is put together starts with a slash. -/
@[simp] theorem head?_joinPath (names : List String) :
    (joinPath names).toList.head? = some '/' := by
  cases names with
  | nil => rfl
  | cons name names => simp [joinPath, joined]

/-! ### Reading back -/

/-- A text has at least one piece. -/
theorem pieces_ne_nil (cs : List Char) : pieces cs ≠ [] := by
  cases cs with
  | nil => simp [pieces]
  | cons c cs =>
    rw [pieces]
    split
    · simp
    · split <;> simp

/-- Before a slash at the start there is an empty piece. -/
theorem pieces_slash (cs : List Char) : pieces ('/' :: cs) = [] :: pieces cs := by
  simp [pieces]

/-- A text without a slash is a part of the first piece. -/
theorem pieces_append (cs : List Char) {name : List Char} (h : '/' ∉ name) :
    ∃ p ps, pieces cs = p :: ps ∧ pieces (name ++ cs) = (name ++ p) :: ps := by
  induction name with
  | nil =>
    cases hp : pieces cs with
    | nil => exact absurd hp (pieces_ne_nil cs)
    | cons p ps => exact ⟨p, ps, rfl, by simpa using hp⟩
  | cons c name ih =>
    simp only [List.mem_cons, not_or] at h
    obtain ⟨p, ps, hp, hn⟩ := ih h.2
    refine ⟨p, ps, hp, ?_⟩
    rw [List.cons_append, pieces, if_neg (Ne.symm h.1), hn]
    rfl

/-- Names without slashes are the pieces of their path, after an empty one. -/
theorem pieces_joined {names : List String} (h : ∀ name ∈ names, '/' ∉ name.toList) :
    pieces (joined names) = [] :: names.map (·.toList) := by
  induction names with
  | nil => rfl
  | cons name names ih =>
    obtain ⟨p, ps, hp, hn⟩ := pieces_append (joined names) (h name List.mem_cons_self)
    have ih := ih fun m hm => h m (List.mem_cons_of_mem _ hm)
    rw [hp] at ih
    obtain ⟨rfl, rfl⟩ := List.cons.inj ih
    rw [show joined (name :: names) = '/' :: (name.toList ++ joined names) from by simp [joined],
      pieces_slash, hn]
    simp

/-- Names that are not empty are the segments of their path. -/
theorem segments_joined {names : List String}
    (h : ∀ name ∈ names, name ≠ "" ∧ '/' ∉ name.toList) : segments (joined names) = names := by
  have hne : ∀ name ∈ names, name.toList ≠ [] := fun name hm he =>
    (h name hm).1 (String.toList_inj.1 he)
  rw [segments, pieces_joined fun name hm => (h name hm).2]
  simp only [ne_eq, List.filter_cons, not_true_eq_false, decide_false, Bool.false_eq_true,
    if_false, List.filter_map]
  rw [List.filter_eq_self.2 (by simpa using hne), List.map_map]
  simp

/-- A path that was put together of names is taken apart into them. -/
theorem splitPath_joinPath {names : List String}
    (h : ∀ name ∈ names, name ≠ "" ∧ '/' ∉ name.toList) :
    splitPath (joinPath names) = .ok names := by
  cases names with
  | nil => rfl
  | cons name names =>
    simp only [joinPath, splitPath, Option.getD_some, String.toList_ofList, segments_joined h]
    rfl

/-- A text that starts with a slash is taken apart into its segments. -/
theorem splitPath_of_slash {path : String} (h : path.toList.head? = some '/') :
    splitPath (some path) = .ok (segments path.toList) := by
  simp [splitPath, h, demand, bind, Except.bind, pure, Except.pure]

/-- The segments of a path that was put together are the names in it. -/
theorem segments_joinPath {names : List String}
    (h : ∀ name ∈ names, name ≠ "" ∧ '/' ∉ name.toList) :
    segments (joinPath names).toList = names := by
  have hread := splitPath_of_slash (head?_joinPath names)
  rw [splitPath_joinPath h] at hread
  exact (Except.ok.inj hread).symm

/-! ### What is read -/

/-- No piece of a text has a slash in it. -/
theorem slash_not_mem_pieces {cs : List Char} : ∀ piece ∈ pieces cs, '/' ∉ piece := by
  induction cs with
  | nil => simp [pieces]
  | cons c cs ih =>
    unfold pieces
    split
    · simpa using ih
    · rename_i hc
      split
      · rename_i p ps hp
        rw [hp] at ih
        intro piece hpiece
        rcases List.mem_cons.1 hpiece with rfl | hpiece
        · simpa [Ne.symm hc] using ih p List.mem_cons_self
        · exact ih piece (List.mem_cons_of_mem _ hpiece)
      · simp [Ne.symm hc]

/-- What is read between slashes can be written between slashes. -/
theorem writable_of_mem_segments {cs : List Char} {name : String} (h : name ∈ segments cs) :
    name ≠ "" ∧ '/' ∉ name.toList := by
  obtain ⟨piece, hpiece, rfl⟩ := List.mem_map.1 h
  obtain ⟨hmem, hne⟩ := List.mem_filter.1 hpiece
  simp only [String.toList_ofList]
  refine ⟨fun he => ?_, slash_not_mem_pieces piece hmem⟩
  have hnil : (String.ofList piece).toList = [] := by rw [he]; rfl
  simp [String.toList_ofList] at hnil
  simp [hnil] at hne

/-- A run of slashes has no names. -/
theorem segments_of_slashes {cs : List Char} (h : ∀ c ∈ cs, c = '/') : segments cs = [] := by
  have hpieces : ∀ piece ∈ pieces cs, piece = [] := by
    induction cs with
    | nil => simp [pieces]
    | cons c cs ih =>
      obtain rfl := h c List.mem_cons_self
      simpa [pieces_slash] using ih fun d hd => h d (List.mem_cons_of_mem _ hd)
  simp only [segments, List.map_eq_nil_iff, List.filter_eq_nil_iff]
  intro piece hpiece
  simp [hpieces piece hpiece]

end SnapshotArchive
