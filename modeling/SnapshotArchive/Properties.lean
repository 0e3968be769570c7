/-!
# Properties

The properties of a node map texts to texts. They are kept as a list in ascending order of keys,
so that two maps with the same entries are equal.

* `Properties.get?_insert`, `Properties.get?_erase` : what an update does to the entries.
* `Properties.eq_of_get?_eq` : properties with the same values are the same.
-/

namespace SnapshotArchive

/-- A finite map from texts to texts. -/
structure Properties where
  /-- The entries, by ascending key. -/
  entries : List (String × String)
  sorted : entries.Pairwise fun a b => a.1 < b.1
  deriving DecidableEq

namespace Properties

/-- Properties with the same entries are the same. -/
@[ext] theorem ext {p q : Properties} (h : p.entries = q.entries) : p = q := by
  cases p; cases q; simp_all

/-- No properties. -/
def empty : Properties := ⟨[], .nil⟩

instance : Inhabited Properties := ⟨empty⟩

/-- The value of a key. -/
def get? (p : Properties) (key : String) : Option String :=
  p.entries.lookup key

/-! ### Setting a key -/

/-- Puts a key into its place in an ascending list. -/
def insertEntry (key value : String) : List (String × String) → List (String × String)
  | [] => [(key, value)]
  | e :: es =>
    if key < e.1 then (key, value) :: e :: es
    else if key = e.1 then (key, value) :: es
    else e :: insertEntry key value es

/-- Putting a key into its place adds no other entry. -/
theorem mem_insertEntry {key value : String} {es : List (String × String)} {e : String × String}
    (h : e ∈ insertEntry key value es) : e = (key, value) ∨ e ∈ es := by
  induction es with
  | nil => simpa [insertEntry] using h
  | cons d es ih =>
    rw [insertEntry] at h
    split at h
    · simpa using h
    · split at h
      · rcases List.mem_cons.1 h with h | h
        · exact .inl h
        · exact .inr (List.mem_cons_of_mem _ h)
      · rcases List.mem_cons.1 h with h | h
        · exact .inr (h ▸ List.mem_cons_self)
        · exact (ih h).imp_right (List.mem_cons_of_mem _)

/-- A list stays in ascending order when a key is put into its place. -/
theorem sorted_insertEntry (key value : String) {es : List (String × String)}
    (h : es.Pairwise fun a b => a.1 < b.1) :
    (insertEntry key value es).Pairwise fun a b => a.1 < b.1 := by
  induction es with
  | nil => simp [insertEntry]
  | cons e es ih =>
    obtain ⟨he, hes⟩ := List.pairwise_cons.1 h
    rw [insertEntry]
    split
    · rename_i hk
      refine List.pairwise_cons.2 ⟨fun d hd => ?_, h⟩
      rcases List.mem_cons.1 hd with rfl | hd
      · exact hk
      · exact String.lt_trans hk (he d hd)
    · split
      · rename_i hk
        exact List.pairwise_cons.2 ⟨fun d hd => hk ▸ he d hd, hes⟩
      · rename_i hlt hne
        refine List.pairwise_cons.2 ⟨fun d hd => ?_, ih hes⟩
        rcases mem_insertEntry hd with rfl | hd
        · exact String.not_le.1 fun h => hne (String.le_antisymm h (String.not_lt.1 hlt))
        · exact he d hd

/-- The properties with one key set. -/
def insert (p : Properties) (key value : String) : Properties :=
  ⟨insertEntry key value p.entries, sorted_insertEntry key value p.sorted⟩

/-- The properties without a key. -/
def erase (p : Properties) (key : String) : Properties :=
  ⟨p.entries.filter (·.1 ≠ key), p.sorted.filter _⟩

/-- The map with the given entries; of two entries with one key the later counts. -/
def ofList (es : List (String × String)) : Properties :=
  es.foldl (fun p e => p.insert e.1 e.2) empty

/-! ### Entries after an update -/

/-- A lookup stops at the first entry of the key. -/
theorem lookup_entry {α : Type} (key : String) (e : String × α) (es : List (String × α)) :
    (e :: es).lookup key = if key = e.1 then some e.2 else es.lookup key := by
  obtain ⟨k, v⟩ := e
  by_cases h : key = k
  · simp [h]
  · have hb : (key == k) = false := by simpa using h
    simp [List.lookup_cons, hb, h]

/-- A key that was put into its place is found, and the others as before. -/
theorem lookup_insertEntry (key value other : String) (es : List (String × String)) :
    (insertEntry key value es).lookup other =
      if other = key then some value else es.lookup other := by
  induction es with
  | nil => simp [insertEntry]
  | cons e es ih =>
    rw [insertEntry]
    split
    · rw [lookup_entry]
    · split
      · rename_i hk
        rw [lookup_entry, lookup_entry, ← hk]
        split <;> rfl
      · rename_i hne
        rw [lookup_entry, lookup_entry, ih]
        by_cases h : other = e.1
        · simp [h, Ne.symm hne]
        · simp [h]

/-- Setting a key changes the value of this key alone. -/
theorem get?_insert (p : Properties) (key value other : String) :
    (p.insert key value).get? other = if other = key then some value else p.get? other :=
  lookup_insertEntry key value other p.entries

/-- Without its entries a key is not found, and the others are as before. -/
theorem lookup_filter_ne (key other : String) (es : List (String × String)) :
    (es.filter (·.1 ≠ key)).lookup other = if other = key then none else es.lookup other := by
  induction es with
  | nil => simp
  | cons e es ih =>
    by_cases h : e.1 = key
    · rw [List.filter_cons_of_neg (by simpa using h), ih, lookup_entry, h]
      split <;> rfl
    · rw [List.filter_cons_of_pos (by simpa using h), lookup_entry, lookup_entry, ih]
      by_cases ho : other = e.1
      · simp [ho, h]
      · simp [ho]

/-- Erasing a key takes away the value of this key alone. -/
theorem get?_erase (p : Properties) (key other : String) :
    (p.erase key).get? other = if other = key then none else p.get? other :=
  lookup_filter_ne key other p.entries

/-! ### Extensionality -/

/-- A key below all of a list is not found in it. -/
theorem lookup_eq_none_of_lt {key : String} {es : List (String × String)}
    (h : ∀ e ∈ es, key < e.1) : es.lookup key = none := by
  induction es with
  | nil => rfl
  | cons e es ih =>
    have hne : key ≠ e.1 := fun he => String.lt_irrefl key (by simpa [← he] using h e)
    rw [lookup_entry, if_neg hne]
    exact ih fun d hd => h d (List.mem_cons_of_mem _ hd)

/-- Ascending lists in which the same is found are equal. -/
theorem eq_of_lookup_eq {es ds : List (String × String)}
    (hes : es.Pairwise fun a b => a.1 < b.1) (hds : ds.Pairwise fun a b => a.1 < b.1)
    (h : ∀ key, es.lookup key = ds.lookup key) : es = ds := by
  induction es generalizing ds with
  | nil =>
    cases ds with
    | nil => rfl
    | cons d ds => simpa [lookup_entry] using h d.1
  | cons e es ih =>
    cases ds with
    | nil => simpa [lookup_entry] using h e.1
    | cons d ds =>
      obtain ⟨he, hes⟩ := List.pairwise_cons.1 hes
      obtain ⟨hd, hds⟩ := List.pairwise_cons.1 hds
      -- The first key of the one list is in the other, and so not below its first key.
      have hle : ∀ {a b : String × String} {as bs : List (String × String)},
          (∀ c ∈ bs, b.1 < c.1) → (a :: as).lookup a.1 = (b :: bs).lookup a.1 → b.1 ≤ a.1 := by
        intro a b as bs hb hab
        refine String.not_lt.1 fun hlt => ?_
        rw [lookup_entry, if_pos rfl, lookup_eq_none_of_lt] at hab
        · cases hab
        · intro c hc
          rcases List.mem_cons.1 hc with rfl | hc
          · exact hlt
          · exact String.lt_trans hlt (hb c hc)
      have hkey : e.1 = d.1 := String.le_antisymm (hle he (h d.1).symm) (hle hd (h e.1))
      have hvalue : e.2 = d.2 := by simpa [lookup_entry, hkey] using h d.1
      rw [Prod.ext hkey hvalue, ih hes hds fun key => ?_]
      by_cases hk : key = e.1
      · rw [hk, lookup_eq_none_of_lt he, hkey, lookup_eq_none_of_lt hd]
      · have := h key
        rwa [lookup_entry, lookup_entry, if_neg hk, if_neg (hkey ▸ hk)] at this

/-- Properties with the same values are the same. -/
theorem eq_of_get?_eq {p q : Properties} (h : ∀ key, p.get? key = q.get? key) : p = q :=
  ext (eq_of_lookup_eq p.sorted q.sorted h)

/-- After several keys were set, their values are those set, and the others as before. -/
theorem get?_foldl_insert {es : List (String × String)}
    (h : es.Pairwise fun a b => a.1 < b.1) (p : Properties) (key : String) :
    (es.foldl (fun p e => p.insert e.1 e.2) p).get? key = (es.lookup key).or (p.get? key) := by
  induction es generalizing p with
  | nil => rfl
  | cons e es ih =>
    obtain ⟨he, hes⟩ := List.pairwise_cons.1 h
    rw [List.foldl_cons, ih hes, get?_insert, lookup_entry]
    split
    · rename_i hk
      rw [hk, lookup_eq_none_of_lt he]
      rfl
    · rfl

/-- Properties are the map of their entries. -/
theorem ofList_entries (p : Properties) : ofList p.entries = p := by
  refine eq_of_get?_eq fun key => ?_
  rw [ofList, get?_foldl_insert p.sorted]
  exact Option.or_none

end Properties

end SnapshotArchive
