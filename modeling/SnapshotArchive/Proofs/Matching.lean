import SnapshotArchive.Proofs.Capturing

/-!
# Which items are paired with which variables

Captured items are gone through once, and the first item for each identifier is taken. That comes to
a condition that does not depend on their order, if the variables can be told apart: every item
refers to a variable of the list, and every variable has exactly one item that refers to it.

* `meant?_eq_some_iff` : the variable that an item means is the one it refers to.
* `lookup_takeItems`, `takeItems_faults_eq_nil_iff` : what is taken, and when there is no fault.
* `matchItems_eq_ok_iff` : which pairs result.
* `matchItems_eq_ok_of_perm` : items in another order give the same pairs.
-/

namespace SnapshotArchive

/-- Whether a captured item refers to a variable: by its identifier if it has one that is not empty,
and else by its name. -/
def ItemForm.refersTo (item : ItemForm) (pv : PvForm) : Bool :=
  match item.pv.id.filter (· ≠ "") with
  | some id => pv.id = some id
  | none => pv.name = item.pv.name

section

variable {α : Type} (describe : α → PvForm)

/-- Variables that differ in their identifiers and in their names. -/
structure AreApart (pvs : List α) : Prop where
  ids : (pvs.map fun pv => (describe pv).id).Nodup
  names : (pvs.map fun pv => (describe pv).name).Nodup

/-- The identifier of the variable that a captured item means. -/
def meantId? (pvs : List α) (item : ItemForm) : Option (Option Id) :=
  (meant? describe pvs item).map fun pv => (describe pv).id

end

/-- In a list without repeated keys, a key finds the element that has it, from either end. -/
theorem find?_reverse_eq_some_iff {α κ : Type} [DecidableEq κ] {key : α → κ} {l : List α}
    (h : (l.map key).Nodup) {k : κ} {a : α} :
    l.reverse.find? (fun b => key b = k) = some a ↔ a ∈ l ∧ key a = k := by
  constructor
  · intro hfind
    exact ⟨List.mem_reverse.1 (List.mem_of_find?_eq_some hfind), by
      simpa using List.find?_some hfind⟩
  · rintro ⟨ha, rfl⟩
    cases hfind : l.reverse.find? fun b => key b = key a with
    | none =>
      have hnone := List.find?_eq_none.1 hfind a (List.mem_reverse.2 ha)
      simp at hnone
    | some b =>
      have hb : b ∈ l := List.mem_reverse.1 (List.mem_of_find?_eq_some hfind)
      have hkey : key b = key a := by simpa using List.find?_some hfind
      rw [List.inj_on_of_nodup_map h hb ha hkey]

section

variable {α : Type} {describe : α → PvForm} {pvs : List α} {items : List ItemForm}

/-! ### What an item means -/

/-- An item means a variable of the list exactly if it refers to it. -/
theorem meant?_eq_some_iff (h : AreApart describe pvs) {item : ItemForm} {pv : α} :
    meant? describe pvs item = some pv ↔ pv ∈ pvs ∧ item.refersTo (describe pv) := by
  unfold meant? ItemForm.refersTo
  cases item.pv.id.filter (· ≠ "") with
  | some id => rw [find?_reverse_eq_some_iff h.ids, decide_eq_true_eq]
  | none => rw [find?_reverse_eq_some_iff h.names, decide_eq_true_eq]

/-- An item means the identifier of a variable exactly if it refers to the variable. -/
theorem meantId?_eq_some_iff (h : AreApart describe pvs) {item : ItemForm} {pv : α}
    (hpv : pv ∈ pvs) :
    meantId? describe pvs item = some (describe pv).id ↔ item.refersTo (describe pv) := by
  unfold meantId?
  rw [Option.map_eq_some_iff]
  constructor
  · rintro ⟨q, hq, hid⟩
    obtain ⟨hmem, hrefers⟩ := (meant?_eq_some_iff h).1 hq
    rwa [List.inj_on_of_nodup_map h.ids hmem hpv hid] at hrefers
  · intro hrefers
    exact ⟨pv, (meant?_eq_some_iff h).2 ⟨hpv, hrefers⟩, rfl⟩

/-! ### What is taken -/

/-- For each identifier the first item that means its variable is taken. -/
theorem lookup_takeItems (taken : List (Option Id × ItemForm)) (id : Option Id) :
    (takeItems describe pvs taken items).2.lookup id =
      (taken.lookup id).or (items.find? fun item => meantId? describe pvs item = some id) := by
  induction items generalizing taken with
  | nil => simp [takeItems]
  | cons item items ih =>
    rw [takeItems, List.find?_cons]
    cases hmeant : meant? describe pvs item with
    | none =>
      have hother : decide (meantId? describe pvs item = some id) = false := by
        simp [meantId?, hmeant]
      simp only [hother]
      exact ih taken
    | some pv =>
      have hid : meantId? describe pvs item = some (describe pv).id := by simp [meantId?, hmeant]
      simp only [hid, Option.some.injEq]
      by_cases hsome : (taken.lookup (describe pv).id).isSome
      · rw [if_pos hsome]
        by_cases he : (describe pv).id = id
        · obtain ⟨form, hform⟩ := Option.isSome_iff_exists.1 (he ▸ hsome)
          simp [ih, hform]
        · simp [ih, he]
      · rw [if_neg hsome, ih, List.lookup_append]
        by_cases he : (describe pv).id = id
        · simp [he]
        · simp [he, List.lookup_cons, beq_eq_false_iff_ne.2 (Ne.symm he)]

/-- No fault is found exactly if every item means a variable that no other item means. -/
theorem takeItems_faults_eq_nil_iff (taken : List (Option Id × ItemForm)) :
    (takeItems describe pvs taken items).1 = [] ↔
      (∀ item ∈ items, ∃ pv, meant? describe pvs item = some pv ∧
        taken.lookup (describe pv).id = none) ∧
      (items.map (meantId? describe pvs)).Nodup := by
  induction items generalizing taken with
  | nil => simp [takeItems]
  | cons item items ih =>
    rw [takeItems, List.forall_mem_cons, List.map_cons, List.nodup_cons]
    cases hmeant : meant? describe pvs item with
    | none =>
      constructor
      · intro hnil
        cases hnil
      · rintro ⟨⟨⟨pv, hpv, -⟩, -⟩, -⟩
        cases hpv
    | some pv =>
      have hid : meantId? describe pvs item = some (describe pv).id := by simp [meantId?, hmeant]
      dsimp only
      rw [hid]
      by_cases hsome : (taken.lookup (describe pv).id).isSome
      · rw [if_pos hsome]
        constructor
        · intro hnil
          cases hnil
        · rintro ⟨⟨⟨q, hq, hfree⟩, -⟩, -⟩
          obtain rfl := Option.some.inj hq
          rw [hfree] at hsome
          cases hsome
      · rw [if_neg hsome, ih]
        have hnone : taken.lookup (describe pv).id = none := Option.not_isSome_iff_eq_none.1 hsome
        constructor
        · rintro ⟨hall, hnodup⟩
          refine ⟨⟨⟨pv, rfl, hnone⟩, fun other hother => ?_⟩, fun hagain => ?_, hnodup⟩
          · obtain ⟨q, hq, hfree⟩ := hall other hother
            rw [List.lookup_append, Option.or_eq_none_iff] at hfree
            exact ⟨q, hq, hfree.1⟩
          · obtain ⟨other, hother, he⟩ := List.mem_map.1 hagain
            obtain ⟨q, hq, hfree⟩ := hall other hother
            simp [meantId?, hq] at he
            simp [List.lookup_append, he] at hfree
        · rintro ⟨⟨-, hall⟩, hnew, hnodup⟩
          refine ⟨fun other hother => ?_, hnodup⟩
          obtain ⟨q, hq, hfree⟩ := hall other hother
          have hne : (describe q).id ≠ (describe pv).id := fun he =>
            hnew (List.mem_map.2 ⟨other, hother, by simp [meantId?, hq, he]⟩)
          refine ⟨q, hq, ?_⟩
          rw [List.lookup_append, hfree, Option.none_or, List.lookup_cons,
            beq_eq_false_iff_ne.2 hne]
          rfl

/-! ### The pairs -/

/-- The items that refer to each variable, if all items refer to one. -/
theorem nodup_meantId?_iff (h : AreApart describe pvs)
    (hall : ∀ item ∈ items, ∃ pv, meant? describe pvs item = some pv) :
    (items.map (meantId? describe pvs)).Nodup ↔
      ∀ pv ∈ pvs, (items.filter (·.refersTo (describe pv))).length ≤ 1 := by
  have hcount : ∀ pv ∈ pvs, (items.map (meantId? describe pvs)).count (some (describe pv).id) =
      (items.filter (·.refersTo (describe pv))).length := by
    intro pv hpv
    rw [List.count_eq_countP, List.countP_map, List.countP_eq_length_filter]
    refine congrArg List.length (List.filter_congr fun item _ => ?_)
    rw [Function.comp_apply, Bool.eq_iff_iff, beq_iff_eq, meantId?_eq_some_iff h hpv]
  rw [List.nodup_iff_count_le_one]
  constructor
  · intro hle pv hpv
    rw [← hcount pv hpv]
    exact hle _
  · intro hle key
    by_cases hkey : key ∈ items.map (meantId? describe pvs)
    · obtain ⟨item, hitem, rfl⟩ := List.mem_map.1 hkey
      obtain ⟨pv, hpv⟩ := hall item hitem
      obtain ⟨hmem, hrefers⟩ := (meant?_eq_some_iff h).1 hpv
      rw [(meantId?_eq_some_iff h hmem).2 hrefers, hcount pv hmem]
      exact hle pv hmem
    · rw [List.count_eq_zero_of_not_mem hkey]
      exact Nat.zero_le 1

/-- What is taken for a variable is the first item that refers to it. -/
theorem lookup_takeItems_of_mem (h : AreApart describe pvs) {pv : α} (hpv : pv ∈ pvs) :
    (takeItems describe pvs [] items).2.lookup (describe pv).id =
      items.find? (·.refersTo (describe pv)) := by
  rw [lookup_takeItems, List.lookup_nil, Option.none_or]
  refine congrArg (fun p => items.find? p) (funext fun item => ?_)
  rw [Bool.eq_iff_iff, decide_eq_true_eq, meantId?_eq_some_iff h hpv]

/-- No item is missing exactly if some item refers to each variable. -/
theorem missingItems_eq_nil_iff (h : AreApart describe pvs) :
    missingItems describe pvs (takeItems describe pvs [] items).2 = [] ↔
      ∀ pv ∈ pvs, ∃ item ∈ items, item.refersTo (describe pv) := by
  rw [missingItems, List.map_eq_nil_iff, List.filter_eq_nil_iff]
  refine forall₂_congr fun pv hpv => ?_
  rw [lookup_takeItems_of_mem h hpv, Bool.not_eq_true, Option.isNone_eq_false_iff,
    List.find?_isSome]

/-- There is no fault exactly if every item refers to a variable and every variable has exactly one
item that refers to it. -/
theorem no_fault_iff (h : AreApart describe pvs) :
    (takeItems describe pvs [] items).1 ++
        missingItems describe pvs (takeItems describe pvs [] items).2 = [] ↔
      (∀ item ∈ items, ∃ pv ∈ pvs, item.refersTo (describe pv)) ∧
        ∀ pv ∈ pvs, (items.filter (·.refersTo (describe pv))).length = 1 := by
  have hrefers : (∀ item ∈ items, ∃ pv, meant? describe pvs item = some pv) ↔
      ∀ item ∈ items, ∃ pv ∈ pvs, item.refersTo (describe pv) :=
    forall₂_congr fun item _ => exists_congr fun pv => meant?_eq_some_iff h
  have hsome (pv : α) : (∃ item ∈ items, item.refersTo (describe pv)) ↔
      0 < (items.filter (·.refersTo (describe pv))).length := by
    rw [← List.countP_eq_length_filter, List.countP_pos_iff]
  rw [List.append_eq_nil_iff, missingItems_eq_nil_iff h, takeItems_faults_eq_nil_iff]
  simp only [List.lookup_nil, and_true, hsome]
  constructor
  · rintro ⟨⟨hall, hnodup⟩, hpos⟩
    refine ⟨hrefers.1 hall, fun pv hpv => ?_⟩
    have hle := (nodup_meantId?_iff h hall).1 hnodup pv hpv
    have hlt := hpos pv hpv
    omega
  · rintro ⟨hall, hone⟩
    refine ⟨⟨hrefers.2 hall, (nodup_meantId?_iff h (hrefers.2 hall)).2 ?_⟩, ?_⟩
    · intro pv hpv
      exact Nat.le_of_eq (hone pv hpv)
    · intro pv hpv
      rw [hone pv hpv]
      exact Nat.one_pos

/-- Items are paired with variables exactly if each refers to a variable of the list, and a pair has
the only item that refers to its variable. -/
theorem matchItems_eq_ok_iff (h : AreApart describe pvs) {pairs : List (α × ItemForm)} :
    matchItems describe pvs items = .ok pairs ↔
      (∀ item ∈ items, ∃ pv ∈ pvs, item.refersTo (describe pv)) ∧ pairs.map Prod.fst = pvs ∧
        ∀ pair ∈ pairs, items.filter (·.refersTo (describe pair.1)) = [pair.2] := by
  have hpairs : (pvs.filterMap fun pv =>
      ((takeItems describe pvs [] items).2.lookup (describe pv).id).map (pv, ·)) =
      pvs.filterMap fun pv => (items.find? (·.refersTo (describe pv))).map (pv, ·) :=
    List.filterMap_congr fun pv hpv => by rw [lookup_takeItems_of_mem h hpv]
  have hok : matchItems describe pvs items = .ok pairs ↔
      (takeItems describe pvs [] items).1 ++
          missingItems describe pvs (takeItems describe pvs [] items).2 = [] ∧
        (pvs.filterMap fun pv => (items.find? (·.refersTo (describe pv))).map (pv, ·)) = pairs := by
    rw [← hpairs]
    unfold matchItems
    dsimp only
    split
    · rename_i hnil
      simp [hnil]
    · rename_i hne
      exact iff_of_false nofun fun h => hne h.1
  rw [hok, no_fault_iff h]
  constructor
  · rintro ⟨⟨hall, hone⟩, rfl⟩
    refine ⟨hall, ?_, fun pair hpair => ?_⟩
    · rw [map_fst_filterMap, List.filter_eq_self]
      intro pv hpv
      obtain ⟨item, hitem⟩ := List.length_eq_one_iff.1 (hone pv hpv)
      rw [← List.head?_filter, hitem]
      rfl
    · obtain ⟨pv, hpv, he⟩ := List.mem_filterMap.1 hpair
      obtain ⟨item, hfirst, rfl⟩ := Option.map_eq_some_iff.1 he
      obtain ⟨only, honly⟩ := List.length_eq_one_iff.1 (hone pv hpv)
      rw [← List.head?_filter, honly] at hfirst
      rw [honly, ← Option.some.inj hfirst]
  · rintro ⟨hall, rfl, honly⟩
    refine ⟨⟨hall, fun pv hpv => ?_⟩, ?_⟩
    · obtain ⟨pair, hpair, rfl⟩ := List.mem_map.1 hpv
      rw [honly pair hpair]
      rfl
    · rw [List.filterMap_map]
      refine (List.filterMap_congr fun pair hpair => ?_).trans List.filterMap_some
      rw [Function.comp_apply, ← List.head?_filter, honly pair hpair]
      rfl

/-- The order of the items does not matter to the pairs. -/
theorem matchItems_eq_ok_of_perm (h : AreApart describe pvs) {items' : List ItemForm}
    (hperm : items'.Perm items) {pairs : List (α × ItemForm)}
    (hok : matchItems describe pvs items = .ok pairs) :
    matchItems describe pvs items' = .ok pairs := by
  obtain ⟨hall, hfst, honly⟩ := (matchItems_eq_ok_iff h).1 hok
  refine (matchItems_eq_ok_iff h).2 ⟨fun item hitem => ?_, hfst, fun pair hpair => ?_⟩
  · exact hall item (hperm.subset hitem)
  · have hsame := hperm.filter (·.refersTo (describe pair.1))
    rw [honly pair hpair] at hsame
    exact List.perm_singleton.1 hsame

end

end SnapshotArchive
