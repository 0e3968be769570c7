import Mathlib.Data.List.Infix
import SnapshotArchive.Proofs.Matching

/-!
# The faults of captured items

Captured items are paired with variables, or else faults say why not. What an item is told depends
on the items before it: it is at fault if it refers to no variable, or to one that an item before it
refers to. After the items come the variables that no item refers to. Items in another order are
told the same, with the second of two items for one variable at fault wherever it stands.

* `itemFault?`, `itemFaults`, `absences` : the faults without the record of what was taken.
* `takeItems_faults`, `missingItems_eq` : they are the faults that are found.
* `itemFaults_perm` : items in another order have the same faults in another order.
* `matchItems_perfect` : when items are paired, with what, and which faults there are if not.
-/

namespace SnapshotArchive

section

variable {α : Type} (describe : α → PvForm)

/-- What is wrong with a captured item after those before it. -/
def itemFault? (pvs : List α) (before : List ItemForm) (item : ItemForm) : Option ItemFault :=
  match pvs.find? fun pv => item.refersTo (describe pv) with
  | none => some (.unknown item.pv.name)
  | some pv =>
    if before.any (·.refersTo (describe pv)) then some (.repeated (describe pv).name) else none

/-- What is wrong with captured items, in their order, each after all before it. -/
def itemFaults (pvs : List α) (before items : List ItemForm) : List ItemFault :=
  (items.inits.zip items).filterMap fun e => itemFault? describe pvs (before ++ e.1) e.2

/-- The faults for the variables that no item refers to. -/
def absences (pvs : List α) (items : List ItemForm) : List ItemFault :=
  (pvs.filter fun pv => !items.any (·.refersTo (describe pv))).map fun pv =>
    .missing (describe pv).name

end

section

variable {α : Type} {describe : α → PvForm} {pvs : List α}

/-- The faults of a list are those of its first item and of the rest read after it. -/
theorem itemFaults_cons (before : List ItemForm) (item : ItemForm) (items : List ItemForm) :
    itemFaults describe pvs before (item :: items) =
      (itemFault? describe pvs before item).toList ++
        itemFaults describe pvs (before ++ [item]) items := by
  unfold itemFaults
  rw [List.inits_cons, List.zip_cons_cons, List.zip_map_left, List.filterMap_cons,
    List.filterMap_map, List.append_nil]
  have hrest : ((fun e : List ItemForm × ItemForm => itemFault? describe pvs (before ++ e.1) e.2) ∘
      Prod.map (fun t => item :: t) id) =
      fun e => itemFault? describe pvs (before ++ [item] ++ e.1) e.2 := by
    funext e
    rw [List.append_assoc]
    rfl
  rw [hrest]
  cases itemFault? describe pvs before item with
  | none => rfl
  | some fault => rfl

/-! ### The faults that are found -/

/-- Among variables kept apart, the one an item means is the first it refers to. -/
theorem meant?_eq_find? (h : AreApart describe pvs) (item : ItemForm) :
    meant? describe pvs item = pvs.find? fun pv => item.refersTo (describe pv) := by
  cases hfind : pvs.find? fun pv => item.refersTo (describe pv) with
  | some pv =>
    have hrefers := List.find?_some hfind
    exact (meant?_eq_some_iff h).2 ⟨List.mem_of_find?_eq_some hfind, hrefers⟩
  | none =>
    rw [Option.eq_none_iff_forall_ne_some]
    intro pv hpv
    obtain ⟨hmem, hrefers⟩ := (meant?_eq_some_iff h).1 hpv
    exact List.find?_eq_none.1 hfind pv hmem hrefers

/-- An item refers to one variable at most. -/
theorem eq_of_refersTo (h : AreApart describe pvs) {item : ItemForm} {p q : α} (hp : p ∈ pvs)
    (hq : q ∈ pvs) (hitemp : item.refersTo (describe p)) (hitemq : item.refersTo (describe q)) :
    p = q :=
  Option.some.inj (((meant?_eq_some_iff h).2 ⟨hp, hitemp⟩).symm.trans
    ((meant?_eq_some_iff h).2 ⟨hq, hitemq⟩))

/-- The record of what was taken stands for the items before. -/
theorem takeItems_faults (h : AreApart describe pvs) {taken : List (Option Id × ItemForm)}
    {before : List ItemForm}
    (htaken : ∀ pv ∈ pvs, (taken.lookup (describe pv).id).isSome =
      before.any (·.refersTo (describe pv))) (items : List ItemForm) :
    (takeItems describe pvs taken items).1 = itemFaults describe pvs before items := by
  induction items generalizing taken before with
  | nil => rfl
  | cons item items ih =>
    have hlater (pv : α) : (before ++ [item]).any (·.refersTo (describe pv)) =
        (before.any (·.refersTo (describe pv)) || item.refersTo (describe pv)) := by
      rw [List.any_append, List.any_cons, List.any_nil, Bool.or_false]
    rw [takeItems, itemFaults_cons, itemFault?, meant?_eq_find? h]
    cases hfind : pvs.find? fun pv => item.refersTo (describe pv) with
    | none =>
      refine congrArg (ItemFault.unknown item.pv.name :: ·) (ih fun pv hpv => ?_)
      rw [hlater, htaken pv hpv, Bool.eq_false_iff.2 (List.find?_eq_none.1 hfind pv hpv),
        Bool.or_false]
    | some pv =>
      have hpv : pv ∈ pvs := List.mem_of_find?_eq_some hfind
      have hrefers : item.refersTo (describe pv) = true := List.find?_some (a := pv) hfind
      have hother (q : α) (hq : q ∈ pvs) (hne : q ≠ pv) : item.refersTo (describe q) = false :=
        Bool.eq_false_iff.2 fun hitem => hne (eq_of_refersTo h hq hpv hitem hrefers)
      dsimp only
      rw [htaken pv hpv]
      split
      · rename_i hbefore
        refine congrArg (ItemFault.repeated (describe pv).name :: ·) (ih fun q hq => ?_)
        rw [hlater, htaken q hq]
        by_cases he : q = pv
        · rw [he, hbefore, Bool.true_or]
        · rw [hother q hq he, Bool.or_false]
      · refine ih fun q hq => ?_
        rw [hlater, List.lookup_append, Option.isSome_or, htaken q hq]
        by_cases he : q = pv
        · rw [he, hrefers]
          simp
        · have hid : (describe q).id ≠ (describe pv).id := fun hsame =>
            he (List.inj_on_of_nodup_map h.ids hq hpv hsame)
          rw [hother q hq he, List.lookup_cons, beq_eq_false_iff_ne.2 hid]
          rfl

/-- The walk over the items finds the faults of the items, in their order. -/
theorem takeItems_nil_faults (h : AreApart describe pvs) (items : List ItemForm) :
    (takeItems describe pvs [] items).1 = itemFaults describe pvs [] items :=
  takeItems_faults h (fun _ _ => rfl) items

/-- What the walk leaves unmatched are the variables no item refers to. -/
theorem missingItems_eq (h : AreApart describe pvs) (items : List ItemForm) :
    missingItems describe pvs (takeItems describe pvs [] items).2 =
      absences describe pvs items := by
  unfold missingItems absences
  refine congrArg (List.map _) (List.filter_congr fun pv hpv => ?_)
  rw [lookup_takeItems_of_mem h hpv, ← Option.not_isSome]
  refine congrArg (! ·) (Bool.eq_iff_iff.2 ?_)
  rw [List.find?_isSome, List.any_eq_true]

/-- There is no fault exactly if each item refers to a variable and each variable is referred to
once. -/
theorem faults_eq_nil_iff (h : AreApart describe pvs) {items : List ItemForm} :
    itemFaults describe pvs [] items ++ absences describe pvs items = [] ↔
      (∀ item ∈ items, ∃ pv ∈ pvs, item.refersTo (describe pv)) ∧
        ∀ pv ∈ pvs, (items.filter (·.refersTo (describe pv))).length = 1 := by
  rw [← takeItems_nil_faults h, ← missingItems_eq h]
  exact no_fault_iff h

/-- A pairing that fails has these faults. -/
theorem matchItems_eq_error_iff (h : AreApart describe pvs) {items : List ItemForm}
    {faults : List ItemFault} :
    matchItems describe pvs items = .error faults ↔
      faults ≠ [] ∧ faults = itemFaults describe pvs [] items ++ absences describe pvs items := by
  unfold matchItems
  dsimp only
  rw [takeItems_nil_faults h, missingItems_eq h]
  split
  · rename_i hnil
    rw [hnil]
    exact iff_of_false nofun fun hne => hne.1 hne.2
  · rename_i hne
    constructor
    · intro he
      cases he
      exact ⟨hne, rfl⟩
    · rintro ⟨-, rfl⟩
      rfl

/-! ### Items in another order -/

/-- What an item is told does not depend on the order of those before it. -/
theorem itemFault?_congr {before before' : List ItemForm} (hperm : before.Perm before')
    (item : ItemForm) :
    itemFault? describe pvs before item = itemFault? describe pvs before' item := by
  have hany (pv : α) : before.any (·.refersTo (describe pv)) =
      before'.any (·.refersTo (describe pv)) := hperm.any_eq
  unfold itemFault?
  simp only [hany]

/-- The faults of an item do not depend on the order of the items before it. -/
theorem itemFaults_congr {before before' : List ItemForm} (hperm : before.Perm before')
    (items : List ItemForm) :
    itemFaults describe pvs before items = itemFaults describe pvs before' items :=
  List.filterMap_congr fun e _ => itemFault?_congr (hperm.append_right e.1) e.2

/-- An item for another variable before does not matter. -/
theorem itemFault?_append {a b : ItemForm} (before : List ItemForm)
    (hapart : ∀ pv ∈ pvs, a.refersTo (describe pv) → b.refersTo (describe pv) = false) :
    itemFault? describe pvs (before ++ [b]) a = itemFault? describe pvs before a := by
  unfold itemFault?
  cases hfind : pvs.find? fun pv => a.refersTo (describe pv) with
  | none => rfl
  | some pv =>
    have hb := hapart pv (List.mem_of_find?_eq_some hfind) (List.find?_some (a := pv) hfind)
    simp only [List.any_append, List.any_cons, hb, List.any_nil, Bool.or_false]

/-- Two items one after the other are told the same either way round. -/
theorem itemFault?_swap (h : AreApart describe pvs) (before : List ItemForm) (a b : ItemForm) :
    ((itemFault? describe pvs before a).toList ++
        (itemFault? describe pvs (before ++ [a]) b).toList).Perm
      ((itemFault? describe pvs before b).toList ++
        (itemFault? describe pvs (before ++ [b]) a).toList) := by
  by_cases hboth : ∃ pv ∈ pvs, a.refersTo (describe pv) ∧ b.refersTo (describe pv)
  · obtain ⟨pv, hpv, ha, hb⟩ := hboth
    have hfinda : pvs.find? (fun pv => a.refersTo (describe pv)) = some pv :=
      (meant?_eq_find? h a).symm.trans ((meant?_eq_some_iff h).2 ⟨hpv, ha⟩)
    have hfindb : pvs.find? (fun pv => b.refersTo (describe pv)) = some pv :=
      (meant?_eq_find? h b).symm.trans ((meant?_eq_some_iff h).2 ⟨hpv, hb⟩)
    simp [itemFault?, hfinda, hfindb, ha, hb]
  · have hapart : ∀ pv ∈ pvs, a.refersTo (describe pv) → b.refersTo (describe pv) = false :=
      fun pv hpv ha => Bool.eq_false_iff.2 fun hb => hboth ⟨pv, hpv, ha, hb⟩
    have hapart' : ∀ pv ∈ pvs, b.refersTo (describe pv) → a.refersTo (describe pv) = false :=
      fun pv hpv hb => Bool.eq_false_iff.2 fun ha => hboth ⟨pv, hpv, ha, hb⟩
    rw [itemFault?_append before hapart, itemFault?_append before hapart']
    exact List.perm_append_comm

/-- Items in another order have the same faults in another order. -/
theorem itemFaults_perm (h : AreApart describe pvs) {items items' : List ItemForm}
    (hperm : items.Perm items') (before : List ItemForm) :
    (itemFaults describe pvs before items).Perm (itemFaults describe pvs before items') := by
  induction hperm generalizing before with
  | nil => exact .refl _
  | cons item _ ih =>
    rw [itemFaults_cons, itemFaults_cons]
    exact (ih (before ++ [item])).append_left _
  | swap a b items =>
    have hsame : itemFaults describe pvs (before ++ [b] ++ [a]) items =
        itemFaults describe pvs (before ++ [a] ++ [b]) items := by
      refine itemFaults_congr ?_ items
      rw [List.append_assoc, List.append_assoc]
      exact (List.Perm.swap a b []).append_left before
    simp only [itemFaults_cons, hsame, ← List.append_assoc]
    exact (itemFault?_swap h before b a).append_right _
  | trans _ _ ih ih' => exact (ih before).trans (ih' before)

/-- The absences do not depend on the order of the items. -/
theorem absences_perm {items items' : List ItemForm} (hperm : items.Perm items') :
    absences describe pvs items = absences describe pvs items' := by
  have hany (pv : α) : items.any (·.refersTo (describe pv)) =
      items'.any (·.refersTo (describe pv)) := hperm.any_eq
  simp only [absences, hany]

/-! ### A perfect matching -/

/-- Items are paired with variables exactly if each refers to a variable of the list and each
variable has one item that refers to it; a variable is paired with that item, in the order of the
variables. If they are not paired, there is a fault for each item that is unknown or refers to the
variable of an item before it, in the order of the items, and then one for each variable that no
item refers to, in the order of the variables. Items in another order are paired if and as these
are, and have the same faults in another order. -/
theorem matchItems_perfect (h : AreApart describe pvs) (items : List ItemForm) :
    ((∃ pairs, matchItems describe pvs items = .ok pairs) ↔
      (∀ item ∈ items, ∃ pv ∈ pvs, item.refersTo (describe pv)) ∧
        ∀ pv ∈ pvs, (items.filter (·.refersTo (describe pv))).length = 1) ∧
    (∀ pairs, matchItems describe pvs items = .ok pairs →
      pairs.map Prod.fst = pvs ∧
        ∀ pair ∈ pairs, items.filter (·.refersTo (describe pair.1)) = [pair.2]) ∧
    (∀ faults, matchItems describe pvs items = .error faults →
      faults = itemFaults describe pvs [] items ++ absences describe pvs items) ∧
    ∀ items' : List ItemForm, items'.Perm items →
      (∀ pairs, matchItems describe pvs items' = .ok pairs ↔
        matchItems describe pvs items = .ok pairs) ∧
      ∀ faults, matchItems describe pvs items = .error faults →
        ∃ faults', matchItems describe pvs items' = .error faults' ∧ faults'.Perm faults := by
  refine ⟨?_, ?_, ?_, fun items' hperm => ⟨fun pairs => ?_, fun faults hfaults => ?_⟩⟩
  · rw [← faults_eq_nil_iff h]
    cases hmatch : matchItems describe pvs items with
    | ok pairs =>
      refine iff_of_true ⟨pairs, rfl⟩ ?_
      by_contra hne
      rw [(matchItems_eq_error_iff h).2 ⟨hne, rfl⟩] at hmatch
      cases hmatch
    | error faults =>
      obtain ⟨hne, rfl⟩ := (matchItems_eq_error_iff h).1 hmatch
      exact iff_of_false (fun hok => nomatch hok.choose_spec) hne
  · intro pairs hok
    exact ((matchItems_eq_ok_iff h).1 hok).2
  · intro faults hfaults
    exact ((matchItems_eq_error_iff h).1 hfaults).2
  · exact ⟨matchItems_eq_ok_of_perm h hperm.symm, matchItems_eq_ok_of_perm h hperm⟩
  · obtain ⟨hne, rfl⟩ := (matchItems_eq_error_iff h).1 hfaults
    have hsame : (itemFaults describe pvs [] items' ++ absences describe pvs items').Perm
        (itemFaults describe pvs [] items ++ absences describe pvs items) := by
      rw [absences_perm hperm]
      exact (itemFaults_perm h hperm []).append_right _
    have hne' : itemFaults describe pvs [] items' ++ absences describe pvs items' ≠ [] :=
      fun hnil => hne (List.nil_perm.1 (hnil ▸ hsame))
    exact ⟨_, (matchItems_eq_error_iff h).2 ⟨hne', rfl⟩, hsame⟩

end

namespace Sample

/-- Three variables, as clients describe them. -/
def listed : List PvForm :=
  [⟨some "a", none, false, some "1"⟩, ⟨some "b", none, false, some "2"⟩,
    ⟨some "c", none, false, some "3"⟩]

/-- A captured item for what a client means by a name and an identifier. -/
def reading (name : String) (id : Option Id) : ItemForm where
  pv := ⟨some name, none, false, id⟩
  value := .whole 1
  readback := .null
  timestamp := none
  severity := none
  status := none

/-- As many items as variables. The first has the name of another variable, the second is for the
variable that the first has the identifier of, and the third is for none. -/
def misread : List ItemForm :=
  [reading "b" (some "1"), reading "a" none, reading "x" (some "")]

end Sample

/-- A reading with one item twice, one unknown and two missing, in both orders. -/
theorem matchItems_perfect_misread :
    AreApart id Sample.listed ∧
    matchItems id Sample.listed Sample.misread =
      .error [.repeated (some "a"), .unknown (some "x"), .missing (some "b"),
        .missing (some "c")] ∧
    ∃ faults, matchItems id Sample.listed Sample.misread.reverse = .error faults ∧
      faults.Perm [.repeated (some "a"), .unknown (some "x"), .missing (some "b"),
        .missing (some "c")] := by
  have h : AreApart id Sample.listed := ⟨by decide, by decide⟩
  obtain ⟨-, -, -, hperm⟩ := matchItems_perfect h Sample.misread
  have herror : matchItems id Sample.listed Sample.misread =
      .error [.repeated (some "a"), .unknown (some "x"), .missing (some "b"),
        .missing (some "c")] := rfl
  exact ⟨h, herror, (hperm _ (List.reverse_perm _)).2 _ herror⟩

end SnapshotArchive
