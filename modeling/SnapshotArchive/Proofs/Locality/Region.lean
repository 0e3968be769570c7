import SnapshotArchive.Proofs.Copying.Placement
import SnapshotArchive.Proofs.Paths
import SnapshotArchive.Proofs.Capturing

/-!
# Regions of a store

What a client does to nodes of one subtree depends on the rows of that subtree, and changes no
others. To say so, two stores are compared in a region: the identifiers of a subtree and those that
the client makes up. Inside the region they have the same rows in the same order
(`Region.Agree`), outside they have any, as long as these refer to nothing inside.

Every reading of a record inside the region finds the same in both. The lemmas follow the readings;
most come down to one fact about a table, that a selection which takes no row from outside takes the
same rows in both (`Rows.filter_eq`).

* `Region.Agree.children_eq`, `Region.Agree.readings_eq`, … : one lemma for each reading.
* `Region.Agree.subtree_eq`, `Region.Agree.leadsTo_iff` : the walks down and up.
-/

namespace SnapshotArchive

open Store

/-! ### Tables -/

/-- Two tables have the same rows of a sort, and given other rows. -/
structure Rows {α : Type} (q : α → Prop) [DecidablePred q] (u v l m : List α) : Prop where
  same : l.filter (q ·) = m.filter (q ·)
  left : l.filter (¬q ·) = u
  right : m.filter (¬q ·) = v

namespace Rows

variable {α : Type} {q : α → Prop} [DecidablePred q] {u v l m : List α} (h : Rows q u v l m)

include h

/-- That tables have the same rows of a sort is said of both alike. -/
theorem symm : Rows q v u m l :=
  ⟨h.same.symm, h.right, h.left⟩

/-- A row of the sort is in both tables or in neither. -/
theorem mem_iff {a : α} (ha : q a) : a ∈ l ↔ a ∈ m := by
  have hfilter : ∀ {k : List α}, a ∈ k.filter (q ·) ↔ a ∈ k := by simp [ha]
  rw [← hfilter, h.same, hfilter]

/-- The other rows of the first table are those that are not of the sort. -/
theorem mem_left_iff {a : α} : a ∈ u ↔ a ∈ l ∧ ¬q a := by
  rw [← h.left]
  simp

/-- The other rows of the first table are not of the sort. -/
theorem not_left {a : α} (ha : a ∈ u) : ¬q a :=
  (h.mem_left_iff.1 ha).2

/-- The other rows of the second table are not of the sort. -/
theorem not_right {a : α} (ha : a ∈ v) : ¬q a :=
  h.symm.not_left ha

omit h in
/-- Where rows are sorted by their owners, no other row has an owner of the sort. -/
theorem ne_left {owner : α → Id} {H : Id → Prop} [DecidablePred H]
    (h : Rows (fun a => H (owner a)) u v l m) {id : Id} (hid : H id) :
    ∀ a ∈ u, owner a ≠ id :=
  fun _ ha he => h.not_left ha (he ▸ hid)

omit h in
/-- The other rows of the second table have other owners. -/
theorem ne_right {owner : α → Id} {H : Id → Prop} [DecidablePred H]
    (h : Rows (fun a => H (owner a)) u v l m) {id : Id} (hid : H id) :
    ∀ a ∈ v, owner a ≠ id :=
  h.symm.ne_left hid

/-! #### Selections -/

/-- A selection that takes none of the other rows takes the same rows of both tables. -/
theorem filter_eq {p : α → Bool} (hu : ∀ a ∈ u, p a = false) (hv : ∀ a ∈ v, p a = false) :
    l.filter p = m.filter p := by
  have hinside : ∀ {k w : List α}, k.filter (¬q ·) = w → (∀ a ∈ w, p a = false) →
      k.filter p = (k.filter (q ·)).filter p := by
    intro k w hk hw
    rw [List.filter_filter]
    refine List.filter_congr fun a ha => ?_
    by_cases hq : q a
    · simp [hq]
    · have hmem : a ∈ k.filter (¬q ·) := List.mem_filter.2 ⟨ha, by simpa using hq⟩
      simp [hw a (hk ▸ hmem)]
  rw [hinside h.left hu, hinside h.right hv, h.same]

/-- A search that finds no other rows finds the same in both. -/
theorem find?_eq {p : α → Bool} (hu : ∀ a ∈ u, p a = false) (hv : ∀ a ∈ v, p a = false) :
    l.find? p = m.find? p := by
  rw [← List.head?_filter, h.filter_eq hu hv, List.head?_filter]

/-- Whether some row is found that is none of the others is the same in both. -/
theorem any_eq {p : α → Bool} (hu : ∀ a ∈ u, p a = false) (hv : ∀ a ∈ v, p a = false) :
    l.any p = m.any p := by
  have hfind := congrArg Option.isSome (h.find?_eq hu hv)
  rw [Bool.eq_iff_iff] at hfind ⊢
  simpa using hfind

/-- Whether all rows pass, as the others do, is the same in both. -/
theorem all_eq {p : α → Bool} (hu : ∀ a ∈ u, p a) (hv : ∀ a ∈ v, p a) : l.all p = m.all p := by
  rw [List.all_eq_not_any_not, List.all_eq_not_any_not, h.any_eq]
  · exact fun a ha => by simp [hu a ha]
  · exact fun a ha => by simp [hv a ha]

/-! #### Changes -/

/-- Rows of the sort may be added to both. -/
theorem append {as : List α} (has : ∀ a ∈ as, q a) : Rows q u v (l ++ as) (m ++ as) := by
  have hnone : as.filter (¬q ·) = [] := by simpa [List.filter_eq_nil_iff] using has
  refine ⟨?_, ?_, ?_⟩
  · rw [List.filter_append, List.filter_append, h.same]
  · rw [List.filter_append, hnone, List.append_nil, h.left]
  · rw [List.filter_append, hnone, List.append_nil, h.right]

/-- Rows of the sort may be changed in both. -/
theorem map {f : α → α} (hin : ∀ a, q (f a) ↔ q a) (hu : ∀ a ∈ u, f a = a)
    (hv : ∀ a ∈ v, f a = a) : Rows q u v (l.map f) (m.map f) := by
  have hothers : ∀ {k w : List α}, k.filter (¬q ·) = w → (∀ a ∈ w, f a = a) →
      (k.map f).filter (¬q ·) = w := by
    intro k w hk hw
    have hsame : ((¬q ·) ∘ f : α → Bool) = (¬q ·) := by
      funext a
      simp [hin]
    rw [List.filter_map, hsame, hk]
    exact (List.map_congr_left hw).trans (List.map_id _)
  refine ⟨?_, hothers h.left hu, hothers h.right hv⟩
  have hsame : ((q ·) ∘ f : α → Bool) = (q ·) := by
    funext a
    simp [hin]
  rw [List.filter_map, List.filter_map, hsame, h.same]

/-- Rows of the sort may be selected in both. -/
theorem filter {p p' : α → Bool} (hin : ∀ a ∈ l, q a → p a = p' a) (hu : ∀ a ∈ u, p a)
    (hv : ∀ a ∈ v, p' a) : Rows q u v (l.filter p) (m.filter p') := by
  have hothers : ∀ {k w : List α} {p : α → Bool}, k.filter (¬q ·) = w → (∀ a ∈ w, p a) →
      (k.filter p).filter (¬q ·) = w := by
    intro k w p hk hw
    rw [List.filter_comm, hk, List.filter_eq_self.2 hw]
  refine ⟨?_, hothers h.left hu, hothers h.right hv⟩
  rw [List.filter_comm, List.filter_comm (l := m), ← h.same]
  refine List.filter_congr fun a ha => ?_
  obtain ⟨ha, hq⟩ := List.mem_filter.1 ha
  exact hin a ha (by simpa using hq)

end Rows

/-! ### Regions -/

/-- The identifiers that a client works with: of nodes below one node, and of their variables, and
those that it makes up. -/
structure Region where
  /-- The node that the others lie below. -/
  top : Id
  /-- The parent of that node. -/
  above : Option Id
  Holds : Id → Prop
  /-- The identifiers of variables. -/
  Owns : Id → Prop
  holds_top : Holds top
  dec : DecidablePred Holds

instance (g : Region) : DecidablePred g.Holds :=
  g.dec

namespace Region

/-- Rows outside a region refer to nothing in it. -/
structure Bounds (g : Region) (u : Store) : Prop where
  nodes : ∀ n ∈ u.nodes, ∀ p, n.parent = some p → ¬g.Holds p
  pvs : ∀ pv ∈ u.pvs, ¬g.Owns pv.id
  items : ∀ item ∈ u.items, ¬g.Owns item.pv

/-- Two stores have the same rows in a region, and given rows outside. -/
structure Agree (g : Region) (u v s t : Store) : Prop where
  nodes : Rows (fun n : Node => g.Holds n.id) u.nodes v.nodes s.nodes t.nodes
  pvs : Rows (fun pv : Pv => g.Holds pv.config) u.pvs v.pvs s.pvs t.pvs
  items : Rows (fun item : Item => g.Holds item.snapshot) u.items v.items s.items t.items
  tags : Rows (fun tag : Tag => g.Holds tag.snapshot) u.tags v.tags s.tags t.tags
  left : g.Bounds u
  right : g.Bounds v
  place : ∀ n ∈ s.nodes, n.id = g.top → n.parent = g.above
  parents : ∀ n ∈ s.nodes, g.Holds n.id → n.id ≠ g.top → ∃ p, n.parent = some p ∧ g.Holds p
  ownPvs : ∀ pv ∈ s.pvs, g.Holds pv.config → g.Owns pv.id
  ownItems : ∀ item ∈ s.items, g.Holds item.snapshot → g.Owns item.pv

namespace Agree

variable {g : Region} {u v s t : Store} (h : g.Agree u v s t)

include h

/-- That stores agree in a region is said of both alike. -/
theorem symm : g.Agree v u t s where
  nodes := h.nodes.symm
  pvs := h.pvs.symm
  items := h.items.symm
  tags := h.tags.symm
  left := h.right
  right := h.left
  place n hn hid := h.place n ((h.nodes.mem_iff (hid ▸ g.holds_top)).2 hn) hid
  parents n hn hid := h.parents n ((h.nodes.mem_iff hid).2 hn) hid
  ownPvs pv hpv hc := h.ownPvs pv ((h.pvs.mem_iff hc).2 hpv) hc
  ownItems item hi hsnapshot := h.ownItems item ((h.items.mem_iff hsnapshot).2 hi) hsnapshot

/-! ### Nodes -/

/-- Stores that agree find the same under an identifier of the region. -/
theorem node?_eq {id : Id} (hid : g.Holds id) : s.node? id = t.node? id :=
  h.nodes.find?_eq (fun n hn => decide_eq_false (h.nodes.ne_left hid n hn))
    fun n hn => decide_eq_false (h.nodes.ne_right hid n hn)

/-- They have a node there, or neither has. -/
theorem hasNode_eq {id : Id} (hid : g.Holds id) : s.hasNode id = t.hasNode id :=
  congrArg Option.isSome (h.node?_eq hid)

/-- They require a node there alike. -/
theorem require_eq {id : Id} (hid : g.Holds id) : s.require id = t.require id := by
  rw [require, h.node?_eq hid, require]

/-- They require one of a kind to read it alike. -/
theorem requireToRead_eq {id : Id} (hid : g.Holds id) (k : Kind) :
    s.requireToRead id k = t.requireToRead id k := by
  rw [requireToRead, h.require_eq hid, requireToRead]

/-- They require one of a kind to write to it alike. -/
theorem requireToWrite_eq {id : Id} (hid : g.Holds id) (k : Kind) :
    s.requireToWrite id k = t.requireToWrite id k := by
  rw [requireToWrite, h.require_eq hid, requireToWrite]

/-- Nodes are selected by a parent in the region alike. -/
theorem filter_nodes_eq {p : Id} (hp : g.Holds p) {q : Node → Bool}
    (hq : ∀ n, q n → n.parent = some p) : s.nodes.filter q = t.nodes.filter q :=
  h.nodes.filter_eq
    (fun n hn => Bool.eq_false_iff.2 fun hqn => h.left.nodes n hn p (hq n hqn) hp)
    fun n hn => Bool.eq_false_iff.2 fun hqn => h.right.nodes n hn p (hq n hqn) hp

/-- A node of the region has the same children in both. -/
theorem children_eq {p : Id} (hp : g.Holds p) : s.children p = t.children p := by
  rw [children, children, h.filter_nodes_eq hp fun n hn => by simpa using hn]

/-- The next child of a node of the region gets the same position in both. -/
theorem nextPosition_eq {p : Id} (hp : g.Holds p) : s.nextPosition p = t.nextPosition p := by
  rw [nextPosition, nextPosition, h.filter_nodes_eq hp fun n hn => by simpa using hn]

/-- The same child of a node of the region has a name in both. -/
theorem sibling?_eq {p : Id} (hp : g.Holds p) (k : Kind) (name : String) :
    s.sibling? (some p) k name = t.sibling? (some p) k name := by
  rw [sibling?, sibling?, ← List.head?_filter, ← List.head?_filter,
    h.filter_nodes_eq hp fun n hn => (holdsName_iff.1 hn).2.1]

/-- A name is free in a node of the region in both, or in neither. -/
theorem checkNameFree_eq {p : Id} (hp : g.Holds p) (k : Kind) (name : String) (self : Option Id) :
    s.checkNameFree (some p) k name self = t.checkNameFree (some p) k name self := by
  rw [checkNameFree, checkNameFree, h.sibling?_eq hp]

/-- A configuration of the region has the same draft in both. -/
theorem draft?_eq {config : Id} (hc : g.Holds config) : s.draft? config = t.draft? config := by
  rw [draft?, draft?, h.filter_nodes_eq hc fun n hn => by simp_all]

/-- A node in a node of the region has the same golden siblings in both. -/
theorem goldenSiblings_eq {n : Node} {p : Id} (hparent : n.parent = some p) (hp : g.Holds p) :
    s.goldenSiblings n = t.goldenSiblings n := by
  refine h.filter_nodes_eq hp fun m hm => ?_
  simp only [Bool.and_eq_true, decide_eq_true_eq] at hm
  exact hm.1.1.1.2.trans hparent

/-! ### Variables, items and tags -/

/-- Variables of a configuration of the region are selected in both alike. -/
theorem filter_pvs_eq {config : Id} (hc : g.Holds config) {q : Pv → Bool}
    (hq : ∀ pv, q pv → pv.config = config) : s.pvs.filter q = t.pvs.filter q :=
  h.pvs.filter_eq
    (fun pv hpv => Bool.eq_false_iff.2 fun hqpv => h.pvs.ne_left hc pv hpv (hq pv hqpv))
    fun pv hpv => Bool.eq_false_iff.2 fun hqpv => h.pvs.ne_right hc pv hpv (hq pv hqpv)

/-- A configuration of the region has the same variables in both. -/
theorem pvsOf_eq {config : Id} (hc : g.Holds config) : s.pvsOf config = t.pvsOf config := by
  rw [pvsOf, pvsOf, h.filter_pvs_eq hc fun pv hpv => by simpa using hpv]

/-- It lists the same variables in both. -/
theorem activePvs_eq {config : Id} (hc : g.Holds config) :
    s.activePvs config = t.activePvs config := by
  rw [activePvs, h.pvsOf_eq hc, activePvs]

/-- It lists the same variable under a name in both. -/
theorem activePv?_eq {config : Id} (hc : g.Holds config) (name : String) :
    s.activePv? config name = t.activePv? config name := by
  rw [activePv?, activePv?, ← List.head?_filter, ← List.head?_filter,
    h.filter_pvs_eq hc fun pv hpv => by simp_all]

/-- It keeps the same variable for a name in both. -/
theorem keptPv?_eq {config : Id} (hc : g.Holds config) (name : String) :
    s.keptPv? config name = t.keptPv? config name := by
  rw [keptPv?, h.activePv?_eq hc, h.pvsOf_eq hc, keptPv?]

/-- The same variable is found under an identifier of the region in both. -/
theorem pv?_eq {id : Id} (hid : g.Owns id) : s.pv? id = t.pv? id :=
  h.pvs.find?_eq (fun pv hpv => decide_eq_false fun he => h.left.pvs pv hpv (he ▸ hid))
    fun pv hpv => decide_eq_false fun he => h.right.pvs pv hpv (he ▸ hid)

/-- The same is read of a configuration of the region in both. -/
theorem configuration_eq {id : Id} (hid : g.Holds id) :
    s.configuration id = t.configuration id := by
  rw [configuration, h.requireToRead_eq hid, h.activePvs_eq hid, configuration]

/-- A snapshot of the region has the same items in both. -/
theorem itemsOf_eq {snapshot : Id} (hid : g.Holds snapshot) :
    s.itemsOf snapshot = t.itemsOf snapshot := by
  rw [itemsOf, itemsOf, h.items.filter_eq]
  · exact fun i hi => decide_eq_false (h.items.ne_left hid i hi)
  · exact fun i hi => decide_eq_false (h.items.ne_right hid i hi)

/-- It has the same items with their variables in both. -/
theorem readings_eq {snapshot : Id} (hid : g.Holds snapshot) :
    s.readings snapshot = t.readings snapshot := by
  rw [readings, readings, ← h.itemsOf_eq hid]
  refine List.filterMap_congr fun item hitem => ?_
  obtain ⟨hmem, he⟩ := mem_itemsOf_iff.1 hitem
  rw [h.pv?_eq (h.ownItems item hmem (he ▸ hid))]

/-- The same is read of a snapshot of the region in both. -/
theorem snapshot_eq {id : Id} (hid : g.Holds id) : s.snapshot id = t.snapshot id := by
  rw [Store.snapshot, h.requireToRead_eq hid, h.readings_eq hid, Store.snapshot]

/-- Items refer to a variable of the region in both, or in neither. -/
theorem isReferenced_eq {pv : Id} (hpv : g.Owns pv) : s.isReferenced pv = t.isReferenced pv :=
  h.items.any_eq (fun i hi => decide_eq_false fun he => h.left.items i hi (he ▸ hpv))
    fun i hi => decide_eq_false fun he => h.right.items i hi (he ▸ hpv)

/-- The stored tags of a snapshot of the region are the same in both. -/
theorem filter_tags_eq {snapshot : Id} (hid : g.Holds snapshot) :
    s.tags.filter (·.snapshot = snapshot) = t.tags.filter (·.snapshot = snapshot) :=
  h.tags.filter_eq (fun tag htag => decide_eq_false (h.tags.ne_left hid tag htag))
    fun tag htag => decide_eq_false (h.tags.ne_right hid tag htag)

/-- The tags of a snapshot of the region are listed alike in both. -/
theorem tagsOf_eq {snapshot : Id} (hid : g.Holds snapshot) :
    s.tagsOf snapshot = t.tagsOf snapshot := by
  rw [tagsOf, h.filter_tags_eq hid, tagsOf]

/-! ### The tree -/

/-- What lies outside leads to nothing inside. -/
theorem not_leadsTo {x y : Id} (hx : ¬g.Holds x) (hy : g.Holds y) : ¬s.LeadsTo x y := by
  intro hup
  induction hup using Relation.ReflTransGen.head_induction_on with
  | refl => exact hx hy
  | head hlink _ ih =>
    obtain ⟨n, hn, rfl, hp⟩ := hlink
    exact ih (h.left.nodes n (h.nodes.mem_left_iff.2 ⟨hn, hx⟩) _ hp)

/-- A way up to a node of the region in one store is one in the other. -/
theorem leadsTo_of {x y : Id} (hy : g.Holds y) (hup : s.LeadsTo x y) : t.LeadsTo x y := by
  induction hup using Relation.ReflTransGen.head_induction_on with
  | refl => exact .refl
  | @head x z hlink hrest ih =>
    obtain ⟨n, hn, rfl, hp⟩ := hlink
    have hid : g.Holds n.id := by
      by_contra hid
      exact h.not_leadsTo hid hy (.head ⟨n, hn, rfl, hp⟩ hrest)
    exact .head ⟨n, (h.nodes.mem_iff hid).1 hn, rfl, hp⟩ ih

/-- The ways up to a node of the region are the same in both. -/
theorem leadsTo_iff {x y : Id} (hy : g.Holds y) : s.LeadsTo x y ↔ t.LeadsTo x y :=
  ⟨h.leadsTo_of hy, h.symm.leadsTo_of hy⟩

/-- Every child of a node in the region is in it. -/
theorem holds_of_mem_children {p : Id} (hp : g.Holds p) {n : Node} (hn : n ∈ s.children p) :
    g.Holds n.id := by
  obtain ⟨hn, hparent⟩ := mem_children_iff.1 hn
  by_contra hid
  exact h.left.nodes n (h.nodes.mem_left_iff.2 ⟨hn, hid⟩) p hparent hp

/-- The walk down from nodes of the region meets the same in both. -/
theorem levels_eq (d : Nat) {level : List Node} (hlevel : ∀ n ∈ level, g.Holds n.id) :
    s.levels d level = t.levels d level := by
  induction d generalizing level with
  | zero => rfl
  | succ d ih =>
    have hnext : level.flatMap (fun n => s.children n.id) =
        level.flatMap fun n => t.children n.id :=
      List.flatMap_congr fun n hn => h.children_eq (hlevel n hn)
    rw [levels_succ, levels_succ, ← hnext, ih fun m hm => ?_]
    obtain ⟨n, hn, hm⟩ := List.mem_flatMap.1 hm
    exact h.holds_of_mem_children (hlevel n hn) hm

/-- Subtrees are read alike, though the bounds on their depth differ. -/
theorem subtree_eq (hs : s.IsTree) (ht : t.IsTree) {id : Id} (hid : g.Holds id) :
    s.subtree id = t.subtree id := by
  rw [Store.subtree, Store.subtree, ← h.node?_eq hid]
  cases hfind : s.node? id with
  | none => rfl
  | some n =>
    obtain ⟨hn, rfl⟩ := node?_eq_some hfind
    have hn' : n ∈ t.nodes := (h.nodes.mem_iff hid).1 hn
    show s.levels s.nodes.length [n] = t.levels t.nodes.length [n]
    rw [← hs.levels_add hn t.nodes.length, ← ht.levels_add hn' s.nodes.length,
      Nat.add_comm t.nodes.length]
    exact h.levels_eq _ fun m hm => List.mem_singleton.1 hm ▸ hid

/-- The walk down from nodes of the region stays in it. -/
theorem holds_of_mem_levels {d : Nat} {level : List Node} (hlevel : ∀ n ∈ level, g.Holds n.id)
    {m : Node} (hm : m ∈ s.levels d level) : g.Holds m.id := by
  induction d generalizing level with
  | zero => exact hlevel m hm
  | succ d ih =>
    rcases List.mem_append.1 hm with hm | hm
    · exact hlevel m hm
    · refine ih (fun k hk => ?_) hm
      obtain ⟨n, hn, hk⟩ := List.mem_flatMap.1 hk
      exact h.holds_of_mem_children (hlevel n hn) hk

/-- A subtree of a node of the region lies in it. -/
theorem holds_of_mem_subtree {id : Id} (hid : g.Holds id) {m : Node} (hm : m ∈ s.subtree id) :
    g.Holds m.id := by
  unfold Store.subtree at hm
  split at hm
  · rename_i n hn
    obtain ⟨-, rfl⟩ := node?_eq_some hn
    exact h.holds_of_mem_levels (fun k hk => List.mem_singleton.1 hk ▸ hid) hm
  · cases hm

end Agree

end Region

end SnapshotArchive
