import SnapshotArchive.Store.Lineage
import Mathlib.Logic.Relation
import Mathlib.Data.List.Nodup

/-!
# The tree of nodes

A store keeps parent links, not a tree. `Store.IsTree` says when the links make one: the root is
the one node without a parent, every other node has one of a kind that may hold it, and following
the links from any node leads to the root.

The way up from a node is a list (`Store.Lineage`), and in a tree it is the list that
`Store.ancestorIds` finds: it never meets a node twice, so it is no longer than the table of nodes,
and neither the bound on the steps nor the guard against repetition is ever met.

* `Store.IsTree.ancestorIds_eq` : the walk up lists the lineage of a node.
* `Store.IsTree.mem_ancestorIds_iff` : it holds the nodes that the links lead to, and no others.
* `Store.IsTree.ancestorIds_of_parent` : the walk from a child is that from its parent, one longer.
-/

namespace SnapshotArchive

namespace Store

/-! ### Parent links -/

/-- Whether a node with the first identifier has the second as its parent. -/
def HasParent (s : Store) (id parent : Id) : Prop :=
  ∃ n ∈ s.nodes, n.id = id ∧ n.parent = some parent

/-- Whether following the parent links from a node leads to another in finitely many steps. -/
def LeadsTo (s : Store) : Id → Id → Prop :=
  Relation.ReflTransGen s.HasParent

/-- The nodes of a store form one tree under the root folder. -/
structure IsTree (s : Store) : Prop where
  /-- No two nodes have one identifier. -/
  nodup : (s.nodes.map (·.id)).Nodup
  /-- The root exists, is a folder and has no parent. -/
  root : ∃ r ∈ s.nodes, r.id = rootId ∧ r.parent = none ∧ r.kind = .folder
  /-- No other node is without a parent. -/
  onlyRoot : ∀ n ∈ s.nodes, n.parent = none → n.id = rootId
  /-- A parent exists and may hold its child. -/
  contained : ∀ n ∈ s.nodes, ∀ p, n.parent = some p →
    ∃ m ∈ s.nodes, m.id = p ∧ m.kind.mayHold n.kind
  /-- Every node lies below the root. -/
  rooted : ∀ n ∈ s.nodes, s.LeadsTo n.id rootId

/-! ### Nodes by their identifiers -/

section

variable {s : Store}

/-- Where identifiers differ, one identifier is one node. -/
theorem eq_of_id_eq (h : (s.nodes.map (·.id)).Nodup) {n m : Node} (hn : n ∈ s.nodes)
    (hm : m ∈ s.nodes) (he : n.id = m.id) : n = m :=
  List.inj_on_of_nodup_map h hn hm he

/-- A stored node is found by its identifier. -/
theorem node?_of_mem (h : (s.nodes.map (·.id)).Nodup) {n : Node} (hn : n ∈ s.nodes) :
    s.node? n.id = some n := by
  cases hf : s.node? n.id with
  | none => simpa using List.find?_eq_none.1 hf n hn
  | some m =>
    obtain ⟨hm, he⟩ := node?_eq_some hf
    rw [eq_of_id_eq h hm hn he]

/-- Its identifier is taken. -/
theorem hasNode_of_mem {n : Node} (hn : n ∈ s.nodes) : s.hasNode n.id :=
  hasNode_iff.2 ⟨n, hn, rfl⟩

/-- No stored node has an identifier that is free. -/
theorem not_mem_of_hasNode_eq_false {id : Id} (h : s.hasNode id = false) {n : Node}
    (hn : n ∈ s.nodes) : n.id ≠ id := by
  rintro rfl
  rw [hasNode_of_mem hn] at h
  cases h

end

/-! ### The way up -/

/-- A list holds the identifiers from a node up to one without a parent. -/
inductive Lineage (s : Store) : Id → List Id → Prop
  | top {n : Node} : n ∈ s.nodes → n.parent = none → Lineage s n.id [n.id]
  | child {n : Node} {p : Id} {ids : List Id} :
    n ∈ s.nodes → n.parent = some p → Lineage s p ids → Lineage s n.id (n.id :: ids)

namespace Lineage

variable {s : Store} {id : Id} {ids : List Id}

/-- A node has one lineage. -/
theorem unique (hs : (s.nodes.map (·.id)).Nodup) (h : s.Lineage id ids) :
    ∀ {other : List Id}, s.Lineage id other → ids = other := by
  induction h with
  | top hn hp =>
    intro other h'
    generalize he : Node.id _ = id at h'
    cases h' with
    | top => rfl
    | child hm hq =>
      obtain rfl := eq_of_id_eq hs hn hm he
      rw [hp] at hq
      cases hq
  | child hn hp _ ih =>
    intro other h'
    generalize he : Node.id _ = id at h'
    cases h' with
    | top hm hq =>
      obtain rfl := eq_of_id_eq hs hn hm he
      rw [hp] at hq
      cases hq
    | child hm hq h'' =>
      obtain rfl := eq_of_id_eq hs hn hm he
      obtain rfl : _ = _ := Option.some.inj (hp.symm.trans hq)
      rw [ih h'']

/-- A lineage is of stored nodes. -/
theorem subset (h : s.Lineage id ids) : ids ⊆ s.nodes.map (·.id) := by
  induction h with
  | top hn => simpa using ⟨_, hn, rfl⟩
  | child hn _ _ ih => exact List.cons_subset.2 ⟨List.mem_map_of_mem hn, ih⟩

/-- Each node on the way up has the rest of the way as its own. -/
theorem suffix (h : s.Lineage id ids) {x : Id} (hx : x ∈ ids) :
    ∃ rest, s.Lineage x rest ∧ rest <:+ ids := by
  induction h with
  | top hn hp =>
    obtain rfl := List.mem_singleton.1 hx
    exact ⟨_, .top hn hp, List.suffix_refl _⟩
  | child hn hp h ih =>
    rcases List.mem_cons.1 hx with rfl | hx
    · exact ⟨_, .child hn hp h, List.suffix_refl _⟩
    · obtain ⟨rest, hr, hs⟩ := ih hx
      exact ⟨rest, hr, hs.trans (List.suffix_cons _ _)⟩

/-- No node is on a lineage twice. -/
theorem nodup (hs : (s.nodes.map (·.id)).Nodup) (h : s.Lineage id ids) : ids.Nodup := by
  induction h with
  | top => simp
  | @child n p ids hn hp h ih =>
    refine List.nodup_cons.2 ⟨fun hx => ?_, ih⟩
    -- A node that is met again has a way up that is longer than itself.
    obtain ⟨rest, hr, hsuffix⟩ := h.suffix hx
    have he := hr.unique hs (.child hn hp h)
    have hle := hsuffix.length_le
    rw [he, List.length_cons] at hle
    omega

/-- A lineage is no longer than the table of nodes. -/
theorem length_le (hs : (s.nodes.map (·.id)).Nodup) (h : s.Lineage id ids) :
    ids.length ≤ s.nodes.length := by
  simpa using (h.nodup hs).length_le_of_subset h.subset

/-- With enough steps the walk up follows the lineage to its end. -/
theorem climb_eq (hs : (s.nodes.map (·.id)).Nodup) (h : s.Lineage id ids) :
    ∀ {steps : Nat} {seen : List Id}, ids.length ≤ steps → (∀ x ∈ seen, x ∉ ids) →
      s.climb steps seen (some id) = ids := by
  induction h with
  | @top n hn hp =>
    intro steps seen hsteps hseen
    obtain ⟨steps, rfl⟩ : ∃ k, steps = k + 1 := ⟨steps - 1, by simp at hsteps; omega⟩
    have hmem : n.id ∉ seen := fun hx => hseen _ hx List.mem_cons_self
    rw [climb, if_neg hmem, node?_of_mem hs hn]
    simp only [hp]
    cases steps <;> simp [climb]
  | @child n p ids hn hp h ih =>
    intro steps seen hsteps hseen
    obtain ⟨steps, rfl⟩ : ∃ k, steps = k + 1 := ⟨steps - 1, by simp at hsteps; omega⟩
    have hmem : n.id ∉ seen := fun hx => hseen _ hx List.mem_cons_self
    have hnew : n.id ∉ ids := (List.nodup_cons.1 ((Lineage.child hn hp h).nodup hs)).1
    rw [climb, if_neg hmem, node?_of_mem hs hn]
    simp only [hp]
    rw [ih (by simp at hsteps; omega) fun x hx => ?_]
    rcases List.mem_cons.1 hx with rfl | hx
    · exact hnew
    · exact fun hm => hseen x hx (List.mem_cons_of_mem _ hm)

end Lineage

/-! ### The way up in a tree -/

namespace IsTree

variable {s : Store} (h : s.IsTree)

include h

/-- The kind of a parent may hold the kind of its child. -/
theorem parent_mayHold {n p : Node} (hn : n ∈ s.nodes) (hp : p ∈ s.nodes)
    (hparent : n.parent = some p.id) : p.kind.mayHold n.kind := by
  obtain ⟨q, hq, hqid, hholds⟩ := h.contained n hn p.id hparent
  rwa [eq_of_id_eq h.nodup hq hp hqid] at hholds

/-- Every stored node has a lineage. -/
theorem exists_lineage {n : Node} (hn : n ∈ s.nodes) : ∃ ids, s.Lineage n.id ids := by
  have hup := h.rooted n hn
  generalize n.id = id at hup
  induction hup using Relation.ReflTransGen.head_induction_on with
  | refl =>
    obtain ⟨r, hr, hid, hp, -⟩ := h.root
    exact ⟨[rootId], hid ▸ Lineage.top hr hp⟩
  | head hlink _ ih =>
    obtain ⟨m, hm, rfl, hp⟩ := hlink
    obtain ⟨ids, hids⟩ := ih
    exact ⟨_, .child hm hp hids⟩

/-- The walk up lists the lineage of a node: it is cut short neither by the number of steps nor by
the guard against repetition. -/
theorem ancestorIds_eq {id : Id} {ids : List Id} (hl : s.Lineage id ids) :
    s.ancestorIds id = ids :=
  hl.climb_eq h.nodup (Nat.le_succ_of_le (hl.length_le h.nodup)) (by simp)

/-- Reading the ancestors of a stored node gives its lineage. -/
theorem lineage_ancestorIds {n : Node} (hn : n ∈ s.nodes) :
    s.Lineage n.id (s.ancestorIds n.id) := by
  obtain ⟨ids, hids⟩ := h.exists_lineage hn
  rwa [h.ancestorIds_eq hids]

/-- It is the node and then the lineage of its parent. -/
theorem ancestorIds_of_parent {n : Node} {p : Id} (hn : n ∈ s.nodes) (hp : n.parent = some p) :
    s.ancestorIds n.id = n.id :: s.ancestorIds p := by
  obtain ⟨m, hm, rfl, -⟩ := h.contained n hn p hp
  exact h.ancestorIds_eq (.child hn hp (h.lineage_ancestorIds hm))

/-- On it are the nodes the parents lead to. -/
theorem mem_ancestorIds_iff {n : Node} (hn : n ∈ s.nodes) {x : Id} :
    x ∈ s.ancestorIds n.id ↔ s.LeadsTo n.id x := by
  constructor
  · intro hx
    have hl := h.lineage_ancestorIds hn
    generalize n.id = id at hx hl
    generalize s.ancestorIds id = ids at hx hl
    induction hl with
    | top => exact List.mem_singleton.1 hx ▸ .refl
    | child hm hp _ ih =>
      rcases List.mem_cons.1 hx with rfl | hx
      · exact .refl
      · exact .head ⟨_, hm, rfl, hp⟩ (ih hx)
  · intro hx
    generalize hid : n.id = id at hx
    induction hx using Relation.ReflTransGen.head_induction_on generalizing n with
    | refl =>
      obtain ⟨ids, hids⟩ := h.exists_lineage hn
      rw [hid] at hids
      rw [h.ancestorIds_eq hids]
      cases hids <;> exact List.mem_cons_self
    | head hlink _ ih =>
      obtain ⟨m, hm, hmid, hp⟩ := hlink
      obtain rfl := eq_of_id_eq h.nodup hn hm (hid.trans hmid.symm)
      obtain ⟨q, hq, hqid, -⟩ := h.contained n hn _ hp
      rw [← hid, h.ancestorIds_of_parent hn hp]
      exact List.mem_cons_of_mem _ (hqid ▸ ih hq hqid)

end IsTree

end Store

end SnapshotArchive
