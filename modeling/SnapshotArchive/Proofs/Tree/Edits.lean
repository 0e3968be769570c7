import SnapshotArchive.Proofs.Edit

/-!
# Edits keep the tree

A new node goes below a node that may hold it. A node that changes keeps its place or enters a
folder that does not lie below it, so the way from that folder to the root is the same as before
and can be gone on from the node. What is deleted takes along all that lies below it, so no way to
the root is broken.

* `Store.IsTree.edit` : each edit keeps the tree.
-/

namespace SnapshotArchive

namespace Store

/-- Whether the nodes form a tree depends on the table of nodes alone. -/
theorem IsTree.of_nodes_eq {s t : Store} (h : s.IsTree) (he : t.nodes = s.nodes) : t.IsTree := by
  obtain ⟨nodes, pvs, items, tags⟩ := s
  obtain ⟨nodes', pvs', items', tags'⟩ := t
  obtain rfl : nodes' = nodes := he
  exact ⟨h.nodup, h.root, h.onlyRoot, h.contained, h.rooted⟩

/-- A way whose links are there in another store is a way in that store. -/
theorem LeadsTo.of_links {s t : Store} {x y : Id} (h : s.LeadsTo x y)
    (hlinks : ∀ n ∈ s.nodes, s.LeadsTo x n.id → ∀ p, n.parent = some p → t.HasParent n.id p) :
    t.LeadsTo x y := by
  induction h using Relation.ReflTransGen.head_induction_on with
  | refl => exact .refl
  | head hlink _ ih =>
    obtain ⟨n, hn, rfl, hp⟩ := hlink
    exact .head (hlinks n hn .refl _ hp)
      (ih fun m hm hxm => hlinks m hm (.head ⟨n, hn, rfl, hp⟩ hxm))

/-! ### A node in another's place -/

section

variable {s : Store} {n m : Node} (hn : n ∈ s.nodes) (hid : m.id = n.id)

include hid

/-- The other nodes stay when one is replaced. -/
theorem mem_replaceNode_of_ne {o : Node} (ho : o ∈ s.nodes) (hne : o.id ≠ n.id) :
    o ∈ (s.replaceNode m).nodes :=
  mem_replaceNode_iff.2 (.inr ⟨ho, hid ▸ hne⟩)

/-- A way that does not meet the changed node is still one. -/
theorem LeadsTo.replaceNode_of_outside {x y : Id} (hxy : s.LeadsTo x y)
    (houtside : ¬s.LeadsTo x n.id) : (s.replaceNode m).LeadsTo x y :=
  hxy.of_links fun o ho hxo _ hop =>
    ⟨o, mem_replaceNode_of_ne hid ho fun he => houtside (he ▸ hxo), rfl, hop⟩

/-- A way can be gone up to the changed node, and from there on another way. -/
theorem LeadsTo.replaceNode {x y : Id} (hxy : s.LeadsTo x y)
    (hup : (s.replaceNode m).LeadsTo n.id y) : (s.replaceNode m).LeadsTo x y := by
  induction hxy using Relation.ReflTransGen.head_induction_on with
  | refl => exact .refl
  | head hlink _ ih =>
    obtain ⟨o, ho, rfl, hop⟩ := hlink
    by_cases hne : o.id = n.id
    · exact hne ▸ hup
    · exact .head ⟨o, mem_replaceNode_of_ne hid ho hne, rfl, hop⟩ ih

include hn

/-- The new node is stored in its stead. -/
theorem mem_replaceNode_self : m ∈ (s.replaceNode m).nodes :=
  mem_replaceNode_iff.2 (.inl ⟨rfl, hid ▸ hasNode_of_mem hn⟩)

/-- A node that a change leaves with its identifier has a node in its place. -/
theorem exists_mem_replaceNode (h : (s.nodes.map (·.id)).Nodup) {o : Node} (ho : o ∈ s.nodes) :
    ∃ o' ∈ (s.replaceNode m).nodes, o'.id = o.id ∧ (o = n ∧ o' = m ∨ o' = o) := by
  by_cases hne : o.id = n.id
  · obtain rfl := eq_of_id_eq h ho hn hne
    exact ⟨m, mem_replaceNode_self hn hid, hid, .inl ⟨rfl, rfl⟩⟩
  · exact ⟨o, mem_replaceNode_of_ne hid ho hne, rfl, .inr rfl⟩

end

namespace IsTree

variable {s : Store} (h : s.IsTree)

include h

/-- A leaf added below a node that may hold it leaves a tree. -/
theorem addNode {parent n : Node} (hmem : parent ∈ s.nodes) (hp : n.parent = some parent.id)
    (hk : parent.kind.mayHold n.kind) (hid : s.hasNode n.id = false) :
    IsTree { s with nodes := s.nodes ++ [n] } := by
  have hold : ∀ {x y : Id}, s.LeadsTo x y → LeadsTo { s with nodes := s.nodes ++ [n] } x y :=
    fun hxy => hxy.of_links fun m hm _ p hmp => ⟨m, List.mem_append_left _ hm, rfl, hmp⟩
  obtain ⟨r, hr, hroot⟩ := h.root
  refine ⟨?_, ⟨r, List.mem_append_left _ hr, hroot⟩, fun m hm hnone => ?_, fun m hm p hmp => ?_,
    fun m hm => ?_⟩
  · rw [List.map_append, List.nodup_append]
    refine ⟨h.nodup, List.nodup_singleton _, ?_⟩
    simp only [List.map_cons, List.map_nil, List.mem_singleton, List.mem_map]
    rintro x ⟨m, hm, rfl⟩ y rfl
    exact not_mem_of_hasNode_eq_false hid hm
  · rcases List.mem_append.1 hm with hm | hm
    · exact h.onlyRoot m hm hnone
    · rw [List.mem_singleton.1 hm, hp] at hnone
      cases hnone
  · rcases List.mem_append.1 hm with hm | hm
    · obtain ⟨q, hq, hqp⟩ := h.contained m hm p hmp
      exact ⟨q, List.mem_append_left _ hq, hqp⟩
    · obtain rfl := List.mem_singleton.1 hm
      obtain rfl := Option.some.inj (hp.symm.trans hmp)
      exact ⟨parent, List.mem_append_left _ hmem, rfl, hk⟩
  · rcases List.mem_append.1 hm with hm' | hm'
    · exact hold (h.rooted m hm')
    · obtain rfl := List.mem_singleton.1 hm'
      exact .head ⟨m, hm, rfl, hp⟩ (hold (h.rooted parent hmem))

section

variable {n m : Node} (hn : n ∈ s.nodes) (hid : m.id = n.id) (hk : m.kind = n.kind)
  (hp : m.parent = n.parent ∨ ∃ target, m.parent = some target.id ∧ s.MayEnter n target)

include hn hp

/-- A node that keeps its place or enters a folder leads to the root from there. -/
theorem leadsTo_root_of_change (hid : m.id = n.id) : (s.replaceNode m).LeadsTo n.id rootId := by
  rcases hp with hp | ⟨target, hp, henter⟩
  · refine LeadsTo.of_links (h.rooted n hn) fun o ho _ p hop => ?_
    obtain ⟨o', ho', he, ⟨rfl, rfl⟩ | rfl⟩ := exists_mem_replaceNode hn hid h.nodup ho
    · exact ⟨o', ho', he, hp.trans hop⟩
    · exact ⟨o', ho', he, hop⟩
  · exact .head ⟨m, mem_replaceNode_self hn hid, hid, hp⟩
      ((h.rooted target henter.mem).replaceNode_of_outside hid henter.outside)

/-- What it lies in may hold it. -/
theorem contained_of_change (hk : m.kind = n.kind) :
    ∀ p, m.parent = some p → ∃ q ∈ s.nodes, q.id = p ∧ q.kind.mayHold m.kind := by
  rcases hp with hp | ⟨target, hp, henter⟩
  · exact hp ▸ hk ▸ h.contained n hn
  · intro p hmp
    obtain rfl := Option.some.inj (hp.symm.trans hmp)
    refine ⟨target, henter.mem, rfl, ?_⟩
    rw [henter.folder, hk]
    exact Kind.mayHold_of_isMovable henter.movable

/-- Only the root has no parent, and it cannot enter a folder. -/
theorem parent_eq_none_of_change : m.parent = none ↔ n.parent = none := by
  rcases hp with hp | ⟨target, hp, henter⟩
  · rw [hp]
  · refine ⟨by simp [hp], fun hnone => absurd ?_ henter.outside⟩
    exact h.onlyRoot n hn hnone ▸ h.rooted target henter.mem

include hid hk

/-- So does a node replaced by one of its kind, below a place it may enter. -/
theorem changeNode : (s.replaceNode m).IsTree := by
  have hplace := fun {o : Node} => exists_mem_replaceNode (o := o) hn hid h.nodup
  have honly := h.parent_eq_none_of_change hn hp
  refine ⟨?_, ?_, fun o ho honone => ?_, fun o ho p hop => ?_, fun o ho => ?_⟩
  · rw [map_id_replaceNode]
    exact h.nodup
  · obtain ⟨r, hr, hrid, hrnone, hrk⟩ := h.root
    obtain ⟨r', hr', he, ⟨rfl, rfl⟩ | rfl⟩ := hplace hr
    · exact ⟨r', hr', he.trans hrid, honly.2 hrnone, hk.trans hrk⟩
    · exact ⟨r', hr', hrid, hrnone, hrk⟩
  · rcases mem_replaceNode_iff.1 ho with ⟨rfl, -⟩ | ⟨ho, -⟩
    · exact hid ▸ h.onlyRoot n hn (honly.1 honone)
    · exact h.onlyRoot o ho honone
  · obtain ⟨q, hq, hqid, hqk⟩ : ∃ q ∈ s.nodes, q.id = p ∧ q.kind.mayHold o.kind := by
      rcases mem_replaceNode_iff.1 ho with ⟨rfl, -⟩ | ⟨ho, -⟩
      · exact h.contained_of_change hn hp hk p hop
      · exact h.contained o ho p hop
    obtain ⟨q', hq', he, ⟨rfl, rfl⟩ | rfl⟩ := hplace hq
    · exact ⟨q', hq', he.trans hqid, hk ▸ hqk⟩
    · exact ⟨q', hq', hqid, hqk⟩
  · have hup := h.leadsTo_root_of_change hn hp hid
    rcases mem_replaceNode_iff.1 ho with ⟨rfl, -⟩ | ⟨ho, -⟩
    · exact hid ▸ hup
    · exact LeadsTo.replaceNode hid (h.rooted o ho) hup

end

/-- So does removing nodes with all that lies below them. -/
theorem removeNodes {ids : List Id} (hroot : rootId ∉ ids)
    (hclosed : ∀ n ∈ s.nodes, ∀ p ∈ ids, n.parent = some p → n.id ∈ ids) :
    (s.removeNodes ids).IsTree := by
  have hparent : ∀ n ∈ s.nodes, n.id ∉ ids → ∀ p, n.parent = some p → p ∉ ids :=
    fun n hn hid p hp hpi => hid (hclosed n hn p hpi hp)
  refine ⟨h.nodup.sublist (List.filter_sublist.map _), ?_, fun n hn => ?_, fun n hn p hp => ?_,
    fun n hn => ?_⟩
  · obtain ⟨r, hr, hid, hrest⟩ := h.root
    exact ⟨r, mem_nodes_removeNodes_iff.2 ⟨hr, hid ▸ hroot⟩, hid, hrest⟩
  · exact h.onlyRoot n (mem_nodes_removeNodes_iff.1 hn).1
  · obtain ⟨hn, hid⟩ := mem_nodes_removeNodes_iff.1 hn
    obtain ⟨m, hm, rfl, hk⟩ := h.contained n hn p hp
    exact ⟨m, mem_nodes_removeNodes_iff.2 ⟨hm, hparent n hn hid _ hp⟩, rfl, hk⟩
  · obtain ⟨hn, hid⟩ := mem_nodes_removeNodes_iff.1 hn
    have hup := h.rooted n hn
    generalize n.id = x at hid hup
    induction hup using Relation.ReflTransGen.head_induction_on with
    | refl => exact .refl
    | head hlink _ ih =>
      obtain ⟨m, hm, rfl, hp⟩ := hlink
      exact .head ⟨m, mem_nodes_removeNodes_iff.2 ⟨hm, hid⟩, rfl, hp⟩ (ih (hparent m hm hid _ hp))

/-- Each edit keeps the tree. -/
theorem edit {t : Store} (e : Edit s t) : t.IsTree := by
  cases e with
  | addNode hmem hp hk hid _ => exact h.addNode hmem hp hk hid
  | changeNode hn hid hk _ _ hp => exact h.changeNode hn hid hk hp
  | removeNodes hroot hclosed => exact h.removeNodes hroot hclosed
  | addPv => exact h.of_nodes_eq rfl
  | changePv => exact h.of_nodes_eq rfl
  | removePv => exact h.of_nodes_eq rfl
  | addItem => exact h.of_nodes_eq rfl
  | removeItems => exact h.of_nodes_eq rfl
  | addTag => exact h.of_nodes_eq rfl
  | removeTags => exact h.of_nodes_eq rfl

end IsTree

end Store

end SnapshotArchive
