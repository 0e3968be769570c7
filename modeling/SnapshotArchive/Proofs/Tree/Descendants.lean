import SnapshotArchive.Proofs.Tree.Basic
import Mathlib.Data.List.Perm.Lattice

/-!
# Descendants in a tree

The walk down from a node goes level by level, for as many levels as there are nodes. In a tree the
depth of a node, the number of nodes on its way up, bounds the levels that hold anything, and tells
the levels apart. So the walk lists every descendant once, each after its parent.

* `Store.IsTree.mem_subtree_iff` : the walk down meets the nodes whose links lead to its start.
* `Store.IsTree.subtree_nodup` : it meets no node twice.
* `Store.IsTree.subtree_eq_cons` : it starts at the node and meets parents before children.
-/

namespace SnapshotArchive

namespace Store

/-- Each node of a list has a parent among those `seen` or those before it. -/
def ParentsFirst (seen : List Id) : List Node → Prop
  | [] => True
  | n :: ns => (∃ p ∈ seen, n.parent = some p) ∧ ParentsFirst (n.id :: seen) ns

/-! ### Parents before children -/

/-- With more nodes seen before, parents still come first. -/
theorem ParentsFirst.mono {seen more : List Id} (hsub : seen ⊆ more) {ns : List Node}
    (h : ParentsFirst seen ns) : ParentsFirst more ns := by
  induction ns generalizing seen more with
  | nil => trivial
  | cons n ns ih =>
    obtain ⟨⟨p, hp, hn⟩, h⟩ := h
    exact ⟨⟨p, hsub hp, hn⟩, ih (List.cons_subset_cons _ hsub) h⟩

/-- Two lists in a row, the second with the first among what it has seen. -/
theorem ParentsFirst.append {seen : List Id} {ns ms : List Node}
    (hns : ∀ n ∈ ns, ∃ p ∈ seen, n.parent = some p)
    (hms : ParentsFirst (ns.map (·.id) ++ seen) ms) : ParentsFirst seen (ns ++ ms) := by
  induction ns generalizing seen with
  | nil => exact hms
  | cons n ns ih =>
    refine ⟨hns n List.mem_cons_self, ih (fun m hm => ?_) (hms.mono ?_)⟩
    · obtain ⟨p, hp, hm⟩ := hns m (List.mem_cons_of_mem _ hm)
      exact ⟨p, List.mem_cons_of_mem _ hp, hm⟩
    · intro x hx
      simp only [List.map_cons, List.mem_append, List.mem_cons] at hx ⊢
      tauto

/-- Level by level, parents come first. -/
theorem parentsFirst_levels (s : Store) (d : Nat) {seen : List Id} {level : List Node}
    (h : ∀ n ∈ level, ∃ p ∈ seen, n.parent = some p) : ParentsFirst seen (s.levels d level) := by
  induction d generalizing seen level with
  | zero =>
    have hlevel : ParentsFirst seen (level ++ []) := ParentsFirst.append h trivial
    simpa [levels] using hlevel
  | succ d ih =>
    rw [levels_succ]
    refine ParentsFirst.append h (ih fun m hm => ?_)
    obtain ⟨n, hn, hm⟩ := List.mem_flatMap.1 hm
    exact ⟨n.id, List.mem_append_left _ (List.mem_map_of_mem hn), (mem_children_iff.1 hm).2⟩

/-! ### What the walk down meets -/

/-- What a walk down meets lies below a node it began with. -/
theorem leadsTo_of_mem_levels {s : Store} {d : Nat} {level : List Node} {m : Node}
    (h : m ∈ s.levels d level) : ∃ n ∈ level, s.LeadsTo m.id n.id := by
  induction d generalizing level with
  | zero => exact ⟨m, h, .refl⟩
  | succ d ih =>
    rw [levels_succ] at h
    rcases List.mem_append.1 h with h | h
    · exact ⟨m, h, .refl⟩
    · obtain ⟨q, hq, hmq⟩ := ih h
      obtain ⟨n, hn, hqn⟩ := List.mem_flatMap.1 hq
      obtain ⟨hq, hp⟩ := mem_children_iff.1 hqn
      exact ⟨n, hn, .tail hmq ⟨q, hq, rfl, hp⟩⟩

/-- The number of nodes on the way up from a node, itself counted. -/
def depth (s : Store) (id : Id) : Nat :=
  (s.ancestorIds id).length

namespace IsTree

variable {s : Store} (h : s.IsTree)

include h

/-- A node is one level below its parent. -/
theorem depth_of_parent {n : Node} {p : Id} (hn : n ∈ s.nodes) (hp : n.parent = some p) :
    s.depth n.id = s.depth p + 1 := by
  rw [depth, h.ancestorIds_of_parent hn hp]
  rfl

/-- No node is deeper than there are nodes. -/
theorem depth_le {n : Node} (hn : n ∈ s.nodes) : s.depth n.id ≤ s.nodes.length :=
  (h.lineage_ancestorIds hn).length_le h.nodup

/-- A node that is as deep as a tree can be has no children. -/
theorem children_eq_nil {n : Node} (hd : s.nodes.length ≤ s.depth n.id) :
    s.children n.id = [] := by
  refine List.eq_nil_iff_forall_not_mem.2 fun m hm => ?_
  obtain ⟨hm, hp⟩ := mem_children_iff.1 hm
  have hdepth := h.depth_of_parent hm hp
  have hle := h.depth_le hm
  omega

/-- What lies above is not deeper. -/
theorem depth_le_of_leadsTo {x y : Id} (hxy : s.LeadsTo x y) : s.depth y ≤ s.depth x := by
  induction hxy using Relation.ReflTransGen.head_induction_on with
  | refl => exact Nat.le_refl _
  | head hlink _ ih =>
    obtain ⟨n, hn, rfl, hp⟩ := hlink
    rw [h.depth_of_parent hn hp]
    exact Nat.le_succ_of_le ih

/-- The way up from a parent does not come back to its child. -/
theorem not_leadsTo_of_parent {n : Node} {p : Id} (hn : n ∈ s.nodes) (hp : n.parent = some p) :
    ¬s.LeadsTo p n.id := by
  intro hback
  have hdepth := h.depth_of_parent hn hp
  have hle := h.depth_le_of_leadsTo hback
  omega

/-- The walk down reaches every descendant that is not deeper than the levels it goes down. -/
theorem mem_levels_of_leadsTo {d : Nat} {level : List Node} {m n : Node} (hm : m ∈ s.nodes)
    (hup : s.LeadsTo m.id n.id) (hn : n ∈ level) (hns : n ∈ s.nodes)
    (hd : s.depth m.id ≤ s.depth n.id + d) : m ∈ s.levels d level := by
  generalize hy : n.id = y at hup
  induction hup generalizing n level d with
  | refl =>
    obtain rfl := eq_of_id_eq h.nodup hns hm hy
    exact mem_levels hn
  | tail hup hlink ih =>
    obtain ⟨q, hq, rfl, hp⟩ := hlink
    subst hy
    have hdepth := h.depth_of_parent hq hp
    have hle := h.depth_le_of_leadsTo hup
    obtain ⟨d, rfl⟩ : ∃ k, d = k + 1 := ⟨d - 1, by omega⟩
    rw [levels_succ]
    refine List.mem_append_right _ (ih (n := q) ?_ hq (by omega) rfl)
    exact List.mem_flatMap.2 ⟨n, hn, mem_children_iff.2 ⟨hq, hp⟩⟩

/-- In the subtree of a node are the nodes that it lies above, and itself. -/
theorem mem_subtree_iff {n m : Node} (hn : n ∈ s.nodes) :
    m ∈ s.subtree n.id ↔ m ∈ s.nodes ∧ s.LeadsTo m.id n.id := by
  rw [subtree, node?_of_mem h.nodup hn]
  constructor
  · intro hm
    obtain ⟨r, hr, hup⟩ := leadsTo_of_mem_levels hm
    obtain rfl := List.mem_singleton.1 hr
    exact ⟨mem_nodes_of_mem_levels (by simpa using hn) hm, hup⟩
  · rintro ⟨hm, hup⟩
    exact h.mem_levels_of_leadsTo hm hup List.mem_cons_self hn
      (Nat.le_trans (h.depth_le hm) (Nat.le_add_left _ _))

/-- The same of identifiers. -/
theorem mem_subtreeIds_iff {n : Node} (hn : n ∈ s.nodes) {x : Id} :
    x ∈ s.subtreeIds n.id ↔ s.hasNode x ∧ s.LeadsTo x n.id := by
  simp only [subtreeIds, List.mem_map, h.mem_subtree_iff hn, hasNode_iff]
  constructor
  · rintro ⟨m, ⟨hm, hup⟩, rfl⟩
    exact ⟨⟨m, hm, rfl⟩, hup⟩
  · rintro ⟨⟨m, hm, rfl⟩, hup⟩
    exact ⟨m, ⟨hm, hup⟩, rfl⟩

/-! ### No node twice -/

/-- No child is listed twice. -/
theorem children_nodup (p : Id) : (s.children p).Nodup :=
  (List.mergeSort_perm _ _).nodup_iff.2 (h.nodup.of_map.filter _)

/-- A walk down from nodes of one depth meets none twice. -/
theorem levels_nodup {d k : Nat} {level : List Node} (hl : level.Nodup)
    (hk : ∀ n ∈ level, n ∈ s.nodes ∧ s.depth n.id = k) : (s.levels d level).Nodup := by
  induction d generalizing k level with
  | zero => exact hl
  | succ d ih =>
    have hnext : ∀ m ∈ level.flatMap (fun n => s.children n.id),
        m ∈ s.nodes ∧ s.depth m.id = k + 1 := by
      intro m hm
      obtain ⟨n, hn, hm⟩ := List.mem_flatMap.1 hm
      obtain ⟨hm, hp⟩ := mem_children_iff.1 hm
      exact ⟨hm, by rw [h.depth_of_parent hm hp, (hk n hn).2]⟩
    rw [levels_succ, List.nodup_append]
    refine ⟨hl, ih (List.nodup_flatMap.2 ⟨fun n _ => h.children_nodup n.id, ?_⟩) hnext, ?_⟩
    · -- Two nodes of a level have no child in common.
      refine List.Pairwise.imp_of_mem (fun {n m} hn hm hne => ?_) hl
      show List.Disjoint (s.children n.id) (s.children m.id)
      intro c hcn hcm
      have hp := (mem_children_iff.1 hcn).2.symm.trans (mem_children_iff.1 hcm).2
      exact hne (eq_of_id_eq h.nodup (hk n hn).1 (hk m hm).1 (Option.some.inj hp))
    · -- What lies below a level is deeper than it.
      rintro n hn m hm rfl
      obtain ⟨q, hq, hup⟩ := leadsTo_of_mem_levels hm
      have hle := h.depth_le_of_leadsTo hup
      rw [(hk n hn).2, (hnext q hq).2] at hle
      omega

/-- No node is in a subtree twice. -/
theorem subtree_nodup {n : Node} (hn : n ∈ s.nodes) : (s.subtree n.id).Nodup := by
  rw [subtree, node?_of_mem h.nodup hn]
  exact h.levels_nodup (List.nodup_singleton n) (k := s.depth n.id) (by simp [hn])

/-- Nor is an identifier. -/
theorem subtreeIds_nodup {n : Node} (hn : n ∈ s.nodes) : (s.subtreeIds n.id).Nodup :=
  List.Nodup.map_on (fun _ hm _ hq he =>
    eq_of_id_eq h.nodup ((h.mem_subtree_iff hn).1 hm).1 ((h.mem_subtree_iff hn).1 hq).1 he)
    (h.subtree_nodup hn)

/-- The walk down starts at the node and meets every parent before its children. -/
theorem subtree_eq_cons {n : Node} (hn : n ∈ s.nodes) :
    ∃ below, s.subtree n.id = n :: below ∧ ParentsFirst [n.id] below := by
  obtain ⟨k, hk⟩ : ∃ k, s.nodes.length = k + 1 :=
    ⟨s.nodes.length - 1, by have := List.length_pos_of_mem hn; omega⟩
  rw [subtree, node?_of_mem h.nodup hn]
  refine ⟨s.levels k (s.children n.id), ?_, parentsFirst_levels s k fun m hm => ?_⟩
  · simp [hk, levels_succ]
  · exact ⟨n.id, List.mem_cons_self, (mem_children_iff.1 hm).2⟩

end IsTree

end Store

end SnapshotArchive
