import SnapshotArchive.Proofs.Deleting
import SnapshotArchive.Proofs.Copying.Placement

/-!
# The walk down and the walk up

Copies and deletions trust the walk down from a node, the check for cycles the walk up from one.
Both walks are written with a bound on their steps, and the walk up with a guard against links that
go round. In a tree these do nothing: without them both walks come to an end by themselves, and with
the same nodes (`Store.Unfolding`, `Store.ascend`). And what one of them meets tells what the other
does.

* `Store.IsTree.unfolding_subtree` : the walk down ends with a level that is empty.
* `Store.IsTree.climb_eq_ascend`, `Store.IsTree.ascend_eq_ancestorIds` : neither its guard nor its
  bound ever stops the walk up.
* `Store.IsTree.mem_subtreeIds_iff_mem_ancestorIds` : the two walks agree.
-/

namespace SnapshotArchive

namespace Store

/-- The nodes of a level and of those below it, when each level is followed by the children of its
nodes until one is empty. -/
inductive Unfolding (s : Store) : (level nodes : List Node) → Prop
  | done : Unfolding s [] []
  | next {level below : List Node} :
    Unfolding s (level.flatMap fun n => s.children n.id) below → Unfolding s level (level ++ below)

/-- The identifiers on the way up from `next?`, up to the first that is unknown. -/
def ascend (s : Store) : (steps : Nat) → (next? : Option Id) → List Id
  | 0, _ => []
  | _, none => []
  | steps + 1, some id =>
    match s.node? id with
    | some n => id :: s.ascend steps n.parent
    | none => []

/-- A list of nodes that is complete and in order: it has the node `r` and all below it, each of
them once, and every other node after its parent. -/
structure IsListing (s : Store) (r : Id) (ids : List Id) : Prop where
  nodup : ids.Nodup
  mem_iff : ∀ x, x ∈ ids ↔ s.hasNode x ∧ s.LeadsTo x r
  parentBefore : ∀ {before x after}, ids = before ++ x :: after → x ≠ r →
    ∃ p ∈ before, s.HasParent x p

variable {s : Store}

/-! ### The walk down -/

/-- Levels that are as deep as a tree can be are followed by an empty one. -/
theorem IsTree.unfolding_levels (hs : s.IsTree) {d k : Nat} {level : List Node}
    (hd : s.nodes.length ≤ k + d) (hlevel : ∀ n ∈ level, n ∈ s.nodes ∧ s.depth n.id = k) :
    s.Unfolding level (s.levels d level) := by
  induction d generalizing k level with
  | zero =>
    have hnone : level.flatMap (fun n => s.children n.id) = [] := by
      refine List.flatMap_eq_nil_iff.2 fun n hn => hs.children_eq_nil ?_
      rwa [(hlevel n hn).2]
    have hlast : s.Unfolding level (level ++ []) := .next (by rw [hnone]; exact .done)
    rwa [List.append_nil] at hlast
  | succ d ih =>
    rw [levels_succ]
    exact .next (ih (by omega) fun m hm => hs.depth_of_mem_next hlevel hm)

/-- The walk down ends with a level that is empty, not for the bound on its depth. -/
theorem IsTree.unfolding_subtree (hs : s.IsTree) {n : Node} (hn : n ∈ s.nodes) :
    s.Unfolding [n] (s.subtree n.id) := by
  rw [subtree, node?_of_mem hs.nodup hn]
  exact hs.unfolding_levels (k := s.depth n.id) (Nat.le_add_left _ _) (by simp [hn])

/-- Reading the identifiers of a subtree lists what lies below its node. -/
theorem IsTree.isListing_subtreeIds (hs : s.IsTree) {n : Node} (hn : n ∈ s.nodes) :
    s.IsListing n.id (s.subtreeIds n.id) where
  nodup := hs.subtreeIds_nodup hn
  mem_iff _ := hs.mem_subtreeIds_iff hn
  parentBefore {before x after} hids hne := by
    have hx : s.hasNode x ∧ s.LeadsTo x n.id := by
      rw [← hs.mem_subtreeIds_iff hn, hids]
      simp
    rcases Relation.ReflTransGen.cases_head hx.2 with he | ⟨p, ⟨m, hm, rfl, hp⟩, hup⟩
    · exact absurd he hne
    obtain ⟨q, hq, rfl, -⟩ := hs.contained m hm p hp
    -- The parent is met too, and what is met after it has the node.
    have hmem : q.id ∈ s.subtreeIds n.id :=
      (hs.mem_subtreeIds_iff hn).2 ⟨hasNode_of_mem hq, hup⟩
    obtain ⟨u, v, huv⟩ := List.append_of_mem hmem
    have hlater : m.id ∈ v := hs.child_after hn huv hm hp
    have hnodup := hs.subtreeIds_nodup hn
    refine ⟨q.id, ?_, m, hm, rfl, hp⟩
    obtain ⟨v₁, v₂, rfl⟩ := List.append_of_mem hlater
    have hsplit : s.subtreeIds n.id = (u ++ q.id :: v₁) ++ m.id :: v₂ := by simp [huv]
    rw [hids] at hnodup hsplit
    have hnot : m.id ∉ before ++ after := (List.nodup_cons.1 (List.nodup_middle.1 hnodup)).1
    rw [List.mem_append, not_or] at hnot
    obtain ⟨rfl, -, -⟩ := (List.append_cons_inj_of_notMem hnot.1 hnot.2).1 hsplit
    simp

/-! ### The walk up -/

namespace Lineage

variable {id : Id} {ids : List Id}

/-- The walk up, as long as it is, meets the first nodes of the lineage. -/
theorem ascend_eq (hs : (s.nodes.map (·.id)).Nodup) (h : s.Lineage id ids) (steps : Nat) :
    s.ascend steps (some id) = ids.take steps := by
  induction h generalizing steps with
  | top hn hp =>
    cases steps with
    | zero => rfl
    | succ steps =>
      rw [ascend, node?_of_mem hs hn]
      cases steps <;> simp [hp, ascend]
  | child hn hp h ih =>
    cases steps with
    | zero => rfl
    | succ steps =>
      rw [ascend, node?_of_mem hs hn]
      simp only [hp, ih, List.take_succ_cons]

/-- With the guard it meets the same nodes. -/
theorem climb_eq_take (hs : (s.nodes.map (·.id)).Nodup) (h : s.Lineage id ids) (steps : Nat)
    {seen : List Id} (hseen : ∀ x ∈ seen, x ∉ ids) :
    s.climb steps seen (some id) = ids.take steps := by
  induction h generalizing steps seen with
  | @top n hn hp =>
    cases steps with
    | zero => rfl
    | succ steps =>
      rw [climb, if_neg fun hx => hseen _ hx List.mem_cons_self, node?_of_mem hs hn]
      cases steps <;> simp [hp, climb]
  | @child n p ids hn hp h ih =>
    cases steps with
    | zero => rfl
    | succ steps =>
      rw [climb, if_neg fun hx => hseen _ hx List.mem_cons_self, node?_of_mem hs hn]
      simp only [hp, List.take_succ_cons]
      rw [ih]
      intro x hx
      rcases List.mem_cons.1 hx with rfl | hx
      · exact (List.nodup_cons.1 ((Lineage.child hn hp h).nodup hs)).1
      · exact fun hm => hseen x hx (List.mem_cons_of_mem _ hm)

/-- A lineage ends at a node without a parent. -/
theorem getLast? (h : s.Lineage id ids) : ∃ n ∈ s.nodes, n.parent = none ∧
    ids.getLast? = some n.id := by
  induction h with
  | top hn hp => exact ⟨_, hn, hp, rfl⟩
  | child hn hp h ih =>
    obtain ⟨m, hm, hnone, hlast⟩ := ih
    refine ⟨m, hm, hnone, ?_⟩
    rw [List.getLast?_cons, hlast, Option.getD_some]

end Lineage

namespace IsTree

variable (hs : s.IsTree)

include hs

/-- The guard of the walk up never stops it, wherever it starts and however far it goes. -/
theorem climb_eq_ascend (steps : Nat) (id : Id) :
    s.climb steps [] (some id) = s.ascend steps (some id) := by
  by_cases hnode : s.hasNode id
  · obtain ⟨n, hn, rfl⟩ := hasNode_iff.1 hnode
    have hlineage := hs.lineage_ancestorIds hn
    rw [hlineage.climb_eq_take hs.nodup steps (by simp), hlineage.ascend_eq hs.nodup]
  · have hnone : s.node? id = none := by simpa [hasNode] using hnode
    cases steps with
    | zero => rfl
    | succ steps => simp [climb, ascend, hnone]

/-- Nor does the bound on its steps. -/
theorem ascend_eq_ancestorIds {n : Node} (hn : n ∈ s.nodes) {steps : Nat}
    (hsteps : s.nodes.length ≤ steps) : s.ascend steps (some n.id) = s.ancestorIds n.id := by
  have hlineage := hs.lineage_ancestorIds hn
  rw [hlineage.ascend_eq hs.nodup]
  exact List.take_of_length_le (Nat.le_trans (hlineage.length_le hs.nodup) hsteps)

/-- The lineage of a stored node ends at the root. -/
theorem getLast?_ancestorIds {n : Node} (hn : n ∈ s.nodes) :
    (s.ancestorIds n.id).getLast? = some rootId := by
  obtain ⟨m, hm, hnone, hlast⟩ := (hs.lineage_ancestorIds hn).getLast?
  rw [hlast, hs.onlyRoot m hm hnone]

/-! ### The two walks -/

/-- The walk down from one node meets another exactly if the walk up from that meets the one. -/
theorem mem_subtreeIds_iff_mem_ancestorIds (x r : Id) :
    x ∈ s.subtreeIds r ↔ r ∈ s.ancestorIds x := by
  by_cases hx : s.hasNode x
  · obtain ⟨n, hn, rfl⟩ := hasNode_iff.1 hx
    by_cases hr : s.hasNode r
    · obtain ⟨m, hm, rfl⟩ := hasNode_iff.1 hr
      rw [hs.mem_subtreeIds_iff hm, hs.mem_ancestorIds_iff hn, and_iff_right hx]
    · -- The walk up meets only nodes that are there.
      refine iff_of_false (fun hmem => ?_) fun hmem => ?_
      · have hnone : s.node? r = none := by simpa [hasNode] using hr
        simp [subtreeIds, subtree, hnone] at hmem
      · obtain ⟨m, hm, rfl⟩ := List.mem_map.1 ((hs.lineage_ancestorIds hn).subset hmem)
        exact hr (hasNode_of_mem hm)
  · refine iff_of_false (fun hmem => ?_) fun hmem => ?_
    · obtain ⟨m, hm, rfl⟩ := List.mem_map.1 hmem
      exact hx (hasNode_of_mem (mem_nodes_of_mem_subtree hm))
    · have hnone : s.node? x = none := by simpa [hasNode] using hx
      simp [ancestorIds, climb, hnone] at hmem

end IsTree

end Store

end SnapshotArchive
