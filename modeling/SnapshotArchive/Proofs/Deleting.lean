import SnapshotArchive.Proofs.Versions

/-!
# What is deleted

A deletion is asked for some nodes and takes along all below them. The nodes to delete are collected
by one walk down, their records are deleted one by one, and what they own goes with them. What comes
of it is that of every table exactly those records are left that belong to no deleted node, and the
answer is the number of deleted nodes.

* `Store.IsTree.child_after` : the walk down meets the children of a node after it.
* `Store.IsTree.subtreeIds_of_leaf` : deleting from the last record on, no record takes another node
  along.
* `Store.IsTree.deleteRows_eq`, `Store.removeSubtrees_eq_foldl` : so it is one to delete a subtree
  record by record or at once.
* `Service.Reachable.subtrees_deleted` : what a deletion that is answered has deleted.
-/

namespace SnapshotArchive

open Store

/-- The nodes that an operation is asked to delete. -/
inductive Operation.Deletes : Operation → List Id → Prop
  | one (id : Id) : Deletes (.deleteNode id) [id]
  | several (ids : List Id) : Deletes (.deleteNodes ids) ids

namespace Store

/-- How tables differ after the nodes `gone` were deleted, which are those that have one of some
nodes among themselves and their ancestors. -/
structure IsPruned (s s' : Store) (roots gone : List Id) : Prop where
  /-- No node is counted twice. -/
  nodup : gone.Nodup
  mem_iff : ∀ x, x ∈ gone ↔ s.hasNode x ∧ ∃ r ∈ roots, r ∈ s.ancestorIds x
  nodes : s'.nodes = s.nodes.filter (·.id ∉ gone)
  pvs : s'.pvs = s.pvs.filter (·.config ∉ gone)
  items : s'.items = s.items.filter (·.snapshot ∉ gone)
  tags : s'.tags = s.tags.filter (·.snapshot ∉ gone)
  root : s'.hasNode rootId

/-- Deletes the record of a node, and with it the records below it and what they own. -/
def deleteRow (s : Store) (id : Id) : Store :=
  s.removeNodes (s.subtreeIds id)

/-- Deletes the records of a node and of all below it one by one, from the last one on. -/
def deleteRows (s : Store) (id : Id) : Store :=
  (s.subtreeIds id).reverse.foldl deleteRow s

/-- What is deleted does not depend on the order. -/
theorem removeNodes_congr {s : Store} {ids more : List Id} (h : ∀ x, x ∈ ids ↔ x ∈ more) :
    s.removeNodes ids = s.removeNodes more := by
  simp only [removeNodes, h]

/-! ### Record by record -/

/-- The parent of a node stands before it, or is among those seen. -/
theorem ParentsFirst.parent_before {seen : List Id} {before after : List Node} {n : Node}
    (h : ParentsFirst seen (before ++ n :: after)) :
    ∃ p ∈ before.map (·.id) ++ seen, n.parent = some p := by
  induction before generalizing seen with
  | nil => exact h.1
  | cons m before ih =>
    obtain ⟨p, hp, hn⟩ := ih h.2
    refine ⟨p, ?_, hn⟩
    simp only [List.map_cons, List.mem_append, List.mem_cons] at hp ⊢
    tauto

namespace IsTree

variable {s : Store} (h : s.IsTree) {n : Node} (hn : n ∈ s.nodes)

include h hn

/-- The walk down meets the children of a node after it. -/
theorem child_after {before after : List Id} {x : Id}
    (hids : s.subtreeIds n.id = before ++ x :: after) {m : Node} (hm : m ∈ s.nodes)
    (hp : m.parent = some x) : m.id ∈ after := by
  have hx : s.LeadsTo x n.id := by
    have hmem : x ∈ s.subtreeIds n.id := by simp [hids]
    exact ((h.mem_subtreeIds_iff hn).1 hmem).2
  have hlink : s.LeadsTo m.id x := .single ⟨m, hm, rfl, hp⟩
  have hmem : m ∈ s.subtree n.id := (h.mem_subtree_iff hn).2 ⟨hm, hlink.trans hx⟩
  obtain ⟨below, hsubtree, hfirst⟩ := h.subtree_eq_cons hn
  rw [hsubtree] at hmem
  rcases List.mem_cons.1 hmem with rfl | hmem
  · -- The node that the walk starts at lies below none that it meets.
    exact absurd hx (h.not_leadsTo_of_parent hm hp)
  · obtain ⟨pre, post, rfl⟩ := List.append_of_mem hmem
    obtain ⟨p, hpre, hp'⟩ := hfirst.parent_before
    obtain rfl : x = p := Option.some.inj (hp.symm.trans hp')
    have hbefore : x ∈ n.id :: pre.map (·.id) := by
      simp only [List.mem_append, List.mem_cons, List.not_mem_nil, or_false] at hpre ⊢
      exact hpre.symm
    obtain ⟨u, v, huv⟩ := List.append_of_mem hbefore
    have hsplit : s.subtreeIds n.id = u ++ x :: (v ++ m.id :: post.map (·.id)) := by
      rw [subtreeIds, hsubtree, ← List.cons_append, List.map_append, List.map_cons, List.map_cons,
        huv, List.append_assoc, List.cons_append]
    have hnodup := h.subtreeIds_nodup hn
    rw [hids] at hnodup hsplit
    have hnot : x ∉ before ++ after := (List.nodup_cons.1 (List.nodup_middle.1 hnodup)).1
    rw [List.mem_append, not_or] at hnot
    obtain ⟨-, -, rfl⟩ := (List.append_cons_inj_of_notMem hnot.1 hnot.2).1 hsplit
    simp

/-- When the records after it are deleted, no other record is below that of a node. -/
theorem subtreeIds_of_leaf (hroot : n.id ≠ rootId) {before after : List Id} {x : Id}
    (hids : s.subtreeIds n.id = before ++ x :: after) :
    (s.removeNodes after).subtreeIds x = [x] := by
  have hmem : ∀ y ∈ before ++ x :: after, s.hasNode y ∧ s.LeadsTo y n.id := by
    intro y hy
    rw [← hids] at hy
    exact (h.mem_subtreeIds_iff hn).1 hy
  have htree : (s.removeNodes after).IsTree := by
    apply h.removeNodes
    · intro hr
      exact hroot (h.eq_rootId_of_leadsTo (hmem rootId (by simp [hr])).2)
    · intro m hm p hp hmp
      obtain ⟨u, v, rfl⟩ := List.append_of_mem hp
      have hids' : s.subtreeIds n.id = (before ++ x :: u) ++ p :: v := by simp [hids]
      have hlater := h.child_after hn hids' hm hmp
      simp [hlater]
  have hnodup := h.subtreeIds_nodup hn
  rw [hids] at hnodup
  have hstays : x ∉ after := by
    have hnot := (List.nodup_cons.1 (List.nodup_middle.1 hnodup)).1
    simp only [List.mem_append, not_or] at hnot
    exact hnot.2
  obtain ⟨k, hk, rfl⟩ := hasNode_iff.1 (hmem x (by simp)).1
  have hk' : k ∈ (s.removeNodes after).nodes := mem_nodes_removeNodes_iff.2 ⟨hk, hstays⟩
  have honly : ∀ y, y ∈ (s.removeNodes after).subtreeIds k.id ↔ y ∈ [k.id] := by
    intro y
    rw [htree.mem_subtreeIds_iff hk', List.mem_singleton]
    constructor
    · rintro ⟨-, hup⟩
      rcases Relation.ReflTransGen.cases_tail hup with he | ⟨z, -, m, hm, -, hp⟩
      · exact he.symm
      · -- A child of the node would be after it, where all records are deleted.
        obtain ⟨hm, hnot⟩ := mem_nodes_removeNodes_iff.1 hm
        exact absurd (h.child_after hn hids hm hp) hnot
    · rintro rfl
      exact ⟨hasNode_of_mem hk', .refl⟩
  have hperm := (List.perm_ext_iff_of_nodup (htree.subtreeIds_nodup hk')
    (List.nodup_singleton k.id)).2 honly
  exact List.perm_singleton.1 hperm

/-- Records that are deleted from the last one on are deleted at once. -/
theorem foldl_deleteRow (hroot : n.id ≠ rootId) {before after : List Id}
    (hids : s.subtreeIds n.id = before ++ after) :
    after.reverse.foldl deleteRow s = s.removeNodes after := by
  induction after generalizing before with
  | nil => exact removeNodes_nil.symm
  | cons x after ih =>
    have hrest : after.reverse.foldl deleteRow s = s.removeNodes after :=
      @ih (before ++ [x]) (by simp [hids])
    rw [List.reverse_cons, List.foldl_append, hrest, List.foldl_cons, List.foldl_nil, deleteRow,
      h.subtreeIds_of_leaf hn hroot hids, removeNodes_removeNodes]
    apply removeNodes_congr
    simp [or_comm]

end IsTree

/-- A subtree other than the whole tree goes record by record as it goes at once. -/
theorem IsTree.deleteRows_eq {s : Store} (hs : s.IsTree) {id : Id} (hroot : id ≠ rootId) :
    s.deleteRows id = s.removeNodes (s.subtreeIds id) := by
  cases hfind : s.node? id with
  | some n =>
    obtain ⟨hn, rfl⟩ := node?_eq_some hfind
    exact hs.foldl_deleteRow hn hroot (List.nil_append _).symm
  | none =>
    have hnone : s.subtreeIds id = [] := by simp [subtreeIds, subtree, hfind]
    rw [deleteRows, hnone]
    exact removeNodes_nil.symm

/-- Subtrees that are deleted one after the other go record by record. -/
theorem removeSubtrees_eq_foldl {s t : Store} (hs : s.IsSound) {nodes : List Node} {count : Nat}
    (h : removeSubtrees nodes s = .ok (count, t)) : t = (nodes.map (·.id)).foldl deleteRows s := by
  induction nodes generalizing s count with
  | nil =>
    obtain ⟨-, rfl⟩ := Prod.mk.inj (Except.ok.inj h)
    rfl
  | cons n ns ih =>
    obtain ⟨⟨k, s₁⟩, hn, h⟩ := bind_eq_ok_iff.1 h
    obtain ⟨⟨more, s₂⟩, hns, h⟩ := bind_eq_ok_iff.1 h
    obtain ⟨-, rfl⟩ := Prod.mk.inj (Except.ok.inj h)
    have hsound := hs.edit (removeSubtree_edit hs hn)
    obtain ⟨hroot, hn⟩ := demand_bind_eq_ok_iff.1 hn
    obtain ⟨-, rfl⟩ := Prod.mk.inj (Except.ok.inj hn)
    rw [ih hsound hns, List.map_cons, List.foldl_cons, hs.tree.deleteRows_eq hroot]

/-! ### All tables -/

/-- Deleting nodes other than the root, with all below them, prunes the tables. -/
theorem IsAllBelow.isPruned {s : Store} (hs : s.IsSound) {roots gone : List Id}
    (hgone : s.IsAllBelow roots gone) (hnodup : gone.Nodup) (hroots : rootId ∉ roots) :
    s.IsPruned (s.removeNodes gone) roots gone where
  nodup := hnodup
  mem_iff x := by
    rw [hgone x]
    apply and_congr_right
    intro hx
    obtain ⟨n, hn, rfl⟩ := hasNode_iff.1 hx
    simp only [hs.tree.mem_ancestorIds_iff hn]
  nodes := rfl
  pvs := rfl
  items := items_removeNodes hs hgone
  tags := rfl
  root := by
    obtain ⟨r, hr, hid, -⟩ := hs.tree.root
    have hstays : rootId ∉ gone := by
      intro hmem
      obtain ⟨-, x, hx, hup⟩ := (hgone rootId).1 hmem
      rw [hs.tree.eq_rootId_of_leadsTo hup] at hx
      exact hroots hx
    apply hasNode_iff.2
    exact ⟨r, mem_nodes_removeNodes_iff.2 ⟨hr, hid ▸ hstays⟩, hid⟩

end Store

/-- A deletion that succeeds prunes the tables, and answers with the number of deleted nodes. -/
theorem Operation.Succeeds.isPruned {c : Context} {p : Policy} {o : Operation} {s s' : Store}
    {answer : Answer} {ids : List Id} (h : o.Succeeds c p s answer s') (hs : s.IsSound)
    (ho : o.Deletes ids) :
    ∃ gone, s.IsPruned s' ids gone ∧ answer = .count gone.length ∧ s' = ids.foldl deleteRows s := by
  obtain ⟨s₀, hdone⟩ := h
  cases ho with
  | one id =>
    obtain ⟨count, rfl, u, hu, hcount⟩ :=
      (Write.exists_map_eq_ok_iff (f := Answer.count) (w := SnapshotArchive.deleteNode id)).1 hdone
    obtain ⟨n, -, rfl, hroot, rfl, rfl⟩ := deleteNode_eq hu hcount
    have hgone := hs.tree.isAllBelow_subtreeIds n.id
    refine ⟨_, hgone.isPruned hs (hs.tree.nodup_subtreeIds n.id) ?_, rfl,
      (hs.tree.deleteRows_eq hroot).symm⟩
    simpa using Ne.symm hroot
  | several ids =>
    obtain ⟨count, rfl, u, hu, hcount⟩ := (Write.exists_map_eq_ok_iff (f := Answer.count)
      (w := SnapshotArchive.deleteNodes ids)).1 hdone
    obtain ⟨nodes, hselection, hremove⟩ := deleteNodes_eq hu hcount
    obtain rfl := hselection.ids_eq
    have hrows := removeSubtrees_eq_foldl hs hremove
    obtain ⟨gone, hgone, hnodup, rfl, rfl⟩ := removeSubtrees_eq hs hremove
    refine ⟨gone, hgone.isPruned hs hnodup ?_, rfl, hrows⟩
    intro hmem
    obtain ⟨n, hn, hid⟩ := hselection.exists_of_mem hmem
    exact hselection.notRoot n hn hid

namespace Sample

/-- Beside a configuration in a folder there is a copy of it, and an empty folder. -/
def crowded : Archive :=
  perform "b" (.createNode rootId (form "b" .folder) (some "u")) captured

/-- The archive with a copy beside a configuration and an empty folder can be reached. -/
theorem reachable_crowded : ∃ ts, Service.Reachable ⟨crowded, ts⟩ := by
  obtain ⟨ts, h⟩ := reachable_captured
  exact reachable_perform h "b" (.createNode rootId (form "b" .folder) (some "u"))

end Sample

namespace Service

open Archive Sample

/-- A deletion that is answered has deleted, from what other clients left before, the nodes that
have one of those asked for among themselves and their ancestors, the variables, items and tags of
these and no other record, and its answer is the number of the nodes. The root stays. Deleting the
records one by one, subtree after subtree and each from its last record on, leaves the same. -/
theorem Reachable.subtrees_deleted {a b : Archive} {between : Archive → Archive}
    {ts us : List (Transaction Answer)} {s : Store} {hold : Hold} {c : Context} {p : Policy}
    {o : Operation} {ids : List Id} {answer : Answer} (h : Reachable ⟨a, ts⟩)
    (hothers : Run ⟨a, ts⟩ ⟨between a, us⟩) (hs : (between a).store = some s)
    (ho : o.Deletes ids) (hcall : a.run hold between (o.call c p) = (.ok answer, b)) :
    ∃ s' gone, b = { between a with store := some s' } ∧ s.IsPruned s' ids gone ∧
      answer = .count gone.length ∧ s' = ids.foldl Store.deleteRows s := by
  obtain ⟨s', hb, hsound, -, hok⟩ := h.call_eq_ok hothers hs hcall
  obtain ⟨gone, hpruned, hcount, hrows⟩ := hok.isPruned hsound ho
  exact ⟨s', gone, hb, hpruned, hcount, hrows⟩

/-- With both folders goes what lies in the first of them, and the copy keeps its item. -/
theorem subtrees_deleted_crowded :
    let deletion := (Operation.deleteNodes ["a0", "b0"]).call (supply "d") policy
    ∃ s s' gone, crowded.store = some s ∧
      crowded.run .nothing id deletion = (.ok (.count 4), { crowded with store := some s' }) ∧
      s.IsPruned s' ["a0", "b0"] gone ∧ gone.length = 4 ∧
      s' = (s.deleteRows "a0").deleteRows "b0" ∧
      s'.items.map (fun i => (i.snapshot, i.pv)) = [("e2", "e1")] := by
  intro deletion
  obtain ⟨ts, h⟩ := reachable_crowded
  obtain ⟨s, hs⟩ : ∃ s, crowded.store = some s := Option.isSome_iff_exists.1 (by decide +kernel)
  obtain ⟨answer, hanswer⟩ := exists_answer crowded "d" (.deleteNodes ["a0", "b0"])
    (by decide +kernel)
  have hidle : (id crowded).store = some s := hs
  have hnobody : Run ⟨crowded, ts⟩ ⟨id crowded, ts⟩ := .refl
  obtain ⟨s', gone, hb, hpruned, rfl, hrows⟩ :=
    h.subtrees_deleted hnobody hidle (.several ["a0", "b0"]) hanswer
  have hcount : (match (crowded.run .nothing id deletion).1 with
      | .ok (.count n) => n
      | _ => 0) = 4 := by
    decide +kernel
  have hitems : (perform "d" (.deleteNodes ["a0", "b0"]) crowded).store.map
      (fun s => s.items.map fun i => (i.snapshot, i.pv)) = some [("e2", "e1")] := by
    decide +kernel
  rw [hanswer] at hcount
  rw [hb] at hanswer hitems
  rw [show gone.length = 4 from hcount] at hanswer
  exact ⟨s, s', gone, hs, hanswer, hpruned, hcount, hrows, Option.some.inj hitems⟩

end Service

end SnapshotArchive
