import SnapshotArchive.Selection
import SnapshotArchive.Proofs.Tree.Basic

/-!
# Which selections pass

The checks that moves, copies and batch deletions make, twice each, as conditions on the store.

* `Store.checkSelection_eq_ok_iff` : a selection passes exactly if it is one (`Store.IsSelection`).
* `Store.checkRelocation_eq_ok_iff` : it can be moved or copied exactly if it may
  (`Store.IsRelocation`).
-/

namespace SnapshotArchive

namespace Store

/-- The nodes with some identifiers, that can be taken together. -/
structure IsSelection (s : Store) (ids : List Id) (nodes : List Node) : Prop where
  nonempty : ids ≠ []
  nodup : ids.Nodup
  ids_eq : nodes.map (·.id) = ids
  find : ∀ n ∈ nodes, s.node? n.id = some n
  notRoot : ∀ n ∈ nodes, n.id ≠ rootId
  siblings : ∀ n ∈ nodes, ∀ m ∈ nodes, n.parent = m.parent

/-- Selected nodes that can be moved or copied into a target. -/
structure IsRelocation (s : Store) (ids : List Id) (target : Id) (inPlace byName : Bool)
    (nodes : List Node) (t : Node) : Prop where
  selection : s.IsSelection ids nodes
  movable : ∀ n ∈ nodes, n.kind.isMovable
  found : s.node? target = some t
  folder : t.kind = .folder
  outside : ∀ n ∈ nodes, n.id ∉ s.ancestorIds target
  free : byName → ∀ n ∈ nodes, s.obstacle? target inPlace n = none

variable {s : Store} {ids : List Id} {nodes : List Node}

/-- What is required is found, in the order asked for. -/
theorem requireAll_eq_ok_iff :
    s.requireAll ids = .ok nodes ↔
      nodes.map (·.id) = ids ∧ ∀ n ∈ nodes, s.node? n.id = some n := by
  induction ids generalizing nodes with
  | nil =>
    simp only [requireAll, Except.ok.injEq, List.map_eq_nil_iff]
    exact ⟨fun h => by simp [← h], fun h => h.1.symm⟩
  | cons id ids ih =>
    simp only [requireAll, bind_eq_ok_iff, require_eq_ok_iff, ih, pure, Except.pure,
      Except.ok.injEq]
    constructor
    · rintro ⟨n, hn, ns, ⟨hids, hns⟩, rfl⟩
      have hid := (node?_eq_some hn).2
      refine ⟨by simp [hid, hids], fun m hm => ?_⟩
      rcases List.mem_cons.1 hm with rfl | hm
      · rw [hid, hn]
      · exact hns m hm
    · rintro ⟨hids, hns⟩
      cases nodes with
      | nil => cases hids
      | cons n ns =>
        obtain ⟨rfl, htail⟩ := List.cons.inj hids
        exact ⟨n, hns n List.mem_cons_self, ns,
          ⟨htail, fun m hm => hns m (List.mem_cons_of_mem _ hm)⟩, rfl⟩

/-- The check of a selection passes for selections alone. -/
theorem checkSelection_eq_ok_iff : s.checkSelection ids = .ok nodes ↔ s.IsSelection ids nodes := by
  rw [checkSelection]
  simp only [bind_eq_ok_iff (x := s.requireAll ids), demand_bind_eq_ok_iff, requireAll_eq_ok_iff,
    pure, Except.pure, Except.ok.injEq]
  constructor
  · rintro ⟨hne, hnodup, ns, ⟨hids, hfind⟩, hroot, hparent, rfl⟩
    exact ⟨hne, hnodup, hids, hfind, hroot, hparent⟩
  · rintro ⟨hne, hnodup, hids, hfind, hroot, hparent⟩
    exact ⟨hne, hnodup, nodes, ⟨hids, hfind⟩, hroot, hparent, rfl⟩

/-- A step behind such a refusal is reached exactly if nothing was found. -/
theorem refuseFound_bind_eq_ok_iff {α β : Type} {found : Option α} {r : α → Refusal}
    {k : Unit → Except Failure β} {b : β} :
    (refuseFound found r >>= k) = .ok b ↔ found = none ∧ k () = .ok b := by
  cases found <;> simp [refuseFound, bind, Except.bind]

/-- The check of a relocation passes for relocations alone. -/
theorem checkRelocation_eq_ok_iff {target : Id} {inPlace byName : Bool} {t : Node} :
    s.checkRelocation ids target inPlace byName = .ok (nodes, t) ↔
      s.IsRelocation ids target inPlace byName nodes t := by
  rw [checkRelocation]
  simp only [bind_eq_ok_iff (x := s.checkSelection ids), bind_eq_ok_iff (x := s.require target),
    demand_bind_eq_ok_iff, refuseFound_bind_eq_ok_iff, checkSelection_eq_ok_iff, require_eq_ok_iff,
    pure, Except.pure, Except.ok.injEq, Prod.mk.injEq]
  constructor
  · rintro ⟨ns, hsel, hmovable, t', htarget, hfolder, hlineage, hfree, rfl, rfl⟩
    refine ⟨hsel, by simpa using hmovable, htarget, hfolder, by simpa using hlineage, fun hby => ?_⟩
    simpa [hby] using hfree
  · rintro ⟨hsel, hmovable, htarget, hfolder, hlineage, hfree⟩
    refine ⟨nodes, hsel, by simpa using hmovable, t, htarget, hfolder, by simpa using hlineage, ?_,
      rfl, rfl⟩
    split
    · simpa using hfree ‹_›
    · rfl

/-! ### What passing brings -/

/-- The nodes of a selection are stored. -/
theorem IsSelection.mem (h : s.IsSelection ids nodes) {n : Node} (hn : n ∈ nodes) : n ∈ s.nodes :=
  (node?_eq_some (h.find n hn)).1

/-- No two of them share an identifier. -/
theorem IsSelection.nodup_ids (h : s.IsSelection ids nodes) : (nodes.map (·.id)).Nodup :=
  h.ids_eq ▸ h.nodup

/-- Each was asked for. -/
theorem IsSelection.id_mem (h : s.IsSelection ids nodes) {n : Node} (hn : n ∈ nodes) :
    n.id ∈ ids :=
  h.ids_eq ▸ List.mem_map_of_mem hn

/-- Each asked for is among them. -/
theorem IsSelection.exists_of_mem (h : s.IsSelection ids nodes) {id : Id} (hid : id ∈ ids) :
    ∃ n ∈ nodes, n.id = id := by
  rw [← h.ids_eq] at hid
  exact List.mem_map.1 hid

/-- A node with a selected identifier is selected. -/
theorem IsSelection.mem_of_id_mem (hs : s.IsTree) (h : s.IsSelection ids nodes) {n : Node}
    (hn : n ∈ s.nodes) (hid : n.id ∈ ids) : n ∈ nodes := by
  obtain ⟨m, hm, he⟩ := h.exists_of_mem hid
  rwa [← eq_of_id_eq hs.nodup (h.mem hm) hn he]

/-- There is at least one. -/
theorem IsSelection.exists_mem (h : s.IsSelection ids nodes) : ∃ n, n ∈ nodes := by
  apply List.exists_mem_of_ne_nil
  rintro rfl
  exact h.nonempty h.ids_eq.symm

/-- Selected nodes have one parent. -/
theorem IsSelection.exists_parent (hs : s.IsTree) (h : s.IsSelection ids nodes) :
    ∃ p, ∀ n ∈ nodes, n.parent = some p := by
  obtain ⟨n, hn⟩ := h.exists_mem
  obtain ⟨p, hp⟩ := Option.ne_none_iff_exists'.1 fun hnone =>
    h.notRoot n hn (hs.onlyRoot n (h.mem hn) hnone)
  exact ⟨p, fun m hm => (h.siblings m hm n hn).trans hp⟩

section

variable {target : Id} {inPlace byName : Bool} {t : Node} (hs : s.IsTree)
  (h : s.IsRelocation ids target inPlace byName nodes t)

include h

/-- The target of a relocation is stored. -/
theorem IsRelocation.hasNode_target : s.hasNode target := by
  rw [hasNode, h.found]
  rfl

include hs

/-- It lies below none of the nodes. -/
theorem IsRelocation.not_leadsTo {n : Node} (hn : n ∈ nodes) : ¬s.LeadsTo target n.id := by
  obtain ⟨ht, rfl⟩ := node?_eq_some h.found
  exact fun hup => h.outside n hn ((hs.mem_ancestorIds_iff ht).2 hup)

/-- The target is none of the selected nodes, since it leads to itself. -/
theorem IsRelocation.target_not_mem : target ∉ ids := by
  intro hmem
  obtain ⟨n, hn, rfl⟩ := h.selection.exists_of_mem hmem
  exact h.not_leadsTo hs hn .refl

end

end Store

end SnapshotArchive
