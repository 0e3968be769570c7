import SnapshotArchive.Move
import SnapshotArchive.Proofs.Editing
import SnapshotArchive.Proofs.Selection

/-!
# Moving and batch deletion are runs of edits

The sources enter the target one after the other. None of them lies above it, so the way from the
target to the root stays what it was, and the next source does not lie on it either. And none of
them takes the name of another, so that sources whose names are free in the target can all enter it.

* `moveNodes_edits`, `deleteNodes_edits` : the operations.
* `Store.reparent_ok`, `Store.removeSubtrees_ok` : selected nodes that pass are moved and deleted.
-/

namespace SnapshotArchive

namespace Store

/-- A way that did not meet the changed node was one before the change. -/
theorem LeadsTo.of_replaceNode {s : Store} {n m : Node} (hid : m.id = n.id) {x y : Id}
    (hxy : (s.replaceNode m).LeadsTo x y) (houtside : ¬s.LeadsTo x n.id) : s.LeadsTo x y := by
  induction hxy using Relation.ReflTransGen.head_induction_on with
  | refl => exact .refl
  | head hlink _ ih =>
    obtain ⟨o, ho, rfl, hop⟩ := hlink
    rcases mem_replaceNode_iff.1 ho with ⟨rfl, -⟩ | ⟨ho, -⟩
    · exact absurd (hid ▸ .refl) houtside
    · have hlink : s.HasParent o.id _ := ⟨o, ho, rfl, hop⟩
      exact .head hlink (ih fun hz => houtside (.head hlink hz))

/-- Selected nodes that may all enter a target. -/
def MayAllEnter (s : Store) (target : Node) (nodes : List Node) : Prop :=
  (nodes.map (·.id)).Nodup ∧ ∀ n ∈ nodes, n ∈ s.nodes ∧ s.MayEnter n target

/-- When one of the nodes has entered the target, the others still may. -/
theorem MayAllEnter.replaceNode {s : Store} {target n m : Node} {ns : List Node}
    (h : s.MayAllEnter target (n :: ns)) (hid : m.id = n.id) :
    (s.replaceNode m).MayAllEnter target ns := by
  obtain ⟨hnodup, henter⟩ := h
  obtain ⟨hnot, hnodup⟩ := List.nodup_cons.1 hnodup
  have hn := (henter n List.mem_cons_self).2
  have htarget : target.id ≠ n.id := fun he => hn.outside (he ▸ .refl)
  refine ⟨hnodup, fun o ho => ?_⟩
  obtain ⟨hmem, ho'⟩ := henter o (List.mem_cons_of_mem _ ho)
  have hne : o.id ≠ n.id := fun he => hnot (List.mem_map.2 ⟨o, ho, he⟩)
  exact ⟨mem_replaceNode_of_ne hid hmem hne, mem_replaceNode_of_ne hid ho'.mem htarget, ho'.folder,
    ho'.movable, fun hup => ho'.outside (hup.of_replaceNode hid hn.outside)⟩

/-- Setting nodes below a target they may all enter is a run of edits. -/
theorem reparent_edits {c : Context} {target : Node} {user : Option String} {nodes : List Node}
    {s t : Store} (hs : s.IsSound) (hnodes : s.MayAllEnter target nodes)
    (h : reparent c target.id user nodes s = .ok t) : s.Edits t := by
  induction nodes generalizing s with
  | nil =>
    obtain rfl := Except.ok.inj h
    exact .refl
  | cons n ns ih =>
    rw [reparent] at h
    split at h
    · exact ih hs ⟨hnodes.1.of_cons, fun o ho => hnodes.2 o (List.mem_cons_of_mem _ ho)⟩ h
    · obtain ⟨author, -, h⟩ := bind_eq_ok_iff.1 h
      obtain ⟨s₁, hchange, h⟩ := bind_eq_ok_iff.1 h
      obtain ⟨hn, henter⟩ := hnodes.2 n List.mem_cons_self
      have hedit : s.Edit s₁ := changeNode_edit hs hn hchange rfl rfl (hs.named.drafts n hn)
        (fun hd => hd) (hs.named.names n hn) (.inr ⟨target, rfl, henter⟩)
      obtain ⟨rfl, -⟩ := changeNode_eq_ok hs.tree hn hchange rfl
      exact .head hedit (ih (hs.edit hedit) (hnodes.replaceNode rfl) h)

/-- What a relocation was checked for, its nodes may enter their target. -/
theorem IsRelocation.mayAllEnter {s : Store} (hs : s.IsTree) {ids : List Id} {target : Id}
    {inPlace byName : Bool} {nodes : List Node} {t : Node}
    (h : s.IsRelocation ids target inPlace byName nodes t) : s.MayAllEnter t nodes := by
  obtain ⟨ht, hid⟩ := node?_eq_some h.found
  exact ⟨h.selection.nodup_ids, fun n hn =>
    ⟨h.selection.mem hn, ht, h.folder, h.movable n hn, hid ▸ h.not_leadsTo hs hn⟩⟩

/-- Removing subtrees one after the other is a run of edits. -/
theorem removeSubtrees_edits {nodes : List Node} {s t : Store} (hs : s.IsSound) {count : Nat}
    (h : removeSubtrees nodes s = .ok (count, t)) : s.Edits t := by
  induction nodes generalizing s count with
  | nil =>
    obtain ⟨-, rfl⟩ := Prod.mk.inj (Except.ok.inj h)
    exact .refl
  | cons n ns ih =>
    obtain ⟨⟨k, s₁⟩, hn, h⟩ := bind_eq_ok_iff.1 h
    obtain ⟨⟨more, s₂⟩, hns, h⟩ := bind_eq_ok_iff.1 h
    obtain ⟨-, rfl⟩ := Prod.mk.inj (Except.ok.inj h)
    have hedit := removeSubtree_edit hs hn
    exact .head hedit (ih (hs.edit hedit) hns)

/-! ### Moves and deletions that succeed -/

/-- Nodes that can be moved together differ in kind or name: they are siblings. -/
theorem IsRelocation.names_differ {s : Store} (hs : s.IsSound) {ids : List Id} {target : Id}
    {inPlace byName : Bool} {nodes : List Node} {t : Node}
    (h : s.IsRelocation ids target inPlace byName nodes t) :
    nodes.Pairwise fun n m => n.kind = m.kind → n.name ≠ m.name := by
  have hdraft : ∀ n ∈ nodes, n.draft = false := fun n hn => by
    rw [hs.named.drafts n (h.selection.mem hn)]
    exact Content.isDraft_of_kind (Kind.ne_snapshot_of_isMovable (h.movable n hn))
  have hne : nodes.Pairwise (· ≠ ·) := h.selection.nodup_ids.of_map
  refine hne.imp_of_mem fun {n m} hn hm hne hk hname => hne ?_
  exact hs.named.siblings n (h.selection.mem hn) m (h.selection.mem hm) (hdraft n hn) (hdraft m hm)
    (h.selection.siblings n hn m hm) hk hname

/-- A node that moves finds no other node of its name in the target. -/
theorem IsRelocation.free_of_outside {s : Store} (hs : s.IsSound) {ids : List Id}
    {nodes : List Node} {t : Node} (h : s.IsRelocation ids t.id true true nodes t) {n : Node}
    (hn : n ∈ nodes) (hne : n.parent ≠ some t.id) {o : Node} (ho : o ∈ s.nodes) :
    ¬holdsName (some t.id) n.kind n.name o := by
  have hfree := h.free rfl n hn
  cases hfound : s.sibling? t.id n.kind n.name with
  | none => exact sibling?_isNone_iff.1 (by simp [hfound]) o ho
  | some holder =>
    -- What holds the name is the node itself, which then lies in the target.
    have hid : holder.id = n.id := by simpa [obstacle?, hfound] using hfree
    have hholder : holder ∈ s.nodes := List.mem_of_find?_eq_some hfound
    obtain rfl := eq_of_id_eq hs.tree.nodup hholder (h.selection.mem hn) hid
    exact absurd (holdsName_iff.1 (List.find?_some hfound)).2.1 hne

/-- A node that is copied without another name finds none of its name in the target. -/
theorem IsRelocation.sibling?_isNone {s : Store} {ids : List Id} {target : Id} {byName : Bool}
    {nodes : List Node} {t : Node} (h : s.IsRelocation ids target false byName nodes t)
    (hby : byName) {n : Node} (hn : n ∈ nodes) : (s.sibling? target n.kind n.name).isNone := by
  have hfree := h.free hby n hn
  cases hfound : s.sibling? target n.kind n.name with
  | none => rfl
  | some holder => simp [obstacle?, hfound] at hfree

/-- Nodes whose names are free below the target can all be set there. -/
theorem reparent_ok {c : Context} {t : Node} {nodes : List Node} {s : Store} (hs : s.IsSound)
    (ht : t ∈ s.nodes) (hnodes : s.MayAllEnter t nodes)
    (hfree : ∀ n ∈ nodes, n.parent ≠ some t.id → ∀ o ∈ s.nodes,
      ¬holdsName (some t.id) n.kind n.name o)
    (hapart : nodes.Pairwise fun n m => n.kind = m.kind → n.name ≠ m.name) (user : String) :
    ∃ s', reparent c t.id (some user) nodes s = .ok s' ∧ t ∈ s'.nodes := by
  induction nodes generalizing s with
  | nil => exact ⟨s, rfl, ht⟩
  | cons n ns ih =>
    obtain ⟨hhead, hapart⟩ := List.pairwise_cons.1 hapart
    rw [reparent]
    split
    · exact ih hs ht ⟨hnodes.1.of_cons, fun o ho => hnodes.2 o (List.mem_cons_of_mem _ ho)⟩
        (fun o ho => hfree o (List.mem_cons_of_mem _ ho)) hapart
    · rename_i hp
      obtain ⟨hn, henter⟩ := hnodes.2 n List.mem_cons_self
      have hchange := changeNode_ok hs.tree hn (f := fun m =>
        { m with
          parent := t.id
          position := s.nextPosition t.id
          modified := c.now
          user
          version := m.version + 1 }) rfl (.inr (hasNode_of_mem ht))
        (fun _ o ho _ => hfree n List.mem_cons_self hp o ho)
      have hedit := changeNode_edit hs hn hchange rfl rfl (hs.named.drafts n hn) (fun hd => hd)
        (hs.named.names n hn) (.inr ⟨t, rfl, henter⟩)
      have htarget : t.id ≠ n.id := fun he => henter.outside (he ▸ .refl)
      obtain ⟨s', hs', ht'⟩ := ih (hs.edit hedit) (mem_replaceNode_of_ne rfl ht htarget)
        (hnodes.replaceNode rfl) (fun o ho hop q hq hholds => by
          rcases mem_replaceNode_iff.1 hq with ⟨rfl, -⟩ | ⟨hq, -⟩
          · obtain ⟨-, -, hk, hname, -⟩ := holdsName_iff.1 hholds
            exact hhead o ho hk hname
          · exact hfree o (List.mem_cons_of_mem _ ho) hop q hq hholds) hapart
      exact ⟨s', bind_eq_ok_iff.2 ⟨user, rfl, bind_eq_ok_iff.2 ⟨_, hchange, hs'⟩⟩, ht'⟩

/-- The subtrees of nodes other than the root can all be removed. -/
theorem removeSubtrees_ok {nodes : List Node} (h : ∀ n ∈ nodes, n.id ≠ rootId) (s : Store) :
    ∃ result, removeSubtrees nodes s = .ok result := by
  induction nodes generalizing s with
  | nil => exact ⟨_, rfl⟩
  | cons n ns ih =>
    have hn : s.removeSubtree n = .ok _ :=
      demand_bind_eq_ok_iff.2 ⟨h n List.mem_cons_self, rfl⟩
    obtain ⟨result, hns⟩ := ih (fun m hm => h m (List.mem_cons_of_mem _ hm))
      (s.removeNodes (s.subtreeIds n.id))
    exact ⟨_, bind_eq_ok_iff.2 ⟨_, hn, bind_eq_ok_iff.2 ⟨result, hns, rfl⟩⟩⟩

end Store

open Store

/-- A move is a run of edits. -/
theorem moveNodes_edits {c : Context} {ids : List Id} {target : Id} {user : Option String}
    {s₀ : Store} {t : Transaction Node} (h : moveNodes c ids target user s₀ = .ok t) :
    t.IsEdits := by
  obtain ⟨planned, -, h⟩ := bind_eq_ok_iff.1 h
  obtain rfl := Except.ok.inj h
  intro s s' a hs ht
  obtain ⟨⟨nodes, tn⟩, hcheck, ht⟩ := bind_eq_ok_iff.1 ht
  obtain ⟨-, ht⟩ := refuseFound_bind_eq_ok_iff.1 ht
  obtain ⟨s₁, hmove, ht⟩ := bind_eq_ok_iff.1 ht
  obtain ⟨s₂, htouch, ht⟩ := bind_eq_ok_iff.1 ht
  obtain ⟨-, rfl⟩ := answerNode_eq_ok_iff.1 ht
  have hok := checkRelocation_eq_ok_iff.1 (recheck_eq_ok_iff.1 hcheck)
  obtain ⟨-, rfl⟩ := node?_eq_some hok.found
  have hedits := reparent_edits hs (hok.mayAllEnter hs.tree) hmove
  exact hedits.trans (touch_edits (hs.edits hedits) htouch)

/-- So is a removal of several nodes. -/
theorem deleteNodes_edits {ids : List Id} {s₀ : Store} {t : Transaction Nat}
    (h : deleteNodes ids s₀ = .ok t) : t.IsEdits := by
  obtain ⟨planned, -, h⟩ := bind_eq_ok_iff.1 h
  obtain rfl := Except.ok.inj h
  intro s s' a hs ht
  obtain ⟨nodes, -, ht⟩ := bind_eq_ok_iff.1 ht
  obtain ⟨-, ht⟩ := refuseFound_bind_eq_ok_iff.1 ht
  exact removeSubtrees_edits hs ht

end SnapshotArchive
