import SnapshotArchive.Proofs.Locality.Changes

/-!
# Copies inside a region

Copying inside a region does the same to two stores that agree in it. Two copies in progress are
compared as the stores are (`Copying.Alike`): they have used the same identifiers and call the
copied records the same, and what the copies are called belongs to the region.

* `Copying.Alike.addSubtree`, `Copying.Alike.addAll` : copies of subtrees.
-/

namespace SnapshotArchive

open Store

namespace Region

/-- A client makes up identifiers of the region. -/
structure Supplies (g : Region) (c : Context) : Prop where
  holds : ∀ j, g.Holds (c.fresh j)
  ne_top : ∀ j, c.fresh j ≠ g.top
  owns : ∀ j, g.Owns (c.fresh j)

end Region

namespace Copying

/-- Two copies in progress that differ in nothing but the rows outside the region. -/
inductive Alike (g : Region) (u v : Store) (k : Copying) : Copying → Prop
  | mk {t : Store} : g.Agree u v k.store t → (∀ x ∈ k.nodeIds, g.Holds x.2) →
    (∀ x ∈ k.pvIds, g.Owns x.2) → Alike g u v k { k with store := t }

namespace Alike

variable {g : Region} {u v : Store} {k k' : Copying} (h : Alike g u v k k') {c : Context}

include h

/-- The stores of copies in progress that are alike agree. -/
theorem agree : g.Agree u v k.store k'.store := by
  cases h with
  | mk hstore => exact hstore

/-! ### What belongs to a node -/

/-- Copying variables into the region is alike in both. -/
theorem addPvs (hc : g.Supplies c) {config : Id} (hid : g.Holds config) (pvs : List Pv) :
    Both (Alike g u v) (Copying.addPvs c config pvs k) (Copying.addPvs c config pvs k') := by
  induction pvs generalizing k k' with
  | nil => exact .ok h
  | cons pv pvs ih =>
    cases h with
    | mk hstore hholds howns =>
      refine .bind (hstore.insertPv hid (hc.owns k.used)) fun _ _ _ _ hadded => ih ?_
      refine .mk hadded hholds fun x hx => ?_
      rcases List.mem_cons.1 hx with rfl | hx
      · exact hc.owns k.used
      · exact howns x hx

/-- So is copying items. -/
theorem addItems {snapshot : Id} (hid : g.Holds snapshot) (items : List Item) :
    Both (Alike g u v) (Copying.addItems snapshot items k)
      (Copying.addItems snapshot items k') := by
  induction items generalizing k k' with
  | nil => exact .ok h
  | cons item items ih =>
    cases h with
    | mk hstore hholds howns =>
      refine .bind_same fun pv hpv => ?_
      have hown : g.Owns pv := howns _ (copyOf_eq_ok hpv)
      exact .bind (hstore.insertItem hid hown) fun _ _ _ _ hadded => ih (.mk hadded hholds howns)

/-- So is copying tags. -/
theorem addTags {snapshot : Id} (hid : g.Holds snapshot) (tags : List Tag) :
    Both (Alike g u v) (Copying.addTags snapshot tags k) (Copying.addTags snapshot tags k') := by
  induction tags generalizing k k' with
  | nil => exact .ok h
  | cons tag tags ih =>
    cases h with
    | mk hstore hholds howns =>
      exact .bind (hstore.insertTag hid) fun _ _ _ _ hadded => ih (.mk hadded hholds howns)

/-- So is copying what belongs to a node of the region. -/
theorem addContents (hc : g.Supplies c) {old new : Id} (hold : g.Holds old) (hnew : g.Holds new) :
    Both (Alike g u v) (Copying.addContents c old new k) (Copying.addContents c old new k') := by
  have hstore := h.agree
  unfold Copying.addContents
  dsimp only
  rw [← hstore.pvsOf_eq hold, ← hstore.itemsOf_eq hold, ← hstore.filter_tags_eq hold]
  refine .bind (h.addPvs hc hnew _) fun _ _ _ _ hpvs => ?_
  exact .bind (hpvs.addItems hnew _) fun _ _ _ _ hitems => hitems.addTags hnew _

/-! ### Nodes -/

/-- So is copying a node of the region. -/
theorem addNode (hc : g.Supplies c) (user : Option String) {old : Node} (hold : g.Holds old.id)
    {parent : Id} (hp : g.Holds parent) (name : String) (position : Nat) :
    Both (Alike g u v) (Copying.addNode c user old parent name position k)
      (Copying.addNode c user old parent name position k') := by
  cases h with
  | mk hstore hholds howns =>
    refine .bind_same fun author _ => ?_
    refine .bind (hstore.insertNode (hc.holds k.used) (hc.ne_top k.used) hp rfl) ?_
    intro _ _ _ _ hadded
    refine Alike.addContents ?_ hc hold (hc.holds k.used)
    refine .mk hadded (fun x hx => ?_) howns
    rcases List.mem_cons.1 hx with rfl | hx
    · exact hc.holds k.used
    · exact hholds x hx

/-- So is copying several, each below the copy of its parent. -/
theorem addBelow (hc : g.Supplies c) (user : Option String) {olds : List Node}
    (holds : ∀ o ∈ olds, g.Holds o.id) :
    Both (Alike g u v) (Copying.addBelow c user olds k) (Copying.addBelow c user olds k') := by
  induction olds generalizing k k' with
  | nil => exact .ok h
  | cons o olds ih =>
    have hids : k'.nodeIds = k.nodeIds := by
      cases h with
      | mk => rfl
    have hholds : ∀ x ∈ k.nodeIds, g.Holds x.2 := by
      cases h with
      | mk _ hholds => exact hholds
    rw [Copying.addBelow, Copying.addBelow, hids]
    refine .bind_same fun p hp => ?_
    exact .bind (h.addNode hc user (holds o List.mem_cons_self) (hholds _ (copyOf_eq_ok hp)) _ _)
      fun _ _ _ _ hadded => ih hadded fun q hq => holds q (List.mem_cons_of_mem _ hq)

/-! ### Subtrees -/

/-- So is copying a subtree of the region. -/
theorem addSubtree (hc : g.Supplies c) (hs : k.store.IsTree) (ht : k'.store.IsTree)
    (user : Option String) {target : Id} (htarget : g.Holds target) (name : String) {source : Node}
    (hsource : g.Holds source.id) :
    Both (Alike g u v) (Copying.addSubtree c user target name source k)
      (Copying.addSubtree c user target name source k') := by
  have hstore := h.agree
  have hstart : Alike g u v { k with nodeIds := [], pvIds := [] }
      { k' with nodeIds := [], pvIds := [] } := by
    cases h with
    | mk hstore => exact .mk hstore (by simp) (by simp)
  unfold Copying.addSubtree
  dsimp only
  rw [← hstore.subtree_eq hs ht hsource, ← hstore.checkNameFree_eq htarget,
    ← hstore.nextPosition_eq htarget]
  have hholds : ∀ m ∈ k.store.subtree source.id, g.Holds m.id := fun m hm =>
    hstore.holds_of_mem_subtree hsource hm
  cases hsubtree : k.store.subtree source.id with
  | nil => exact .ok hstart
  | cons top below =>
    rw [hsubtree] at hholds
    refine .bind_same fun _ _ => ?_
    exact .bind (hstart.addNode hc user (hholds top List.mem_cons_self) htarget name _)
      fun _ _ _ _ hadded => hadded.addBelow hc user fun o ho => hholds o (List.mem_cons_of_mem _ ho)

/-- So is copying several subtrees into a folder of the region. -/
theorem addAll (hc : g.Supplies c) (hs : k.store.IsSound) (ht : k'.store.IsSound)
    (policy : CopyPolicy) (user : Option String) {t : Node} (hfolder : t.kind = .folder)
    (hmem : t ∈ k.store.nodes) (htarget : g.Holds t.id) {nodes : List Node}
    (hnodes : ∀ n ∈ nodes, n ∈ k.store.nodes ∧ n.id ≠ rootId ∧ n.kind.isMovable)
    (hholds : ∀ n ∈ nodes, g.Holds n.id) :
    Both (Alike g u v) (Copying.addAll c policy user t.id nodes k)
      (Copying.addAll c policy user t.id nodes k') := by
  induction nodes generalizing k k' with
  | nil => exact .ok h
  | cons n ns ih =>
    have hstore := h.agree
    have hname : k.store.freeName t.id n = k'.store.freeName t.id n := by
      simp only [Store.freeName, hstore.children_eq htarget, hstore.sibling?_eq htarget]
    obtain ⟨hn, hroot, hmovable⟩ := hnodes n List.mem_cons_self
    have hid := hholds n List.mem_cons_self
    have hmem' := (hstore.nodes.mem_iff htarget).1 hmem
    have hn' := (hstore.nodes.mem_iff hid).1 hn
    rw [Copying.addAll, Copying.addAll, ← hname]
    refine .bind (h.addSubtree hc hs.tree ht.tree user htarget _ hid) ?_
    intro a b hleft hright hadded
    have hreceives := addSubtree_receives hs hn hmem hroot hmovable hfolder
      (isName_copy hs hn hmovable policy t.id) hleft
    have hreceives' := addSubtree_receives ht hn' hmem' hroot hmovable hfolder
      (hname ▸ isName_copy ht hn' hmovable policy t.id) hright
    refine ih hadded (hs.edits hreceives.edits) (ht.edits hreceives'.edits)
      (hreceives.nodes hmem) (fun o ho => ?_) fun o ho => hholds o (List.mem_cons_of_mem _ ho)
    obtain ⟨ho, hrest⟩ := hnodes o (List.mem_cons_of_mem _ ho)
    exact ⟨hreceives.nodes ho, hrest⟩

end Alike

end Copying

end SnapshotArchive
