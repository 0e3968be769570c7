import SnapshotArchive.Proofs.Copying.Faithful
import SnapshotArchive.Proofs.Selection

/-!
# Copying is a run of edits

A subtree is copied node by node, each below the copy of its parent, which was copied before. So the
target gets one new child, the copy of the node that the subtree starts at, and no other node that
was there gets any.

* `Copying.addBelow_grows` : copying what lies below copied nodes.
* `Copying.addSubtree_receives` : copying a subtree into a target.
* `copyNodes_edits` : the operation.
-/

namespace SnapshotArchive

open Store

/-- All nodes that come after their parents have one. -/
theorem Store.ParentsFirst.exists_parent {seen : List Id} {ns : List Node}
    (h : ParentsFirst seen ns) : ∀ n ∈ ns, ∃ p, n.parent = some p := by
  induction ns generalizing seen with
  | nil => simp
  | cons n ns ih =>
    obtain ⟨⟨p, -, hp⟩, h⟩ := h
    intro m hm
    rcases List.mem_cons.1 hm with rfl | hm
    · exact ⟨p, hp⟩
    · exact ih h m hm

namespace Copying

/-! ### Below copied nodes -/

/-- Nodes that are still to be copied, each below the copy of its parent. -/
structure Pending (k : Copying) (olds : List Node) : Prop where
  nodup : (olds.map (·.id)).Nodup
  mem : ∀ old ∈ olds, old ∈ k.store.nodes
  new : ∀ old ∈ olds, ∀ x ∈ k.nodeIds, x.1 ≠ old.id ∧ x.2 ≠ old.id
  below : ∀ old ∈ olds, ∃ p, old.parent = some p

section

variable {k k' : Copying} {old : Node} {olds : List Node} {parent : Id} {name : String}

/-- The next node can be copied below the copy of its parent. -/
theorem Pending.mayCopy (h : k.Pending (old :: olds)) (hk : k.IsFaithful)
    (hp : copyOf k.nodeIds (old.parent.getD "") = .ok parent) :
    k.MayCopy old parent old.name := by
  have hmem := h.mem old List.mem_cons_self
  obtain ⟨p, hparent⟩ := h.below old List.mem_cons_self
  rw [hparent, Option.getD_some] at hp
  have hpair := copyOf_eq_ok hp
  refine ⟨hmem, h.new old List.mem_cons_self, ?_, hk.sound.named.names old hmem,
    .inl ⟨p, hparent, hpair, rfl⟩⟩
  obtain ⟨n, hn, m, hm, hnid, hmid, hkind⟩ := hk.nodes _ hpair
  obtain ⟨q, hq, hqid, hholds⟩ := hk.sound.tree.contained old hmem p hparent
  obtain rfl := eq_of_id_eq hk.sound.tree.nodup hq hn (hqid.trans hnid.symm)
  exact ⟨m, hm, hmid, hkind ▸ hholds⟩

/-- When it is copied, the others are still to be copied. -/
theorem Pending.copies (h : k.Pending (old :: olds)) (hcopy : Copies old parent name k k') :
    k'.Pending olds := by
  obtain ⟨hold, hnodup⟩ := List.nodup_cons.1 h.nodup
  obtain ⟨m, hnodes, hid, hids, -⟩ := hcopy.node
  refine ⟨hnodup, fun o ho => ?_, fun o ho x hx => ?_,
    fun o ho => h.below o (List.mem_cons_of_mem _ ho)⟩
  · rw [hnodes]
    exact List.mem_append_left _ (h.mem o (List.mem_cons_of_mem _ ho))
  · rw [hids] at hx
    rcases List.mem_cons.1 hx with rfl | hx
    · exact ⟨fun he => hold (List.mem_map.2 ⟨o, ho, he.symm⟩),
        (not_mem_of_hasNode_eq_false hid (h.mem o (List.mem_cons_of_mem _ ho))).symm⟩
    · exact h.new o (List.mem_cons_of_mem _ ho) x hx

/-- The store grows by children of copies. -/
structure Grows (k k' : Copying) : Prop where
  faithful : k'.IsFaithful
  edits : k.store.Edits k'.store
  nodes : k.store.nodes ⊆ k'.store.nodes
  children : ∀ p, k.store.hasNode p → (∀ x ∈ k.nodeIds, x.2 ≠ p) → ∀ m ∈ k'.store.nodes,
    m.parent = some p → m ∈ k.store.nodes

/-- Copying nodes below their copied parents adds children of copies only. -/
theorem addBelow_grows {c : Context} {user : Option String} (hk : k.IsFaithful)
    (hpending : k.Pending olds) (h : addBelow c user olds k = .ok k') : Grows k k' := by
  induction olds generalizing k with
  | nil =>
    obtain rfl := Except.ok.inj h
    exact ⟨hk, .refl, List.Subset.refl _, fun _ _ _ _ hm _ => hm⟩
  | cons old olds ih =>
    obtain ⟨parent, hp, h⟩ := bind_eq_ok_iff.1 h
    obtain ⟨k₁, hnode, h⟩ := bind_eq_ok_iff.1 h
    have hcopy := addNode_copies hk (hpending.mayCopy hk hp) hnode
    have hrest := ih hcopy.faithful (hpending.copies hcopy) h
    obtain ⟨m, hnodes, hid, hids, hmp, -⟩ := hcopy.node
    have hsub : k.store.nodes ⊆ k₁.store.nodes := hnodes ▸ List.subset_append_left _ _
    refine ⟨hrest.faithful, hcopy.edits.trans hrest.edits,
      List.Subset.trans hsub hrest.nodes, fun p hasNode hne n hn hnp => ?_⟩
    obtain ⟨q, hq, rfl⟩ := hasNode_iff.1 hasNode
    have hn₁ := hrest.children q.id (hasNode_of_mem (hsub hq)) (fun x hx => ?_) n hn hnp
    · rw [hnodes] at hn₁
      rcases List.mem_append.1 hn₁ with hn₁ | hn₁
      · exact hn₁
      · -- The copy went below a copy, which the given node is not.
        rw [List.mem_singleton.1 hn₁, hmp] at hnp
        exact absurd (Option.some.inj hnp) (hne _ (copyOf_eq_ok hp))
    · rw [hids] at hx
      rcases List.mem_cons.1 hx with rfl | hx
      · exact (not_mem_of_hasNode_eq_false hid hq).symm
      · exact hne x hx

end

/-! ### A subtree -/

/-- The lists are right before anything is copied. -/
theorem IsFaithful.start {s : Store} (hs : s.IsSound) (used : Nat) :
    IsFaithful ⟨s, used, [], []⟩ := by
  constructor
  · exact hs
  all_goals simp

/-- What a store receives when a subtree is copied into a target of it. -/
structure Receives (target : Id) (source : Node) (name : String) (s t : Store) : Prop where
  edits : s.Edits t
  nodes : s.nodes ⊆ t.nodes
  children : ∀ m ∈ t.nodes, m.parent = some target →
    m ∈ s.nodes ∨ m.kind = source.kind ∧ m.name = name

section

variable {k : Copying} {source t : Node} {name : String} (hs : k.store.IsSound)
  (hsource : source ∈ k.store.nodes) (ht : t ∈ k.store.nodes)

/-- The node that a subtree starts at can be copied into a folder. -/
theorem mayCopy_top (hmovable : source.kind.isMovable) (hfolder : t.kind = .folder)
    (hname : IsName name) (hsource : source ∈ k.store.nodes) (ht : t ∈ k.store.nodes) :
    MayCopy ⟨k.store, k.used, [], []⟩ source t.id name := by
  refine ⟨hsource, by simp, ⟨t, ht, rfl, ?_⟩, fun _ => hname,
    .inr ⟨Kind.ne_snapshot_of_isMovable hmovable, by simp⟩⟩
  rw [hfolder]
  exact Kind.mayHold_of_isMovable hmovable

include hs hsource

/-- When it is copied, what lies below it is to be copied. -/
theorem pending_below (hroot : source.id ≠ rootId) {below : List Node}
    (hsubtree : k.store.subtree source.id = source :: below)
    (hbelow : ParentsFirst [source.id] below) {target : Id} {k' : Copying}
    (hcopy : Copies source target name ⟨k.store, k.used, [], []⟩ k') : k'.Pending below := by
  have hnodup := hs.tree.subtreeIds_nodup hsource
  rw [subtreeIds, hsubtree] at hnodup
  refine Pending.copies ⟨hnodup, fun o ho => ?_, by simp, fun o ho => ?_⟩ hcopy
  · exact mem_nodes_of_mem_subtree (hsubtree ▸ ho)
  · rcases List.mem_cons.1 ho with rfl | ho
    · exact Option.ne_none_iff_exists'.1 fun hnone => hroot (hs.tree.onlyRoot o hsource hnone)
    · exact hbelow.exists_parent o ho

include ht

/-- Copying a subtree into a folder is a run of edits, which gives the folder one child. -/
theorem addSubtree_receives {c : Context} {user : Option String} {k' : Copying}
    (hroot : source.id ≠ rootId) (hmovable : source.kind.isMovable) (hfolder : t.kind = .folder)
    (hname : IsName name) (h : addSubtree c user t.id name source k = .ok k') :
    Receives t.id source name k.store k'.store := by
  obtain ⟨below, hsubtree, hbelow⟩ := hs.tree.subtree_eq_cons hsource
  simp only [addSubtree, hsubtree] at h
  obtain ⟨-, -, h⟩ := bind_eq_ok_iff.1 h
  obtain ⟨k₁, htop, h⟩ := bind_eq_ok_iff.1 h
  have hcopy := addNode_copies (.start hs k.used)
    (mayCopy_top hmovable hfolder hname hsource ht) htop
  have hgrows := addBelow_grows hcopy.faithful
    (pending_below hs hsource hroot hsubtree hbelow hcopy) h
  obtain ⟨m, hnodes, hid, hids, -, hkind, hmname⟩ := hcopy.node
  have hsub : k.store.nodes ⊆ k₁.store.nodes := hnodes ▸ List.subset_append_left _ _
  refine ⟨hcopy.edits.trans hgrows.edits, List.Subset.trans hsub hgrows.nodes,
    fun n hn hnp => ?_⟩
  have hn₁ := hgrows.children t.id (hasNode_of_mem (hsub ht)) (fun x hx => ?_) n hn hnp
  · rw [hnodes] at hn₁
    rcases List.mem_append.1 hn₁ with hn₁ | hn₁
    · exact .inl hn₁
    · obtain rfl := List.mem_singleton.1 hn₁
      exact .inr ⟨hkind, hmname⟩
  · rw [hids] at hx
    obtain rfl := List.mem_singleton.1 hx
    exact (not_mem_of_hasNode_eq_false hid ht).symm

end

/-! ### Selected nodes -/

/-- What a copy of a node is called. -/
theorem isName_copy {s : Store} (hs : s.IsSound) {n : Node} (hn : n ∈ s.nodes)
    (hmovable : n.kind.isMovable) (policy : CopyPolicy) (target : Id) :
    IsName (if policy = .reject then n.name else s.freeName target n) := by
  have hname : IsName n.name := by
    refine hs.named.names n hn ?_
    rw [hs.named.drafts n hn]
    exact Content.isDraft_of_kind (Kind.ne_snapshot_of_isMovable hmovable)
  split
  · exact hname
  · obtain ⟨attempt, he⟩ := s.freeName_eq target n
    exact he ▸ isName_copyName hname attempt

/-- Copying movable nodes into a folder is a run of edits. -/
theorem addAll_edits {c : Context} {policy : CopyPolicy} {user : Option String} {t : Node}
    (hfolder : t.kind = .folder) {nodes : List Node} {k k' : Copying} (hs : k.store.IsSound)
    (ht : t ∈ k.store.nodes)
    (hnodes : ∀ n ∈ nodes, n ∈ k.store.nodes ∧ n.id ≠ rootId ∧ n.kind.isMovable)
    (h : addAll c policy user t.id nodes k = .ok k') : k.store.Edits k'.store := by
  induction nodes generalizing k with
  | nil =>
    obtain rfl := Except.ok.inj h
    exact .refl
  | cons n ns ih =>
    obtain ⟨k₁, hsubtree, h⟩ := bind_eq_ok_iff.1 h
    obtain ⟨hn, hroot, hmovable⟩ := hnodes n List.mem_cons_self
    have hreceives := addSubtree_receives hs hn ht hroot hmovable hfolder
      (isName_copy hs hn hmovable policy t.id) hsubtree
    refine hreceives.edits.trans (ih (hs.edits hreceives.edits) (hreceives.nodes ht)
      (fun o ho => ?_) h)
    obtain ⟨ho, hrest⟩ := hnodes o (List.mem_cons_of_mem _ ho)
    exact ⟨hreceives.nodes ho, hrest⟩

end Copying

/-- A copy is a run of edits. -/
theorem copyNodes_edits {c : Context} {policy : CopyPolicy} {ids : List Id} {target : Id}
    {user : Option String} {s₀ : Store} {t : Transaction Node}
    (h : copyNodes c policy ids target user s₀ = .ok t) : t.IsEdits := by
  obtain ⟨planned, -, h⟩ := bind_eq_ok_iff.1 h
  obtain rfl := Except.ok.inj h
  intro s s' a hs ht
  obtain ⟨⟨nodes, tn⟩, hcheck, ht⟩ := bind_eq_ok_iff.1 ht
  obtain ⟨k, hcopy, ht⟩ := bind_eq_ok_iff.1 ht
  obtain ⟨s₁, htouch, ht⟩ := bind_eq_ok_iff.1 ht
  obtain ⟨-, rfl⟩ := answerNode_eq_ok_iff.1 ht
  have hok := checkRelocation_eq_ok_iff.1 (recheck_eq_ok_iff.1 hcheck)
  obtain ⟨htn, rfl⟩ := node?_eq_some hok.found
  have hedits := Copying.addAll_edits (k := ⟨s, 0, [], []⟩) hok.folder hs htn (fun n hn =>
    ⟨hok.selection.mem hn, hok.selection.notRoot n hn, hok.movable n hn⟩) hcopy
  exact hedits.trans (touch_edits (hs.edits hedits) htouch)

end SnapshotArchive
