import SnapshotArchive.Proofs.Matching
import SnapshotArchive.Proofs.Completeness.Snapshots
import SnapshotArchive.Proofs.Drafts

/-!
# Saving a snapshot, written down

Saving goes through a draft that may be there, the items in it, and one new item after the other.
What it leaves can be written down at once: the saved node stands in the place of the draft or
behind the other nodes (`Store.savedNode`), and the captured items in place of all items it had
(`Store.capture`). Whether it succeeds depends on the store as it was only (`Store.MaySave`).

* `Store.addItems_eq_ok_iff` : adding items.
* `Store.openSnapshot_eq_ok_iff` : opening the snapshot.
* `saveSnapshot_eq_ok_iff` : saving, from its plan to its answer.
-/

namespace SnapshotArchive

open Text Store

/-- A branch and what follows it succeed exactly if the branch taken does, and the rest with its
result. -/
theorem ite_bind_eq_ok_iff {α β : Type} {p : Prop} [Decidable p] {x y : Except Failure α}
    {k : α → Except Failure β} {b : β} :
    (if p then x >>= k else y >>= k) = .ok b ↔
      ∃ a, (if p then x else y) = .ok a ∧ k a = .ok b := by
  rw [← bind_eq_ok_iff]
  split <;> rfl

/-! ### What is stored -/

/-- A captured item as it is stored. -/
def ItemForm.stored (form : ItemForm) (snapshot pv : Id) (position : Nat) : Item where
  snapshot
  pv
  value := form.value
  readback := form.readback
  timestamp := form.timestamp.getD 0
  severity := form.severity.getD ""
  status := form.status.getD ""
  position

/-- The items of a snapshot for pairs of variables and captured items, from a position on. -/
def storedItems (snapshot : Id) (position : Nat) (pairs : List (Pv × ItemForm)) : List Item :=
  (pairs.zipIdx position).map fun e => e.1.2.stored snapshot e.1.1.id e.2

namespace Store

variable (s : Store) (c : Context)

/-- The store with a node in it: in the place of the one that has its identifier, or behind all
others. -/
def putNode (m : Node) : Store :=
  if s.hasNode m.id then s.replaceNode m else { s with nodes := s.nodes ++ [m] }

/-- The store with a snapshot in it, and with captured items in place of all that it had. -/
def capture (m : Node) (pairs : List (Pv × ItemForm)) : Store :=
  { s.putNode m with
    items := s.items.filter (·.snapshot ≠ m.id) ++ storedItems m.id 0 pairs }

/-- The snapshot of a configuration that is saved: its draft, written again, or a new one. -/
def savedNode (config : Id) (title comment writer : String) : Node :=
  match s.draft? config with
  | some n => n.revised c title (.ofTitle title) comment writer
  | none => s.newNode c config title (.snapshot (.ofTitle title) comment)
      (Status.ofTitle title = .draft) .empty writer

/-- What saving captured items as a snapshot of a configuration asks for. A snapshot with a title
asks for the title to be free. -/
structure MaySave (config : Id) (title : String) (items : List ItemForm)
    (pairs : List (Pv × ItemForm)) : Prop where
  found : ∃ node, s.node? config = some node ∧ node.kind = .configuration
  paired : s.pairItems config items = .ok pairs
  storable : ∀ pair ∈ pairs, pair.2.isStorable
  complete : ∀ pair ∈ pairs, pair.2.IsComplete
  free : title ≠ "" → ∀ o ∈ s.nodes, ¬holdsName config .snapshot title o
  new : s.draft? config = none → s.hasNode (c.fresh 0) = false

end Store

/-! ### Items -/

/-- An item is stored exactly if it is complete, and as it was captured. -/
theorem itemRecord_eq_ok_iff {snapshot pv : Id} {position : Nat} {form : ItemForm} {item : Item} :
    itemRecord snapshot pv position form = .ok item ↔
      form.IsComplete ∧ item = form.stored snapshot pv position := by
  rw [itemRecord, demand_bind_eq_ok_iff]
  simp only [bind_eq_ok_iff, present_eq_ok_iff, pure, Except.pure, Except.ok.injEq]
  constructor
  · rintro ⟨hfits, time, htime, severity, hseverity, status, hstatus, rfl⟩
    refine ⟨⟨⟨time, htime, hfits time htime⟩, by simp [hseverity], by simp [hstatus]⟩, ?_⟩
    simp [ItemForm.stored, htime, hseverity, hstatus]
  · rintro ⟨⟨⟨time, htime, hfits⟩, hseverity, hstatus⟩, rfl⟩
    obtain ⟨severity, hseverity⟩ := Option.isSome_iff_exists.1 hseverity
    obtain ⟨status, hstatus⟩ := Option.isSome_iff_exists.1 hstatus
    refine ⟨fun t ht => ?_, time, htime, severity, hseverity, status, hstatus, ?_⟩
    · obtain rfl := Option.some.inj (htime.symm.trans ht)
      exact hfits
    · simp [ItemForm.stored, htime, hseverity, hstatus]

/-- The stored items of a snapshot name it. -/
theorem mem_storedItems {snapshot : Id} {position : Nat} {pairs : List (Pv × ItemForm)}
    {item : Item} (h : item ∈ storedItems snapshot position pairs) : item.snapshot = snapshot := by
  obtain ⟨e, -, rfl⟩ := List.mem_map.1 h
  rfl

/-- The first stored item has the position asked for, and the others follow it. -/
theorem storedItems_cons {snapshot : Id} {position : Nat} {pair : Pv × ItemForm}
    {pairs : List (Pv × ItemForm)} :
    storedItems snapshot position (pair :: pairs) =
      pair.2.stored snapshot pair.1.id position :: storedItems snapshot (position + 1) pairs := by
  rw [storedItems, List.zipIdx_cons, List.map_cons]
  rfl

/-- The stored items are in ascending order. -/
theorem pairwise_storedItems (snapshot : Id) (position : Nat) (pairs : List (Pv × ItemForm)) :
    (storedItems snapshot position pairs).Pairwise fun a b => a.position ≤ b.position := by
  induction pairs generalizing position with
  | nil => exact .nil
  | cons pair pairs ih =>
    rw [storedItems_cons, List.pairwise_cons]
    refine ⟨fun item hitem => ?_, ih (position + 1)⟩
    obtain ⟨e, he, rfl⟩ := List.mem_map.1 hitem
    have hle := List.le_snd_of_mem_zipIdx he
    simp only [ItemForm.stored]
    omega

namespace Store

variable {s t : Store} {c : Context}

/-- Items that are added are complete, and come behind those that are there. -/
theorem addItems_stored {snapshot : Id} {position : Nat} {pairs : List (Pv × ItemForm)}
    (h : addItems snapshot position pairs s = .ok t) :
    (∀ pair ∈ pairs, pair.2.IsComplete) ∧
      t = { s with items := s.items ++ storedItems snapshot position pairs } := by
  induction pairs generalizing s position with
  | nil =>
    obtain rfl := Except.ok.inj h
    exact ⟨by simp, by simp [storedItems]⟩
  | cons pair pairs ih =>
    obtain ⟨item, hitem, h⟩ := bind_eq_ok_iff.1 h
    obtain ⟨s₁, hinsert, h⟩ := bind_eq_ok_iff.1 h
    obtain ⟨hcomplete, rfl⟩ := itemRecord_eq_ok_iff.1 hitem
    obtain ⟨-, -, rfl⟩ := insertItem_eq_ok_iff.1 hinsert
    obtain ⟨hrest, rfl⟩ := ih h
    refine ⟨List.forall_mem_cons.2 ⟨hcomplete, hrest⟩, ?_⟩
    rw [storedItems_cons]
    simp

/-- Items can be added to a snapshot without items exactly if they are complete, and are stored
behind all others. -/
theorem addItems_eq_ok_iff {snapshot : Id} {pairs : List (Pv × ItemForm)} (hn : s.hasNode snapshot)
    (hpvs : ∀ pair ∈ pairs, (s.pv? pair.1.id).isSome)
    (hnodup : (pairs.map fun pair => pair.1.id).Nodup)
    (hempty : ∀ item ∈ s.items, item.snapshot ≠ snapshot) :
    addItems snapshot 0 pairs s = .ok t ↔
      (∀ pair ∈ pairs, pair.2.IsComplete) ∧
        t = { s with items := s.items ++ storedItems snapshot 0 pairs } := by
  refine ⟨addItems_stored, ?_⟩
  rintro ⟨hcomplete, rfl⟩
  obtain ⟨t, ht⟩ : ∃ t, addItems snapshot 0 pairs s = .ok t :=
    addItems_ok hn (fun pair hpair => ⟨hpvs pair hpair, hcomplete pair hpair⟩) hnodup
      fun item hitem hsame => absurd hsame (hempty item hitem)
  rw [ht, (addItems_stored ht).2]

/-! ### Nodes -/

section

variable {m : Node}

/-- Where there is a node, the new one takes its place. -/
theorem putNode_of_mem {n : Node} (hn : n ∈ s.nodes) (hid : m.id = n.id) :
    s.putNode m = s.replaceNode m := by
  rw [putNode, hid, if_pos (hasNode_of_mem hn)]

/-- Where there is none, the new one comes behind the others. -/
theorem putNode_of_new (h : s.hasNode m.id = false) :
    s.putNode m = { s with nodes := s.nodes ++ [m] } := by
  rw [putNode, h]
  rfl

/-- Putting a node leaves the variables alone. -/
@[simp] theorem putNode_pvs : (s.putNode m).pvs = s.pvs := by
  unfold putNode
  split <;> rfl

/-- Putting a node leaves the tags alone. -/
@[simp] theorem putNode_tags : (s.putNode m).tags = s.tags := by
  unfold putNode
  split <;> rfl

/-- Besides the node that was put there are those with other identifiers. -/
theorem mem_putNode_iff {o : Node} :
    o ∈ (s.putNode m).nodes ↔ o = m ∨ o ∈ s.nodes ∧ o.id ≠ m.id := by
  unfold putNode
  split
  · rename_i h
    simp [mem_replaceNode_iff, h]
  · rename_i h
    have hnew : ∀ o ∈ s.nodes, o.id ≠ m.id := by simpa using h
    rw [List.mem_append, List.mem_singleton, or_comm]
    exact or_congr_right ⟨fun ho => ⟨ho, hnew o ho⟩, And.left⟩

/-- The node that was put is found under its identifier. -/
@[simp] theorem node?_putNode_self : (s.putNode m).node? m.id = some m := by
  unfold putNode
  split
  · rename_i h
    obtain ⟨n, hn, hid⟩ := hasNode_iff.1 h
    have hput : m ∈ (s.replaceNode m).nodes := mem_replaceNode_self hn hid.symm
    cases hfind : (s.replaceNode m).node? m.id with
    | none =>
      have hnone := List.find?_eq_none.1 hfind m hput
      simp at hnone
    | some o =>
      obtain ⟨ho, he⟩ := node?_eq_some hfind
      rcases mem_replaceNode_iff.1 ho with ⟨rfl, -⟩ | ⟨-, hne⟩
      · rfl
      · exact absurd he hne
  · rename_i h
    have hnone : s.nodes.find? (·.id = m.id) = none := by
      simpa [hasNode, node?] using h
    simp [node?, List.find?_append, hnone]

/-- Of two nodes that are put in one place the second counts. -/
theorem replaceNode_putNode {n : Node} (h : n.id = m.id) :
    (s.putNode m).replaceNode n = s.putNode n := by
  unfold putNode
  rw [h]
  split
  · simp only [replaceNode, List.map_map, h]
    congr 1
    refine List.map_congr_left fun o _ => ?_
    rw [Function.comp_apply]
    split <;> simp [*]
  · rename_i hnew
    have hold : ∀ o ∈ s.nodes, o.id ≠ m.id := by simpa using hnew
    simp only [replaceNode, List.map_append, h]
    congr 2
    · refine (List.map_congr_left fun o ho => if_neg (hold o ho)).trans (List.map_id _)
    · simp

/-- A capture into a stored snapshot replaces the snapshot and its items. -/
theorem capture_of_mem {n : Node} (hn : n ∈ s.nodes) (hid : m.id = n.id)
    (pairs : List (Pv × ItemForm)) : s.capture m pairs = { s.replaceNode m with
      items := s.items.filter (·.snapshot ≠ n.id) ++ storedItems n.id 0 pairs } := by
  rw [capture, putNode_of_mem hn hid, hid]

/-- A capture into a new snapshot adds the snapshot and its items. -/
theorem capture_of_new (hs : s.IsOwned) (hid : s.hasNode m.id = false)
    (pairs : List (Pv × ItemForm)) : s.capture m pairs = { s with
      nodes := s.nodes ++ [m], items := s.items ++ storedItems m.id 0 pairs } := by
  have hall : s.items.filter (·.snapshot ≠ m.id) = s.items := by
    refine List.filter_eq_self.2 fun item hitem => decide_eq_true ?_
    exact (hs.ne_of_hasNode_eq_false hid).2.1 item hitem
  rw [capture, putNode_of_new hid, hall]

end

/-! ### Opening the snapshot -/

section

variable {config : Node} {title comment : String} {user : Option String}

/-- A draft that is saved again is revised. -/
theorem savedNode_of_draft {n : Node} (h : s.draft? config.id = some n) (writer : String) :
    s.savedNode c config.id title comment writer =
      n.revised c title (.ofTitle title) comment writer := by
  rw [savedNode, h]

/-- Without a draft a new node is saved. -/
theorem savedNode_of_none (h : s.draft? config.id = none) (writer : String) :
    s.savedNode c config.id title comment writer =
      s.newNode c config.id title (.snapshot (.ofTitle title) comment)
        (Status.ofTitle title = .draft) .empty writer := by
  rw [savedNode, h]

/-- A name is free for a new node exactly if nobody holds it. -/
theorem checkNameFree_none_eq_ok_iff {parent : Option Id} {kind : Kind} {name : String} {u : Unit} :
    s.checkNameFree parent kind name none = .ok u ↔
      ∀ o ∈ s.nodes, ¬holdsName parent kind name o := by
  rw [← sibling?_isNone_iff, Option.isNone_iff_eq_none, Option.eq_none_iff_forall_ne_some,
    checkNameFree_eq_ok_iff]
  exact forall_congr' fun holder => by simp

/-- A draft can be written again exactly if there is an author, and its name is free if that commits
it. -/
theorem reviseDraft_eq_ok_iff (hs : s.IsTree) {n : Node} (hn : n ∈ s.nodes) {status : Status} :
    s.reviseDraft c n title status comment user = .ok t ↔
      (status = .committed → ∀ o ∈ s.nodes, ¬holdsName n.parent .snapshot title o) ∧
      ∃ writer, user = some writer ∧
        t = s.replaceNode (n.revised c title status comment writer) := by
  constructor
  · intro h
    refine ⟨fun hcommitted => ?_, reviseDraft_eq hs hn h⟩
    obtain ⟨_, hfree, -⟩ := ite_bind_eq_ok h
    rw [if_pos hcommitted] at hfree
    exact checkNameFree_none_eq_ok_iff.1 hfree
  · rintro ⟨hfree, writer, rfl, rfl⟩
    refine ite_bind_eq_ok_iff.2 ⟨(), ?_, bind_eq_ok_iff.2 ⟨writer, rfl, ?_⟩⟩
    · split
      · exact checkNameFree_none_eq_ok_iff.2 (hfree ‹_›)
      · rfl
    · refine changeNode_ok hs hn rfl (.inl rfl) fun hd o ho _ => hfree ?_ o ho
      cases status
      · cases hd
      · rfl

/-- A node can be added exactly if it may stand below its parent, its identifier is new, there is an
author, and its name is free unless it is a draft. -/
theorem addNode_eq_ok_iff (hconfig : config ∈ s.nodes) {content : Content} {draft : Bool} :
    s.addNode c (c.fresh 0) config title content draft .empty user = .ok t ↔
      config.kind.mayHold content.kind ∧
      (draft = false → ∀ o ∈ s.nodes, ¬holdsName config.id content.kind title o) ∧
      s.hasNode (c.fresh 0) = false ∧ ∃ writer, user = some writer ∧ t = { s with
        nodes := s.nodes ++ [s.newNode c config.id title content draft .empty writer] } := by
  constructor
  · intro h
    obtain ⟨writer, huser, hnew, hholds, ht⟩ := addNode_eq h
    obtain ⟨-, -, -, -, -, -, -, -, -, hfree⟩ := addNode_eq_ok h
    exact ⟨hholds, hfree, hnew, writer, huser, ht⟩
  · rintro ⟨hholds, hfree, hnew, writer, rfl, rfl⟩
    refine bind_eq_ok_iff.2 ⟨(), demand_eq_ok_iff.2 hholds, ite_bind_eq_ok_iff.2 ⟨(), ?_,
      bind_eq_ok_iff.2 ⟨writer, rfl, insertNode_eq_ok_iff.2 ⟨hnew, ?_, ?_, rfl⟩⟩⟩⟩
    · split
      · rfl
      · exact checkNameFree_none_eq_ok_iff.2 (hfree (Bool.eq_false_iff.2 ‹_›))
    · cases draft with
      | true => exact .inl rfl
      | false => exact .inr (sibling?_isNone_iff.2 (hfree rfl))
    · simpa using ⟨config, hconfig, rfl⟩

/-- A snapshot with a title is committed, and one without is not. -/
theorem ofTitle_eq_committed_iff : Status.ofTitle title = .committed ↔ title ≠ "" := by
  unfold Status.ofTitle
  split <;> simp [*]

/-- What saving opens: the saved node is in the store, and has no items. -/
theorem openSnapshot_eq_ok_iff (hs : s.IsSound) (hconfig : config ∈ s.nodes)
    (hk : config.kind = .configuration) {id : Id} :
    s.openSnapshot c config title (.ofTitle title) comment user = .ok (id, t) ↔
      (title ≠ "" → ∀ o ∈ s.nodes, ¬holdsName config.id .snapshot title o) ∧
      (s.draft? config.id = none → s.hasNode (c.fresh 0) = false) ∧
      ∃ writer, user = some writer ∧ id = (s.savedNode c config.id title comment writer).id ∧
        t = s.capture (s.savedNode c config.id title comment writer) [] := by
  unfold openSnapshot
  cases hdraft : s.draft? config.id with
  | some n =>
    obtain ⟨hn, hp, -⟩ := draft?_eq_some hdraft
    have hcapture (writer : String) : s.capture (s.savedNode c config.id title comment writer) [] =
        (s.replaceNode (n.revised c title (.ofTitle title) comment writer)).removeItemsOf n.id := by
      rw [savedNode_of_draft hdraft,
        capture_of_mem (m := n.revised c title (.ofTitle title) comment writer) hn rfl]
      simp [storedItems, removeItemsOf, replaceNode]
    have hid (writer : String) : (s.savedNode c config.id title comment writer).id = n.id := by
      rw [savedNode_of_draft hdraft]
      rfl
    simp only [bind_eq_ok_iff, reviseDraft_eq_ok_iff hs.tree hn, hcapture, hid, hp,
      ofTitle_eq_committed_iff]
    constructor
    · rintro ⟨s₁, ⟨hfree, writer, rfl, rfl⟩, h⟩
      obtain ⟨rfl, rfl⟩ := Prod.mk.inj (Except.ok.inj h)
      exact ⟨hfree, fun hnone => absurd hnone (Option.some_ne_none n), writer, rfl, rfl, rfl⟩
    · rintro ⟨hfree, -, writer, rfl, rfl, rfl⟩
      exact ⟨_, ⟨hfree, writer, rfl, rfl⟩, rfl⟩
  | none =>
    have hd : decide (Status.ofTitle title = .draft) = false ↔ title ≠ "" := by
      rw [decide_eq_false_iff_not, Status.ofTitle_eq_draft_iff]
    have hcapture (hnew : s.hasNode (c.fresh 0) = false) (writer : String) :
        s.capture (s.savedNode c config.id title comment writer) [] = { s with
          nodes := s.nodes ++ [s.savedNode c config.id title comment writer] } := by
      rw [savedNode_of_none hdraft, capture_of_new hs.owned hnew]
      simp [storedItems]
    simp only [bind_eq_ok_iff, addNode_eq_ok_iff hconfig, hd, Content.kind, hk]
    constructor
    · rintro ⟨s₁, ⟨-, hfree, hnew, writer, rfl, rfl⟩, h⟩
      obtain ⟨rfl, rfl⟩ := Prod.mk.inj (Except.ok.inj h)
      refine ⟨hfree, fun _ => hnew, writer, rfl, ?_, ?_⟩
      · rw [savedNode_of_none hdraft]
        rfl
      · rw [hcapture hnew, savedNode_of_none hdraft]
    · rintro ⟨hfree, hnew, writer, rfl, rfl, rfl⟩
      refine ⟨_, ⟨rfl, hfree, hnew trivial, writer, rfl, rfl⟩, ?_⟩
      rw [hcapture (hnew trivial), savedNode_of_none hdraft]
      rfl

end

end Store

/-! ### Saving -/

section

variable {c : Context} {s s' : Store} {config : Id} {items : List ItemForm}
  {name comment user : Option String} {title note : String} {found : Snapshot}

/-- The name of a snapshot is checked if it is not empty. -/
theorem checkedTitle_eq_ok_iff {given : String} :
    (if Status.ofTitle (strip given) = .committed then checkName "Snapshot" (strip given)
      else .ok (strip given)) = .ok title ↔
      title = strip given ∧ (title ≠ "" → IsName title) := by
  split
  · rename_i h
    rw [checkName_eq_ok_iff, Option.getD_some, strip_strip]
    refine and_congr_right fun he => ?_
    rw [ofTitle_eq_committed_iff, ← he] at h
    simp [h]
  · rename_i h
    rw [ofTitle_eq_committed_iff, not_not] at h
    rw [Except.ok.injEq, eq_comm]
    refine ⟨fun he => ⟨he, fun hne => absurd (he.trans h) hne⟩, And.left⟩

/-- Filling the saved snapshot with items and reading it back. -/
theorem fill_eq_ok_iff {m : Node} (hs : s.IsOwned) (hk : m.kind = .snapshot)
    {pairs : List (Pv × ItemForm)} (hpairs : s.pairItems config items = .ok pairs) :
    (do
      let t ← addItems m.id 0 pairs (s.capture m [])
      return (← t.snapshot m.id, t)) = Except.ok (found, s') ↔
      (∀ pair ∈ pairs, pair.2.IsComplete) ∧ s' = s.capture m pairs ∧
        found = ⟨m, s'.readings m.id⟩ := by
  have hnode : (s.capture m pairs).node? m.id = some m := node?_putNode_self
  have hfill : ∀ {t}, addItems m.id 0 pairs (s.capture m []) = .ok t ↔
      (∀ pair ∈ pairs, pair.2.IsComplete) ∧ t = s.capture m pairs := by
    intro t
    rw [addItems_eq_ok_iff]
    · simp [capture, storedItems]
    · exact hasNode_iff.2 ⟨m, mem_putNode_iff.2 (.inl rfl), rfl⟩
    · intro pair hpair
      have hmem := (pairItems_mem hpairs pair hpair).1
      exact List.find?_isSome.2 ⟨pair.1, by simpa [capture] using hmem, by simp⟩
    · exact pairItems_nodup hs hpairs
    · simp [capture, storedItems]
  simp only [bind_eq_ok_iff, hfill, snapshot_eq_ok_iff, pure, Except.pure, Except.ok.injEq,
    Prod.mk.injEq]
  constructor
  · rintro ⟨t, ⟨hcomplete, rfl⟩, read, ⟨n, hn, -, rfl⟩, rfl, rfl⟩
    obtain rfl := Option.some.inj (hnode.symm.trans hn)
    exact ⟨hcomplete, rfl, rfl⟩
  · rintro ⟨hcomplete, rfl, rfl⟩
    exact ⟨_, ⟨hcomplete, rfl⟩, _, ⟨m, hnode, hk, rfl⟩, rfl, rfl⟩

/-- What is saved is a snapshot. -/
theorem kind_savedNode (writer : String) :
    (s.savedNode c config title note writer).kind = .snapshot := by
  unfold savedNode
  split <;> rfl

/-- When saving captured items succeeds, and what it leaves. -/
theorem saveSnapshot_eq_ok_iff (hs : s.IsSound) (s₀ : Store)
    (htitle : strip (name.getD "") = title) (hnote : strip (comment.getD "") = note) :
    (∃ t, saveSnapshot c config items name comment user s₀ = .ok t ∧ t s = .ok (found, s')) ↔
      (title = "" ↔ note = "") ∧ (title ≠ "" → IsName title) ∧
      ∃ pairs writer, s.MaySave c config title items pairs ∧ user = some writer ∧
        s' = s.capture (s.savedNode c config title note writer) pairs ∧
        found = ⟨s.savedNode c config title note writer,
          s'.readings (s.savedNode c config title note writer).id⟩ := by
  subst htitle hnote
  constructor
  · rintro ⟨t, hplan, ht⟩
    obtain ⟨hboth, hplan⟩ := demand_bind_eq_ok_iff.1 hplan
    obtain ⟨checked, hchecked, hplan⟩ := ite_bind_eq_ok hplan
    obtain rfl := Except.ok.inj hplan
    obtain ⟨rfl, hname⟩ := checkedTitle_eq_ok_iff.1 hchecked
    obtain ⟨node, hnode, ht⟩ := bind_eq_ok_iff.1 ht
    obtain ⟨pairs, hpairs, ht⟩ := bind_eq_ok_iff.1 ht
    obtain ⟨⟨id, s₁⟩, hopen, ht⟩ := bind_eq_ok_iff.1 ht
    obtain ⟨hfind, hk⟩ := requireToWrite_eq_ok_iff.1 hnode
    obtain ⟨hmem, rfl⟩ := node?_eq_some hfind
    obtain ⟨hfree, hnew, writer, rfl, rfl, rfl⟩ :=
      (openSnapshot_eq_ok_iff hs hmem hk).1 hopen
    dsimp only at ht
    split at ht
    · cases ht
    · rename_i hstorable
      obtain ⟨hcomplete, hs', hfound⟩ :=
        (fill_eq_ok_iff hs.owned (kind_savedNode writer) hpairs).1 ht
      refine ⟨hboth, hname, pairs, writer, ⟨⟨node, hfind, hk⟩, hpairs, fun pair hpair => ?_,
        hcomplete, hfree, hnew⟩, rfl, hs', hfound⟩
      simpa using List.find?_eq_none.1 hstorable pair hpair
  · rintro ⟨hboth, hname, pairs, writer, hsave, rfl, hs', hfound⟩
    obtain ⟨node, hfind, hk⟩ := hsave.found
    obtain ⟨hmem, rfl⟩ := node?_eq_some hfind
    refine ⟨_, demand_bind_eq_ok_iff.2 ⟨hboth, ite_bind_eq_ok_iff.2
      ⟨_, checkedTitle_eq_ok_iff.2 ⟨rfl, hname⟩, rfl⟩⟩, ?_⟩
    refine bind_eq_ok_iff.2 ⟨node, requireToWrite_eq_ok_iff.2 ⟨hfind, hk⟩,
      bind_eq_ok_iff.2 ⟨pairs, hsave.paired, bind_eq_ok_iff.2 ⟨_,
        (openSnapshot_eq_ok_iff hs hmem hk).2 ⟨hsave.free, hsave.new, writer, rfl, rfl, rfl⟩, ?_⟩⟩⟩
    have hstorable : pairs.find? (fun pair => !pair.2.isStorable) = none :=
      List.find?_eq_none.2 fun pair hpair => by simp [hsave.storable pair hpair]
    dsimp only
    rw [hstorable]
    exact (fill_eq_ok_iff hs.owned (kind_savedNode writer) hsave.paired).2
      ⟨hsave.complete, hs', hfound⟩

end

end SnapshotArchive
