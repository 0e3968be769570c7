import SnapshotArchive.Operation
import SnapshotArchive.Proofs.Locality.Copies
import SnapshotArchive.Proofs.Moving

/-!
# Operations inside a region

An operation on nodes of a region does the same to two stores that agree in it, with identifiers of
the region for what it makes: it fails in both with the same failure, or gives the same answer in
both and leaves two stores that agree.

* `Region.Agree.checkRelocation_eq` : the checks of selections.
* `Region.Agree.updateNode`, … : one lemma for each operation.
-/

namespace SnapshotArchive

open Text Store

/-- A write with nobody at work between its plan and its transaction. -/
def Write.alone {α : Type} (w : Write α) : Transaction α := fun s => do
  let t ← w s
  t s

/-- What follows a step need only agree on what the step gives. -/
theorem bind_congr_of_ok {α β : Type} {x : Except Failure α} {f g : α → Except Failure β}
    (h : ∀ a, x = .ok a → f a = g a) : x >>= f = x >>= g := by
  cases x with
  | error e => rfl
  | ok a => exact h a rfl

namespace Region

namespace Agree

variable {g : Region} {u v s t : Store} (h : g.Agree u v s t) {c : Context}

include h

/-! ### The top and the nodes below it -/

/-- Whether a name is free beside a node of the region is alike, but beside its top. -/
theorem checkNameFree_eq_of_ne {n : Node} (hn : n ∈ s.nodes) (hid : g.Holds n.id)
    (hne : n.id ≠ g.top) (k : Kind) (name : String) (self : Option Id) :
    s.checkNameFree n.parent k name self = t.checkNameFree n.parent k name self := by
  obtain ⟨p, hp, hholds⟩ := h.parents n hn hid hne
  rw [hp, h.checkNameFree_eq hholds]

/-- A node gets a name, which for the top is the one that it has. -/
theorem changeName (hs : s.IsNamed) (ht : t.IsNamed) {n : Node} (hn : s.node? n.id = some n)
    (hid : g.Holds n.id) {f : Node → Node} (hfid : ∀ m, (f m).id = m.id)
    (hparent : ∀ m, (f m).parent = m.parent) (hk : (f n).kind = n.kind)
    (hd : (f n).draft = n.draft) (hname : n.id = g.top → (f n).name = n.name) :
    Both (g.Agree u v) (s.changeNode n.id f) (t.changeNode n.id f) := by
  refine h.changeNode hid hfid (fun m => .inl (hparent m)) ?_
  by_cases htop : n.id = g.top
  · refine .inr ⟨hs, ht, fun m hm => ?_⟩
    obtain rfl := Option.some.inj (hn.symm.trans hm)
    exact ⟨hk, hname htop, hd⟩
  · exact .inl htop

omit h in
/-- A snapshot is not the top, which is a folder or a configuration. -/
theorem ne_top_of_snapshot {r : Node} (hr : s.node? g.top = some r) (hk : r.kind ≠ .snapshot)
    {id : Id} {n : Node} (hn : s.node? id = some n) (hsnapshot : n.kind = .snapshot) :
    id ≠ g.top := by
  rintro rfl
  obtain rfl := Option.some.inj (hr.symm.trans hn)
  exact hk hsnapshot

/-! ### Nodes -/

/-- Creating a node in the region is alike in both stores. -/
theorem createNode (hc : g.Supplies c) {parent : Id} (hp : g.Holds parent) (form : NodeForm)
    (user : Option String) :
    Both (g.Same u v) ((createNode c parent form user).alone s)
      ((SnapshotArchive.createNode c parent form user).alone t) := by
  refine .bind_same fun f hf => ?_
  obtain ⟨-, hf⟩ := demand_bind_eq_ok_iff.1 hf
  obtain ⟨name, -, hf⟩ := bind_eq_ok_iff.1 hf
  obtain rfl := Except.ok.inj hf
  dsimp only
  rw [← h.require_eq hp]
  refine .bind_same fun p hfound => ?_
  obtain ⟨-, rfl⟩ := node?_eq_some (require_eq_ok_iff.1 hfound)
  exact .bind (h.addNode c (hc.holds 0) (hc.ne_top 0) hp _ _ _ _ _)
    fun _ _ _ _ hadded => hadded.answerNode (hc.holds 0)

/-- So is updating a node of the region, if the top keeps its name. -/
theorem updateNode (hs : s.IsNamed) (ht : t.IsNamed) {form : NodeForm} (hid : g.Holds form.id)
    {r : Node} (hr : s.node? g.top = some r)
    (hname : form.id = g.top → ∀ name, checkName "Node" form.name = .ok name → name = r.name)
    (keepTime : Bool) :
    Both (g.Same u v) ((updateNode c form keepTime).alone s)
      ((SnapshotArchive.updateNode c form keepTime).alone t) := by
  refine .bind_same fun f hf => ?_
  obtain ⟨name, hcheck, hf⟩ := bind_eq_ok_iff.1 hf
  obtain rfl := Except.ok.inj hf
  dsimp only
  rw [← h.require_eq hid]
  refine .bind_same fun n hfound => ?_
  have hfound := require_eq_ok_iff.1 hfound
  obtain ⟨hn, he⟩ := node?_eq_some hfound
  rw [← he] at hfound hid hname
  have hkeeps : n.id = g.top → name = n.name := fun htop => by
    obtain rfl := Option.some.inj (hr.symm.trans (htop ▸ hfound))
    exact hname htop name hcheck
  refine .bind_same fun _ _ => .bind_same fun _ _ => .bind_same fun _ _ => .bind_same fun _ _ => ?_
  refine .ite (fun _ => .bind_same fun _ _ => ?_) fun hother => ?_
  · exact .bind (h.changeName hs ht hfound hid (fun _ => rfl) (fun _ => rfl) rfl rfl hkeeps)
      fun _ _ _ _ hchanged => hchanged.answerNode hid
  · rw [← h.checkNameFree_eq_of_ne hn hid fun htop => hother (.inl (hkeeps htop))]
    refine .bind_same fun _ _ => ?_
    exact .bind (h.changeName hs ht hfound hid (fun _ => rfl) (fun _ => rfl) rfl rfl hkeeps)
      fun _ _ _ _ hchanged => hchanged.answerNode hid

/-- So is deleting a subtree of the region. -/
theorem removeSubtree (hs : s.IsTree) (ht : t.IsTree) {n : Node} (hid : g.Holds n.id) :
    Both (g.Same u v) (s.removeSubtree n) (t.removeSubtree n) := by
  unfold Store.removeSubtree subtreeIds
  rw [h.subtree_eq hs ht hid]
  refine .bind_same fun _ _ => .ok ⟨rfl, h.removeNodes fun id hmem => ?_⟩
  obtain ⟨m, hm, rfl⟩ := List.mem_map.1 hmem
  exact h.symm.holds_of_mem_subtree hid hm

/-- So is deleting a node of the region. -/
theorem deleteNode (hs : s.IsTree) (ht : t.IsTree) {id : Id} (hid : g.Holds id) :
    Both (g.Same u v) ((deleteNode id).alone s) ((SnapshotArchive.deleteNode id).alone t) := by
  refine .bind_same fun f hf => ?_
  obtain rfl := Except.ok.inj hf
  dsimp only
  rw [h.require_eq hid]
  refine .bind_same fun n hfound => ?_
  obtain ⟨-, rfl⟩ := node?_eq_some (require_eq_ok_iff.1 hfound)
  exact h.removeSubtree hs ht hid

/-! ### Configurations -/

/-- So is adding variables to a configuration of the region. -/
theorem addPvs (hc : g.Supplies c) {config : Id} (hid : g.Holds config) (pvs : List PvForm)
    (position : Nat) :
    Both (g.Agree u v) (s.addPvs c config position pvs) (t.addPvs c config position pvs) := by
  induction pvs generalizing s t position with
  | nil => exact .ok h
  | cons pv pvs ih =>
    exact .bind (h.insertPv hid (hc.owns _)) fun _ _ _ _ hadded => ih hadded _

/-- So is creating a configuration in the region. -/
theorem createConfiguration (hc : g.Supplies c) {parent : Id} (hp : g.Holds parent)
    (form : ConfigurationForm) (user : Option String) :
    Both (g.Same u v) ((createConfiguration c parent form user).alone s)
      ((SnapshotArchive.createConfiguration c parent form user).alone t) := by
  refine .bind_same fun f hf => ?_
  obtain ⟨name, -, hf⟩ := bind_eq_ok_iff.1 hf
  obtain ⟨pvs, -, hf⟩ := bind_eq_ok_iff.1 hf
  obtain rfl := Except.ok.inj hf
  dsimp only
  rw [← h.require_eq hp]
  refine .bind_same fun p hfound => ?_
  obtain ⟨-, rfl⟩ := node?_eq_some (require_eq_ok_iff.1 hfound)
  refine .bind (h.addNode c (hc.holds 0) (hc.ne_top 0) hp _ _ _ _ _) fun _ _ _ _ hadded => ?_
  refine .bind (hadded.addPvs hc (hc.holds 0) pvs 0) fun _ _ _ _ hfilled => ?_
  rw [hfilled.configuration_eq (hc.holds 0)]
  exact .bind_same fun _ _ => .ok ⟨rfl, hfilled⟩

/-- So is bringing a list into a configuration of the region. -/
theorem listPvs {old old' : Store} (hold : g.Agree u v old old') (hc : g.Supplies c) {config : Id}
    (hid : g.Holds config) (pvs : List PvForm) (position used : Nat) :
    Both (g.Agree u v) (old.listPvs c config position used pvs s)
      (old'.listPvs c config position used pvs t) := by
  induction pvs generalizing s t position used with
  | nil => exact .ok h
  | cons pv pvs ih =>
    rw [Store.listPvs, Store.listPvs, ← hold.keptPv?_eq hid]
    cases hkept : old.keptPv? config pv.cleanName with
    | some kept =>
      obtain ⟨hmem, hconfig⟩ := mem_of_keptPv? hkept
      have hown : g.Owns kept.id := hold.ownPvs kept hmem (hconfig ▸ hid)
      exact .bind (h.changePv hown (fun _ => rfl) fun _ => rfl) fun _ _ _ _ hchanged =>
        ih hchanged _ _
    | none =>
      exact .bind (h.insertPv hid (hc.owns _)) fun _ _ _ _ hadded => ih hadded _ _

/-- So is replacing the list of a configuration of the region. -/
theorem replacePvs (hc : g.Supplies c) {config : Id} (hid : g.Holds config) (pvs : List PvForm) :
    Both (g.Agree u v) (s.replacePvs c config pvs) (t.replacePvs c config pvs) := by
  unfold Store.replacePvs
  rw [← h.activePvs_eq hid]
  refine .bind (h.listPvs h hc hid pvs 0 0) fun _ _ _ _ hlisted => .ok ?_
  refine hlisted.foldl fun pv hpv _ _ hagree => hagree.unlistPv ?_
  obtain ⟨hmem, he, -⟩ := mem_activePvs_iff.1 (List.mem_filter.1 hpv).1
  exact h.ownPvs pv hmem (he ▸ hid)

/-- So is updating a configuration of the region, if the top keeps its name. -/
theorem updateConfiguration (hs : s.IsNamed) (ht : t.IsNamed) (hc : g.Supplies c)
    {form : ConfigurationForm} (hid : g.Holds form.node.id) {r : Node} (hr : s.node? g.top = some r)
    (hname : form.node.id = g.top → ∀ name, checkName "Configuration" form.node.name = .ok name →
      name = r.name) (user : Option String) :
    Both (g.Same u v) ((updateConfiguration c form user).alone s)
      ((SnapshotArchive.updateConfiguration c form user).alone t) := by
  refine .bind_same fun f hf => ?_
  obtain ⟨name, hcheck, hf⟩ := bind_eq_ok_iff.1 hf
  obtain ⟨pvs, -, hf⟩ := bind_eq_ok_iff.1 hf
  obtain rfl := Except.ok.inj hf
  dsimp only
  rw [← h.requireToWrite_eq hid]
  refine .bind_same fun n hfound => ?_
  obtain ⟨hfound, hk⟩ := requireToWrite_eq_ok_iff.1 hfound
  obtain ⟨hn, he⟩ := node?_eq_some hfound
  rw [← he] at hfound hid hname
  have hkeeps : n.id = g.top → name = n.name := fun htop => by
    obtain rfl := Option.some.inj (hr.symm.trans (htop ▸ hfound))
    exact hname htop name hcheck
  have hrest : ∀ {a b : Store}, g.Agree u v a b →
      Both (g.Same u v)
        (do
          let a ← a.replacePvs c n.id pvs
          return (← a.configuration n.id, a))
        (do
          let b ← b.replacePvs c n.id pvs
          return (← b.configuration n.id, b)) := by
    intro a b hchanged
    refine .bind (hchanged.replacePvs hc hid pvs) fun _ _ _ _ hreplaced => ?_
    rw [hreplaced.configuration_eq hid]
    exact .bind_same fun _ _ => .ok ⟨rfl, hreplaced⟩
  refine .bind_same fun _ _ => .ite (fun _ => .bind_same fun _ _ => ?_) fun hother => ?_
  · exact .bind (h.changeName hs ht hfound hid (fun _ => rfl) (fun _ => rfl)
      (form.isConfiguration.trans hk.symm) rfl hkeeps) fun _ _ _ _ => hrest
  · rw [← h.checkNameFree_eq_of_ne hn hid fun htop => hother (hkeeps htop)]
    refine .bind_same fun _ _ => ?_
    exact .bind (h.changeName hs ht hfound hid (fun _ => rfl) (fun _ => rfl)
      (form.isConfiguration.trans hk.symm) rfl hkeeps) fun _ _ _ _ => hrest

/-- So is renaming a variable of the region. -/
theorem renamePv {config : Id} (hid : g.Holds config) (old new user : Option String) :
    Both (g.Same u v) ((renamePv c config old new user).alone s)
      ((SnapshotArchive.renamePv c config old new user).alone t) := by
  refine .bind_same fun f hf => ?_
  obtain ⟨-, hf⟩ := demand_bind_eq_ok_iff.1 hf
  obtain rfl := Except.ok.inj hf
  dsimp only
  rw [← h.requireToWrite_eq hid, ← funext (h.activePv?_eq hid)]
  refine .bind_same fun _ _ => ?_
  cases hfound : old.bind (s.activePv? config) with
  | none => exact .error _
  | some pv =>
    obtain ⟨name, -, hactive⟩ := Option.bind_eq_some_iff.1 hfound
    obtain ⟨hpv, he, -⟩ := activePv?_eq_some hactive
    have hown : g.Owns pv.id := h.ownPvs pv hpv (he ▸ hid)
    refine .bind_same fun _ _ => ?_
    refine .bind (h.changePv hown (fun _ => rfl) fun _ => rfl) fun _ _ _ _ hchanged => ?_
    refine .bind (hchanged.touch c hid user) fun a b _ _ htouched => ?_
    rw [← htouched.activePvs_eq hid]
    cases (a.activePvs config).find? (·.id = pv.id) with
    | none => exact .error _
    | some renamed => exact .ok ⟨rfl, htouched⟩

/-! ### Snapshots -/

/-- So is revising a draft of the region. -/
theorem reviseDraft {n : Node} (hn : n ∈ s.nodes) (hid : g.Holds n.id) (hne : n.id ≠ g.top)
    (name : String) (status : Status) (comment : String) (user : Option String) :
    Both (g.Agree u v) (s.reviseDraft c n name status comment user)
      (t.reviseDraft c n name status comment user) := by
  unfold Store.reviseDraft
  rw [← h.checkNameFree_eq_of_ne hn hid hne]
  have hchange : ∀ {f : Node → Node}, (∀ m, (f m).id = m.id) → (∀ m, (f m).parent = m.parent) →
      Both (g.Agree u v) (s.changeNode n.id f) (t.changeNode n.id f) := fun hfid hparent =>
    h.changeNode hid hfid (fun m => .inl (hparent m)) (.inl hne)
  refine .ite (fun _ => .bind_same fun _ _ => ?_) fun _ => .bind_same fun _ _ => ?_
  · exact .bind_same fun _ _ => hchange (fun _ => rfl) fun _ => rfl
  · exact .bind_same fun _ _ => hchange (fun _ => rfl) fun _ => rfl

/-- The draft that is written over lies below the configuration, and a new one is put there. -/
theorem openSnapshot (hs : s.IsTree) {r : Node} (hr : s.node? g.top = some r)
    (hk : r.kind ≠ .snapshot) (hc : g.Supplies c) {config : Node} (hid : g.Holds config.id)
    (name : String) (status : Status) (comment : String) (user : Option String) :
    Both (fun a b => g.Same u v a b ∧ g.Holds a.1)
      (s.openSnapshot c config name status comment user)
      (t.openSnapshot c config name status comment user) := by
  unfold Store.openSnapshot
  rw [← h.draft?_eq hid]
  cases hdraft : s.draft? config.id with
  | some draft =>
    obtain ⟨hn, hp, hsnapshot, -⟩ := draft?_eq_some hdraft
    have hholds := h.holds_of_mem_children hid (mem_children_iff.2 ⟨hn, hp⟩)
    have hne := ne_top_of_snapshot hr hk (node?_of_mem hs.nodup hn) hsnapshot
    exact .bind (h.reviseDraft hn hholds hne name status comment user) fun _ _ _ _ hrevised =>
      .ok ⟨⟨rfl, hrevised.removeItemsOf hholds⟩, hholds⟩
  | none =>
    exact .bind (h.addNode c (hc.holds 0) (hc.ne_top 0) hid _ _ _ _ _) fun _ _ _ _ hadded =>
      .ok ⟨⟨rfl, hadded⟩, hc.holds 0⟩

/-- So is adding items to a snapshot of the region. -/
theorem addItems {snapshot : Id} (hid : g.Holds snapshot) {pairs : List (Pv × ItemForm)}
    (hpairs : ∀ pair ∈ pairs, g.Owns pair.1.id) (position : Nat) :
    Both (g.Agree u v) (Store.addItems snapshot position pairs s)
      (Store.addItems snapshot position pairs t) := by
  induction pairs generalizing s t position with
  | nil => exact .ok h
  | cons pair pairs ih =>
    refine .bind_same fun item hitem => ?_
    obtain ⟨hsnapshot, hpv⟩ := itemRecord_eq_ok hitem
    have hown : g.Owns item.pv := hpv ▸ hpairs pair List.mem_cons_self
    exact .bind (h.insertItem (hsnapshot ▸ hid) hown) fun _ _ _ _ hadded =>
      ih hadded (fun q hq => hpairs q (List.mem_cons_of_mem _ hq)) _

/-- So is saving a snapshot of a configuration of the region. -/
theorem saveSnapshot (hs : s.IsTree) {r : Node} (hr : s.node? g.top = some r)
    (hk : r.kind ≠ .snapshot) (hc : g.Supplies c) {config : Id} (hid : g.Holds config)
    (items : List ItemForm) (name comment user : Option String) :
    Both (g.Same u v) ((saveSnapshot c config items name comment user).alone s)
      ((SnapshotArchive.saveSnapshot c config items name comment user).alone t) := by
  refine .bind_same fun f hf => ?_
  obtain ⟨-, hf⟩ := demand_bind_eq_ok_iff.1 hf
  obtain ⟨title, -, hf⟩ := ite_bind_eq_ok hf
  obtain rfl := Except.ok.inj hf
  dsimp only
  have hpairItems : s.pairItems config items = t.pairItems config items := by
    rw [pairItems, h.activePvs_eq hid, pairItems]
  rw [← h.requireToWrite_eq hid, ← hpairItems]
  refine .bind_same fun n hfound => .bind_same fun pairs hpairs => ?_
  obtain ⟨-, rfl⟩ := node?_eq_some (requireToWrite_eq_ok_iff.1 hfound).1
  have hown : ∀ pair ∈ pairs, g.Owns pair.1.id := fun pair hpair =>
    have ⟨hpv, he⟩ := pairItems_mem hpairs pair hpair
    h.ownPvs pair.1 hpv (he ▸ hid)
  refine .bind (h.openSnapshot hs hr hk hc hid title _ _ user) ?_
  rintro ⟨id, a⟩ ⟨_, b⟩ - - ⟨⟨rfl, hopened⟩, hholds⟩
  dsimp only
  cases pairs.find? fun pair => !pair.2.isStorable with
  | some pair => exact .error _
  | none =>
    refine .bind (hopened.addItems hholds hown 0) fun _ _ _ _ hadded => ?_
    rw [hadded.snapshot_eq hholds]
    exact .bind_same fun _ _ => .ok ⟨rfl, hadded⟩

/-- So is committing a draft of the region. -/
theorem commitSnapshot {r : Node} (hr : s.node? g.top = some r) (hk : r.kind ≠ .snapshot) {id : Id}
    (hid : g.Holds id) (name comment user : Option String) :
    Both (g.Same u v) ((commitSnapshot c id name comment user).alone s)
      ((SnapshotArchive.commitSnapshot c id name comment user).alone t) := by
  refine .bind_same fun f hf => ?_
  obtain ⟨title, -, hf⟩ := bind_eq_ok_iff.1 hf
  obtain ⟨-, hf⟩ := demand_bind_eq_ok_iff.1 hf
  obtain rfl := Except.ok.inj hf
  dsimp only
  rw [← h.requireToWrite_eq hid]
  refine .bind_same fun n hfound => .bind_same fun _ _ => ?_
  obtain ⟨hfound, hsnapshot⟩ := requireToWrite_eq_ok_iff.1 hfound
  have hne := ne_top_of_snapshot hr hk hfound hsnapshot
  obtain ⟨hn, rfl⟩ := node?_eq_some hfound
  exact .bind (h.reviseDraft hn hid hne title .committed _ user) fun _ _ _ _ hrevised =>
    hrevised.answerNode hid

/-- So is setting or clearing the golden mark of a node of the region. -/
theorem setGolden {id : Id} (hid : g.Holds id) (golden : Bool) :
    g.Agree u v (s.setGolden c id golden) (t.setGolden c id golden) :=
  h.mapNode hid (fun _ => rfl) fun _ => .inl rfl

/-- So is marking a snapshot of the region as golden. -/
theorem markGolden {r : Node} (hr : s.node? g.top = some r) (hk : r.kind ≠ .snapshot) {id : Id}
    (hid : g.Holds id) (exclusive golden : Bool) :
    Both (g.Same u v) ((markGolden c exclusive id golden).alone s)
      ((SnapshotArchive.markGolden c exclusive id golden).alone t) := by
  refine .bind_same fun f hf => ?_
  obtain rfl := Except.ok.inj hf
  dsimp only
  rw [← h.requireToWrite_eq hid]
  refine .bind_same fun n hfound => .bind_same fun _ _ => ?_
  obtain ⟨hfound, hsnapshot⟩ := requireToWrite_eq_ok_iff.1 hfound
  have hne := ne_top_of_snapshot hr hk hfound hsnapshot
  obtain ⟨hn, rfl⟩ := node?_eq_some hfound
  obtain ⟨p, hp, hholds⟩ := h.parents n hn hid hne
  rw [← h.goldenSiblings_eq hp hholds]
  have hcleared : ∀ m ∈ if golden && exclusive then s.goldenSiblings n else [],
      ∀ s t, g.Agree u v s t →
        g.Agree u v (s.setGolden c m.id false) (t.setGolden c m.id false) := by
    refine fun m hm _ _ hagree => hagree.setGolden ?_ false
    split at hm
    · obtain ⟨hmem, hm⟩ := List.mem_filter.1 hm
      simp only [Bool.and_eq_true, decide_eq_true_eq] at hm
      exact h.holds_of_mem_children hholds (mem_children_iff.2 ⟨hmem, hm.1.1.1.2.trans hp⟩)
    · cases hm
  exact ((h.foldl hcleared).setGolden hid golden).answerNode hid

/-! ### Tags -/

/-- So is adding a tag to a snapshot of the region. -/
theorem addTag {id : Id} (hid : g.Holds id) (form : TagForm) :
    Both (g.Same u v) ((addTag c id form).alone s)
      ((SnapshotArchive.addTag c id form).alone t) := by
  refine .bind_same fun f hf => ?_
  obtain ⟨-, hf⟩ := demand_bind_eq_ok_iff.1 hf
  obtain rfl := Except.ok.inj hf
  dsimp only
  rw [← h.requireToWrite_eq hid]
  refine .bind_same fun n hfound => .bind_same fun _ _ => ?_
  obtain ⟨-, rfl⟩ := node?_eq_some (requireToWrite_eq_ok_iff.1 hfound).1
  rw [h.all_tags_eq hid]
  refine .bind_same fun _ _ => .bind_same fun _ _ => ?_
  refine .bind (h.insertTag hid) fun _ _ _ _ hadded => .ok ⟨hadded.tagsOf_eq hid, hadded⟩

/-- So is removing a tag from a snapshot of the region. -/
theorem removeTag {id : Id} (hid : g.Holds id) (form : TagForm) :
    Both (g.Same u v) ((removeTag id form).alone s)
      ((SnapshotArchive.removeTag id form).alone t) := by
  refine .bind_same fun f hf => ?_
  obtain ⟨-, hf⟩ := demand_bind_eq_ok_iff.1 hf
  obtain rfl := Except.ok.inj hf
  dsimp only
  have hany : s.tags.any (fun tag => tag.snapshot = id && some tag.name = form.name) =
      t.tags.any fun tag => tag.snapshot = id && some tag.name = form.name := by
    refine h.tags.any_eq (fun tag htag => ?_) fun tag htag => ?_
    · simp [h.tags.ne_left hid tag htag]
    · simp [h.tags.ne_right hid tag htag]
  rw [← h.requireToRead_eq hid, hany]
  have hremoved := h.removeTagOf hid (form.name.getD "")
  exact .bind_same fun _ _ => .bind_same fun _ _ => .ok ⟨hremoved.tagsOf_eq hid, hremoved⟩

/-! ### Selections -/

/-- Nodes of the region are found in both stores alike. -/
theorem requireAll_eq {ids : List Id} (hids : ∀ id ∈ ids, g.Holds id) :
    s.requireAll ids = t.requireAll ids := by
  induction ids with
  | nil => rfl
  | cons id ids ih =>
    rw [requireAll, requireAll, h.require_eq (hids id List.mem_cons_self),
      ih fun x hx => hids x (List.mem_cons_of_mem _ hx)]

/-- They are selected in both alike. -/
theorem checkSelection_eq {ids : List Id} (hids : ∀ id ∈ ids, g.Holds id) :
    s.checkSelection ids = t.checkSelection ids := by
  rw [checkSelection, h.requireAll_eq hids, checkSelection]

/-- What is in the way in a folder of the region is alike in both. -/
theorem obstacle?_eq {target : Id} (htarget : g.Holds target) (inPlace : Bool) :
    s.obstacle? target inPlace = t.obstacle? target inPlace := by
  funext n
  rw [obstacle?, h.sibling?_eq htarget, obstacle?]

/-- Which nodes of the region are ancestors of one there is alike in both. -/
theorem mem_ancestorIds_iff (hs : s.IsTree) (ht : t.IsTree) {n : Node} (hn : n ∈ s.nodes)
    (hid : g.Holds n.id) {x : Id} (hx : g.Holds x) :
    x ∈ s.ancestorIds n.id ↔ x ∈ t.ancestorIds n.id := by
  rw [hs.mem_ancestorIds_iff hn, ht.mem_ancestorIds_iff ((h.nodes.mem_iff hid).1 hn),
    h.leadsTo_iff hx]

/-- Whether nodes of the region may go into a folder of it is alike in both. -/
theorem checkRelocation_eq (hs : s.IsTree) (ht : t.IsTree) {ids : List Id} {target : Id}
    (hids : ∀ id ∈ ids, g.Holds id) (htarget : g.Holds target) (inPlace byName : Bool) :
    s.checkRelocation ids target inPlace byName = t.checkRelocation ids target inPlace byName := by
  unfold checkRelocation
  rw [← h.checkSelection_eq hids, ← h.require_eq htarget, h.obstacle?_eq htarget]
  refine bind_congr_of_ok fun nodes hsel => bind_congr fun _ => bind_congr_of_ok fun n hfound =>
    bind_congr fun _ => ?_
  obtain ⟨hn, rfl⟩ := node?_eq_some (require_eq_ok_iff.1 hfound)
  have hcycle : nodes.find? (fun m => m.id ∈ s.ancestorIds n.id) =
      nodes.find? fun m => m.id ∈ t.ancestorIds n.id := by
    rw [← List.head?_filter, ← List.head?_filter]
    refine congrArg List.head? (List.filter_congr fun m hm => ?_)
    have hmem : m.id ∈ ids := (checkSelection_eq_ok_iff.1 hsel).id_mem hm
    simp only [h.mem_ancestorIds_iff hs ht hn htarget (hids _ hmem)]
  dsimp only
  rw [hcycle]

/-- Giving nodes of the region a parent in it is alike in both. -/
theorem reparent {target : Id} (htarget : g.Holds target) (user : Option String) {nodes : List Node}
    (hnodes : ∀ n ∈ nodes, g.Holds n.id ∧ n.id ≠ g.top) :
    Both (g.Agree u v) (Store.reparent c target user nodes s)
      (Store.reparent c target user nodes t) := by
  induction nodes generalizing s t with
  | nil => exact .ok h
  | cons n ns ih =>
    have ih := fun {s t} h => @ih s t h fun m hm => hnodes m (List.mem_cons_of_mem _ hm)
    obtain ⟨hid, hne⟩ := hnodes n List.mem_cons_self
    rw [Store.reparent, Store.reparent, ← h.nextPosition_eq htarget]
    refine .ite (fun _ => ih h) fun _ => .bind_same fun author _ => ?_
    exact .bind (h.changeNode hid (fun _ => rfl) (fun _ => .inr ⟨hne, target, rfl, htarget⟩)
      (.inl hne)) fun _ _ _ _ => ih

/-- So is moving nodes of the region into a folder of it. -/
theorem moveNodes (hs : s.IsTree) (ht : t.IsTree) {ids : List Id} {target : Id}
    (hids : ∀ id ∈ ids, g.Holds id ∧ id ≠ g.top) (htarget : g.Holds target) (user : Option String) :
    Both (g.Same u v) ((moveNodes c ids target user).alone s)
      ((SnapshotArchive.moveNodes c ids target user).alone t) := by
  unfold Write.alone SnapshotArchive.moveNodes
  have hcheck := h.checkRelocation_eq hs ht (fun id hid => (hids id hid).1) htarget true true
  rw [← hcheck]
  refine .bind_same fun f hf => ?_
  obtain ⟨planned, -, hf⟩ := bind_eq_ok_iff.1 hf
  obtain rfl := Except.ok.inj hf
  dsimp only
  rw [← hcheck]
  refine .bind_same fun found hfound => .bind_same fun _ _ => ?_
  have hsel := (checkRelocation_eq_ok_iff.1 (recheck_eq_ok_iff.1 hfound)).selection
  have hnodes : ∀ n ∈ found.1, g.Holds n.id ∧ n.id ≠ g.top := fun n hn =>
    hids n.id (hsel.id_mem hn)
  refine .bind (h.reparent htarget user hnodes) fun _ _ _ _ hmoved => ?_
  exact .bind (hmoved.touch c htarget user) fun _ _ _ _ htouched => htouched.answerNode htarget

/-- So is deleting several subtrees of the region. -/
theorem removeSubtrees (hs : s.IsSound) (ht : t.IsSound) {nodes : List Node}
    (hnodes : ∀ n ∈ nodes, g.Holds n.id) :
    Both (g.Same u v) (Store.removeSubtrees nodes s) (Store.removeSubtrees nodes t) := by
  induction nodes generalizing s t with
  | nil => exact .ok ⟨rfl, h⟩
  | cons n ns ih =>
    refine .bind (h.removeSubtree hs.tree ht.tree (hnodes n List.mem_cons_self)) ?_
    rintro ⟨count, a⟩ ⟨_, b⟩ hleft hright ⟨rfl, hremoved⟩
    refine .bind (ih hremoved (hs.edit (removeSubtree_edit hs hleft))
      (ht.edit (removeSubtree_edit ht hright)) fun m hm => hnodes m (List.mem_cons_of_mem _ hm)) ?_
    rintro ⟨more, a'⟩ ⟨_, b'⟩ - - ⟨rfl, hall⟩
    exact .ok ⟨rfl, hall⟩

/-- So is deleting several nodes of the region. -/
theorem deleteNodes (hs : s.IsSound) (ht : t.IsSound) {ids : List Id}
    (hids : ∀ id ∈ ids, g.Holds id) :
    Both (g.Same u v) ((deleteNodes ids).alone s) ((SnapshotArchive.deleteNodes ids).alone t) := by
  unfold Write.alone SnapshotArchive.deleteNodes
  rw [← h.checkSelection_eq hids]
  refine .bind_same fun f hf => ?_
  obtain ⟨planned, -, hf⟩ := bind_eq_ok_iff.1 hf
  obtain rfl := Except.ok.inj hf
  dsimp only
  rw [← h.checkSelection_eq hids]
  refine .bind_same fun nodes hfound => .bind_same fun _ _ => ?_
  have hsel := checkSelection_eq_ok_iff.1 (recheck_eq_ok_iff.1 hfound)
  exact h.removeSubtrees hs ht fun n hn => hids n.id (hsel.id_mem hn)

/-- So is copying nodes of the region into a folder of it. -/
theorem copyNodes (hs : s.IsSound) (ht : t.IsSound) (hc : g.Supplies c) (policy : CopyPolicy)
    {ids : List Id} {target : Id} (hids : ∀ id ∈ ids, g.Holds id) (htarget : g.Holds target)
    (user : Option String) :
    Both (g.Same u v) ((copyNodes c policy ids target user).alone s)
      ((SnapshotArchive.copyNodes c policy ids target user).alone t) := by
  unfold Write.alone SnapshotArchive.copyNodes
  dsimp only
  have hcheck := h.checkRelocation_eq hs.tree ht.tree hids htarget false (policy = .reject)
  rw [← hcheck]
  refine .bind_same fun f hf => ?_
  obtain ⟨planned, -, hf⟩ := bind_eq_ok_iff.1 hf
  obtain rfl := Except.ok.inj hf
  dsimp only
  rw [← hcheck]
  refine .bind_same fun found hfound => ?_
  have hok := checkRelocation_eq_ok_iff.1 (recheck_eq_ok_iff.1 hfound)
  obtain ⟨hmem, rfl⟩ := node?_eq_some hok.found
  have hstart : Copying.Alike g u v ⟨s, 0, [], []⟩ ⟨t, 0, [], []⟩ := .mk h (by simp) (by simp)
  refine .bind (hstart.addAll hc hs ht policy user hok.folder hmem htarget (fun n hn =>
    ⟨hok.selection.mem hn, hok.selection.notRoot n hn, hok.movable n hn⟩) fun n hn =>
      hids n.id (hok.selection.id_mem hn)) fun _ _ _ _ hcopied => ?_
  exact .bind (hcopied.agree.touch c htarget user) fun _ _ _ _ htouched =>
    htouched.answerNode htarget

end Agree

end Region

end SnapshotArchive
