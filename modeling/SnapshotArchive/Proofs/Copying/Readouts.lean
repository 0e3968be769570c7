import SnapshotArchive.Proofs.Ages
import SnapshotArchive.Proofs.DeepCopy
import SnapshotArchive.Proofs.Footprint
import SnapshotArchive.Proofs.Interleaving

/-!
# What is read of copies

Of a copied configuration and of a copied snapshot clients read the copies of what they read of the
original. Variables and items are listed by their positions, which are copied. Snapshots are listed
by the time of their creation, which is not copied, but those of a configuration are in the order of
their positions too, if the clock has never gone back.

Tags are listed by the time of their creation, and those of one time in the order in which they were
added, the last first. They are added to a copy in the order of their names, so a copy lists tags of
one time by their names from the end (`Tag.copyPrecedes`), in whatever order they were added to the
original.

* `Readout` : what is read of a configuration or of a snapshot.
* `Store.IsCopied.readout_copy` : what is read of a copy.
* `Store.IsCopied.readout_old` : what is read of the original stays the same.
* `Clocked.Reachable.copies_read` : what clients read after a copy that is answered.
-/

namespace SnapshotArchive

open Store Archive Sample

/-! ### Sorting -/

/-- Sorting keeps the order of equals. -/
theorem pairwise_mergeSort_of_pairwise {α : Type} {le : α → α → Bool} {R : α → α → Prop}
    (trans : ∀ a b c, le a b → le b c → le a c) (total : ∀ a b, le a b || le b a) {l : List α}
    (h : l.Pairwise R) : (l.mergeSort le).Pairwise fun a b => le a b ∧ (le b a → R a b) := by
  induction l with
  | nil => simp
  | cons a l ih =>
    obtain ⟨hfirst, hrest⟩ := List.pairwise_cons.1 h
    obtain ⟨before, after, hcons, hl, hbefore⟩ := List.mergeSort_cons trans total a l
    have hmem : ∀ b ∈ after, b ∈ l := fun b hb =>
      List.mem_mergeSort.1 (hl ▸ List.mem_append_right before hb)
    have hsorted := List.pairwise_mergeSort trans total (a :: l)
    have hold := ih hrest
    rw [hcons] at hsorted ⊢
    rw [hl] at hold
    obtain ⟨hbs, has, hacross⟩ := List.pairwise_append.1 hold
    obtain ⟨-, htail, hahead⟩ := List.pairwise_append.1 hsorted
    refine List.pairwise_append.2 ⟨hbs, List.pairwise_cons.2 ⟨fun b hb => ?_, has⟩, ?_⟩
    · exact ⟨(List.pairwise_cons.1 htail).1 b hb, fun _ => hfirst b (hmem b hb)⟩
    · intro b hb x hx
      rcases List.mem_cons.1 hx with rfl | hx
      · -- The new element does not come before those that are put in front of it.
        refine ⟨hahead b hb x List.mem_cons_self, fun hle => ?_⟩
        have hnot := hbefore b hb
        simp [hle] at hnot
      · exact hacross b hb x hx

/-- The order of the tags of a copy: the newest first, and those of one time by their names from the
end. -/
def Tag.copyPrecedes (t u : Tag) : Bool :=
  u.created < t.created || (t.created = u.created && u.name ≤ t.name)

namespace Tag

/-- The order of the tags of a copy is that of tags, with those of one time by their names from the
end. -/
theorem copyPrecedes_iff {t u : Tag} : t.copyPrecedes u ↔
    t.precedes u ∧ (t.created = u.created → u.name ≤ t.name) := by
  simp only [copyPrecedes, precedes, Bool.or_eq_true, Bool.and_eq_true, decide_eq_true_eq]
  constructor
  · rintro (hlt | ⟨he, hle⟩)
    · exact ⟨by omega, fun he => by omega⟩
    · exact ⟨by omega, fun _ => hle⟩
  · rintro ⟨hle, hname⟩
    by_cases he : t.created = u.created
    · exact .inr ⟨he, hname he⟩
    · exact .inl (by omega)

/-- The order of the tags of a copy is transitive. -/
theorem copyPrecedes_trans (t u v : Tag) (htu : t.copyPrecedes u) (huv : u.copyPrecedes v) :
    t.copyPrecedes v := by
  simp only [copyPrecedes, Bool.or_eq_true, Bool.and_eq_true, decide_eq_true_eq] at *
  rcases htu with htu | ⟨he, htu⟩
  · exact .inl (by omega)
  · rcases huv with huv | ⟨he', huv⟩
    · exact .inl (by omega)
    · exact .inr ⟨he.trans he', String.le_trans huv htu⟩

/-- Any two tags of a copy are in order. -/
theorem copyPrecedes_total (t u : Tag) : t.copyPrecedes u || u.copyPrecedes t := by
  simp only [copyPrecedes, Bool.or_eq_true, Bool.and_eq_true, decide_eq_true_eq]
  rcases lt_trichotomy t.created u.created with hlt | he | hgt
  · exact .inr (.inl hlt)
  · exact (String.le_total u.name t.name).imp (fun h => .inr ⟨he, h⟩) fun h => .inr ⟨he.symm, h⟩
  · exact .inl (.inl hgt)

end Tag

namespace Store

variable {s : Store}

/-- The tags of a snapshot are read in their order. -/
theorem pairwise_tagsOf (s : Store) (id : Id) :
    (s.tagsOf id).Pairwise fun t u => t.precedes u :=
  List.pairwise_mergeSort Tag.precedes_trans Tag.precedes_total _

/-- A tag is known by its snapshot and its name. -/
theorem IsOwned.tag_eq (hs : s.IsOwned) {t u : Tag} (ht : t ∈ s.tags) (hu : u ∈ s.tags)
    (hsnapshot : t.snapshot = u.snapshot) (hname : t.name = u.name) : t = u := by
  by_contra hne
  have : Std.Symm fun t u : Tag => t.snapshot ≠ u.snapshot ∨ t.name ≠ u.name :=
    ⟨fun _ _ h => h.imp Ne.symm Ne.symm⟩
  rcases hs.tagOnce.forall ht hu hne with h | h
  · exact h hsnapshot
  · exact h hname

/-- Tags that are added in the order of their names are listed by their names from the end. -/
theorem IsOwned.mergeSort_namedTags (hs : s.IsOwned) (id : Id) :
    (s.namedTags id).reverse.mergeSort Tag.precedes = (s.tagsOf id).mergeSort Tag.copyPrecedes := by
  have hnamed : (s.namedTags id).Pairwise fun t u => t.name ≤ u.name := by
    have hsorted : (s.namedTags id).Pairwise fun t u => decide (t.name ≤ u.name) := by
      refine List.pairwise_mergeSort (fun t u v htu huv => ?_) (fun t u => ?_) _
      · exact decide_eq_true (String.le_trans (of_decide_eq_true htu) (of_decide_eq_true huv))
      · simpa using String.le_total t.name u.name
    exact hsorted.imp of_decide_eq_true
  have hperm : ((s.namedTags id).reverse.mergeSort Tag.precedes).Perm
      ((s.tagsOf id).mergeSort Tag.copyPrecedes) := by
    refine (List.mergeSort_perm _ _).trans ((List.reverse_perm _).trans ?_)
    refine (List.mergeSort_perm _ _).trans (.symm ?_)
    exact (List.mergeSort_perm _ _).trans ((List.mergeSort_perm _ _).trans (List.reverse_perm _))
  have hmem : ∀ t ∈ (s.tagsOf id).mergeSort Tag.copyPrecedes, t ∈ s.tags ∧ t.snapshot = id :=
    fun t ht => mem_tagsOf_iff.1 (List.mem_mergeSort.1 ht)
  refine hperm.eq_of_pairwise (fun t u ht hu htu hut => ?_) ?_
    (List.pairwise_mergeSort Tag.copyPrecedes_trans Tag.copyPrecedes_total _)
  · obtain ⟨ht, htid⟩ := hmem t (hperm.mem_iff.1 ht)
    obtain ⟨hu, huid⟩ := hmem u hu
    obtain ⟨hcreated, hname⟩ := Tag.copyPrecedes_iff.1 htu
    obtain ⟨hcreated', hname'⟩ := Tag.copyPrecedes_iff.1 hut
    simp only [Tag.precedes, decide_eq_true_eq] at hcreated hcreated'
    have he : t.created = u.created := Int.le_antisymm hcreated' hcreated
    exact hs.tag_eq ht hu (htid.trans huid.symm)
      (String.le_antisymm (hname' he.symm) (hname he))
  · refine (pairwise_mergeSort_of_pairwise Tag.precedes_trans Tag.precedes_total
      (List.pairwise_reverse.2 hnamed)).imp fun {t u} htu => Tag.copyPrecedes_iff.2 ?_
    refine ⟨htu.1, fun he => htu.2 ?_⟩
    simp [Tag.precedes, he]

end Store

/-! ### Readings -/

/-- What is read of a configuration: its variables and its snapshots. And what is read of a
snapshot: its items with their variables, and its tags. -/
structure Readout where
  pvs : List Pv
  snapshots : List Node
  readings : List Reading
  tags : List Tag

/-- What is read of a node. -/
def Store.readout (s : Store) (id : Id) : Readout :=
  ⟨s.activePvs id, s.snapshotsOf id, s.readings id, s.tagsOf id⟩

/-- What an archive answers to those who read a configuration or a snapshot. -/
structure Archive.Shows (a : Archive) (n : Node) (r : Readout) : Prop where
  pvs : n.kind = .configuration → (Query.listedPvs n.id).ask a = .ok (.pvs r.pvs)
  snapshots : n.kind = .configuration →
    (Query.committedSnapshots n.id).ask a = .ok (.nodes r.snapshots)
  readings : n.kind = .snapshot → (Query.snapshot n.id).ask a = .ok (.snapshot ⟨n, r.readings⟩)
  tags : n.kind = .snapshot → (Query.tags n.id).ask a = .ok (.tags r.tags)

/-- An archive answers with what there is to read of a node. -/
theorem Archive.shows_readout {a : Archive} {s : Store} (h : s.IsTree) (hs : a.store = some s)
    {n : Node} (hn : n.kind ≠ .folder → n ∈ s.nodes) : a.Shows n (s.readout n.id) := by
  have hkind : ∀ {k : Kind}, n.kind = k → k ≠ .folder → n ∈ s.ofKind k := by
    rintro _ rfl hne
    exact mem_ofKind_iff.2 ⟨hn hne, rfl⟩
  have hanswers := answers_listings h hs
  exact ⟨fun hk => hanswers.pvsOf n (hkind hk Kind.noConfusion),
    fun hk => hanswers.snapshotsOf n (hkind hk Kind.noConfusion),
    fun hk => hanswers.readingsOf n (hkind hk Kind.noConfusion),
    fun hk => hanswers.tagsOf n (hkind hk Kind.noConfusion)⟩

namespace Renaming

variable (r : Renaming) (c : Context) (user : String)

/-- The copy of an item with the copy of its variable. -/
def copyReading (reading : Reading) : Reading :=
  ⟨r.copyPv reading.pv, r.copyItem reading.item⟩

/-- The copies of what is read of a node, in the same order. -/
def copyReadout (x : Readout) : Readout where
  pvs := x.pvs.map r.copyPv
  snapshots := x.snapshots.map (r.copyNode c user)
  readings := x.readings.map r.copyReading
  tags := x.tags.map r.copyTag

end Renaming

/-- A copy is of the kind of its original. -/
theorem Duplicate.kind_copyOf (d : Duplicate) (c : Context) (user : String) (target : Id)
    (source n : Node) : (d.copyOf c user target source n).kind = n.kind := by
  unfold copyOf
  split <;> rfl

/-- The same with the tags in the order in which a copy lists them. -/
def Readout.sorted (x : Readout) : Readout :=
  { x with tags := x.tags.mergeSort Tag.copyPrecedes }

/-- Nodes are copied into a folder. -/
theorem Store.IsRelocation.kind_of_id_eq {s : Store} {ids : List Id} {target : Id}
    {inPlace byName : Bool} {nodes : List Node} {t n : Node}
    (h : s.IsRelocation ids target inPlace byName nodes t) (hs : s.IsTree) (hn : n ∈ s.nodes)
    (he : n.id = target) : n.kind = .folder := by
  obtain ⟨ht, hid⟩ := node?_eq_some h.found
  rw [eq_of_id_eq hs.nodup hn ht (he.trans hid.symm)]
  exact h.folder

namespace Store.IsCopied

variable {c : Context} {user : String} {s s' : Store} {target : Id} {nodes : List Node}
  {d : Id → Duplicate} (h : s.IsCopied c user target nodes d s') {source n t : Node}
  {ids : List Id} {byName : Bool}

include h

/-! ### What is read of a copy -/

section

variable (hsource : source ∈ nodes) (hn : n ∈ s.subtree source.id)

include hsource hn

/-- A copied configuration lists the copies of the variables. -/
theorem activePvs_copy : s'.activePvs ((d source.id).node n.id) =
    (s.activePvs n.id).map (d source.id).copyPv := by
  rw [activePvs, h.pvsOf_copy hsource hn, List.filter_map]
  rfl

/-- A copied snapshot has the copies of the items, with the copies of their variables. -/
theorem readings_copy (hmovable : source.kind.isMovable) :
    s'.readings ((d source.id).node n.id) =
      (s.readings n.id).map (d source.id).copyReading := by
  rw [readings, h.itemsOf_copy hsource hn, List.filterMap_map, readings, List.map_filterMap]
  refine List.filterMap_congr fun item hitem => ?_
  obtain ⟨pv, hpv, -, hcopy⟩ := h.pv?_copy hsource hn hmovable hitem
  rw [hpv]
  show (s'.pv? ((d source.id).pv item.pv)).map _ = _
  rw [hcopy]
  rfl

/-- Tags of one time are listed by their names from the end. -/
theorem tagsOf_copy_eq : s'.tagsOf ((d source.id).node n.id) =
    ((s.tagsOf n.id).mergeSort Tag.copyPrecedes).map (d source.id).copyTag := by
  rw [tagsOf, h.filter_tags_copy hsource hn, ← List.map_reverse,
    ← h.before.owned.mergeSort_namedTags n.id]
  refine (List.map_mergeSort fun t _ u _ => ?_).symm
  rfl

/-- A copied configuration has the copies of the snapshots, in their order. -/
theorem snapshotsOf_copy (ho : s.IsOrdered) {now later : Int} (hage : s.IsAged now)
    (hage' : s'.IsAged later) : s'.snapshotsOf ((d source.id).node n.id) =
      (s.snapshotsOf n.id).map ((d source.id).copyNode c user) := by
  rw [hage'.snapshotsOf_eq h.after.tree (h.isOrdered ho), h.children_copy ho hsource hn,
    hage.snapshotsOf_eq h.before.tree ho, List.filter_map]
  rfl

/-- What is read of a copy are the copies of what is read of the original, but for the order of tags
of one time. -/
theorem readout_copy (ho : s.IsOrdered) {now later : Int} (hage : s.IsAged now)
    (hage' : s'.IsAged later) (hmovable : source.kind.isMovable) :
    s'.readout ((d source.id).node n.id) =
      (d source.id).copyReadout c user (s.readout n.id).sorted := by
  rw [readout, h.activePvs_copy hsource hn, h.snapshotsOf_copy hsource hn ho hage hage',
    h.readings_copy hsource hn hmovable, h.tagsOf_copy_eq hsource hn]
  rfl

end

/-! ### What is read of the original -/

section

variable (hid : s.hasNode n.id) (hne : n.id ≠ target)

include hid

/-- The original lists the variables that it did. -/
theorem activePvs_old : s'.activePvs n.id = s.activePvs n.id := by
  rw [activePvs, h.eq]
  exact congrArg (List.filter _) (h.beside.contents hid).1

/-- The original has the items that it had. -/
theorem readings_old (hn : n ∈ s.nodes) : s'.readings n.id = s.readings n.id := by
  have hitems : s'.itemsOf n.id = s.itemsOf n.id := by
    rw [h.eq]
    exact (h.beside.contents hid).2.1
  rw [readings, hitems, readings]
  refine List.filterMap_congr fun item hitem => ?_
  obtain ⟨pv, hpv, -⟩ := h.before.pv?_of_mem_itemsOf hn hitem
  obtain ⟨hmem, he⟩ := pv?_eq_some hpv
  have hkept : pv ∈ s'.pvs := h.eq ▸ List.mem_append_left _ hmem
  have hfound : s'.pv? item.pv = some pv := he ▸ pv?_of_mem h.after.owned hkept
  rw [hpv, hfound]

/-- The original has the tags that it had. -/
theorem tagsOf_old : s'.tagsOf n.id = s.tagsOf n.id := by
  rw [h.eq]
  refine tagsOf_append fun tag htag he => ?_
  exact absurd hid (by simp [he ▸ h.beside.own.tags tag htag])

include hne

/-- The copies are in other configurations, and the target is none. -/
theorem snapshotsOf_old (hcopies : s.IsRelocation ids target false byName nodes t) :
    s'.snapshotsOf n.id = s.snapshotsOf n.id := by
  let listed : Node → Bool := fun m => m.parent = some n.id && m.kind = .snapshot && !m.draft
  have hadded : (copies c user target s d nodes).nodes.filter listed = [] := by
    refine List.filter_eq_nil_iff.2 fun m hm => ?_
    have hp : m.parent ≠ some n.id := by
      intro hp
      rcases h.beside.parents m hm with htarget | ⟨p, hnew, hnone⟩
      · exact hne (Option.some.inj (hp.symm.trans htarget))
      · rw [← Option.some.inj (hp.symm.trans hnew), hid] at hnone
        cases hnone
    simp [listed, hp]
  have hstamp : (s.stamp c target user).nodes.filter listed = s.nodes.filter listed := by
    rw [stamp, mapNode, List.filter_map]
    have hsame : ∀ m ∈ s.nodes, (listed ∘ fun m => if m.id = target then
        { m with version := m.version + 1, modified := c.now, user } else m) m = listed m := by
      intro m _
      rw [Function.comp_apply]
      split <;> rfl
    rw [List.filter_congr hsame]
    refine (List.map_congr_left fun m hm => if_neg fun he => ?_).trans (List.map_id _)
    obtain ⟨hm, hl⟩ := List.mem_filter.1 hm
    simp [listed, hcopies.kind_of_id_eq h.before.tree hm he] at hl
  rw [snapshotsOf, h.eq, nodes_append, List.filter_append, hadded, hstamp, List.append_nil]
  rfl

/-- What is read of the original is as before. -/
theorem readout_old (hn : n ∈ s.nodes)
    (hcopies : s.IsRelocation ids target false byName nodes t) :
    s'.readout n.id = s.readout n.id := by
  rw [readout, h.activePvs_old hid, h.snapshotsOf_old hid hne hcopies, h.readings_old hid hn,
    h.tagsOf_old hid]
  rfl

end

end Store.IsCopied

/-! ### What clients read -/

namespace Store.IsCopied

variable {c : Context} {user : String} {s s' : Store} {target : Id} {nodes : List Node}
  {d : Id → Duplicate} (h : s.IsCopied c user target nodes d s') {source n t : Node}
  {ids : List Id} {byName : Bool} {b : Archive} (hb : b.store = some s')

include h hb

/-- The original shows what it did. -/
theorem shows_old (hcopies : s.IsRelocation ids target false byName nodes t) (hn : n ∈ s.nodes) :
    b.Shows n (s.readout n.id) := by
  by_cases hk : n.kind = .folder
  · constructor <;> intro hkind <;> simp [hk] at hkind
  · have hne : n.id ≠ target := fun he => hk (hcopies.kind_of_id_eq h.before.tree hn he)
    have hkept : n ∈ (s.stamp c target user).nodes :=
      List.mem_map.2 ⟨n, hn, if_neg hne⟩
    rw [← h.readout_old (hasNode_of_mem hn) hne hn hcopies]
    exact shows_readout h.after.tree hb fun _ => h.eq ▸ List.mem_append_left _ hkept

variable (hsource : source ∈ nodes) (hn : n ∈ s.subtree source.id) (ho : s.IsOrdered)
  {now later : Int} (hage : s.IsAged now) (hage' : s'.IsAged later)
  (hmovable : source.kind.isMovable)

include hsource hn ho hage hage' hmovable

/-- The copy shows the copies of what the original shows, with tags of one time sorted. -/
theorem shows_copy : b.Shows ((d source.id).copyOf c user target source n)
    ((d source.id).copyReadout c user (s.readout n.id).sorted) := by
  have hcopy := shows_readout h.after.tree hb fun _ => h.copy_mem hsource hn
  rwa [Duplicate.id_copyOf, h.readout_copy hsource hn ho hage hage' hmovable] at hcopy

/-- It shows them in the same order if the original lists tags of one time like this. -/
theorem shows_copyReadout_iff : b.Shows ((d source.id).copyOf c user target source n)
      ((d source.id).copyReadout c user (s.readout n.id)) ↔
    (n.kind = .snapshot → (s.tagsOf n.id).Pairwise fun t u =>
      t.created = u.created → u.name ≤ t.name) := by
  have hcopy := h.shows_copy hb hsource hn ho hage hage' hmovable
  have hkind := (d source.id).kind_copyOf c user target source n
  constructor
  · intro hsame hk
    have hlists := (hsame.tags (hkind.trans hk)).symm.trans (hcopy.tags (hkind.trans hk))
    have he : (s.tagsOf n.id).map (d source.id).copyTag =
        ((s.tagsOf n.id).mergeSort Tag.copyPrecedes).map (d source.id).copyTag :=
      Answer.tags.inj (Except.ok.inj hlists)
    have hsorted : (((s.tagsOf n.id).mergeSort Tag.copyPrecedes).map (d source.id).copyTag).Pairwise
        fun t u => t.copyPrecedes u :=
      List.pairwise_map.2 (List.pairwise_mergeSort Tag.copyPrecedes_trans Tag.copyPrecedes_total _)
    rw [← he] at hsorted
    exact (List.pairwise_map.1 hsorted).imp fun htu => (Tag.copyPrecedes_iff.1 htu).2
  · intro hsorted
    refine ⟨hcopy.pvs, hcopy.snapshots, hcopy.readings, fun hk => ?_⟩
    have htags : (s.tagsOf n.id).mergeSort Tag.copyPrecedes = s.tagsOf n.id :=
      List.mergeSort_of_pairwise (((pairwise_tagsOf s n.id).and (hsorted (hkind.symm.trans hk))).imp
        Tag.copyPrecedes_iff.2)
    exact (hcopy.tags hk).trans
      (congrArg (fun tags => Except.ok (Answer.tags (tags.map (d source.id).copyTag))) htags)

end Store.IsCopied

namespace Sample

/-- What a client does without interruption can be done while a clock stands. -/
theorem clocked_perform {a : Archive} {ts : List (Transaction Answer)}
    (h : Clocked.Reachable ⟨⟨a, ts⟩, 0⟩) (stem : String) (o : Operation) :
    ∃ us, Clocked.Reachable ⟨⟨perform stem o a, us⟩, 0⟩ := by
  obtain ⟨⟨s, hs, -⟩, -⟩ := h.service.isSound
  have hle : 0 ≤ (supply stem).now := Int.le_refl 0
  obtain ⟨us, hrun⟩ := Clocked.Run.call hs ts hle .nothing policy o
  exact ⟨us, h.run hrun⟩

/-- The archive with one committed snapshot can be reached by the clock. -/
theorem clocked_committed : ∃ ts, Clocked.Reachable ⟨⟨committed, ts⟩, 0⟩ := by
  have hstart : Clocked.Reachable ⟨⟨initialised false 0, []⟩, 0⟩ := ⟨false, 0, .refl⟩
  obtain ⟨ts, h⟩ := clocked_perform hstart "a" (.createNode rootId (form "a" .folder) (some "u"))
  obtain ⟨ts, h⟩ := clocked_perform h "c" (.createConfiguration "a0" configuration (some "u"))
  exact clocked_perform h "s" (.saveSnapshot "c0" [item] (some "s") (some "first") (some "u"))

/-- Below the configuration of a sample archive is its snapshot. -/
theorem exists_below {s : Store} (h : (s.subtree "c0").map (fun n => (n.id, n.kind)) =
    [("c0", .configuration), ("s0", .snapshot)]) :
    (∃ n ∈ s.subtree "c0", n.id = "c0" ∧ n.kind = .configuration) ∧
      ∃ m ∈ s.subtree "c0", m.id = "s0" ∧ m.kind = .snapshot := by
  have hbelow : ∀ x ∈ [("c0", Kind.configuration), ("s0", Kind.snapshot)],
      ∃ n ∈ s.subtree "c0", n.id = x.1 ∧ n.kind = x.2 := by
    intro x hx
    rw [← h] at hx
    obtain ⟨n, hn, rfl⟩ := List.mem_map.1 hx
    exact ⟨n, hn, rfl, rfl⟩
  exact ⟨hbelow _ List.mem_cons_self, hbelow _ (List.mem_cons_of_mem _ List.mem_cons_self)⟩

/-- So can the one with a tag. -/
theorem clocked_tagged : ∃ ts, Clocked.Reachable ⟨⟨tagged, ts⟩, 0⟩ := by
  obtain ⟨ts, h⟩ := clocked_committed
  exact clocked_perform h "t" (.addTag "s0" ⟨some "t", none, none, none, none⟩)

end Sample

namespace Clocked

/-- If the clock of an archive has never gone back, whatever its clients read of an original they
read of its copy, with new identifiers and in the same order; only tags of one time are listed by
their names from the end. -/
theorem Reachable.copies_read {a b : Archive} {between : Archive → Archive}
    {ts us : List (Transaction Answer)} {earlier now : Int} {s : Store} {hold : Hold} {c : Context}
    {p : Policy} {ids : List Id} {target : Id} {user : Option String} {answer : Answer}
    (h : Reachable ⟨⟨a, ts⟩, earlier⟩)
    (hothers : Run ⟨⟨a, ts⟩, earlier⟩ ⟨⟨between a, us⟩, now⟩)
    (hs : (between a).store = some s) (hnow : now ≤ c.now)
    (hcall : a.run hold between ((Operation.copyNodes ids target user).call c p) =
      (.ok answer, b)) :
    ∃ s' author nodes t d, b = { between a with store := some s' } ∧ user = some author ∧
      s.IsRelocation ids target false (p.copies = .reject) nodes t ∧
      s.IsDeepCopy c author target nodes d s' ∧
      ∀ source ∈ nodes, ∀ n ∈ s.subtree source.id,
        (between a).Shows n (s.readout n.id) ∧ b.Shows n (s.readout n.id) ∧
        b.Shows ((d source.id).copyOf c author target source n)
          ((d source.id).copyReadout c author (s.readout n.id).sorted) ∧
        (b.Shows ((d source.id).copyOf c author target source n)
            ((d source.id).copyReadout c author (s.readout n.id)) ↔
          (n.kind = .snapshot → (s.tagsOf n.id).Pairwise fun t u =>
            t.created = u.created → u.name ≤ t.name)) := by
  have hreach := h.run hothers
  have ho := hreach.service.isOrdered hs
  have hage := hreach.isAged hs
  obtain ⟨s', rfl, hsound, hsound', hok⟩ := h.service.call_eq_ok hothers.service hs hcall
  have hage' := hage.succeeds hsound hok hnow
  obtain ⟨author, nodes, t, d, rfl, hcopies, -, hsupplied, hcopied⟩ :=
    (hok.effect hsound).isCopied hsound hsound'
  refine ⟨s', author, nodes, t, d, rfl, rfl, hcopies,
    hcopied.isDeepCopy ho hcopies.movable hsupplied, fun source hsource n hn => ?_⟩
  have hmem := mem_nodes_of_mem_subtree hn
  have hmovable := hcopies.movable source hsource
  exact ⟨shows_readout hsound.tree hs fun _ => hmem, hcopied.shows_old rfl hcopies hmem,
    hcopied.shows_copy rfl hsource hn ho hage hage' hmovable,
    hcopied.shows_copyReadout_iff rfl hsource hn ho hage hage' hmovable⟩

/-- A copied snapshot is listed in the copied configuration, and its tag on it. -/
theorem copies_read_captured : ∃ ts answer s r, Reachable ⟨⟨tagged, ts⟩, 0⟩ ∧
    tagged.store = some s ∧
    tagged.run .nothing id ((Operation.copyNodes ["c0"] rootId (some "u")).call (supply "e")
      policy) = (.ok answer, captured) ∧
    (Query.committedSnapshots (Renaming.node r "c0")).ask captured =
      .ok (.nodes ((s.snapshotsOf "c0").map (r.copyNode (supply "e") "u"))) ∧
    (s.snapshotsOf "c0").map (·.name) = ["s"] ∧
    (Query.tags (r.node "s0")).ask captured = .ok (.tags ((s.tagsOf "s0").map r.copyTag)) ∧
    (s.tagsOf "s0").map (·.name) = ["t"] := by
  obtain ⟨-, s, answer, -, hs, hanswer⟩ := exists_copy
  obtain ⟨ts, h⟩ := clocked_tagged
  have hbefore : ∀ s ∈ tagged.store, (s.subtree "c0").map (fun n => (n.id, n.kind)) =
      [("c0", .configuration), ("s0", .snapshot)] ∧
      (s.snapshotsOf "c0").map (·.name) = ["s"] ∧ (s.tagsOf "s0").map (·.name) = ["t"] := by
    decide +kernel
  obtain ⟨hsubtree, hsnapshots, htags⟩ := hbefore s hs
  have hidle : Run ⟨⟨tagged, ts⟩, 0⟩ ⟨⟨id tagged, ts⟩, 0⟩ := .refl
  have hnow : 0 ≤ (supply "e").now := Int.le_refl 0
  obtain ⟨s', author, nodes, t, d, -, hauthor, hnodes, -, hread⟩ :=
    h.copies_read hidle hs hnow hanswer
  obtain rfl := Option.some.inj hauthor
  -- The only selected node is the configuration, and its snapshot is below it.
  obtain ⟨source, rfl, hid⟩ := List.map_eq_singleton_iff.1 hnodes.selection.ids_eq
  obtain ⟨⟨n, hn, hnid, hnk⟩, m, hm, hmid, hmk⟩ := exists_below hsubtree
  rw [← hid] at hn hm
  obtain ⟨-, -, hconfig, -⟩ := hread source (List.mem_singleton_self source) n hn
  obtain ⟨-, -, -, hsnapshot⟩ := hread source (List.mem_singleton_self source) m hm
  have hlisted := hconfig.snapshots ((Duplicate.kind_copyOf ..).trans hnk)
  have htag := hsnapshot.2 (fun _ => ?_) |>.tags ((Duplicate.kind_copyOf ..).trans hmk)
  · rw [Duplicate.id_copyOf, hnid] at hlisted
    rw [Duplicate.id_copyOf, hmid] at htag
    exact ⟨ts, answer, s, (d source.id).toRenaming, h, hs, hanswer, hlisted, hsnapshots, htag,
      htags⟩
  · obtain ⟨t, ht, -⟩ := List.map_eq_singleton_iff.1 htags
    rw [hmid, ht]
    exact List.pairwise_singleton _ _

end Clocked

/-! ### Tags of one time -/

namespace Sample

/-- The committed snapshot has got two tags at one time. -/
def labelled : Archive :=
  perform "r" (.addTag "s0" ⟨some "a", none, none, none, none⟩) <|
    perform "q" (.addTag "s0" ⟨some "b", none, none, none, none⟩) committed

/-- So can the one with two tags of one time. -/
theorem clocked_labelled : ∃ ts, Clocked.Reachable ⟨⟨labelled, ts⟩, 0⟩ := by
  obtain ⟨ts, h⟩ := clocked_committed
  obtain ⟨ts, h⟩ := clocked_perform h "q" (.addTag "s0" ⟨some "b", none, none, none, none⟩)
  exact clocked_perform h "r" (.addTag "s0" ⟨some "a", none, none, none, none⟩)

/-- Of the two tags the one that was added last comes first. -/
theorem exists_tags_labelled {s : Store} (hs : labelled.store = some s) :
    ∃ t u, s.tagsOf "s0" = [t, u] ∧ t.name = "a" ∧ u.name = "b" ∧ t.created = 0 ∧
      u.created = 0 := by
  have hadded : ∀ s ∈ labelled.store, (s.tags.filter (·.snapshot = "s0")).map
      (fun t => (t.name, t.created)) = [("b", 0), ("a", 0)] := by
    decide +kernel
  obtain ⟨u, rest, hfilter, hu, hrest⟩ := List.map_eq_cons_iff.1 (hadded s hs)
  obtain ⟨t, rfl, ht⟩ := List.map_eq_singleton_iff.1 hrest
  obtain ⟨htname, htcreated⟩ := Prod.mk.inj ht
  obtain ⟨huname, hucreated⟩ := Prod.mk.inj hu
  refine ⟨t, u, ?_, htname, huname, htcreated, hucreated⟩
  rw [tagsOf, hfilter]
  exact List.mergeSort_of_pairwise (by simp [Tag.precedes, htcreated, hucreated])

/-- The configuration of the snapshot can be copied. -/
theorem exists_copy_labelled {s : Store} (hs : labelled.store = some s) (hsound : s.IsSound) :
    ∃ answer s', labelled.run .nothing id
      ((Operation.copyNodes ["c0"] rootId (some "u")).call (supply "e") policy) =
        (.ok answer, { labelled with store := some s' }) := by
  have hbefore : ∀ s ∈ labelled.store,
      ((Batch.copy ["c0"] rootId "u").check policy s).isOk ∧
      (∀ n ∈ s.nodes, ¬"e".toList <+: n.id.toList) ∧
      ∀ pv ∈ s.pvs, ¬"e".toList <+: pv.id.toList := by
    decide +kernel
  obtain ⟨hok, hnodes, hpvs⟩ := hbefore s hs
  cases hcheck : (Batch.copy ["c0"] rootId "u").check policy s with
  | error f => simp [hcheck, Except.isOk, Except.toBool] at hok
  | ok nodes => exact run_batch_of_check hs hsound hcheck fun _ => isFreshFor_supply hnodes hpvs

end Sample

/-- Of two tags of one time the original lists the one that was added last before the other, and the
copy the other way round. -/
theorem Clocked.tags_turned : ∃ ts answer b s' r t u, Clocked.Reachable ⟨⟨labelled, ts⟩, 0⟩ ∧
    labelled.run .nothing id ((Operation.copyNodes ["c0"] rootId (some "u")).call (supply "e")
      policy) = (.ok answer, b) ∧
    b.store = some s' ∧ s'.subtreeIds (Renaming.node r "c0") = [r.node "c0", r.node "s0"] ∧
    t.created = u.created ∧ t.name = "a" ∧ u.name = "b" ∧
    (Query.tags "s0").ask b = .ok (.tags [t, u]) ∧
    (Query.tags (r.node "s0")).ask b = .ok (.tags [r.copyTag u, r.copyTag t]) := by
  obtain ⟨ts, h⟩ := clocked_labelled
  obtain ⟨⟨s, hs, hsound⟩, -⟩ := h.service.isSound
  obtain ⟨answer, s', hcall⟩ := exists_copy_labelled hs hsound
  obtain ⟨t, u, htags, htname, huname, htcreated, hucreated⟩ := exists_tags_labelled hs
  have hidle : (id labelled).store = some s := hs
  have hnobody : Service.Run ⟨labelled, ts⟩ ⟨id labelled, ts⟩ := .refl
  obtain ⟨s₁, he, -, hsound', hok⟩ := h.service.call_eq_ok hnobody hidle hcall
  obtain rfl : s' = s₁ := Option.some.inj (congrArg Archive.store he)
  obtain ⟨author, nodes, target, d, -, hcopies, -, hsupplied, hcopied⟩ :=
    (hok.effect hsound).isCopied hsound hsound'
  obtain ⟨source, rfl, hid⟩ := List.map_eq_singleton_iff.1 hcopies.selection.ids_eq
  have hsource : source ∈ [source] := List.mem_singleton_self source
  have hbefore : ∀ s ∈ labelled.store, (s.subtree "c0").map (fun n => (n.id, n.kind)) =
      [("c0", .configuration), ("s0", .snapshot)] := by
    decide +kernel
  obtain ⟨-, m, hm, hmid, hmk⟩ := exists_below (hbefore s hs)
  rw [← hid] at hm
  have ho := h.service.isOrdered hs
  have hage := h.isAged hs
  have hage' := hage.succeeds hsound hok (Int.le_refl 0)
  have hb : ({ labelled with store := some s' } : Archive).store = some s' := rfl
  have hold := (hcopied.shows_old hb hcopies (mem_nodes_of_mem_subtree hm)).tags hmk
  have hcopy := (hcopied.shows_copy hb hsource hm ho hage hage'
    (hcopies.movable source hsource)).tags ((Duplicate.kind_copyOf ..).trans hmk)
  have hsubtree := (hcopied.isDeepCopy ho hcopies.movable hsupplied).subtreeIds hsource
  have hids : s.subtreeIds "c0" = ["c0", "s0"] := by
    have hids := congrArg (List.map Prod.fst) (hbefore s hs)
    rwa [List.map_map] at hids
  have hturned : (s.tagsOf "s0").mergeSort Tag.copyPrecedes = [u, t] := by
    rw [htags]
    simp [List.mergeSort, Tag.copyPrecedes, htcreated, hucreated, htname, huname]
  have hshown : (s.readout m.id).tags = [t, u] := by rw [hmid, ← htags]; rfl
  have hshown' : (s.readout m.id).sorted.tags = [u, t] := by rw [hmid, ← hturned]; rfl
  rw [hshown, hmid] at hold
  rw [Duplicate.id_copyOf, Renaming.copyReadout, hshown', hmid] at hcopy
  rw [hid, hids] at hsubtree
  exact ⟨ts, answer, _, s', (d source.id).toRenaming, t, u, h, hcall, hb, hid ▸ hsubtree,
    htcreated.trans hucreated.symm, htname, huname, hold, hcopy⟩

end SnapshotArchive
