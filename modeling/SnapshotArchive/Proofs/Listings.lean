import SnapshotArchive.Proofs.Paths
import SnapshotArchive.Proofs.Drafts
import Mathlib.Algebra.Order.Ring.Nat
import Mathlib.Data.List.Perm.Basic

/-!
# Listings and counts

Snapshots, variables, items and tags can be listed node by node; snapshots and tags are also listed
all at once, and of all there is a count. Each of these readings looks at other fields: the listing
of all snapshots does not look at parents, that of a configuration does; the items of a snapshot are
those with a variable, and all items are counted. They agree because only snapshots are drafts, and
every record has its owner.

* `Listings` : what an archive answers when it is asked for everything.
* `Listings.Agree` : how the answers fit together.
* `Service.Reachable.listings_agree` : in a reachable archive they do.
-/

namespace SnapshotArchive

open Store Archive Sample

/-! ### What is listed -/

/-- The nodes of a kind. -/
def Store.ofKind (s : Store) (k : Kind) : List Node :=
  s.nodes.filter (·.kind = k)

/-- What an archive answers to those who ask for all that there is. -/
structure Listings where
  snapshots : List Node
  /-- The snapshots of a configuration. -/
  snapshotsOf : Id → List Node
  /-- The variables of a configuration. -/
  pvsOf : Id → List Pv
  /-- The items of a snapshot. -/
  readingsOf : Id → List Reading
  tags : List Tag
  /-- The tags of a snapshot. -/
  tagsOf : Id → List Tag
  stats : Stats

/-- Whether an archive with the given tables answers so. -/
structure Archive.Answers (a : Archive) (s : Store) (l : Listings) : Prop where
  snapshots : Query.allSnapshots.ask a = .ok (.nodes l.snapshots)
  snapshotsOf : ∀ c ∈ s.ofKind .configuration,
    (Query.committedSnapshots c.id).ask a = .ok (.nodes (l.snapshotsOf c.id))
  pvsOf : ∀ c ∈ s.ofKind .configuration,
    (Query.listedPvs c.id).ask a = .ok (.pvs (l.pvsOf c.id))
  readingsOf : ∀ n ∈ s.ofKind .snapshot,
    (Query.snapshot n.id).ask a = .ok (.snapshot ⟨n, l.readingsOf n.id⟩)
  tags : Query.allTags.ask a = .ok (.tags l.tags)
  tagsOf : ∀ n ∈ s.ofKind .snapshot, (Query.tags n.id).ask a = .ok (.tags (l.tagsOf n.id))
  stats : Query.stats.ask a = .ok (.stats l.stats)

/-- How the answers fit together, and to the tables. -/
structure Listings.Agree (l : Listings) (s : Store) : Prop where
  snapshots_perm :
    l.snapshots.Perm ((s.ofKind .configuration).flatMap fun c => l.snapshotsOf c.id)
  mem_snapshots : ∀ n, n ∈ l.snapshots ↔ n ∈ s.nodes ∧ n.kind = .snapshot ∧ n.draft = false
  snapshots_once : l.snapshots.Nodup
  snapshotsOf_sorted : ∀ c ∈ s.ofKind .configuration, (l.snapshotsOf c.id).Pairwise fun n m =>
    n.created < m.created ∨ n.created = m.created ∧ n.position < m.position
  tagsOf_eq : ∀ n ∈ s.ofKind .snapshot, l.tagsOf n.id = l.tags.filter (·.snapshot = n.id)
  tags_once : ∀ t ∈ l.tags, ∃! n, n ∈ s.ofKind .snapshot ∧ t ∈ l.tagsOf n.id
  snapshots_count : l.stats.snapshots = l.stats.drafts + l.snapshots.length
  pvs_count : l.stats.pvs = ((s.ofKind .configuration).map fun c => (l.pvsOf c.id).length).sum
  items_count :
    l.stats.items = ((s.ofKind .snapshot).map fun n => (l.readingsOf n.id).length).sum
  tags_count : l.stats.tags = l.tags.length

/-! ### Lists by keys -/

/-- A list is made up of its parts for different keys. -/
theorem perm_flatMap_filter {α β : Type} [DecidableEq β] (key : α → β) {keys : List β}
    (hkeys : keys.Nodup) {l : List α} (hl : ∀ a ∈ l, key a ∈ keys) :
    l.Perm (keys.flatMap fun k => l.filter (key · = k)) := by
  induction keys generalizing l with
  | nil =>
    cases l with
    | nil => rfl
    | cons a l => cases hl a List.mem_cons_self
  | cons k keys ih =>
    obtain ⟨hk, hkeys⟩ := List.nodup_cons.1 hkeys
    have hrest : (l.filter fun a => !decide (key a = k)).Perm
        (keys.flatMap fun j => l.filter (key · = j)) := by
      refine (ih hkeys fun a ha => ?_).trans (List.Perm.flatMap_left keys fun j hj => ?_)
      · obtain ⟨ha, hne⟩ := List.mem_filter.1 ha
        exact (List.mem_cons.1 (hl a ha)).resolve_left (by simpa using hne)
      · rw [List.filter_filter]
        refine .of_eq (List.filter_congr fun a _ => ?_)
        have hne : key a = j → key a ≠ k := fun he hkey => hk (hkey ▸ he ▸ hj)
        simpa using hne
    exact (List.filter_append_perm _ l).symm.trans (hrest.append_left _)

/-- Sorting keeps the order of equals, so it makes no difference whether it comes before or after a
selection. -/
theorem filter_mergeSort {α : Type} {le : α → α → Bool}
    (trans : ∀ a b c, le a b → le b c → le a c) (total : ∀ a b, le a b || le b a) (p : α → Bool)
    (l : List α) : (l.mergeSort le).filter p = (l.filter p).mergeSort le := by
  induction l with
  | nil => simp
  | cons a l ih =>
    obtain ⟨before, after, hcons, hl, hbefore⟩ := List.mergeSort_cons trans total a l
    rw [hcons, List.filter_append]
    by_cases ha : p a
    · obtain ⟨before', after', hcons', hl', hbefore'⟩ :=
        List.mergeSort_cons trans total a (l.filter p)
      rw [List.filter_cons_of_pos ha, List.filter_cons_of_pos ha, hcons']
      have hparts : before.filter p ++ after.filter p = before' ++ after' := by
        rw [← List.filter_append, ← hl, ih, hl']
      -- The elements before the new one are those that it does not come before.
      have hsplit : ∀ {xs ys : List α} {q : List α}, q.mergeSort le = xs ++ a :: ys →
          (∀ b ∈ xs, !le a b) → (xs ++ ys).filter (fun b => !le a b) = xs := by
        intro xs ys q hq hxs
        have hsorted := hq ▸ List.pairwise_mergeSort trans total q
        have hys := (List.pairwise_cons.1 (List.pairwise_append.1 hsorted).2.1).1
        rw [List.filter_append, List.filter_eq_self.2 hxs, List.filter_eq_nil_iff.2,
          List.append_nil]
        intro b hb
        simp [hys b hb]
      have hsame : before.filter p = before' := by
        rw [← hsplit hcons' hbefore', ← hparts, ← List.filter_append, List.filter_comm,
          hsplit hcons hbefore]
      rw [hsame] at hparts ⊢
      rw [List.append_cancel_left hparts]
    · rw [List.filter_cons_of_neg ha, List.filter_cons_of_neg ha, ← List.filter_append, ← hl, ih]

/-- The order of tags is transitive. -/
theorem Tag.precedes_trans (t u v : Tag) (htu : t.precedes u) (huv : u.precedes v) :
    t.precedes v := by
  simp only [precedes, decide_eq_true_eq] at *
  omega

/-- The order of tags is total. -/
theorem Tag.precedes_total (t u : Tag) : t.precedes u || u.precedes t := by
  simp only [precedes, Bool.or_eq_true, decide_eq_true_eq]
  omega

/-! ### Records by their owners -/

namespace Store

variable {s : Store}

/-- The nodes of a kind are the stored ones of the kind. -/
@[simp] theorem mem_ofKind_iff {k : Kind} {n : Node} :
    n ∈ s.ofKind k ↔ n ∈ s.nodes ∧ n.kind = k := by
  simp [ofKind]

/-- Records that belong to nodes of a kind are made up of those of each of these. -/
theorem IsTree.perm_flatMap_ofKind (h : s.IsTree) {α : Type} (owner : α → Option Id) {l : List α}
    {k : Kind} (hl : ∀ a ∈ l, ∃ n ∈ s.ofKind k, owner a = some n.id) :
    l.Perm ((s.ofKind k).flatMap fun n => l.filter (owner · = some n.id)) := by
  have hkeys : ((s.ofKind k).map fun n => some n.id).Nodup := by
    have hids : ((s.ofKind k).map (·.id)).Nodup := h.nodup.sublist (List.filter_sublist.map _)
    have hsome := hids.map fun _ _ => Option.some.inj
    rwa [List.map_map] at hsome
  have hparts := perm_flatMap_filter owner hkeys fun a ha => by
    obtain ⟨n, hn, he⟩ := hl a ha
    exact he ▸ List.mem_map_of_mem hn
  rwa [List.flatMap_map] at hparts

/-- There are as many of them as the nodes have together. -/
theorem IsTree.length_eq_sum (h : s.IsTree) {α : Type} (owner : α → Id) {l : List α}
    {k : Kind} (hl : ∀ a ∈ l, ∃ n ∈ s.ofKind k, n.id = owner a) :
    l.length = ((s.ofKind k).map fun n => (l.filter (owner · = n.id)).length).sum := by
  have hparts := h.perm_flatMap_ofKind (fun a => some (owner a)) fun a ha => by
    obtain ⟨n, hn, he⟩ := hl a ha
    exact ⟨n, hn, congrArg some he.symm⟩
  simpa [List.length_flatMap] using hparts.length_eq

/-! ### Snapshots -/

/-- Every snapshot lies in a configuration. -/
theorem IsTree.exists_configuration (h : s.IsTree) {n : Node} (hn : n ∈ s.nodes)
    (hk : n.kind = .snapshot) : ∃ c ∈ s.ofKind .configuration, n.parent = some c.id := by
  cases hp : n.parent with
  | none =>
    rw [h.kind_of_parent_eq_none hn hp] at hk
    cases hk
  | some p =>
    obtain ⟨c, hc, rfl, hholds⟩ := h.contained n hn p hp
    rcases Kind.mayHold_iff.1 hholds with ⟨-, hfolder | hconfig⟩ | ⟨hconfig, -⟩
    · rw [hk] at hfolder
      cases hfolder
    · rw [hk] at hconfig
      cases hconfig
    · exact ⟨c, mem_ofKind_iff.2 ⟨hc, hconfig⟩, rfl⟩

/-- The committed snapshots of a configuration, the oldest first. -/
def snapshotsOf (s : Store) (config : Id) : List Node :=
  (s.nodes.filter fun n =>
    n.parent = some config && n.kind = .snapshot && !n.draft).mergeSort Node.olderThan

/-- The listing of all snapshots has those of all configurations. -/
theorem allSnapshots_perm (h : s.IsTree) :
    s.allSnapshots.Perm ((s.ofKind .configuration).flatMap fun c => s.snapshotsOf c.id) := by
  have hparts := h.perm_flatMap_ofKind (k := .configuration) Node.parent
    (l := s.nodes.filter fun n => n.kind = .snapshot && !n.draft) fun n hn => by
      obtain ⟨hn, hk⟩ := List.mem_filter.1 hn
      exact h.exists_configuration hn (by simp_all)
  refine (List.mergeSort_perm _ _).trans (hparts.trans (List.Perm.flatMap_left _ fun c _ => ?_))
  rw [List.filter_filter]
  refine (List.Perm.of_eq (List.filter_congr fun n _ => ?_)).trans (List.mergeSort_perm _ _).symm
  simp [Bool.and_assoc]

/-- A listing of snapshots is in the order of their creation, and of their positions. -/
theorem snapshotsOf_sorted (h : s.IsTree) (hordered : s.IsOrdered) (config : Id) :
    (s.snapshotsOf config).Pairwise fun n m =>
      n.created < m.created ∨ n.created = m.created ∧ n.position < m.position := by
  have hsorted : (s.snapshotsOf config).Pairwise fun n m => n.olderThan m := by
    refine List.pairwise_mergeSort (fun a b k hab hbk => ?_) (fun a b => ?_) _
    · simp only [Node.olderThan, Bool.or_eq_true, Bool.and_eq_true, decide_eq_true_eq] at *
      omega
    · simp only [Node.olderThan, Bool.or_eq_true, Bool.and_eq_true, decide_eq_true_eq]
      omega
  have hnodup : (s.snapshotsOf config).Nodup :=
    (List.mergeSort_perm _ _).nodup_iff.2 (h.nodup.of_map.filter _)
  refine (hsorted.and hnodup).imp_of_mem fun {n m} hn hm hnm => ?_
  obtain ⟨holder, hne⟩ := hnm
  simp only [snapshotsOf, List.mem_mergeSort, List.mem_filter, Bool.and_eq_true,
    decide_eq_true_eq] at hn hm
  have hposition : n.position ≠ m.position := fun he =>
    hne (hordered n hn.1 m hm.1 config hn.2.1.1 hm.2.1.1 he)
  simp only [Node.olderThan, Bool.or_eq_true, Bool.and_eq_true, decide_eq_true_eq] at holder
  omega

/-- Only snapshots are drafts. -/
theorem countP_snapshot (h : s.IsNamed) :
    s.nodes.countP (·.kind = .snapshot) = s.nodes.countP (·.draft) + s.allSnapshots.length := by
  have hdrafts : (s.ofKind .snapshot).countP (·.draft) = s.nodes.countP (·.draft) := by
    rw [ofKind, List.countP_filter]
    refine List.countP_congr fun n hn => ?_
    have hk := h.kind_of_draft hn
    simp_all
  have hrest : (s.ofKind .snapshot).countP (fun n => ¬n.draft) = s.allSnapshots.length := by
    rw [allSnapshots, List.length_mergeSort, ofKind, List.countP_filter,
      ← List.countP_eq_length_filter]
    exact List.countP_congr fun n _ => by simp [and_comm]
  rw [← hdrafts, ← hrest, ← List.length_eq_countP_add_countP, ofKind, List.countP_eq_length_filter]

/-! ### Tags -/

/-- The tags of a snapshot are listed as among all tags. -/
theorem filter_allTags (s : Store) (snapshot : Id) :
    s.allTags.filter (·.snapshot = snapshot) = s.tagsOf snapshot := by
  rw [allTags, tagsOf, filter_mergeSort Tag.precedes_trans Tag.precedes_total, List.filter_reverse]

/-- Every tag is listed for exactly one snapshot. -/
theorem exists_unique_owner (h : s.IsSound) {t : Tag} (ht : t ∈ s.allTags) :
    ∃! n, n ∈ s.ofKind .snapshot ∧ t ∈ s.tagsOf n.id := by
  rw [mem_allTags_iff] at ht
  obtain ⟨n, hn, hid, hk, -⟩ := h.owned.tagOwner t ht
  refine ⟨n, ⟨mem_ofKind_iff.2 ⟨hn, hk⟩, mem_tagsOf_iff.2 ⟨ht, hid.symm⟩⟩, fun m hm => ?_⟩
  exact eq_of_id_eq h.tree.nodup (mem_ofKind_iff.1 hm.1).1 hn
    ((mem_tagsOf_iff.1 hm.2).2.symm.trans hid.symm)

/-! ### Variables and items -/

/-- As many variables are active as all configurations list together. -/
theorem countP_active (h : s.IsSound) :
    s.pvs.countP (·.active) =
      ((s.ofKind .configuration).map fun c => (s.activePvs c.id).length).sum := by
  rw [List.countP_eq_length_filter, h.tree.length_eq_sum Pv.config (k := .configuration)]
  · refine congrArg List.sum (List.map_congr_left fun c _ => ?_)
    rw [activePvs, pvsOf, List.filter_comm]
    exact ((List.mergeSort_perm _ _).filter _).symm.length_eq
  · intro pv hpv
    obtain ⟨c, hc, hid, hk⟩ := h.owned.pvOwner pv (List.mem_filter.1 hpv).1
    exact ⟨c, mem_ofKind_iff.2 ⟨hc, hk⟩, hid⟩

/-- Every item is read, since its variable is there. -/
theorem length_items (h : s.IsSound) :
    s.items.length = ((s.ofKind .snapshot).map fun n => (s.readings n.id).length).sum := by
  rw [h.tree.length_eq_sum Item.snapshot (k := .snapshot)]
  · refine congrArg List.sum (List.map_congr_left fun n hn => ?_)
    have hread := congrArg List.length (h.map_item_readings (mem_ofKind_iff.1 hn).1)
    rw [List.length_map] at hread
    rw [hread, itemsOf, List.length_mergeSort]
  · intro item hitem
    obtain ⟨n, hn, hid, hk, -⟩ := h.owned.itemOwner item hitem
    exact ⟨n, mem_ofKind_iff.2 ⟨hn, hk⟩, hid⟩

/-! ### All listings -/

/-- What is listed of a store. -/
def listings (s : Store) : Listings where
  snapshots := s.allSnapshots
  snapshotsOf := s.snapshotsOf
  pvsOf := s.activePvs
  readingsOf := s.readings
  tags := s.allTags
  tagsOf := s.tagsOf
  stats := s.stats

/-- The listings of a sound and ordered store agree. -/
theorem agree_listings (h : s.IsSound) (hordered : s.IsOrdered) : s.listings.Agree s where
  snapshots_perm := allSnapshots_perm h.tree
  mem_snapshots _ := mem_allSnapshots_iff
  snapshots_once := (List.mergeSort_perm _ _).nodup_iff.2 (h.tree.nodup.of_map.filter _)
  snapshotsOf_sorted c _ := snapshotsOf_sorted h.tree hordered c.id
  tagsOf_eq n _ := (s.filter_allTags n.id).symm
  tags_once _ ht := exists_unique_owner h ht
  snapshots_count := countP_snapshot h.named
  pvs_count := countP_active h
  items_count := length_items h
  tags_count := ((List.mergeSort_perm _ _).trans (List.reverse_perm _)).length_eq.symm

/-- A node of a kind is found by those who read it as one. -/
theorem requireToRead_of_mem (h : s.IsTree) {k : Kind} {n : Node} (hn : n ∈ s.ofKind k) :
    s.requireToRead n.id k = .ok n := by
  obtain ⟨hn, hk⟩ := mem_ofKind_iff.1 hn
  rw [requireToRead, require_eq_ok_iff.2 (node?_of_mem h.nodup hn)]
  simp [hk, demand, bind, Except.bind, pure, Except.pure]

end Store

/-- An archive answers with the listings of its store. -/
theorem Archive.answers_listings {a : Archive} {s : Store} (h : s.IsTree) (hs : a.store = some s) :
    a.Answers s s.listings where
  snapshots := read_of_store hs _
  snapshotsOf c hc := (read_of_store hs _).trans (by
    rw [Query.answer, committedSnapshots, requireToRead_of_mem h hc]
    rfl)
  pvsOf c hc := (read_of_store hs _).trans (by
    rw [Query.answer, listedPvs, requireToRead_of_mem h hc]
    rfl)
  readingsOf n hn := (read_of_store hs _).trans (by
    rw [Query.answer, snapshot, requireToRead_of_mem h hn]
    rfl)
  tags := read_of_store hs _
  tagsOf n hn := (read_of_store hs _).trans (by
    rw [Query.answer, snapshotTags, requireToRead_of_mem h hn]
    rfl)
  stats := read_of_store hs _

namespace Sample

/-- A configuration has a draft beside its committed snapshot, which was copied before. -/
def sketched : Archive :=
  perform "d" (.saveSnapshot "c0" [item] none none (some "u")) captured

/-- The archive with a draft beside a committed snapshot can be reached. -/
theorem reachable_sketched : ∃ ts, Service.Reachable ⟨sketched, ts⟩ := by
  obtain ⟨ts, h⟩ := reachable_captured
  exact reachable_perform h "d" (.saveSnapshot "c0" [item] none none (some "u"))

end Sample

namespace Service

/-- In a reachable archive the listings agree with each other and with the counts. -/
theorem Reachable.listings_agree {sv : Service} (h : sv.Reachable) :
    ∃ s l, sv.archive.store = some s ∧ sv.archive.Answers s l ∧ l.Agree s := by
  obtain ⟨⟨s, hs, hsound⟩, -⟩ := h.isSound
  exact ⟨s, s.listings, hs, answers_listings hsound.tree hs,
    agree_listings hsound (h.isOrdered hs)⟩

/-- Of three snapshots one is a draft. It is not listed, and its item is counted. -/
theorem listings_agree_sketched : ∃ s l, sketched.store = some s ∧ sketched.Answers s l ∧
    l.snapshots.length = 2 ∧
    ((s.ofKind .snapshot).map fun n => (l.readingsOf n.id).length).sum = 3 := by
  obtain ⟨ts, h⟩ := reachable_sketched
  obtain ⟨s, l, hs, hanswers, hagree⟩ := h.listings_agree
  have htree := (h.isSound_store hs).tree
  have hstats : l.stats = s.stats :=
    Answer.stats.inj (Except.ok.inj (hanswers.stats.symm.trans (answers_listings htree hs).stats))
  have hcounts : sketched.store.map (fun s => (s.stats.snapshots, s.stats.drafts, s.stats.items)) =
      some (3, 1, 3) := by
    decide +kernel
  rw [show sketched.store = some s from hs, Option.map_some, Option.some.injEq, ← hstats,
    Prod.mk.injEq, Prod.mk.injEq] at hcounts
  obtain ⟨hsnapshots, hdrafts, hitems⟩ := hcounts
  refine ⟨s, l, hs, hanswers, ?_, hagree.items_count ▸ hitems⟩
  have := hagree.snapshots_count
  omega

end Service

end SnapshotArchive
