import SnapshotArchive.Capture
import SnapshotArchive.Proofs.Configuring

/-!
# Changing snapshots is a run of edits

A snapshot is opened, as a new draft or as the one that is there without its items, and then filled
with one item for each variable that its configuration lists. Committing, marking and tagging
change single records.

* `Store.openSnapshot_edits` : what is opened is a snapshot of the configuration.
* `Store.addItems_edits` : items may go into it that are paired with variables of the configuration.
* `saveSnapshot_edits`, `commitSnapshot_edits`, `markGolden_edits`, `addTag_edits`,
  `removeTag_edits` : the operations.
-/

namespace SnapshotArchive

open Text

/-! ### Pairing items with variables -/

section

variable {α : Type} {describe : α → PvForm} {pvs : List α}

/-- The items that are taken are among those given, unless they were taken before. -/
theorem mem_takeItems {taken : List (Option Id × ItemForm)} {items : List ItemForm}
    {e : Option Id × ItemForm} (h : e ∈ (takeItems describe pvs taken items).2) :
    e ∈ taken ∨ e.2 ∈ items := by
  induction items generalizing taken with
  | nil => exact .inl h
  | cons item items ih =>
    have later : e ∈ taken ∨ e.2 ∈ items → e ∈ taken ∨ e.2 ∈ item :: items :=
      Or.imp_right (List.mem_cons_of_mem _)
    rw [takeItems] at h
    split at h
    · exact later (ih h)
    · split at h
      · exact later (ih h)
      · rcases ih h with htaken | hitems
        · rcases List.mem_append.1 htaken with htaken | hnew
          · exact .inl htaken
          · exact .inr (List.mem_singleton.1 hnew ▸ List.mem_cons_self)
        · exact later (.inr hitems)

/-- Pairing what has a partner keeps the order. -/
theorem map_fst_filterMap {β : Type} (f : α → Option β) (l : List α) :
    (l.filterMap fun a => (f a).map (a, ·)).map Prod.fst = l.filter fun a => (f a).isSome := by
  induction l with
  | nil => rfl
  | cons a l ih => cases h : f a <;> simp [h, ih]

/-- Pairs have variables of the list, each at most once, and items that were captured. -/
theorem matchItems_eq_ok {items : List ItemForm} {pairs : List (α × ItemForm)}
    (h : matchItems describe pvs items = .ok pairs) :
    (pairs.map Prod.fst).Sublist pvs ∧ ∀ pair ∈ pairs, pair.2 ∈ items := by
  simp only [matchItems] at h
  split at h
  · obtain rfl := Except.ok.inj h
    refine ⟨?_, fun pair hpair => ?_⟩
    · rw [map_fst_filterMap]
      exact List.filter_sublist
    · obtain ⟨pv, -, he⟩ := List.mem_filterMap.1 hpair
      obtain ⟨form, hform, rfl⟩ := Option.map_eq_some_iff.1 he
      obtain ⟨before, after, hsplit, -⟩ := List.lookup_eq_some_iff.1 hform
      have hmem : ((describe pv).id, form) ∈ (takeItems describe pvs [] items).2 := by
        simp [hsplit]
      exact (mem_takeItems hmem).resolve_left List.not_mem_nil
  · cases h

end

namespace Store

/-! ### Opening a snapshot -/

section

variable {s t : Store} {c : Context} {name comment : String} {status : Status}
  {user : Option String}

/-- The draft of a configuration is one of its snapshots. -/
theorem draft?_eq_some {config : Id} {n : Node} (h : s.draft? config = some n) :
    n ∈ s.nodes ∧ n.parent = some config ∧ n.kind = .snapshot ∧ n.draft := by
  have hmem := List.mem_of_head? h
  rw [List.mem_mergeSort] at hmem
  simpa [and_assoc] using hmem

/-- A draft that is revised stays where it is, and a snapshot. -/
theorem reviseDraft_edit (hs : s.IsSound) {n : Node} (hn : n ∈ s.nodes) (hk : n.kind = .snapshot)
    (hd : n.draft) (hname : status = .committed → IsName name)
    (h : s.reviseDraft c n name status comment user = .ok t) :
    s.Edit t ∧ t.pvs = s.pvs ∧
      ∃ m ∈ t.nodes, m.id = n.id ∧ m.kind = .snapshot ∧ m.parent = n.parent := by
  obtain ⟨_, -, h⟩ := ite_bind_eq_ok h
  obtain ⟨author, -, h⟩ := bind_eq_ok_iff.1 h
  have hedit : s.Edit t := by
    refine changeNode_edit hs hn h rfl hk.symm ?_ (fun _ => hd) (fun hcommitted => hname ?_)
      (.inl rfl)
    · cases status <;> rfl
    · cases status
      · cases hcommitted
      · rfl
  obtain ⟨rfl, -⟩ := changeNode_eq_ok hs.tree hn h rfl
  exact ⟨hedit, rfl, _, mem_replaceNode_self hn rfl, rfl, rfl, rfl⟩

/-- What is opened is a snapshot of the configuration. -/
theorem openSnapshot_edits (hs : s.IsSound) {config : Node} (hconfig : config ∈ s.nodes)
    (hname : status = .committed → IsName name) {id : Id}
    (h : s.openSnapshot c config name status comment user = .ok (id, t)) :
    s.Edits t ∧ t.pvs = s.pvs ∧
      ∃ n ∈ t.nodes, n.id = id ∧ n.kind = .snapshot ∧ n.parent = some config.id := by
  unfold openSnapshot at h
  split at h
  · rename_i draft hdraft
    obtain ⟨hmem, hp, hk, hd⟩ := draft?_eq_some hdraft
    obtain ⟨s₁, hrevise, h⟩ := bind_eq_ok_iff.1 h
    obtain ⟨rfl, rfl⟩ := Prod.mk.inj (Except.ok.inj h)
    obtain ⟨hedit, hpvs, m, hm, hid, hmk, hmp⟩ := reviseDraft_edit hs hmem hk hd hname hrevise
    exact ⟨.tail (.single hedit) (.removeItems _), hpvs, m, hm, hid, hmk, hmp.trans hp⟩
  · obtain ⟨s₁, hadd, h⟩ := bind_eq_ok_iff.1 h
    obtain ⟨rfl, rfl⟩ := Prod.mk.inj (Except.ok.inj h)
    have hdraft : decide (status = .draft) = (Content.snapshot status comment).isDraft := by
      cases status <;> rfl
    obtain ⟨hedit, n, rfl, hid, hp, hcontent⟩ := addNode_edit hs hconfig hdraft
      (fun hcommitted => hname (by cases status <;> simp_all)) hadd
    exact ⟨.single hedit, rfl, n, List.mem_append_right _ List.mem_cons_self, hid,
      congrArg Content.kind hcontent, hp⟩

end

/-! ### Filling it with items -/

/-- A stored item names the snapshot and the variable that it is for. -/
theorem itemRecord_eq_ok {snapshot pv : Id} {position : Nat} {form : ItemForm} {item : Item}
    (h : itemRecord snapshot pv position form = .ok item) :
    item.snapshot = snapshot ∧ item.pv = pv := by
  obtain ⟨-, h⟩ := demand_bind_eq_ok_iff.1 h
  obtain ⟨timestamp, -, h⟩ := bind_eq_ok_iff.1 h
  obtain ⟨severity, -, h⟩ := bind_eq_ok_iff.1 h
  obtain ⟨status, -, h⟩ := bind_eq_ok_iff.1 h
  obtain rfl := Except.ok.inj h
  exact ⟨rfl, rfl⟩

/-- Captured items are paired with variables that the configuration lists, each at most once. -/
theorem pairItems_eq_ok {s : Store} {config : Id} {items : List ItemForm}
    {pairs : List (Pv × ItemForm)} (h : s.pairItems config items = .ok pairs) :
    (pairs.map Prod.fst).Sublist (s.activePvs config) ∧ ∀ pair ∈ pairs, pair.2 ∈ items := by
  unfold pairItems at h
  split at h
  · rename_i found hfound
    obtain rfl := Except.ok.inj h
    exact matchItems_eq_ok hfound
  · cases h

/-- Captured items are paired with variables of the configuration. -/
theorem pairItems_mem {s : Store} {config : Id} {items : List ItemForm}
    {pairs : List (Pv × ItemForm)} (h : s.pairItems config items = .ok pairs) :
    ∀ pair ∈ pairs, pair.1 ∈ s.pvs ∧ pair.1.config = config := by
  intro pair hpair
  have hlisted := (pairItems_eq_ok h).1.subset (List.mem_map_of_mem hpair)
  obtain ⟨hmem, hconfig, -⟩ := mem_activePvs_iff.1 hlisted
  exact ⟨hmem, hconfig⟩

/-- Adding items to a snapshot of the configuration whose variables they are for is a run of
edits. -/
theorem addItems_edits {n : Node} (hk : n.kind = .snapshot) {config : Id}
    (hp : n.parent = some config) {pairs : List (Pv × ItemForm)} {position : Nat} {s t : Store}
    (hn : n ∈ s.nodes) (hpairs : ∀ pair ∈ pairs, pair.1 ∈ s.pvs ∧ pair.1.config = config)
    (h : addItems n.id position pairs s = .ok t) : s.Edits t := by
  induction pairs generalizing s position with
  | nil =>
    obtain rfl := Except.ok.inj h
    exact .refl
  | cons pair pairs ih =>
    obtain ⟨item, hitem, h⟩ := bind_eq_ok_iff.1 h
    obtain ⟨s₁, hinsert, h⟩ := bind_eq_ok_iff.1 h
    obtain ⟨hsnapshot, hpv⟩ := itemRecord_eq_ok hitem
    obtain ⟨hnew, -, rfl⟩ := insertItem_eq_ok_iff.1 hinsert
    obtain ⟨hmem, hconfig⟩ := hpairs pair List.mem_cons_self
    refine .head (.addItem hn ⟨hsnapshot.symm, hk, pair.1, hmem, hpv.symm, ?_⟩ fun i hi => ?_)
      (ih hn (fun q hq => hpairs q (List.mem_cons_of_mem _ hq)) h)
    · rw [hp, hconfig]
    · simpa using List.all_eq_true.1 hnew i hi

/-! ### Marks -/

/-- Setting or clearing a golden mark is a run of edits. -/
theorem setGolden_edits {s : Store} (hs : s.IsSound) (c : Context) (id : Id) (golden : Bool) :
    s.Edits (s.setGolden c id golden) :=
  mapNode_edits hs id fun _ => ⟨rfl, rfl, rfl, rfl, rfl⟩

end Store

/-! ### The operations -/

open Store

/-- Saving a snapshot is a run of edits. -/
theorem saveSnapshot_edits {c : Context} {config : Id} {items : List ItemForm}
    {name comment user : Option String} {s₀ : Store} {t : Transaction Snapshot}
    (h : saveSnapshot c config items name comment user s₀ = .ok t) : t.IsEdits := by
  obtain ⟨-, h⟩ := demand_bind_eq_ok_iff.1 h
  obtain ⟨name, hname, h⟩ := ite_bind_eq_ok h
  obtain rfl := Except.ok.inj h
  intro s s' a hs ht
  obtain ⟨node, hnode, ht⟩ := bind_eq_ok_iff.1 ht
  obtain ⟨pairs, hpairs, ht⟩ := bind_eq_ok_iff.1 ht
  obtain ⟨⟨id, s₁⟩, hopen, ht⟩ := bind_eq_ok_iff.1 ht
  obtain ⟨hmem, hid⟩ := node?_eq_some (requireToWrite_eq_ok_iff.1 hnode).1
  obtain ⟨hopened, hpvs, n, hn, rfl, hk, hp⟩ := openSnapshot_edits hs hmem (fun hcommitted => by
    rw [if_pos hcommitted] at hname
    exact (checkName_eq_ok_iff.1 hname).2) hopen
  dsimp only at ht
  split at ht
  · cases ht
  · obtain ⟨s₂, hadd, ht⟩ := bind_eq_ok_iff.1 ht
    obtain ⟨found, -, ht⟩ := bind_eq_ok_iff.1 ht
    obtain ⟨-, rfl⟩ := Prod.mk.inj (Except.ok.inj ht)
    refine hopened.trans (addItems_edits hk (hid ▸ hp) hn (fun pair hpair => ?_) hadd)
    rw [hpvs]
    exact pairItems_mem hpairs pair hpair

/-- Committing a draft is a run of edits. -/
theorem commitSnapshot_edits {c : Context} {id : Id} {name comment user : Option String}
    {s₀ : Store} {t : Transaction Node} (h : commitSnapshot c id name comment user s₀ = .ok t) :
    t.IsEdits := by
  obtain ⟨name, hname, h⟩ := bind_eq_ok_iff.1 h
  obtain ⟨-, h⟩ := demand_bind_eq_ok_iff.1 h
  obtain rfl := Except.ok.inj h
  intro s s' a hs ht
  obtain ⟨n, hn, ht⟩ := bind_eq_ok_iff.1 ht
  obtain ⟨hdraft, ht⟩ := demand_bind_eq_ok_iff.1 ht
  obtain ⟨s₁, hrevise, ht⟩ := bind_eq_ok_iff.1 ht
  obtain ⟨-, rfl⟩ := answerNode_eq_ok_iff.1 ht
  obtain ⟨hn, hk⟩ := requireToWrite_eq_ok_iff.1 hn
  obtain ⟨hmem, -⟩ := node?_eq_some hn
  have hd : n.draft := (hs.named.drafts n hmem).trans hdraft
  exact .single (reviseDraft_edit hs hmem hk hd (fun _ => (checkName_eq_ok_iff.1 hname).2)
    hrevise).1

/-- Marking a snapshot as golden is a run of edits. -/
theorem markGolden_edits {c : Context} {exclusive : Bool} {id : Id} {golden : Bool} {s₀ : Store}
    {t : Transaction Node} (h : markGolden c exclusive id golden s₀ = .ok t) : t.IsEdits := by
  obtain rfl := Except.ok.inj h
  intro s s' a hs ht
  obtain ⟨n, -, ht⟩ := bind_eq_ok_iff.1 ht
  obtain ⟨-, ht⟩ := demand_bind_eq_ok_iff.1 ht
  obtain ⟨-, rfl⟩ := answerNode_eq_ok_iff.1 ht
  have hothers := hs.foldl_edits (fun hs (m : Node) => setGolden_edits hs c m.id false)
    (if golden && exclusive then s.goldenSiblings n else [])
  exact hothers.trans (setGolden_edits (hs.edits hothers) c n.id golden)

/-- Adding a tag is a run of edits. -/
theorem addTag_edits {c : Context} {id : Id} {form : TagForm} {s₀ : Store}
    {t : Transaction (List Tag)} (h : addTag c id form s₀ = .ok t) : t.IsEdits := by
  obtain ⟨-, h⟩ := demand_bind_eq_ok_iff.1 h
  obtain rfl := Except.ok.inj h
  intro s s' a hs ht
  obtain ⟨n, hn, ht⟩ := bind_eq_ok_iff.1 ht
  obtain ⟨hdraft, ht⟩ := demand_bind_eq_ok_iff.1 ht
  obtain ⟨-, ht⟩ := demand_bind_eq_ok_iff.1 ht
  obtain ⟨-, ht⟩ := demand_bind_eq_ok_iff.1 ht
  obtain ⟨s₁, hinsert, ht⟩ := bind_eq_ok_iff.1 ht
  obtain ⟨-, rfl⟩ := Prod.mk.inj (Except.ok.inj ht)
  obtain ⟨hn, hk⟩ := requireToWrite_eq_ok_iff.1 hn
  obtain ⟨hmem, -⟩ := node?_eq_some hn
  obtain ⟨hnew, -, rfl⟩ := insertTag_eq_ok_iff.1 hinsert
  refine .single (.addTag hmem rfl hk ((hs.named.drafts n hmem).trans hdraft) fun u hu => ?_)
  simpa using List.all_eq_true.1 hnew u hu

/-- Removing a tag is a run of edits. -/
theorem removeTag_edits {id : Id} {form : TagForm} {s₀ : Store} {t : Transaction (List Tag)}
    (h : removeTag id form s₀ = .ok t) : t.IsEdits := by
  obtain ⟨-, h⟩ := demand_bind_eq_ok_iff.1 h
  obtain rfl := Except.ok.inj h
  intro s s' a hs ht
  obtain ⟨n, -, ht⟩ := bind_eq_ok_iff.1 ht
  obtain ⟨-, ht⟩ := demand_bind_eq_ok_iff.1 ht
  obtain ⟨-, rfl⟩ := Prod.mk.inj (Except.ok.inj ht)
  exact .single (.removeTags _)

end SnapshotArchive
