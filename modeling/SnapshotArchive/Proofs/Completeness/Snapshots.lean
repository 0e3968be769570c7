import SnapshotArchive.Proofs.Effects.Contents
import SnapshotArchive.Proofs.Completeness.Nodes

/-!
# Changes of snapshots are checked completely

The snapshot that is written into has no items when the first is added: it is new, or its items were
deleted. The variables that captured items are paired with differ, so no two items of the snapshot
come to be of one variable.

* `Store.addItems_ok` : complete items of different variables can be added.
* `saveSnapshot_checked`, `commitSnapshot_checked`, `markGolden_checked`, `addTag_checked`,
  `removeTag_checked` : the operations.
-/

namespace SnapshotArchive

open Text Store

/-- A captured item that has all that a record of it needs. -/
structure ItemForm.IsComplete (form : ItemForm) : Prop where
  timestamp : ∃ time, form.timestamp = some time ∧ fitsRecord time
  severity : form.severity.isSome
  status : form.status.isSome

namespace Store

variable {s t : Store} {c : Context}

/-! ### Opening a snapshot -/

section

variable {name comment : String} {status : Status} {user : Option String}

/-- A draft can be written again, or committed under a free name. -/
theorem reviseDraft_checked (hs : s.IsSound) {n : Node} (hn : n ∈ s.nodes) (hk : n.kind = .snapshot)
    (huser : user.isSome) : Checked (s.reviseDraft c n name status comment user) := by
  obtain ⟨writer, rfl⟩ := Option.isSome_iff_exists.1 huser
  refine .ite_bind (.checkNameFree _ _ _ _ _) (.ok ()) fun _ hfree => ?_
  refine Checked.bind (.ok writer) fun _ _ => changeNode_checked hs hn rfl hk.symm rfl fun hd => ?_
  have hcommitted : status = .committed := by
    cases status
    · cases hd
    · rfl
  rw [if_pos hcommitted] at hfree
  exact .inr (.inr ⟨none, fun id hid => (nomatch hid), hk ▸ hfree⟩)

/-- Opening a snapshot to write into fails only because its name is taken. -/
theorem openSnapshot_checked (hs : s.IsSound) {config : Node} (hconfig : config ∈ s.nodes)
    (hnew : s.hasNode (c.fresh 0) = false) (huser : user.isSome) :
    Checked (s.openSnapshot c config name status comment user) := by
  unfold openSnapshot
  cases hdraft : s.draft? config.id with
  | some draft =>
    obtain ⟨hmem, -, hk, -⟩ := draft?_eq_some hdraft
    exact (reviseDraft_checked hs hmem hk huser).bind fun _ _ => .ok _
  | none => exact (addNode_checked hconfig hnew huser).bind fun _ _ => .ok _

/-- What is opened has no items. -/
theorem openSnapshot_items (hs : s.IsOwned) {config : Node} (hnew : s.hasNode (c.fresh 0) = false)
    {id : Id} (h : s.openSnapshot c config name status comment user = .ok (id, t)) :
    ∀ item ∈ t.items, item.snapshot ≠ id := by
  unfold openSnapshot at h
  split at h
  · obtain ⟨s₁, -, h⟩ := bind_eq_ok_iff.1 h
    obtain ⟨rfl, rfl⟩ := Prod.mk.inj (Except.ok.inj h)
    intro item hitem
    simpa using (List.mem_filter.1 hitem).2
  · obtain ⟨s₁, hadd, h⟩ := bind_eq_ok_iff.1 h
    obtain ⟨rfl, rfl⟩ := Prod.mk.inj (Except.ok.inj h)
    obtain ⟨_, -, -, -, rfl⟩ := addNode_eq hadd
    exact (hs.ne_of_hasNode_eq_false hnew).2.1

end

/-! ### Filling it with items -/

/-- A complete item has a record. -/
theorem itemRecord_ok (snapshot pv : Id) (position : Nat) {form : ItemForm} (h : form.IsComplete) :
    ∃ item, itemRecord snapshot pv position form = .ok item := by
  obtain ⟨time, htime, hfits⟩ := h.timestamp
  obtain ⟨severity, hseverity⟩ := Option.isSome_iff_exists.1 h.severity
  obtain ⟨status, hstatus⟩ := Option.isSome_iff_exists.1 h.status
  have hrange : ∀ t ∈ form.timestamp, fitsRecord t := fun t ht =>
    Option.some.inj (htime.symm.trans ht) ▸ hfits
  exact ⟨_, demand_bind_eq_ok_iff.2 ⟨hrange, bind_eq_ok_iff.2 ⟨time, present_eq_ok_iff.2 htime,
    bind_eq_ok_iff.2 ⟨severity, present_eq_ok_iff.2 hseverity,
      bind_eq_ok_iff.2 ⟨status, present_eq_ok_iff.2 hstatus, rfl⟩⟩⟩⟩⟩

/-- Complete items of different variables can be added to a snapshot that has none of these. -/
theorem addItems_ok {snapshot : Id} {position : Nat} {pairs : List (Pv × ItemForm)}
    (hn : s.hasNode snapshot)
    (hpairs : ∀ pair ∈ pairs, (s.pv? pair.1.id).isSome ∧ pair.2.IsComplete)
    (hnodup : (pairs.map fun pair => pair.1.id).Nodup)
    (hfree : ∀ item ∈ s.items, item.snapshot = snapshot → ∀ pair ∈ pairs, item.pv ≠ pair.1.id) :
    ∃ t, addItems snapshot position pairs s = .ok t := by
  induction pairs generalizing s position with
  | nil => exact ⟨s, rfl⟩
  | cons pair pairs ih =>
    obtain ⟨hhead, hnodup⟩ := List.nodup_cons.1 hnodup
    obtain ⟨hpv, hcomplete⟩ := hpairs pair List.mem_cons_self
    obtain ⟨item, hitem⟩ := itemRecord_ok snapshot pair.1.id position hcomplete
    obtain ⟨rfl, hpvId⟩ := itemRecord_eq_ok hitem
    have hinsert : s.insertItem item = .ok { s with items := s.items ++ [item] } := by
      refine insertItem_eq_ok_iff.2 ⟨List.all_eq_true.2 fun i hi => ?_, ⟨hn, hpvId ▸ hpv⟩, rfl⟩
      by_cases hsame : i.snapshot = item.snapshot
      · have hne := hfree i hi hsame pair List.mem_cons_self
        simp [hsame, hpvId, hne]
      · simp [hsame]
    obtain ⟨t, ht⟩ := ih (s := { s with items := s.items ++ [item] }) hn
      (fun q hq => hpairs q (List.mem_cons_of_mem _ hq)) hnodup fun i hi hsame q hq => by
        rcases List.mem_append.1 hi with hi | hi
        · exact hfree i hi hsame q (List.mem_cons_of_mem _ hq)
        · rw [List.mem_singleton.1 hi, hpvId]
          exact fun he => hhead (List.mem_map.2 ⟨q, hq, he.symm⟩)
    exact ⟨t, bind_eq_ok_iff.2 ⟨item, hitem, bind_eq_ok_iff.2 ⟨_, hinsert, ht⟩⟩⟩

/-- The variables that a configuration lists differ. -/
theorem IsOwned.nodup_activePvs (hs : s.IsOwned) (config : Id) :
    ((s.activePvs config).map (·.id)).Nodup := by
  have hids : ((s.pvsOf config).map (·.id)).Nodup := by
    refine ((List.mergeSort_perm _ _).map _).symm.nodup ?_
    exact hs.pvIds.sublist (List.filter_sublist.map _)
  exact hids.sublist (List.filter_sublist.map _)

/-- The variables of pairs differ. -/
theorem pairItems_nodup (hs : s.IsOwned) {config : Id} {items : List ItemForm}
    {pairs : List (Pv × ItemForm)} (h : s.pairItems config items = .ok pairs) :
    (pairs.map fun pair => pair.1.id).Nodup := by
  have hsub := (pairItems_eq_ok h).1.map (·.id)
  rw [List.map_map] at hsub
  exact (hs.nodup_activePvs config).sublist hsub

end Store

/-! ### The operations -/

section

variable {c : Context}

/-- Saving complete items for a named author fails only by checks. -/
theorem saveSnapshot_checked {config : Id} {items : List ItemForm}
    {name comment user : Option String} (huser : user.isSome)
    (hitems : ∀ item ∈ items, item.IsComplete) :
    (saveSnapshot c config items name comment user).IsChecked c := by
  intro s₀ s t hplan hs hfresh
  obtain ⟨-, hplan⟩ := demand_bind_eq_ok_iff.1 hplan
  obtain ⟨title, htitle, hplan⟩ := ite_bind_eq_ok hplan
  obtain rfl := Except.ok.inj hplan
  have hnew := hfresh.nodes 0
  refine (Checked.requireToWrite s config .configuration).bind fun node hnode => ?_
  refine (Checked.pairItems s config items).bind fun pairs hpairs => ?_
  obtain ⟨hmem, -⟩ := node?_eq_some (requireToWrite_eq_ok_iff.1 hnode).1
  refine (openSnapshot_checked hs hmem hnew huser).bind fun opened hopen => ?_
  obtain ⟨id, s₁⟩ := opened
  obtain ⟨-, hpvs, n, hn, hid, -⟩ := openSnapshot_edits hs hmem (fun hcommitted => by
    rw [if_pos hcommitted] at htitle
    exact (checkName_eq_ok_iff.1 htitle).2) hopen
  dsimp only
  split
  · exact .refused trivial
  · have hthere : s₁.hasNode id := hasNode_iff.2 ⟨n, hn, hid⟩
    refine Checked.bind (.of_eq_ok (addItems_ok hthere (fun pair hpair => ?_)
      (pairItems_nodup hs.owned hpairs) fun item hitem hsame => ?_)) fun s₂ _ =>
        (Checked.snapshot s₂ id).bind fun _ _ => .ok _
    · have hpv := (pairItems_mem hpairs pair hpair).1
      refine ⟨?_, hitems _ ((pairItems_eq_ok hpairs).2 pair hpair)⟩
      exact List.find?_isSome.2 ⟨pair.1, hpvs ▸ hpv, by simp⟩
    · exact absurd hsame (openSnapshot_items hs.owned hnew hopen item hitem)

/-- Committing a draft for a named author fails only by checks. -/
theorem commitSnapshot_checked {id : Id} {name comment user : Option String} (huser : user.isSome) :
    (commitSnapshot c id name comment user).IsChecked c := by
  intro s₀ s t hplan hs _
  obtain ⟨title, -, hplan⟩ := bind_eq_ok_iff.1 hplan
  obtain ⟨-, hplan⟩ := demand_bind_eq_ok_iff.1 hplan
  obtain rfl := Except.ok.inj hplan
  refine (Checked.requireToWrite s id .snapshot).bind fun n hn => .ensure_bind trivial fun _ => ?_
  obtain ⟨hfind, hk⟩ := requireToWrite_eq_ok_iff.1 hn
  exact (reviseDraft_checked hs (node?_eq_some hfind).1 hk huser).bind fun s₁ _ =>
    .answerNode s₁ id

/-- Marking a snapshot as golden fails only by checks. -/
theorem markGolden_checked {exclusive : Bool} {id : Id} {golden : Bool} :
    (markGolden c exclusive id golden).IsChecked c := by
  intro s₀ s t hplan _ _
  obtain rfl := Except.ok.inj hplan
  exact (Checked.requireToWrite s id .snapshot).bind fun n _ => .ensure_bind trivial fun _ =>
    .answerNode _ n.id

/-- Adding a tag whose time can be stored fails only by checks. -/
theorem addTag_checked {id : Id} {form : TagForm}
    (htime : fitsRecord ((form.created.filter (· ≠ 0)).getD c.now)) :
    (addTag c id form).IsChecked c := by
  intro s₀ s t hplan _ _
  obtain ⟨-, hplan⟩ := demand_bind_eq_ok_iff.1 hplan
  obtain rfl := Except.ok.inj hplan
  refine (Checked.requireToWrite s id .snapshot).bind fun n hn => .ensure_bind trivial fun _ =>
    .ensure_bind trivial fun hfree => ?_
  obtain ⟨hmem, -⟩ := node?_eq_some (requireToWrite_eq_ok_iff.1 hn).1
  refine Checked.bind (.of_eq_ok ⟨(), demand_eq_ok_iff.2 htime⟩) fun _ _ => ?_
  refine Checked.bind (.of_eq_ok ⟨_, insertTag_eq_ok_iff.2 ⟨hfree, ?_, rfl⟩⟩) fun _ _ => .ok _
  exact hasNode_iff.2 ⟨n, hmem, rfl⟩

/-- Removing a tag fails only by checks. -/
theorem removeTag_checked {id : Id} {form : TagForm} : (removeTag id form).IsChecked c := by
  intro s₀ s t hplan _ _
  obtain ⟨-, hplan⟩ := demand_bind_eq_ok_iff.1 hplan
  obtain rfl := Except.ok.inj hplan
  exact (Checked.requireToRead s id .snapshot).bind fun _ _ => .ensure_bind trivial fun _ =>
    .ok _

end

end SnapshotArchive
