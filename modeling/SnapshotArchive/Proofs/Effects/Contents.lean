import SnapshotArchive.Proofs.Capturing
import SnapshotArchive.Proofs.Effects.Nodes

/-!
# Effects of operations on what belongs to nodes

An update of a configuration goes through its variables one by one and leaves those of all other
configurations alone (`Store.KeepsOthers`), and no item goes: a variable that an item refers to is
retired and not deleted. Saving a snapshot adds items of that snapshot, and an exclusive golden mark
is taken off each of the others once.

* `Store.replacePvs_keepsOthers` : the update of a list of variables.
* `Store.foldl_setGolden` : taking the mark off several snapshots.
* `createConfiguration_effect`, `updateConfiguration_effect`, `renamePv_effect`,
  `saveSnapshot_effect`, `commitSnapshot_effect`, `markGolden_effect`, `addTag_effect`,
  `removeTag_effect` : the operations.
-/

namespace SnapshotArchive

open Text Store

namespace Store

/-! ### Variables -/

section

variable {s t u : Store} {config : Id}

/-- Adding variables to a configuration adds rows of it. -/
theorem addPvs_eq {c : Context} {position : Nat} {pvs : List PvForm}
    (h : s.addPvs c config position pvs = .ok t) :
    ∃ added, (∀ pv ∈ added, pv.config = config) ∧ t = { s with pvs := s.pvs ++ added } := by
  induction pvs generalizing s position with
  | nil =>
    obtain rfl := Except.ok.inj h
    exact ⟨[], by simp, by simp⟩
  | cons pv pvs ih =>
    obtain ⟨s₁, hinsert, h⟩ := bind_eq_ok_iff.1 h
    obtain ⟨-, -, -, rfl⟩ := insertPv_eq_ok_iff.1 hinsert
    obtain ⟨added, hadded, rfl⟩ := ih h
    refine ⟨_, ?_, congrArg (fun pvs => { s with pvs }) (List.append_assoc _ _ _)⟩
    intro q hq
    rcases List.mem_append.1 hq with hq | hq
    · rw [List.mem_singleton.1 hq]
    · exact hadded q hq

/-- A change of a variable that passes is made. -/
theorem changePv_eq_ok {id : Id} {f : Pv → Pv} (h : s.changePv id f = .ok t) :
    t = s.mapPv id f := by
  unfold changePv at h
  split at h
  · rename_i hnone
    rw [mapPv_of_pv?_eq_none hnone]
    exact (Except.ok.inj h).symm
  · simp only [demand_bind_eq_ok_iff, pure, Except.pure, Except.ok.injEq] at h
    exact h.2.symm

/-- What a change of the variables of one configuration keeps: everything else, and whose the
variables are. -/
structure KeepsOthers (s : Store) (config : Id) (t : Store) : Prop where
  nodes : t.nodes = s.nodes
  items : t.items = s.items
  tags : t.tags = s.tags
  others : ∀ id ≠ config, t.pvs.filter (·.config = id) = s.pvs.filter (·.config = id)
  own : ∀ q ∈ s.pvs, q.config = config → ∀ p ∈ t.pvs, p.id = q.id → p.config = config

namespace KeepsOthers

/-- A store keeps what is in it. -/
theorem refl (h : (s.pvs.map (·.id)).Nodup) (config : Id) : s.KeepsOthers config s :=
  ⟨rfl, rfl, rfl, fun _ _ => rfl, fun _ hq hc _ hp he => pv_eq_of_id_eq h hp hq he ▸ hc⟩

/-- Storing a variable of the configuration keeps the rest. -/
theorem insertPv (h : s.KeepsOthers config t) {pv : Pv} (hc : pv.config = config)
    (hinsert : t.insertPv pv = .ok u) : s.KeepsOthers config u := by
  obtain ⟨-, -, -, rfl⟩ := insertPv_eq_ok_iff.1 hinsert
  refine ⟨h.nodes, h.items, h.tags, fun id hid => ?_, fun q hq hqc p hp he => ?_⟩
  · have hother : ∀ q ∈ [pv], decide (q.config = id) = false := by
      simpa [hc] using Ne.symm hid
    rw [filter_append_of_forall_not hother, h.others id hid]
  · rcases List.mem_append.1 hp with hp | hp
    · exact h.own q hq hqc p hp he
    · rw [List.mem_singleton.1 hp, hc]

/-- Changing a variable of the configuration keeps the rest. -/
theorem mapPv (h : s.KeepsOthers config t) {q : Pv} (hq : q ∈ s.pvs) (hc : q.config = config)
    {f : Pv → Pv} (hf : ∀ p, (f p).id = p.id ∧ (f p).config = p.config) :
    s.KeepsOthers config (t.mapPv q.id f) := by
  have hown := h.own q hq hc
  refine ⟨h.nodes, h.items, h.tags, fun id hid => ?_, fun o ho hoc p hp he => ?_⟩
  · rw [← h.others id hid, Store.mapPv, List.filter_map]
    have hsame : t.pvs.filter ((fun pv => decide (pv.config = id)) ∘ fun pv =>
        if pv.id = q.id then f pv else pv) = t.pvs.filter fun pv => decide (pv.config = id) := by
      refine List.filter_congr fun p _ => ?_
      rw [Function.comp_apply]
      split
      · rw [(hf p).2]
      · rfl
    rw [hsame]
    refine (List.map_congr_left fun p hp => if_neg fun he => ?_).trans (List.map_id _)
    obtain ⟨hp, hpc⟩ := List.mem_filter.1 hp
    exact hid ((of_decide_eq_true hpc).symm.trans (hown p hp he))
  · obtain ⟨r, hr, rfl⟩ := List.mem_map.1 hp
    split at he
    · rw [if_pos ‹_›, (hf r).2]
      exact h.own o ho hoc r hr ((hf r).1 ▸ he)
    · rw [if_neg ‹_›]
      exact h.own o ho hoc r hr he

/-- Deleting a variable of the configuration that no item refers to keeps the rest. -/
theorem removePv (h : s.KeepsOthers config t) {q : Pv} (hq : q ∈ s.pvs) (hc : q.config = config)
    (hfree : t.isReferenced q.id = false) : s.KeepsOthers config (t.removePv q.id) := by
  refine ⟨h.nodes, ?_, h.tags, fun id hid => ?_, fun o ho hoc p hp he => ?_⟩
  · rw [← h.items]
    refine List.filter_eq_self.2 fun i hi => ?_
    simpa using List.any_eq_false.1 hfree i hi
  · rw [← h.others id hid, Store.removePv, List.filter_filter]
    refine List.filter_congr fun p hp => ?_
    by_cases hpc : p.config = id
    · have hne : p.id ≠ q.id := fun he => hid (hpc.symm.trans (h.own q hq hc p hp he))
      simp [hpc, hne]
    · simp [hpc]
  · exact h.own o ho hoc p (mem_pvs_removePv_iff.1 hp).1 he

/-- Taking a variable of the configuration off its list keeps the rest. -/
theorem unlistPv (h : s.KeepsOthers config t) {q : Pv} (hq : q ∈ s.pvs) (hc : q.config = config) :
    s.KeepsOthers config (t.unlistPv q.id) := by
  unfold Store.unlistPv
  split
  · exact h.mapPv hq hc fun p => ⟨rfl, rfl⟩
  · rename_i hfree
    exact h.removePv hq hc (Bool.eq_false_iff.2 hfree)

end KeepsOthers

/-- Bringing a list into the configuration keeps the rest. -/
theorem listPvs_keepsOthers {c : Context} {position used : Nat} {pvs : List PvForm}
    (hkeeps : s.KeepsOthers config t) (h : s.listPvs c config position used pvs t = .ok u) :
    s.KeepsOthers config u := by
  induction pvs generalizing t position used with
  | nil => exact Except.ok.inj h ▸ hkeeps
  | cons pv pvs ih =>
    rw [listPvs] at h
    split at h
    · rename_i kept hkept
      obtain ⟨hmem, hconfig⟩ := mem_of_keptPv? hkept
      obtain ⟨t₁, hchange, h⟩ := bind_eq_ok_iff.1 h
      obtain rfl := changePv_eq_ok hchange
      refine ih (hkeeps.mapPv hmem hconfig ?_) h
      exact fun p => ⟨rfl, rfl⟩
    · obtain ⟨t₁, hinsert, h⟩ := bind_eq_ok_iff.1 h
      exact ih (hkeeps.insertPv rfl hinsert) h

/-- Taking several variables of the configuration off its list keeps the rest. -/
theorem foldl_unlistPv_keepsOthers {dropped : List Pv} (hkeeps : s.KeepsOthers config t)
    (hdropped : ∀ pv ∈ dropped, pv ∈ s.pvs ∧ pv.config = config) :
    s.KeepsOthers config (dropped.foldl (fun t pv => t.unlistPv pv.id) t) := by
  induction dropped generalizing t with
  | nil => exact hkeeps
  | cons pv dropped ih =>
    obtain ⟨hmem, hconfig⟩ := hdropped pv List.mem_cons_self
    exact ih (hkeeps.unlistPv hmem hconfig) fun q hq => hdropped q (List.mem_cons_of_mem _ hq)

/-- Another list of variables for one configuration keeps everything else. -/
theorem replacePvs_keepsOthers (hs : (s.pvs.map (·.id)).Nodup) {c : Context} {pvs : List PvForm}
    (h : s.replacePvs c config pvs = .ok t) : s.KeepsOthers config t := by
  obtain ⟨listed, hlist, h⟩ := bind_eq_ok_iff.1 h
  obtain rfl := Except.ok.inj h
  refine foldl_unlistPv_keepsOthers (listPvs_keepsOthers (.refl hs config) hlist) fun pv hpv => ?_
  obtain ⟨hmem, hconfig, -⟩ := mem_activePvs_iff.1 (List.mem_filter.1 hpv).1
  exact ⟨hmem, hconfig⟩

/-! ### Items -/

/-- Adding items to a snapshot adds rows of it. -/
theorem addItems_eq {snapshot : Id} {position : Nat} {pairs : List (Pv × ItemForm)}
    (h : addItems snapshot position pairs s = .ok t) :
    ∃ added, (∀ item ∈ added, item.snapshot = snapshot) ∧
      t = { s with items := s.items ++ added } := by
  induction pairs generalizing s position with
  | nil =>
    obtain rfl := Except.ok.inj h
    exact ⟨[], by simp, by simp⟩
  | cons pair pairs ih =>
    obtain ⟨item, hitem, h⟩ := bind_eq_ok_iff.1 h
    obtain ⟨s₁, hinsert, h⟩ := bind_eq_ok_iff.1 h
    obtain ⟨-, -, rfl⟩ := insertItem_eq_ok_iff.1 hinsert
    obtain ⟨added, hadded, rfl⟩ := ih h
    refine ⟨item :: added, fun i hi => ?_, by simp⟩
    rcases List.mem_cons.1 hi with rfl | hi
    · exact (itemRecord_eq_ok hitem).1
    · exact hadded i hi

/-! ### Drafts and golden marks -/

/-- Revising a draft for a named author replaces it. -/
theorem reviseDraft_eq (hs : s.IsTree) {c : Context} {n : Node} (hn : n ∈ s.nodes) {name : String}
    {status : Status} {comment : String} {user : Option String}
    (h : s.reviseDraft c n name status comment user = .ok t) :
    ∃ writer, user = some writer ∧ t = s.replaceNode (n.revised c name status comment writer) := by
  obtain ⟨_, -, h⟩ := ite_bind_eq_ok h
  obtain ⟨writer, hwriter, h⟩ := bind_eq_ok_iff.1 h
  exact ⟨writer, present_eq_ok_iff.1 hwriter, changeNode_eq_replaceNode hs.nodup hn rfl h⟩

/-- The golden mark is taken off each of several nodes once. -/
theorem foldl_setGolden (c : Context) {others : List Node} (h : (others.map (·.id)).Nodup) :
    others.foldl (fun s m => s.setGolden c m.id false) s =
      { s with nodes := s.nodes.map fun m =>
          if m.id ∈ others.map (·.id) then m.marked c false else m } := by
  induction others generalizing s with
  | nil => simp
  | cons o others ih =>
    obtain ⟨hhead, h⟩ := List.nodup_cons.1 h
    rw [List.foldl_cons, ih h]
    simp only [setGolden, mapNode, List.map_map]
    congr 1
    refine List.map_congr_left fun m _ => ?_
    rw [Function.comp_apply]
    by_cases hm : m.id = o.id
    · have hmem : m.id ∈ (o :: others).map (·.id) := List.mem_cons.2 (.inl hm)
      have hrest : (m.marked c false).id ∉ others.map (·.id) := by
        show m.id ∉ others.map (·.id)
        rw [hm]
        exact hhead
      rw [if_pos hm, if_pos hmem]
      exact if_neg hrest
    · have hmem : m.id ∈ (o :: others).map (·.id) ↔ m.id ∈ others.map (·.id) := by simp [hm]
      rw [if_neg hm]
      simp only [hmem]

/-- The golden siblings of a node differ. -/
theorem IsTree.nodup_goldenSiblings (hs : s.IsTree) (n : Node) :
    ((s.goldenSiblings n).map (·.id)).Nodup :=
  hs.nodup.sublist (List.filter_sublist.map _)

/-- A node is none of its golden siblings. -/
theorem not_mem_goldenSiblings (s : Store) (n : Node) :
    n.id ∉ (s.goldenSiblings n).map (·.id) := by
  intro hid
  obtain ⟨m, hm, he⟩ := List.mem_map.1 hid
  have hholds := (List.mem_filter.1 hm).2
  simp [he] at hholds

/-- Setting the mark of a snapshot when it was taken off others. -/
theorem foldl_setGolden_setGolden {c : Context} {n : Node} {golden : Bool} {others : List Node}
    (h : (others.map (·.id)).Nodup) (hn : n.id ∉ others.map (·.id)) :
    (others.foldl (fun s m => s.setGolden c m.id false) s).setGolden c n.id golden =
      s.mark c n golden others := by
  rw [foldl_setGolden c h]
  simp only [setGolden, mapNode, mark, List.map_map]
  congr 1
  refine List.map_congr_left fun m _ => ?_
  rw [Function.comp_apply]
  by_cases hm : m.id = n.id
  · have hnone : m.id ∉ others.map (·.id) := hm ▸ hn
    rw [if_neg hnone, if_pos hm, if_pos hm]
    rfl
  · rw [if_neg hm]
    split
    · exact if_neg hm
    · rfl

end

end Store

/-! ### The operations -/

section

variable {c : Context} {p : Policy} {s₀ s s' : Store}

/-- What creating a configuration makes of the tables. -/
theorem createConfiguration_effect {parent : Id} {form : ConfigurationForm} {user : Option String}
    {t : Transaction Configuration} {answer : Configuration}
    (hplan : createConfiguration c parent form user s₀ = .ok t) (ht : t s = .ok (answer, s')) :
    (Operation.createConfiguration parent form user).Effect c p s s' := by
  obtain ⟨name, hname, hplan⟩ := bind_eq_ok_iff.1 hplan
  obtain ⟨pvs, -, hplan⟩ := bind_eq_ok_iff.1 hplan
  obtain rfl := Except.ok.inj hplan
  obtain ⟨q, hq, ht⟩ := bind_eq_ok_iff.1 ht
  obtain ⟨s₁, hadd, ht⟩ := bind_eq_ok_iff.1 ht
  obtain ⟨s₂, haddPvs, ht⟩ := bind_eq_ok_iff.1 ht
  obtain ⟨found, -, ht⟩ := bind_eq_ok_iff.1 ht
  obtain ⟨-, rfl⟩ := Prod.mk.inj (Except.ok.inj ht)
  obtain ⟨hmem, rfl⟩ := node?_eq_some (require_eq_ok_iff.1 hq)
  obtain ⟨writer, hwriter, hnew, hholds, rfl⟩ := addNode_eq hadd
  obtain ⟨added, hadded, rfl⟩ := addPvs_eq haddPvs
  exact .createConfiguration hmem (form.isConfiguration ▸ hholds) hname hwriter hnew hadded

/-- What adding a tag makes of the tables. -/
theorem addTag_effect {id : Id} {form : TagForm} {t : Transaction (List Tag)} {answer : List Tag}
    (hplan : addTag c id form s₀ = .ok t) (ht : t s = .ok (answer, s')) :
    (Operation.addTag id form).Effect c p s s' := by
  obtain ⟨-, hplan⟩ := demand_bind_eq_ok_iff.1 hplan
  obtain rfl := Except.ok.inj hplan
  obtain ⟨n, hn, ht⟩ := bind_eq_ok_iff.1 ht
  obtain ⟨hdraft, ht⟩ := demand_bind_eq_ok_iff.1 ht
  obtain ⟨-, ht⟩ := demand_bind_eq_ok_iff.1 ht
  obtain ⟨-, ht⟩ := demand_bind_eq_ok_iff.1 ht
  obtain ⟨s₁, hinsert, ht⟩ := bind_eq_ok_iff.1 ht
  obtain ⟨-, rfl⟩ := Prod.mk.inj (Except.ok.inj ht)
  obtain ⟨hfind, hkind⟩ := requireToWrite_eq_ok_iff.1 hn
  obtain ⟨hmem, rfl⟩ := node?_eq_some hfind
  obtain ⟨-, -, rfl⟩ := insertTag_eq_ok_iff.1 hinsert
  exact .addTag hmem hkind hdraft rfl

/-- What removing a tag makes of the tables. -/
theorem removeTag_effect {id : Id} {form : TagForm} {t : Transaction (List Tag)}
    {answer : List Tag} (hplan : removeTag id form s₀ = .ok t) (ht : t s = .ok (answer, s')) :
    (Operation.removeTag id form).Effect c p s s' := by
  obtain ⟨-, hplan⟩ := demand_bind_eq_ok_iff.1 hplan
  obtain rfl := Except.ok.inj hplan
  obtain ⟨n, -, ht⟩ := bind_eq_ok_iff.1 ht
  obtain ⟨-, ht⟩ := demand_bind_eq_ok_iff.1 ht
  obtain ⟨-, rfl⟩ := Prod.mk.inj (Except.ok.inj ht)
  exact .removeTag

variable (hs : s.IsSound)

include hs

/-- What updating a configuration makes of the tables. -/
theorem updateConfiguration_effect {form : ConfigurationForm} {user : Option String}
    {t : Transaction Configuration} {answer : Configuration}
    (hplan : updateConfiguration c form user s₀ = .ok t) (ht : t s = .ok (answer, s')) :
    (Operation.updateConfiguration form user).Effect c p s s' := by
  obtain ⟨name, hname, hplan⟩ := bind_eq_ok_iff.1 hplan
  obtain ⟨pvs, -, hplan⟩ := bind_eq_ok_iff.1 hplan
  obtain rfl := Except.ok.inj hplan
  obtain ⟨n, hn, ht⟩ := bind_eq_ok_iff.1 ht
  obtain ⟨hversion, ht⟩ := demand_bind_eq_ok_iff.1 ht
  obtain ⟨_, -, ht⟩ := ite_bind_eq_ok ht
  obtain ⟨s₁, hchange, ht⟩ := bind_eq_ok_iff.1 ht
  obtain ⟨⟨nodes, pvs', items, tags⟩, hreplace, ht⟩ := bind_eq_ok_iff.1 ht
  obtain ⟨found, -, ht⟩ := bind_eq_ok_iff.1 ht
  obtain ⟨-, rfl⟩ := Prod.mk.inj (Except.ok.inj ht)
  obtain ⟨hfind, hkind⟩ := requireToWrite_eq_ok_iff.1 hn
  obtain ⟨hmem, hid⟩ := node?_eq_some hfind
  obtain rfl : s₁ = s.replaceNode (n.configured c form name user) :=
    changeNode_eq_replaceNode hs.tree.nodup hmem rfl hchange
  have hkeeps := replacePvs_keepsOthers (s := s.replaceNode (n.configured c form name user))
    hs.owned.pvIds hreplace
  obtain ⟨rfl, rfl, rfl, hothers, -⟩ := hkeeps
  exact .updateConfiguration hmem hkind hid hversion hname hothers

/-- What renaming a variable makes of the tables. -/
theorem renamePv_effect {config : Id} {old new user : Option String} {t : Transaction Pv}
    {answer : Pv} (hplan : renamePv c config old new user s₀ = .ok t)
    (ht : t s = .ok (answer, s')) : (Operation.renamePv config old new user).Effect c p s s' := by
  obtain ⟨hname, hplan⟩ := demand_bind_eq_ok_iff.1 hplan
  obtain rfl := Except.ok.inj hplan
  obtain ⟨n, hn, ht⟩ := bind_eq_ok_iff.1 ht
  split at ht
  · cases ht
  · rename_i pv hpv
    obtain ⟨-, ht⟩ := demand_bind_eq_ok_iff.1 ht
    obtain ⟨s₁, hchange, ht⟩ := bind_eq_ok_iff.1 ht
    obtain ⟨s₂, htouch, ht⟩ := bind_eq_ok_iff.1 ht
    obtain ⟨writer, rfl, rfl⟩ := touch_eq_ok_iff.1 htouch
    obtain ⟨hfind, hkind⟩ := requireToWrite_eq_ok_iff.1 hn
    obtain ⟨hmem, rfl⟩ := node?_eq_some hfind
    obtain ⟨_, rfl, hfound⟩ := Option.bind_eq_some_iff.1 hpv
    obtain ⟨hpvMem, hconfig, rfl, hactive⟩ := activePv?_eq_some hfound
    obtain rfl := (changePv_eq_ok hchange).trans (mapPv_eq_replacePv hs.owned.pvIds hpvMem rfl)
    split at ht
    · obtain ⟨-, rfl⟩ := Prod.mk.inj (Except.ok.inj ht)
      exact .renamePv hmem hkind hpvMem hconfig hactive hname
    · cases ht

/-- What saving a snapshot makes of the tables. -/
theorem saveSnapshot_effect {config : Id} {items : List ItemForm}
    {name comment user : Option String} {t : Transaction Snapshot} {answer : Snapshot}
    (hplan : saveSnapshot c config items name comment user s₀ = .ok t)
    (ht : t s = .ok (answer, s')) :
    (Operation.saveSnapshot config items name comment user).Effect c p s s' := by
  obtain ⟨-, hplan⟩ := demand_bind_eq_ok_iff.1 hplan
  obtain ⟨title, -, hplan⟩ := ite_bind_eq_ok hplan
  obtain rfl := Except.ok.inj hplan
  obtain ⟨q, hq, ht⟩ := bind_eq_ok_iff.1 ht
  obtain ⟨pairs, -, ht⟩ := bind_eq_ok_iff.1 ht
  obtain ⟨⟨id, s₁⟩, hopen, ht⟩ := bind_eq_ok_iff.1 ht
  dsimp only at ht
  split at ht
  · cases ht
  · obtain ⟨s₂, hadd, ht⟩ := bind_eq_ok_iff.1 ht
    obtain ⟨found, -, ht⟩ := bind_eq_ok_iff.1 ht
    obtain ⟨-, rfl⟩ := Prod.mk.inj (Except.ok.inj ht)
    obtain ⟨added, hadded, rfl⟩ := addItems_eq hadd
    obtain ⟨hfind, hkind⟩ := requireToWrite_eq_ok_iff.1 hq
    obtain ⟨hmem, rfl⟩ := node?_eq_some hfind
    unfold openSnapshot at hopen
    split at hopen
    · rename_i draft hdraft
      obtain ⟨s₂, hrevise, hopen⟩ := bind_eq_ok_iff.1 hopen
      obtain ⟨rfl, rfl⟩ := Prod.mk.inj (Except.ok.inj hopen)
      obtain ⟨writer, rfl, rfl⟩ := reviseDraft_eq hs.tree (draft?_eq_some hdraft).1 hrevise
      exact .overwriteDraft hdraft hadded
    · rename_i hnone
      obtain ⟨s₂, hnode, hopen⟩ := bind_eq_ok_iff.1 hopen
      obtain ⟨rfl, rfl⟩ := Prod.mk.inj (Except.ok.inj hopen)
      obtain ⟨writer, rfl, hnew, -, rfl⟩ := addNode_eq hnode
      exact .newSnapshot hmem hkind hnone hnew hadded

/-- What committing a draft makes of the tables. -/
theorem commitSnapshot_effect {id : Id} {name comment user : Option String} {t : Transaction Node}
    {answer : Node} (hplan : commitSnapshot c id name comment user s₀ = .ok t)
    (ht : t s = .ok (answer, s')) :
    (Operation.commitSnapshot id name comment user).Effect c p s s' := by
  obtain ⟨title, hname, hplan⟩ := bind_eq_ok_iff.1 hplan
  obtain ⟨hcomment, hplan⟩ := demand_bind_eq_ok_iff.1 hplan
  obtain rfl := Except.ok.inj hplan
  obtain ⟨n, hn, ht⟩ := bind_eq_ok_iff.1 ht
  obtain ⟨hdraft, ht⟩ := demand_bind_eq_ok_iff.1 ht
  obtain ⟨s₁, hrevise, ht⟩ := bind_eq_ok_iff.1 ht
  obtain ⟨-, rfl⟩ := answerNode_eq_ok_iff.1 ht
  obtain ⟨hfind, hkind⟩ := requireToWrite_eq_ok_iff.1 hn
  obtain ⟨hmem, rfl⟩ := node?_eq_some hfind
  obtain ⟨writer, rfl, rfl⟩ := reviseDraft_eq hs.tree hmem hrevise
  exact .commitSnapshot hmem hkind hdraft hname hcomment

/-- What marking a snapshot as golden makes of the tables. -/
theorem markGolden_effect {id : Id} {golden : Bool} {t : Transaction Node} {answer : Node}
    (hplan : markGolden c p.goldenExclusive id golden s₀ = .ok t)
    (ht : t s = .ok (answer, s')) : (Operation.markGolden id golden).Effect c p s s' := by
  obtain rfl := Except.ok.inj hplan
  obtain ⟨n, hn, ht⟩ := bind_eq_ok_iff.1 ht
  obtain ⟨hdraft, ht⟩ := demand_bind_eq_ok_iff.1 ht
  obtain ⟨-, rfl⟩ := answerNode_eq_ok_iff.1 ht
  obtain ⟨hfind, hkind⟩ := requireToWrite_eq_ok_iff.1 hn
  obtain ⟨hmem, rfl⟩ := node?_eq_some hfind
  have hothers : ((if golden && p.goldenExclusive then s.goldenSiblings n else []).map
      (·.id)).Nodup ∧ n.id ∉ (if golden && p.goldenExclusive then s.goldenSiblings n else []).map
        (·.id) := by
    split
    · exact ⟨hs.tree.nodup_goldenSiblings n, not_mem_goldenSiblings s n⟩
    · simp
  rw [foldl_setGolden_setGolden hothers.1 hothers.2]
  exact .markGolden hmem hkind hdraft

end

end SnapshotArchive
