import SnapshotArchive.Configuring
import SnapshotArchive.Proofs.Editing

/-!
# Changing configurations is a run of edits

Creating, updating and renaming change the table of variables one record at a time, and the nodes
not at all once the configuration itself is written. What a client gives as a name is stripped
before it is stored.

* `Store.insertPv_edit`, `Store.changePv_edits` : the single changes.
* `Store.replacePvs_edits` : bringing a list in and taking what is not in it off.
* `createConfiguration_edits`, `updateConfiguration_edits`, `renamePv_edits` : the operations.
-/

namespace SnapshotArchive

open Text

/-- A clean name has no blanks around it. -/
theorem PvForm.strip_cleanName (pv : PvForm) : strip pv.cleanName = pv.cleanName := by
  rw [cleanName, strip_strip]

/-- The name of a cleaned description is clean. -/
theorem PvForm.cleanName_cleaned (pv : PvForm) : pv.cleaned.cleanName = pv.cleanName := by
  rw [cleanName, cleaned, Option.getD_some, strip_cleanName]

/-- A list is accepted exactly if it is cleaned without faults. -/
theorem checkPvs_ok_iff {pvs cleaned : List PvForm} :
    checkPvs pvs = .ok cleaned ↔ cleanPvs pvs = .ok cleaned := by
  unfold checkPvs
  cases cleanPvs pvs with
  | ok found => rw [Except.ok.injEq, Except.ok.injEq]
  | error faults => exact iff_of_false nofun nofun

/-- A list that passes names all its variables, and by stripped names. -/
theorem checkPvs_names {pvs cleaned : List PvForm} (h : checkPvs pvs = .ok cleaned) :
    ∀ pv ∈ cleaned, pv.cleanName ≠ "" ∧ strip pv.cleanName = pv.cleanName := by
  obtain ⟨⟨hnames, -⟩, rfl⟩ := cleanPvs_eq_ok_iff.1 (checkPvs_ok_iff.1 h)
  intro pv hpv
  obtain ⟨q, hq, rfl⟩ := List.mem_map.1 hpv
  rw [q.cleanName_cleaned]
  exact ⟨hnames q hq, q.strip_cleanName⟩

/-- The names of a list that is accepted differ. -/
theorem checkPvs_nodup {pvs cleaned : List PvForm} (h : checkPvs pvs = .ok cleaned) :
    (cleaned.map PvForm.cleanName).Nodup := by
  obtain ⟨⟨-, hnodup⟩, rfl⟩ := cleanPvs_eq_ok_iff.1 (checkPvs_ok_iff.1 h)
  have hsame : pvs.map (PvForm.cleanName ∘ PvForm.cleaned) = pvs.map PvForm.cleanName :=
    List.map_congr_left fun pv _ => pv.cleanName_cleaned
  rwa [List.map_map, hsame]

/-- A configuration is no draft. -/
theorem ConfigurationForm.isDraft_content (form : ConfigurationForm) :
    form.node.content.isDraft = false :=
  Content.isDraft_of_kind fun he => nomatch form.isConfiguration.symm.trans he

namespace Store

/-! ### Single variables -/

section

variable {s t : Store}

/-- The variable that is found under an identifier is stored and has it. -/
theorem pv?_eq_some {id : Id} {pv : Pv} (h : s.pv? id = some pv) : pv ∈ s.pvs ∧ pv.id = id :=
  ⟨List.mem_of_find?_eq_some h, by simpa using List.find?_some h⟩

/-- Nothing is found under an identifier exactly if no stored variable has it. -/
theorem pv?_isNone_iff {id : Id} : (s.pv? id).isNone ↔ ∀ o ∈ s.pvs, o.id ≠ id := by
  simp [pv?]

/-- The variable that is found under a name is one that the configuration lists. -/
theorem activePv?_eq_some {config : Id} {name : String} {pv : Pv}
    (h : s.activePv? config name = some pv) :
    pv ∈ s.pvs ∧ pv.config = config ∧ pv.name = name ∧ pv.active :=
  ⟨List.mem_of_find?_eq_some h, by simpa [and_assoc] using List.find?_some h⟩

/-- The variable that is kept for a name is one of the configuration. -/
theorem mem_of_keptPv? {config : Id} {name : String} {pv : Pv}
    (h : s.keptPv? config name = some pv) : pv ∈ s.pvs ∧ pv.config = config := by
  unfold keptPv? at h
  rcases Option.or_eq_some_iff.1 h with hactive | ⟨-, hretired⟩
  · obtain ⟨hmem, hconfig, -⟩ := activePv?_eq_some hactive
    exact ⟨hmem, hconfig⟩
  · have hmem := List.mem_of_find?_eq_some hretired
    exact mem_pvsOf_iff.1 (List.mem_reverse.1 hmem)

/-- Nothing is found under a name exactly if no active variable of the configuration has it. -/
theorem activePv?_isNone_iff {config : Id} {name : String} :
    (s.activePv? config name).isNone ↔
      ∀ o ∈ s.pvs, o.active → o.config = config → o.name ≠ name := by
  simp only [activePv?, Option.isNone_iff_eq_none, List.find?_eq_none, Bool.and_eq_true,
    decide_eq_true_eq]
  constructor
  · exact fun h o ho ha hc hn => h o ho ⟨⟨hc, hn⟩, ha⟩
  · exact fun h o ho hall => h o ho hall.2 hall.1.1 hall.1.2

/-- Storing a variable of a configuration under a stripped name is an edit. -/
theorem insertPv_edit {c : Node} {pv : Pv} (h : s.insertPv pv = .ok t) (hc : c ∈ s.nodes)
    (hid : c.id = pv.config) (hk : c.kind = .configuration)
    (hname : pv.name ≠ "" ∧ strip pv.name = pv.name) : s.Edit t ∧ t.nodes = s.nodes := by
  obtain ⟨hnew, hfree, -, rfl⟩ := insertPv_eq_ok_iff.1 h
  refine ⟨.addPv hc hid hk (pv?_isNone_iff.1 hnew) ⟨hname, fun ha o ho _ => ?_⟩, rfl⟩
  exact activePv?_isNone_iff.1 (hfree.resolve_left (by simp [ha])) o ho

/-- A change of a variable in place is an edit, if it keeps its configuration and has a name. -/
theorem changePv_edits (hs : s.IsSound) {id : Id} {f : Pv → Pv} (h : s.changePv id f = .ok t)
    (hf : ∀ p ∈ s.pvs, (f p).id = p.id ∧ (f p).config = p.config ∧ (f p).name ≠ "" ∧
      strip (f p).name = (f p).name) : s.Edits t ∧ t.nodes = s.nodes := by
  cases hp : s.pv? id with
  | none =>
    simp only [changePv, hp] at h
    obtain rfl := Except.ok.inj h
    exact ⟨.refl, rfl⟩
  | some p =>
    simp only [changePv, hp, demand_bind_eq_ok_iff, pure, Except.pure, Except.ok.injEq] at h
    obtain ⟨hfree, rfl⟩ := h
    obtain ⟨hmem, rfl⟩ := pv?_eq_some hp
    obtain ⟨hid, hc, hname⟩ := hf p hmem
    rw [mapPv_eq_replacePv hs.owned.pvIds hmem hid]
    refine ⟨.single (.changePv hmem hid hc ⟨hname, fun ha o ho hne hoa hoc hon => ?_⟩), rfl⟩
    have hall := List.all_eq_true.1 (hfree.resolve_left (by simp [ha])) o ho
    simp [hid ▸ hne, hoc, hon, hoa] at hall

/-- Changing a variable that is not there does nothing. -/
theorem mapPv_of_pv?_eq_none {x : Id} (h : s.pv? x = none) (f : Pv → Pv) : s.mapPv x f = s := by
  have hne := pv?_isNone_iff.1 (Option.isNone_iff_eq_none.2 h)
  have hsame : s.pvs.map (fun pv => if pv.id = x then f pv else pv) = s.pvs.map id :=
    List.map_congr_left fun q hq => if_neg (hne q hq)
  rw [mapPv, hsame, List.map_id]

/-- Taking a variable off the list retires or deletes it. -/
theorem unlistPv_edits (hs : s.IsSound) (id : Id) : s.Edits (s.unlistPv id) := by
  unfold unlistPv
  split
  · cases hp : s.pv? id with
    | none => rw [mapPv_of_pv?_eq_none hp]; exact .refl
    | some p =>
      obtain ⟨hmem, rfl⟩ := pv?_eq_some hp
      rw [mapPv_eq_replacePv hs.owned.pvIds hmem rfl]
      exact .single (.changePv hmem rfl rfl ⟨hs.owned.pvName p hmem, fun ha => nomatch ha⟩)
  · exact .single (.removePv id)

end

/-! ### Lists of variables -/

section

variable {c : Context} {node : Node} (hk : node.kind = .configuration) {pvs : List PvForm}
  (hnames : ∀ pv ∈ pvs, pv.cleanName ≠ "" ∧ strip pv.cleanName = pv.cleanName)

include hk hnames

/-- Adding variables to a configuration is a run of edits. -/
theorem addPvs_edits {position : Nat} {s t : Store} (hn : node ∈ s.nodes)
    (h : s.addPvs c node.id position pvs = .ok t) : s.Edits t := by
  induction pvs generalizing s position with
  | nil =>
    obtain rfl := Except.ok.inj h
    exact .refl
  | cons pv pvs ih =>
    obtain ⟨s₁, hpv, h⟩ := bind_eq_ok_iff.1 h
    obtain ⟨hpv, hnodes⟩ := insertPv_edit hpv hn rfl hk (hnames pv List.mem_cons_self)
    exact .head hpv (ih (fun q hq => hnames q (List.mem_cons_of_mem _ hq)) (hnodes ▸ hn) h)

/-- Bringing a list into a configuration is a run of edits. -/
theorem listPvs_edits {old : Store} {position used : Nat} {s t : Store} (hs : s.IsSound)
    (hn : node ∈ s.nodes) (h : old.listPvs c node.id position used pvs s = .ok t) : s.Edits t := by
  induction pvs generalizing s position used with
  | nil =>
    obtain rfl := Except.ok.inj h
    exact .refl
  | cons pv pvs ih =>
    have ih := fun {position used : Nat} {s : Store} => @ih
      (fun q hq => hnames q (List.mem_cons_of_mem _ hq)) position used s
    rw [listPvs] at h
    split at h
    · obtain ⟨s₁, hpv, h⟩ := bind_eq_ok_iff.1 h
      obtain ⟨hpv, hnodes⟩ := changePv_edits hs hpv fun p hp =>
        ⟨rfl, rfl, hs.owned.pvName p hp⟩
      exact hpv.trans (ih (hs.edits hpv) (hnodes ▸ hn) h)
    · obtain ⟨s₁, hpv, h⟩ := bind_eq_ok_iff.1 h
      obtain ⟨hpv, hnodes⟩ := insertPv_edit hpv hn rfl hk (hnames pv List.mem_cons_self)
      exact .head hpv (ih (hs.edit hpv) (hnodes ▸ hn) h)

/-- Bringing a list in and taking what is not in it off. -/
theorem replacePvs_edits {s t : Store} (hs : s.IsSound) (hn : node ∈ s.nodes)
    (h : s.replacePvs c node.id pvs = .ok t) : s.Edits t := by
  obtain ⟨listed, hlist, h⟩ := bind_eq_ok_iff.1 h
  obtain rfl := Except.ok.inj h
  have hlisted := listPvs_edits hk hnames hs hn hlist
  exact hlisted.trans
    ((hs.edits hlisted).foldl_edits (fun hs pv => unlistPv_edits hs pv.id) _)

end

end Store

/-! ### The operations -/

open Store

/-- Creating a configuration is a run of edits. -/
theorem createConfiguration_edits {c : Context} {parent : Id} {form : ConfigurationForm}
    {user : Option String} {s₀ : Store} {t : Transaction Configuration}
    (h : createConfiguration c parent form user s₀ = .ok t) : t.IsEdits := by
  obtain ⟨name, hname, h⟩ := bind_eq_ok_iff.1 h
  obtain ⟨pvs, hpvs, h⟩ := bind_eq_ok_iff.1 h
  obtain rfl := Except.ok.inj h
  intro s s' a hs ht
  obtain ⟨p, hp, ht⟩ := bind_eq_ok_iff.1 ht
  obtain ⟨s₁, hadd, ht⟩ := bind_eq_ok_iff.1 ht
  obtain ⟨s₂, haddPvs, ht⟩ := bind_eq_ok_iff.1 ht
  obtain ⟨found, -, ht⟩ := bind_eq_ok_iff.1 ht
  obtain ⟨-, rfl⟩ := Prod.mk.inj (Except.ok.inj ht)
  obtain ⟨hadd, n, rfl, hid, -, hcontent⟩ := addNode_edit hs
    (node?_eq_some (require_eq_ok_iff.1 hp)).1 form.isDraft_content.symm
    (fun _ => (checkName_eq_ok_iff.1 hname).2) hadd
  have hk : n.kind = .configuration := (congrArg Content.kind hcontent).trans form.isConfiguration
  have hn : n ∈ s.nodes ++ [n] := List.mem_append_right _ List.mem_cons_self
  exact .head hadd (addPvs_edits hk (checkPvs_names hpvs) hn (hid ▸ haddPvs))

/-- Updating a configuration is a run of edits. -/
theorem updateConfiguration_edits {c : Context} {form : ConfigurationForm} {user : Option String}
    {s₀ : Store} {t : Transaction Configuration}
    (h : updateConfiguration c form user s₀ = .ok t) : t.IsEdits := by
  obtain ⟨name, hname, h⟩ := bind_eq_ok_iff.1 h
  obtain ⟨pvs, hpvs, h⟩ := bind_eq_ok_iff.1 h
  obtain rfl := Except.ok.inj h
  intro s s' a hs ht
  obtain ⟨n, hn, ht⟩ := bind_eq_ok_iff.1 ht
  obtain ⟨-, ht⟩ := demand_bind_eq_ok_iff.1 ht
  obtain ⟨_, -, ht⟩ := ite_bind_eq_ok ht
  obtain ⟨s₁, hchange, ht⟩ := bind_eq_ok_iff.1 ht
  obtain ⟨s₂, hreplace, ht⟩ := bind_eq_ok_iff.1 ht
  obtain ⟨found, -, ht⟩ := bind_eq_ok_iff.1 ht
  obtain ⟨-, rfl⟩ := Prod.mk.inj (Except.ok.inj ht)
  obtain ⟨hn, hk⟩ := requireToWrite_eq_ok_iff.1 hn
  obtain ⟨hn, -⟩ := node?_eq_some hn
  have hdraft : n.draft = false := by
    rw [hs.named.drafts n hn]
    exact Content.isDraft_of_kind fun he => nomatch hk.symm.trans he
  have hedit := changeNode_edit hs hn hchange rfl (form.isConfiguration.trans hk.symm)
    (hdraft.trans form.isDraft_content.symm) (fun hd => hd)
    (fun _ => (checkName_eq_ok_iff.1 hname).2) (.inl rfl)
  obtain ⟨rfl, -⟩ := changeNode_eq_ok hs.tree hn hchange rfl
  refine .head hedit (replacePvs_edits ?_ (checkPvs_names hpvs) (hs.edit hedit)
    (mem_replaceNode_self hn rfl) hreplace)
  exact form.isConfiguration

/-- Renaming a variable is a run of edits. -/
theorem renamePv_edits {c : Context} {config : Id} {old new user : Option String}
    {s₀ : Store} {t : Transaction Pv} (h : renamePv c config old new user s₀ = .ok t) :
    t.IsEdits := by
  obtain ⟨hname, h⟩ := demand_bind_eq_ok_iff.1 h
  obtain rfl := Except.ok.inj h
  intro s s' a hs ht
  obtain ⟨n, hn, ht⟩ := bind_eq_ok_iff.1 ht
  split at ht
  · cases ht
  · rename_i pv hpv
    obtain ⟨-, ht⟩ := demand_bind_eq_ok_iff.1 ht
    obtain ⟨s₁, hchange, ht⟩ := bind_eq_ok_iff.1 ht
    obtain ⟨s₂, htouch, ht⟩ := bind_eq_ok_iff.1 ht
    obtain ⟨hedits, -⟩ := changePv_edits hs hchange fun p _ =>
      ⟨rfl, rfl, hname, strip_strip _⟩
    have htouched := hedits.trans (touch_edits (hs.edits hedits) htouch)
    split at ht
    · obtain ⟨-, rfl⟩ := Prod.mk.inj (Except.ok.inj ht)
      exact htouched
    · cases ht

end SnapshotArchive
