import SnapshotArchive.Proofs.Effects.Contents
import SnapshotArchive.Proofs.Completeness.Nodes

/-!
# Changes of variables are checked completely

An update goes through the list of a client and brings the variables in one by one, while those that
are no longer listed are still active. So the store in between holds variables of the old list
beside those of the new one. No two active ones of a name meet in it all the same: the names of a
list that passed its check differ, and a name that an active variable holds brings in just that
variable (`Store.Listing`).

* `Store.listPvs_ok` : a list that passed its check can be brought in.
* `createConfiguration_checked`, `updateConfiguration_checked`, `renamePv_checked` : the operations.
-/

namespace SnapshotArchive

open Text Store

namespace Store

/-! ### The variable that is kept for a name -/

section

variable {s : Store} {config : Id} {name : String} {pv : Pv}

/-- The variable that is kept for a name has it. -/
theorem name_of_keptPv? (h : s.keptPv? config name = some pv) : pv.name = name := by
  rcases Option.or_eq_some_iff.1 h with hactive | ⟨-, hretired⟩
  · exact (activePv?_eq_some hactive).2.2.1
  · have hholds := List.find?_some hretired
    simp only [Bool.and_eq_true, decide_eq_true_eq] at hholds
    exact hholds.1

/-- Where a name has an active variable, that is kept. -/
theorem IsOwned.keptPv?_of_active (hs : s.IsOwned) (hpv : pv ∈ s.pvs) (hactive : pv.active) :
    s.keptPv? pv.config pv.name = some pv := by
  cases hfound : s.activePv? pv.config pv.name with
  | none => exact absurd rfl (activePv?_isNone_iff.1 (by simp [hfound]) pv hpv hactive rfl)
  | some o =>
    obtain ⟨ho, hc, hname, hoactive⟩ := activePv?_eq_some hfound
    obtain rfl := hs.activePvs o ho pv hpv hoactive hactive hc hname
    rw [keptPv?, hfound, Option.some_or]

/-- A variable is kept for every name that the configuration has had. -/
theorem keptPv?_eq_none_iff : s.keptPv? config name = none ↔
    ∀ o ∈ s.pvs, o.config = config → o.name ≠ name := by
  constructor
  · rintro hnone o ho rfl rfl
    obtain ⟨hactive, hretired⟩ := Option.or_eq_none_iff.1 hnone
    have ha := activePv?_isNone_iff.1 (by rw [hactive]; rfl) o ho
    have hmem : o ∈ (s.pvsOf o.config).reverse := List.mem_reverse.2 (mem_pvsOf_iff.2 ⟨ho, rfl⟩)
    cases hstate : o.active with
    | true => exact ha hstate rfl rfl
    | false => simpa [hstate] using List.find?_eq_none.1 hretired o hmem
  · intro hall
    cases hkept : s.keptPv? config name with
    | none => rfl
    | some kept =>
      obtain ⟨hmem, hc⟩ := mem_of_keptPv? hkept
      exact absurd (name_of_keptPv? hkept) (hall kept hmem hc)

end

/-- A variable can be changed if no other active one of its configuration has its name then. -/
theorem changePv_ok {s : Store} {id : Id} {f : Pv → Pv}
    (h : ∀ p ∈ s.pvs, p.id = id → ∀ o ∈ s.pvs, o.id ≠ id → o.active → o.config = (f p).config →
      o.name ≠ (f p).name) : s.changePv id f = .ok (s.mapPv id f) := by
  cases hp : s.pv? id with
  | none => rw [changePv, hp, mapPv_of_pv?_eq_none hp]
  | some p =>
    obtain ⟨hmem, hid⟩ := pv?_eq_some hp
    simp only [changePv, hp, demand_bind_eq_ok_iff, pure, Except.pure, and_true]
    refine .inr (List.all_eq_true.2 fun o ho => ?_)
    have hne := h p hmem hid o ho
    simp only [Bool.or_eq_true, decide_eq_true_eq, Bool.not_eq_true', ← Bool.not_eq_true]
    tauto

/-! ### Bringing a list in -/

/-- What holds of the store while a list is brought into a configuration: `old` is the store before,
`used` the number of identifiers used, and `seen` has the names that were brought in. -/
structure Listing (c : Context) (old : Store) (config : Id) (used : Nat) (seen : List String)
    (t : Store) : Prop where
  isThere : t.hasNode config
  ids : ∀ q ∈ t.pvs, (∃ r ∈ old.pvs, q.id = r.id) ∨ ∃ j < used, q.id = c.fresh j
  kept : ∀ q ∈ t.pvs, ∀ r ∈ old.pvs, q.id = r.id → q.config = r.config ∧ q.name = r.name
  /-- An active variable was brought in, or is one of the old list. -/
  active : ∀ q ∈ t.pvs, q.active → q.config = config →
    q.name ∈ seen ∨ ∃ r ∈ old.pvs, r.active ∧ q.id = r.id

section

variable {c : Context} {old t : Store} {config : Id} {used : Nat} {seen : List String}

/-- Before the list nothing is brought in. -/
theorem Listing.start (hold : (old.pvs.map (·.id)).Nodup) (hconfig : old.hasNode config) :
    Listing c old config used [] old where
  isThere := hconfig
  ids q hq := .inl ⟨q, hq, rfl⟩
  kept q hq r hr he := by simp [pv_eq_of_id_eq hold hq hr he]
  active q hq ha _ := .inr ⟨q, hq, ha, rfl⟩

/-- The name of a variable that is brought in is held by no active one but the one that is kept. -/
theorem Listing.name_ne (h : Listing c old config used seen t) (hold : old.IsOwned) {name : String}
    (hname : name ∉ seen) {o : Pv} (ho : o ∈ t.pvs) (hactive : o.active) (hc : o.config = config)
    (hkept : ∀ kept ∈ old.keptPv? config name, o.id ≠ kept.id) : o.name ≠ name := by
  rintro rfl
  rcases h.active o ho hactive hc with hseen | ⟨r, hr, hractive, he⟩
  · exact hname hseen
  · obtain ⟨hrc, hrname⟩ := h.kept o ho r hr he
    refine hkept r ?_ he
    rw [← hc, hrc, hrname]
    exact hold.keptPv?_of_active hr hractive

/-- A variable that is kept is brought in by changing its record. -/
theorem Listing.change (h : Listing c old config used seen t) {kept : Pv} {name : String}
    (hkept : old.keptPv? config name = some kept) {f : Pv → Pv}
    (hf : ∀ p, (f p).id = p.id ∧ (f p).config = p.config ∧ (f p).name = p.name) :
    Listing c old config used (name :: seen) (t.mapPv kept.id f) := by
  have hfields : ∀ q : Pv, (if q.id = kept.id then f q else q).id = q.id ∧
      (if q.id = kept.id then f q else q).config = q.config ∧
        (if q.id = kept.id then f q else q).name = q.name := by
    intro q
    split
    · exact hf q
    · exact ⟨rfl, rfl, rfl⟩
  refine ⟨h.isThere, fun q hq => ?_, fun q hq r hr he => ?_, fun q hq ha hc => ?_⟩
  all_goals
    obtain ⟨p, hp, rfl⟩ := List.mem_map.1 hq
    obtain ⟨hid, hpc, hpname⟩ := hfields p
  · rw [hid]
    exact h.ids p hp
  · rw [hpc, hpname]
    exact h.kept p hp r hr (hid ▸ he)
  · rw [hid, hpname]
    by_cases hpid : p.id = kept.id
    · obtain ⟨-, hname⟩ := h.kept p hp kept (mem_of_keptPv? hkept).1 hpid
      exact .inl (List.mem_cons.2 (.inl (hname.trans (name_of_keptPv? hkept))))
    · rw [if_neg hpid] at ha hc
      exact (h.active p hp ha hc).imp_left (List.mem_cons_of_mem _)

/-- A variable that is not kept is brought in under the next identifier of the supply. -/
theorem Listing.insert (h : Listing c old config used seen t)
    (hfresh : ∀ j, (old.pv? (c.fresh j)).isNone) {pv : Pv} (hid : pv.id = c.fresh used) :
    Listing c old config (used + 1) (pv.name :: seen) { t with pvs := t.pvs ++ [pv] } := by
  refine ⟨h.isThere, fun q hq => ?_, fun q hq r hr he => ?_, fun q hq ha hc => ?_⟩
  all_goals rcases List.mem_append.1 hq with hq | hq
  · exact (h.ids q hq).imp_right fun ⟨j, hj, he⟩ => ⟨j, Nat.lt_succ_of_lt hj, he⟩
  · exact .inr ⟨used, Nat.lt_succ_self _, List.mem_singleton.1 hq ▸ hid⟩
  · exact h.kept q hq r hr he
  · obtain rfl := List.mem_singleton.1 hq
    exact absurd (he.symm.trans hid) (pv?_isNone_iff.1 (hfresh used) r hr)
  · exact (h.active q hq ha hc).imp_left (List.mem_cons_of_mem _)
  · exact .inl (List.mem_cons.2 (.inl (congrArg Pv.name (List.mem_singleton.1 hq))))

/-- The variable that is kept for a name can be listed again. -/
theorem Listing.changePv_ok (h : Listing c old config used seen t) (hold : old.IsOwned) {kept : Pv}
    {name : String} (hname : name ∉ seen) (hkept : old.keptPv? config name = some kept)
    {f : Pv → Pv} (hf : ∀ p, (f p).id = p.id ∧ (f p).config = p.config ∧ (f p).name = p.name) :
    ∃ u, t.changePv kept.id f = .ok u ∧ Listing c old config used (name :: seen) u := by
  refine ⟨_, Store.changePv_ok fun p hp hid o ho hne ha hc => ?_, h.change hkept hf⟩
  obtain ⟨hmem, hconfig⟩ := mem_of_keptPv? hkept
  obtain ⟨hpc, hpname⟩ := h.kept p hp kept hmem hid
  rw [(hf p).2.1, hpc, hconfig] at hc
  rw [(hf p).2.2, hpname, name_of_keptPv? hkept]
  refine h.name_ne hold hname ho ha hc fun q hq => ?_
  exact Option.some.inj (hkept.symm.trans hq) ▸ hne

/-- Where none is kept for a name, a new variable can be listed. -/
theorem Listing.insertPv_ok (h : Listing c old config used seen t) (hold : old.IsOwned)
    (hinj : Function.Injective c.fresh) (hfresh : ∀ j, (old.pv? (c.fresh j)).isNone) {pv : Pv}
    (hid : pv.id = c.fresh used) (hconfig : pv.config = config) (hname : pv.name ∉ seen)
    (hnone : old.keptPv? config pv.name = none) :
    ∃ u, t.insertPv pv = .ok u ∧ Listing c old config (used + 1) (pv.name :: seen) u := by
  refine ⟨_, insertPv_eq_ok_iff.2 ⟨pv?_isNone_iff.2 fun o ho he => ?_,
    .inr (activePv?_isNone_iff.2 fun o ho ha hc => ?_), hconfig ▸ h.isThere, rfl⟩,
    h.insert hfresh hid⟩
  · rw [hid] at he
    rcases h.ids o ho with ⟨r, hr, hor⟩ | ⟨j, hj, hoj⟩
    · exact pv?_isNone_iff.1 (hfresh used) r hr (hor.symm.trans he)
    · exact absurd (hinj (hoj.symm.trans he)) (Nat.ne_of_lt hj)
  · refine h.name_ne hold hname ho ha (hc.trans hconfig) fun q hq => ?_
    cases hnone.symm.trans hq

/-- A list whose names differ can be brought in. -/
theorem listPvs_ok (hold : old.IsOwned) (hinj : Function.Injective c.fresh)
    (hfresh : ∀ j, (old.pv? (c.fresh j)).isNone) {position : Nat} {pvs : List PvForm}
    (hnodup : (pvs.map PvForm.cleanName).Nodup) (hnew : ∀ pv ∈ pvs, pv.cleanName ∉ seen)
    (h : Listing c old config used seen t) :
    ∃ u, old.listPvs c config position used pvs t = .ok u := by
  induction pvs generalizing t position used seen with
  | nil => exact ⟨t, rfl⟩
  | cons pv pvs ih =>
    obtain ⟨hhead, hnodup⟩ := List.nodup_cons.1 hnodup
    have hname := hnew pv List.mem_cons_self
    have hrest : ∀ q ∈ pvs, q.cleanName ∉ pv.cleanName :: seen := by
      intro q hq hmem
      rcases List.mem_cons.1 hmem with he | hmem
      · exact hhead (he ▸ List.mem_map_of_mem hq)
      · exact hnew q (List.mem_cons_of_mem _ hq) hmem
    rw [listPvs]
    cases hkept : old.keptPv? config pv.cleanName with
    | some kept =>
      let f : Pv → Pv := fun q =>
        { q with readback := pv.readback, readOnly := pv.readOnly, position, active := true }
      obtain ⟨t₁, hchange, h₁⟩ := h.changePv_ok (f := f) hold hname hkept fun _ => ⟨rfl, rfl, rfl⟩
      obtain ⟨u, hu⟩ := ih hnodup hrest h₁
      exact ⟨u, bind_eq_ok_iff.2 ⟨t₁, hchange, hu⟩⟩
    | none =>
      let new : Pv :=
        { id := c.fresh used
          config
          name := pv.cleanName
          readback := pv.readback
          readOnly := pv.readOnly
          position
          active := true }
      have hid : new.id = c.fresh used := rfl
      obtain ⟨t₁, hinsert, h₁⟩ := h.insertPv_ok hold hinj hfresh hid rfl hname hkept
      obtain ⟨u, hu⟩ := ih hnodup hrest h₁
      exact ⟨u, bind_eq_ok_iff.2 ⟨t₁, hinsert, hu⟩⟩

variable (old) in
/-- Where a configuration has no variables, adding those of a list is bringing it in. -/
theorem addPvs_eq_listPvs (hnone : ∀ pv ∈ old.pvs, pv.config ≠ config) {position : Nat}
    {pvs : List PvForm} :
    t.addPvs c config position pvs = old.listPvs c config position (position + 1) pvs t := by
  induction pvs generalizing t position with
  | nil => rfl
  | cons pv pvs ih =>
    rw [addPvs, listPvs, keptPv?_eq_none_iff.2 fun o ho hc => absurd hc (hnone o ho)]
    exact bind_congr fun s => ih

end

end Store

/-! ### The operations -/

section

variable {c : Context}

/-- Creating a configuration for a named author fails only by checks. -/
theorem createConfiguration_checked {parent : Id} {form : ConfigurationForm} {user : Option String}
    (huser : (author user form.node.user).isSome) :
    (createConfiguration c parent form user).IsChecked c := by
  intro s₀ s t hplan hs hfresh
  obtain ⟨name, hname, hplan⟩ := bind_eq_ok_iff.1 hplan
  obtain ⟨pvs, hpvs, hplan⟩ := bind_eq_ok_iff.1 hplan
  obtain rfl := Except.ok.inj hplan
  refine (Checked.require s parent).bind fun p hp => ?_
  obtain ⟨hp, -⟩ := node?_eq_some (require_eq_ok_iff.1 hp)
  refine (addNode_checked hp (hfresh.nodes 0) huser).bind fun s₁ hadd => ?_
  obtain ⟨hedit, n, rfl, hid, -⟩ := addNode_edit hs hp form.isDraft_content.symm
    (fun _ => (checkName_eq_ok_iff.1 hname).2) hadd
  have howned := (hs.edit hedit).owned
  have hconfig : { s with nodes := s.nodes ++ [n] }.hasNode (c.fresh 0) :=
    hasNode_iff.2 ⟨n, List.mem_append_right _ List.mem_cons_self, hid⟩
  have hnone := (hs.owned.ne_of_hasNode_eq_false (hfresh.nodes 0)).1
  refine Checked.bind ?_ fun s₂ _ => (Checked.configuration s₂ _).bind fun _ _ => .ok _
  rw [addPvs_eq_listPvs { s with nodes := s.nodes ++ [n] } hnone]
  exact .of_eq_ok (listPvs_ok howned hfresh.injective hfresh.pvs (checkPvs_nodup hpvs)
    (fun _ _ => List.not_mem_nil) (.start howned.pvIds hconfig))

/-- Updating a configuration fails only by checks. -/
theorem updateConfiguration_checked {form : ConfigurationForm} {user : Option String} :
    (updateConfiguration c form user).IsChecked c := by
  intro s₀ s t hplan hs hfresh
  obtain ⟨name, hname, hplan⟩ := bind_eq_ok_iff.1 hplan
  obtain ⟨pvs, hpvs, hplan⟩ := bind_eq_ok_iff.1 hplan
  obtain rfl := Except.ok.inj hplan
  refine (Checked.requireToWrite s form.node.id .configuration).bind fun n hn => ?_
  obtain ⟨hfind, hk⟩ := requireToWrite_eq_ok_iff.1 hn
  obtain ⟨hmem, -⟩ := node?_eq_some hfind
  have hkind : form.node.content.kind = n.kind := Eq.trans form.isConfiguration hk.symm
  have hdraft : n.draft = false :=
    hs.named.draft_eq_false_of_kind hmem fun he => nomatch hk.symm.trans he
  refine .ensure_bind trivial fun _ => ?_
  refine .ite_bind (.ok ()) (.checkNameFree _ _ _ _ _) fun _ hfree => ?_
  refine Checked.bind (changeNode_checked hs hmem rfl hkind rfl fun _ => ?_) fun s₁ hchange => ?_
  · split at hfree
    · exact .inl ⟨hdraft, ‹_›⟩
    · exact .inr (.inr ⟨some n.id, fun id hid => (Option.some.inj hid).symm, hk ▸ hfree⟩)
  have hedit := changeNode_edit hs hmem hchange rfl hkind
    (hdraft.trans form.isDraft_content.symm) (fun hd => hd)
    (fun _ => (checkName_eq_ok_iff.1 hname).2) (.inl rfl)
  have howned := (hs.edit hedit).owned
  obtain rfl : s₁ = s.replaceNode (n.configured c form name user) :=
    changeNode_eq_replaceNode hs.tree.nodup hmem rfl hchange
  have hconfig : (s.replaceNode (n.configured c form name user)).hasNode n.id :=
    hasNode_iff.2 ⟨_, mem_replaceNode_self hmem rfl, rfl⟩
  refine Checked.bind (.bind (.of_eq_ok ?_) fun _ _ => .ok _) fun s₂ _ =>
    (Checked.configuration s₂ _).bind fun _ _ => .ok _
  exact listPvs_ok howned hfresh.injective hfresh.pvs (checkPvs_nodup hpvs)
    (fun _ _ => List.not_mem_nil) (.start howned.pvIds hconfig)

/-- The renamed variable is among those that are listed then. -/
theorem renamePv_checked {config : Id} {old new user : Option String} (huser : user.isSome) :
    (renamePv c config old new user).IsChecked c := by
  intro s₀ s t hplan hs _
  obtain ⟨hname, hplan⟩ := demand_bind_eq_ok_iff.1 hplan
  obtain rfl := Except.ok.inj hplan
  obtain ⟨writer, rfl⟩ := Option.isSome_iff_exists.1 huser
  refine (Checked.requireToWrite s config .configuration).bind fun _ _ => ?_
  cases hpv : old.bind (s.activePv? config) with
  | none => exact .refused trivial
  | some pv =>
    obtain ⟨_, rfl, hfound⟩ := Option.bind_eq_some_iff.1 hpv
    obtain ⟨hmem, rfl, rfl, hactive⟩ := activePv?_eq_some hfound
    refine .ensure_bind trivial fun hfree => ?_
    refine Checked.bind (.of_eq_ok ⟨_, changePv_ok fun p hp hid o ho hne ha hc he => ?_⟩)
      fun s₁ hchange => ?_
    · obtain rfl := pv_eq_of_id_eq hs.owned.pvIds hp hmem hid
      rcases hfree with hsame | hnone
      · exact hne (congrArg Pv.id (hs.owned.activePvs o ho p hmem ha hactive hc
          (he.trans hsame)))
      · exact activePv?_isNone_iff.1 hnone o ho ha hc he
    obtain rfl := changePv_eq_ok hchange
    refine Checked.bind (.of_eq_ok ⟨_, touch_eq_ok_iff.2 ⟨writer, rfl, rfl⟩⟩) fun s₂ htouch => ?_
    obtain ⟨user, -, rfl⟩ := touch_eq_ok_iff.1 htouch
    have hfind : ((((s.mapPv pv.id fun q => { q with name := strip (new.getD "") }).stamp c
        pv.config user).activePvs pv.config).find? (·.id = pv.id)).isSome := by
      refine List.find?_isSome.2 ⟨{ pv with name := strip (new.getD "") }, ?_, by simp⟩
      exact mem_activePvs_iff.2 ⟨List.mem_map.2 ⟨pv, hmem, if_pos rfl⟩, rfl, hactive⟩
    obtain ⟨renamed, hrenamed⟩ := Option.isSome_iff_exists.1 hfind
    rw [hrenamed]
    exact .ok _

end

end SnapshotArchive
