import SnapshotArchive.Proofs.Listings
import SnapshotArchive.Proofs.Updating

/-!
# Renaming a variable

Items refer to variables by identifier, so a renaming changes one name in one row and nothing else:
the lists of variables and the items of snapshots, old ones too, are shown with the other name and
are the same for the rest (`Store.Renames`). Only the names that the configuration lists are in the
way. A retired variable may have the old or the new name, and is not confused with the renamed one.

* `renamePv_eq_ok_iff` : when a variable is renamed, and what that leaves.
* `Store.renames_rename` : how the renaming shows.
* `Store.MayRename.back` : a variable can always get its former name back.
-/

namespace SnapshotArchive

open Text Store

/-! ### The variable under its other name -/

/-- A variable with another name, if it is the one that is renamed. -/
def Pv.renamed (id : Id) (name : String) (q : Pv) : Pv :=
  if q.id = id then { q with name } else q

/-- An item with its variable, whose name is another if it is the one that is renamed. -/
def Reading.renamed (id : Id) (name : String) (r : Reading) : Reading :=
  if r.item.pv = id then { r with pv := { r.pv with name } } else r

namespace Pv

variable (id : Id) (name : String) (q : Pv)

/-- A renaming keeps the identifier of a variable. -/
@[simp] theorem id_renamed : (q.renamed id name).id = q.id := by unfold renamed; split <;> rfl

/-- It keeps the configuration. -/
@[simp] theorem config_renamed : (q.renamed id name).config = q.config := by
  unfold renamed; split <;> rfl

/-- It keeps the position. -/
@[simp] theorem position_renamed : (q.renamed id name).position = q.position := by
  unfold renamed; split <;> rfl

/-- It neither retires a variable nor takes it back. -/
@[simp] theorem active_renamed : (q.renamed id name).active = q.active := by
  unfold renamed; split <;> rfl

/-- The variable meant gets the name. -/
theorem renamed_self : q.renamed q.id name = { q with name } := if_pos rfl

variable {id q}

/-- Another one stays as it is. -/
theorem renamed_of_ne (h : q.id ≠ id) : q.renamed id name = q := if_neg h

/-- A variable of that identifier has the name then. -/
theorem name_renamed (h : q.id = id) : (q.renamed id name).name = name := by
  rw [renamed, if_pos h]

end Pv

namespace Store

/-- The store with a variable under another name. -/
def rename (s : Store) (id : Id) (name : String) : Store :=
  { s with pvs := s.pvs.map (·.renamed id name) }

/-- What a renaming changes: in one row, and in the lists that show it, the name. -/
structure Renames (s : Store) (pv : Pv) (name : String) (t : Store) : Prop where
  pvs : t.pvs = s.pvs.map (·.renamed pv.id name)
  retired : t.pvs.filter (!·.active) = s.pvs.filter (!·.active)
  items : t.items = s.items
  tags : t.tags = s.tags
  listed : ∀ config, t.activePvs config = (s.activePvs config).map (·.renamed pv.id name)
  readings : ∀ snapshot, t.readings snapshot = (s.readings snapshot).map (·.renamed pv.id name)

/-- A configuration lists a variable, and the name for it is not that of another one there. -/
structure MayRename (s : Store) (n : Node) (pv : Pv) (name : String) : Prop where
  node : n ∈ s.ofKind .configuration
  listed : pv ∈ s.activePvs n.id
  named : name ≠ ""
  free : name = pv.name ∨ ∀ q ∈ s.activePvs n.id, q.name ≠ name

variable {s t : Store} {c : Context} {id : Id} {name : String}

/-! ### What is shown -/

/-- The variables of a configuration are the renamed ones. -/
theorem pvsOf_rename (config : Id) :
    (s.rename id name).pvsOf config = (s.pvsOf config).map (·.renamed id name) := by
  have hfilter : (s.pvs.map (·.renamed id name)).filter (·.config = config) =
      (s.pvs.filter (·.config = config)).map (·.renamed id name) := by
    rw [List.filter_map]
    exact congrArg (List.map _) (List.filter_congr fun q _ => by simp)
  rw [pvsOf, rename, hfilter, pvsOf, List.map_mergeSort]
  intro q _ r _
  simp

/-- They are listed in the order of before. -/
theorem activePvs_rename (config : Id) :
    (s.rename id name).activePvs config = (s.activePvs config).map (·.renamed id name) := by
  rw [activePvs, pvsOf_rename, List.filter_map]
  exact congrArg (List.map _) (List.filter_congr fun q _ => by simp)

/-- A variable is found renamed. -/
theorem pv?_rename (x : Id) : (s.rename id name).pv? x = (s.pv? x).map (·.renamed id name) := by
  rw [pv?, rename, List.find?_map]
  exact congrArg (Option.map _) (congrArg (List.find? · s.pvs) (funext fun q => by simp))

/-- Items are read with the renamed variable. -/
theorem readings_rename (snapshot : Id) :
    (s.rename id name).readings snapshot = (s.readings snapshot).map (·.renamed id name) := by
  rw [readings, readings, List.map_filterMap]
  refine List.filterMap_congr fun item _ => ?_
  rw [pv?_rename, Option.map_map, Option.map_map]
  cases hpv : s.pv? item.pv with
  | none => rfl
  | some pv =>
    have hid := (pv?_eq_some hpv).2
    refine congrArg some ?_
    simp only [Function.comp_apply, Pv.renamed, Reading.renamed, hid]
    split <;> rfl

/-- The store with the new name, and the configuration stamped, is a renaming. -/
theorem renames_rename (hs : s.IsOwned) {pv : Pv} (hpv : pv ∈ s.pvs) (hactive : pv.active)
    {writer : String} : s.Renames pv name ((s.rename pv.id name).stamp c id writer) where
  pvs := rfl
  retired := by
    show (s.pvs.map (·.renamed pv.id name)).filter (!·.active) = _
    have hfilter : s.pvs.filter ((!·.active) ∘ (·.renamed pv.id name)) =
        s.pvs.filter (!·.active) := List.filter_congr fun q _ => by simp
    rw [List.filter_map, hfilter]
    refine (List.map_congr_left fun q hq => Pv.renamed_of_ne name fun hid => ?_).trans
      (List.map_id _)
    obtain ⟨hq, hretired⟩ := List.mem_filter.1 hq
    rw [pv_eq_of_id_eq hs.pvIds hq hpv hid, hactive] at hretired
    cases hretired
  items := rfl
  tags := rfl
  listed := activePvs_rename
  readings := readings_rename

/-! ### When a variable can be renamed -/

namespace MayRename

variable {n : Node} {pv : Pv} (hs : s.IsOwned) (h : s.MayRename n pv name)

include hs h

/-- The variable is found under its old name. -/
theorem activePv?_eq : s.activePv? n.id pv.name = some pv := by
  obtain ⟨hpv, hconfig, hactive⟩ := mem_activePvs_iff.1 h.listed
  cases hfound : s.activePv? n.id pv.name with
  | none => exact absurd rfl (activePv?_isNone_iff.1 (by simp [hfound]) pv hpv hactive hconfig)
  | some q =>
    obtain ⟨hq, hqc, hname, hqa⟩ := activePv?_eq_some hfound
    rw [hs.activePvs q hq pv hpv hqa hactive (hqc.trans hconfig.symm) hname]

/-- Its row can be changed if the name is free. -/
theorem changePv_eq : s.changePv pv.id (fun q => { q with name }) = .ok (s.rename pv.id name) := by
  obtain ⟨hpv, hconfig, hactive⟩ := mem_activePvs_iff.1 h.listed
  refine changePv_ok fun p hp hid o ho hne ha hoc he => ?_
  obtain rfl := pv_eq_of_id_eq hs.pvIds hp hpv hid
  rcases h.free with hsame | hfree
  · exact hne (congrArg Pv.id (hs.activePvs o ho p hp ha hactive hoc (he.trans hsame)))
  · exact hfree o (mem_activePvs_iff.2 ⟨ho, hoc.trans hconfig, ha⟩) he

/-- Among the listed variables it is found with the new name. -/
theorem find?_rename {writer : String} :
    (((s.rename pv.id name).stamp c n.id writer).activePvs n.id).find? (·.id = pv.id) =
      some { pv with name } := by
  show ((s.rename pv.id name).activePvs n.id).find? (·.id = pv.id) = _
  have hlisted : { pv with name } ∈ (s.rename pv.id name).activePvs n.id := by
    rw [activePvs_rename, ← pv.renamed_self]
    exact List.mem_map_of_mem h.listed
  have hids : ((s.rename pv.id name).pvs.map (·.id)).Nodup := by
    rw [rename, List.map_map]
    simpa [Function.comp_def] using hs.pvIds
  cases hfind : ((s.rename pv.id name).activePvs n.id).find? (·.id = pv.id) with
  | none => simpa using List.find?_eq_none.1 hfind _ hlisted
  | some q =>
    have hq := mem_activePvs_iff.1 (List.mem_of_find?_eq_some hfind)
    have hid : q.id = pv.id := by simpa using List.find?_some hfind
    rw [pv_eq_of_id_eq hids hq.1 (mem_activePvs_iff.1 hlisted).1 hid]

/-- A renamed variable can get its former name back. -/
theorem back {writer : String} : ∃ m, m.id = n.id ∧
    ((s.rename pv.id name).stamp c n.id writer).MayRename m { pv with name } pv.name := by
  obtain ⟨hn, hk⟩ := mem_ofKind_iff.1 h.node
  obtain ⟨hpv, hconfig, hactive⟩ := mem_activePvs_iff.1 h.listed
  refine ⟨{ n with version := n.version + 1, modified := c.now, user := writer }, rfl,
    mem_ofKind_iff.2 ⟨List.mem_map.2 ⟨n, hn, if_pos rfl⟩, hk⟩, ?_, (hs.pvName pv hpv).1,
    or_iff_not_imp_left.2 fun hne q hq => ?_⟩
  · show _ ∈ (s.rename pv.id name).activePvs n.id
    rw [activePvs_rename, ← pv.renamed_self]
    exact List.mem_map_of_mem h.listed
  · -- Another variable does not have the former name, since the renamed one had it.
    change q ∈ (s.rename pv.id name).activePvs n.id at hq
    rw [activePvs_rename] at hq
    obtain ⟨o, ho, rfl⟩ := List.mem_map.1 hq
    obtain ⟨ho, hoc, hoa⟩ := mem_activePvs_iff.1 ho
    by_cases hid : o.id = pv.id
    · rw [Pv.name_renamed name hid]
      exact Ne.symm hne
    · rw [Pv.renamed_of_ne name hid]
      intro he
      exact hid (congrArg Pv.id (hs.activePvs o ho pv hpv hoa hactive (hoc.trans hconfig.symm) he))

/-- The renamed variable gets its former name back, and the table is what it was. -/
theorem rename_back : ((s.rename pv.id name).rename pv.id pv.name).pvs = s.pvs := by
  obtain ⟨hpv, -⟩ := mem_activePvs_iff.1 h.listed
  rw [rename, rename, List.map_map]
  refine (List.map_congr_left fun q hq => ?_).trans (List.map_id _)
  by_cases hid : q.id = pv.id
  · obtain rfl := pv_eq_of_id_eq hs.pvIds hq hpv hid
    rw [Function.comp_apply, Pv.renamed_self]
    exact Pv.renamed_self _ _
  · rw [Function.comp_apply, Pv.renamed_of_ne _ hid, Pv.renamed_of_ne _ hid]
    rfl

end MayRename

end Store

/-! ### The operation -/

section

variable {c : Context} {p : Policy} {config : Id} {old new user : Option String}
  {s s₀ s' : Store} {renamed : Pv} {answer : Answer}

/-- When a variable is renamed, and what that leaves. -/
theorem renamePv_eq_ok_iff (hs : s.IsSound) (s₀ : Store) :
    (∃ t, renamePv c config old new user s₀ = .ok t ∧ t s = .ok (renamed, s')) ↔
      ∃ n pv writer, s.MayRename n pv (strip (new.getD "")) ∧ config = n.id ∧
        old = some pv.name ∧ user = some writer ∧
        renamed = { pv with name := strip (new.getD "") } ∧
        s' = (s.rename pv.id (strip (new.getD ""))).stamp c n.id writer := by
  constructor
  · rintro ⟨t, hplan, ht⟩
    obtain ⟨hname, hplan⟩ := demand_bind_eq_ok_iff.1 hplan
    obtain rfl := Except.ok.inj hplan
    obtain ⟨n, hn, ht⟩ := bind_eq_ok_iff.1 ht
    obtain ⟨hfind, hk⟩ := requireToWrite_eq_ok_iff.1 hn
    obtain ⟨hmem, rfl⟩ := node?_eq_some hfind
    cases hold : old.bind (s.activePv? n.id) with
    | none =>
      rw [hold] at ht
      cases ht
    | some pv =>
      rw [hold] at ht
      obtain ⟨_, rfl, hfound⟩ := Option.bind_eq_some_iff.1 hold
      obtain ⟨hpv, hconfig, rfl, hactive⟩ := activePv?_eq_some hfound
      obtain ⟨hfree, ht⟩ := demand_bind_eq_ok_iff.1 ht
      have hmay : s.MayRename n pv (strip (new.getD "")) := by
        refine ⟨mem_ofKind_iff.2 ⟨hmem, hk⟩, mem_activePvs_iff.2 ⟨hpv, hconfig, hactive⟩, hname,
          hfree.imp_right fun hnone q hq => ?_⟩
        obtain ⟨hq, hqc, hqa⟩ := mem_activePvs_iff.1 hq
        exact activePv?_isNone_iff.1 hnone q hq hqa hqc
      obtain ⟨s₁, hchange, ht⟩ := bind_eq_ok_iff.1 ht
      obtain rfl := Except.ok.inj ((hmay.changePv_eq hs.owned).symm.trans hchange)
      obtain ⟨s₂, htouch, ht⟩ := bind_eq_ok_iff.1 ht
      obtain ⟨writer, rfl, rfl⟩ := touch_eq_ok_iff.1 htouch
      rw [hmay.find?_rename hs.owned] at ht
      obtain ⟨rfl, rfl⟩ := Prod.mk.inj (Except.ok.inj ht)
      exact ⟨n, pv, writer, hmay, rfl, rfl, rfl, rfl, rfl⟩
  · rintro ⟨n, pv, writer, hmay, rfl, rfl, rfl, rfl, rfl⟩
    obtain ⟨hn, hk⟩ := mem_ofKind_iff.1 hmay.node
    refine ⟨_, demand_bind_eq_ok_iff.2 ⟨hmay.named, rfl⟩, bind_eq_ok_iff.2 ⟨n,
      requireToWrite_eq_ok_iff.2 ⟨node?_of_mem hs.tree.nodup hn, hk⟩, ?_⟩⟩
    rw [Option.bind_some, hmay.activePv?_eq hs.owned]
    refine demand_bind_eq_ok_iff.2 ⟨hmay.free.imp_right fun hfree => ?_, bind_eq_ok_iff.2 ⟨_,
      hmay.changePv_eq hs.owned, bind_eq_ok_iff.2 ⟨_, touch_eq_ok_iff.2 ⟨writer, rfl, rfl⟩, ?_⟩⟩⟩
    · exact activePv?_isNone_iff.2 fun o ho ha hc => hfree o (mem_activePvs_iff.2 ⟨ho, hc, ha⟩)
    · rw [hmay.find?_rename hs.owned]
      rfl

/-- When the operation succeeds, wherever it was planned, and what it leaves. -/
theorem Operation.write_renamePv_iff (hs : s.IsSound) :
    (∃ t, (renamePv config old new user).write c p s₀ = .ok t ∧ t s = .ok (answer, s')) ↔
      ∃ n pv writer, s.MayRename n pv (strip (new.getD "")) ∧ config = n.id ∧
        old = some pv.name ∧ user = some writer ∧
        answer = .pv { pv with name := strip (new.getD "") } ∧
        s' = (s.rename pv.id (strip (new.getD ""))).stamp c n.id writer := by
  refine Iff.trans (Write.exists_map_eq_ok_iff (f := Answer.pv)) ?_
  simp only [renamePv_eq_ok_iff hs s₀]
  constructor
  · rintro ⟨_, rfl, n, pv, writer, hmay, hconfig, hold, huser, rfl, hs'⟩
    exact ⟨n, pv, writer, hmay, hconfig, hold, huser, rfl, hs'⟩
  · rintro ⟨n, pv, writer, hmay, hconfig, hold, huser, rfl, hs'⟩
    exact ⟨_, rfl, n, pv, writer, hmay, hconfig, hold, huser, rfl, hs'⟩

/-- The variable is found by its name, which no other listed one has. -/
theorem Operation.write_renamePv_listed_iff (hs : s.IsSound) {n : Node} {pv : Pv}
    (hn : n ∈ s.ofKind .configuration) (hpv : pv ∈ s.activePvs n.id) :
    (∃ t, (renamePv n.id (some pv.name) new user).write c p s₀ = .ok t ∧ t s = .ok (answer, s')) ↔
      s.MayRename n pv (strip (new.getD "")) ∧
        answer = .pv { pv with name := strip (new.getD "") } ∧ ∃ writer, user = some writer ∧
        s' = (s.rename pv.id (strip (new.getD ""))).stamp c n.id writer := by
  rw [write_renamePv_iff hs]
  constructor
  · rintro ⟨m, q, writer, hmay, hid, hname, huser, rfl, rfl⟩
    obtain rfl := eq_of_id_eq hs.tree.nodup (mem_ofKind_iff.1 hn).1
      (mem_ofKind_iff.1 hmay.node).1 hid
    obtain ⟨hq, hqc, hqa⟩ := mem_activePvs_iff.1 hmay.listed
    obtain ⟨hmem, hconfig, hactive⟩ := mem_activePvs_iff.1 hpv
    obtain rfl := hs.owned.activePvs q hq pv hmem hqa hactive (hqc.trans hconfig.symm)
      (Option.some.inj hname).symm
    exact ⟨hmay, rfl, writer, huser, rfl⟩
  · rintro ⟨hmay, rfl, writer, huser, rfl⟩
    exact ⟨n, pv, writer, hmay, rfl, rfl, huser, rfl, rfl⟩

end

/-- The renaming stamps the configuration, which is no snapshot. -/
theorem Store.mem_ofKind_snapshot_stamp {s : Store} (hs : s.IsTree) {n m : Node}
    (hn : n ∈ s.ofKind .configuration) (hm : m ∈ s.ofKind .snapshot) {c : Context}
    {id : Id} {name writer : String} :
    m ∈ ((s.rename id name).stamp c n.id writer).ofKind .snapshot := by
  obtain ⟨hn, hconfig⟩ := mem_ofKind_iff.1 hn
  obtain ⟨hm, hsnapshot⟩ := mem_ofKind_iff.1 hm
  refine mem_ofKind_iff.2 ⟨List.mem_map.2 ⟨m, hm, if_neg fun he => ?_⟩, hsnapshot⟩
  rw [eq_of_id_eq hs.nodup hm hn he, hconfig] at hsnapshot
  cases hsnapshot

namespace Sample

/-- The configuration lists another variable than the one that its snapshot refers to. -/
def replaced : Archive :=
  perform "e" (.updateConfiguration relisted (some "u")) committed

/-- The store with a replaced list can be reached. -/
theorem reachable_replaced : ∃ ts, Service.Reachable ⟨replaced, ts⟩ := by
  obtain ⟨ts, h⟩ := reachable_committed
  exact reachable_perform h "e" (.updateConfiguration relisted (some "u"))

end Sample

namespace Service

open Archive Sample

/-- A listed variable can be given another name unless the configuration lists another variable of
that name; retired variables do not matter. From then on it is listed under the other name in its
old place, it is shown with that name in every item that refers to it, old ones too, and everything
else is as it was. Given its former name again, it leaves the table as it was. -/
theorem Reachable.pv_renamed {a : Archive} {between : Archive → Archive}
    {ts us : List (Transaction Answer)} {s : Store} {n : Node} {pv : Pv} {new : String}
    (h : Reachable ⟨a, ts⟩) (hothers : Run ⟨a, ts⟩ ⟨between a, us⟩)
    (hs : (between a).store = some s) (hn : n ∈ s.ofKind .configuration)
    (hpv : pv ∈ s.activePvs n.id) (hname : strip new ≠ "") (hold : Hold) (c : Context) (p : Policy)
    (user : String) :
    let result := a.run hold between
      ((Operation.renamePv n.id (some pv.name) (some new) (some user)).call c p)
    (hold = .nothing → ((∃ answer b, result = (.ok answer, b)) ↔
      strip new = pv.name ∨ ∀ q ∈ s.activePvs n.id, q.name ≠ strip new)) ∧
    ∀ answer b, result = (.ok answer, b) → ∃ s', b = { between a with store := some s' } ∧
      answer = .pv { pv with name := strip new } ∧ s.Renames pv (strip new) s' ∧
      (Query.listedPvs n.id).ask (between a) = .ok (.pvs (s.activePvs n.id)) ∧
      (Query.listedPvs n.id).ask b =
        .ok (.pvs ((s.activePvs n.id).map (·.renamed pv.id (strip new)))) ∧
      (∀ m ∈ s.ofKind .snapshot,
        (Query.snapshot m.id).ask (between a) = .ok (.snapshot ⟨m, s.readings m.id⟩) ∧
        (Query.snapshot m.id).ask b =
          .ok (.snapshot ⟨m, (s.readings m.id).map (·.renamed pv.id (strip new))⟩)) ∧
      ∀ c₁ p₁ user₁, ∃ answer₁ b₁ s₁, b.run .nothing id ((Operation.renamePv n.id
          (some (strip new)) (some pv.name) (some user₁)).call c₁ p₁) = (.ok answer₁, b₁) ∧
        b₁.store = some s₁ ∧ s₁.pvs = s.pvs := by
  intro result
  obtain ⟨⟨s₀, hs₀, -⟩, -⟩ := h.isSound
  have hsound := (h.run hothers).isSound_store hs
  have hmay {answer : Answer} {s₁ s' : Store} : (∃ t, (Operation.renamePv n.id (some pv.name)
      (some new) (some user)).write c p s₁ = .ok t ∧ t s = .ok (answer, s')) ↔ _ :=
    Operation.write_renamePv_listed_iff hsound hn hpv
  refine ⟨fun hhold => ⟨?_, fun hfree => ?_⟩, fun answer b hcall => ?_⟩
  · rintro ⟨answer, b, hcall⟩
    obtain ⟨s', -, -, -, s₁, hok⟩ := h.call_eq_ok hothers hs hcall
    exact (hmay.1 hok).1.free
  · subst hhold
    obtain ⟨t, hplan, ht⟩ := hmay.2 ⟨⟨hn, hpv, hname, hfree⟩, rfl, user, rfl, rfl⟩
    have hrun : result = (between a).finish .nothing t :=
      run_of_plan_ok hs₀ (fun _ => rfl) hplan
    rw [hrun, finish_nothing_of_ok hs ht]
    exact ⟨_, _, rfl⟩
  · obtain ⟨s', rfl, -, hsound', s₁, hok⟩ := h.call_eq_ok hothers hs hcall
    obtain ⟨hmay, rfl, _, -, hs'⟩ := hmay.1 hok
    obtain ⟨hmem, -, hactive⟩ := mem_activePvs_iff.1 hpv
    have hrenames : s.Renames pv (strip new) s' := hs' ▸ renames_rename hsound.owned hmem hactive
    obtain ⟨m, hid, hback⟩ : ∃ m, m.id = n.id ∧
        s'.MayRename m { pv with name := strip new } pv.name := hs' ▸ hmay.back hsound.owned
    have hbefore := answers_listings hsound.tree hs
    have hafter := answers_listings (a := { between a with store := some s' }) hsound'.tree rfl
    refine ⟨s', rfl, rfl, hrenames, hbefore.pvsOf n hn, ?_, fun k hk =>
      ⟨hbefore.readingsOf k hk, ?_⟩, fun c₁ p₁ user₁ => ?_⟩
    · have hlisted := hafter.pvsOf m hback.node
      rw [hid] at hlisted
      rw [← hrenames.listed]
      exact hlisted
    · rw [← hrenames.readings]
      exact hafter.readingsOf k (hs' ▸ mem_ofKind_snapshot_stamp hsound.tree hn hk)
    · have hstrip : strip pv.name = pv.name := (hsound.owned.pvName pv hmem).2
      refine ⟨_, _, _, (run_alone_eq_ok_iff rfl).2 ⟨_, (Operation.write_renamePv_iff hsound').2
        ⟨m, { pv with name := strip new }, user₁, ?_, hid.symm, rfl, rfl, rfl, rfl⟩, rfl⟩, rfl, ?_⟩
      · rw [Option.getD_some, hstrip]
        exact hback
      · rw [Option.getD_some, hstrip, hs']
        exact hmay.rename_back hsound.owned

/-- A listed variable gets the name of a retired one, with blanks around it. The snapshot still
shows the retired one, and the name can be taken back. -/
theorem pv_renamed_replaced :
    let rename (a : Archive) (old new : String) := a.run .nothing id
      ((Operation.renamePv "c0" (some old) (some new) (some "u")).call (supply "f") policy)
    ∃ s n q b s' r, replaced.store = some s ∧ n ∈ s.ofKind .snapshot ∧ s.activePvs "c0" = [q] ∧
      q.name = "w" ∧ rename replaced "w" " v " = (.ok (.pv { q with name := "v" }), b) ∧
      (Query.listedPvs "c0").ask b = .ok (.pvs [{ q with name := "v" }]) ∧
      s.readings n.id = [r] ∧ r.pv.name = "v" ∧ r.pv.id ≠ q.id ∧
      (Query.snapshot n.id).ask b = .ok (.snapshot ⟨n, [r]⟩) ∧ b.store = some s' ∧
      s'.pvs.length = 2 ∧ ∃ answer₁ b₁ s₁, rename b "v" "w" = (.ok answer₁, b₁) ∧
        b₁.store = some s₁ ∧ s₁.pvs = s.pvs := by
  intro rename
  obtain ⟨ts, h⟩ := reachable_replaced
  obtain ⟨⟨s, hs, -⟩, -⟩ := h.isSound
  have hids : ∀ s ∈ replaced.store, (∃ n ∈ s.ofKind .configuration, n.id = "c0") ∧
      (∃ n ∈ s.ofKind .snapshot, n.id = "s0") ∧ s.pvs.length = 2 := by
    decide +kernel
  have hlisted : ∀ s ∈ replaced.store, ∃ q ∈ s.pvs, q.id = "e0" ∧ q.name = "w" ∧
      ∀ o ∈ s.pvs, o = q ↔ o.config = "c0" ∧ o.active := by
    decide +kernel
  have hread : ∀ s ∈ replaced.store,
      (s.readings "s0").map (fun r => (r.item.pv, r.pv.id, r.pv.name)) = [("c1", "c1", "v")] := by
    decide +kernel
  obtain ⟨⟨n, hn, hnid⟩, ⟨m, hm, hmid⟩, hlength⟩ := hids s hs
  obtain ⟨q, hqmem, hqid, hqname, hqonly⟩ := hlisted s hs
  have hq : s.activePvs "c0" = [q] :=
    activePvs_eq (h.isSound_store hs).owned.pvIds (List.pairwise_singleton _ _) fun o =>
      List.mem_singleton.trans ⟨fun ho => ⟨ho ▸ hqmem, (hqonly o (ho ▸ hqmem)).1 ho⟩,
        fun ho => (hqonly o ho.1).2 ho.2⟩
  obtain ⟨r, hr, hrshown⟩ := List.map_eq_singleton_iff.1 (hread s hs)
  obtain ⟨hitem, hrest⟩ := Prod.mk.inj hrshown
  obtain ⟨hrid, hrname⟩ := Prod.mk.inj hrest
  have hstrip : strip " v " = "v" := by decide
  have hnew : strip " v " ≠ "" := by decide
  have hidle : Run ⟨replaced, ts⟩ ⟨id replaced, ts⟩ := .refl
  obtain ⟨hanswered, heffect⟩ := h.pv_renamed hidle hs hn (hnid ▸ hq ▸ List.mem_singleton_self q)
    hnew .nothing (supply "f") policy "u"
  rw [hnid, hq, hqname] at hanswered heffect
  obtain ⟨answer, b, hrename⟩ := (hanswered rfl).2 (.inr fun o ho => by
    rw [List.mem_singleton.1 ho, hqname]
    decide)
  obtain ⟨s', hb, hanswer, hrenames, -, hafter, hreads, hback⟩ := heffect answer b hrename
  obtain ⟨answer₁, b₁, s₁, hback, hs₁, hpvs⟩ := hback (supply "f") policy "u"
  rw [hstrip] at hanswer hafter hback hreads
  refine ⟨s, m, q, b, s', r, hs, hm, hq, hqname, hanswer ▸ hrename, ?_, hmid ▸ hr, hrname, ?_, ?_,
    by rw [hb], ?_, answer₁, b₁, s₁, hback, hs₁, hpvs⟩
  · rw [hafter, List.map_singleton, Pv.renamed_self]
  · rw [hrid, hqid]
    decide
  · rw [(hreads m hm).2, hmid, hr, List.map_singleton, Reading.renamed, if_neg]
    rw [hitem, hqid]
    decide
  · rw [hrenames.pvs, List.length_map, hlength]

end Service

end SnapshotArchive
