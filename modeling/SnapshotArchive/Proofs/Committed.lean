import SnapshotArchive.Proofs.Versions

/-!
# Committed snapshots do not change

No operation writes a committed snapshot again. It keeps its name, its comment and its place, and
its items, whose variables stay in its configuration as long as the items are there. Of its
properties only the golden mark may change, since no snapshot ever has another one.

* `Service.Reachable.goldenOnly` : what properties a snapshot has.
* `Service.Reachable.committed_kept` : what clients find of a committed snapshot later.
-/

namespace SnapshotArchive

open Store Archive Sample

/-! ### Properties but for one key -/

namespace Properties

/-- A key that is erased need not have been set. -/
theorem erase_insert_self (p : Properties) (key value : String) :
    (p.insert key value).erase key = p.erase key := by
  refine eq_of_get?_eq fun other => ?_
  rw [get?_erase, get?_erase, get?_insert]
  split <;> rfl

/-- Erasing a key once is enough. -/
theorem erase_erase_self (p : Properties) (key : String) :
    (p.erase key).erase key = p.erase key := by
  refine eq_of_get?_eq fun other => ?_
  rw [get?_erase, get?_erase]
  split <;> rfl

/-- Properties without another key than the erased one have no value for another. -/
theorem get?_eq_none_of_erase_eq {p : Properties} {key other : String} (h : p.erase key = .empty)
    (hne : other ≠ key) : p.get? other = none := by
  have herase := p.get?_erase key other
  rw [h, if_neg hne] at herase
  exact herase.symm

end Properties

/-- An update of a snapshot keeps its name, and of its properties all but the golden mark. -/
theorem checkSnapshotUpdate_eq_ok_iff {n : Node} {name : String} {properties : Properties}
    {u : Unit} : checkSnapshotUpdate n name properties = .ok u ↔
      (n.kind = .snapshot → name = n.name ∧
        properties.erase goldenKey = n.properties.erase goldenKey) := by
  rw [checkSnapshotUpdate, demand_bind_eq_ok_iff, demand_eq_ok_iff, ← imp_iff_not_or,
    ← imp_iff_not_or, ← imp_and]

/-! ### The golden mark -/

/-- A snapshot has no property but the golden mark. -/
def Store.IsGoldenOnly (s : Store) : Prop :=
  ∀ n ∈ s.nodes, n.kind = .snapshot → n.properties.erase goldenKey = .empty

/-- Whatever an operation makes of a snapshot, its properties differ in the golden mark alone. -/
theorem Node.Revision.erase_properties {c : Context} {n m : Node} (h : n.Revision c m)
    (hk : n.kind = .snapshot) : m.properties.erase goldenKey = n.properties.erase goldenKey := by
  cases h with
  | updated hcheck => exact (checkSnapshotUpdate_eq_ok_iff.1 hcheck hk).2
  | configured hconfig =>
    rw [hconfig] at hk
    cases hk
  | @marked golden =>
    cases golden with
    | true => exact Properties.erase_insert_self _ _ _
    | false => exact Properties.erase_erase_self _ _
  | _ => rfl

/-- No operation gives a snapshot another property. -/
theorem Store.IsGoldenOnly.effect {c : Context} {p : Policy} {o : Operation} {s s' : Store}
    (h : s.IsGoldenOnly) (hs : s.IsSound) (heffect : o.Effect c p s s') : s'.IsGoldenOnly := by
  intro m hm hk
  cases heffect.yields hs hm with
  | revision hn hrevision =>
    rw [hrevision.kind_eq] at hk
    rw [hrevision.erase_properties hk]
    exact h _ hn hk
  | described hnew hempty =>
    have hproperties := hempty hk
    subst hproperties
    rfl
  | copied hn _ hcontent hproperties =>
    rw [hproperties]
    exact h _ hn (by rwa [Node.kind, ← hcontent])

/-- In a reachable archive no snapshot has another property than the golden mark. -/
theorem Service.Reachable.goldenOnly {sv : Service} (h : sv.Reachable) {s : Store}
    (hs : sv.archive.store = some s) : s.IsGoldenOnly := by
  refine h.invariant (fun now n hn hk => ?_)
    (fun hsound hok hgolden => hgolden.effect hsound (hok.effect hsound)) hs
  obtain rfl := List.mem_singleton.1 hn
  cases hk

/-! ### Committed snapshots -/

/-- Two nodes are one snapshot but for its properties and the marks of its last change. -/
structure Node.IsSameSnapshot (n m : Node) : Prop where
  content : m.content = n.content
  draft : m.draft = n.draft
  name : m.name = n.name
  parent : m.parent = n.parent
  position : m.position = n.position
  created : m.created = n.created

namespace Node

/-- A node is the snapshot that it is. -/
theorem IsSameSnapshot.refl (n : Node) : n.IsSameSnapshot n := by
  constructor <;> rfl

/-- A snapshot stays the same over two steps. -/
theorem IsSameSnapshot.trans {n m k : Node} (h : n.IsSameSnapshot m) (h' : m.IsSameSnapshot k) :
    n.IsSameSnapshot k where
  content := h'.content.trans h.content
  draft := h'.draft.trans h.draft
  name := h'.name.trans h.name
  parent := h'.parent.trans h.parent
  position := h'.position.trans h.position
  created := h'.created.trans h.created

/-- What becomes of a committed snapshot is the same snapshot. -/
theorem Revision.isSameSnapshot {c : Context} {n m : Node} (h : n.Revision c m)
    (hk : n.kind = .snapshot) (hdraft : n.draft = false) : n.IsSameSnapshot m := by
  cases h with
  | updated hcheck =>
    have hname := (checkSnapshotUpdate_eq_ok_iff.1 hcheck hk).1
    exact { IsSameSnapshot.refl n with name := hname }
  | configured hconfig =>
    rw [hconfig] at hk
    cases hk
  | moved hmovable => exact absurd hk (Kind.ne_snapshot_of_isMovable hmovable)
  | revised _ hd =>
    rw [hdraft] at hd
    cases hd
  | _ => constructor <;> rfl

end Node

/-- A snapshot of a store is in another one, with the items that it had. -/
def Store.HasSnapshot (old s : Store) (n : Node) : Prop :=
  ∃ m ∈ s.nodes, m.id = n.id ∧ n.IsSameSnapshot m ∧ s.itemsOf n.id = old.itemsOf n.id

/-- As long as a committed snapshot is there, no operation changes it. -/
theorem Store.HasSnapshot.effect {c : Context} {p : Policy} {o : Operation} {old s s' : Store}
    {n : Node} (h : old.HasSnapshot s n) (hk : n.kind = .snapshot) (hdraft : n.draft = false)
    (hs : s.IsSound) (heffect : o.Effect c p s s') (hstays : s'.hasNode n.id) :
    old.HasSnapshot s' n := by
  obtain ⟨m, hm, hid, hsame, hitems⟩ := h
  obtain ⟨k, hkm, hkid⟩ := hasNode_iff.1 hstays
  have hmk : m.kind = .snapshot := by rwa [Node.kind, hsame.content]
  have hmd : m.draft = false := hsame.draft.trans hdraft
  rw [← hid] at hstays hkid hitems
  have hlater := (heffect.revision hs hm hkm hkid).isSameSnapshot hmk hmd
  have hkept := heffect.itemsOf_eq hs hm hmd hstays
  refine ⟨k, hkm, hkid.trans hid, hsame.trans hlater, ?_⟩
  rw [← hid]
  exact hkept.trans hitems

/-! ### Reading -/

namespace Store

variable {s : Store}

/-- A stored variable is found under its identifier. -/
theorem pv?_of_mem (hs : s.IsOwned) {pv : Pv} (hpv : pv ∈ s.pvs) : s.pv? pv.id = some pv := by
  cases hfind : s.pv? pv.id with
  | none => exact absurd rfl (pv?_isNone_iff.1 (by simp [hfind]) pv hpv)
  | some q =>
    obtain ⟨hq, he⟩ := pv?_eq_some hfind
    rw [pv_eq_of_id_eq hs.pvIds hpv hq he.symm]

/-- The variable of an item is one of the configuration that the snapshot lies in. -/
theorem IsSound.pv?_of_mem_itemsOf (hs : s.IsSound) {n : Node} (hn : n ∈ s.nodes) {item : Item}
    (hitem : item ∈ s.itemsOf n.id) :
    ∃ pv, s.pv? item.pv = some pv ∧ n.parent = some pv.config := by
  obtain ⟨hmem, hsnapshot⟩ := mem_itemsOf_iff.1 hitem
  obtain ⟨m, hm, hid, -, pv, hpv, he, hparent⟩ := hs.owned.itemOwner item hmem
  obtain rfl := eq_of_id_eq hs.tree.nodup hm hn (hid.trans hsnapshot)
  exact ⟨pv, he ▸ pv?_of_mem hs.owned hpv, hparent⟩

/-- Every item of a snapshot is read with its variable. -/
theorem IsSound.map_item_readings (hs : s.IsSound) {n : Node} (hn : n ∈ s.nodes) :
    (s.readings n.id).map (·.item) = s.itemsOf n.id := by
  rw [readings, List.map_filterMap]
  have hread : ∀ item ∈ s.itemsOf n.id,
      ((s.pv? item.pv).map (⟨·, item⟩ : Pv → Reading)).map (·.item) = some item := by
    intro item hitem
    obtain ⟨pv, hpv, -⟩ := hs.pv?_of_mem_itemsOf hn hitem
    rw [hpv]
    rfl
  rw [List.filterMap_congr hread, List.filterMap_some]

/-- What is read of a snapshot is its node and its items. -/
theorem snapshot_eq_ok_iff {id : Id} {found : Snapshot} :
    s.snapshot id = .ok found ↔
      ∃ n, s.node? id = some n ∧ n.kind = .snapshot ∧ found = ⟨n, s.readings id⟩ := by
  simp only [snapshot, requireToRead, bind_eq_ok_iff, demand_eq_ok_iff, require_eq_ok_iff, pure,
    Except.pure, Except.ok.injEq]
  constructor
  · rintro ⟨n, ⟨m, hm, -, hk, rfl⟩, rfl⟩
    exact ⟨m, hm, hk, rfl⟩
  · rintro ⟨n, hn, hk, rfl⟩
    exact ⟨n, ⟨n, hn, (), hk, rfl⟩, rfl⟩

end Store

namespace Service

/-- Once a snapshot is committed, and as long as it is there, clients find it committed, with the
same name and comment, in the same place and with the same time of creation; its items are the same
in the same order, and their variables are still there in the same configuration, so reading it
loses none of them; and it has no property but the golden mark. -/
theorem Reachable.committed_kept {sv₁ sv₂ : Service} {s₁ s₂ : Store} {id : Id} {n : Node}
    {comment : String} (h : sv₁.Reachable) (hs₁ : sv₁.archive.store = some s₁)
    (hread : s₁.node? id = some n) (hcommitted : n.content = .snapshot .committed comment)
    (hrun : RunWith id sv₁ sv₂) (hs₂ : sv₂.archive.store = some s₂) :
    ∃ m, s₂.node? id = some m ∧ m.content = .snapshot .committed comment ∧ m.draft = false ∧
      m.name = n.name ∧ m.parent = n.parent ∧ m.position = n.position ∧ m.created = n.created ∧
      s₂.itemsOf id = s₁.itemsOf id ∧
      (∀ item ∈ s₁.itemsOf id, ∃ pv pv', s₁.pv? item.pv = some pv ∧ s₂.pv? item.pv = some pv' ∧
        n.parent = some pv.config ∧ pv'.config = pv.config) ∧
      (∃ found, s₂.snapshot id = .ok found ∧ found.node = m ∧
        found.readings.map (·.item) = s₁.itemsOf id) ∧
      ∀ key ≠ goldenKey, m.properties.get? key = none := by
  obtain ⟨hn, rfl⟩ := node?_eq_some hread
  have hsound₁ := h.isSound_store hs₁
  have hreach₂ := h.run hrun.run
  have hsound₂ := hreach₂.isSound_store hs₂
  have hk : n.kind = .snapshot := by rw [Node.kind, hcommitted]; rfl
  have hdraft : n.draft = false := by rw [hsound₁.named.drafts n hn, hcommitted]; rfl
  have hstart : s₁.HasSnapshot s₁ n := ⟨n, hn, rfl, .refl n, rfl⟩
  obtain ⟨m, hm, hid, hsame, hitems⟩ : s₁.HasSnapshot s₂ n :=
    hrun.invariant (fun hsound hok _ hstays hhas =>
      Store.HasSnapshot.effect hhas hk hdraft hsound (hok.effect hsound) hstays) h hs₁ hs₂ hstart
  have hfind : s₂.node? n.id = some m := hid ▸ node?_of_mem hsound₂.tree.nodup hm
  have hmk : m.kind = .snapshot := by rwa [Node.kind, hsame.content]
  refine ⟨m, hfind, hsame.content.trans hcommitted, hsame.draft.trans hdraft, hsame.name,
    hsame.parent, hsame.position, hsame.created, hitems, fun item hitem => ?_, ?_, ?_⟩
  · -- The snapshot lies in one configuration, and so do the variables of its items then and now.
    obtain ⟨pv, hpv, hparent⟩ := hsound₁.pv?_of_mem_itemsOf hn hitem
    obtain ⟨pv', hpv', hparent'⟩ := hsound₂.pv?_of_mem_itemsOf hm (hid ▸ hitems ▸ hitem)
    refine ⟨pv, pv', hpv, hpv', hparent, ?_⟩
    rw [hsame.parent, hparent] at hparent'
    exact (Option.some.inj hparent').symm
  · refine ⟨⟨m, s₂.readings n.id⟩, snapshot_eq_ok_iff.2 ⟨m, hfind, hmk, rfl⟩, rfl, ?_⟩
    rw [← hitems, ← hid]
    exact hsound₂.map_item_readings hm
  · intro key hkey
    exact Properties.get?_eq_none_of_erase_eq (hreach₂.goldenOnly hs₂ m hm hmk) hkey

end Service

/-! ### A variable that is no longer listed -/

namespace Sample

/-- A configuration with one committed snapshot. -/
def committed : Archive :=
  perform "s" (.saveSnapshot "c0" [item] (some "s") (some "first") (some "u")) <|
    perform "c" (.createConfiguration "a0" configuration (some "u")) folder

/-- The archive with one committed snapshot can be reached. -/
theorem reachable_committed : ∃ ts, Service.Reachable ⟨committed, ts⟩ := by
  obtain ⟨ts, h⟩ := reachable_folder
  obtain ⟨ts, h⟩ := reachable_perform h "c" (.createConfiguration "a0" configuration (some "u"))
  exact reachable_perform h "s" (.saveSnapshot "c0" [item] (some "s") (some "first") (some "u"))

/-- The configuration lists no variable any more. -/
def emptied : Archive :=
  perform "e" (.updateConfiguration
    { configuration with node := { configuration.node with id := "c0" }, pvs := [] } (some "u"))
    committed

end Sample

namespace Service

/-- A snapshot is read with its item though the variable is no longer listed. -/
theorem committed_kept_emptied : ∃ s m found, emptied.store = some s ∧ s.activePvs "c0" = [] ∧
    s.node? "s0" = some m ∧ m.content = .snapshot .committed "first" ∧
    s.snapshot "s0" = .ok found ∧ found.readings.map (·.item.pv) = ["c1"] := by
  obtain ⟨ts, h⟩ := reachable_committed
  obtain ⟨s₁, hs₁⟩ : ∃ s, committed.store = some s := Option.isSome_iff_exists.1 (by decide +kernel)
  obtain ⟨s₂, hs₂⟩ : ∃ s, emptied.store = some s := Option.isSome_iff_exists.1 (by decide +kernel)
  have hbefore : (committed.store.bind (·.node? "s0")).map (·.content) =
      some (.snapshot .committed "first") ∧
      committed.store.map (fun s => (s.itemsOf "s0").map (·.pv)) = some ["c1"] := by
    decide +kernel
  have hafter : (emptied.store.bind (·.node? "s0")).isSome ∧
      emptied.store.map (·.activePvs "c0") = some [] := by
    decide +kernel
  rw [hs₁] at hbefore
  rw [hs₂] at hafter
  obtain ⟨hfound, hitems⟩ := hbefore
  obtain ⟨n, hread, hcontent⟩ := Option.map_eq_some_iff.1 hfound
  have hread : s₁.node? "s0" = some n := hread
  have hnode : s₁.hasNode "s0" := by rw [hasNode, hread]; rfl
  obtain ⟨us, hrun⟩ := runWith_perform hs₁ hnode hs₂ hafter.1 ts
  obtain ⟨m, hm, hkept, -, -, -, -, -, -, -, ⟨found, hsnapshot, -, hreadings⟩, -⟩ :=
    h.committed_kept hs₁ hread hcontent hrun hs₂
  refine ⟨s₂, m, found, hs₂, Option.some.inj hafter.2, hm, hkept, hsnapshot, ?_⟩
  have hpvs : (found.readings.map (·.item)).map (·.pv) = ["c1"] := by
    rw [hreadings]
    exact Option.some.inj hitems
  rwa [List.map_map] at hpvs

end Service

end SnapshotArchive
