import SnapshotArchive.Proofs.Updating
import SnapshotArchive.Proofs.Variables.Naming
import SnapshotArchive.Proofs.Saving
import SnapshotArchive.Proofs.Listings
import SnapshotArchive.Proofs.Copying.Readouts

/-!
# Positions

Records are listed by the positions that they were given: children behind the others, variables and
items counted from zero, copies as their originals. Variables that are retired keep the positions
that they had, and so those of the active ones are counted for themselves: an update gives all of
them out again, whichever of them were there before.

So the orders of children, of active variables, of items and of the snapshots of a configuration
are not left open (`IsSettled`): records that are put in order by what they are listed by come as
they are listed, whatever order they come from. Among all variables of a configuration, retired ones
too, two can have one position.

* `Operation.Succeeds.counted_pvs`, `Operation.Succeeds.counted_items` : what one operation keeps.
* `Service.Reachable.isNumbered` : in every archive in use the positions are counted.
* `Service.Reachable.orders_settled` : what holds of all orders.
-/

namespace SnapshotArchive

open Store Archive Sample

/-- Positions are counted from zero. -/
def IsCounted (positions : List Nat) : Prop :=
  positions = List.range positions.length

/-- No positions are counted. -/
theorem isCounted_nil : IsCounted [] := rfl

/-- The first numbers are counted. -/
theorem isCounted_range' (k : Nat) : IsCounted (List.range' 0 k) := by
  rw [IsCounted, List.length_range', List.range_eq_range']

/-- What is counted rises strictly. -/
theorem IsCounted.pairwise {α : Type} {l : List α} {f : α → Nat} (h : IsCounted (l.map f)) :
    l.Pairwise fun a b => f a < f b := by
  refine List.pairwise_map.1 ?_
  rw [h]
  exact List.pairwise_lt_range

/-- The active variables of every configuration and the items of every snapshot are counted. -/
structure Store.IsNumbered (s : Store) : Prop where
  pvs : ∀ config, IsCounted ((s.activePvs config).map (·.position))
  items : ∀ snapshot, IsCounted ((s.itemsOf snapshot).map (·.position))

/-- An order leaves nothing open: some records of a list, when they are put in order, come as they
do in the list. -/
def IsSettled {α : Type} (le : α → α → Bool) (l : List α) : Prop :=
  ∀ (keep : α → Bool) (rows : List α), rows.Perm (l.filter keep) →
    rows.Pairwise (fun a b => le a b) → rows = l.filter keep

/-- An order that holds one way only between any two settles the list. -/
theorem IsSettled.of_pairwise {α : Type} {le : α → α → Bool} {l : List α}
    (h : l.Pairwise fun a b => le a b ∧ ¬le b a) : IsSettled le l := by
  intro keep rows hperm hrows
  refine hperm.eq_of_pairwise (fun a b ha hb hab hba => ?_) hrows ((h.imp And.left).filter keep)
  by_contra hne
  have hties : l.Pairwise fun a b => ¬(le a b ∧ le b a) := h.imp fun h hboth => h.2 hboth.2
  have : Std.Symm fun a b => ¬(le a b ∧ le b a) := ⟨fun _ _ h hboth => h hboth.symm⟩
  have ha : a ∈ l := (List.mem_filter.1 (hperm.mem_iff.1 ha)).1
  exact hties.forall ha (List.mem_filter.1 hb).1 hne ⟨hab, hba⟩

/-- Records with positions that are counted are in one order by their positions. -/
theorem IsCounted.isSettled {α : Type} {l : List α} {f : α → Nat} (h : IsCounted (l.map f)) :
    IsSettled (fun a b => f a ≤ f b) l :=
  .of_pairwise (h.pairwise.imp fun hlt => by simp; omega)

namespace Store

variable {s t : Store} {c : Context} {config : Id}

/-- The variables of a new configuration are counted from a position on. -/
theorem addPvs_counted {position : Nat} {forms : List PvForm}
    (h : s.addPvs c config position forms = .ok t) :
    ∃ added, t = { s with pvs := s.pvs ++ added } ∧ (∀ pv ∈ added, pv.config = config ∧ pv.active) ∧
      added.map (·.position) = List.range' position forms.length := by
  induction forms generalizing s position with
  | nil =>
    obtain rfl := Except.ok.inj h
    exact ⟨[], by simp, by simp, rfl⟩
  | cons form forms ih =>
    obtain ⟨s₁, hinsert, h⟩ := bind_eq_ok_iff.1 h
    obtain ⟨-, -, -, rfl⟩ := insertPv_eq_ok_iff.1 hinsert
    obtain ⟨added, rfl, howner, hcount⟩ := ih h
    refine ⟨_ :: added, congrArg (fun pvs => { s with pvs }) (List.append_assoc _ _ _),
      List.forall_mem_cons.2 ⟨⟨rfl, rfl⟩, howner⟩, ?_⟩
    rw [List.map_cons, hcount, List.length_cons, List.range'_succ]

/-- Whatever was listed before, an update counts the variables that it lists. -/
theorem IsOwned.counted_replacePvs (hs : s.IsOwned) {forms : List PvForm}
    (hnodup : (forms.map PvForm.cleanName).Nodup) (h : s.replacePvs c config forms = .ok t) :
    IsCounted ((t.activePvs config).map (·.position)) := by
  have happart := listsApart_of_replacePvs hs.pvIds hnodup h
  obtain rfl := replacePvs_eq_ok hs.pvIds h
  rw [activePvs_relist hs happart, map_position_listedFor]
  exact isCounted_range' _

/-- The listing of variables depends on the rows of the configuration alone. -/
theorem activePvs_congr (h : t.pvs.filter (·.config = config) = s.pvs.filter (·.config = config)) :
    t.activePvs config = s.activePvs config := by
  rw [activePvs, pvsOf, h]
  rfl

/-- The listing of items depends on the rows of the snapshot alone. -/
theorem itemsOf_congr {snapshot : Id}
    (h : t.items.filter (·.snapshot = snapshot) = s.items.filter (·.snapshot = snapshot)) :
    t.itemsOf snapshot = s.itemsOf snapshot := by
  rw [itemsOf, h]
  rfl

/-- Stored items are numbered on from the first position. -/
theorem map_position_storedItems (snapshot : Id) (position : Nat) (pairs : List (Pv × ItemForm)) :
    (storedItems snapshot position pairs).map (·.position) =
      List.range' position pairs.length := by
  induction pairs generalizing position with
  | nil => rfl
  | cons pair pairs ih =>
    rw [storedItems_cons, List.map_cons, ih, List.length_cons, List.range'_succ]
    rfl

/-- The items of a snapshot that is saved are counted. -/
theorem counted_capture (hcount : ∀ snapshot, IsCounted ((s.itemsOf snapshot).map (·.position)))
    (m : Node) (pairs : List (Pv × ItemForm)) (snapshot : Id) :
    IsCounted (((s.capture m pairs).itemsOf snapshot).map (·.position)) := by
  by_cases hid : snapshot = m.id
  · subst hid
    rw [itemsOf_capture, map_position_storedItems]
    exact isCounted_range' _
  · rw [itemsOf_congr (filter_items_capture_of_ne hid)]
    exact hcount snapshot

/-! ### Identifiers without records -/

/-- A configuration that is not stored has no variables. -/
theorem IsOwned.activePvs_of_hasNode_eq_false (h : s.IsOwned) (hid : s.hasNode config = false) :
    s.activePvs config = [] :=
  List.eq_nil_iff_forall_not_mem.2 fun pv hpv =>
    (h.ne_of_hasNode_eq_false hid).1 pv (mem_activePvs_iff.1 hpv).1 (mem_activePvs_iff.1 hpv).2.1

/-- Nor has a snapshot that is not stored items. -/
theorem IsOwned.itemsOf_of_hasNode_eq_false (h : s.IsOwned) (hid : s.hasNode config = false) :
    s.itemsOf config = [] :=
  List.eq_nil_iff_forall_not_mem.2 fun item hitem =>
    (h.ne_of_hasNode_eq_false hid).2.1 item (mem_itemsOf_iff.1 hitem).1 (mem_itemsOf_iff.1 hitem).2

end Store

/-! ### What operations keep -/

section

variable {c : Context} {s₀ s s' : Store} (hs : s.IsSound) (hs' : s'.IsSound)

include hs hs'

/-- A new configuration leaves every list of variables counted. -/
theorem createConfiguration_counted {parent : Id} {form : ConfigurationForm} {user : Option String}
    {t : Transaction Configuration} {answer : Configuration}
    (hcount : ∀ config, IsCounted ((s.activePvs config).map (·.position)))
    (hplan : createConfiguration c parent form user s₀ = .ok t) (ht : t s = .ok (answer, s'))
    (config : Id) : IsCounted ((s'.activePvs config).map (·.position)) := by
  obtain ⟨name, -, hplan⟩ := bind_eq_ok_iff.1 hplan
  obtain ⟨pvs, -, hplan⟩ := bind_eq_ok_iff.1 hplan
  obtain rfl := Except.ok.inj hplan
  obtain ⟨q, -, ht⟩ := bind_eq_ok_iff.1 ht
  obtain ⟨s₁, hadd, ht⟩ := bind_eq_ok_iff.1 ht
  obtain ⟨s₂, haddPvs, ht⟩ := bind_eq_ok_iff.1 ht
  obtain ⟨found, -, ht⟩ := bind_eq_ok_iff.1 ht
  obtain ⟨-, rfl⟩ := Prod.mk.inj (Except.ok.inj ht)
  obtain ⟨writer, -, hnew, -, rfl⟩ := addNode_eq hadd
  obtain ⟨added, rfl, howner, hpositions⟩ := addPvs_counted haddPvs
  have hadded : IsCounted (added.map (·.position)) := hpositions ▸ isCounted_range' _
  by_cases hid : config = c.fresh 0
  · subst hid
    -- None of the variables before belongs to the new configuration.
    have hbefore := (hs.owned.ne_of_hasNode_eq_false hnew).1
    rw [activePvs_eq hs'.owned.pvIds hadded.pairwise fun pv => ?_]
    · exact hadded
    · rw [List.mem_append]
      constructor
      · exact fun hpv => ⟨.inr hpv, howner pv hpv⟩
      · rintro ⟨hpv | hpv, hconfig, -⟩
        · exact absurd hconfig (hbefore pv hpv)
        · exact hpv
  · rw [activePvs_congr (s := s)]
    · exact hcount config
    · refine filter_append_of_forall_not fun pv hpv => ?_
      simpa [(howner pv hpv).1] using Ne.symm hid

omit hs' in
/-- So does a changed one. -/
theorem updateConfiguration_counted {form : ConfigurationForm} {user : Option String}
    {t : Transaction Configuration} {answer : Configuration}
    (hcount : ∀ config, IsCounted ((s.activePvs config).map (·.position)))
    (hplan : updateConfiguration c form user s₀ = .ok t) (ht : t s = .ok (answer, s'))
    (config : Id) : IsCounted ((s'.activePvs config).map (·.position)) := by
  obtain ⟨name, -, hplan⟩ := bind_eq_ok_iff.1 hplan
  obtain ⟨pvs, hpvs, hplan⟩ := bind_eq_ok_iff.1 hplan
  obtain rfl := Except.ok.inj hplan
  obtain ⟨n, hn, ht⟩ := bind_eq_ok_iff.1 ht
  obtain ⟨-, ht⟩ := demand_bind_eq_ok_iff.1 ht
  obtain ⟨_, -, ht⟩ := ite_bind_eq_ok ht
  obtain ⟨s₁, hchange, ht⟩ := bind_eq_ok_iff.1 ht
  obtain ⟨s₂, hreplace, ht⟩ := bind_eq_ok_iff.1 ht
  obtain ⟨found, -, ht⟩ := bind_eq_ok_iff.1 ht
  obtain ⟨-, rfl⟩ := Prod.mk.inj (Except.ok.inj ht)
  obtain ⟨hfind, hkind⟩ := requireToWrite_eq_ok_iff.1 hn
  obtain ⟨hmem, -⟩ := node?_eq_some hfind
  obtain rfl : s₁ = s.replaceNode (n.configured c form name user) :=
    changeNode_eq_replaceNode hs.tree.nodup hmem rfl hchange
  by_cases hid : config = n.id
  · subst hid
    exact (isOwned_replaceNode_configured hs hmem hkind name).counted_replacePvs
      (checkPvs_nodup hpvs) hreplace
  · have hkeeps := replacePvs_keepsOthers (s := s.replaceNode (n.configured c form name user))
      hs.owned.pvIds hreplace
    rw [activePvs_congr (hkeeps.others config hid)]
    exact hcount config

end

namespace Operation.Succeeds

variable {c : Context} {p : Policy} {o : Operation} {s s' : Store} {answer : Answer}
  (h : o.Succeeds c p s answer s') (hs : s.IsSound)

include h hs

/-- Active variables stay counted. -/
theorem counted_pvs (hcount : ∀ config, IsCounted ((s.activePvs config).map (·.position)))
    (config : Id) : IsCounted ((s'.activePvs config).map (·.position)) := by
  have hs' := h.isSound hs
  have heffect := h.effect hs
  by_cases hnode : s'.hasNode config
  swap
  · rw [hs'.owned.activePvs_of_hasNode_eq_false (Bool.eq_false_iff.2 hnode)]
    exact isCounted_nil
  have hkept {gone : List Id} (he : s' = s.removeNodes gone) :
      IsCounted ((s'.activePvs config).map (·.position)) := by
    obtain ⟨n, hn, rfl⟩ := hasNode_iff.1 hnode
    subst he
    rw [activePvs, pvsOf_removeNodes (mem_nodes_removeNodes_iff.1 hn).2]
    exact hcount n.id
  cases o with
  | createConfiguration =>
    obtain ⟨s₀, t, hplan, ht⟩ := h
    exact Write.of_map_eq_ok hplan ht fun hplan ht =>
      createConfiguration_counted hs hs' hcount hplan ht config
  | updateConfiguration =>
    obtain ⟨s₀, t, hplan, ht⟩ := h
    exact Write.of_map_eq_ok hplan ht fun hplan ht =>
      updateConfiguration_counted hs hcount hplan ht config
  | renamePv =>
    obtain ⟨s₀, hdone⟩ := h
    obtain ⟨n, pv, writer, -, -, -, -, -, rfl⟩ := (write_renamePv_iff hs).1 hdone
    show IsCounted (((s.rename pv.id _).activePvs config).map (·.position))
    rw [activePvs_rename, List.map_map]
    simpa [Function.comp_def] using hcount config
  | copyNodes =>
    obtain ⟨author, nodes, t, d, -, -, -, -, hcopied⟩ := heffect.isCopied hs hs'
    rcases (hcopied.hasNode_iff_or config).1 hnode with hold | ⟨source, hsource, n, hn, rfl⟩
    · obtain ⟨n, hn, rfl⟩ := hasNode_iff.1 hold
      rw [hcopied.activePvs_old hold]
      exact hcount n.id
    · rw [hcopied.activePvs_copy hsource hn, List.map_map]
      exact hcount n.id
  | deleteNode =>
    cases heffect
    exact hkept rfl
  | deleteNodes =>
    cases heffect
    exact hkept rfl
  | _ => cases heffect <;> exact hcount config

/-- Items stay counted. -/
theorem counted_items (hcount : ∀ snapshot, IsCounted ((s.itemsOf snapshot).map (·.position)))
    (snapshot : Id) : IsCounted ((s'.itemsOf snapshot).map (·.position)) := by
  have hs' := h.isSound hs
  have heffect := h.effect hs
  by_cases hnode : s'.hasNode snapshot
  swap
  · rw [hs'.owned.itemsOf_of_hasNode_eq_false (Bool.eq_false_iff.2 hnode)]
    exact isCounted_nil
  have hkept {roots gone : List Id} (hgone : s.IsAllBelow roots gone)
      (he : s' = s.removeNodes gone) : IsCounted ((s'.itemsOf snapshot).map (·.position)) := by
    obtain ⟨n, hn, rfl⟩ := hasNode_iff.1 hnode
    subst he
    rw [itemsOf_removeNodes hs hgone (mem_nodes_removeNodes_iff.1 hn).2]
    exact hcount n.id
  cases o with
  | saveSnapshot =>
    obtain ⟨s₀, hdone⟩ := h
    obtain ⟨found, -, hdone⟩ := Write.exists_map_eq_ok_iff.1 hdone
    obtain ⟨-, -, pairs, writer, -, -, rfl, -⟩ := (saveSnapshot_eq_ok_iff hs s₀ rfl rfl).1 hdone
    exact counted_capture hcount _ _ snapshot
  | copyNodes =>
    obtain ⟨author, nodes, t, d, -, -, -, -, hcopied⟩ := heffect.isCopied hs hs'
    rcases (hcopied.hasNode_iff_or snapshot).1 hnode with hold | ⟨source, hsource, n, hn, rfl⟩
    · have hitems : s'.itemsOf snapshot = s.itemsOf snapshot := by
        rw [hcopied.eq]
        exact (hcopied.beside.contents hold).2.1
      rw [hitems]
      exact hcount snapshot
    · rw [hcopied.itemsOf_copy hsource hn, List.map_map]
      exact hcount n.id
  | deleteNode =>
    cases heffect with
    | deleteNode _ _ hgone => exact hkept hgone rfl
  | deleteNodes =>
    cases heffect with
    | deleteNodes _ hgone => exact hkept hgone rfl
  | _ => cases heffect <;> exact hcount snapshot

end Operation.Succeeds

/-! ### The orders of all listings -/

namespace Store

variable {s : Store}

/-- So does every call that succeeds, for items as for variables. -/
theorem IsNumbered.succeeds {c : Context} {p : Policy} {o : Operation} {s' : Store}
    {answer : Answer} (h : s.IsNumbered) (hok : o.Succeeds c p s answer s') (hs : s.IsSound) :
    s'.IsNumbered :=
  ⟨hok.counted_pvs hs h.pvs, hok.counted_items hs h.items⟩

/-- Children differ in their positions, so the times of their creation decide nothing. -/
theorem IsOrdered.isSettled_children (h : s.IsOrdered) (hs : s.IsTree) (id : Id) :
    IsSettled Node.precedes (s.children id) := by
  refine .of_pairwise ((h.isAscending_children hs.nodup id).imp fun hlt => ?_)
  simp only [Node.precedes, Bool.or_eq_true, Bool.and_eq_true, decide_eq_true_eq]
  omega

/-- Snapshots of one time are told apart by their positions. -/
theorem IsOrdered.isSettled_snapshotsOf (h : s.IsOrdered) (hs : s.IsTree) (config : Id) :
    IsSettled Node.olderThan (s.snapshotsOf config) := by
  refine .of_pairwise ((snapshotsOf_sorted hs h config).imp fun hlt => ?_)
  simp only [Node.olderThan, Bool.or_eq_true, Bool.and_eq_true, decide_eq_true_eq]
  omega

end Store

namespace Service

/-- In every archive in use the positions of active variables and of items are counted. -/
theorem Reachable.isNumbered {sv : Service} (h : sv.Reachable) {s : Store}
    (hs : sv.archive.store = some s) : s.IsNumbered := by
  refine h.invariant (fun now => ⟨fun config => ?_, fun snapshot => ?_⟩)
    (fun hsound hok hnumbered => hnumbered.succeeds hok hsound) hs
  · simp [activePvs, pvsOf, isCounted_nil]
  · simp [itemsOf, isCounted_nil]

/-- No stored order is left open. The children of a node differ in their positions, the active
variables of a configuration have the positions from zero on, each once, and so have the items of a
snapshot. So the order in which children, active variables, items and the snapshots of a
configuration are listed is the only one by what they are listed by. -/
theorem Reachable.orders_settled {sv : Service} (h : sv.Reachable) :
    ∃ s, sv.archive.store = some s ∧
      (∀ id, ((s.children id).map (·.position)).Nodup ∧
        IsSettled Node.precedes (s.children id)) ∧
      (∀ config, (s.activePvs config).map (·.position) = List.range (s.activePvs config).length ∧
        IsSettled (fun p q => p.position ≤ q.position) (s.activePvs config)) ∧
      (∀ snapshot, (s.itemsOf snapshot).map (·.position) = List.range (s.itemsOf snapshot).length ∧
        IsSettled (fun i j => i.position ≤ j.position) (s.itemsOf snapshot)) ∧
      ∀ config found, s.committedSnapshots config = .ok found →
        IsSettled Node.olderThan found := by
  obtain ⟨⟨s, hs, hsound⟩, -⟩ := h.isSound
  have hordered := h.isOrdered hs
  have hnumbered := h.isNumbered hs
  refine ⟨s, hs, fun id => ⟨?_, hordered.isSettled_children hsound.tree id⟩, fun config => ⟨?_, ?_⟩,
    fun snapshot => ⟨?_, ?_⟩, fun config found hfound => ?_⟩
  · have hascending := hordered.isAscending_children hsound.tree.nodup id
    exact List.pairwise_map.2 (hascending.imp Nat.ne_of_lt)
  · simpa [IsCounted] using hnumbered.pvs config
  · exact (hnumbered.pvs config).isSettled
  · simpa [IsCounted] using hnumbered.items snapshot
  · exact (hnumbered.items snapshot).isSettled
  · obtain ⟨_, -, hfound⟩ := bind_eq_ok_iff.1 hfound
    obtain rfl := Except.ok.inj hfound
    exact hordered.isSettled_snapshotsOf hsound.tree config

/-- A draft stands behind the committed snapshot of its configuration, and both have the item of
the one variable in the first place. -/
theorem orders_settled_sketched :
    ∃ s, sketched.store = some s ∧ s.childIds "c0" = ["s0", "d0"] ∧
      ((s.children "c0").map (·.position)).Nodup ∧ IsSettled Node.precedes (s.children "c0") ∧
      (s.activePvs "c0").length = 1 ∧ (s.activePvs "c0").map (·.position) = [0] ∧
      (s.itemsOf "d0").length = 1 ∧ (s.itemsOf "d0").map (·.position) = [0] := by
  obtain ⟨ts, h⟩ := reachable_sketched
  obtain ⟨s, hs, hchildren, hpvs, hitems, -⟩ := h.orders_settled
  obtain ⟨hnodup, hsettled⟩ := hchildren "c0"
  have hlists : ∀ s ∈ sketched.store,
      ((s.nodes.filter (·.parent = some "c0")).map (·.id) = ["s0", "d0"] ∧
        (s.nodes.filter (·.parent = some "c0")).Pairwise fun n m => n.precedes m) ∧
      (s.activePvs "c0").length = 1 ∧ (s.itemsOf "d0").length = 1 := by
    decide +kernel
  obtain ⟨⟨hids, hrows⟩, hlisted, hfilled⟩ := hlists s hs
  -- The rows are in order as they stand, so this is how they are listed.
  have hperm : (s.nodes.filter (·.parent = some "c0")).Perm (s.children "c0") :=
    (List.mergeSort_perm _ _).symm
  have hlist : s.nodes.filter (·.parent = some "c0") = s.children "c0" := by
    simpa using hsettled (fun _ => true) _ (by simpa using hperm) hrows
  refine ⟨s, hs, ?_, hnodup, hsettled, hlisted, ?_, hfilled, ?_⟩
  · rw [childIds, ← hlist, hids]
  · rw [(hpvs "c0").1, hlisted]
    rfl
  · rw [(hitems "d0").1, hfilled]
    rfl

end Service

end SnapshotArchive
