import SnapshotArchive.Proofs.Captures
import SnapshotArchive.Proofs.Paths
import SnapshotArchive.Record

/-!
# What saving a snapshot stores

The variables that a configuration lists can be told apart (`Store.IsOwned.areApart_activePvs`), so
the pairs that saving makes do not depend on the order of the items. What is stored is read back in
the order of the variables, each item with the fields of the only one that was given for its
variable.

* `Store.readings_capture` : what is read of a snapshot that was just saved.
* `Operation.write_saveSnapshot_iff` : when saving succeeds, and what it leaves.
* `Service.Reachable.capture_stored` : what clients find when they have saved a snapshot.
-/

namespace SnapshotArchive

open Text Store Archive

namespace Store

variable {s : Store} {m : Node} {config : Id} {items : List ItemForm}
  {pairs : List (Pv × ItemForm)}

/-! ### Variables and their items -/

/-- The variables that a configuration lists differ in their identifiers and in their names. -/
theorem IsOwned.areApart_activePvs (hs : s.IsOwned) (config : Id) :
    AreApart Pv.describe (s.activePvs config) := by
  have hids := hs.nodup_activePvs config
  constructor
  · have hmap := hids.map (f := some) fun _ _ => Option.some.inj
    rwa [List.map_map] at hmap
  · refine (List.Nodup.of_map _ hids).map_on fun p hp q hq he => ?_
    obtain ⟨hp, hpc, hpa⟩ := mem_activePvs_iff.1 hp
    obtain ⟨hq, hqc, hqa⟩ := mem_activePvs_iff.1 hq
    exact hs.activePvs p hp q hq hpa hqa (hpc.trans hqc.symm) (Option.some.inj he)

/-- Items are paired exactly if each refers to a variable and each variable is referred to once. -/
theorem pairItems_eq_ok_iff (hs : s.IsOwned) :
    s.pairItems config items = .ok pairs ↔
      (∀ item ∈ items, ∃ pv ∈ s.activePvs config, item.refersTo pv.describe) ∧
        pairs.map Prod.fst = s.activePvs config ∧
        ∀ pair ∈ pairs, items.filter (·.refersTo pair.1.describe) = [pair.2] := by
  rw [← matchItems_eq_ok_iff (hs.areApart_activePvs config), pairItems]
  split
  · rename_i found hfound
    rw [hfound, Except.ok.injEq, Except.ok.injEq]
  · rename_i faults hfaults
    rw [hfaults]
    exact iff_of_false nofun nofun

/-! ### Reading them back -/

/-- After a capture, the items of its snapshot are the captured ones. -/
theorem filter_items_capture_self (m : Node) (pairs : List (Pv × ItemForm)) :
    (s.capture m pairs).items.filter (·.snapshot = m.id) = storedItems m.id 0 pairs := by
  have hold : (s.items.filter (·.snapshot ≠ m.id)).filter (·.snapshot = m.id) = [] := by
    simp [List.filter_filter]
  have hnew : (storedItems m.id 0 pairs).filter (·.snapshot = m.id) = storedItems m.id 0 pairs :=
    List.filter_eq_self.2 fun item hitem => by simp [mem_storedItems hitem]
  rw [capture, List.filter_append, hold, hnew, List.nil_append]

/-- Those of another snapshot are as they were. -/
theorem filter_items_capture_of_ne {id : Id} (h : id ≠ m.id) :
    (s.capture m pairs).items.filter (·.snapshot = id) = s.items.filter (·.snapshot = id) := by
  have hnew : ∀ item ∈ storedItems m.id 0 pairs, decide (item.snapshot = id) = false := by
    intro item hitem
    simpa [mem_storedItems hitem] using h.symm
  rw [capture, filter_append_of_forall_not hnew, List.filter_filter]
  refine List.filter_congr fun item _ => ?_
  by_cases he : item.snapshot = id
  · simp [he, h]
  · simp [he]

/-- They are listed in the order captured. -/
theorem itemsOf_capture (m : Node) (pairs : List (Pv × ItemForm)) :
    (s.capture m pairs).itemsOf m.id = storedItems m.id 0 pairs := by
  rw [itemsOf, filter_items_capture_self]
  refine List.mergeSort_of_pairwise ((pairwise_storedItems m.id 0 pairs).imp ?_)
  intro a b hle
  simpa using hle

/-- What is read of a snapshot that was just saved. -/
theorem readings_capture (hs : s.IsOwned) (hpairs : s.pairItems config items = .ok pairs) :
    (s.capture m pairs).readings m.id =
      pairs.zipIdx.map fun e => ⟨e.1.1, e.1.2.stored m.id e.1.1.id e.2⟩ := by
  rw [readings, itemsOf_capture, storedItems, List.filterMap_map, ← List.filterMap_eq_map]
  refine List.filterMap_congr fun e he => ?_
  have hmem := (pairItems_mem hpairs e.1 (List.fst_mem_of_mem_zipIdx he)).1
  have hfind : (s.capture m pairs).pv? e.1.1.id = some e.1.1 := by
    rw [← pv?_of_mem hs hmem]
    simp [pv?, capture]
  simp only [Function.comp_apply]
  rw [show (e.1.2.stored m.id e.1.1.id e.2).pv = e.1.1.id from rfl, hfind]
  rfl

/-- They are read with the variables of the configuration, in their order. -/
theorem map_pv_readings_capture (hs : s.IsOwned)
    (hpairs : s.pairItems config items = .ok pairs) :
    ((s.capture m pairs).readings m.id).map (·.pv) = s.activePvs config := by
  rw [readings_capture hs hpairs, ← ((pairItems_eq_ok_iff hs).1 hpairs).2.1, List.map_map]
  calc pairs.zipIdx.map (·.1.1)
    _ = (pairs.zipIdx.map Prod.fst).map Prod.fst := by rw [List.map_map]; rfl
    _ = pairs.map Prod.fst := by rw [List.zipIdx_map_fst]

/-- And each with what was captured for it. -/
theorem map_item_readings_capture (hs : s.IsOwned)
    (hpairs : s.pairItems config items = .ok pairs) :
    ((s.capture m pairs).readings m.id).map (·.item) = storedItems m.id 0 pairs := by
  rw [readings_capture hs hpairs, List.map_map]
  rfl

/-- A complete item is read back as it was given. -/
theorem form_stored {pv : Pv} {form : ItemForm} (h : form.IsComplete) (snapshot : Id)
    (position : Nat) : (⟨pv, form.stored snapshot pv.id position⟩ : Reading).form =
      { form with pv := pv.describe } := by
  obtain ⟨time, htime, -⟩ := h.timestamp
  obtain ⟨severity, hseverity⟩ := Option.isSome_iff_exists.1 h.severity
  obtain ⟨status, hstatus⟩ := Option.isSome_iff_exists.1 h.status
  simp [Reading.form, ItemForm.stored, htime, hseverity, hstatus]

end Store

/-! ### The operation -/

section

variable {c : Context} {p : Policy} {s₀ s s' : Store} {config : Id} {items : List ItemForm}
  {name comment user : Option String} {title note : String} {answer : Answer}

/-- When saving succeeds, wherever it was planned, and what it leaves. -/
theorem Operation.write_saveSnapshot_iff (hs : s.IsSound) (htitle : strip (name.getD "") = title)
    (hnote : strip (comment.getD "") = note) :
    (∃ t, (saveSnapshot config items name comment user).write c p s₀ = .ok t ∧
        t s = .ok (answer, s')) ↔
      (title = "" ↔ note = "") ∧ (title ≠ "" → IsName title) ∧
      ∃ pairs writer, s.MaySave c config title items pairs ∧ user = some writer ∧
        s' = s.capture (s.savedNode c config title note writer) pairs ∧
        answer = .snapshot ⟨s.savedNode c config title note writer,
          s'.readings (s.savedNode c config title note writer).id⟩ := by
  refine Iff.trans (Write.exists_map_eq_ok_iff (f := Answer.snapshot)) ?_
  simp only [saveSnapshot_eq_ok_iff hs s₀ htitle hnote]
  constructor
  · rintro ⟨found, rfl, hboth, hname, pairs, writer, hsave, huser, hs', rfl⟩
    exact ⟨hboth, hname, pairs, writer, hsave, huser, hs', rfl⟩
  · rintro ⟨hboth, hname, pairs, writer, hsave, huser, hs', rfl⟩
    exact ⟨_, rfl, hboth, hname, pairs, writer, hsave, huser, hs', rfl⟩

/-- The order in which items are given does not matter. -/
theorem Store.MaySave.of_perm (hs : s.IsOwned) {pairs : List (Pv × ItemForm)}
    (h : s.MaySave c config title items pairs) {items' : List ItemForm}
    (hperm : items'.Perm items) : s.MaySave c config title items' pairs := by
  refine { h with paired := (pairItems_eq_ok_iff hs).2 ?_ }
  obtain ⟨hall, hfst, honly⟩ := (pairItems_eq_ok_iff hs).1 h.paired
  refine ⟨fun item hitem => hall item (hperm.subset hitem), hfst, fun pair hpair => ?_⟩
  have hsame := hperm.filter (·.refersTo pair.1.describe)
  rw [honly pair hpair] at hsame
  exact List.perm_singleton.1 hsame

/-- What is saved takes the place of no other sort of node. -/
theorem Store.MaySave.id_ne {pairs : List (Pv × ItemForm)}
    (h : s.MaySave c config title items pairs) (hs : s.IsTree) {writer : String} {n : Node}
    (hn : n ∈ s.nodes) (hk : n.kind ≠ .snapshot) :
    n.id ≠ (s.savedNode c config title note writer).id := by
  intro hid
  unfold savedNode at hid
  split at hid
  · rename_i draft hdraft
    obtain ⟨hmem, -, hdk, -⟩ := draft?_eq_some hdraft
    obtain rfl := eq_of_id_eq hs.nodup hn hmem hid
    exact hk hdk
  · rename_i hnone
    exact not_mem_of_hasNode_eq_false (h.new hnone) hn hid

/-- Asked of an archive with a store, a snapshot is read from the store. -/
theorem Query.ask_snapshot {a : Archive} (hs : a.store = some s) (id : Id) :
    (snapshot id).ask a = (s.snapshot id).map .snapshot :=
  read_of_store hs _

/-- Transactions that do the same in a store end alike on it. -/
theorem Archive.finish_congr {a : Archive} (hs : a.store = some s) {hold : Hold}
    {t u : Transaction Answer} (h : t s = u s) : a.finish hold t = a.finish hold u := by
  unfold finish
  simp only [hs, h]

/-- Saving with exactly one of name and comment empty is refused before anything is looked at. -/
theorem Operation.write_saveSnapshot_of_half
    (h : ¬(strip (name.getD "") = "" ↔ strip (comment.getD "") = "")) :
    (saveSnapshot config items name comment user).write c p s = .error (.refused
      (.halfCommit (if strip (name.getD "") = "" then "name" else "comment"))) := by
  rw [write, Write.map, SnapshotArchive.saveSnapshot, ensure, demand, if_neg h]
  rfl

end

namespace Service

open Sample

/-- Saving captured items as a snapshot is refused if exactly one of name and comment is empty. If
it is answered, then with what is read of the snapshot from then on: one item for each variable that
the configuration lists, in their order, with the fields of the only given item that refers to the
variable, in whatever order the items were given. It has no other items, and neither the items of
other snapshots nor the configuration and its variables have changed. -/
theorem Reachable.capture_stored {a : Archive} {between : Archive → Archive}
    {ts us : List (Transaction Answer)} {s : Store} {hold : Hold} {c : Context} {p : Policy}
    {config : Id} {items : List ItemForm} {name comment user : Option String}
    (h : Reachable ⟨a, ts⟩) (hothers : Run ⟨a, ts⟩ ⟨between a, us⟩)
    (hs : (between a).store = some s) :
    let save (items : List ItemForm) := a.run hold between
      ((Operation.saveSnapshot config items name comment user).call c p)
    (¬(strip (name.getD "") = "" ↔ strip (comment.getD "") = "") →
      save items = (.error (.refused
        (.halfCommit (if strip (name.getD "") = "" then "name" else "comment"))), a)) ∧
    ∀ answer b, save items = (.ok answer, b) → ∃ found s', answer = .snapshot found ∧
      b.store = some s' ∧ (Query.snapshot found.node.id).ask b = .ok (.snapshot found) ∧
      found.readings.map (·.pv) = s.activePvs config ∧
      (∀ item ∈ items, ∃ pv ∈ s.activePvs config, item.refersTo pv.describe) ∧
      (∀ r ∈ found.readings, ∃ form, items.filter (·.refersTo r.pv.describe) = [form] ∧
        r.form = { form with pv := r.pv.describe }) ∧
      s'.items.filter (·.snapshot = found.node.id) = found.readings.map (·.item) ∧
      (∀ id ≠ found.node.id,
        s'.items.filter (·.snapshot = id) = s.items.filter (·.snapshot = id)) ∧
      s'.pvs = s.pvs ∧ s'.node? config = s.node? config ∧
      ∀ items', items'.Perm items → save items' = save items := by
  intro save
  obtain ⟨⟨s₀, hs₀, -⟩, -⟩ := h.isSound
  have hwrite (items : List ItemForm)
      (hinit : Operation.saveSnapshot config items name comment user = .initialise) :
      hold = .nothing := by
    cases hinit
  refine ⟨fun hhalf => ?_, fun answer b hcall => ?_⟩
  · exact run_of_plan_error hs₀ (hwrite items) (Operation.write_saveSnapshot_of_half hhalf)
  · obtain ⟨s', rfl, hsound, hsound', hok⟩ := h.call_eq_ok hothers hs hcall
    obtain ⟨s₁, t, hplan, ht⟩ := hok
    obtain ⟨hboth, hname, pairs, writer, hsave, huser, hs', rfl⟩ :=
      (Operation.write_saveSnapshot_iff hsound rfl rfl).1 ⟨t, hplan, ht⟩
    -- Whatever the order of the items, the plan is made, and its transaction does the same.
    have hanswered : ∀ items', items'.Perm items → ∃ t,
        (Operation.saveSnapshot config items' name comment user).write c p s₀ = .ok t ∧
          t s = .ok (_, s') := fun items' hperm =>
      (Operation.write_saveSnapshot_iff hsound rfl rfl).2
        ⟨hboth, hname, pairs, writer, hsave.of_perm hsound.owned hperm, huser, hs', rfl⟩
    generalize hm : s.savedNode c config (strip (name.getD "")) (strip (comment.getD "")) writer = m
      at hs' hanswered ⊢
    subst hs'
    have hpaired := hsave.paired
    obtain ⟨hall, hfst, honly⟩ := (pairItems_eq_ok_iff hsound.owned).1 hpaired
    refine ⟨_, _, rfl, rfl, ?_, map_pv_readings_capture hsound.owned hpaired, hall, fun r hr => ?_,
      ?_, fun id hid => filter_items_capture_of_ne hid, by simp [capture], ?_,
      fun items' hperm => ?_⟩
    · have hread : (s.capture m pairs).snapshot m.id = .ok ⟨m, (s.capture m pairs).readings m.id⟩ :=
        snapshot_eq_ok_iff.2 ⟨m, node?_putNode_self, hm ▸ kind_savedNode writer, rfl⟩
      rw [Query.ask_snapshot rfl, hread]
      rfl
    · rw [readings_capture hsound.owned hpaired] at hr
      obtain ⟨e, he, rfl⟩ := List.mem_map.1 hr
      have hpair := List.fst_mem_of_mem_zipIdx he
      exact ⟨e.1.2, honly e.1 hpair, form_stored (hsave.complete e.1 hpair) m.id e.2⟩
    · rw [map_item_readings_capture hsound.owned hpaired, filter_items_capture_self]
    · obtain ⟨node, hfind, hk⟩ := hsave.found
      obtain ⟨hmem, rfl⟩ := node?_eq_some hfind
      have hne : node.id ≠ m.id := hm ▸ hsave.id_ne hsound.tree hmem (by simp [hk])
      rw [hfind]
      exact node?_of_mem hsound'.tree.nodup (mem_putNode_iff.2 (.inr ⟨hmem, hne⟩))
    · obtain ⟨u, hu, hus⟩ := hanswered items' hperm
      have hsame : save items' = (between a).finish hold u :=
        run_of_plan_ok hs₀ (hwrite items') hu
      obtain ⟨t, ht, hts⟩ := hanswered items (.refl items)
      have hthis : save items = (between a).finish hold t :=
        run_of_plan_ok hs₀ (hwrite items) ht
      rw [hsame, hthis]
      exact finish_congr hs (hus.trans hts.symm)

/-- A draft is committed with another value, and the item that it had is gone. -/
theorem capture_stored_drafted : ∃ found s' b r,
    drafted.run .nothing id ((Operation.saveSnapshot "c0" [{ item with value := .whole 2 }]
      (some "s") (some "first") (some "u")).call (supply "s") policy) = (.ok (.snapshot found), b) ∧
    b.store = some s' ∧ found.readings = [r] ∧ r.pv.name = "v" ∧ r.item.value = .whole 2 ∧
    s'.items.filter (·.snapshot = found.node.id) = [r.item] := by
  obtain ⟨ts, h⟩ := reachable_drafted
  obtain ⟨⟨s, hs, -⟩, -⟩ := h.isSound
  obtain ⟨answer, hanswer⟩ := exists_answer drafted "s" (.saveSnapshot "c0"
    [{ item with value := .whole 2 }] (some "s") (some "first") (some "u")) (by decide +kernel)
  have hidle : Run ⟨drafted, ts⟩ ⟨id drafted, ts⟩ := .refl
  obtain ⟨-, hsaved⟩ := h.capture_stored hidle hs
  obtain ⟨found, s', rfl, hs', -, hpvs, -, hforms, hitems, -⟩ := hsaved answer _ hanswer
  have hlisted : drafted.store.map (fun s => (s.activePvs "c0").map (·.name)) = some ["v"] := by
    decide +kernel
  rw [show drafted.store = some s from hs, Option.map_some, Option.some.injEq, ← hpvs,
    List.map_map] at hlisted
  obtain ⟨r, hr, hname⟩ := List.map_eq_singleton_iff.1 hlisted
  obtain ⟨form, honly, hform⟩ := hforms r (hr ▸ List.mem_singleton_self r)
  have hgiven : form ∈ [{ item with value := Value.whole 2 }] :=
    (List.mem_filter.1 (honly ▸ List.mem_singleton_self form)).1
  obtain rfl := List.mem_singleton.1 hgiven
  refine ⟨found, s', _, r, hanswer, hs', hr, hname, congrArg ItemForm.value hform, ?_⟩
  rw [hitems, hr]
  rfl

end Service

end SnapshotArchive
