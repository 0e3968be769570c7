import SnapshotArchive.Proofs.Ordering

/-!
# Deep copies

Copying nodes duplicates their subtrees: what lies below a copy has the shape and the contents of
what lies below the original, and shares no identifier with it (`Store.IsDeepCopy`). An item refers
to a variable by its identifier, so the items of a copied snapshot must refer to the copies of the
variables: otherwise a change of one configuration would show in the snapshots of the other.

* `Store.IsCopied.isDeepCopy` : copied subtrees are duplicated.
* `Service.Reachable.copied_deeply` : what clients have after a copy that is answered.
-/

namespace SnapshotArchive

open Store Archive Sample

/-- Copies of the subtrees of selected nodes in a target. Below `source` the renaming and the place
of the copies are those of `d source.id`. -/
structure Store.IsDeepCopy (c : Context) (user : String) (s : Store) (target : Id)
    (nodes : List Node) (d : Id → Duplicate) (s' : Store) : Prop where
  /-- The copies of nodes have identifiers from the supply that were not in use. -/
  nodesNew : ∀ source ∈ nodes, ∀ n ∈ s.subtree source.id,
    s.hasNode ((d source.id).node n.id) = false ∧ ∃ j, (d source.id).node n.id = c.fresh j
  /-- No two nodes have one copy. -/
  nodesApart : ∀ source ∈ nodes, ∀ n ∈ s.subtree source.id,
    ∀ source' ∈ nodes, ∀ n' ∈ s.subtree source'.id,
      (d source.id).node n.id = (d source'.id).node n'.id → source = source' ∧ n = n'
  /-- The copies of variables have identifiers from the supply that were not in use. -/
  pvsNew : ∀ source ∈ nodes, ∀ n ∈ s.subtree source.id, ∀ pv ∈ s.pvsOf n.id,
    s.pv? ((d source.id).pv pv.id) = none ∧ ∃ j, (d source.id).pv pv.id = c.fresh j
  /-- No two variables have one copy. -/
  pvsApart : ∀ source ∈ nodes, ∀ n ∈ s.subtree source.id, ∀ pv ∈ s.pvsOf n.id,
    ∀ source' ∈ nodes, ∀ n' ∈ s.subtree source'.id, ∀ pv' ∈ s.pvsOf n'.id,
      (d source.id).pv pv.id = (d source'.id).pv pv'.id → source = source' ∧ pv = pv'
  /-- At and below the copy of a selected node are the copies of what is at and below the node. -/
  subtree : ∀ source ∈ nodes, s'.subtree ((d source.id).node source.id) =
    (s.subtree source.id).map ((d source.id).copyOf c user target source)
  /-- The variables of a copied configuration, also the retired ones. -/
  pvs : ∀ source ∈ nodes, ∀ n ∈ s.subtree source.id,
    s'.pvsOf ((d source.id).node n.id) = (s.pvsOf n.id).map (d source.id).copyPv
  /-- The items of a copied snapshot. -/
  items : ∀ source ∈ nodes, ∀ n ∈ s.subtree source.id,
    s'.itemsOf ((d source.id).node n.id) = (s.itemsOf n.id).map (d source.id).copyItem
  /-- They refer to the copies of the variables that the items of the snapshot refer to. -/
  itemPvs : ∀ source ∈ nodes, ∀ n ∈ s.subtree source.id, ∀ item ∈ s.itemsOf n.id,
    ∃ pv, s.pv? item.pv = some pv ∧ n.parent = some pv.config ∧
      s'.pv? ((d source.id).pv item.pv) = some ((d source.id).copyPv pv)
  /-- The tags of a copied snapshot. -/
  tags : ∀ source ∈ nodes, ∀ n ∈ s.subtree source.id,
    (s'.tagsOf ((d source.id).node n.id)).Perm ((s.tagsOf n.id).map (d source.id).copyTag)
  /-- All else is as it was, but the version, the time and the user of the target. -/
  tables : s' = s.stamp c target user ++ copies c user target s d nodes

namespace Store.IsCopied

variable {c : Context} {user : String} {s s' : Store} {target : Id} {nodes : List Node}
  {d : Id → Duplicate} (h : s.IsCopied c user target nodes d s') {source n : Node}

include h

/-- Reading the variable of an item of a copied snapshot gives the copy of the variable that the
item refers to. -/
theorem pv?_copy (hsource : source ∈ nodes) (hn : n ∈ s.subtree source.id)
    (hmovable : source.kind.isMovable) {item : Item} (hitem : item ∈ s.itemsOf n.id) :
    ∃ pv, s.pv? item.pv = some pv ∧ n.parent = some pv.config ∧
      s'.pv? ((d source.id).pv item.pv) = some ((d source.id).copyPv pv) := by
  obtain ⟨m, hm, pv, hpv, he⟩ := h.pv_of_item hsource hn hmovable hitem
  obtain ⟨found, hfound, hparent⟩ :=
    h.before.pv?_of_mem_itemsOf (mem_nodes_of_mem_subtree hn) hitem
  have hread : s.pv? item.pv = some pv := he ▸ pv?_of_mem h.before.owned (mem_pvsOf_iff.1 hpv).1
  obtain rfl : found = pv := Option.some.inj (hfound.symm.trans hread)
  have hcopy : (d source.id).copyPv found ∈ s'.pvsOf ((d source.id).node m.id) := by
    rw [h.pvsOf_copy hsource hm]
    exact List.mem_map_of_mem hpv
  refine ⟨found, hfound, hparent, ?_⟩
  rw [← he]
  exact pv?_of_mem h.after.owned (mem_pvsOf_iff.1 hcopy).1

/-- What a copy leaves are deep copies of the selected nodes. -/
theorem isDeepCopy (ho : s.IsOrdered) (hmovable : ∀ n ∈ nodes, n.kind.isMovable)
    (hsupplied : ∀ n ∈ nodes, (d n.id).IsSupplied c s n) :
    s.IsDeepCopy c user target nodes d s' where
  nodesNew source hsource n hn := ⟨h.new hsource hn, (hsupplied source hsource).nodes n hn⟩
  nodesApart _ hsource _ hn _ hsource' _ hn' := h.apart hsource hsource' hn hn'
  pvsNew source hsource n hn pv hpv :=
    ⟨h.pv_new hsource hn hpv, (hsupplied source hsource).pvs n hn pv hpv⟩
  pvsApart _ hsource _ hn _ hpv _ hsource' _ hn' _ hpv' :=
    h.pv_apart hsource hn hsource' hn' hpv hpv'
  subtree _ hsource := h.subtree_copy ho hsource
  pvs _ hsource _ hn := h.pvsOf_copy hsource hn
  items _ hsource _ hn := h.itemsOf_copy hsource hn
  itemPvs source hsource _ hn _ hitem := h.pv?_copy hsource hn (hmovable source hsource) hitem
  tags _ hsource _ hn := h.tagsOf_copy hsource hn
  tables := h.eq

end Store.IsCopied

/-- A copied subtree has the copies of its identifiers. -/
theorem Store.IsDeepCopy.subtreeIds {c : Context} {user : String} {s s' : Store} {target : Id}
    {nodes : List Node} {d : Id → Duplicate} (h : s.IsDeepCopy c user target nodes d s')
    {source : Node} (hsource : source ∈ nodes) :
    s'.subtreeIds ((d source.id).node source.id) =
      (s.subtreeIds source.id).map (d source.id).node := by
  rw [Store.subtreeIds, h.subtree source hsource, Store.subtreeIds, List.map_map, List.map_map]
  exact List.map_congr_left fun n _ => Duplicate.id_copyOf n

/-- What a copy into a target has checked, and what it leaves. -/
theorem Operation.Effect.isCopied {c : Context} {p : Policy} {s s' : Store} {ids : List Id}
    {target : Id} {user : Option String} (h : Effect c p s (.copyNodes ids target user) s')
    (hs : s.IsSound) (hs' : s'.IsSound) :
    ∃ author nodes t d, user = some author ∧
      s.IsRelocation ids target false (p.copies = .reject) nodes t ∧
      (∀ before n after, nodes = before ++ n :: after → IsPlaced p.copies s target d before n) ∧
      (∀ n ∈ nodes, (d n.id).IsSupplied c s n) ∧ s.IsCopied c author target nodes d s' := by
  cases h with
  | @copyNodes _ _ nodes t author d hcopies hbeside hsupplied hplaced =>
    exact ⟨author, nodes, t, d, rfl, hcopies, hplaced, hsupplied,
      hcopies.isCopied hs hs' hbeside hplaced rfl⟩

/-- A copy into a target duplicates the subtrees of the selected nodes, and places the copies in the
target one after the other. -/
theorem Operation.Effect.isDeepCopy {c : Context} {p : Policy} {s s' : Store} {ids : List Id}
    {target : Id} {user : Option String} (h : Effect c p s (.copyNodes ids target user) s')
    (hs : s.IsSound) (hs' : s'.IsSound) (ho : s.IsOrdered) :
    ∃ author nodes t d, user = some author ∧
      s.IsRelocation ids target false (p.copies = .reject) nodes t ∧
      (∀ before n after, nodes = before ++ n :: after → IsPlaced p.copies s target d before n) ∧
      s.IsDeepCopy c author target nodes d s' := by
  obtain ⟨author, nodes, t, d, rfl, hcopies, hplaced, hsupplied, hcopied⟩ := h.isCopied hs hs'
  refine ⟨author, nodes, t, d, rfl, hcopies, hplaced, ?_⟩
  exact hcopied.isDeepCopy ho hcopies.movable hsupplied

namespace Service

/-- Whenever a call to copy nodes is answered, the tables have the copies of the selected subtrees
besides what other clients left in them before. -/
theorem Reachable.copied_deeply {a b : Archive} {between : Archive → Archive}
    {ts us : List (Transaction Answer)} {s : Store} {hold : Hold} {c : Context} {p : Policy}
    {ids : List Id} {target : Id} {user : Option String} {answer : Answer}
    (h : Reachable ⟨a, ts⟩) (hothers : Run ⟨a, ts⟩ ⟨between a, us⟩)
    (hs : (between a).store = some s)
    (hcall : a.run hold between ((Operation.copyNodes ids target user).call c p) =
      (.ok answer, b)) :
    ∃ s' author nodes t d, b = { between a with store := some s' } ∧ user = some author ∧
      s.IsRelocation ids target false (p.copies = .reject) nodes t ∧
      (∀ before n after, nodes = before ++ n :: after → IsPlaced p.copies s target d before n) ∧
      s.IsDeepCopy c author target nodes d s' := by
  have hreach : Reachable ⟨between a, us⟩ := h.run hothers
  obtain ⟨s', hb, hsound, hsound', hok⟩ := h.call_eq_ok hothers hs hcall
  obtain ⟨author, nodes, t, d, hcopy⟩ :=
    (hok.effect hsound).isDeepCopy hsound hsound' (hreach.isOrdered hs)
  exact ⟨s', author, nodes, t, d, hb, hcopy⟩

/-- The copied snapshot has a copy of the tag, and its item refers to the copy of the variable. -/
theorem copied_deeply_captured : ∃ s' r, captured.store = some s' ∧
    s'.subtreeIds (Renaming.node r "c0") = [r.node "c0", r.node "s0"] ∧
    (s'.pvsOf (r.node "c0")).map (·.id) = [r.pv "c1"] ∧
    (s'.itemsOf (r.node "s0")).map (·.pv) = [r.pv "c1"] ∧ r.pv "c1" ≠ "c1" ∧
    (s'.tagsOf (r.node "s0")).map (·.name) = ["t"] := by
  obtain ⟨ts, s, answer, h, hs, hanswer⟩ := exists_copy
  have hbefore : ∀ s ∈ tagged.store, s.subtreeIds "c0" = ["c0", "s0"] ∧
      (s.pvsOf "c0").map (·.id) = ["c1"] ∧ (s.itemsOf "s0").map (·.pv) = ["c1"] ∧
      (s.tagsOf "s0").map (·.name) = ["t"] ∧ (s.pv? "c1").isSome := by
    decide +kernel
  obtain ⟨hsubtree, hpvs, hitems, htags, hpv⟩ := hbefore s hs
  have hidle : (id tagged).store = some s := hs
  have hnobody : Run ⟨tagged, ts⟩ ⟨id tagged, ts⟩ := .refl
  obtain ⟨s', author, nodes, t, d, hcaptured, -, hnodes, -, hcopy⟩ :=
    h.copied_deeply hnobody hidle hanswer
  -- The only selected node is the configuration, and its snapshot is below it.
  obtain ⟨source, rfl, hid⟩ := List.map_eq_singleton_iff.1 hnodes.selection.ids_eq
  have hselected : source ∈ [source] := List.mem_singleton_self source
  have hbelow : ∀ id ∈ ["c0", "s0"], ∃ n ∈ s.subtree source.id, n.id = id := by
    intro id hmem
    rw [← hsubtree, subtreeIds, ← hid] at hmem
    exact List.mem_map.1 hmem
  obtain ⟨n, hn, hnid⟩ := hbelow "c0" (by decide)
  obtain ⟨m, hm, hmid⟩ := hbelow "s0" (by decide)
  refine ⟨s', (d source.id).toRenaming, congrArg Archive.store hcaptured, ?_, ?_, ?_, ?_, ?_⟩
  · rw [← hid, hcopy.subtreeIds hselected, hid, hsubtree]
    rfl
  · have hids := congrArg (List.map (d source.id).pv) hpvs
    rw [List.map_map] at hids
    rw [← hnid, hcopy.pvs source hselected n hn, hnid, List.map_map]
    exact hids
  · have hrefs := congrArg (List.map (d source.id).pv) hitems
    rw [List.map_map] at hrefs
    rw [← hmid, hcopy.items source hselected m hm, hmid, List.map_map]
    exact hrefs
  · obtain ⟨pv, hmem, hpvid⟩ := List.mem_map.1 (hpvs ▸ List.mem_singleton_self "c1")
    have hnew := (hcopy.pvsNew source hselected n hn pv (hnid ▸ hmem)).1
    intro he
    rw [hpvid, he] at hnew
    rw [hnew] at hpv
    cases hpv
  · have hnames := (hcopy.tags source hselected m hm).map (·.name)
    rw [hmid, List.map_map] at hnames
    exact List.perm_singleton.1 (hnames.trans (.of_eq htags))

end Service

end SnapshotArchive
