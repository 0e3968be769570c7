import SnapshotArchive.Proofs.Copying.Subtrees

/-!
# Copying succeeds

A copy whose checks pass and whose identifiers are new does not get stuck. Each record that it adds
meets the rules of the tables: identifiers are not in use, the copy of a parent is there, and names
below a copy differ as they did below the node. Each variable that an item refers to is copied
before the item, since a configuration is copied before its snapshots (`Copying.Covered`).

* `Copying.addNode_ok` : a node is copied with what belongs to it.
* `Copying.addSubtree_ok` : a subtree is copied if its name is free in the target.
* `Copying.addAll_ok` : selected nodes are copied.
-/

namespace SnapshotArchive

open Store

/-- For a record that the list names a copy is found. -/
theorem exists_copyOf {ids : List (Id × Id)} {id new : Id} (h : (id, new) ∈ ids) :
    ∃ found, copyOf ids id = .ok found := by
  unfold copyOf
  split
  · exact ⟨_, rfl⟩
  · rename_i hnone
    have hall := List.lookup_eq_none_iff.1 hnone _ h
    simp at hall

/-- A supply of new identifiers for a store: none is given twice, and none is in use. -/
structure Context.IsFreshFor (c : Context) (s : Store) : Prop where
  injective : Function.Injective c.fresh
  nodes : ∀ j, s.hasNode (c.fresh j) = false
  pvs : ∀ j, (s.pv? (c.fresh j)).isNone

/-! ### Records of one owner -/

namespace Store

variable {s : Store}

/-- What holds between any two records holds between those selected and put in order. -/
theorem pairwise_view {α : Type} {r : α → α → Prop} (hsymm : ∀ {a b}, r a b → r b a) {l : List α}
    (h : l.Pairwise r) (p : α → Bool) (le : α → α → Bool) :
    ((l.filter p).mergeSort le).Pairwise r :=
  (List.mergeSort_perm _ _).symm.pairwise (h.filter p) hsymm

/-- Nothing belongs to an identifier that no node has. -/
theorem IsOwned.ne_of_hasNode_eq_false (h : s.IsOwned) {id : Id} (hid : s.hasNode id = false) :
    (∀ pv ∈ s.pvs, pv.config ≠ id) ∧ (∀ item ∈ s.items, item.snapshot ≠ id) ∧
      ∀ tag ∈ s.tags, tag.snapshot ≠ id := by
  refine ⟨fun pv hpv => ?_, fun item hitem => ?_, fun tag htag => ?_⟩
  · obtain ⟨n, hn, hconfig, -⟩ := h.pvOwner pv hpv
    exact hconfig ▸ not_mem_of_hasNode_eq_false hid hn
  · obtain ⟨n, hn, hsnapshot, -⟩ := h.itemOwner item hitem
    exact hsnapshot ▸ not_mem_of_hasNode_eq_false hid hn
  · obtain ⟨n, hn, hsnapshot, -⟩ := h.tagOwner tag htag
    exact hsnapshot ▸ not_mem_of_hasNode_eq_false hid hn

/-- The active variables of a configuration differ in their names. -/
theorem IsOwned.pvsOf_apart (h : s.IsOwned) (config : Id) :
    (s.pvsOf config).Pairwise fun p q => p.active → q.active → p.name ≠ q.name := by
  have hne : s.pvs.Pairwise (· ≠ ·) := h.pvIds.of_map
  refine (pairwise_view Ne.symm hne _ _).imp_of_mem fun {p q} hp hq hne hpa hqa hname => hne ?_
  obtain ⟨hp, hpc⟩ := mem_pvsOf_iff.1 hp
  obtain ⟨hq, hqc⟩ := mem_pvsOf_iff.1 hq
  exact h.activePvs p hp q hq hpa hqa (hpc.trans hqc.symm) hname

/-- The items of a snapshot are of different variables. -/
theorem IsOwned.itemsOf_apart (h : s.IsOwned) (snapshot : Id) :
    (s.itemsOf snapshot).Pairwise fun i j => i.pv ≠ j.pv := by
  refine (pairwise_view (Or.imp Ne.symm Ne.symm) h.itemOnce _ _).imp_of_mem
    fun {i j} hi hj hne => hne.resolve_left fun hsame => hsame ?_
  exact (mem_itemsOf_iff.1 hi).2.trans (mem_itemsOf_iff.1 hj).2.symm

/-- The tags of a snapshot differ in their names. -/
theorem IsOwned.tags_apart (h : s.IsOwned) (snapshot : Id) (le : Tag → Tag → Bool) :
    ((s.tags.filter (·.snapshot = snapshot)).mergeSort le).Pairwise fun t u => t.name ≠ u.name := by
  refine (pairwise_view (Or.imp Ne.symm Ne.symm) h.tagOnce _ _).imp_of_mem
    fun {t u} ht hu hne => hne.resolve_left fun hsame => hsame ?_
  rw [List.mem_mergeSort, List.mem_filter, decide_eq_true_eq] at ht hu
  exact ht.2.trans hu.2.symm

end Store

namespace Copying

/-- The identifiers that a copy in progress has not used yet are new to its store. -/
structure Supplied (c : Context) (k : Copying) : Prop where
  injective : Function.Injective c.fresh
  nodes : ∀ j, k.used ≤ j → k.store.hasNode (c.fresh j) = false
  pvs : ∀ j, k.used ≤ j → (k.store.pv? (c.fresh j)).isNone

/-- The variables of copied configurations are copied. -/
def Covered (k : Copying) : Prop :=
  ∀ x ∈ k.nodeIds, ∀ p ∈ k.store.pvs, p.config = x.1 → ∃ w, (p.id, w) ∈ k.pvIds

section

variable {c : Context}

/-! ### What belongs to a node -/

/-- A variable may be added under the next identifier of the supply. -/
theorem Supplied.addPv {k : Copying} (h : Supplied c k) (pv : Pv) (hid : pv.id = c.fresh k.used)
    (ids : List (Id × Id)) :
    Supplied c ⟨{ k.store with pvs := k.store.pvs ++ [pv] }, k.used + 1, k.nodeIds, ids⟩ := by
  refine ⟨h.injective, fun j hj => h.nodes j (Nat.le_of_succ_le hj), fun j hj => ?_⟩
  refine pv?_isNone_iff.2 fun o ho => ?_
  rcases List.mem_append.1 ho with ho | ho
  · exact pv?_isNone_iff.1 (h.pvs j (Nat.le_of_succ_le hj)) o ho
  · rw [List.mem_singleton.1 ho, hid]
    exact fun he => absurd (h.injective he) (by simp at hj; omega)

/-- Variables with different names can be copied into a configuration that has none of the names. -/
theorem addPvs_ok {new : Id} {pvs : List Pv} {k : Copying} (hsupply : Supplied c k)
    (hnew : k.store.hasNode new) (hfree : ∀ pv ∈ pvs, pv.active → ∀ o ∈ k.store.pvs, o.active →
      o.config = new → o.name ≠ pv.name)
    (hapart : pvs.Pairwise fun p q => p.active → q.active → p.name ≠ q.name) :
    ∃ k', addPvs c new pvs k = .ok k' ∧ Supplied c k' ∧ k'.store.items = k.store.items ∧
      k'.store.tags = k.store.tags := by
  induction pvs generalizing k with
  | nil => exact ⟨k, rfl, hsupply, rfl, rfl⟩
  | cons pv pvs ih =>
    obtain ⟨hhead, hapart⟩ := List.pairwise_cons.1 hapart
    have hactive : pv.active = false ∨ (k.store.activePv? new pv.name).isNone := by
      cases ha : pv.active
      · exact .inl rfl
      · exact .inr (activePv?_isNone_iff.2 (hfree pv List.mem_cons_self ha))
    have hinsert : k.store.insertPv { pv with id := c.fresh k.used, config := new } = .ok _ :=
      insertPv_eq_ok_iff.2 ⟨hsupply.pvs k.used (Nat.le_refl _), hactive, hnew, rfl⟩
    have hrest : ∀ q ∈ pvs, q.active → ∀ o ∈ k.store.pvs ++
        [{ pv with id := c.fresh k.used, config := new }], o.active → o.config = new →
          o.name ≠ q.name := by
      intro q hq hqa o ho hoa hoc
      rcases List.mem_append.1 ho with ho | ho
      · exact hfree q (List.mem_cons_of_mem _ hq) hqa o ho hoa hoc
      · obtain rfl := List.mem_singleton.1 ho
        exact hhead q hq hoa hqa
    obtain ⟨k', hk', hframe⟩ := ih (hsupply.addPv { pv with id := c.fresh k.used, config := new }
      rfl ((pv.id, c.fresh k.used) :: k.pvIds)) hnew hrest hapart
    exact ⟨k', bind_eq_ok_iff.2 ⟨_, hinsert, hk'⟩, hframe⟩

/-- Items for different variables can be copied into a snapshot that has none for them. -/
theorem addItems_ok {new : Id} {items : List Item} {k : Copying} (hnew : k.store.hasNode new)
    (hpvs : ∀ x ∈ k.pvIds, (k.store.pv? x.2).isSome)
    (hpvsApart : ∀ x ∈ k.pvIds, ∀ y ∈ k.pvIds, x.2 = y.2 → x.1 = y.1)
    (hcopied : ∀ item ∈ items, ∃ w, (item.pv, w) ∈ k.pvIds)
    (hfree : ∀ item ∈ items, ∀ w, (item.pv, w) ∈ k.pvIds → ∀ i ∈ k.store.items,
      i.snapshot ≠ new ∨ i.pv ≠ w)
    (hapart : items.Pairwise fun i j => i.pv ≠ j.pv) :
    ∃ k', addItems new items k = .ok k' ∧ k'.used = k.used ∧ k'.store.nodes = k.store.nodes ∧
      k'.store.pvs = k.store.pvs ∧ k'.store.tags = k.store.tags := by
  induction items generalizing k with
  | nil => exact ⟨k, rfl, rfl, rfl, rfl, rfl⟩
  | cons item items ih =>
    obtain ⟨hhead, hapart⟩ := List.pairwise_cons.1 hapart
    obtain ⟨w, hw⟩ := hcopied item List.mem_cons_self
    obtain ⟨w, hcopy⟩ := exists_copyOf hw
    have hw := copyOf_eq_ok hcopy
    have hnone : k.store.items.all fun i => i.snapshot ≠ new || i.pv ≠ w := by
      simpa using hfree item List.mem_cons_self w hw
    have hinsert : k.store.insertItem { item with snapshot := new, pv := w } = .ok _ :=
      insertItem_eq_ok_iff.2 ⟨hnone, ⟨hnew, hpvs _ hw⟩, rfl⟩
    have hrest : ∀ i ∈ items, ∀ v, (i.pv, v) ∈ k.pvIds →
        ∀ o ∈ k.store.items ++ [{ item with snapshot := new, pv := w }],
          o.snapshot ≠ new ∨ o.pv ≠ v := by
      intro i hi v hv o ho
      rcases List.mem_append.1 ho with ho | ho
      · exact hfree i (List.mem_cons_of_mem _ hi) v hv o ho
      · obtain rfl := List.mem_singleton.1 ho
        exact .inr fun he => hhead i hi (hpvsApart _ hw _ hv he)
    obtain ⟨k', hk', hframe⟩ := ih (k := { k with store := { k.store with
      items := k.store.items ++ [{ item with snapshot := new, pv := w }] } }) hnew hpvs hpvsApart
      (fun i hi => hcopied i (List.mem_cons_of_mem _ hi)) hrest hapart
    exact ⟨k', bind_eq_ok_iff.2 ⟨w, hcopy, bind_eq_ok_iff.2 ⟨_, hinsert, hk'⟩⟩, hframe⟩

/-- Tags with different names can be copied onto a snapshot that has none of the names. -/
theorem addTags_ok {new : Id} {tags : List Tag} {k : Copying} (hnew : k.store.hasNode new)
    (hfree : ∀ tag ∈ tags, ∀ u ∈ k.store.tags, u.snapshot ≠ new ∨ u.name ≠ tag.name)
    (hapart : tags.Pairwise fun t u => t.name ≠ u.name) :
    ∃ k', addTags new tags k = .ok k' ∧ k'.used = k.used ∧ k'.store.nodes = k.store.nodes ∧
      k'.store.pvs = k.store.pvs := by
  induction tags generalizing k with
  | nil => exact ⟨k, rfl, rfl, rfl, rfl⟩
  | cons tag tags ih =>
    obtain ⟨hhead, hapart⟩ := List.pairwise_cons.1 hapart
    have hnone : k.store.tags.all fun u => u.snapshot ≠ new || u.name ≠ tag.name := by
      simpa using hfree tag List.mem_cons_self
    have hinsert : k.store.insertTag { tag with snapshot := new } = .ok _ :=
      insertTag_eq_ok_iff.2 ⟨hnone, hnew, rfl⟩
    have hrest : ∀ u ∈ tags, ∀ o ∈ k.store.tags ++ [{ tag with snapshot := new }],
        o.snapshot ≠ new ∨ o.name ≠ u.name := by
      intro u hu o ho
      rcases List.mem_append.1 ho with ho | ho
      · exact hfree u (List.mem_cons_of_mem _ hu) o ho
      · obtain rfl := List.mem_singleton.1 ho
        exact .inr (hhead u hu)
    obtain ⟨k', hk', hframe⟩ := ih (k := { k with store := { k.store with
      tags := k.store.tags ++ [{ tag with snapshot := new }] } }) hnew hrest hapart
    exact ⟨k', bind_eq_ok_iff.2 ⟨_, hinsert, hk'⟩, hframe⟩

/-- A copy in progress is supplied if one with the same nodes and variables is. -/
theorem Supplied.of_eq {k k' : Copying} (h : Supplied c k) (hused : k'.used = k.used)
    (hnodes : k'.store.nodes = k.store.nodes) (hpvs : k'.store.pvs = k.store.pvs) :
    Supplied c k' := by
  refine ⟨h.injective, fun j hj => ?_, fun j hj => ?_⟩
  · rw [hasNode, node?, hnodes]
    exact h.nodes j (hused ▸ hj)
  · rw [pv?, hpvs]
    exact h.pvs j (hused ▸ hj)

/-- An empty copy of a node can be filled, if the variables of its items are copied. -/
theorem addContents_ok {o m : Node} {k : Copying} (hk : k.IsFaithful) (hsupply : Supplied c k)
    (hm : m ∈ k.store.nodes) (hpair : (o.id, m.id) ∈ k.nodeIds)
    (hpvs : ∀ p ∈ k.store.pvs, p.config ≠ m.id)
    (hitems : ∀ i ∈ k.store.items, i.snapshot ≠ m.id)
    (htags : ∀ t ∈ k.store.tags, t.snapshot ≠ m.id)
    (hcopied : ∀ item ∈ k.store.items, item.snapshot = o.id → ∃ w, (item.pv, w) ∈ k.pvIds) :
    ∃ k', addContents c o.id m.id k = .ok k' ∧ Supplied c k' := by
  have howned := hk.sound.owned
  obtain ⟨k₁, h₁, hsupply₁, hitems₁, htags₁⟩ := addPvs_ok hsupply (hasNode_of_mem hm)
    (fun pv _ _ q hq _ hqc => absurd hqc (hpvs q hq)) (howned.pvsOf_apart o.id)
  have hfills := (addPvs_fills hk hpair (fun pv hpv => mem_pvsOf_iff.1 hpv) h₁).1
  have hm₁ : m ∈ k₁.store.nodes := hfills.nodes ▸ hm
  obtain ⟨k₂, h₂, hused₂, hnodes₂, hpvs₂, htags₂⟩ := addItems_ok (hasNode_of_mem hm₁)
    (fun x hx => by
      obtain ⟨p, -, q, hq, -, hqid, -⟩ := hfills.faithful.pvs x hx
      simpa [pv?] using ⟨q, hq, hqid⟩)
    hfills.faithful.pvsApart
    (fun item hitem => by
      obtain ⟨hitem, hsnapshot⟩ := mem_itemsOf_iff.1 hitem
      obtain ⟨w, hw⟩ := hcopied item hitem hsnapshot
      exact ⟨w, hfills.pvIds hw⟩)
    (fun item _ w _ i hi => .inl (hitems i (hitems₁ ▸ hi))) (howned.itemsOf_apart o.id)
  obtain ⟨k₃, h₃, hused₃, hnodes₃, hpvs₃⟩ := addTags_ok (hasNode_of_mem (hnodes₂ ▸ hm₁))
    (fun tag _ u hu => .inl (htags u (htags₁ ▸ htags₂ ▸ hu)))
    (howned.tags_apart o.id (·.name ≤ ·.name))
  refine ⟨k₃, bind_eq_ok_iff.2 ⟨k₁, h₁, bind_eq_ok_iff.2 ⟨k₂, h₂, h₃⟩⟩, ?_⟩
  exact hsupply₁.of_eq (hused₃.trans hused₂) (hnodes₃.trans hnodes₂) (hpvs₃.trans hpvs₂)

/-! ### A node -/

/-- A node may be added under the next identifier of the supply. -/
theorem Supplied.addNode {k : Copying} (h : Supplied c k) (m : Node) (hid : m.id = c.fresh k.used)
    (ids : List (Id × Id)) :
    Supplied c ⟨{ k.store with nodes := k.store.nodes ++ [m] }, k.used + 1, ids, k.pvIds⟩ := by
  refine ⟨h.injective, fun j hj => ?_, fun j hj => h.pvs j (Nat.le_of_succ_le hj)⟩
  have hj : k.used < j := hj
  have hold := h.nodes j (Nat.le_of_lt hj)
  have hne : m.id ≠ c.fresh j := hid ▸ fun he => absurd (h.injective he) (Nat.ne_of_lt hj)
  simpa [hasNode, node?, hne] using hold

/-- A snapshot is copied below the copy of its configuration, so the variables of its items are
copied. -/
theorem Covered.items {k : Copying} (h : k.Covered) (hk : k.IsFaithful) {old : Node} {parent : Id}
    {name : String} (hmay : k.MayCopy old parent name) :
    ∀ item ∈ k.store.items, item.snapshot = old.id → ∃ w, (item.pv, w) ∈ k.pvIds := by
  intro item hitem hsnapshot
  obtain ⟨n, hn, hid, hkind, pv, hpv, hpvid, hparent⟩ := hk.sound.owned.itemOwner item hitem
  obtain rfl := eq_of_id_eq hk.sound.tree.nodup hn hmay.mem (hid.trans hsnapshot)
  rcases hmay.place with ⟨a, ha, hlist, -⟩ | ⟨hne, -⟩
  · obtain rfl := Option.some.inj (hparent.symm.trans ha)
    exact hpvid ▸ h _ hlist pv hpv rfl
  · exact absurd hkind hne

/-- A node that may be copied is, if its name is free below the parent of the copy. -/
theorem addNode_ok {k : Copying} (hk : k.IsFaithful) (hsupply : Supplied c k) (hcovered : k.Covered)
    {old : Node} {parent : Id} {name : String} (hmay : k.MayCopy old parent name)
    (hfree : old.draft ∨ (k.store.sibling? parent old.kind name).isNone) (user : String)
    (position : Nat) :
    ∃ k', addNode c (some user) old parent name position k = .ok k' ∧ Supplied c k' := by
  obtain ⟨p, hp, hpid, -⟩ := hmay.holder
  have hunused := hsupply.nodes k.used (Nat.le_refl _)
  have hinsert : k.store.insertNode
      { old with
        id := c.fresh k.used
        parent := parent
        name
        position
        created := c.now
        modified := c.now
        user
        version := 1 } = .ok _ :=
    insertNode_eq_ok_iff.2 ⟨hunused, hfree, by simpa using ⟨p, hp, hpid⟩, rfl⟩
  have hfaithful := hk.copyNode hmay hinsert rfl rfl rfl rfl (k.used + 1)
  obtain ⟨hpvs, hitems, htags⟩ := hk.sound.owned.ne_of_hasNode_eq_false hunused
  obtain ⟨k', hk', hsupply'⟩ := addContents_ok (o := old) hfaithful
    (hsupply.addNode _ rfl ((old.id, c.fresh k.used) :: k.nodeIds))
    (List.mem_append_right _ List.mem_cons_self) List.mem_cons_self hpvs hitems htags
    (hcovered.items hk hmay)
  exact ⟨k', bind_eq_ok_iff.2 ⟨user, rfl, bind_eq_ok_iff.2 ⟨_, hinsert, hk'⟩⟩, hsupply'⟩

/-- When a node is copied, so are its variables. -/
theorem Covered.copies {k k' : Copying} (h : k.Covered) (hk : k.IsFaithful) {old : Node}
    {parent : Id} {name : String} (hold : old ∈ k.store.nodes)
    (hcopy : Copies old parent name k k') : k'.Covered := by
  obtain ⟨m, -, -, hids, -⟩ := hcopy.node
  intro x hx p hp hconfig
  -- A new variable belongs to the new node, which is not among the copied ones.
  have hp : k.store.hasNode p.config → p ∈ k.store.pvs := by
    intro hasNode
    refine (hcopy.pvs p hp).resolve_right fun hnone => ?_
    rw [hasNode] at hnone
    cases hnone
  rw [hids] at hx
  rcases List.mem_cons.1 hx with rfl | hx
  · exact hcopy.pvsCopied p (hp (hconfig ▸ hasNode_of_mem hold)) hconfig
  · obtain ⟨n, hn, -, -, hnid, -⟩ := hk.nodes x hx
    obtain ⟨w, hw⟩ := h x hx p (hp (hconfig ▸ hnid ▸ hasNode_of_mem hn)) hconfig
    exact ⟨w, hcopy.pvIds hw⟩

/-! ### Below copied nodes -/

/-- Below a copy a name is free that none of the copied children has. -/
theorem IsFaithful.sibling?_isNone {k : Copying} (hk : k.IsFaithful) {old : Node} {a parent : Id}
    (hold : old ∈ k.store.nodes) (hnew : ∀ x ∈ k.nodeIds, x.1 ≠ old.id)
    (hparent : old.parent = some a) (hpair : (a, parent) ∈ k.nodeIds) (hdraft : old.draft = false) :
    (k.store.sibling? parent old.kind old.name).isNone := by
  refine sibling?_isNone_iff.2 fun o ho hholds => ?_
  obtain ⟨-, hop, hok, hoName, hod⟩ := holdsName_iff.1 hholds
  obtain ⟨n, hn, hlist, hnp, hnk, hnName, hnd⟩ := hk.children _ hpair o ho hop
  obtain rfl := hk.sound.named.siblings n hn old hold (hnd ▸ hod) hdraft (hnp.trans hparent.symm)
    (hnk ▸ hok) (hnName ▸ hoName)
  exact hnew _ hlist rfl

/-- Nodes that come after their parents can be copied, with all that belongs to them. -/
theorem addBelow_ok {olds : List Node} {k : Copying} (hk : k.IsFaithful) (hsupply : Supplied c k)
    (hcovered : k.Covered) (hpending : k.Pending olds)
    (hfirst : ParentsFirst (k.nodeIds.map Prod.fst) olds) (user : String) :
    ∃ k', addBelow c (some user) olds k = .ok k' ∧ Supplied c k' := by
  induction olds generalizing k with
  | nil => exact ⟨k, rfl, hsupply⟩
  | cons old olds ih =>
    obtain ⟨⟨a, ha, hparent⟩, hfirst⟩ := hfirst
    obtain ⟨⟨_, b⟩, hb, rfl⟩ := List.mem_map.1 ha
    obtain ⟨parent, hcopyOf⟩ := exists_copyOf hb
    have hlookup : copyOf k.nodeIds (old.parent.getD "") = .ok parent := by
      rw [hparent]
      exact hcopyOf
    have hmay := hpending.mayCopy hk hlookup
    have hfree : old.draft ∨ (k.store.sibling? parent old.kind old.name).isNone := by
      cases hd : old.draft
      · exact .inr (hk.sibling?_isNone hmay.mem (fun x hx => (hmay.new x hx).1) hparent
          (copyOf_eq_ok hcopyOf) hd)
      · exact .inl rfl
    obtain ⟨k₁, hnode, hsupply₁⟩ := addNode_ok hk hsupply hcovered hmay hfree user old.position
    have hcopy := addNode_copies hk hmay hnode
    obtain ⟨m, -, -, hids, -⟩ := hcopy.node
    obtain ⟨k', hrest, hsupply'⟩ := ih hcopy.faithful hsupply₁ (hcovered.copies hk hmay.mem hcopy)
      (hpending.copies hcopy) (by rw [hids]; exact hfirst)
    exact ⟨k', bind_eq_ok_iff.2 ⟨parent, hlookup, bind_eq_ok_iff.2 ⟨k₁, hnode, hrest⟩⟩, hsupply'⟩

/-! ### Subtrees -/

/-- A subtree is copied if its name is free in the target. -/
theorem addSubtree_ok {k : Copying} {source t : Node} {name : String} (hs : k.store.IsSound)
    (hsupply : Supplied c k) (hsource : source ∈ k.store.nodes) (ht : t ∈ k.store.nodes)
    (hroot : source.id ≠ rootId) (hmovable : source.kind.isMovable) (hfolder : t.kind = .folder)
    (hname : IsName name) (hfree : (k.store.sibling? t.id source.kind name).isNone)
    (user : String) :
    ∃ k', addSubtree c (some user) t.id name source k = .ok k' ∧ Supplied c k' := by
  obtain ⟨below, hsubtree, hbelow⟩ := hs.tree.subtree_eq_cons hsource
  have hmay := mayCopy_top (k := k) hmovable hfolder hname hsource ht
  have hsupply₀ : Supplied c ⟨k.store, k.used, [], []⟩ := hsupply.of_eq rfl rfl rfl
  have hcovered : Covered ⟨k.store, k.used, [], []⟩ := by simp [Covered]
  obtain ⟨k₁, htop, hsupply₁⟩ := addNode_ok (.start hs k.used) hsupply₀ hcovered hmay (.inr hfree)
    user (k.store.nextPosition t.id)
  have hcopy := addNode_copies (.start hs k.used) hmay htop
  obtain ⟨m, -, -, hids, -⟩ := hcopy.node
  obtain ⟨k', hrest, hsupply'⟩ := addBelow_ok hcopy.faithful hsupply₁
    (hcovered.copies (.start hs k.used) hsource hcopy)
    (pending_below hs hsource hroot hsubtree hbelow hcopy) (by rw [hids]; exact hbelow) user
  refine ⟨k', ?_, hsupply'⟩
  have hcheck : k.store.checkNameFree t.id source.kind name none = .ok () :=
    checkNameFree_eq_ok_iff.2 fun holder hholder => by simp [hholder] at hfree
  simp only [addSubtree, hsubtree]
  exact bind_eq_ok_iff.2 ⟨(), hcheck, bind_eq_ok_iff.2 ⟨k₁, htop, hrest⟩⟩

/-- Selected nodes are copied, if with the rejecting policy their names are free in the target and
differ. -/
theorem addAll_ok {policy : CopyPolicy} {t : Node} (hfolder : t.kind = .folder) {nodes : List Node}
    {k : Copying} (hs : k.store.IsSound) (hsupply : Supplied c k) (ht : t ∈ k.store.nodes)
    (hnodes : ∀ n ∈ nodes, n ∈ k.store.nodes ∧ n.id ≠ rootId ∧ n.kind.isMovable)
    (hfree : policy = .reject → ∀ n ∈ nodes, (k.store.sibling? t.id n.kind n.name).isNone)
    (hapart : nodes.Pairwise fun n m => n.kind = m.kind → n.name ≠ m.name) (user : String) :
    ∃ k', addAll c policy (some user) t.id nodes k = .ok k' ∧ t ∈ k'.store.nodes := by
  induction nodes generalizing k with
  | nil => exact ⟨k, rfl, ht⟩
  | cons n ns ih =>
    obtain ⟨hhead, hapart⟩ := List.pairwise_cons.1 hapart
    obtain ⟨hn, hroot, hmovable⟩ := hnodes n List.mem_cons_self
    have hname := isName_copy hs hn hmovable policy t.id
    have hfirst : (k.store.sibling? t.id n.kind
        (if policy = .reject then n.name else k.store.freeName t.id n)).isNone := by
      split
      · exact hfree ‹_› n List.mem_cons_self
      · exact k.store.sibling?_freeName t.id n
    obtain ⟨k₁, hsubtree, hsupply₁⟩ := addSubtree_ok hs hsupply hn ht hroot hmovable hfolder hname
      hfirst user
    have hreceives := addSubtree_receives hs hn ht hroot hmovable hfolder hname hsubtree
    obtain ⟨k', hrest, ht'⟩ := ih (hs.edits hreceives.edits) hsupply₁ (hreceives.nodes ht)
      (fun o ho => by
        obtain ⟨ho, hrest⟩ := hnodes o (List.mem_cons_of_mem _ ho)
        exact ⟨hreceives.nodes ho, hrest⟩)
      (fun hpolicy o ho => sibling?_isNone_iff.2 fun q hq hholds => by
        obtain ⟨-, hqp, hqk, hqName, -⟩ := holdsName_iff.1 hholds
        rcases hreceives.children q hq hqp with hq | ⟨hk, hqn⟩
        · exact sibling?_isNone_iff.1 (hfree hpolicy o (List.mem_cons_of_mem _ ho)) q hq hholds
        · rw [if_pos hpolicy] at hqn
          exact hhead o ho (hk.symm.trans hqk) (hqn.symm.trans hqName)) hapart
    exact ⟨k', bind_eq_ok_iff.2 ⟨k₁, hsubtree, hrest⟩, ht'⟩

end

end Copying

end SnapshotArchive
