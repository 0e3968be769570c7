import SnapshotArchive.Proofs.Siblings
import SnapshotArchive.Proofs.Copying.Progress
import Mathlib.Data.List.Pairwise

/-!
# Copies are isomorphic to what they are copies of

In the store that a copy leaves (`Store.IsCopied`) the copies have identifiers of their own, and
what lies below a copied node are the copies of what lies below the node: a copy has the copies of
the children of its original for children, in their order, and so the walk down from a copy meets
the copies of what the walk down from the original meets. The variables, the items and the tags of a
copy are the copies of those of its original.

* `Store.IsCopied.apart` : different nodes have different copies.
* `Store.IsCopied.children_copy`, `Store.IsCopied.subtree_copy` : what lies below a copy.
* `Store.IsCopied.pvsOf_copy`, `Store.IsCopied.itemsOf_copy`, `Store.IsCopied.tagsOf_copy` : what
  belongs to it.
-/

namespace SnapshotArchive

open Store

/-- A store in which selected nodes were copied into a target, and the one that it comes from. -/
structure Store.IsCopied (c : Context) (user : String) (s : Store) (target : Id) (nodes : List Node)
    (d : Id → Duplicate) (s' : Store) : Prop where
  before : s.IsSound
  after : s'.IsSound
  found : s.hasNode target
  mem : ∀ n ∈ nodes, n ∈ s.nodes
  nodup : (nodes.map (·.id)).Nodup
  beside : s.IsBeside target (copies c user target s d nodes)
  position : ∀ n ∈ nodes,
    (d n.id).position = s.nextPosition target + (nodes.map (·.id)).idxOf n.id
  eq : s' = s.stamp c target user ++ copies c user target s d nodes

namespace Store

variable {c : Context} {user : String} {s s' : Store} {target : Id} {nodes : List Node}
  {d : Id → Duplicate}

/-! ### The stamped target -/

/-- A node of a stamped store has the place of one before. -/
theorem mem_nodes_stamp {o : Node} (ho : o ∈ (s.stamp c target user).nodes) :
    ∃ n ∈ s.nodes, o.HasPlaceOf n := by
  obtain ⟨n, hn, rfl⟩ := List.mem_map.1 ho
  exact ⟨n, hn, hasPlaceOf_stamp c target user n⟩

/-- Every node keeps its place when one is stamped. -/
theorem exists_mem_stamp (c : Context) (target : Id) (user : String) {n : Node}
    (hn : n ∈ s.nodes) : ∃ o ∈ (s.stamp c target user).nodes, o.HasPlaceOf n :=
  ⟨_, List.mem_map_of_mem hn, hasPlaceOf_stamp c target user n⟩

/-! ### Nodes of a subtree -/

/-- A node is not among the children of a node below it. -/
theorem IsTree.ne_of_mem_children {source n k : Node} (hs : s.IsTree) (hsource : source ∈ s.nodes)
    (hn : n ∈ s.subtree source.id) (hk : k ∈ s.children n.id) : k.id ≠ source.id := by
  obtain ⟨hk, hkp⟩ := mem_children_iff.1 hk
  intro he
  have hup := ((hs.mem_subtree_iff hsource).1 hn).2
  exact hs.not_leadsTo_of_parent hk hkp (he ▸ hup)

/-- The children of a node of a subtree are in the subtree. -/
theorem IsTree.mem_subtree_of_mem_children {source n k : Node} (hs : s.IsTree)
    (hsource : source ∈ s.nodes) (hn : n ∈ s.subtree source.id) (hk : k ∈ s.children n.id) :
    k ∈ s.subtree source.id := by
  obtain ⟨hk, hkp⟩ := mem_children_iff.1 hk
  have hup := ((hs.mem_subtree_iff hsource).1 hn).2
  exact (hs.mem_subtree_iff hsource).2 ⟨hk, .head ⟨k, hk, rfl, hkp⟩ hup⟩

namespace IsCopied

variable (h : s.IsCopied c user target nodes d s')

include h

/-! ### Identifiers of copies -/

/-- The copy of every node of a selected subtree is stored. -/
theorem copy_mem {source n : Node} (hsource : source ∈ nodes) (hn : n ∈ s.subtree source.id) :
    (d source.id).copyOf c user target source n ∈ s'.nodes := by
  rw [h.eq]
  exact List.mem_append_right _ (mem_nodes_copies_iff.2 ⟨source, hsource, n, hn, rfl⟩)

/-- The identifier of a copy was not in use. -/
theorem new {source n : Node} (hsource : source ∈ nodes) (hn : n ∈ s.subtree source.id) :
    s.hasNode ((d source.id).node n.id) = false := by
  have hcopy := h.beside.own.nodes _ (mem_nodes_copies_iff.2 ⟨source, hsource, n, hn, rfl⟩)
  rwa [Duplicate.id_copyOf] at hcopy

/-- Different nodes have different copies, also those of different subtrees. -/
theorem apart {source source' n n' : Node} (hsource : source ∈ nodes) (hsource' : source' ∈ nodes)
    (hn : n ∈ s.subtree source.id) (hn' : n' ∈ s.subtree source'.id)
    (he : (d source.id).node n.id = (d source'.id).node n'.id) : source = source' ∧ n = n' := by
  have hnodup : ((copies c user target s d nodes).nodes.map (·.id)).Nodup := by
    have hids := h.after.tree.nodup
    rw [h.eq, nodes_append, List.map_append] at hids
    exact hids.of_append_right
  rw [copies, List.map_flatMap, List.nodup_flatMap] at hnodup
  obtain ⟨hwithin, hacross⟩ := hnodup
  have hcopy : ∀ {o k : Node}, k ∈ s.subtree o.id →
      (d o.id).node k.id ∈ ((d o.id).rows c user target s o).nodes.map (·.id) := fun {o k} hk =>
    List.mem_map.2 ⟨_, Duplicate.mem_nodes_rows_iff.2 ⟨k, hk, rfl⟩, Duplicate.id_copyOf k⟩
  have hsame : source = source' := by
    by_contra hne
    have : Std.Symm (Function.onFun List.Disjoint fun n =>
        ((d n.id).rows c user target s n).nodes.map (·.id)) := ⟨fun _ _ hd => hd.symm⟩
    exact hacross.forall hsource hsource' hne (hcopy hn) (he ▸ hcopy hn')
  subst hsame
  refine ⟨rfl, ?_⟩
  have hinj := hwithin source hsource
  rw [Duplicate.rows, List.map_map] at hinj
  refine List.inj_on_of_nodup_map hinj hn hn' ?_
  rw [Function.comp_apply, Function.comp_apply, Duplicate.id_copyOf, Duplicate.id_copyOf]
  exact he

/-! ### Parents of copies -/

/-- The copy of the node that a subtree starts at lies in the target, any other copy below the copy
of the parent of its original. -/
theorem copyOf_cases {source n : Node} (hsource : source ∈ nodes) (hn : n ∈ s.subtree source.id) :
    (n = source ∧
        (d source.id).copyOf c user target source n = (d source.id).root c user target n) ∨
      ∃ m ∈ s.subtree source.id, n ∈ s.children m.id ∧
        (d source.id).copyOf c user target source n = (d source.id).copyNode c user n ∧
        ((d source.id).copyNode c user n).parent = some ((d source.id).node m.id) := by
  have hmem := mem_nodes_of_mem_subtree hn
  by_cases he : n.id = source.id
  · exact .inl ⟨eq_of_id_eq h.before.tree.nodup hmem (h.mem source hsource) he, if_pos he⟩
  · obtain ⟨m, hm, hparent⟩ := h.before.tree.parent_mem_subtree (h.mem source hsource) hn he
    refine .inr ⟨m, hm, mem_children_iff.2 ⟨hmem, hparent⟩, if_neg he, ?_⟩
    simp [Renaming.copyNode, hparent]

/-- A node with a parent was there, and the parent too, or is the copy of a selected node, or of a
node below one. -/
theorem parent_cases {m : Node} {p : Id} (hm : m ∈ s'.nodes) (hp : m.parent = some p) :
    (s.hasNode p ∧ m ∈ (s.stamp c target user).nodes) ∨
      (p = target ∧ ∃ source ∈ nodes, m = (d source.id).root c user target source) ∨
      ∃ source ∈ nodes, ∃ n ∈ s.subtree source.id, ∃ k ∈ s.children n.id,
        p = (d source.id).node n.id ∧ m = (d source.id).copyNode c user k := by
  rw [h.eq] at hm
  rcases List.mem_append.1 hm with hm | hm
  · obtain ⟨o, ho, hplace⟩ := mem_nodes_stamp hm
    obtain ⟨q, hq, rfl, -⟩ := h.before.tree.contained o ho p (hplace.parent ▸ hp)
    exact .inl ⟨hasNode_of_mem hq, hm⟩
  · obtain ⟨source, hsource, n, hn, rfl⟩ := mem_nodes_copies_iff.1 hm
    rcases h.copyOf_cases hsource hn with ⟨rfl, hroot⟩ | ⟨k, hk, hchild, hcopy, hparent⟩
    · rw [hroot] at hp ⊢
      exact .inr (.inl ⟨(Option.some.inj hp).symm, n, hsource, rfl⟩)
    · rw [hcopy] at hp ⊢
      exact .inr (.inr ⟨source, hsource, k, hk, n, hchild,
        Option.some.inj (hp.symm.trans hparent), rfl⟩)

/-! ### What belongs to a copy -/

omit h in
/-- Where only one element of a list gives records of some kind, these are all. -/
theorem filter_flatMap_eq {α β : Type} {l : List α} (hl : l.Nodup) {a : α} (ha : a ∈ l)
    {f : α → List β} {q : β → Bool} (hother : ∀ b ∈ l, b ≠ a → ∀ y ∈ f b, q y = false) :
    (l.flatMap f).filter q = (f a).filter q := by
  induction l with
  | nil => cases ha
  | cons b l ih =>
    obtain ⟨hb, hl⟩ := List.nodup_cons.1 hl
    rw [List.flatMap_cons, List.filter_append]
    rcases List.mem_cons.1 ha with rfl | ha
    · have hnone : (l.flatMap f).filter q = [] := by
        refine List.filter_eq_nil_iff.2 fun y hy => ?_
        obtain ⟨x, hx, hy⟩ := List.mem_flatMap.1 hy
        have hne : x ≠ a := fun he => hb (he ▸ hx)
        simp [hother x (List.mem_cons_of_mem _ hx) hne y hy]
      rw [hnone, List.append_nil]
    · have hne : b ≠ a := fun he => hb (he ▸ ha)
      have hnone : (f b).filter q = [] := by
        refine List.filter_eq_nil_iff.2 fun y hy => ?_
        simp [hother b List.mem_cons_self hne y hy]
      rw [hnone, List.nil_append, ih hl ha fun x hx => hother x (List.mem_cons_of_mem _ hx)]

/-- Of records of other nodes and copies of records that belong to nodes, those that belong to the
copy of a node are the copies of those that belong to the node. -/
theorem filter_append_copies {α : Type} {old : List α} {records : Id → List α} {owner : α → Id}
    (copy : Renaming → α → α) (hrecords : ∀ id, ∀ a ∈ records id, owner a = id)
    (hcopy : ∀ r a, owner (copy r a) = r.node (owner a)) {source n : Node}
    (hsource : source ∈ nodes) (hn : n ∈ s.subtree source.id)
    (hold : ∀ a ∈ old, owner a ≠ (d source.id).node n.id) :
    (old ++ nodes.flatMap fun o => (s.subtree o.id).flatMap fun m =>
        (records m.id).map (copy (d o.id).toRenaming)).filter
      (fun a => owner a = (d source.id).node n.id) =
      (records n.id).map (copy (d source.id).toRenaming) := by
  have hnone : old.filter (fun a => owner a = (d source.id).node n.id) = [] :=
    List.filter_eq_nil_iff.2 fun a ha => by simpa using hold a ha
  have howner : ∀ {o m : Node}, ∀ a ∈ (records m.id).map (copy (d o.id).toRenaming),
      owner a = (d o.id).node m.id := by
    intro o m a ha
    obtain ⟨b, hb, rfl⟩ := List.mem_map.1 ha
    rw [hcopy, hrecords m.id b hb]
  have hsubtree := h.before.tree.subtree_nodup (h.mem source hsource)
  rw [List.filter_append, hnone, List.nil_append]
  rw [filter_flatMap_eq (List.Nodup.of_map _ h.nodup) hsource fun o hmem hne a ha => ?_,
    filter_flatMap_eq hsubtree hn fun m hm hne a ha => ?_]
  · refine List.filter_eq_self.2 fun a ha => ?_
    simpa using howner a ha
  · simp only [howner a ha, decide_eq_false_iff_not]
    exact fun he => hne (h.apart hsource hsource hm hn he).2
  · obtain ⟨m, hm, ha⟩ := List.mem_flatMap.1 ha
    simp only [howner a ha, decide_eq_false_iff_not]
    exact fun he => hne (h.apart hmem hsource hm hn he).1

omit h in
/-- Copies of sorted records are sorted, if copies keep the positions. -/
theorem mergeSort_map {α : Type} (position : α → Nat) (copy : α → α)
    (hcopy : ∀ a, position (copy a) = position a) (l : List α) :
    ((l.mergeSort fun a b => position a ≤ position b).map copy).mergeSort
        (fun a b => position a ≤ position b) =
      (l.mergeSort fun a b => position a ≤ position b).map copy := by
  refine List.mergeSort_of_pairwise (List.pairwise_map.2 ?_)
  simp only [hcopy]
  refine List.pairwise_mergeSort (fun a b k hab hbk => ?_) (fun a b => ?_) l
  · rw [decide_eq_true_eq] at *
    exact Nat.le_trans hab hbk
  · simpa using Nat.le_total _ _

variable {source n : Node} (hsource : source ∈ nodes) (hn : n ∈ s.subtree source.id)

include hsource hn

/-- The copy of a configuration has the copies of its variables, retired ones too. -/
theorem pvsOf_copy : s'.pvsOf ((d source.id).node n.id) =
    (s.pvsOf n.id).map (d source.id).copyPv := by
  have hfilter : s'.pvs.filter (·.config = (d source.id).node n.id) =
      (s.pvsOf n.id).map (d source.id).copyPv := by
    rw [h.eq]
    exact h.filter_append_copies Renaming.copyPv (fun id pv hpv => (mem_pvsOf_iff.1 hpv).2)
      (fun r pv => rfl) hsource hn (h.before.owned.ne_of_hasNode_eq_false (h.new hsource hn)).1
  rw [pvsOf, hfilter, pvsOf]
  exact mergeSort_map Pv.position (d source.id).copyPv (fun pv => rfl) _

/-- The copy of a snapshot has the copies of its items. -/
theorem itemsOf_copy : s'.itemsOf ((d source.id).node n.id) =
    (s.itemsOf n.id).map (d source.id).copyItem := by
  have hfilter : s'.items.filter (·.snapshot = (d source.id).node n.id) =
      (s.itemsOf n.id).map (d source.id).copyItem := by
    rw [h.eq]
    exact h.filter_append_copies Renaming.copyItem
      (fun id item hitem => (mem_itemsOf_iff.1 hitem).2) (fun r item => rfl) hsource hn
      (h.before.owned.ne_of_hasNode_eq_false (h.new hsource hn)).2.1
  rw [itemsOf, hfilter, itemsOf]
  exact mergeSort_map Item.position (d source.id).copyItem (fun item => rfl) _

/-- The tags of a snapshot are copied in the order of their names. -/
theorem filter_tags_copy : s'.tags.filter (·.snapshot = (d source.id).node n.id) =
    (s.namedTags n.id).map (d source.id).copyTag := by
  rw [h.eq]
  exact h.filter_append_copies Renaming.copyTag
    (fun id tag htag => (mem_namedTags_iff.1 htag).2) (fun r tag => rfl) hsource hn
    (h.before.owned.ne_of_hasNode_eq_false (h.new hsource hn)).2.2

/-- The copy of a snapshot has the copies of its tags. -/
theorem tagsOf_copy : (s'.tagsOf ((d source.id).node n.id)).Perm
    ((s.tagsOf n.id).map (d source.id).copyTag) := by
  have hperm : ∀ (t : Store) (id : Id), (t.tagsOf id).Perm (t.tags.filter (·.snapshot = id)) :=
    fun t id => (List.mergeSort_perm _ _).trans (List.reverse_perm _)
  have hnamed : (s.namedTags n.id).Perm (s.tagsOf n.id) :=
    (List.mergeSort_perm _ _).trans (hperm s n.id).symm
  exact ((hperm s' _).trans (.of_eq (h.filter_tags_copy hsource hn))).trans (hnamed.map _)

/-- The copy of a variable has an identifier that was not in use. -/
theorem pv_new {pv : Pv} (hpv : pv ∈ s.pvsOf n.id) : s.pv? ((d source.id).pv pv.id) = none := by
  have hids := h.after.owned.pvIds
  rw [h.eq, pvs_append, List.map_append, List.nodup_append] at hids
  have hcopy : (d source.id).copyPv pv ∈ (copies c user target s d nodes).pvs :=
    List.mem_flatMap.2 ⟨source, hsource, List.mem_flatMap.2 ⟨n, hn, List.mem_map_of_mem hpv⟩⟩
  refine Option.isNone_iff_eq_none.1 (pv?_isNone_iff.2 fun q hq => ?_)
  exact hids.2.2 _ (List.mem_map_of_mem hq) _ (List.mem_map_of_mem hcopy)

/-- Different variables have different copies, also those of different subtrees. -/
theorem pv_apart {source' n' : Node} (hsource' : source' ∈ nodes) (hn' : n' ∈ s.subtree source'.id)
    {pv pv' : Pv} (hpv : pv ∈ s.pvsOf n.id) (hpv' : pv' ∈ s.pvsOf n'.id)
    (he : (d source.id).pv pv.id = (d source'.id).pv pv'.id) : source = source' ∧ pv = pv' := by
  have hcopy : (d source.id).copyPv pv ∈ s'.pvsOf ((d source.id).node n.id) :=
    h.pvsOf_copy hsource hn ▸ List.mem_map_of_mem hpv
  have hcopy' : (d source'.id).copyPv pv' ∈ s'.pvsOf ((d source'.id).node n'.id) :=
    h.pvsOf_copy hsource' hn' ▸ List.mem_map_of_mem hpv'
  obtain ⟨hmem, hconfig⟩ := mem_pvsOf_iff.1 hcopy
  obtain ⟨hmem', hconfig'⟩ := mem_pvsOf_iff.1 hcopy'
  -- The copies are one variable, so they are in one copied configuration.
  have hsame := pv_eq_of_id_eq h.after.owned.pvIds hmem hmem' he
  obtain ⟨rfl, rfl⟩ := h.apart hsource hsource' hn hn' (hconfig.symm.trans (hsame ▸ hconfig'))
  have hnodup : ((s'.pvsOf ((d source.id).node n.id)).map (·.id)).Nodup :=
    ((List.mergeSort_perm _ _).map _).nodup_iff.2
      (h.after.owned.pvIds.sublist (List.filter_sublist.map _))
  rw [h.pvsOf_copy hsource hn, List.map_map] at hnodup
  exact ⟨rfl, List.inj_on_of_nodup_map hnodup hpv hpv' he⟩

/-- The variable of an item of a copied snapshot is copied too. -/
theorem pv_of_item (hmovable : source.kind.isMovable) {item : Item}
    (hitem : item ∈ s.itemsOf n.id) :
    ∃ m ∈ s.subtree source.id, ∃ pv ∈ s.pvsOf m.id, pv.id = item.pv := by
  obtain ⟨hmem, hsnapshot⟩ := mem_itemsOf_iff.1 hitem
  obtain ⟨o, ho, hoid, hk, pv, hpv, he, hparent⟩ := h.before.owned.itemOwner item hmem
  obtain rfl := eq_of_id_eq h.before.tree.nodup ho (mem_nodes_of_mem_subtree hn)
    (hoid.trans hsnapshot)
  have hne : o.id ≠ source.id := by
    intro hid
    rw [eq_of_id_eq h.before.tree.nodup ho (h.mem source hsource) hid] at hk
    exact Kind.ne_snapshot_of_isMovable hmovable hk
  obtain ⟨m, hm, hmp⟩ := h.before.tree.parent_mem_subtree (h.mem source hsource) hn hne
  refine ⟨m, hm, pv, mem_pvsOf_iff.2 ⟨hpv, ?_⟩, he⟩
  exact Option.some.inj (hparent.symm.trans hmp)

omit hsource hn

/-! ### The order of children -/

variable (ho : s.IsOrdered)

include ho

omit h in
/-- Stamping a node keeps the children of every node in order. -/
theorem isOrdered_stamp : (s.stamp c target user).IsOrdered :=
  ho.map fun n _ => hasPlaceOf_stamp c target user n

omit ho in
/-- Stamping a node keeps identifiers apart. -/
theorem nodup_stamp : ((s.stamp c target user).nodes.map (·.id)).Nodup := by
  have hids := h.after.tree.nodup
  rw [h.eq, nodes_append, List.map_append] at hids
  exact hids.of_append_left

/-- The copies of the selected nodes come behind the children of the target. -/
theorem isAscending_target : IsAscending ((s.stamp c target user).children target ++
    nodes.map fun n => (d n.id).root c user target n) := by
  refine ((isOrdered_stamp ho).isAscending_children h.nodup_stamp target).append
    (k := s.nextPosition target) (isAscending_map_idxOf h.nodup fun n hn => h.position n hn)
    (fun m hm => ?_) fun m hm => ?_
  · obtain ⟨hm, hp⟩ := mem_children_iff.1 hm
    obtain ⟨n, hn, hplace⟩ := mem_nodes_stamp hm
    rw [hplace.position]
    exact lt_nextPosition hn (hplace.parent ▸ hp)
  · obtain ⟨n, hn, rfl⟩ := List.mem_map.1 hm
    show s.nextPosition target ≤ (d n.id).position
    rw [h.position n hn]
    exact Nat.le_add_right _ _

/-- The target gets the copies of the selected nodes behind its children and in their order. -/
theorem children_target : s'.children target = (s.stamp c target user).children target ++
    nodes.map fun n => (d n.id).root c user target n := by
  refine children_eq h.after.tree.nodup (h.isAscending_target ho) fun m => ?_
  rw [List.mem_append, mem_children_iff, List.mem_map]
  constructor
  · rintro (⟨hm, hp⟩ | ⟨n, hn, rfl⟩)
    · exact ⟨h.eq ▸ List.mem_append_left _ hm, hp⟩
    · obtain ⟨below, hsubtree, -⟩ := h.before.tree.subtree_eq_cons (h.mem n hn)
      have hcopy := h.copy_mem hn (hsubtree ▸ List.mem_cons_self)
      rw [Duplicate.copyOf, if_pos rfl] at hcopy
      exact ⟨hcopy, rfl⟩
  · rintro ⟨hm, hp⟩
    rcases h.parent_cases hm hp with ⟨-, hm⟩ | ⟨-, n, hn, rfl⟩ | ⟨n, hn, k, hk, -, -, he, -⟩
    · exact .inl ⟨hm, hp⟩
    · exact .inr ⟨n, hn, rfl⟩
    · have hnew := h.new hn hk
      rw [← he, h.found] at hnew
      cases hnew

/-- Other nodes that were there have the children that they had. -/
theorem children_old {p : Id} (hp : s.hasNode p) (hne : p ≠ target) :
    s'.children p = (s.stamp c target user).children p := by
  refine children_eq h.after.tree.nodup
    ((isOrdered_stamp ho).isAscending_children h.nodup_stamp p) fun m => ?_
  rw [mem_children_iff]
  constructor
  · rintro ⟨hm, hmp⟩
    exact ⟨h.eq ▸ List.mem_append_left _ hm, hmp⟩
  · rintro ⟨hm, hmp⟩
    rcases h.parent_cases hm hmp with ⟨-, hm⟩ | ⟨he, -⟩ | ⟨n, hn, k, hk, -, -, he, -⟩
    · exact ⟨hm, hmp⟩
    · exact absurd he hne
    · have hnew := h.new hn hk
      rw [← he, hp] at hnew
      cases hnew

/-- A copy has the copies of the children of its original for children, in their order. -/
theorem children_copy {source n : Node} (hsource : source ∈ nodes)
    (hn : n ∈ s.subtree source.id) :
    s'.children ((d source.id).node n.id) =
      (s.children n.id).map ((d source.id).copyNode c user) := by
  have hnew := h.new hsource hn
  refine children_eq h.after.tree.nodup ?_ fun m => ?_
  · exact List.pairwise_map.2 (ho.isAscending_children h.before.tree.nodup n.id)
  · rw [List.mem_map]
    constructor
    · rintro ⟨k, hk, rfl⟩
      have hmem := h.before.tree.mem_subtree_of_mem_children (h.mem source hsource) hn hk
      have hne := h.before.tree.ne_of_mem_children (h.mem source hsource) hn hk
      have hcopy := h.copy_mem hsource hmem
      rw [Duplicate.copyOf, if_neg hne] at hcopy
      refine ⟨hcopy, ?_⟩
      simp [Renaming.copyNode, (mem_children_iff.1 hk).2]
    · rintro ⟨hm, hp⟩
      rcases h.parent_cases hm hp with
        ⟨hhas, -⟩ | ⟨he, -⟩ | ⟨source', hsource', n', hn', k, hk, he, rfl⟩
      · rw [hnew] at hhas
        cases hhas
      · rw [he, h.found] at hnew
        cases hnew
      · obtain ⟨rfl, rfl⟩ := h.apart hsource hsource' hn hn' he
        exact ⟨k, hk, rfl⟩

/-- The children of a node still differ in their positions. -/
theorem isOrdered : s'.IsOrdered := by
  refine .of_children fun p => ?_
  cases hchildren : s'.children p with
  | nil => exact List.Pairwise.nil
  | cons m ms =>
    have hm : m ∈ s'.children p := hchildren ▸ List.mem_cons_self
    obtain ⟨hm, hp⟩ := mem_children_iff.1 hm
    rw [← hchildren]
    by_cases htarget : p = target
    · rw [htarget, h.children_target ho]
      exact h.isAscending_target ho
    · rcases h.parent_cases hm hp with ⟨hhas, -⟩ | ⟨he, -⟩ | ⟨source, hsource, n, hn, -, -, rfl, -⟩
      · rw [h.children_old ho hhas htarget]
        exact (isOrdered_stamp ho).isAscending_children h.nodup_stamp p
      · exact absurd he htarget
      · rw [h.children_copy ho hsource hn]
        exact List.pairwise_map.2 (ho.isAscending_children h.before.tree.nodup n.id)

/-! ### The walk down from a copy -/

/-- The walk down a copy meets the copies of what the walk down the original meets. -/
theorem levels_copy {source : Node} (hsource : source ∈ nodes) {depth : Nat} {level : List Node}
    (hlevel : ∀ n ∈ level, n ∈ s.subtree source.id) :
    s'.levels depth (level.map ((d source.id).copyOf c user target source)) =
      (s.levels depth level).map ((d source.id).copyOf c user target source) := by
  induction depth generalizing level with
  | zero => rfl
  | succ depth ih =>
    have hnext : (level.map ((d source.id).copyOf c user target source)).flatMap
        (fun m => s'.children m.id) = (level.flatMap fun n => s.children n.id).map
          ((d source.id).copyOf c user target source) := by
      rw [List.flatMap_map, List.map_flatMap]
      refine List.flatMap_congr fun n hn => ?_
      rw [Duplicate.id_copyOf, h.children_copy ho hsource (hlevel n hn)]
      refine List.map_congr_left fun k hk => ?_
      have hne := h.before.tree.ne_of_mem_children (h.mem source hsource) (hlevel n hn) hk
      exact (if_neg hne).symm
    rw [levels_succ, levels_succ, hnext, ih fun k hk => ?_, List.map_append]
    obtain ⟨n, hn, hk⟩ := List.mem_flatMap.1 hk
    exact h.before.tree.mem_subtree_of_mem_children (h.mem source hsource) (hlevel n hn) hk

/-- What lies at and below the copy of a selected node are the copies of what lies at and below the
node. -/
theorem subtree_copy {source : Node} (hsource : source ∈ nodes) :
    s'.subtree ((d source.id).node source.id) =
      (s.subtree source.id).map ((d source.id).copyOf c user target source) := by
  have hmem := h.mem source hsource
  obtain ⟨below, hsubtree, -⟩ := h.before.tree.subtree_eq_cons hmem
  have htop : source ∈ s.subtree source.id := hsubtree ▸ List.mem_cons_self
  have hfind := node?_of_mem h.after.tree.nodup (h.copy_mem hsource htop)
  rw [Duplicate.id_copyOf] at hfind
  have hlength : s'.nodes.length =
      s.nodes.length + (copies c user target s d nodes).nodes.length := by
    rw [h.eq, nodes_append, List.length_append]
    simp [stamp, mapNode]
  have hlevels : s'.levels s'.nodes.length [(d source.id).copyOf c user target source source] =
      (s.levels s'.nodes.length [source]).map ((d source.id).copyOf c user target source) :=
    h.levels_copy ho hsource fun n hn => List.mem_singleton.1 hn ▸ htop
  rw [subtree, hfind]
  dsimp only
  rw [hlevels, hlength, h.before.tree.levels_add hmem, subtree,
    node?_of_mem h.before.tree.nodup hmem]

end IsCopied

end Store

end SnapshotArchive
