import SnapshotArchive.Proofs.Copying.Duplicates

/-!
# What copying several subtrees adds

The subtrees are copied one after the other, and each is read off the store as the copies before it
left it. They left it as it was for the nodes that were there (`Store.IsBeside`): copies have new
identifiers and lie in the target or below copies, and the target is in none of the subtrees. So all
copies are those of subtrees of one store.

Each copy comes after those before it, and gets the first name that neither a child of the target
nor a copy before it holds (`IsPlaced`).

* `Store.IsBeside.subtree` : rows beside a store leave its subtrees as they are.
* `Copying.addSubtree_beside`, `Copying.addAll_eq` : what the copies of selected nodes add.
* `copyNodes_eq` : what the operation makes of the tables.
-/

namespace SnapshotArchive

open Store

namespace Store

/-! ### Levels of a subtree -/

/-- The walk down meets the same nodes in stores where the nodes that it meets have the same
children. -/
theorem levels_congr {s t : Store} {d : Nat} {level : List Node}
    (h : ∀ n ∈ s.levels d level, t.children n.id = s.children n.id) :
    t.levels d level = s.levels d level := by
  induction d generalizing level with
  | zero => rfl
  | succ d ih =>
    rw [levels_succ, levels_succ] at *
    have hnext : level.flatMap (fun n => t.children n.id) =
        level.flatMap fun n => s.children n.id :=
      List.flatMap_congr fun n hn => h n (List.mem_append_left _ hn)
    rw [hnext, ih fun n hn => h n (List.mem_append_right _ hn)]

/-- The children of the nodes of a level are one deeper. -/
theorem IsTree.depth_of_mem_next {s : Store} (hs : s.IsTree) {k : Nat} {level : List Node}
    (hlevel : ∀ n ∈ level, n ∈ s.nodes ∧ s.depth n.id = k) {m : Node}
    (hm : m ∈ level.flatMap fun n => s.children n.id) : m ∈ s.nodes ∧ s.depth m.id = k + 1 := by
  obtain ⟨n, hn, hm⟩ := List.mem_flatMap.1 hm
  obtain ⟨hm, hp⟩ := mem_children_iff.1 hm
  exact ⟨hm, by rw [hs.depth_of_parent hm hp, (hlevel n hn).2]⟩

/-- No level is deeper than there are nodes. -/
theorem IsTree.levels_succ_eq {s : Store} (hs : s.IsTree) {d k : Nat} {level : List Node}
    (hd : s.nodes.length ≤ k + d) (hlevel : ∀ n ∈ level, n ∈ s.nodes ∧ s.depth n.id = k) :
    s.levels (d + 1) level = s.levels d level := by
  induction d generalizing k level with
  | zero =>
    have hnone : level.flatMap (fun n => s.children n.id) = [] := by
      refine List.flatMap_eq_nil_iff.2 fun n hn => hs.children_eq_nil ?_
      rwa [(hlevel n hn).2]
    rw [levels_succ, hnone, levels_nil, List.append_nil]
    rfl
  | succ d ih =>
    rw [levels_succ s (d + 1), levels_succ s d]
    exact congrArg (level ++ ·) (ih (by omega) fun m hm => hs.depth_of_mem_next hlevel hm)

/-- A walk down that goes deeper meets no more nodes. -/
theorem IsTree.levels_add {s : Store} (hs : s.IsTree) {n : Node} (hn : n ∈ s.nodes) (d : Nat) :
    s.levels (s.nodes.length + d) [n] = s.levels s.nodes.length [n] := by
  induction d with
  | zero => rfl
  | succ d ih =>
    have hlast : s.levels (s.nodes.length + d + 1) [n] = s.levels (s.nodes.length + d) [n] :=
      hs.levels_succ_eq (k := s.depth n.id) (by omega) (by simp [hn])
    rw [← Nat.add_assoc, hlast, ih]

/-! ### Rows beside a store -/

/-- Rows that may be added to a store when something is copied into a target: they belong to new
nodes, which lie in the target or below new nodes. -/
structure IsBeside (s : Store) (target : Id) (t : Store) : Prop where
  own : t.BelongsTo fun id => s.hasNode id = false
  parents : ∀ n ∈ t.nodes, n.parent = some target ∨ ∃ p, n.parent = some p ∧ s.hasNode p = false

namespace IsBeside

variable {s t u : Store} {target : Id}

/-- No rows may be added. -/
theorem empty : s.IsBeside target Store.empty :=
  ⟨.empty, by simp [Store.empty]⟩

/-- Rows that may be added one after the other may be added together. -/
theorem append (ht : s.IsBeside target t) (hu : s.IsBeside target u) :
    s.IsBeside target (t ++ u) :=
  ⟨ht.own.append hu.own, fun n hn =>
    (List.mem_append.1 hn).elim (ht.parents n) (hu.parents n)⟩

/-- Rows that are added to more than a store are added to the store. -/
theorem of_append (h : (s ++ t).IsBeside target u) : s.IsBeside target u := by
  have hold : ∀ id, (s ++ t).hasNode id = false → s.hasNode id = false := by
    intro id hid
    refine Bool.eq_false_iff.2 fun hs => ?_
    obtain ⟨n, hn, rfl⟩ := hasNode_iff.1 hs
    exact not_mem_of_hasNode_eq_false hid (List.mem_append_left _ hn) rfl
  refine ⟨h.own.mono hold, fun n hn => (h.parents n hn).imp_right ?_⟩
  rintro ⟨p, hp, hnew⟩
  exact ⟨p, hp, hold p hnew⟩

/-- Nodes that are there keep their variables, items and tags. -/
theorem contents (h : s.IsBeside target t) {id : Id} (hid : s.hasNode id) :
    (s ++ t).pvsOf id = s.pvsOf id ∧ (s ++ t).itemsOf id = s.itemsOf id ∧
      (s ++ t).namedTags id = s.namedTags id :=
  h.own.contents_append (by simp [hid])

/-- Nodes that are there, but for the target, keep their children. -/
theorem children (h : s.IsBeside target t) {id : Id} (hid : s.hasNode id) (hne : id ≠ target) :
    (s ++ t).children id = s.children id := by
  refine children_append fun n hn hp => ?_
  rcases h.parents n hn with ht | ⟨p, hnp, hnew⟩
  · exact hne (Option.some.inj (hp.symm.trans ht))
  · obtain rfl := Option.some.inj (hp.symm.trans hnp)
    rw [hid] at hnew
    cases hnew

/-- Rows beside a store leave its subtrees as they are, but for those that the target is in. -/
theorem subtree (h : s.IsBeside target t) (hs : s.IsTree) {n : Node} (hn : n ∈ s.nodes)
    (houtside : ¬s.LeadsTo target n.id) : (s ++ t).subtree n.id = s.subtree n.id := by
  have hfind : s.node? n.id = some n := node?_of_mem hs.nodup hn
  have hfind' : (s ++ t).node? n.id = some n := by
    rw [node?] at hfind ⊢
    rw [nodes_append, List.find?_append, hfind, Option.some_or]
  simp only [Store.subtree, hfind, hfind', nodes_append, List.length_append]
  rw [← hs.levels_add hn t.nodes.length]
  refine levels_congr fun m hm => ?_
  have hmem : m ∈ s.nodes := mem_nodes_of_mem_levels (by simpa using hn) hm
  refine h.children (hasNode_of_mem hmem) fun he => houtside ?_
  obtain ⟨o, ho, hup⟩ := leadsTo_of_mem_levels hm
  rw [List.mem_singleton.1 ho, he] at hup
  exact hup

end IsBeside

/-- The parent of a node of a subtree is in the subtree, but for the node that it starts at. -/
theorem IsTree.parent_mem_subtree {s : Store} (hs : s.IsTree) {source n : Node}
    (hsource : source ∈ s.nodes) (hn : n ∈ s.subtree source.id) (hne : n.id ≠ source.id) :
    ∃ m ∈ s.subtree source.id, n.parent = some m.id := by
  obtain ⟨hmem, hup⟩ := (hs.mem_subtree_iff hsource).1 hn
  rcases Relation.ReflTransGen.cases_head hup with he | ⟨p, ⟨o, ho, hid, hp⟩, hup⟩
  · exact absurd he hne
  · obtain rfl := eq_of_id_eq hs.nodup ho hmem hid
    obtain ⟨m, hm, rfl, -⟩ := hs.contained o ho p hp
    exact ⟨m, (hs.mem_subtree_iff hsource).2 ⟨hm, hup⟩, hp⟩

end Store

/-! ### The copy of a subtree beside a store -/

namespace Duplicate

variable {d : Duplicate} {c : Context} {user : String} {target : Id} {s : Store} {source : Node}

/-- The copy of a node is called as the renaming says. -/
@[simp] theorem id_copyOf (n : Node) : (d.copyOf c user target source n).id = d.node n.id := by
  unfold copyOf
  split <;> rfl

/-- The nodes of a copy are the copies of the nodes of the subtree. -/
theorem mem_nodes_rows_iff {m : Node} :
    m ∈ (d.rows c user target s source).nodes ↔
      ∃ n ∈ s.subtree source.id, d.copyOf c user target source n = m :=
  List.mem_map

/-- If identifiers differ, those of copies are new. -/
theorem hasNode_eq_false (hnodup : ((s ++ d.rows c user target s source).nodes.map (·.id)).Nodup)
    {n : Node} (hn : n ∈ s.subtree source.id) : s.hasNode (d.node n.id) = false := by
  rw [nodes_append, List.map_append, List.nodup_append] at hnodup
  refine Bool.eq_false_iff.2 fun hnode => ?_
  obtain ⟨m, hm, hid⟩ := hasNode_iff.1 hnode
  have hcopy : d.node n.id ∈ (d.rows c user target s source).nodes.map (·.id) :=
    List.mem_map.2 ⟨_, mem_nodes_rows_iff.2 ⟨n, hn, rfl⟩, id_copyOf n⟩
  exact hnodup.2.2 _ (List.mem_map_of_mem hm) _ hcopy hid

/-- The copy of a subtree lies beside the store. -/
theorem isBeside_rows (hs : s.IsTree) (hsource : source ∈ s.nodes)
    (hnew : ∀ n ∈ s.subtree source.id, s.hasNode (d.node n.id) = false) :
    s.IsBeside target (d.rows c user target s source) := by
  refine ⟨⟨fun m hm => ?_, fun pv hpv => ?_, fun item hitem => ?_, fun tag htag => ?_⟩,
    fun m hm => ?_⟩
  · obtain ⟨n, hn, rfl⟩ := mem_nodes_rows_iff.1 hm
    rw [id_copyOf]
    exact hnew n hn
  · obtain ⟨n, hn, hpv⟩ := List.mem_flatMap.1 hpv
    obtain ⟨p, hp, rfl⟩ := List.mem_map.1 hpv
    show s.hasNode (d.node p.config) = false
    rw [(mem_pvsOf_iff.1 hp).2]
    exact hnew n hn
  · obtain ⟨n, hn, hitem⟩ := List.mem_flatMap.1 hitem
    obtain ⟨i, hi, rfl⟩ := List.mem_map.1 hitem
    show s.hasNode (d.node i.snapshot) = false
    rw [(mem_itemsOf_iff.1 hi).2]
    exact hnew n hn
  · obtain ⟨n, hn, htag⟩ := List.mem_flatMap.1 htag
    obtain ⟨u, hu, rfl⟩ := List.mem_map.1 htag
    show s.hasNode (d.node u.snapshot) = false
    rw [(mem_namedTags_iff.1 hu).2]
    exact hnew n hn
  · obtain ⟨n, hn, rfl⟩ := mem_nodes_rows_iff.1 hm
    unfold copyOf
    split
    · exact .inl rfl
    · rename_i hne
      obtain ⟨p, hp, hparent⟩ := hs.parent_mem_subtree hsource hn hne
      exact .inr ⟨d.node p.id, by simp [Renaming.copyNode, hparent], hnew p hp⟩

/-- Of a copied subtree the target gets the node that it starts at. -/
theorem filter_nodes_rows (hs : s.IsTree) (hsource : source ∈ s.nodes)
    (hnew : ∀ n ∈ s.subtree source.id, s.hasNode (d.node n.id) = false)
    (htarget : s.hasNode target) :
    (d.rows c user target s source).nodes.filter (·.parent = some target) =
      [d.root c user target source] := by
  obtain ⟨below, hsubtree, hbelow⟩ := hs.subtree_eq_cons hsource
  rw [rows_eq d c user target hsubtree (hs.subtreeIds_nodup hsource)]
  have hnone : (below.map (d.copyNode c user)).filter (·.parent = some target) = [] := by
    refine List.filter_eq_nil_iff.2 fun m hm => ?_
    obtain ⟨n, hn, rfl⟩ := List.mem_map.1 hm
    have hmem : n ∈ s.subtree source.id := hsubtree ▸ List.mem_cons_of_mem _ hn
    have hne : n.id ≠ source.id := by
      have hnodup := hs.subtreeIds_nodup hsource
      rw [subtreeIds, hsubtree, List.map_cons, List.nodup_cons] at hnodup
      exact fun he => hnodup.1 (List.mem_map.2 ⟨n, hn, he⟩)
    obtain ⟨p, hp, hparent⟩ := hs.parent_mem_subtree hsource hmem hne
    have hcopy := hnew p hp
    simp only [Renaming.copyNode, hparent, Option.map_some, decide_eq_true_eq]
    intro he
    rw [Option.some.inj he, htarget] at hcopy
    cases hcopy
  simp only [nodes_append, List.filter_append, Renaming.filled, Renaming.image, hnone]
  simp [root]

end Duplicate

/-! ### Names and positions in the target -/

namespace Store

/-- The position of a node that came last is the next one less one. -/
theorem nextPosition_append {s t : Store} {target : Id} {n : Node}
    (ht : t.nodes.filter (·.parent = some target) = [n])
    (hn : n.position = s.nextPosition target) :
    (s ++ t).nextPosition target = s.nextPosition target + 1 := by
  have hfold : (s ++ t).nextPosition target = max (s.nextPosition target) (n.position + 1) := by
    rw [nextPosition, nodes_append, List.filter_append, ht, List.foldl_append]
    rfl
  rw [hfold, hn]
  omega

/-- A name is taken in a target with one more node if it was before or if that node has it. -/
theorem isSome_sibling?_append {s t : Store} {target : Id} {n : Node} {kind : Kind} {name : String}
    (ht : t.nodes.filter (·.parent = some target) = [n]) (hdraft : n.draft = false) :
    ((s ++ t).sibling? target kind name).isSome ↔
      (s.sibling? target kind name).isSome ∨ n.kind = kind ∧ n.name = name := by
  have hn : ∀ o ∈ t.nodes, o.parent = some target ↔ o = n := by
    intro o ho
    have hmem : o ∈ t.nodes.filter (·.parent = some target) ↔ o = n := by simp [ht]
    simpa [ho] using hmem
  have hmem : n ∈ t.nodes.filter (·.parent = some target) := ht ▸ List.mem_singleton_self n
  obtain ⟨hmem, hp⟩ := List.mem_filter.1 hmem
  rw [sibling?, sibling?, nodes_append, List.find?_append, Option.isSome_or, Bool.or_eq_true]
  refine or_congr_right ?_
  rw [List.find?_isSome]
  constructor
  · rintro ⟨o, ho, hholds⟩
    obtain ⟨-, hop, hk, hname, -⟩ := holdsName_iff.1 hholds
    obtain rfl := (hn o ho).1 hop
    exact ⟨hk, hname⟩
  · rintro ⟨hk, hname⟩
    have hp : n.parent = some target := by simpa using hp
    exact ⟨n, hmem, holdsName_iff.2 ⟨by simp [hp], hp, hk, hname, hdraft⟩⟩

end Store

namespace Store

/-- The store with a node stamped as changed now. -/
def stamp (s : Store) (c : Context) (id : Id) (user : String) : Store :=
  s.mapNode id fun n => { n with version := n.version + 1, modified := c.now, user }

/-- A node is touched for a named author, and is stamped then. -/
theorem touch_eq_ok_iff {s t : Store} {c : Context} {id : Id} {user : Option String} :
    s.touch c id user = .ok t ↔ ∃ author, user = some author ∧ s.stamp c id author = t := by
  simp only [touch, bind_eq_ok_iff, present_eq_ok_iff, pure, Except.pure, Except.ok.injEq, stamp]

/-- Stamping a node does not show in rows of other nodes. -/
theorem stamp_append {s t : Store} {c : Context} {id : Id} {user : String}
    (h : ∀ n ∈ t.nodes, n.id ≠ id) : (s ++ t).stamp c id user = s.stamp c id user ++ t := by
  have hsame : t.nodes.map (fun n => if n.id = id then
      { n with version := n.version + 1, modified := c.now, user } else n) = t.nodes :=
    (List.map_congr_left fun n hn => if_neg (h n hn)).trans (List.map_id _)
  simp only [stamp, mapNode, append_eq, List.map_append, hsame]

end Store

/-! ### Several copies -/

/-- The copies of the subtrees of selected nodes. -/
def copies (c : Context) (user : String) (target : Id) (s : Store) (d : Id → Duplicate)
    (nodes : List Node) : Store where
  nodes := nodes.flatMap fun n => ((d n.id).rows c user target s n).nodes
  pvs := nodes.flatMap fun n => ((d n.id).rows c user target s n).pvs
  items := nodes.flatMap fun n => ((d n.id).rows c user target s n).items
  tags := nodes.flatMap fun n => ((d n.id).rows c user target s n).tags

/-- The copies of several subtrees are those of the first and those of the others. -/
theorem copies_cons (c : Context) (user : String) (target : Id) (s : Store) (d : Id → Duplicate)
    (n : Node) (ns : List Node) :
    copies c user target s d (n :: ns) =
      (d n.id).rows c user target s n ++ copies c user target s d ns := rfl

/-- A node of the copies is the copy of a node of a selected subtree. -/
theorem mem_nodes_copies_iff {c : Context} {user : String} {target : Id} {s : Store}
    {d : Id → Duplicate} {nodes : List Node} {m : Node} :
    m ∈ (copies c user target s d nodes).nodes ↔ ∃ source ∈ nodes, ∃ n ∈ s.subtree source.id,
      (d source.id).copyOf c user target source n = m := by
  simp only [copies, List.mem_flatMap, Duplicate.mem_nodes_rows_iff]

/-- Copies of selected nodes depend on no more than how these are copied. -/
theorem copies_congr {c : Context} {user : String} {target : Id} {s : Store}
    {d d' : Id → Duplicate} {nodes : List Node} (h : ∀ n ∈ nodes, d n.id = d' n.id) :
    copies c user target s d nodes = copies c user target s d' nodes := by
  induction nodes with
  | nil => rfl
  | cons n ns ih =>
    rw [copies_cons, copies_cons, h n List.mem_cons_self,
      ih fun m hm => h m (List.mem_cons_of_mem _ hm)]

/-- Whether a child of the target has the name, or gets it as a copy of nodes before. -/
def IsTaken (s : Store) (target : Id) (d : Id → Duplicate) (before : List Node) (kind : Kind)
    (name : String) : Prop :=
  (s.sibling? target kind name).isSome ∨ ∃ n ∈ before, n.kind = kind ∧ (d n.id).name = name

/-- Where the copy of a node goes: behind the children of the target and the copies before it, and
under the first name that is not taken. The rejecting policy tries one name. -/
structure IsPlaced (policy : CopyPolicy) (s : Store) (target : Id) (d : Id → Duplicate)
    (before : List Node) (n : Node) : Prop where
  position : (d n.id).position = s.nextPosition target + before.length
  name : ∃ attempt, (d n.id).name = copyName n.name attempt ∧
    (policy = .reject → attempt = 0) ∧ ¬IsTaken s target d before n.kind (copyName n.name attempt) ∧
    ∀ i < attempt, IsTaken s target d before n.kind (copyName n.name i)

section

variable {c : Context} {policy : CopyPolicy} {user : String} {s prior : Store} {t n m : Node}
  {d : Duplicate} {e e' : Id → Duplicate} {before : List Node}

/-- A node that can be moved is no draft. -/
theorem Store.IsNamed.draft_eq_false (hs : s.IsNamed) (hn : n ∈ s.nodes)
    (hmovable : n.kind.isMovable) : n.draft = false := by
  rw [hs.drafts n hn]
  exact Content.isDraft_of_kind (Kind.ne_snapshot_of_isMovable hmovable)

/-- The first copy is placed among the children of the target. -/
theorem IsPlaced.first (hname : d.name = if policy = .reject then n.name else s.freeName t.id n)
    (hposition : d.position = s.nextPosition t.id)
    (hfree : (s.sibling? t.id n.kind d.name).isNone) (he : e n.id = d) :
    IsPlaced policy s t.id e [] n := by
  have htaken : ∀ {name : String}, IsTaken s t.id e [] n.kind name ↔
      (s.sibling? t.id n.kind name).isSome := by simp [IsTaken]
  refine ⟨by simp [he, hposition], ?_⟩
  simp only [htaken, he]
  cases policy with
  | reject =>
    rw [if_pos rfl] at hname
    refine ⟨0, hname, fun _ => rfl, ?_, fun i hi => absurd hi (Nat.not_lt_zero i)⟩
    rw [hname] at hfree
    simpa [copyName] using hfree
  | suffix =>
    obtain ⟨attempt, hfirst, hbefore⟩ := s.freeName_first t.id n
    rw [if_neg (by decide), hfirst] at hname
    rw [hname] at hfree
    refine ⟨attempt, hname, ?_, by simpa using hfree, hbefore⟩
    intro hpolicy
    cases hpolicy

/-- What is placed after a copy was there is placed after it. -/
theorem IsPlaced.later {rows : Store} {o : Node}
    (hrows : rows.nodes.filter (·.parent = some t.id) = [o]) (hdraft : o.draft = false)
    (hkind : o.kind = m.kind) (hname : o.name = d.name)
    (hposition : o.position = s.nextPosition t.id) (hm : e' m.id = d)
    (hsame : ∀ x ∈ before, e' x.id = e x.id) (hn : e' n.id = e n.id)
    (h : IsPlaced policy (s ++ rows) t.id e before n) :
    IsPlaced policy s t.id e' (m :: before) n := by
  have htaken : ∀ {kind : Kind} {name : String}, IsTaken s t.id e' (m :: before) kind name ↔
      IsTaken (s ++ rows) t.id e before kind name := by
    intro kind name
    have hrest : (∃ x ∈ before, x.kind = kind ∧ (e' x.id).name = name) ↔
        ∃ x ∈ before, x.kind = kind ∧ (e x.id).name = name :=
      exists_congr fun x => and_congr_right fun hx => by rw [hsame x hx]
    rw [IsTaken, IsTaken, isSome_sibling?_append hrows hdraft, hkind, hname, or_assoc, ← hrest]
    simp [hm]
  obtain ⟨attempt, hattempt, hpolicy, hfree, hbefore⟩ := h.name
  refine ⟨?_, attempt, ?_, hpolicy, ?_, ?_⟩
  · rw [hn, h.position, nextPosition_append hrows hposition, List.length_cons]
    omega
  · rw [hn, hattempt]
  · rwa [htaken]
  · simpa only [htaken] using hbefore

/-- Copies of subtrees with the same rows are the same. -/
theorem Duplicate.rows_congr {s' : Store} {target : Id}
    (hsubtree : s'.subtree n.id = s.subtree n.id)
    (h : ∀ m ∈ s.subtree n.id, s'.pvsOf m.id = s.pvsOf m.id ∧
      s'.itemsOf m.id = s.itemsOf m.id ∧ s'.namedTags m.id = s.namedTags m.id) :
    d.rows c user target s' n = d.rows c user target s n := by
  rw [rows, rows, hsubtree, Renaming.image_congr d.toRenaming c user h]

end

namespace Copying

section

variable {c : Context} {policy : CopyPolicy} {user : String} {s prior : Store} {t : Node}

/-- Copying a subtree adds its copy, and the copies that were added before do not show in it. -/
theorem addSubtree_beside {n : Node} {k k' : Copying} (hs : s.IsSound) (ht : t ∈ s.nodes)
    (hfolder : t.kind = .folder) (hk : k.store = s ++ prior) (hprior : s.IsBeside t.id prior)
    (hsound : k.store.IsSound) (hn : n ∈ s.nodes) (hroot : n.id ≠ rootId)
    (hmovable : n.kind.isMovable) (houtside : ¬s.LeadsTo t.id n.id)
    (h : addSubtree c (some user) t.id
      (if policy = .reject then n.name else k.store.freeName t.id n) n k = .ok k') :
    k'.store.IsSound ∧ ∃ d : Duplicate, d.position = k.store.nextPosition t.id ∧
      (∀ e, e n.id = d → IsPlaced policy k.store t.id e [] n) ∧ d.IsSupplied c s n ∧
      s.IsBeside t.id (d.rows c user t.id s n) ∧
      (d.rows c user t.id s n).nodes.filter (·.parent = some t.id) = [d.root c user t.id n] ∧
      k'.store = k.store ++ d.rows c user t.id s n := by
  have hnk : n ∈ k.store.nodes := hk ▸ List.mem_append_left _ hn
  have htk : t ∈ k.store.nodes := hk ▸ List.mem_append_left _ ht
  obtain ⟨hfree, d, hname, hposition, hsupplied, hstore⟩ := addSubtree_eq hsound hnk h
  have hsound' : k'.store.IsSound :=
    hsound.edits (addSubtree_receives hsound hnk htk hroot hmovable hfolder
      (isName_copy hsound hnk hmovable policy t.id) h).edits
  have hnew : ∀ m ∈ k.store.subtree n.id, k.store.hasNode (d.node m.id) = false := fun m hm =>
    Duplicate.hasNode_eq_false (hstore ▸ hsound'.tree.nodup) hm
  have hfilter : (d.rows c user t.id k.store n).nodes.filter (·.parent = some t.id) =
      [d.root c user t.id n] :=
    Duplicate.filter_nodes_rows hsound.tree hnk hnew (hasNode_of_mem htk)
  have hbeside : s.IsBeside t.id (d.rows c user t.id k.store n) := by
    have hrows : k.store.IsBeside t.id (d.rows c user t.id k.store n) :=
      Duplicate.isBeside_rows hsound.tree hnk hnew
    exact .of_append (t := prior) (by rwa [← hk])
  -- The subtree is in the store as it is now what it was.
  have hsame : k.store.subtree n.id = s.subtree n.id :=
    hk ▸ hprior.subtree hs.tree hn houtside
  have hcontents : ∀ m ∈ s.subtree n.id, k.store.pvsOf m.id = s.pvsOf m.id ∧
      k.store.itemsOf m.id = s.itemsOf m.id ∧ k.store.namedTags m.id = s.namedTags m.id :=
    fun m hm => hk ▸ hprior.contents (hasNode_of_mem (mem_nodes_of_mem_subtree hm))
  have hrows : d.rows c user t.id k.store n = d.rows c user t.id s n :=
    Duplicate.rows_congr hsame hcontents
  rw [hrows] at hfilter hbeside hstore
  refine ⟨hsound', d, hposition, fun e he => .first hname hposition (hname ▸ hfree) he, ?_,
    hbeside, hfilter, hstore⟩
  refine ⟨fun o ho => hsupplied.nodes o (hsame ▸ ho), fun o ho pv hpv => ?_⟩
  exact hsupplied.pvs o (hsame ▸ ho) pv ((hcontents o ho).1 ▸ hpv)

/-- Copying nodes with their subtrees into a target adds their copies, which are placed one after
the other. -/
theorem addAll_eq (hs : s.IsSound) (ht : t ∈ s.nodes) (hfolder : t.kind = .folder)
    {nodes : List Node} {k k' : Copying} (hk : k.store = s ++ prior)
    (hprior : s.IsBeside t.id prior) (hsound : k.store.IsSound)
    (hnodes : ∀ n ∈ nodes, n ∈ s.nodes ∧ n.id ≠ rootId ∧ n.kind.isMovable ∧
      ¬s.LeadsTo t.id n.id) (hnodup : (nodes.map (·.id)).Nodup)
    (h : addAll c policy (some user) t.id nodes k = .ok k') :
    ∃ d : Id → Duplicate, k'.store = k.store ++ copies c user t.id s d nodes ∧
      s.IsBeside t.id (copies c user t.id s d nodes) ∧
      (∀ n ∈ nodes, (d n.id).IsSupplied c s n) ∧
      ∀ before n after, nodes = before ++ n :: after →
        IsPlaced policy k.store t.id d before n := by
  induction nodes generalizing k prior with
  | nil =>
    obtain rfl := Except.ok.inj h
    refine ⟨fun _ => ⟨⟨id, id⟩, "", 0⟩, (append_empty _).symm, .empty, by simp, ?_⟩
    intro before n after he
    simp at he
  | cons n ns ih =>
    obtain ⟨k₁, hsubtree, h⟩ := bind_eq_ok_iff.1 h
    obtain ⟨hn, hroot, hmovable, houtside⟩ := hnodes n List.mem_cons_self
    obtain ⟨hhead, hnodup⟩ := List.nodup_cons.1 hnodup
    obtain ⟨hsound₁, d₀, hposition, hfirst, hsupplied, hbeside, hfilter, hstore⟩ :=
      addSubtree_beside hs ht hfolder hk hprior hsound hn hroot hmovable houtside hsubtree
    obtain ⟨d, hstore', hbeside', hsupplied', hplaced⟩ := ih
      (by rw [hstore, hk, append_assoc]) (hprior.append hbeside) hsound₁
      (fun m hm => hnodes m (List.mem_cons_of_mem _ hm)) hnodup h
    have hother : ∀ m ∈ ns, (Function.update d n.id d₀) m.id = d m.id := fun m hm =>
      Function.update_of_ne (fun he => hhead (List.mem_map.2 ⟨m, hm, he⟩)) _ _
    have hself : (Function.update d n.id d₀) n.id = d₀ := Function.update_self ..
    have hcopies : copies c user t.id s (Function.update d n.id d₀) (n :: ns) =
        d₀.rows c user t.id s n ++ copies c user t.id s d ns := by
      rw [copies_cons, hself, copies_congr hother]
    refine ⟨Function.update d n.id d₀, ?_, ?_, fun m hm => ?_, fun before m after he => ?_⟩
    · rw [hstore', hstore, hcopies, append_assoc]
    · rw [hcopies]
      exact hbeside.append hbeside'
    · rcases List.mem_cons.1 hm with rfl | hm
      · rw [hself]
        exact hsupplied
      · rw [hother m hm]
        exact hsupplied' m hm
    · cases before with
      | nil =>
        obtain ⟨rfl, -⟩ := List.cons.inj he
        exact hfirst _ hself
      | cons o before =>
        obtain ⟨rfl, hns⟩ := List.cons.inj he
        have hmem : ∀ x ∈ before, x ∈ ns := fun x hx => hns ▸ List.mem_append_left _ hx
        have hm : m ∈ ns := hns ▸ List.mem_append_right _ List.mem_cons_self
        have hnk : n ∈ k.store.nodes := hk ▸ List.mem_append_left _ hn
        have hdraft : n.draft = false := hsound.named.draft_eq_false hnk hmovable
        refine .later hfilter hdraft rfl rfl hposition hself
          (fun x hx => hother x (hmem x hx)) (hother m hm) ?_
        exact hstore ▸ hplaced before m after hns

end

end Copying

/-- Copying selected nodes stamps the target and adds the copies. -/
theorem copyNodes_eq {c : Context} {policy : CopyPolicy} {ids : List Id} {target : Id}
    {user : Option String} {s₀ s s' : Store} {u : Transaction Node} {answer : Node}
    (hplan : copyNodes c policy ids target user s₀ = .ok u) (hs : s.IsSound)
    (hu : u s = .ok (answer, s')) :
    ∃ nodes t author d, s.IsRelocation ids target false (policy = .reject) nodes t ∧
      user = some author ∧ s.IsBeside target (copies c author target s d nodes) ∧
      (∀ n ∈ nodes, (d n.id).IsSupplied c s n) ∧
      (∀ before n after, nodes = before ++ n :: after →
        IsPlaced policy s target d before n) ∧
      s' = s.stamp c target author ++ copies c author target s d nodes := by
  obtain ⟨planned, -, hplan⟩ := bind_eq_ok_iff.1 hplan
  obtain rfl := Except.ok.inj hplan
  obtain ⟨⟨nodes, t⟩, hcheck, hu⟩ := bind_eq_ok_iff.1 hu
  obtain ⟨k, hcopy, hu⟩ := bind_eq_ok_iff.1 hu
  obtain ⟨s₁, htouch, hu⟩ := bind_eq_ok_iff.1 hu
  obtain ⟨-, rfl⟩ := answerNode_eq_ok_iff.1 hu
  have hok := checkRelocation_eq_ok_iff.1 (recheck_eq_ok_iff.1 hcheck)
  obtain ⟨ht, rfl⟩ := node?_eq_some hok.found
  obtain ⟨author, rfl, rfl⟩ := touch_eq_ok_iff.1 htouch
  obtain ⟨d, hstore, hbeside, hsupplied, hplaced⟩ := Copying.addAll_eq (k := ⟨s, 0, [], []⟩) hs ht
    hok.folder (append_empty s).symm .empty hs (fun n hn => ⟨hok.selection.mem hn,
      hok.selection.notRoot n hn, hok.movable n hn, hok.not_leadsTo hs.tree hn⟩)
    hok.selection.nodup_ids hcopy
  refine ⟨nodes, t, author, d, hok, rfl, hbeside, hsupplied, hplaced, ?_⟩
  rw [hstore]
  refine stamp_append fun n hn he => ?_
  have hnew := hbeside.own.nodes n hn
  rw [he, hasNode_of_mem ht] at hnew
  cases hnew

end SnapshotArchive
