import SnapshotArchive.Proofs.Copying.Subtrees

/-!
# What a copied subtree consists of

Copying adds to the four tables and changes nothing in them. What it adds is the image of what is
there under a renaming of nodes and variables (`Renaming`), and only the node that a subtree starts
at gets another place and perhaps another name (`Duplicate`).

The renaming is read off the two lists of the copy in progress at its end. Until then each step adds
identifiers to the lists and rows that every renaming agrees on that says what the lists say in the
end (`Copying.Adds`).

* `Copying.addNode_adds`, `Copying.addBelow_adds` : what a step adds.
* `Copying.addSubtree_eq` : what the copy of a subtree adds.
-/

namespace SnapshotArchive

/-! ### Tables one after the other -/

namespace Store

instance : Append Store :=
  ⟨fun s t => ⟨s.nodes ++ t.nodes, s.pvs ++ t.pvs, s.items ++ t.items, s.tags ++ t.tags⟩⟩

variable (s t u : Store)

/-- The nodes of joined tables are those of both. -/
@[simp] theorem nodes_append : (s ++ t).nodes = s.nodes ++ t.nodes := rfl

/-- The variables of joined tables are those of both. -/
@[simp] theorem pvs_append : (s ++ t).pvs = s.pvs ++ t.pvs := rfl

/-- The items of joined tables are those of both. -/
@[simp] theorem items_append : (s ++ t).items = s.items ++ t.items := rfl

/-- The tags of joined tables are those of both. -/
@[simp] theorem tags_append : (s ++ t).tags = s.tags ++ t.tags := rfl

/-- Tables are joined one by one. -/
theorem append_eq : s ++ t =
    ⟨s.nodes ++ t.nodes, s.pvs ++ t.pvs, s.items ++ t.items, s.tags ++ t.tags⟩ := rfl

/-- Three stores are joined to the same one from either end. -/
theorem append_assoc : s ++ t ++ u = s ++ (t ++ u) := by
  simp [append_eq]

/-- Joining empty tables does nothing. -/
@[simp] theorem append_empty : s ++ empty = s := by
  simp [append_eq, empty]

/-- The tags of a snapshot by name. -/
def namedTags (snapshot : Id) : List Tag :=
  (s.tags.filter (·.snapshot = snapshot)).mergeSort (·.name ≤ ·.name)

variable {s t}

/-- The tags of a snapshot by name are the stored ones that name it. -/
@[simp] theorem mem_namedTags_iff {snapshot : Id} {tag : Tag} :
    tag ∈ s.namedTags snapshot ↔ tag ∈ s.tags ∧ tag.snapshot = snapshot := by
  simp [namedTags, List.mem_mergeSort]

/-- A selection does not see added elements that it drops. -/
theorem filter_append_of_forall_not {α : Type} {l l' : List α} {p : α → Bool}
    (h : ∀ a ∈ l', p a = false) : (l ++ l').filter p = l.filter p := by
  have hnone : l'.filter p = [] := List.filter_eq_nil_iff.2 fun a ha => by simp [h a ha]
  rw [List.filter_append, hnone, List.append_nil]

/-! What is added for other owners does not show. -/

/-- Rows without children of a node leave its children alone. -/
theorem children_append {parent : Id} (h : ∀ n ∈ t.nodes, n.parent ≠ some parent) :
    (s ++ t).children parent = s.children parent := by
  rw [children, nodes_append, filter_append_of_forall_not fun n hn => by simpa using h n hn]
  rfl

/-- Rows without variables of a configuration leave its variables alone. -/
theorem pvsOf_append {config : Id} (h : ∀ pv ∈ t.pvs, pv.config ≠ config) :
    (s ++ t).pvsOf config = s.pvsOf config := by
  rw [pvsOf, pvs_append, filter_append_of_forall_not fun pv hpv => by simpa using h pv hpv]
  rfl

/-- Rows without items of a snapshot leave its items alone. -/
theorem itemsOf_append {snapshot : Id} (h : ∀ item ∈ t.items, item.snapshot ≠ snapshot) :
    (s ++ t).itemsOf snapshot = s.itemsOf snapshot := by
  rw [itemsOf, items_append, filter_append_of_forall_not fun i hi => by simpa using h i hi]
  rfl

/-- Rows without tags of a snapshot leave its tags alone. -/
theorem namedTags_append {snapshot : Id} (h : ∀ tag ∈ t.tags, tag.snapshot ≠ snapshot) :
    (s ++ t).namedTags snapshot = s.namedTags snapshot := by
  rw [namedTags, tags_append, filter_append_of_forall_not fun u hu => by simpa using h u hu]
  rfl

end Store

open Store

/-! ### Renamings -/

/-- What nodes and variables are called in a copy. -/
structure Renaming where
  node : Id → Id
  pv : Id → Id

namespace Renaming

variable (r : Renaming) (c : Context) (user : String)

/-- The copy of a node below the copy of its parent. -/
def copyNode (n : Node) : Node :=
  { n with
    id := r.node n.id
    parent := n.parent.map r.node
    created := c.now
    modified := c.now
    user
    version := 1 }

/-- The copy of a variable in the copy of its configuration. -/
def copyPv (pv : Pv) : Pv :=
  { pv with id := r.pv pv.id, config := r.node pv.config }

/-- The copy of an item in the copy of its snapshot. -/
def copyItem (item : Item) : Item :=
  { item with snapshot := r.node item.snapshot, pv := r.pv item.pv }

/-- The copy of a tag on the copy of its snapshot. -/
def copyTag (tag : Tag) : Tag :=
  { tag with snapshot := r.node tag.snapshot }

/-- The copies of what belongs to a node. -/
def contents (s : Store) (old : Id) : Store where
  nodes := []
  pvs := (s.pvsOf old).map r.copyPv
  items := (s.itemsOf old).map r.copyItem
  tags := (s.namedTags old).map r.copyTag

/-- The copy of a node with copies of what belongs to the node. -/
def filled (s : Store) (old : Id) (copy : Node) : Store :=
  { r.contents s old with nodes := [copy] }

/-- The copies of nodes of a store, each below the copy of its parent and with all that belongs to
it. -/
def image (s : Store) (ns : List Node) : Store where
  nodes := ns.map (r.copyNode c user)
  pvs := ns.flatMap fun n => (s.pvsOf n.id).map r.copyPv
  items := ns.flatMap fun n => (s.itemsOf n.id).map r.copyItem
  tags := ns.flatMap fun n => (s.namedTags n.id).map r.copyTag

/-- The copies of some nodes are those of the first and those of the others. -/
theorem image_cons (s : Store) (n : Node) (ns : List Node) :
    r.image c user s (n :: ns) =
      r.filled s n.id (r.copyNode c user n) ++ r.image c user s ns := by
  simp [image, filled, contents, append_eq]

/-- Copies are made of what belongs to the nodes, and of nothing else in the store. -/
theorem image_congr {s t : Store} {ns : List Node}
    (h : ∀ n ∈ ns, t.pvsOf n.id = s.pvsOf n.id ∧ t.itemsOf n.id = s.itemsOf n.id ∧
      t.namedTags n.id = s.namedTags n.id) : r.image c user t ns = r.image c user s ns := by
  induction ns with
  | nil => rfl
  | cons n ns ih =>
    obtain ⟨hpvs, hitems, htags⟩ := h n List.mem_cons_self
    rw [image_cons, image_cons, ih fun m hm => h m (List.mem_cons_of_mem _ hm)]
    rw [filled, contents, hpvs, hitems, htags]
    rfl

end Renaming

/-- The copy of a subtree: what its records are called, and the name and the position of the node
that it starts at. -/
structure Duplicate extends Renaming where
  name : String
  position : Nat

namespace Duplicate

variable (d : Duplicate) (c : Context) (user : String) (target : Id)

/-- The copy of the node that a subtree starts at. -/
def root (n : Node) : Node :=
  { d.copyNode c user n with parent := some target, name := d.name, position := d.position }

/-- The copy of a node of a subtree. -/
def copyOf (source n : Node) : Node :=
  if n.id = source.id then d.root c user target n else d.copyNode c user n

/-- The copy of a subtree of a store with all that belongs to its nodes. -/
def rows (s : Store) (source : Node) : Store :=
  { d.image c user s (s.subtree source.id) with
    nodes := (s.subtree source.id).map (d.copyOf c user target source) }

/-- The identifiers in a copy come from the supply. -/
structure IsSupplied (s : Store) (source : Node) : Prop where
  nodes : ∀ n ∈ s.subtree source.id, ∃ j, d.node n.id = c.fresh j
  pvs : ∀ n ∈ s.subtree source.id, ∀ pv ∈ s.pvsOf n.id, ∃ j, d.pv pv.id = c.fresh j

/-- The copy of a subtree starts at the copy of the node that the subtree starts at. -/
theorem rows_eq {s : Store} {source : Node} {below : List Node}
    (hsubtree : s.subtree source.id = source :: below)
    (hnodup : (s.subtreeIds source.id).Nodup) :
    d.rows c user target s source =
      d.filled s source.id (d.root c user target source) ++ d.image c user s below := by
  rw [subtreeIds, hsubtree, List.map_cons, List.nodup_cons] at hnodup
  have hbelow : below.map (d.copyOf c user target source) = below.map (d.copyNode c user) := by
    refine List.map_congr_left fun n hn => if_neg fun he => hnodup.1 ?_
    exact List.mem_map.2 ⟨n, hn, he⟩
  have hroot : d.copyOf c user target source source = d.root c user target source := if_pos rfl
  rw [rows, hsubtree, Renaming.image_cons, List.map_cons, hbelow, hroot]
  rfl

end Duplicate

/-! ### What steps of a copy add -/

/-- All records are those of nodes of some kind, or these themselves. -/
structure Store.BelongsTo (s : Store) (own : Id → Prop) : Prop where
  nodes : ∀ n ∈ s.nodes, own n.id
  pvs : ∀ pv ∈ s.pvs, own pv.config
  items : ∀ item ∈ s.items, own item.snapshot
  tags : ∀ tag ∈ s.tags, own tag.snapshot

namespace Store.BelongsTo

variable {s t : Store} {own own' : Id → Prop}

/-- Empty tables belong to any nodes. -/
theorem empty : Store.empty.BelongsTo own := by
  constructor <;> simp [Store.empty]

/-- Joined tables belong to the nodes that both belong to. -/
theorem append (hs : s.BelongsTo own) (ht : t.BelongsTo own) : (s ++ t).BelongsTo own where
  nodes n hn := (List.mem_append.1 hn).elim (hs.nodes n) (ht.nodes n)
  pvs pv hpv := (List.mem_append.1 hpv).elim (hs.pvs pv) (ht.pvs pv)
  items item hitem := (List.mem_append.1 hitem).elim (hs.items item) (ht.items item)
  tags tag htag := (List.mem_append.1 htag).elim (hs.tags tag) (ht.tags tag)

/-- What belongs to some nodes belongs to more of them. -/
theorem mono (hs : s.BelongsTo own) (h : ∀ id, own id → own' id) : s.BelongsTo own' where
  nodes n hn := h _ (hs.nodes n hn)
  pvs pv hpv := h _ (hs.pvs pv hpv)
  items item hitem := h _ (hs.items item hitem)
  tags tag htag := h _ (hs.tags tag htag)

/-- The rows that belong to a node, without the node. -/
theorem of_contents {new : Id} {pvs : List Pv} {items : List Item} {tags : List Tag}
    (hpvs : ∀ pv ∈ pvs, pv.config = new) (hitems : ∀ item ∈ items, item.snapshot = new)
    (htags : ∀ tag ∈ tags, tag.snapshot = new) :
    Store.BelongsTo ⟨[], pvs, items, tags⟩ (· = new) :=
  ⟨fun _ hn => absurd hn List.not_mem_nil, hpvs, hitems, htags⟩

/-- What belongs to other nodes does not show at a node. -/
theorem contents_append (ht : t.BelongsTo own) {id : Id} (hid : ¬own id) :
    (s ++ t).pvsOf id = s.pvsOf id ∧ (s ++ t).itemsOf id = s.itemsOf id ∧
      (s ++ t).namedTags id = s.namedTags id := by
  refine ⟨pvsOf_append fun pv hpv he => ?_, itemsOf_append fun item hitem he => ?_,
    namedTags_append fun tag htag he => ?_⟩
  · exact hid (he ▸ ht.pvs pv hpv)
  · exact hid (he ▸ ht.items item hitem)
  · exact hid (he ▸ ht.tags tag htag)

end Store.BelongsTo

namespace Copying

/-- The renaming says what the lists of a copy in progress say. -/
structure IsCalled (k : Copying) (r : Renaming) : Prop where
  nodes : ∀ x ∈ k.nodeIds, r.node x.1 = x.2
  pvs : ∀ x ∈ k.pvIds, r.pv x.1 = x.2

/-- A list of what records are called grows by identifiers of the supply for the given records. -/
def Lists (c : Context) (ids : List Id) (l l' : List (Id × Id)) : Prop :=
  ∃ more, l' = more ++ l ∧ more.map Prod.fst = ids.reverse ∧ ∀ x ∈ more, ∃ j, x.2 = c.fresh j

/-- For no record the list stays as it is. -/
theorem Lists.nil {c : Context} {l : List (Id × Id)} : Lists c [] l l :=
  ⟨[], rfl, rfl, by simp⟩

/-- For one record the list grows by one identifier of the supply. -/
theorem Lists.cons {c : Context} {id : Id} {j : Nat} {l : List (Id × Id)} :
    Lists c [id] l ((id, c.fresh j) :: l) :=
  ⟨[(id, c.fresh j)], rfl, rfl, by simp⟩

/-- A list that grows twice grows by all the records. -/
theorem Lists.trans {c : Context} {ids ids' : List Id} {l₁ l₂ l₃ : List (Id × Id)}
    (h : Lists c ids l₁ l₂) (h' : Lists c ids' l₂ l₃) : Lists c (ids ++ ids') l₁ l₃ := by
  obtain ⟨more, rfl, hids, hfresh⟩ := h
  obtain ⟨more', rfl, hids', hfresh'⟩ := h'
  refine ⟨more' ++ more, by simp, by simp [hids, hids'], fun x hx => ?_⟩
  rcases List.mem_append.1 hx with hx | hx
  · exact hfresh' x hx
  · exact hfresh x hx

/-- A list that grows keeps its entries. -/
theorem Lists.subset {c : Context} {ids : List Id} {l l' : List (Id × Id)}
    (h : Lists c ids l l') : l ⊆ l' := by
  obtain ⟨more, rfl, -, -⟩ := h
  exact List.subset_append_right _ _

/-- A list for different records has one entry for each. -/
theorem Lists.nodup {c : Context} {ids : List Id} {l : List (Id × Id)} (h : Lists c ids [] l)
    (hids : ids.Nodup) : (l.map Prod.fst).Nodup := by
  obtain ⟨more, rfl, hmore, -⟩ := h
  rw [List.append_nil, hmore]
  exact List.nodup_reverse.2 hids

/-- What a listed record is called comes from the supply. -/
theorem Lists.fresh {c : Context} {ids : List Id} {l : List (Id × Id)} (h : Lists c ids [] l)
    {id : Id} (hid : id ∈ ids) : ∃ j, (id, c.fresh j) ∈ l := by
  obtain ⟨more, rfl, hmore, hfresh⟩ := h
  rw [← List.mem_reverse, ← hmore] at hid
  obtain ⟨⟨id, new⟩, hx, rfl⟩ := List.mem_map.1 hid
  obtain ⟨j, rfl⟩ := hfresh _ hx
  exact ⟨j, List.mem_append_left _ hx⟩

/-- A step of a copy adds nodes and variables to the lists, and to the tables rows of some nodes. -/
structure Adds (c : Context) (own : Id → Prop) (nodes pvs : List Id) (rows : Renaming → Store)
    (k k' : Copying) : Prop where
  nodeIds : Lists c nodes k.nodeIds k'.nodeIds
  pvIds : Lists c pvs k.pvIds k'.pvIds
  store : ∃ t, k'.store = k.store ++ t ∧ t.BelongsTo own ∧ ∀ r, k'.IsCalled r → t = rows r

section

variable {c : Context} {k k' k₁ k₂ k₃ : Copying} {own own' : Id → Prop}
  {nodes nodes' pvs pvs' : List Id} {rows rows' : Renaming → Store}

/-- Doing nothing adds nothing. -/
theorem Adds.refl (c : Context) (own : Id → Prop) (k : Copying) :
    Adds c own [] [] (fun _ => empty) k k :=
  ⟨.nil, .nil, empty, (append_empty _).symm, .empty, fun _ _ => rfl⟩

/-- What a renaming says of the later lists it says of the earlier ones. -/
theorem Adds.isCalled (h : Adds c own nodes pvs rows k k') {r : Renaming} (hr : k'.IsCalled r) :
    k.IsCalled r :=
  ⟨fun x hx => hr.nodes x (h.nodeIds.subset hx), fun x hx => hr.pvs x (h.pvIds.subset hx)⟩

/-- Two steps add what both add. -/
theorem Adds.trans (h : Adds c own nodes pvs rows k₁ k₂)
    (h' : Adds c own nodes' pvs' rows' k₂ k₃) :
    Adds c own (nodes ++ nodes') (pvs ++ pvs') (fun r => rows r ++ rows' r) k₁ k₃ := by
  obtain ⟨t, ht, hown, hrows⟩ := h.store
  obtain ⟨t', ht', hown', hrows'⟩ := h'.store
  refine ⟨h.nodeIds.trans h'.nodeIds, h.pvIds.trans h'.pvIds, t ++ t', ?_, hown.append hown',
    fun r hr => ?_⟩
  · rw [ht', ht, append_assoc]
  · rw [hrows r (h'.isCalled hr), hrows' r hr]

/-- The rows may be described otherwise, where the lists say what records are called. -/
theorem Adds.congr (h : Adds c own nodes pvs rows k k')
    (he : ∀ r, k'.IsCalled r → rows r = rows' r) : Adds c own nodes pvs rows' k k' := by
  obtain ⟨t, ht, hown, hrows⟩ := h.store
  exact ⟨h.nodeIds, h.pvIds, t, ht, hown, fun r hr => (hrows r hr).trans (he r hr)⟩

/-- Where rows are added for new nodes, the others are still there and have what they had. -/
theorem Adds.kept (h : Adds c (fun id => k.store.hasNode id = false) nodes pvs rows k k') {id : Id}
    (hid : k.store.hasNode id) :
    k'.store.hasNode id ∧ k'.store.pvsOf id = k.store.pvsOf id ∧
      k'.store.itemsOf id = k.store.itemsOf id ∧ k'.store.namedTags id = k.store.namedTags id := by
  obtain ⟨t, ht, hown, -⟩ := h.store
  obtain ⟨n, hn, hnid⟩ := hasNode_iff.1 hid
  rw [ht]
  refine ⟨hasNode_iff.2 ⟨n, List.mem_append_left _ hn, hnid⟩, hown.contents_append ?_⟩
  rw [hid]
  exact Bool.noConfusion

/-- What adds rows of some nodes adds rows of more of them. -/
theorem Adds.mono (h : Adds c own nodes pvs rows k k') (hown : ∀ id, own id → own' id) :
    Adds c own' nodes pvs rows k k' := by
  obtain ⟨t, ht, ht', hrows⟩ := h.store
  exact ⟨h.nodeIds, h.pvIds, t, ht, ht'.mono hown, hrows⟩

end

/-! ### What belongs to a node -/

section

variable {c : Context} {k k' : Copying} {old new : Id}

/-- Copying variables adds their copies to the variables of the new configuration. -/
theorem addPvs_adds {pvs : List Pv} (h : addPvs c new pvs k = .ok k') :
    Adds c (· = new) [] (pvs.map (·.id))
      (fun r => ⟨[], pvs.map fun pv => { pv with id := r.pv pv.id, config := new }, [], []⟩)
      k k' := by
  induction pvs generalizing k with
  | nil =>
    obtain rfl := Except.ok.inj h
    exact .refl c _ k
  | cons pv pvs ih =>
    obtain ⟨t, hinsert, h⟩ := bind_eq_ok_iff.1 h
    obtain ⟨-, -, -, rfl⟩ := insertPv_eq_ok_iff.1 hinsert
    have hrest := ih h
    have hfirst : Adds c (· = new) [] [pv.id]
        (fun r => ⟨[], [{ pv with id := r.pv pv.id, config := new }], [], []⟩) k
        ⟨{ k.store with pvs := k.store.pvs ++ [{ pv with id := c.fresh k.used, config := new }] },
          k.used + 1, k.nodeIds, (pv.id, c.fresh k.used) :: k.pvIds⟩ := by
      refine ⟨.nil, .cons, ⟨[], [{ pv with id := c.fresh k.used, config := new }], [], []⟩,
        by simp [append_eq], .of_contents (by simp) (by simp) (by simp), fun r hr => ?_⟩
      rw [hr.pvs (pv.id, c.fresh k.used) List.mem_cons_self]
    simpa [append_eq] using hfirst.trans hrest

/-- Copying items adds their copies to the items of the new snapshot. -/
theorem addItems_adds {items : List Item} (h : addItems new items k = .ok k') :
    Adds c (· = new) [] [] (fun r => ⟨[], [], items.map fun item =>
      { item with snapshot := new, pv := r.pv item.pv }, []⟩) k k' := by
  induction items generalizing k with
  | nil =>
    obtain rfl := Except.ok.inj h
    exact .refl c _ k
  | cons item items ih =>
    obtain ⟨w, hw, h⟩ := bind_eq_ok_iff.1 h
    obtain ⟨t, hinsert, h⟩ := bind_eq_ok_iff.1 h
    obtain ⟨-, -, rfl⟩ := insertItem_eq_ok_iff.1 hinsert
    have hrest := ih h
    have hfirst : Adds c (· = new) [] []
        (fun r => ⟨[], [], [{ item with snapshot := new, pv := r.pv item.pv }], []⟩) k
        { k with store := { k.store with
          items := k.store.items ++ [{ item with snapshot := new, pv := w }] } } := by
      refine ⟨.nil, .nil, ⟨[], [], [{ item with snapshot := new, pv := w }], []⟩,
        by simp [append_eq], .of_contents (by simp) (by simp) (by simp), fun r hr => ?_⟩
      rw [hr.pvs _ (copyOf_eq_ok hw)]
    simpa [append_eq] using hfirst.trans hrest

/-- Copying tags adds their copies to the tags of the new snapshot. -/
theorem addTags_adds {tags : List Tag} (h : addTags new tags k = .ok k') :
    Adds c (· = new) [] []
      (fun _ => ⟨[], [], [], tags.map fun tag => { tag with snapshot := new }⟩) k k' := by
  induction tags generalizing k with
  | nil =>
    obtain rfl := Except.ok.inj h
    exact .refl c _ k
  | cons tag tags ih =>
    obtain ⟨t, hinsert, h⟩ := bind_eq_ok_iff.1 h
    obtain ⟨-, -, rfl⟩ := insertTag_eq_ok_iff.1 hinsert
    have hrest := ih h
    have hfirst : Adds c (· = new) [] []
        (fun _ => ⟨[], [], [], [{ tag with snapshot := new }]⟩) k
        { k with store := { k.store with
          tags := k.store.tags ++ [{ tag with snapshot := new }] } } :=
      ⟨.nil, .nil, ⟨[], [], [], [{ tag with snapshot := new }]⟩, by simp [append_eq],
        .of_contents (by simp) (by simp) (by simp), fun _ _ => rfl⟩
    simpa [append_eq] using hfirst.trans hrest

/-- What belongs to a node is added for its copy. -/
theorem addContents_adds (hlisted : (old, new) ∈ k.nodeIds)
    (h : addContents c old new k = .ok k') :
    Adds c (· = new) [] ((k.store.pvsOf old).map (·.id)) (fun r => r.contents k.store old)
      k k' := by
  obtain ⟨k₁, hpvs, h⟩ := bind_eq_ok_iff.1 h
  obtain ⟨k₂, hitems, htags⟩ := bind_eq_ok_iff.1 h
  have hadds := (addPvs_adds hpvs).trans ((addItems_adds hitems).trans (addTags_adds htags))
  simp only [List.append_nil] at hadds
  refine hadds.congr fun r hr => ?_
  have hnew : r.node old = new := (hadds.isCalled hr).nodes _ hlisted
  have hcopyPvs : (k.store.pvsOf old).map (fun pv => { pv with id := r.pv pv.id, config := new }) =
      (k.store.pvsOf old).map r.copyPv := by
    refine List.map_congr_left fun pv hpv => ?_
    rw [Renaming.copyPv, (mem_pvsOf_iff.1 hpv).2, hnew]
  have hcopyItems : (k.store.itemsOf old).map (fun item =>
      { item with snapshot := new, pv := r.pv item.pv }) =
      (k.store.itemsOf old).map r.copyItem := by
    refine List.map_congr_left fun item hitem => ?_
    rw [Renaming.copyItem, (mem_itemsOf_iff.1 hitem).2, hnew]
  have hcopyTags : (k.store.namedTags old).map (fun tag => { tag with snapshot := new }) =
      (k.store.namedTags old).map r.copyTag := by
    refine List.map_congr_left fun tag htag => ?_
    rw [Renaming.copyTag, (mem_namedTags_iff.1 htag).2, hnew]
  rw [Renaming.contents, ← hcopyPvs, ← hcopyItems, ← hcopyTags]
  simp [append_eq, namedTags]

end

/-! ### A node with what belongs to it -/

section

variable {c : Context} {user : String} {k k' : Copying} {old : Node} {olds : List Node}

/-- A node is added with what belongs to it, under an identifier that no node had. -/
theorem addNode_adds {parent : Id} {name : String} {position : Nat}
    (h : addNode c (some user) old parent name position k = .ok k') :
    Adds c (fun id => k.store.hasNode id = false) [old.id] ((k.store.pvsOf old.id).map (·.id))
      (fun r => r.filled k.store old.id
        { r.copyNode c user old with parent := some parent, name, position }) k k' := by
  obtain ⟨author, hauthor, h⟩ := bind_eq_ok_iff.1 h
  obtain rfl := Option.some.inj (present_eq_ok_iff.1 hauthor)
  obtain ⟨t, hinsert, h⟩ := bind_eq_ok_iff.1 h
  obtain ⟨hid, -, -, rfl⟩ := insertNode_eq_ok_iff.1 hinsert
  have hadds := addContents_adds List.mem_cons_self h
  have hlisted := hadds.nodeIds.subset List.mem_cons_self
  obtain ⟨t, ht, hown, hrows⟩ := hadds.store
  refine ⟨Lists.trans .cons hadds.nodeIds, hadds.pvIds,
    ⟨[{ old with
      id := c.fresh k.used
      parent := parent
      name
      position
      created := c.now
      modified := c.now
      user
      version := 1 }], [], [], []⟩ ++ t, ?_, .append ?_ (hown.mono ?_), fun r hr => ?_⟩
  · rw [ht]
    simp [append_eq]
  · exact ⟨by simpa using hid, by simp, by simp, by simp⟩
  · rintro _ rfl
    exact hid
  · have hcopy : r.node old.id = c.fresh k.used := hr.nodes _ hlisted
    rw [hrows r hr, ← hcopy]
    rfl

/-- Nodes are added that lie below nodes with copies. Their contents may be read off any store that
has the same for them. -/
theorem addBelow_adds {s : Store} (hmem : ∀ old ∈ olds, k.store.hasNode old.id)
    (hbelow : ∀ old ∈ olds, ∃ p, old.parent = some p)
    (hsame : ∀ old ∈ olds, k.store.pvsOf old.id = s.pvsOf old.id ∧
      k.store.itemsOf old.id = s.itemsOf old.id ∧ k.store.namedTags old.id = s.namedTags old.id)
    (h : addBelow c (some user) olds k = .ok k') :
    Adds c (fun id => k.store.hasNode id = false) (olds.map (·.id))
      (olds.flatMap fun old => (s.pvsOf old.id).map (·.id)) (fun r => r.image c user s olds)
      k k' := by
  induction olds generalizing k with
  | nil =>
    obtain rfl := Except.ok.inj h
    exact .refl c _ k
  | cons old olds ih =>
    obtain ⟨parent, hparent, h⟩ := bind_eq_ok_iff.1 h
    obtain ⟨k₁, hnode, h⟩ := bind_eq_ok_iff.1 h
    have hfirst := addNode_adds hnode
    have hmem' : ∀ o ∈ olds, k.store.hasNode o.id := fun o ho =>
      hmem o (List.mem_cons_of_mem _ ho)
    have hrest := ih (fun o ho => (hfirst.kept (hmem' o ho)).1)
      (fun o ho => hbelow o (List.mem_cons_of_mem _ ho)) (fun o ho => ?_) h
    · obtain ⟨p, hp⟩ := hbelow old List.mem_cons_self
      obtain ⟨hpvs, hitems, htags⟩ := hsame old List.mem_cons_self
      rw [hp, Option.getD_some] at hparent
      have hadds := hfirst.trans (hrest.mono fun id hid => ?_)
      · rw [hpvs] at hadds
        refine hadds.congr fun r hr => ?_
        have hcalled : r.node p = parent :=
          (hadds.isCalled hr).nodes _ (copyOf_eq_ok hparent)
        rw [Renaming.image_cons, Renaming.filled, Renaming.contents, hpvs, hitems, htags,
          ← hcalled]
        simp only [Renaming.filled, Renaming.contents, Renaming.copyNode, hp, Option.map_some]
      · exact Bool.eq_false_iff.2 fun hk => by simp [(hfirst.kept hk).1] at hid
    · obtain ⟨-, hpvs, hitems, htags⟩ := hfirst.kept (hmem' o ho)
      rw [hpvs, hitems, htags]
      exact hsame o (List.mem_cons_of_mem _ ho)

end

/-! ### A subtree -/

/-- If keys differ, every entry is found under its key. -/
theorem lookup_eq_some_of_mem {l : List (Id × Id)} (h : (l.map Prod.fst).Nodup) {x : Id × Id}
    (hx : x ∈ l) : l.lookup x.1 = some x.2 := by
  induction l with
  | nil => cases hx
  | cons y l ih =>
    obtain ⟨hy, h⟩ := List.nodup_cons.1 h
    rw [Properties.lookup_entry]
    rcases List.mem_cons.1 hx with rfl | hx
    · rw [if_pos rfl]
    · have hne : x.1 ≠ y.1 := fun he => hy (he ▸ List.mem_map_of_mem hx)
      rw [if_neg hne, ih h hx]

/-- Lists in which nothing is listed twice say what records are called. -/
theorem exists_isCalled {k : Copying} (hnodes : (k.nodeIds.map Prod.fst).Nodup)
    (hpvs : (k.pvIds.map Prod.fst).Nodup) : ∃ r, k.IsCalled r := by
  refine ⟨⟨fun id => (k.nodeIds.lookup id).getD id, fun id => (k.pvIds.lookup id).getD id⟩,
    fun x hx => ?_, fun x hx => ?_⟩
  · simp [lookup_eq_some_of_mem hnodes hx]
  · simp [lookup_eq_some_of_mem hpvs hx]

/-- The variables of the nodes of a subtree, each of them once. -/
theorem nodup_subtree_pvs {s : Store} (hs : s.IsSound) {source : Node}
    (hsource : source ∈ s.nodes) :
    ((s.subtree source.id).flatMap fun n => (s.pvsOf n.id).map (·.id)).Nodup := by
  refine List.nodup_flatMap.2 ⟨fun n _ => ?_, ?_⟩
  · have hids : ((s.pvs.filter (·.config = n.id)).map (·.id)).Nodup :=
      hs.owned.pvIds.sublist (List.filter_sublist.map _)
    exact ((List.mergeSort_perm _ _).map _).nodup_iff.2 hids
  · -- Two nodes have no variable in common.
    refine (hs.tree.subtree_nodup hsource).imp_of_mem fun {n m} hn hm hne => ?_
    show List.Disjoint ((s.pvsOf n.id).map (·.id)) ((s.pvsOf m.id).map (·.id))
    intro id hidn hidm
    obtain ⟨p, hp, hpid⟩ := List.mem_map.1 hidn
    obtain ⟨q, hq, hqid⟩ := List.mem_map.1 hidm
    obtain ⟨hp, hpc⟩ := mem_pvsOf_iff.1 hp
    obtain ⟨hq, hqc⟩ := mem_pvsOf_iff.1 hq
    obtain rfl := pv_eq_of_id_eq hs.owned.pvIds hp hq (hpid.trans hqid.symm)
    exact hne (eq_of_id_eq hs.tree.nodup (mem_nodes_of_mem_subtree hn)
      (mem_nodes_of_mem_subtree hm) (hpc.symm.trans hqc))

section

variable {c : Context} {user : String} {k k' : Copying} {source : Node} {target : Id}
  {name : String}

/-- Copying a subtree adds its copy, under a name that is free in the target. -/
theorem addSubtree_eq (hs : k.store.IsSound) (hsource : source ∈ k.store.nodes)
    (h : addSubtree c (some user) target name source k = .ok k') :
    (k.store.sibling? target source.kind name).isNone ∧ ∃ d : Duplicate, d.name = name ∧
      d.position = k.store.nextPosition target ∧ d.IsSupplied c k.store source ∧
      k'.store = k.store ++ d.rows c user target k.store source := by
  obtain ⟨below, hsubtree, hbelow⟩ := hs.tree.subtree_eq_cons hsource
  simp only [addSubtree, hsubtree] at h
  obtain ⟨_, hfree, h⟩ := bind_eq_ok_iff.1 h
  obtain ⟨k₁, htop, h⟩ := bind_eq_ok_iff.1 h
  have hfirst := addNode_adds htop
  have hmem : ∀ o ∈ below, k.store.hasNode o.id := fun o ho =>
    hasNode_of_mem (mem_nodes_of_mem_subtree (hsubtree ▸ List.mem_cons_of_mem _ ho))
  have hrest := addBelow_adds (s := k.store) (fun o ho => (hfirst.kept (hmem o ho)).1)
    hbelow.exists_parent (fun o ho => (hfirst.kept (hmem o ho)).2) h
  have hadds := hfirst.trans (hrest.mono fun id hid => ?_)
  · have hids := hs.tree.subtreeIds_nodup hsource
    have hpvs := nodup_subtree_pvs hs hsource
    obtain ⟨r, hr⟩ : ∃ r, k'.IsCalled r := by
      rw [subtreeIds, hsubtree] at hids
      rw [hsubtree] at hpvs
      exact exists_isCalled (hadds.nodeIds.nodup hids) (hadds.pvIds.nodup hpvs)
    obtain ⟨t, ht, -, hrows⟩ := hadds.store
    refine ⟨?_, ⟨r, name, k.store.nextPosition target⟩, rfl, rfl,
      ⟨fun n hn => ?_, fun n hn pv hpv => ?_⟩, ?_⟩
    · cases hfound : k.store.sibling? target source.kind name with
      | none => rfl
      | some holder => cases checkNameFree_eq_ok_iff.1 hfree holder hfound
    · rw [hsubtree] at hn
      obtain ⟨j, hj⟩ := hadds.nodeIds.fresh (List.mem_map_of_mem hn)
      exact ⟨j, hr.nodes _ hj⟩
    · rw [hsubtree] at hn
      have hmem : pv.id ∈ (source :: below).flatMap fun n => (k.store.pvsOf n.id).map (·.id) :=
        List.mem_flatMap.2 ⟨n, hn, List.mem_map_of_mem hpv⟩
      obtain ⟨j, hj⟩ := hadds.pvIds.fresh hmem
      exact ⟨j, hr.pvs _ hj⟩
    · rw [ht, hrows r hr, Duplicate.rows_eq _ c user target hsubtree hids]
      rfl
  · exact Bool.eq_false_iff.2 fun hk => by simp [(hfirst.kept hk).1] at hid

end

end Copying

end SnapshotArchive
