import SnapshotArchive.Proofs.Copying.Names
import SnapshotArchive.Proofs.Configuring

/-!
# A copy in progress

While a subtree is copied, two lists say which record is the copy of which. `Copying.IsFaithful` is
what they say truly: a node and its copy are of one kind, nothing is copied twice and no copy is
copied, the children of a copy are copies of the children, and the copy of a variable lies in the
copy of its configuration. So an item of a copied snapshot refers to a variable of the copied
configuration.

* `Copying.IsFaithful.copyNode` : adding the copy of a node keeps the lists faithful.
* `Copying.addContents_fills` : filling it does.
* `Copying.addNode_copies` : both together are a run of edits.
-/

namespace SnapshotArchive

open Store

/-- The copy that is found for a record is one that the list names. -/
theorem copyOf_eq_ok {ids : List (Id × Id)} {id new : Id} (h : copyOf ids id = .ok new) :
    (id, new) ∈ ids := by
  unfold copyOf at h
  split at h
  · rename_i found hfound
    obtain rfl := Except.ok.inj h
    obtain ⟨l₁, l₂, rfl, -⟩ := List.lookup_eq_some_iff.1 hfound
    exact List.mem_append_right _ List.mem_cons_self
  · cases h

namespace Copying

/-! ### What holds of a copy in progress -/

/-- The two lists are right about the store, which is sound. -/
structure IsFaithful (k : Copying) : Prop where
  sound : k.store.IsSound
  /-- A copied node and its copy are there and of one kind. -/
  nodes : ∀ x ∈ k.nodeIds, ∃ n ∈ k.store.nodes, ∃ m ∈ k.store.nodes,
    n.id = x.1 ∧ m.id = x.2 ∧ m.kind = n.kind
  /-- No node has two copies, and no two nodes have one. -/
  paired : ∀ x ∈ k.nodeIds, ∀ y ∈ k.nodeIds, x.1 = y.1 ↔ x.2 = y.2
  /-- No copy is copied. -/
  apart : ∀ x ∈ k.nodeIds, ∀ y ∈ k.nodeIds, x.1 ≠ y.2
  /-- What lies below a copy are copies of what lies below the node. -/
  children : ∀ x ∈ k.nodeIds, ∀ m ∈ k.store.nodes, m.parent = some x.2 →
    ∃ n ∈ k.store.nodes, (n.id, m.id) ∈ k.nodeIds ∧ n.parent = some x.1 ∧ m.kind = n.kind ∧
      m.name = n.name ∧ m.draft = n.draft
  /-- The copy of a variable belongs to the copy of its configuration. -/
  pvs : ∀ x ∈ k.pvIds, ∃ p ∈ k.store.pvs, ∃ q ∈ k.store.pvs,
    p.id = x.1 ∧ q.id = x.2 ∧ (p.config, q.config) ∈ k.nodeIds
  /-- No two variables have one copy. -/
  pvsApart : ∀ x ∈ k.pvIds, ∀ y ∈ k.pvIds, x.2 = y.2 → x.1 = y.1

/-- Whether a node can be copied next, as a child of `parent` and under a name. -/
structure MayCopy (k : Copying) (old : Node) (parent : Id) (name : String) : Prop where
  mem : old ∈ k.store.nodes
  /-- It is not copied yet, nor a copy. -/
  new : ∀ x ∈ k.nodeIds, x.1 ≠ old.id ∧ x.2 ≠ old.id
  holder : ∃ p ∈ k.store.nodes, p.id = parent ∧ p.kind.mayHold old.kind
  named : old.draft = false → IsName name
  /-- It goes below the copy of its parent, or it is where the copying starts. -/
  place : (∃ a, old.parent = some a ∧ (a, parent) ∈ k.nodeIds ∧ name = old.name) ∨
    (old.kind ≠ .snapshot ∧ ∀ x ∈ k.nodeIds, x.2 ≠ parent)

/-! ### The copy of a node -/

section

variable {k : Copying} {old m : Node} {parent : Id} {name : String} {t : Store}

/-- A copy suits the store that it can be added to. -/
theorem MayCopy.edit (hk : k.IsFaithful) (h : k.MayCopy old parent name)
    (hinsert : k.store.insertNode m = .ok t) (hp : m.parent = some parent) (hname : m.name = name)
    (hcontent : m.content = old.content) (hdraft : m.draft = old.draft) : k.store.Edit t := by
  obtain ⟨hid, hfree, -, rfl⟩ := insertNode_eq_ok_iff.1 hinsert
  obtain ⟨p, hpmem, rfl, hholds⟩ := h.holder
  have hk' : m.kind = old.kind := congrArg Content.kind hcontent
  refine .addNode hpmem hp (hk' ▸ hholds) hid ⟨?_, ?_, fun hd o ho hne => ?_⟩
  · rw [hdraft, hcontent, hk.sound.named.drafts old h.mem]
  · rw [hdraft, hname]
    exact h.named
  · have hsibling := sibling?_isNone_iff.1 (hfree.resolve_left (by simp [hd])) o ho
    exact hk.sound.tree.name_ne (by simp [hp]) ho hne hsibling

/-- The identifiers in the list are those of nodes. -/
theorem IsFaithful.listed_ne (hk : k.IsFaithful) {id : Id} (hid : k.store.hasNode id = false) :
    ∀ x ∈ k.nodeIds, x.1 ≠ id ∧ x.2 ≠ id := by
  intro x hx
  obtain ⟨n, hn, n', hn', hn₁, hn₂, -⟩ := hk.nodes x hx
  exact ⟨hn₁ ▸ not_mem_of_hasNode_eq_false hid hn, hn₂ ▸ not_mem_of_hasNode_eq_false hid hn'⟩

/-- Adding the copy of a node keeps the lists faithful. -/
theorem IsFaithful.copyNode (hk : k.IsFaithful) (h : k.MayCopy old parent name)
    (hinsert : k.store.insertNode m = .ok t) (hp : m.parent = some parent) (hname : m.name = name)
    (hcontent : m.content = old.content) (hdraft : m.draft = old.draft) (used : Nat) :
    IsFaithful ⟨t, used, (old.id, m.id) :: k.nodeIds, k.pvIds⟩ := by
  have hedit := h.edit hk hinsert hp hname hcontent hdraft
  obtain ⟨hid, -, -, rfl⟩ := insertNode_eq_ok_iff.1 hinsert
  have hlisted := hk.listed_ne hid
  have hnew : ∀ {o : Node}, o ∈ k.store.nodes → o.id ≠ m.id :=
    fun ho => not_mem_of_hasNode_eq_false hid ho
  have hold : ∀ {o : Node}, o ∈ k.store.nodes → o ∈ k.store.nodes ++ [m] :=
    fun ho => List.mem_append_left _ ho
  have hm : m ∈ k.store.nodes ++ [m] := List.mem_append_right _ List.mem_cons_self
  have hkind : m.kind = old.kind := congrArg Content.kind hcontent
  constructor
  case sound => exact hk.sound.edit hedit
  case pvsApart => exact hk.pvsApart
  case nodes =>
    intro x hx
    rcases List.mem_cons.1 hx with rfl | hx
    · exact ⟨old, hold h.mem, m, hm, rfl, rfl, hkind⟩
    · obtain ⟨n, hn, n', hn', hrest⟩ := hk.nodes x hx
      exact ⟨n, hold hn, n', hold hn', hrest⟩
  case paired =>
    intro x hx y hy
    rcases List.mem_cons.1 hx with rfl | hx <;> rcases List.mem_cons.1 hy with rfl | hy
    · exact iff_of_true rfl rfl
    · exact iff_of_false (h.new y hy).1.symm (hlisted y hy).2.symm
    · exact iff_of_false (h.new x hx).1 (hlisted x hx).2
    · exact hk.paired x hx y hy
  case apart =>
    intro x hx y hy
    rcases List.mem_cons.1 hx with rfl | hx <;> rcases List.mem_cons.1 hy with rfl | hy
    · exact hnew h.mem
    · exact (h.new y hy).2.symm
    · exact (hlisted x hx).1
    · exact hk.apart x hx y hy
  case children =>
    intro x hx n hn hnp
    obtain ⟨p, hpmem, hpid, -⟩ := h.holder
    rcases List.mem_cons.1 hx with rfl | hx' <;> rcases List.mem_append.1 hn with hn | hn
    · -- No node was below the copy before it was there.
      obtain ⟨q, hq, hqid, -⟩ := hk.sound.tree.contained n hn _ hnp
      exact absurd hqid (hnew hq)
    · -- Nor does the copy lie below itself.
      rw [List.mem_singleton.1 hn, hp] at hnp
      exact absurd (hpid.trans (Option.some.inj hnp)) (hnew hpmem)
    · obtain ⟨o, ho, hlist, hrest⟩ := hk.children x hx' n hn hnp
      exact ⟨o, hold ho, List.mem_cons_of_mem _ hlist, hrest⟩
    · obtain rfl := List.mem_singleton.1 hn
      obtain rfl := Option.some.inj (hp.symm.trans hnp)
      rcases h.place with ⟨a, hoa, ha, rfl⟩ | ⟨-, htop⟩
      · have he : x.1 = a := (hk.paired x hx' _ ha).2 rfl
        exact ⟨old, hold h.mem, List.mem_cons_self, he ▸ hoa, hkind, hname, hdraft⟩
      · exact absurd rfl (htop x hx')
  case pvs =>
    intro x hx
    obtain ⟨p, hpmem, q, hq, hp₁, hq₁, hlist⟩ := hk.pvs x hx
    exact ⟨p, hpmem, q, hq, hp₁, hq₁, List.mem_cons_of_mem _ hlist⟩

end

/-! ### What belongs to it -/

/-- What filling a copy changes: it gets variables, items and tags. -/
structure Fills (new : Id) (k k' : Copying) : Prop where
  faithful : k'.IsFaithful
  edits : k.store.Edits k'.store
  nodes : k'.store.nodes = k.store.nodes
  nodeIds : k'.nodeIds = k.nodeIds
  pvs : k.store.pvs ⊆ k'.store.pvs
  pvsNew : ∀ p ∈ k'.store.pvs, p ∈ k.store.pvs ∨ p.config = new
  pvIds : k.pvIds ⊆ k'.pvIds

/-- Doing nothing fills a copy. -/
theorem Fills.refl {k : Copying} (hk : k.IsFaithful) (new : Id) : Fills new k k :=
  ⟨hk, .refl, rfl, rfl, List.Subset.refl _, fun _ => .inl, List.Subset.refl _⟩

/-- A copy can be filled in two steps. -/
theorem Fills.trans {new : Id} {k₁ k₂ k₃ : Copying} (h : Fills new k₁ k₂) (h' : Fills new k₂ k₃) :
    Fills new k₁ k₃ where
  faithful := h'.faithful
  edits := h.edits.trans h'.edits
  nodes := h'.nodes.trans h.nodes
  nodeIds := h'.nodeIds.trans h.nodeIds
  pvs := List.Subset.trans h.pvs h'.pvs
  pvsNew p hp := (h'.pvsNew p hp).elim (h.pvsNew p) .inr
  pvIds := List.Subset.trans h.pvIds h'.pvIds

/-- The copy of a variable belongs to the copy of its configuration. -/
theorem IsFaithful.copyPv {k : Copying} (hk : k.IsFaithful) {old new id : Id}
    (hpair : (old, new) ∈ k.nodeIds) {pv : Pv} (hpv : pv ∈ k.store.pvs) (hold : pv.config = old)
    {t : Store} (hinsert : k.store.insertPv { pv with id, config := new } = .ok t) (used : Nat) :
    Fills new k ⟨t, used, k.nodeIds, (pv.id, id) :: k.pvIds⟩ := by
  obtain ⟨n, hn, m, hm, hnid, hmid, hmk⟩ := hk.nodes _ hpair
  obtain ⟨c, hc, hcid, hck⟩ := hk.sound.owned.pvOwner pv hpv
  obtain rfl := eq_of_id_eq hk.sound.tree.nodup hc hn (by rw [hcid, hold, hnid])
  obtain ⟨hedit, hnodes⟩ := insertPv_edit hinsert hm hmid (hmk.trans hck)
    (hk.sound.owned.pvName pv hpv)
  obtain ⟨hid, -, -, rfl⟩ := insertPv_eq_ok_iff.1 hinsert
  have hnew := pv?_isNone_iff.1 hid
  have hlisted : ∀ x ∈ k.pvIds, x.2 ≠ id := by
    intro x hx
    obtain ⟨p, hp, q, hq, -, hqid, -⟩ := hk.pvs x hx
    exact hqid ▸ hnew q hq
  refine ⟨⟨hk.sound.edit hedit, hk.nodes, hk.paired, hk.apart, hk.children, fun x hx => ?_,
    fun x hx y hy he => ?_⟩, .single hedit, rfl, rfl, fun p hp => List.mem_append_left _ hp,
    fun p hp => ?_, fun x hx => List.mem_cons_of_mem _ hx⟩
  · rcases List.mem_cons.1 hx with rfl | hx
    · exact ⟨pv, List.mem_append_left _ hpv, _, List.mem_append_right _ List.mem_cons_self, rfl,
        rfl, hold ▸ hpair⟩
    · obtain ⟨p, hp, q, hq, hrest⟩ := hk.pvs x hx
      exact ⟨p, List.mem_append_left _ hp, q, List.mem_append_left _ hq, hrest⟩
  · rcases List.mem_cons.1 hx with rfl | hx <;> rcases List.mem_cons.1 hy with rfl | hy
    · rfl
    · exact absurd he.symm (hlisted y hy)
    · exact absurd he (hlisted x hx)
    · exact hk.pvsApart x hx y hy he
  · rcases List.mem_append.1 hp with hp | hp
    · exact .inl hp
    · exact .inr (by rw [List.mem_singleton.1 hp])

/-- Copying the variables of a node fills its copy, and lists them all. -/
theorem addPvs_fills {c : Context} {old new : Id} {pvs : List Pv} {k k' : Copying}
    (hk : k.IsFaithful) (hpair : (old, new) ∈ k.nodeIds)
    (hpvs : ∀ pv ∈ pvs, pv ∈ k.store.pvs ∧ pv.config = old)
    (h : addPvs c new pvs k = .ok k') :
    Fills new k k' ∧ ∀ pv ∈ pvs, ∃ w, (pv.id, w) ∈ k'.pvIds := by
  induction pvs generalizing k with
  | nil =>
    obtain rfl := Except.ok.inj h
    exact ⟨.refl hk new, by simp⟩
  | cons pv pvs ih =>
    obtain ⟨t, hinsert, h⟩ := bind_eq_ok_iff.1 h
    obtain ⟨hpv, hold⟩ := hpvs pv List.mem_cons_self
    have hfirst := hk.copyPv hpair hpv hold hinsert (k.used + 1)
    obtain ⟨hrest, hcopied⟩ := ih hfirst.faithful hpair (fun q hq =>
      ⟨hfirst.pvs (hpvs q (List.mem_cons_of_mem _ hq)).1,
        (hpvs q (List.mem_cons_of_mem _ hq)).2⟩) h
    refine ⟨hfirst.trans hrest, fun q hq => ?_⟩
    rcases List.mem_cons.1 hq with rfl | hq
    · exact ⟨_, hrest.pvIds List.mem_cons_self⟩
    · exact hcopied q hq

/-- Edits that leave nodes and variables alone keep the lists faithful. -/
theorem IsFaithful.fills_of_edit {k : Copying} (hk : k.IsFaithful) {t : Store} (e : k.store.Edit t)
    (hnodes : t.nodes = k.store.nodes) (hpvs : t.pvs = k.store.pvs) (new : Id) :
    Fills new k { k with store := t } := by
  obtain ⟨⟨nodes, pvs, items, tags⟩, used, nodeIds, pvIds⟩ := k
  obtain ⟨nodes', pvs', items', tags'⟩ := t
  obtain rfl : nodes' = nodes := hnodes
  obtain rfl : pvs' = pvs := hpvs
  exact ⟨⟨hk.sound.edit e, hk.nodes, hk.paired, hk.apart, hk.children, hk.pvs, hk.pvsApart⟩,
    .single e, rfl, rfl, List.Subset.refl _, fun _ => .inl, List.Subset.refl _⟩

/-- An item of a copied snapshot refers to a variable of the copied configuration. -/
theorem addItems_fills {m : Node} {parent : Id} (hp : m.parent = some parent) {items : List Item}
    {k k' : Copying} (hk : k.IsFaithful) (hm : m ∈ k.store.nodes)
    (hitems : ∀ item ∈ items, m.kind = .snapshot ∧
      ∃ pv ∈ k.store.pvs, pv.id = item.pv ∧ (pv.config, parent) ∈ k.nodeIds)
    (h : addItems m.id items k = .ok k') : Fills m.id k k' := by
  induction items generalizing k with
  | nil =>
    obtain rfl := Except.ok.inj h
    exact .refl hk m.id
  | cons item items ih =>
    obtain ⟨w, hw, h⟩ := bind_eq_ok_iff.1 h
    obtain ⟨t, hinsert, h⟩ := bind_eq_ok_iff.1 h
    obtain ⟨hkind, pv, hpv, hpvid, hconfig⟩ := hitems item List.mem_cons_self
    obtain ⟨p, hpmem, q, hq, hpid, hqid, hpair⟩ := hk.pvs _ (copyOf_eq_ok hw)
    obtain rfl := pv_eq_of_id_eq hk.sound.owned.pvIds hpmem hpv (hpid.trans hpvid.symm)
    have hparent : parent = q.config := (hk.paired _ hconfig _ hpair).1 rfl
    obtain ⟨hnew, -, rfl⟩ := insertItem_eq_ok_iff.1 hinsert
    have hedit : k.store.Edit { k.store with
        items := k.store.items ++ [{ item with snapshot := m.id, pv := w }] } :=
      .addItem hm ⟨rfl, hkind, q, hq, hqid, hparent ▸ hp⟩ fun i hi => by
        simpa using List.all_eq_true.1 hnew i hi
    have hfirst := hk.fills_of_edit hedit rfl rfl m.id
    exact hfirst.trans (ih hfirst.faithful hm
      (fun i hi => hitems i (List.mem_cons_of_mem _ hi)) h)

/-- Copying the tags of a committed snapshot fills its copy. -/
theorem addTags_fills {m : Node} {tags : List Tag} {k k' : Copying} (hk : k.IsFaithful)
    (hm : m ∈ k.store.nodes) (htags : tags ≠ [] → m.kind = .snapshot ∧ m.draft = false)
    (h : addTags m.id tags k = .ok k') : Fills m.id k k' := by
  induction tags generalizing k with
  | nil =>
    obtain rfl := Except.ok.inj h
    exact .refl hk m.id
  | cons tag tags ih =>
    obtain ⟨t, hinsert, h⟩ := bind_eq_ok_iff.1 h
    obtain ⟨hkind, hdraft⟩ := htags (by simp)
    obtain ⟨hnew, -, rfl⟩ := insertTag_eq_ok_iff.1 hinsert
    have hedit : k.store.Edit { k.store with
        tags := k.store.tags ++ [{ tag with snapshot := m.id }] } :=
      .addTag hm rfl hkind hdraft fun u hu => by simpa using List.all_eq_true.1 hnew u hu
    have hfirst := hk.fills_of_edit hedit rfl rfl m.id
    exact hfirst.trans (ih hfirst.faithful hm (fun _ => ⟨hkind, hdraft⟩) h)

/-- What belongs to a node belongs to its copy in the end. -/
theorem addContents_fills {c : Context} {o m : Node} {parent : Id} {k k' : Copying}
    (hk : k.IsFaithful) (ho : o ∈ k.store.nodes) (hm : m ∈ k.store.nodes)
    (hpair : (o.id, m.id) ∈ k.nodeIds) (hkind : m.kind = o.kind) (hdraft : m.draft = o.draft)
    (hp : m.parent = some parent)
    (hplace : o.kind = .snapshot → ∃ a, o.parent = some a ∧ (a, parent) ∈ k.nodeIds)
    (h : addContents c o.id m.id k = .ok k') :
    Fills m.id k k' ∧
      ∀ pv ∈ k.store.pvs, pv.config = o.id → ∃ w, (pv.id, w) ∈ k'.pvIds := by
  have hnode : ∀ {n : Node}, n ∈ k.store.nodes → n.id = o.id → n = o :=
    fun hn he => eq_of_id_eq hk.sound.tree.nodup hn ho he
  obtain ⟨k₁, hpvs, h⟩ := bind_eq_ok_iff.1 h
  obtain ⟨k₂, hitems, htags⟩ := bind_eq_ok_iff.1 h
  obtain ⟨h₁, hcopied⟩ := addPvs_fills hk hpair (fun pv hpv => mem_pvsOf_iff.1 hpv) hpvs
  have h₂ : Fills m.id k₁ k₂ := by
    refine addItems_fills hp h₁.faithful (h₁.nodes ▸ hm) (fun item hitem => ?_) hitems
    obtain ⟨hitem, hsnapshot⟩ := mem_itemsOf_iff.1 hitem
    obtain ⟨n, hn, hid, hnk, pv, hpv, hpvid, hnp⟩ := hk.sound.owned.itemOwner item hitem
    obtain rfl := hnode hn (hid.trans hsnapshot)
    obtain ⟨a, ha, hlist⟩ := hplace hnk
    obtain rfl := Option.some.inj (hnp.symm.trans ha)
    exact ⟨hkind.trans hnk, pv, h₁.pvs hpv, hpvid, h₁.nodeIds ▸ hlist⟩
  have h₃ : Fills m.id k₂ k' := by
    refine addTags_fills h₂.faithful (h₂.nodes ▸ h₁.nodes ▸ hm) (fun hne => ?_) htags
    obtain ⟨tag, htag⟩ := List.exists_mem_of_ne_nil _ hne
    rw [List.mem_mergeSort, List.mem_filter, decide_eq_true_eq] at htag
    obtain ⟨n, hn, hid, hnk, hnd⟩ := hk.sound.owned.tagOwner tag htag.1
    obtain rfl := hnode hn (hid.trans htag.2)
    exact ⟨hkind.trans hnk, hdraft.trans hnd⟩
  refine ⟨h₁.trans (h₂.trans h₃), fun pv hpv hconfig => ?_⟩
  obtain ⟨w, hw⟩ := hcopied pv (mem_pvsOf_iff.2 ⟨hpv, hconfig⟩)
  exact ⟨w, h₃.pvIds (h₂.pvIds hw)⟩

/-! ### A node with what belongs to it -/

/-- A node is copied: it has a copy below `parent`, and what was there still is. -/
structure Copies (old : Node) (parent : Id) (name : String) (k k' : Copying) : Prop where
  faithful : k'.IsFaithful
  edits : k.store.Edits k'.store
  node : ∃ m : Node, k'.store.nodes = k.store.nodes ++ [m] ∧ k.store.hasNode m.id = false ∧
    k'.nodeIds = (old.id, m.id) :: k.nodeIds ∧ m.parent = some parent ∧ m.kind = old.kind ∧
    m.name = name
  pvs : ∀ p ∈ k'.store.pvs, p ∈ k.store.pvs ∨ k.store.hasNode p.config = false
  pvIds : k.pvIds ⊆ k'.pvIds
  /-- All variables of the node are copied. -/
  pvsCopied : ∀ p ∈ k.store.pvs, p.config = old.id → ∃ w, (p.id, w) ∈ k'.pvIds

/-- Adding the copy of a node and filling it is a run of edits. -/
theorem addNode_copies {c : Context} {user : Option String} {old : Node} {parent : Id}
    {name : String} {position : Nat} {k k' : Copying} (hk : k.IsFaithful)
    (hmay : k.MayCopy old parent name) (h : addNode c user old parent name position k = .ok k') :
    Copies old parent name k k' := by
  obtain ⟨author, -, h⟩ := bind_eq_ok_iff.1 h
  obtain ⟨t, hinsert, h⟩ := bind_eq_ok_iff.1 h
  have hedit := hmay.edit hk hinsert rfl rfl rfl rfl
  have hfaithful := hk.copyNode hmay hinsert rfl rfl rfl rfl (k.used + 1)
  obtain ⟨hid, -, -, rfl⟩ := insertNode_eq_ok_iff.1 hinsert
  obtain ⟨hfills, hcopied⟩ := addContents_fills hfaithful (List.mem_append_left _ hmay.mem)
    (List.mem_append_right _ List.mem_cons_self) List.mem_cons_self rfl rfl rfl
    (fun hsnapshot => by
      rcases hmay.place with ⟨a, ha, hlist, -⟩ | ⟨hne, -⟩
      · exact ⟨a, ha, List.mem_cons_of_mem _ hlist⟩
      · exact absurd hsnapshot hne) h
  refine ⟨hfills.faithful, .head hedit hfills.edits,
    ⟨_, hfills.nodes, hid, hfills.nodeIds, rfl, rfl, rfl⟩, fun p hp => ?_, hfills.pvIds, hcopied⟩
  rcases hfills.pvsNew p hp with hp | hconfig
  · exact .inl hp
  · exact .inr (hconfig ▸ hid)

end Copying

end SnapshotArchive
