import SnapshotArchive.Edit
import SnapshotArchive.Proofs.Tree.Descendants
import SnapshotArchive.Proofs.Ownership

/-!
# Editing nodes is a run of edits

The single changes of `SnapshotArchive.Store.Change` and the steps that operations share are edits,
and from them those operations are that create, update and delete single nodes.

* `Store.addNode_eq_ok` : what adding a node asks for, and what results.
* `Store.changeNode_edit` : changing a node is an edit, if the changed node may stand in its place.
* `createNode_edits`, `updateNode_edits`, `deleteNode_edits` : the operations.
-/

namespace SnapshotArchive

/-- A transaction is made of edits: whenever it succeeds on a sound store, a run of them leads to
the store that it leaves. -/
def Transaction.IsEdits {α : Type} (t : Transaction α) : Prop :=
  ∀ {s s' : Store} {a : α}, s.IsSound → t s = .ok (a, s') → s.Edits s'

/-- A step that is one of two, and then another, succeeds as the two steps do. -/
theorem ite_bind_eq_ok {α β : Type} {p : Prop} [Decidable p] {x y : Except Failure α}
    {k : α → Except Failure β} {b : β} (h : (if p then x >>= k else y >>= k) = .ok b) :
    ∃ a, (if p then x else y) = .ok a ∧ k a = .ok b := by
  refine bind_eq_ok_iff.1 (h ▸ ?_)
  split <;> rfl

namespace Store

/-- An answer with a node is the stored one, and changes nothing. -/
theorem answerNode_eq_ok_iff {s t : Store} {id : Id} {n : Node} :
    s.answerNode id = .ok (n, t) ↔ s.node? id = some n ∧ s = t := by
  simp only [answerNode, bind_eq_ok_iff, require_eq_ok_iff, pure, Except.pure, Except.ok.injEq,
    Prod.mk.injEq]
  constructor
  · rintro ⟨m, hm, rfl, rfl⟩
    exact ⟨hm, rfl⟩
  · rintro ⟨hn, rfl⟩
    exact ⟨n, hn, rfl, rfl⟩

/-- A node that is required to write to it is stored and of the kind. -/
theorem requireToWrite_eq_ok_iff {s : Store} {id : Id} {kind : Kind} {n : Node} :
    s.requireToWrite id kind = .ok n ↔ s.node? id = some n ∧ n.kind = kind := by
  rw [requireToWrite, bind_eq_ok_iff]
  simp only [require_eq_ok_iff, demand_bind_eq_ok_iff, pure, Except.pure, Except.ok.injEq]
  constructor
  · rintro ⟨m, hm, hk, rfl⟩
    exact ⟨hm, hk⟩
  · rintro ⟨hn, hk⟩
    exact ⟨n, hn, hk, rfl⟩

/-! ### Names among siblings -/

/-- What it is to hold a name: a node that is no draft has it, with its kind and its parent. -/
theorem holdsName_iff {parent : Option Id} {kind : Kind} {name : String} {n : Node} :
    holdsName parent kind name n ↔
      n.parent.isSome ∧ n.parent = parent ∧ n.kind = kind ∧ n.name = name ∧ n.draft = false := by
  simp [holdsName, and_assoc]

/-- No sibling is found exactly if nobody holds the name. -/
theorem sibling?_isNone_iff {s : Store} {parent : Option Id} {kind : Kind} {name : String} :
    (s.sibling? parent kind name).isNone ↔ ∀ o ∈ s.nodes, ¬holdsName parent kind name o := by
  simp [sibling?]

/-- Siblings that do not hold a name differ from it: only the root has no parent, and it has no
siblings. -/
theorem IsTree.name_ne {s : Store} (hs : s.IsTree) {m o : Node}
    (hroot : m.parent = none → m.id = rootId) (ho : o ∈ s.nodes) (hne : o.id ≠ m.id)
    (hfree : ¬holdsName m.parent m.kind m.name o) (hd : o.draft = false)
    (hp : o.parent = m.parent) (hk : o.kind = m.kind) : o.name ≠ m.name := by
  intro hname
  cases hm : m.parent with
  | none => exact hne ((hs.onlyRoot o ho (hp.trans hm)).trans (hroot hm).symm)
  | some p => exact hfree (holdsName_iff.2 ⟨by simp [hp, hm], hp, hk, hname, hd⟩)

/-- A node of the store suits it. -/
theorem IsSound.suits {s : Store} (hs : s.IsSound) {n : Node} (hn : n ∈ s.nodes) : s.Suits n where
  draft := hs.named.drafts n hn
  name := hs.named.names n hn
  free hd o ho hne hod hp hk hname :=
    hne (congrArg Node.id (hs.named.siblings o ho n hn hod hd hp hk hname))

/-! ### Adding and changing nodes -/

/-- A node that is added is a child of its parent and suits the store if its name is one. -/
theorem addNode_eq_ok {s t : Store} {c : Context} {id : Id} {parent : Node} {name : String}
    {content : Content} {draft : Bool} {properties : Properties} {user : Option String}
    (h : s.addNode c id parent name content draft properties user = .ok t) :
    ∃ n : Node, t = { s with nodes := s.nodes ++ [n] } ∧ n.id = id ∧ n.parent = some parent.id ∧
      n.name = name ∧ n.content = content ∧ n.draft = draft ∧ parent.kind.mayHold n.kind ∧
      s.hasNode id = false ∧
      (draft = false → ∀ o ∈ s.nodes, ¬holdsName (some parent.id) content.kind name o) := by
  obtain ⟨_, hchild, h⟩ := bind_eq_ok_iff.1 h
  obtain ⟨_, -, h⟩ := ite_bind_eq_ok h
  obtain ⟨author, -, h⟩ := bind_eq_ok_iff.1 h
  obtain ⟨hid, hfree, -, rfl⟩ := insertNode_eq_ok_iff.1 h
  refine ⟨_, rfl, rfl, rfl, rfl, rfl, rfl, demand_eq_ok_iff.1 hchild, hid, fun hd => ?_⟩
  exact sibling?_isNone_iff.1 (hfree.resolve_left (by simp [hd]))

/-- Adding a node below another is an edit, if its name is one and its mark agrees with its
content. -/
theorem addNode_edit {s t : Store} (hs : s.IsSound) {c : Context} {id : Id} {parent : Node}
    {name : String} {content : Content} {draft : Bool} {properties : Properties}
    {user : Option String} (hp : parent ∈ s.nodes) (hd : draft = content.isDraft)
    (hname : draft = false → IsName name)
    (h : s.addNode c id parent name content draft properties user = .ok t) :
    s.Edit t ∧ ∃ n, t = { s with nodes := s.nodes ++ [n] } ∧ n.id = id ∧ n.parent = some parent.id ∧
      n.content = content := by
  obtain ⟨n, rfl, rfl, hparent, rfl, rfl, rfl, hk, hid, hfree⟩ := addNode_eq_ok h
  refine ⟨.addNode hp hparent hk hid ⟨hd, hname, fun hnd o ho hne hod hop hok => ?_⟩,
    n, rfl, rfl, hparent, rfl⟩
  exact hs.tree.name_ne (by simp [hparent]) ho hne (hparent ▸ hfree hnd o ho) hod hop hok

/-- A change that succeeds puts the changed node into its place, and no sibling holds its name. -/
theorem changeNode_eq_ok {s t : Store} (hs : s.IsTree) {n : Node} (hn : n ∈ s.nodes)
    {f : Node → Node} (h : s.changeNode n.id f = .ok t) (hid : (f n).id = n.id) :
    t = s.replaceNode (f n) ∧ ((f n).draft = false → ∀ o ∈ s.nodes, o.id ≠ n.id →
      ¬holdsName (f n).parent (f n).kind (f n).name o) := by
  rw [changeNode, node?_of_mem hs.nodup hn] at h
  simp only [demand_bind_eq_ok_iff, pure, Except.pure, Except.ok.injEq] at h
  obtain ⟨hfree, -, rfl⟩ := h
  refine ⟨mapNode_eq_replaceNode hs.nodup hn hid, fun hd o ho hne => ?_⟩
  have hall := hfree.resolve_left (by simp [hd])
  simpa [hne] using List.all_eq_true.1 hall o ho

/-- A node can be changed if the changed node has a parent and, unless it is a draft, its siblings
have other names. -/
theorem changeNode_ok {s : Store} (hs : s.IsTree) {n : Node} (hn : n ∈ s.nodes) {f : Node → Node}
    (hid : (f n).id = n.id) (hparent : (f n).parent = n.parent ∨ (f n).parent.all s.hasNode)
    (hfree : (f n).draft = false → ∀ o ∈ s.nodes, o.id ≠ n.id →
      ¬holdsName (f n).parent (f n).kind (f n).name o) :
    s.changeNode n.id f = .ok (s.replaceNode (f n)) := by
  rw [changeNode, node?_of_mem hs.nodup hn]
  simp only [demand_bind_eq_ok_iff, pure, Except.pure, Except.ok.injEq]
  refine ⟨?_, hparent, mapNode_eq_replaceNode hs.nodup hn hid⟩
  cases hd : (f n).draft with
  | true => exact .inl rfl
  | false =>
    refine .inr (List.all_eq_true.2 fun o ho => ?_)
    by_cases he : o.id = n.id
    · simp [he]
    · simpa [he] using hfree hd o ho he

/-- Changing a node is an edit, if the changed node may stand in its place. -/
theorem changeNode_edit {s t : Store} (hs : s.IsSound) {n : Node} (hn : n ∈ s.nodes)
    {f : Node → Node} (h : s.changeNode n.id f = .ok t) (hid : (f n).id = n.id)
    (hk : (f n).kind = n.kind) (hdraft : (f n).draft = (f n).content.isDraft)
    (hstays : (f n).draft → n.draft) (hname : (f n).draft = false → IsName (f n).name)
    (hp : (f n).parent = n.parent ∨
      ∃ target, (f n).parent = some target.id ∧ s.MayEnter n target) : s.Edit t := by
  obtain ⟨rfl, hfree⟩ := changeNode_eq_ok hs.tree hn h hid
  refine .changeNode hn hid hk hstays ⟨hdraft, hname, fun hd o ho hne hod hop hok => ?_⟩ hp
  refine hs.tree.name_ne (fun hnone => ?_) ho hne (hfree hd o ho (hid ▸ hne)) hod hop hok
  rcases hp with hp | ⟨target, hp, -⟩
  · exact hid ▸ hs.tree.onlyRoot n hn (hp ▸ hnone)
  · rw [hp] at hnone
    cases hnone

/-- Changing a node that is not there does nothing. -/
theorem mapNode_of_hasNode_eq_false {s : Store} {x : Id} (h : s.hasNode x = false)
    (f : Node → Node) : s.mapNode x f = s := by
  have hsame : s.nodes.map (fun n => if n.id = x then f n else n) = s.nodes.map id :=
    List.map_congr_left fun n hn => if_neg (not_mem_of_hasNode_eq_false h hn)
  rw [mapNode, hsame, List.map_id]

/-- A change that leaves the place, the name and the content of every node alone is an edit. -/
theorem mapNode_edits {s : Store} (hs : s.IsSound) (id : Id) {f : Node → Node}
    (hf : ∀ n, (f n).id = n.id ∧ (f n).parent = n.parent ∧ (f n).name = n.name ∧
      (f n).content = n.content ∧ (f n).draft = n.draft) : s.Edits (s.mapNode id f) := by
  cases hid : s.hasNode id with
  | false => rw [mapNode_of_hasNode_eq_false hid]; exact .refl
  | true =>
    obtain ⟨n, hn, rfl⟩ := hasNode_iff.1 hid
    obtain ⟨hnid, hp, hname, hcontent, hdraft⟩ := hf n
    have hk : (f n).kind = n.kind := congrArg Content.kind hcontent
    obtain ⟨hd, hisName, hfree⟩ := hs.suits hn
    rw [mapNode_eq_replaceNode hs.tree.nodup hn hnid]
    refine .single (.changeNode hn hnid hk (fun hd => hdraft ▸ hd) ⟨?_, ?_, ?_⟩ (.inl hp))
    · rw [hdraft, hcontent, hd]
    · rw [hdraft, hname]
      exact hisName
    · rw [hdraft, hname, hp, hk, hnid]
      exact hfree

/-- Touching a node is a run of edits. -/
theorem touch_edits {s t : Store} (hs : s.IsSound) {c : Context} {id : Id} {user : Option String}
    (h : s.touch c id user = .ok t) : s.Edits t := by
  obtain ⟨author, -, h⟩ := bind_eq_ok_iff.1 h
  obtain rfl := Except.ok.inj h
  exact mapNode_edits hs id fun n => ⟨rfl, rfl, rfl, rfl, rfl⟩

/-! ### Deleting subtrees -/

/-- The root leads to itself alone. -/
theorem IsTree.eq_rootId_of_leadsTo {s : Store} (hs : s.IsTree) {x : Id} (h : s.LeadsTo rootId x) :
    x = rootId := by
  obtain ⟨r, hr, hid, hnone, -⟩ := hs.root
  rcases Relation.ReflTransGen.cases_head h with he | ⟨y, ⟨q, hq, hqid, hqp⟩, -⟩
  · exact he.symm
  · obtain rfl := eq_of_id_eq hs.nodup hq hr (hqid.trans hid.symm)
    rw [hnone] at hqp
    cases hqp

/-- Deleting a subtree is an edit: it takes along whatever lies below a node that it deletes. -/
theorem removeSubtree_edit {s t : Store} (hs : s.IsSound) {n : Node} {count : Nat}
    (h : s.removeSubtree n = .ok (count, t)) : s.Edit t := by
  obtain ⟨hroot, h⟩ := demand_bind_eq_ok_iff.1 h
  obtain ⟨-, rfl⟩ := Prod.mk.inj (Except.ok.inj h)
  have hmem : ∀ {x : Id}, x ∈ s.subtreeIds n.id → s.LeadsTo x n.id := by
    intro x hx
    cases hn : s.node? n.id with
    | none => simp [subtreeIds, subtree, hn] at hx
    | some m =>
      obtain ⟨hm, hid⟩ := node?_eq_some hn
      rw [← hid] at hx ⊢
      exact ((hs.tree.mem_subtreeIds_iff hm).1 hx).2
  refine .removeNodes (fun hr => hroot (hs.tree.eq_rootId_of_leadsTo (hmem hr)))
    fun m hm p hp hmp => ?_
  cases hn : s.node? n.id with
  | none => simp [subtreeIds, subtree, hn] at hp
  | some q =>
    obtain ⟨hq, hid⟩ := node?_eq_some hn
    have hup : s.LeadsTo m.id n.id := .head ⟨m, hm, rfl, hmp⟩ (hmem hp)
    rw [← hid] at hup ⊢
    exact (hs.tree.mem_subtreeIds_iff hq).2 ⟨hasNode_of_mem hm, hup⟩

end Store

/-! ### The operations -/

open Store

/-- Only a snapshot can be a draft. -/
theorem Content.isDraft_of_kind {content : Content} (h : content.kind ≠ .snapshot) :
    content.isDraft = false := by
  cases content with
  | folder => rfl
  | configuration => rfl
  | snapshot => exact absurd rfl h

/-- Creating a node is a run of edits. -/
theorem createNode_edits {c : Context} {parent : Id} {form : NodeForm} {user : Option String}
    {s₀ : Store} {t : Transaction Node} (h : createNode c parent form user s₀ = .ok t) :
    t.IsEdits := by
  obtain ⟨hk, h⟩ := demand_bind_eq_ok_iff.1 h
  obtain ⟨name, hname, h⟩ := bind_eq_ok_iff.1 h
  obtain rfl := Except.ok.inj h
  intro s s' a hs ht
  obtain ⟨p, hp, ht⟩ := bind_eq_ok_iff.1 ht
  obtain ⟨s₁, hadd, ht⟩ := bind_eq_ok_iff.1 ht
  obtain ⟨-, rfl⟩ := answerNode_eq_ok_iff.1 ht
  exact .single (addNode_edit hs (node?_eq_some (require_eq_ok_iff.1 hp)).1
    (Content.isDraft_of_kind hk).symm (fun _ => (checkName_eq_ok_iff.1 hname).2) hadd).1

/-- Updating a node is a run of edits. -/
theorem updateNode_edits {c : Context} {form : NodeForm} {keepTime : Bool} {s₀ : Store}
    {t : Transaction Node} (h : updateNode c form keepTime s₀ = .ok t) : t.IsEdits := by
  obtain ⟨name, hname, h⟩ := bind_eq_ok_iff.1 h
  obtain rfl := Except.ok.inj h
  intro s s' a hs ht
  obtain ⟨n, hn, ht⟩ := bind_eq_ok_iff.1 ht
  obtain ⟨-, ht⟩ := demand_bind_eq_ok_iff.1 ht
  obtain ⟨-, ht⟩ := demand_bind_eq_ok_iff.1 ht
  obtain ⟨-, ht⟩ := demand_bind_eq_ok_iff.1 ht
  obtain ⟨_, -, ht⟩ := bind_eq_ok_iff.1 ht
  obtain ⟨_, -, ht⟩ := ite_bind_eq_ok ht
  obtain ⟨s₁, hchange, ht⟩ := bind_eq_ok_iff.1 ht
  obtain ⟨-, rfl⟩ := answerNode_eq_ok_iff.1 ht
  obtain ⟨hmem, -⟩ := node?_eq_some (require_eq_ok_iff.1 hn)
  exact .single (changeNode_edit hs hmem hchange rfl rfl (hs.named.drafts n hmem) (fun hd => hd)
    (fun _ => (checkName_eq_ok_iff.1 hname).2) (.inl rfl))

/-- Deleting a node is a run of edits. -/
theorem deleteNode_edits {id : Id} {s₀ : Store} {t : Transaction Nat}
    (h : deleteNode id s₀ = .ok t) : t.IsEdits := by
  obtain rfl := Except.ok.inj h
  intro s s' a hs ht
  obtain ⟨n, -, ht⟩ := bind_eq_ok_iff.1 ht
  exact .single (removeSubtree_edit hs ht)

end SnapshotArchive
