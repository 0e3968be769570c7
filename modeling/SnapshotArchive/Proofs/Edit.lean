import SnapshotArchive.Node
import SnapshotArchive.Store.Change
import SnapshotArchive.Proofs.Tree.Basic

/-!
# Edits

Whatever an operation does to the tables it does by edits, each of which adds, changes or deletes
the records of one table and what goes with them. `Store.Edit` lists them with the conditions under
which operations make them; a transaction that succeeds is a run of edits (`Store.Edits`).

What holds of a store and is kept by each edit is then kept by every operation. Three things are:
the nodes form a tree, names are names and siblings differ in them (`Store.IsNamed`), and payload
records have the owners that they must have (`Store.IsOwned`). `Store.IsSound` joins them.
-/

namespace SnapshotArchive

open Text

/-- What can be moved may lie in a folder. -/
theorem Kind.mayHold_of_isMovable {k : Kind} (h : k.isMovable) : folder.mayHold k := by
  revert h
  cases k <;> decide

/-- Snapshots cannot be moved. -/
theorem Kind.ne_snapshot_of_isMovable {k : Kind} (h : k.isMovable) : k ≠ .snapshot := by
  rintro rfl
  cases h

namespace Store

/-! ### What edits keep -/

/-- The names of nodes: of all but drafts they are names, and siblings of a kind differ in them. -/
structure IsNamed (s : Store) : Prop where
  /-- A node is marked as a draft exactly if its content is that of a draft. -/
  drafts : ∀ n ∈ s.nodes, n.draft = n.content.isDraft
  names : ∀ n ∈ s.nodes, n.draft = false → IsName n.name
  siblings : ∀ n ∈ s.nodes, ∀ m ∈ s.nodes, n.draft = false → m.draft = false →
    n.parent = m.parent → n.kind = m.kind → n.name = m.name → n = m

/-- Whether a node is the snapshot of an item and the item's variable is one of its
configuration. -/
def HoldsItem (s : Store) (n : Node) (item : Item) : Prop :=
  n.id = item.snapshot ∧ n.kind = .snapshot ∧
    ∃ pv ∈ s.pvs, pv.id = item.pv ∧ n.parent = some pv.config

/-- The owners of variables, items and tags. -/
structure IsOwned (s : Store) : Prop where
  /-- No two variables have one identifier. -/
  pvIds : (s.pvs.map (·.id)).Nodup
  /-- A variable belongs to a configuration. -/
  pvOwner : ∀ pv ∈ s.pvs, ∃ c ∈ s.nodes, c.id = pv.config ∧ c.kind = .configuration
  pvName : ∀ pv ∈ s.pvs, pv.name ≠ "" ∧ strip pv.name = pv.name
  /-- The active variables of a configuration differ in their names. -/
  activePvs : ∀ p ∈ s.pvs, ∀ q ∈ s.pvs, p.active → q.active → p.config = q.config →
    p.name = q.name → p = q
  /-- An item belongs to a snapshot, and its variable to the configuration of that. -/
  itemOwner : ∀ item ∈ s.items, ∃ n ∈ s.nodes, s.HoldsItem n item
  itemOnce : s.items.Pairwise fun i j => i.snapshot ≠ j.snapshot ∨ i.pv ≠ j.pv
  /-- A tag belongs to a committed snapshot. -/
  tagOwner : ∀ tag ∈ s.tags, ∃ n ∈ s.nodes,
    n.id = tag.snapshot ∧ n.kind = .snapshot ∧ n.draft = false
  tagOnce : s.tags.Pairwise fun t u => t.snapshot ≠ u.snapshot ∨ t.name ≠ u.name

/-- What holds of the tables between operations, and between the edits of an operation. -/
structure IsSound (s : Store) : Prop where
  tree : s.IsTree
  named : s.IsNamed
  owned : s.IsOwned

/-! ### Replacing a record -/

/-- The store with a node in the place of the one that has its identifier. -/
def replaceNode (s : Store) (m : Node) : Store :=
  { s with nodes := s.nodes.map fun n => if n.id = m.id then m else n }

/-- The store with a variable in the place of the one that has its identifier. -/
def replacePv (s : Store) (q : Pv) : Store :=
  { s with pvs := s.pvs.map fun p => if p.id = q.id then q else p }

section

variable {s : Store}

/-- After a replacement there is the new node, if it replaces one, and those with other
identifiers. -/
theorem mem_replaceNode_iff {m o : Node} :
    o ∈ (s.replaceNode m).nodes ↔ (o = m ∧ s.hasNode m.id) ∨ (o ∈ s.nodes ∧ o.id ≠ m.id) := by
  simp only [replaceNode, List.mem_map, hasNode_iff]
  constructor
  · rintro ⟨n, hn, rfl⟩
    split
    · exact .inl ⟨rfl, n, hn, ‹_›⟩
    · exact .inr ⟨hn, ‹_›⟩
  · rintro (⟨rfl, n, hn, he⟩ | ⟨ho, hne⟩)
    · exact ⟨n, hn, if_pos he⟩
    · exact ⟨o, ho, if_neg hne⟩

/-- Replacing a node keeps the identifiers. -/
theorem map_id_replaceNode (m : Node) :
    (s.replaceNode m).nodes.map (·.id) = s.nodes.map (·.id) := by
  simp only [replaceNode, List.map_map]
  refine List.map_congr_left fun n _ => ?_
  by_cases h : n.id = m.id <;> simp [h]

/-- After a replacement there is the new variable, if it replaces one, and those with other
identifiers. -/
theorem mem_replacePv_iff {q o : Pv} :
    o ∈ (s.replacePv q).pvs ↔
      (o = q ∧ ∃ p ∈ s.pvs, p.id = q.id) ∨ (o ∈ s.pvs ∧ o.id ≠ q.id) := by
  simp only [replacePv, List.mem_map]
  constructor
  · rintro ⟨p, hp, rfl⟩
    split
    · exact .inl ⟨rfl, p, hp, ‹_›⟩
    · exact .inr ⟨hp, ‹_›⟩
  · rintro (⟨rfl, p, hp, he⟩ | ⟨ho, hne⟩)
    · exact ⟨p, hp, if_pos he⟩
    · exact ⟨o, ho, if_neg hne⟩

/-- Replacing a variable keeps the identifiers. -/
theorem map_id_replacePv (q : Pv) : (s.replacePv q).pvs.map (·.id) = s.pvs.map (·.id) := by
  simp only [replacePv, List.map_map]
  refine List.map_congr_left fun p _ => ?_
  by_cases h : p.id = q.id <;> simp [h]

/-- A change of the node with an identifier puts the changed node into its place. -/
theorem mapNode_eq_replaceNode (h : (s.nodes.map (·.id)).Nodup) {n : Node} (hn : n ∈ s.nodes)
    {f : Node → Node} (hid : (f n).id = n.id) : s.mapNode n.id f = s.replaceNode (f n) := by
  simp only [mapNode, replaceNode, hid]
  congr 1
  refine List.map_congr_left fun o ho => ?_
  split
  · rw [eq_of_id_eq h ho hn ‹_›]
  · rfl

/-- If identifiers differ, stored variables with one identifier are the same. -/
theorem pv_eq_of_id_eq (h : (s.pvs.map (·.id)).Nodup) {p q : Pv} (hp : p ∈ s.pvs)
    (hq : q ∈ s.pvs) (he : p.id = q.id) : p = q :=
  List.inj_on_of_nodup_map h hp hq he

/-- Changing a variable replaces it. -/
theorem mapPv_eq_replacePv (h : (s.pvs.map (·.id)).Nodup) {p : Pv} (hp : p ∈ s.pvs)
    {f : Pv → Pv} (hid : (f p).id = p.id) : s.mapPv p.id f = s.replacePv (f p) := by
  simp only [mapPv, replacePv, hid]
  congr 1
  refine List.map_congr_left fun o ho => ?_
  split
  · rw [pv_eq_of_id_eq h ho hp ‹_›]
  · rfl

/-- A deletion leaves the nodes that are not among the deleted ones. -/
theorem mem_nodes_removeNodes_iff {ids : List Id} {n : Node} :
    n ∈ (s.removeNodes ids).nodes ↔ n ∈ s.nodes ∧ n.id ∉ ids := by
  simp [removeNodes]

/-- A deletion leaves the variables of the nodes that are not among the deleted ones. -/
theorem mem_pvs_removeNodes_iff {ids : List Id} {pv : Pv} :
    pv ∈ (s.removeNodes ids).pvs ↔ pv ∈ s.pvs ∧ pv.config ∉ ids := by
  simp [removeNodes]

/-- Deleting a variable leaves the others. -/
theorem mem_pvs_removePv_iff {id : Id} {pv : Pv} :
    pv ∈ (s.removePv id).pvs ↔ pv ∈ s.pvs ∧ pv.id ≠ id := by
  simp [removePv]

end

/-! ### The edits -/

/-- Whether the name of a node can stand beside those of its siblings. -/
structure Suits (s : Store) (n : Node) : Prop where
  draft : n.draft = n.content.isDraft
  name : n.draft = false → IsName n.name
  free : n.draft = false → ∀ o ∈ s.nodes, o.id ≠ n.id → o.draft = false → o.parent = n.parent →
    o.kind = n.kind → o.name ≠ n.name

/-- Whether the name of a variable can stand beside those of its configuration. -/
structure SuitsPv (s : Store) (pv : Pv) : Prop where
  name : pv.name ≠ "" ∧ strip pv.name = pv.name
  free : pv.active → ∀ o ∈ s.pvs, o.id ≠ pv.id → o.active → o.config = pv.config →
    o.name ≠ pv.name

/-- Whether a node may come to lie in another: that is a folder, and not below the node. -/
structure MayEnter (s : Store) (n target : Node) : Prop where
  mem : target ∈ s.nodes
  folder : target.kind = .folder
  movable : n.kind.isMovable
  outside : ¬s.LeadsTo target.id n.id

/-- The edits that operations are made of. -/
inductive Edit : Store → Store → Prop
  | addNode {s : Store} {parent n : Node} : parent ∈ s.nodes → n.parent = some parent.id →
    parent.kind.mayHold n.kind → s.hasNode n.id = false → s.Suits n →
    Edit s { s with nodes := s.nodes ++ [n] }
  | changeNode {s : Store} {n m : Node} : n ∈ s.nodes → m.id = n.id → m.kind = n.kind →
    (m.draft → n.draft) → s.Suits m →
    (m.parent = n.parent ∨ ∃ target, m.parent = some target.id ∧ s.MayEnter n target) →
    Edit s (s.replaceNode m)
  | removeNodes {s : Store} {ids : List Id} : rootId ∉ ids →
    (∀ n ∈ s.nodes, ∀ p ∈ ids, n.parent = some p → n.id ∈ ids) → Edit s (s.removeNodes ids)
  | addPv {s : Store} {c : Node} {pv : Pv} : c ∈ s.nodes → c.id = pv.config →
    c.kind = .configuration → (∀ o ∈ s.pvs, o.id ≠ pv.id) → s.SuitsPv pv →
    Edit s { s with pvs := s.pvs ++ [pv] }
  | changePv {s : Store} {p q : Pv} : p ∈ s.pvs → q.id = p.id → q.config = p.config →
    s.SuitsPv q → Edit s (s.replacePv q)
  | removePv {s : Store} (id : Id) : Edit s (s.removePv id)
  | addItem {s : Store} {n : Node} {item : Item} : n ∈ s.nodes → s.HoldsItem n item →
    (∀ i ∈ s.items, i.snapshot ≠ item.snapshot ∨ i.pv ≠ item.pv) →
    Edit s { s with items := s.items ++ [item] }
  | removeItems {s : Store} (p : Item → Bool) : Edit s { s with items := s.items.filter p }
  | addTag {s : Store} {n : Node} {tag : Tag} : n ∈ s.nodes → n.id = tag.snapshot →
    n.kind = .snapshot → n.draft = false →
    (∀ t ∈ s.tags, t.snapshot ≠ tag.snapshot ∨ t.name ≠ tag.name) →
    Edit s { s with tags := s.tags ++ [tag] }
  | removeTags {s : Store} (p : Tag → Bool) : Edit s { s with tags := s.tags.filter p }

/-- A run of edits. -/
def Edits : Store → Store → Prop :=
  Relation.ReflTransGen Edit

end Store

end SnapshotArchive
