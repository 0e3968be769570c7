import SnapshotArchive.Store.Basic

/-!
# Changes to the tables

The single changes that operations are made of. Each keeps the rules of the tables or fails: no two
records share a unique key, and every record refers to records that exist. A deletion takes with it
what refers to the deleted record.

* `Store.insertNode_eq_ok_iff` : when a node can be added, and what results.
-/

namespace SnapshotArchive

namespace Store

/-! ### Adding records -/

/-- Adds a node. -/
def insertNode (s : Store) (n : Node) : Except Failure Store := do
  ensure (s.hasNode n.id = false) (.collision .nodeId)
  ensure (n.draft ∨ (s.sibling? n.parent n.kind n.name).isNone) (.collision .siblingName)
  demand (n.parent.all s.hasNode) .danglingReference
  return { s with nodes := s.nodes ++ [n] }

/-- Adds a variable. -/
def insertPv (s : Store) (pv : Pv) : Except Failure Store := do
  ensure ((s.pv? pv.id).isNone) (.collision .pvId)
  ensure (pv.active = false ∨ (s.activePv? pv.config pv.name).isNone) (.collision .pvName)
  demand (s.hasNode pv.config) .danglingReference
  return { s with pvs := s.pvs ++ [pv] }

/-- Adds an item. -/
def insertItem (s : Store) (item : Item) : Except Failure Store := do
  ensure (s.items.all fun i => i.snapshot ≠ item.snapshot || i.pv ≠ item.pv)
    (.collision .itemPv)
  demand (s.hasNode item.snapshot ∧ (s.pv? item.pv).isSome) .danglingReference
  return { s with items := s.items ++ [item] }

/-- Adds a tag. -/
def insertTag (s : Store) (tag : Tag) : Except Failure Store := do
  ensure (s.tags.all fun t => t.snapshot ≠ tag.snapshot || t.name ≠ tag.name)
    (.collision .tagName)
  demand (s.hasNode tag.snapshot) .danglingReference
  return { s with tags := s.tags ++ [tag] }

/-- When a node can be stored: its identifier is new, its name is free unless it is a draft, and its
parent is there. -/
theorem insertNode_eq_ok_iff {s t : Store} {n : Node} :
    s.insertNode n = .ok t ↔
      s.hasNode n.id = false ∧ (n.draft ∨ (s.sibling? n.parent n.kind n.name).isNone) ∧
        n.parent.all s.hasNode ∧ { s with nodes := s.nodes ++ [n] } = t := by
  simp only [insertNode, demand_bind_eq_ok_iff, pure, Except.pure, Except.ok.injEq]

/-- When a variable can be stored: its identifier is new, its name is free unless it is retired, and
its configuration is there. -/
theorem insertPv_eq_ok_iff {s t : Store} {pv : Pv} :
    s.insertPv pv = .ok t ↔
      (s.pv? pv.id).isNone ∧ (pv.active = false ∨ (s.activePv? pv.config pv.name).isNone) ∧
        s.hasNode pv.config ∧ { s with pvs := s.pvs ++ [pv] } = t := by
  simp only [insertPv, demand_bind_eq_ok_iff, pure, Except.pure, Except.ok.injEq]

/-- When an item can be stored: the snapshot has no other for the variable, and both are there. -/
theorem insertItem_eq_ok_iff {s t : Store} {item : Item} :
    s.insertItem item = .ok t ↔
      (s.items.all fun i => i.snapshot ≠ item.snapshot || i.pv ≠ item.pv) ∧
        (s.hasNode item.snapshot ∧ (s.pv? item.pv).isSome) ∧
        { s with items := s.items ++ [item] } = t := by
  simp only [insertItem, demand_bind_eq_ok_iff, pure, Except.pure, Except.ok.injEq]

/-- When a tag can be stored: the snapshot has no other of its name, and is there. -/
theorem insertTag_eq_ok_iff {s t : Store} {tag : Tag} :
    s.insertTag tag = .ok t ↔
      (s.tags.all fun u => u.snapshot ≠ tag.snapshot || u.name ≠ tag.name) ∧
        s.hasNode tag.snapshot ∧ { s with tags := s.tags ++ [tag] } = t := by
  simp only [insertTag, demand_bind_eq_ok_iff, pure, Except.pure, Except.ok.injEq]

/-! ### Changing records -/

/-- Changes a node in fields that no rule of the tables looks at. -/
def mapNode (s : Store) (id : Id) (f : Node → Node) : Store :=
  { s with nodes := s.nodes.map fun n => if n.id = id then f n else n }

/-- Changes a node. -/
def changeNode (s : Store) (id : Id) (f : Node → Node) : Except Failure Store :=
  match s.node? id with
  | none => .ok s
  | some n => do
    let m := f n
    ensure (m.draft ∨ s.nodes.all fun o => o.id = id || !holdsName m.parent m.kind m.name o)
      (.collision .siblingName)
    demand (m.parent = n.parent ∨ m.parent.all s.hasNode) .danglingReference
    return s.mapNode id f

/-- Changes a variable in fields that no rule of the tables looks at. -/
def mapPv (s : Store) (id : Id) (f : Pv → Pv) : Store :=
  { s with pvs := s.pvs.map fun pv => if pv.id = id then f pv else pv }

/-- Changes a variable. -/
def changePv (s : Store) (id : Id) (f : Pv → Pv) : Except Failure Store :=
  match s.pv? id with
  | none => .ok s
  | some pv => do
    let new := f pv
    ensure (new.active = false ∨ s.pvs.all fun o =>
        o.id = id || o.config ≠ new.config || o.name ≠ new.name || !o.active)
      (.collision .pvName)
    return s.mapPv id f

/-! ### Deleting records -/

/-- Deletes nodes, and with them their variables, items and tags, and the items of those
variables. -/
def removeNodes (s : Store) (ids : List Id) : Store where
  nodes := s.nodes.filter (·.id ∉ ids)
  pvs := s.pvs.filter (·.config ∉ ids)
  items := s.items.filter fun i =>
    i.snapshot ∉ ids && !s.pvs.any fun pv => pv.id = i.pv && pv.config ∈ ids
  tags := s.tags.filter (·.snapshot ∉ ids)

/-- Deletes a variable, and with it its items. -/
def removePv (s : Store) (id : Id) : Store :=
  { s with pvs := s.pvs.filter (·.id ≠ id), items := s.items.filter (·.pv ≠ id) }

/-- Deletes the items of a snapshot. -/
def removeItemsOf (s : Store) (snapshot : Id) : Store :=
  { s with items := s.items.filter (·.snapshot ≠ snapshot) }

/-- Deletes the tag of a snapshot that has the name. -/
def removeTag (s : Store) (snapshot : Id) (name : String) : Store :=
  { s with tags := s.tags.filter fun t => t.snapshot ≠ snapshot || t.name ≠ name }

end Store

end SnapshotArchive
