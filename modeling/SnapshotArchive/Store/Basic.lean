import SnapshotArchive.Node
import SnapshotArchive.Item

/-!
# The store

The store keeps four tables of records, each in the order in which the records were added: nodes,
process variables, items and tags. The tree is read off the parent links, and order off the
positions.

* `Store.children` : the children of a node in their order.
* `Store.mem_children_iff` : a child is a node that names the parent.
-/

namespace SnapshotArchive

/-- The tables of an archive. -/
structure Store where
  nodes : List Node
  pvs : List Pv
  items : List Item
  tags : List Tag

/-- An item with the variable that it refers to. -/
structure Reading where
  pv : Pv
  item : Item

/-- A configuration with the variables that it lists. -/
structure Configuration where
  node : Node
  pvs : List Pv

/-- A snapshot with its items. -/
structure Snapshot where
  node : Node
  readings : List Reading

/-- The order of children: by position, and then by time of creation. -/
def Node.precedes (a b : Node) : Bool :=
  a.position < b.position || (a.position = b.position && a.created ≤ b.created)

/-- The order of tags: the newest first. -/
def Tag.precedes (a b : Tag) : Bool :=
  b.created ≤ a.created

namespace Store

/-- A store without records. -/
def empty : Store := ⟨[], [], [], []⟩

instance : Inhabited Store := ⟨empty⟩

/-! ### Nodes -/

/-- The node with an identifier. -/
def node? (s : Store) (id : Id) : Option Node :=
  s.nodes.find? (·.id = id)

/-- Whether a node exists. -/
def hasNode (s : Store) (id : Id) : Bool :=
  (s.node? id).isSome

/-- The children of a node in their order. -/
def children (s : Store) (parent : Id) : List Node :=
  (s.nodes.filter (·.parent = some parent)).mergeSort Node.precedes

/-- The identifiers of the children of a node in their order. -/
def childIds (s : Store) (parent : Id) : List Id :=
  (s.children parent).map (·.id)

/-- The position after those of all children of a node. -/
def nextPosition (s : Store) (parent : Id) : Nat :=
  (s.nodes.filter (·.parent = some parent)).foldl (fun top n => max top (n.position + 1)) 0

/-- Whether a node carries a name that its siblings of the same kind must avoid. -/
def holdsName (parent : Option Id) (kind : Kind) (name : String) (n : Node) : Bool :=
  n.parent.isSome && n.parent = parent && n.kind = kind && n.name = name && !n.draft

/-- The child of a node that has the given kind and name and is not a draft. -/
def sibling? (s : Store) (parent : Option Id) (kind : Kind) (name : String) : Option Node :=
  s.nodes.find? (holdsName parent kind name)

/-! ### Variables, items and tags -/

/-- The variable with an identifier. -/
def pv? (s : Store) (id : Id) : Option Pv :=
  s.pvs.find? (·.id = id)

/-- The variables of a configuration, retired ones too, by position. -/
def pvsOf (s : Store) (config : Id) : List Pv :=
  (s.pvs.filter (·.config = config)).mergeSort (·.position ≤ ·.position)

/-- The variables that a configuration lists, by position. -/
def activePvs (s : Store) (config : Id) : List Pv :=
  (s.pvsOf config).filter (·.active)

/-- The active variable of a configuration that has the name. -/
def activePv? (s : Store) (config : Id) (name : String) : Option Pv :=
  s.pvs.find? fun pv => pv.config = config && pv.name = name && pv.active

/-- The items of a snapshot by position. -/
def itemsOf (s : Store) (snapshot : Id) : List Item :=
  (s.items.filter (·.snapshot = snapshot)).mergeSort (·.position ≤ ·.position)

/-- The items of a snapshot with their variables, by position. -/
def readings (s : Store) (snapshot : Id) : List Reading :=
  (s.itemsOf snapshot).filterMap fun item => (s.pv? item.pv).map (⟨·, item⟩)

/-- The tags of a snapshot, the newest first, and of equally old ones the last added. -/
def tagsOf (s : Store) (snapshot : Id) : List Tag :=
  (s.tags.filter (·.snapshot = snapshot)).reverse.mergeSort Tag.precedes

/-- All tags, the newest first, and of equally old ones the last added. -/
def allTags (s : Store) : List Tag :=
  s.tags.reverse.mergeSort Tag.precedes

/-! ### What the views hold -/

/-- The node that is found under an identifier is stored and has it. -/
theorem node?_eq_some {s : Store} {id : Id} {n : Node} (h : s.node? id = some n) :
    n ∈ s.nodes ∧ n.id = id :=
  ⟨List.mem_of_find?_eq_some h, by simpa using List.find?_some h⟩

/-- There is a node under an identifier exactly if a stored one has it. -/
@[simp] theorem hasNode_iff {s : Store} {id : Id} : s.hasNode id ↔ ∃ n ∈ s.nodes, n.id = id := by
  simp [hasNode, node?]

/-- The children of a node are the stored nodes whose parent it is. -/
@[simp] theorem mem_children_iff {s : Store} {parent : Id} {n : Node} :
    n ∈ s.children parent ↔ n ∈ s.nodes ∧ n.parent = some parent := by
  simp [children, List.mem_mergeSort]

/-- The variables of a configuration are the stored ones that name it, retired ones too. -/
@[simp] theorem mem_pvsOf_iff {s : Store} {config : Id} {pv : Pv} :
    pv ∈ s.pvsOf config ↔ pv ∈ s.pvs ∧ pv.config = config := by
  simp [pvsOf, List.mem_mergeSort]

/-- The variables that a configuration lists are those of it that are not retired. -/
@[simp] theorem mem_activePvs_iff {s : Store} {config : Id} {pv : Pv} :
    pv ∈ s.activePvs config ↔ pv ∈ s.pvs ∧ pv.config = config ∧ pv.active := by
  simp [activePvs, and_assoc]

/-- The items of a snapshot are the stored ones that name it. -/
@[simp] theorem mem_itemsOf_iff {s : Store} {snapshot : Id} {item : Item} :
    item ∈ s.itemsOf snapshot ↔ item ∈ s.items ∧ item.snapshot = snapshot := by
  simp [itemsOf, List.mem_mergeSort]

/-- The tags of a snapshot are the stored ones that name it. -/
@[simp] theorem mem_tagsOf_iff {s : Store} {snapshot : Id} {tag : Tag} :
    tag ∈ s.tagsOf snapshot ↔ tag ∈ s.tags ∧ tag.snapshot = snapshot := by
  simp [tagsOf, List.mem_mergeSort]

/-- The listing of all tags has those that are stored. -/
@[simp] theorem mem_allTags_iff {s : Store} {tag : Tag} : tag ∈ s.allTags ↔ tag ∈ s.tags := by
  simp [allTags, List.mem_mergeSort]

end Store

end SnapshotArchive
