import SnapshotArchive.Record

/-!
# Outlines

The tree below a node as one value, and its two renderings: lines with an indent, and nested
records.
-/

namespace SnapshotArchive

/-- A node with the trees of its children. -/
inductive Tree where
  | node (top : Node) (children : List Tree)

/-- The tree below a node, to a depth. -/
def Store.treeBelow (s : Store) : (depth : Nat) → Node → Tree
  | 0, n => .node n []
  | depth + 1, n => .node n ((s.children n.id).map (s.treeBelow depth))

/-- The tree of an archive. -/
def Store.tree (s : Store) : Except Failure Tree := do
  let root ← s.require rootId
  return s.treeBelow s.nodes.length root

namespace Tree

/-! ### Lines -/

mutual

/-- One line for each node, parents first, indented by depth. -/
def lines (depth : Nat) : Tree → List String
  | node top children =>
    (String.ofList (List.replicate (2 * depth) ' ') ++ top.line) :: linesOf (depth + 1) children

/-- The lines of several trees. -/
def linesOf (depth : Nat) : List Tree → List String
  | [] => []
  | t :: ts => t.lines depth ++ linesOf depth ts

end

/-! ### Records -/

mutual

/-- The record of each node with its children and the fields that `more` adds. -/
def record (more : Node → List (String × Value)) : Tree → Value
  | node top children =>
    top.record.withFields (("children", Value.list (recordsOf more children)) :: more top)

/-- The records of several trees. -/
def recordsOf (more : Node → List (String × Value)) : List Tree → List Value
  | [] => []
  | t :: ts => t.record more :: recordsOf more ts

end

end Tree

/-- What belongs to a node besides its children: variables, or items and tags. -/
def Store.belongings (s : Store) (n : Node) : List (String × Value) :=
  match n.kind with
  | .folder => []
  | .configuration => [("pvs", .list ((s.activePvs n.id).map Pv.record))]
  | .snapshot =>
    [("items", .list ((s.readings n.id).map Reading.record)),
      ("tags", .list ((s.tagsOf n.id).map Tag.record))]

end SnapshotArchive
