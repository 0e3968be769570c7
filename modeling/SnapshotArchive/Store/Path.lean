import SnapshotArchive.Path
import SnapshotArchive.Store.Check

/-!
# Paths in the tree

From a path down to nodes, and from a node up to its path. On the way down every name but the last
is that of a folder; the last may be that of a folder, of a configuration, or of both.

* `Store.descend_cons` : the way down, name by name.
-/

namespace SnapshotArchive

namespace Store

/-! ### Down -/

/-- The children of a node that have a kind and a name. -/
def childrenNamed (s : Store) (parent : Id) (kind : Kind) (name : String) : List Node :=
  (s.children parent).filter fun n => n.kind = kind && n.name = name

/-- The nodes that a way down from a node leads to, folders first. -/
def descend (s : Store) (n : Node) : List String → List Node
  | [] => [n]
  | [name] => s.childrenNamed n.id .folder name ++ s.childrenNamed n.id .configuration name
  | name :: rest =>
    match s.childrenNamed n.id .folder name with
    | child :: _ => s.descend child rest
    | [] => []

/-- The nodes at a path: none, one, or a folder and a configuration. -/
def resolve (s : Store) (path : Option String) : Except Failure (List Node) := do
  let names ← splitPath path
  match s.node? rootId with
  | some root => return s.descend root names
  | none => return []

/-- All names of a path but the last one are names of folders. -/
theorem descend_cons (s : Store) (n : Node) (name next : String) (rest : List String) :
    s.descend n (name :: next :: rest) =
      match s.childrenNamed n.id .folder name with
      | child :: _ => s.descend child (next :: rest)
      | [] => [] := rfl

/-! ### Up -/

/-- The names from the root down to a node; `start` is the node that the way up began at. -/
def namesAbove (s : Store) (start : Id) : (steps : Nat) → (visited : List Id) → Node →
    Except Failure (List String)
  | 0, _, _ => .error (.refused (.parentCycle start))
  | steps + 1, visited, n =>
    match n.parent with
    | none => .ok []
    | some parent => do
      ensure (n.id ∉ visited) (.parentCycle start)
      match s.node? parent with
      | none => throw (.refused (.parentMissing n.id parent))
      | some p =>
        let above ← s.namesAbove start steps (n.id :: visited) p
        return above ++ [n.name]

/-- The path of a node. A draft has none. -/
def fullPath (s : Store) (id : Id) : Except Failure String := do
  let n ← s.require id
  ensure (n.content.isDraft = false) (.draftWithoutPath id)
  let names ← s.namesAbove id (s.nodes.length + 1) [] n
  return joinPath names

end Store

end SnapshotArchive
