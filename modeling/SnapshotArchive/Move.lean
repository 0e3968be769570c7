import SnapshotArchive.Selection
import SnapshotArchive.Edit

/-!
# Moving and batch deletion

A move gives nodes a new parent, after its other children and in the order of the selection; nodes
that are there already stay as they are. A batch deletion removes the subtrees of all selected
nodes. Both refuse if the nodes were moved since the operation was planned.
-/

namespace SnapshotArchive

namespace Store

/-- Gives nodes a new parent, one after the other. -/
def reparent (c : Context) (target : Id) (user : Option String) :
    List Node → Store → Except Failure Store
  | [], s => .ok s
  | n :: ns, s => do
    if n.parent = some target then reparent c target user ns s
    else
      let author ← present .nodeUser user
      let position := s.nextPosition target
      let s ← s.changeNode n.id fun m =>
        { m with
          parent := target
          position
          modified := c.now
          user := author
          version := m.version + 1 }
      reparent c target user ns s

/-- Deletes the subtrees of nodes, one after the other; the answer is the number of deleted
nodes. -/
def removeSubtrees : List Node → Store → Except Failure (Nat × Store)
  | [], s => .ok (0, s)
  | n :: ns, s => do
    let (count, s) ← s.removeSubtree n
    let (more, s) ← removeSubtrees ns s
    return (count + more, s)

end Store

/-- Moves nodes into a folder. -/
def moveNodes (c : Context) (ids : List Id) (target : Id) (user : Option String) :
    Write Node := fun s => do
  let (planned, _) ← s.checkRelocation ids target true true
  return fun s => do
    let (nodes, _) ← recheck (s.checkRelocation ids target true true)
    checkUnmoved (commonParent planned) nodes
    let s ← s.reparent c target user nodes
    let s ← s.touch c target user
    s.answerNode target

/-- Deletes several nodes of one parent, with all below them. -/
def deleteNodes (ids : List Id) : Write Nat := fun s => do
  let planned ← s.checkSelection ids
  return fun s => do
    let nodes ← recheck (s.checkSelection ids)
    checkUnmoved (commonParent planned) nodes
    Store.removeSubtrees nodes s

end SnapshotArchive
