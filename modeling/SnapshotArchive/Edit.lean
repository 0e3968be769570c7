import SnapshotArchive.Node
import SnapshotArchive.Write
import SnapshotArchive.Store.Lineage

/-!
# Editing nodes

Folders and configurations are created below a node, renamed and given properties, and deleted with
all that lies below them. Of a snapshot only the golden property can be edited.
-/

namespace SnapshotArchive

/-! ### Creation -/

/-- Creates a folder or an empty configuration. -/
def createNode (c : Context) (parent : Id) (form : NodeForm) (user : Option String) :
    Write Node := fun _ => do
  ensure (form.kind ≠ .snapshot) .snapshotCreated
  let name ← checkName "Node" form.name
  return fun s => do
    let p ← s.require parent
    let id := c.fresh 0
    let s ← s.addNode c id p name form.content false form.properties (author user form.user)
    s.answerNode id

/-! ### Update -/

/-- Checks what an update changes of a snapshot: at most the golden property. -/
def checkSnapshotUpdate (stored : Node) (name : String) (properties : Properties) :
    Except Failure Unit := do
  ensure (stored.kind ≠ .snapshot ∨ name = stored.name) .snapshotRenamed
  ensure (stored.kind ≠ .snapshot ∨ properties.erase goldenKey = stored.properties.erase goldenKey)
    .snapshotPropertiesChanged

/-- Replaces the name and the properties of a node. A version other than zero must be the stored
one. -/
def updateNode (c : Context) (form : NodeForm) (keepTime : Bool) : Write Node := fun _ => do
  let name ← checkName "Node" form.name
  return fun s => do
    let stored ← s.require form.id
    ensure (form.version = 0 ∨ form.version = stored.version) (.nodeChanged stored.id)
    ensure (form.kind = stored.kind) .kindChanged
    ensure (stored.id ≠ rootId ∨ name = stored.name) .rootRenamed
    checkSnapshotUpdate stored name form.properties
    let _ ← if name = stored.name ∨ stored.parent = none then .ok ()
      else s.checkNameFree stored.parent stored.kind name stored.id
    let s ← s.changeNode stored.id fun n =>
      { n with
        name
        properties := form.properties
        modified := if keepTime then n.modified else c.now
        user := (author form.user n.user).getD n.user
        version := n.version + 1 }
    s.answerNode stored.id

/-! ### Deletion -/

/-- Deletes a node and all below it; the answer is their number. -/
def Store.removeSubtree (s : Store) (n : Node) : Except Failure (Nat × Store) := do
  ensure (n.id ≠ rootId) .rootDeleted
  let ids := s.subtreeIds n.id
  return (ids.length, s.removeNodes ids)

/-- Deletes a node and all below it. -/
def deleteNode (id : Id) : Write Nat := fun _ =>
  return fun s => do
    let n ← s.require id
    s.removeSubtree n

end SnapshotArchive
