import SnapshotArchive.Store.Change

/-!
# Checks against the store

What an operation asks of the store before it changes anything: that nodes exist, that they are of
the right kind, and that a name is free.

* `Store.require_eq_ok_iff` : a required node is the one with the identifier.
-/

namespace SnapshotArchive

namespace Store

/-- The node with an identifier, which must exist. -/
def require (s : Store) (id : Id) : Except Failure Node :=
  match s.node? id with
  | some n => .ok n
  | none => .error (.refused (.noNode id))

/-- A required node is the one with the identifier. -/
theorem require_eq_ok_iff {s : Store} {id : Id} {n : Node} :
    s.require id = .ok n ↔ s.node? id = some n := by
  unfold require
  split <;> simp_all

/-- The node with an identifier, which must exist and be of a kind, for a request that reads it. -/
def requireToRead (s : Store) (id : Id) (kind : Kind) : Except Failure Node := do
  let n ← s.require id
  ensure (n.kind = kind) (.otherKind id n.kind kind)
  return n

/-- The node with an identifier, which must exist and be of a kind, for a request that writes
to it. -/
def requireToWrite (s : Store) (id : Id) (kind : Kind) : Except Failure Node := do
  let n ← s.require id
  ensure (n.kind = kind) (.unfitKind id n.kind kind)
  return n

/-- Checks the containment rules. -/
def checkChild (parent : Node) (child : Kind) : Except Failure Unit :=
  ensure (parent.kind.mayHold child) (.childNotAllowed parent.kind child)

/-- Checks that no child of `parent` of the kind has the name, except the node `self`. -/
def checkNameFree (s : Store) (parent : Option Id) (kind : Kind) (name : String)
    (self : Option Id) : Except Failure Unit :=
  match s.sibling? parent kind name with
  | some holder =>
    ensure (self = some holder.id) (.nameTaken kind name parent holder.id)
  | none => .ok ()

/-- A name is free exactly if nobody but the node itself holds it. -/
theorem checkNameFree_eq_ok_iff {s : Store} {parent : Option Id} {kind : Kind} {name : String}
    {self : Option Id} {u : Unit} :
    s.checkNameFree parent kind name self = .ok u ↔
      ∀ holder, s.sibling? parent kind name = some holder → self = some holder.id := by
  unfold checkNameFree
  split <;> simp_all [demand_eq_ok_iff]

end Store

end SnapshotArchive
