import SnapshotArchive.Write
import SnapshotArchive.Store.Lineage

/-!
# Selections

Moves, copies and batch deletions take several nodes with one parent. Their checks run twice: on the
store as it is when the operation is planned, and again inside its transaction, where a check that
no longer passes is a conflict.

* `recheck_eq_ok_iff` : inside the transaction the same checks have to pass.
-/

namespace SnapshotArchive

/-- Refuses on account of what was found, if anything was. -/
def refuseFound {α : Type} (found : Option α) (r : α → Refusal) : Except Failure Unit :=
  match found with
  | some a => .error (.refused (r a))
  | none => .ok ()

/-- A search passes exactly if it finds nothing. -/
theorem refuseFound_eq_ok_iff {α : Type} {found : Option α} {r : α → Refusal} {u : Unit} :
    refuseFound found r = .ok u ↔ found = none := by
  cases found <;> simp [refuseFound]

namespace Store

/-- The nodes with the identifiers, all of which must exist. -/
def requireAll (s : Store) : List Id → Except Failure (List Node)
  | [] => .ok []
  | id :: ids => do
    let n ← s.require id
    let ns ← s.requireAll ids
    return n :: ns

/-- The selected nodes: at least one, none twice, none the root, all with one parent. -/
def checkSelection (s : Store) (ids : List Id) : Except Failure (List Node) := do
  ensure (ids ≠ []) .nothingSelected
  ensure ids.Nodup .repeatedSelection
  let nodes ← s.requireAll ids
  ensure (∀ n ∈ nodes, n.id ≠ rootId) .rootSelected
  ensure (∀ n ∈ nodes, ∀ m ∈ nodes, n.parent = m.parent) .differentParents
  return nodes

/-- A selected node and the child of the target whose name is in its way. A node that already lies
in the target is in its own way only if `inPlace` does not hold. -/
def obstacle? (s : Store) (target : Id) (inPlace : Bool) (n : Node) : Option (Node × Node) :=
  (s.sibling? target n.kind n.name).bind fun holder =>
    if inPlace ∧ holder.id = n.id then none else some (n, holder)

/-- The selected nodes and the target of a move or a copy. The target is a folder outside the
selected subtrees; with `byName` no name in it may be in the way. -/
def checkRelocation (s : Store) (ids : List Id) (target : Id) (inPlace byName : Bool) :
    Except Failure (List Node × Node) := do
  let nodes ← s.checkSelection ids
  refuseFound (nodes.find? fun n => !n.kind.isMovable) fun n => .notMovable n.name n.kind
  let t ← s.require target
  ensure (t.kind = .folder) (.targetNotFolder t.kind)
  let lineage := s.ancestorIds target
  refuseFound (nodes.find? fun n => n.id ∈ lineage) fun n => .cycle n.id target
  refuseFound (if byName then nodes.findSome? (s.obstacle? target inPlace) else none)
    fun (n, holder) => .targetNameTaken n.kind n.name holder.id
  return (nodes, t)

end Store

/-! ### Checking again inside the transaction -/

/-- The result of a check inside the transaction: a refusal there is a conflict. -/
def recheck {α : Type} : Except Failure α → Except Failure α
  | .error (.refused r) =>
    .error (.refused (if r.isConflict then r else .preconditionLost r))
  | result => result

/-- A check that is made again succeeds exactly if it would the first time. -/
theorem recheck_eq_ok_iff {α : Type} {e : Except Failure α} {a : α} :
    recheck e = .ok a ↔ e = .ok a := by
  unfold recheck
  split <;> simp

/-- Whatever refusal a check ends with when it is made again, the client is told of a conflict. -/
theorem isConflict_of_recheck {α : Type} {e : Except Failure α} {r : Refusal}
    (h : recheck e = .error (.refused r)) : r.isConflict := by
  unfold recheck at h
  split at h
  · rename_i q
    obtain rfl : _ = r := by simpa using h
    split
    · assumption
    · rfl
  · rename_i hne
    exact absurd h (hne r)

/-- The common parent of selected nodes. -/
def commonParent (nodes : List Node) : Option Id :=
  nodes.head?.bind (·.parent)

/-- Checks that selected nodes still have the parent that they had when the operation was
planned. -/
def checkUnmoved (planned : Option Id) (nodes : List Node) : Except Failure Unit :=
  refuseFound (nodes.head?.filter fun n => n.parent ≠ planned) fun n => .nodeMoved n.id

end SnapshotArchive
