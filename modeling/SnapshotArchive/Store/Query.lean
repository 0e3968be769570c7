import SnapshotArchive.Store.Check

/-!
# What clients read

The readings of one store: nodes and their relatives, configurations, snapshots and tags, and how
many records there are. None of them changes anything.

* `Store.mem_allSnapshots_iff` : the listing of all snapshots has all but the drafts.
-/

namespace SnapshotArchive

/-- How many records of each sort there are. -/
structure Stats where
  folders : Nat
  configurations : Nat
  snapshots : Nat
  drafts : Nat
  /-- The variables that a configuration lists. -/
  pvs : Nat
  items : Nat
  tags : Nat
  deriving DecidableEq

/-- The order of a listing of snapshots: by time of creation, and then by position. -/
def Node.olderThan (a b : Node) : Bool :=
  a.created < b.created || (a.created = b.created && a.position ≤ b.position)

namespace Store

/-! ### Nodes -/

/-- The parent of a node. -/
def parentNode (s : Store) (id : Id) : Except Failure Node := do
  let n ← s.require id
  match n.parent with
  | some parent => s.require parent
  | none => throw (.refused (.noParent id))

/-- The children of a node, which must exist. -/
def childNodes (s : Store) (id : Id) : Except Failure (List Node) := do
  let _ ← s.require id
  return s.children id

/-- The number of records of each sort. -/
def stats (s : Store) : Stats where
  folders := s.nodes.countP (·.kind = .folder)
  configurations := s.nodes.countP (·.kind = .configuration)
  snapshots := s.nodes.countP (·.kind = .snapshot)
  drafts := s.nodes.countP (·.draft)
  pvs := s.pvs.countP (·.active)
  items := s.items.length
  tags := s.tags.length

/-! ### Configurations -/

/-- A configuration with the variables that it lists. -/
def configuration (s : Store) (id : Id) : Except Failure Configuration := do
  let node ← s.requireToRead id .configuration
  return ⟨node, s.activePvs id⟩

/-- The variables that a configuration lists. -/
def listedPvs (s : Store) (config : Id) : Except Failure (List Pv) := do
  let _ ← s.requireToRead config .configuration
  return s.activePvs config

/-! ### Snapshots -/

/-- A snapshot with its items. -/
def snapshot (s : Store) (id : Id) : Except Failure Snapshot := do
  let node ← s.requireToRead id .snapshot
  return ⟨node, s.readings id⟩

/-- The committed snapshots of a configuration, the oldest first. -/
def committedSnapshots (s : Store) (config : Id) : Except Failure (List Node) := do
  let _ ← s.requireToRead config .configuration
  let found := s.nodes.filter fun n => n.parent = some config && n.kind = .snapshot && !n.draft
  return found.mergeSort Node.olderThan

/-- All committed snapshots, the oldest first. -/
def allSnapshots (s : Store) : List Node :=
  (s.nodes.filter fun n => n.kind = .snapshot && !n.draft).mergeSort (·.created ≤ ·.created)

/-- The tags of a snapshot, the newest first. -/
def snapshotTags (s : Store) (id : Id) : Except Failure (List Tag) := do
  let _ ← s.requireToRead id .snapshot
  return s.tagsOf id

/-! ### What the listings hold -/

/-- The listing of all snapshots has those that are stored, but for the drafts. -/
@[simp] theorem mem_allSnapshots_iff {s : Store} {n : Node} :
    n ∈ s.allSnapshots ↔ n ∈ s.nodes ∧ n.kind = .snapshot ∧ n.draft = false := by
  simp [allSnapshots, List.mem_mergeSort]

end Store

end SnapshotArchive
