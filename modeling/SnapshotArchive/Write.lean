import SnapshotArchive.Store.Check

/-!
# Writes

A write has two phases. The plan makes the checks that need no lock, reading the store if it has
to; from it comes a transaction, which later runs on the store as it then is. Other clients may
have changed the store in between.

* `Transaction.run_of_error` : a transaction that fails leaves the store as it was.
* `Transaction.run_of_ok` : one that succeeds leaves the store that it gives.
-/

namespace SnapshotArchive

/-- What a call takes from its surroundings: the time, and a supply of new identifiers. -/
structure Context where
  now : Int
  fresh : Nat → Id

/-- A change of the store with an answer, or a failure. -/
abbrev Transaction (α : Type) := Store → Except Failure (α × Store)

/-- A plan that reads the store and, if its checks pass, gives the transaction to commit. -/
abbrev Write (α : Type) := Store → Except Failure (Transaction α)

/-- Runs a transaction; one that fails changes nothing. -/
def Transaction.run {α : Type} (t : Transaction α) (s : Store) : Except Failure α × Store :=
  match t s with
  | .ok (answer, s') => (.ok answer, s')
  | .error f => (.error f, s)

/-- A write with another answer. -/
def Write.map {α β : Type} (f : α → β) (w : Write α) : Write β := fun s =>
  (w s).map fun t s => (t s).map fun (answer, s) => (f answer, s)

/-- A transaction that fails leaves the store as it was. -/
theorem Transaction.run_of_error {α : Type} {t : Transaction α} {s : Store} {f : Failure}
    (h : t s = .error f) : Transaction.run t s = (.error f, s) := by
  simp [Transaction.run, h]

/-- A transaction that succeeds leaves the store that it gives. -/
theorem Transaction.run_of_ok {α : Type} {t : Transaction α} {s s' : Store} {a : α}
    (h : t s = .ok (a, s')) : Transaction.run t s = (.ok a, s') := by
  simp [Transaction.run, h]

/-! ### Shared steps -/

/-- The first of two authors who is named. -/
def author (user other : Option String) : Option String :=
  (user.filter (· ≠ "")).or other

namespace Store

/-- Ends a transaction with a node of the new store as its answer. -/
def answerNode (s : Store) (id : Id) : Except Failure (Node × Store) := do
  let n ← s.require id
  return (n, s)

/-- Stamps a node as changed now. -/
def touch (s : Store) (c : Context) (id : Id) (user : Option String) : Except Failure Store := do
  let user ← present .nodeUser user
  return s.mapNode id fun n => { n with version := n.version + 1, modified := c.now, user }

/-- Adds a child of `parent`, after its other children. A draft may share its name. -/
def addNode (s : Store) (c : Context) (id : Id) (parent : Node) (name : String)
    (content : Content) (draft : Bool) (properties : Properties) (user : Option String) :
    Except Failure Store := do
  checkChild parent content.kind
  let _ ← if draft then .ok () else s.checkNameFree parent.id content.kind name none
  let user ← present .nodeUser user
  s.insertNode
    { id, parent := parent.id, name, content, draft, properties, user
      position := s.nextPosition parent.id
      created := c.now
      modified := c.now
      version := 1 }

end Store

end SnapshotArchive
