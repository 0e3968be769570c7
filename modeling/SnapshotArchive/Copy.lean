import SnapshotArchive.Selection

/-!
# Copying

A copy of a node has all that lies below it: child nodes, variables, items and tags, with new
identifiers. The copies go through a subtree level by level, so that the copy of a parent is there
before those of its children, and the copy of a configuration with its variables before those of
its snapshots.

* `CopyPolicy.suffix` gives a copy the first free name of `copyName`.
-/

namespace SnapshotArchive

/-- What a copy does when its name is taken in the target. -/
inductive CopyPolicy where
  /-- It is refused. -/
  | reject
  /-- It gets another name. -/
  | suffix
  deriving DecidableEq

/-! ### Names of copies -/

/-- The names that a copy tries, in this order. -/
def copyName (name : String) : (attempt : Nat) → String
  | 0 => name
  | 1 => s!"{name} (copy)"
  | attempt => s!"{name} (copy {attempt})"

/-- The first name for a copy that no child of the target of the same kind has. One of the first
`children + 1` is free. -/
def Store.freeName (s : Store) (target : Id) (n : Node) : String :=
  let attempts := List.range ((s.children target).length + 1)
  let free := (attempts.map (copyName n.name)).find? fun name =>
    (s.sibling? target n.kind name).isNone
  free.getD n.name

/-! ### Copying a subtree -/

/-- A copy in progress: the store so far, the number of identifiers used, and what the copied nodes
and variables are called. -/
structure Copying where
  store : Store
  used : Nat
  nodeIds : List (Id × Id)
  pvIds : List (Id × Id)

/-- The identifier of the copy of a record. -/
def copyOf (ids : List (Id × Id)) (id : Id) : Except Failure Id :=
  match ids.lookup id with
  | some new => .ok new
  | none => .error (.notCopied id)

namespace Copying

/-- Copies the variables of a configuration. -/
def addPvs (c : Context) (config : Id) : List Pv → Copying → Except Failure Copying
  | [], k => .ok k
  | pv :: pvs, k => do
    let id := c.fresh k.used
    let store ← k.store.insertPv { pv with id, config }
    addPvs c config pvs { k with store, used := k.used + 1, pvIds := (pv.id, id) :: k.pvIds }

/-- Copies the items of a snapshot. -/
def addItems (snapshot : Id) : List Item → Copying → Except Failure Copying
  | [], k => .ok k
  | item :: items, k => do
    let pv ← copyOf k.pvIds item.pv
    let store ← k.store.insertItem { item with snapshot, pv }
    addItems snapshot items { k with store }

/-- Copies the tags of a snapshot. -/
def addTags (snapshot : Id) : List Tag → Copying → Except Failure Copying
  | [], k => .ok k
  | tag :: tags, k => do
    let store ← k.store.insertTag { tag with snapshot }
    addTags snapshot tags { k with store }

/-- Copies what belongs to a node: variables by position, items by position, tags by name. -/
def addContents (c : Context) (old new : Id) (k : Copying) : Except Failure Copying := do
  let source := k.store
  let k ← addPvs c new (source.pvsOf old) k
  let k ← addItems new (source.itemsOf old) k
  addTags new ((source.tags.filter (·.snapshot = old)).mergeSort (·.name ≤ ·.name)) k

/-- Copies one node as a child of `parent` with all that belongs to it. -/
def addNode (c : Context) (user : Option String) (old : Node) (parent : Id) (name : String)
    (position : Nat) (k : Copying) : Except Failure Copying := do
  let id := c.fresh k.used
  let author ← present .nodeUser user
  let store ← k.store.insertNode
    { old with
      id
      parent := parent
      name
      position
      created := c.now
      modified := c.now
      user := author
      version := 1 }
  addContents c old.id id
    { k with store, used := k.used + 1, nodeIds := (old.id, id) :: k.nodeIds }

/-- Copies nodes whose parents are copied already. -/
def addBelow (c : Context) (user : Option String) : List Node → Copying → Except Failure Copying
  | [], k => .ok k
  | old :: olds, k => do
    let parent ← copyOf k.nodeIds (old.parent.getD "")
    let k ← addNode c user old parent old.name old.position k
    addBelow c user olds k

/-- Copies a node with its subtree into a target, under a name. -/
def addSubtree (c : Context) (user : Option String) (target : Id) (name : String) (source : Node)
    (k : Copying) : Except Failure Copying := do
  let k := { k with nodeIds := [], pvIds := [] }
  match k.store.subtree source.id with
  | [] => return k
  | top :: below =>
    k.store.checkNameFree target source.kind name none
    let k ← addNode c user top target name (k.store.nextPosition target) k
    addBelow c user below k

/-- Copies nodes with their subtrees into a target, one after the other. -/
def addAll (c : Context) (policy : CopyPolicy) (user : Option String) (target : Id) :
    List Node → Copying → Except Failure Copying
  | [], k => .ok k
  | n :: ns, k => do
    let name := if policy = .reject then n.name else k.store.freeName target n
    let k ← addSubtree c user target name n k
    addAll c policy user target ns k

end Copying

/-- Copies nodes into a folder. -/
def copyNodes (c : Context) (policy : CopyPolicy) (ids : List Id) (target : Id)
    (user : Option String) : Write Node := fun s => do
  let byName := policy = .reject
  let _ ← s.checkRelocation ids target false byName
  return fun s => do
    let (nodes, _) ← recheck (s.checkRelocation ids target false byName)
    let k ← Copying.addAll c policy user target nodes ⟨s, 0, [], []⟩
    let s ← k.store.touch c target user
    s.answerNode target

end SnapshotArchive
