import SnapshotArchive.Operation
import SnapshotArchive.Proofs.Copying.Placement

/-!
# What operations make of the tables

An operation that succeeds leaves tables that can be written down. `Operation.Effect` does so for
each operation: which records it adds, replaces and deletes, what it has checked of those that were
there, and that it leaves all others alone. Selected nodes are moved and deleted one after the other
by the operations and at once here.

Of variables and items the effects say whose they are. What is in those that an operation stores
itself does not matter to what is said of the others.
-/

namespace SnapshotArchive

open Text Store

/-! ### Nodes that operations make -/

/-- A new child of a node, behind its other children. -/
def Store.newNode (s : Store) (c : Context) (parent : Id) (name : String) (content : Content)
    (draft : Bool) (properties : Properties) (user : String) : Node where
  id := c.fresh 0
  parent := some parent
  name
  content
  draft
  position := s.nextPosition parent
  properties
  created := c.now
  modified := c.now
  user
  version := 1

namespace Node

variable (n : Node) (c : Context)

/-- A node with another name and other properties. -/
def updated (form : NodeForm) (keepTime : Bool) (name : String) : Node :=
  { n with
    name
    properties := form.properties
    modified := if keepTime then n.modified else c.now
    user := (author form.user n.user).getD n.user
    version := n.version + 1 }

/-- A configuration with another name, another description and other properties. -/
def configured (form : ConfigurationForm) (name : String) (user : Option String) : Node :=
  { n with
    name
    content := form.node.content
    properties := form.node.properties
    modified := c.now
    user := (author (author user form.node.user) n.user).getD n.user
    version := n.version + 1 }

/-- A node in another place. -/
def movedTo (target : Id) (user : String) (position : Nat) : Node :=
  { n with
    parent := some target
    position
    modified := c.now
    user
    version := n.version + 1 }

/-- A draft that was written again or committed. -/
def revised (name : String) (status : Status) (comment : String) (user : String) : Node :=
  { n with
    name
    draft := status = .draft
    content := .snapshot status comment
    modified := c.now
    user
    version := n.version + 1 }

/-- A snapshot that was marked as golden, or no longer is. -/
def marked (golden : Bool) : Node :=
  { n with
    properties := if golden then n.properties.insert goldenKey "true"
      else n.properties.erase goldenKey
    modified := c.now
    version := n.version + 1 }

end Node

namespace Store

variable (s : Store) (c : Context)

/-- The store with nodes moved into a target, behind its children and in the given order. -/
def move (target : Id) (user : String) (ids : List Id) : Store :=
  { s with nodes := s.nodes.map fun n =>
      if n.id ∈ ids then n.movedTo c target user (s.nextPosition target + ids.idxOf n.id) else n }

/-- The store with a node marked as golden or not, and others no longer. -/
def mark (n : Node) (golden : Bool) (others : List Node) : Store :=
  { s with nodes := s.nodes.map fun m =>
      if m.id = n.id then m.marked c golden
      else if m.id ∈ others.map (·.id) then m.marked c false
      else m }

/-- Whether a list holds the identifiers of all nodes at and below given ones. -/
def IsAllBelow (roots gone : List Id) : Prop :=
  ∀ x, x ∈ gone ↔ s.hasNode x ∧ ∃ r ∈ roots, s.LeadsTo x r

end Store

/-! ### The effects -/

/-- What an operation makes of the tables when it succeeds. -/
inductive Operation.Effect (c : Context) (p : Policy) (s : Store) : Operation → Store → Prop
  | createNode {q : Node} {form : NodeForm} {user : Option String} {name writer : String} :
    q ∈ s.nodes → q.kind.mayHold form.kind → form.kind ≠ .snapshot →
    checkName "Node" form.name = .ok name → author user form.user = some writer →
    s.hasNode (c.fresh 0) = false →
    Effect c p s (.createNode q.id form user) { s with nodes := s.nodes ++
      [s.newNode c q.id name form.content false form.properties writer] }
  | updateNode {n : Node} {form : NodeForm} {keepTime : Bool} {name : String} :
    n ∈ s.nodes → n.id = form.id → form.version = 0 ∨ form.version = n.version →
    form.kind = n.kind → checkName "Node" form.name = .ok name →
    checkSnapshotUpdate n name form.properties = .ok () →
    Effect c p s (.updateNode form keepTime) (s.replaceNode (n.updated c form keepTime name))
  | deleteNode {n : Node} {gone : List Id} : n ∈ s.nodes → n.id ≠ rootId →
    s.IsAllBelow [n.id] gone → Effect c p s (.deleteNode n.id) (s.removeNodes gone)
  | deleteNodes {ids gone : List Id} {nodes : List Node} : s.IsSelection ids nodes →
    s.IsAllBelow ids gone → Effect c p s (.deleteNodes ids) (s.removeNodes gone)
  | moveNodes {ids : List Id} {target : Id} {nodes : List Node} {t : Node} {user : String} :
    s.IsRelocation ids target true true nodes t → (∀ n ∈ nodes, n.parent ≠ some target) →
    Effect c p s (.moveNodes ids target user) ((s.move c target user ids).stamp c target user)
  /-- The nodes are in the target already. -/
  | keepNodes {ids : List Id} {target : Id} {nodes : List Node} {t : Node} {user : String} :
    s.IsRelocation ids target true true nodes t → (∀ n ∈ nodes, n.parent = some target) →
    Effect c p s (.moveNodes ids target user) (s.stamp c target user)
  | copyNodes {ids : List Id} {target : Id} {nodes : List Node} {t : Node} {user : String}
    {d : Id → Duplicate} : s.IsRelocation ids target false (p.copies = .reject) nodes t →
    s.IsBeside target (copies c user target s d nodes) →
    (∀ n ∈ nodes, (d n.id).IsSupplied c s n) →
    (∀ before n after, nodes = before ++ n :: after →
      IsPlaced p.copies s target d before n) →
    Effect c p s (.copyNodes ids target user)
      (s.stamp c target user ++ copies c user target s d nodes)
  | createConfiguration {q : Node} {form : ConfigurationForm} {user : Option String}
    {name writer : String} {pvs : List Pv} : q ∈ s.nodes → q.kind.mayHold .configuration →
    checkName "Configuration" form.node.name = .ok name →
    author user form.node.user = some writer → s.hasNode (c.fresh 0) = false →
    (∀ pv ∈ pvs, pv.config = c.fresh 0) →
    Effect c p s (.createConfiguration q.id form user) { s with
      nodes := s.nodes ++
        [s.newNode c q.id name form.node.content false form.node.properties writer]
      pvs := s.pvs ++ pvs }
  | updateConfiguration {n : Node} {form : ConfigurationForm} {user : Option String}
    {name : String} {pvs : List Pv} : n ∈ s.nodes → n.kind = .configuration →
    n.id = form.node.id → form.node.version = 0 ∨ form.node.version = n.version →
    checkName "Configuration" form.node.name = .ok name →
    (∀ id ≠ n.id, pvs.filter (·.config = id) = s.pvs.filter (·.config = id)) →
    Effect c p s (.updateConfiguration form user)
      { s.replaceNode (n.configured c form name user) with pvs }
  | renamePv {n : Node} {pv : Pv} {new : Option String} {user : String} :
    n ∈ s.nodes → n.kind = .configuration → pv ∈ s.pvs → pv.config = n.id → pv.active →
    strip (new.getD "") ≠ "" →
    Effect c p s (.renamePv n.id pv.name new user)
      ((s.replacePv { pv with name := strip (new.getD "") }).stamp c n.id user)
  | newSnapshot {q : Node} {items : List ItemForm} {name comment : Option String}
    {title user : String} {status : Status} {added : List Item} : q ∈ s.nodes →
    q.kind = .configuration → s.draft? q.id = none → s.hasNode (c.fresh 0) = false →
    (∀ item ∈ added, item.snapshot = c.fresh 0) →
    Effect c p s (.saveSnapshot q.id items name comment user) { s with
      nodes := s.nodes ++ [s.newNode c q.id title (.snapshot status (strip (comment.getD "")))
        (status = .draft) .empty user]
      items := s.items ++ added }
  | overwriteDraft {config : Id} {n : Node} {items : List ItemForm} {name comment : Option String}
    {title user : String} {status : Status} {added : List Item} :
    s.draft? config = some n → (∀ item ∈ added, item.snapshot = n.id) →
    Effect c p s (.saveSnapshot config items name comment user)
      { s.replaceNode (n.revised c title status (strip (comment.getD "")) user) with
        items := s.items.filter (·.snapshot ≠ n.id) ++ added }
  | commitSnapshot {n : Node} {name comment : Option String} {title user : String} :
    n ∈ s.nodes → n.kind = .snapshot → n.content.isDraft →
    checkName "Snapshot" name = .ok title → strip (comment.getD "") ≠ "" →
    Effect c p s (.commitSnapshot n.id name comment user)
      (s.replaceNode (n.revised c title .committed (strip (comment.getD "")) user))
  | markGolden {n : Node} {golden : Bool} : n ∈ s.nodes → n.kind = .snapshot →
    n.content.isDraft = false →
    Effect c p s (.markGolden n.id golden)
      (s.mark c n golden (if golden && p.goldenExclusive then s.goldenSiblings n else []))
  | addTag {n : Node} {tag : Tag} {form : TagForm} : n ∈ s.nodes → n.kind = .snapshot →
    n.content.isDraft = false → tag.snapshot = n.id →
    Effect c p s (.addTag n.id form) { s with tags := s.tags ++ [tag] }
  | removeTag {id : Id} {form : TagForm} :
    Effect c p s (.removeTag id form) (s.removeTag id (form.name.getD ""))
  | initialise : Effect c p s .initialise s

end SnapshotArchive
