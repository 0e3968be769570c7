import SnapshotArchive.Archive
import SnapshotArchive.Move
import SnapshotArchive.Copy
import SnapshotArchive.Configuring
import SnapshotArchive.Capture
import SnapshotArchive.Store.Path

/-!
# Operations and queries

What clients ask of an archive, as data: an `Operation` changes it, a `Query` reads it, and both
have an `Answer`.

* `Operation.call`, `Query.call` : the calls that carry them out.
-/

namespace SnapshotArchive

/-- What an archive does where clients may want it differently. -/
structure Policy where
  /-- What becomes of a copy whose name is taken. -/
  copies : CopyPolicy
  /-- Whether a configuration has at most one golden snapshot. -/
  goldenExclusive : Bool
  deriving DecidableEq

/-- What an operation or a query is answered with. -/
inductive Answer where
  | nothing
  | truth (b : Bool)
  | count (n : Nat)
  | text (s : String)
  | node (n : Node)
  | nodes (ns : List Node)
  | stats (s : Stats)
  | configuration (c : Configuration)
  | pv (pv : Pv)
  | pvs (pvs : List Pv)
  | snapshot (s : Snapshot)
  | tags (tags : List Tag)

/-! ### Operations -/

/-- The changes that clients can ask for. -/
inductive Operation where
  | createNode (parent : Id) (form : NodeForm) (user : Option String)
  | updateNode (form : NodeForm) (keepTime : Bool)
  | deleteNode (id : Id)
  | deleteNodes (ids : List Id)
  | moveNodes (ids : List Id) (target : Id) (user : Option String)
  | copyNodes (ids : List Id) (target : Id) (user : Option String)
  | createConfiguration (parent : Id) (form : ConfigurationForm) (user : Option String)
  | updateConfiguration (form : ConfigurationForm) (user : Option String)
  | renamePv (config : Id) (old new user : Option String)
  | saveSnapshot (config : Id) (items : List ItemForm) (name comment user : Option String)
  | commitSnapshot (id : Id) (name comment user : Option String)
  | markGolden (id : Id) (golden : Bool)
  | addTag (id : Id) (form : TagForm)
  | removeTag (id : Id) (form : TagForm)
  | initialise

namespace Operation

/-- The write that carries out an operation; initialising an archive that has tables is a write
too. -/
def write (c : Context) (p : Policy) : Operation → Write Answer
  | createNode parent form user => (SnapshotArchive.createNode c parent form user).map .node
  | updateNode form keepTime => (SnapshotArchive.updateNode c form keepTime).map .node
  | deleteNode id => (SnapshotArchive.deleteNode id).map .count
  | deleteNodes ids => (SnapshotArchive.deleteNodes ids).map .count
  | moveNodes ids target user => (SnapshotArchive.moveNodes c ids target user).map .node
  | copyNodes ids target user => (SnapshotArchive.copyNodes c p.copies ids target user).map .node
  | createConfiguration parent form user =>
    (SnapshotArchive.createConfiguration c parent form user).map .configuration
  | updateConfiguration form user =>
    (SnapshotArchive.updateConfiguration c form user).map .configuration
  | renamePv config old new user => (SnapshotArchive.renamePv c config old new user).map .pv
  | saveSnapshot config items name comment user =>
    (SnapshotArchive.saveSnapshot c config items name comment user).map .snapshot
  | commitSnapshot id name comment user =>
    (SnapshotArchive.commitSnapshot c id name comment user).map .node
  | markGolden id golden =>
    (SnapshotArchive.markGolden c p.goldenExclusive id golden).map .node
  | addTag id form => (SnapshotArchive.addTag c id form).map .tags
  | removeTag id form => (SnapshotArchive.removeTag id form).map .tags
  | initialise => Write.map (fun _ => .nothing) fun _ => .ok (Archive.makeRoot c.now)

/-- The call that carries out an operation. -/
def call (c : Context) (p : Policy) : Operation → Call Answer
  | initialise => .initialise c.now fun _ => .nothing
  | o => .write (o.write c p)

end Operation

/-! ### Queries -/

/-- The readings that clients can ask for. -/
inductive Query where
  | node (id : Id)
  | parent (id : Id)
  | children (id : Id)
  | fullPath (id : Id)
  | resolve (path : Option String)
  | stats
  | relocationAllowed (ids : List Id) (target : Id)
  | configuration (id : Id)
  | listedPvs (config : Id)
  /-- The variables of a configuration, retired ones too; none if there is no such configuration. -/
  | everyPv (config : Id)
  | committedSnapshots (config : Id)
  | allSnapshots
  | snapshotNode (id : Id)
  | snapshot (id : Id)
  | tags (id : Id)
  | allTags

namespace Query

/-- The answer of a store to a query. -/
def answer (s : Store) : Query → Except Failure Answer
  | node id => (s.require id).map .node
  | parent id => (s.parentNode id).map .node
  | children id => (s.childNodes id).map .nodes
  | fullPath id => (s.fullPath id).map .text
  | resolve path => (s.resolve path).map .nodes
  | stats => .ok (.stats s.stats)
  | relocationAllowed ids target =>
    (s.checkRelocation ids target true true).map fun _ => .truth true
  | configuration id => (s.configuration id).map .configuration
  | listedPvs config => (s.listedPvs config).map .pvs
  | everyPv config => .ok (.pvs (s.pvsOf config))
  | committedSnapshots config => (s.committedSnapshots config).map .nodes
  | allSnapshots => .ok (.nodes s.allSnapshots)
  | snapshotNode id => (s.requireToRead id .snapshot).map .node
  | snapshot id => (s.snapshot id).map .snapshot
  | tags id => (s.snapshotTags id).map .tags
  | allTags => .ok (.tags s.allTags)

/-- The answer of an archive to a query. Whether a move or copy is allowed is no matter of
refusal. -/
def ask (q : Query) (a : Archive) : Except Failure Answer :=
  match q, a.read q.answer with
  | relocationAllowed _ _, .error (.refused _) => .ok (.truth false)
  | _, result => result

/-- The call that carries out a query. -/
def call (q : Query) : Call Answer := .read q.ask

end Query

end SnapshotArchive
