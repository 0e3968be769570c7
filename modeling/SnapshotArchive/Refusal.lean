import SnapshotArchive.Kind
import SnapshotArchive.Item

/-!
# Refusals

Why the archive refuses a request. A refusal is a cause; its category, its message and its details
follow from the cause, in one place.

* `Refusal.report` : what a client is told.
-/

namespace SnapshotArchive

open Text

/-! ### What a client is told -/

/-- The categories of refusal. -/
inductive Category where
  | general
  | notFound
  | conflict
  | invalid
  | cycle
  deriving DecidableEq

namespace Category

/-- The code of a category. -/
def code : Category → String
  | general => "SAVERESTORE_ERROR"
  | notFound => "NOT_FOUND"
  | conflict => "CONFLICT"
  | invalid => "VALIDATION_ERROR"
  | cycle => "CYCLE"

/-- A category and those that it belongs to, the narrowest first. -/
def lineage : Category → List Category
  | general => [general]
  | notFound => [notFound, general]
  | conflict => [conflict, general]
  | invalid => [invalid, general]
  | cycle => [cycle, invalid, general]

end Category

/-- The details of a refusal. -/
inductive Details where
  | missing (node : Option Id)
  | clash (node : Option Id) (name : Option String)
  | faults (field : Option String) (errors : List String)
  deriving DecidableEq

/-- What a client is told of a refusal. -/
structure Report where
  category : Category
  message : String
  details : Details
  deriving DecidableEq

/-- A report of something that does not exist. -/
def Report.notFound (message : String) (node : Option Id) : Report :=
  ⟨.notFound, message, .missing node⟩

/-- A report of a conflict. -/
def Report.conflict (message : String) (node : Option Id) (name : Option String) : Report :=
  ⟨.conflict, message, .clash node name⟩

/-- A report of a request that breaks a rule. -/
def Report.invalid (message : String) (field : Option String) (errors : List String) : Report :=
  ⟨.invalid, message, .faults field errors⟩

/-- A report of a node that would come to lie below itself. -/
def Report.cycle (node target : Id) : Report :=
  ⟨.cycle, s!"Target {target} is {node} or one of its descendants",
    .faults (some "target_id") []⟩

/-! ### Uniqueness -/

/-- The groups of fields that no two records of a table share. -/
inductive UniqueKey where
  | nodeId
  | siblingName
  | pvId
  | pvName
  | itemPv
  | tagName
  deriving DecidableEq

/-- The fields of a key. -/
def UniqueKey.fields : UniqueKey → String
  | nodeId => "nodes.node_id"
  | siblingName => "nodes.parent_id, nodes.node_type, nodes.name"
  | pvId => "config_pvs.pv_id"
  | pvName => "config_pvs.config_id, config_pvs.pv_name"
  | itemPv => "snapshot_items.snapshot_id, snapshot_items.config_pv_id"
  | tagName => "tags.snapshot_id, tags.name"

/-! ### Causes -/

/-- The causes of refusal. -/
inductive Refusal where
  /-- No node has the identifier. -/
  | noNode (id : Id)
  /-- A node that is read is of another kind than the request reads. -/
  | otherKind (id : Id) (actual wanted : Kind)
  | noParent (id : Id)
  | parentMissing (id parent : Id)
  | noPv (config : Id) (name : Option String)
  | tagElsewhere (snapshot : Id) (name : Option String)
  | noTag (snapshot : Id) (name : Option String)
  | nothingAt (path : String)
  | noFolderAt (path : String)
  /-- A sibling of the same kind has the name. -/
  | nameTaken (kind : Kind) (name : String) (parent : Option Id) (holder : Id)
  /-- A child of the target has the name of a node to be moved or copied there. -/
  | targetNameTaken (kind : Kind) (name : String) (holder : Id)
  | nodeChanged (id : Id)
  | configurationChanged (id : Id)
  | nodeMoved (id : Id)
  /-- A check that passed before the transaction fails inside it. -/
  | preconditionLost (cause : Refusal)
  | tagTaken (snapshot : Id) (name : String)
  | pvTaken (config : Id) (name : String)
  /-- A record would share a unique key with another. -/
  | collision (key : UniqueKey)
  /-- Another client holds the archive. -/
  | busy
  | blankName (what : String)
  | slashInName (what name : String)
  | unknownKind (word : Option String)
  | folderWithPayload
  | configurationWithoutPayload
  | snapshotWithoutPayload
  | propertyNotText
  | notAConfiguration (actual : Kind)
  /-- A node that is written is of another kind than the request writes. -/
  | unfitKind (id : Id) (actual wanted : Kind)
  | childNotAllowed (parent child : Kind)
  | rootDeleted
  | rootSelected
  | rootRenamed
  | snapshotCreated
  | kindChanged
  | snapshotRenamed
  | snapshotPropertiesChanged
  | relativePath (path : Option String)
  | draftWithoutPath (id : Id)
  | parentCycle (id : Id)
  | nothingSelected
  | repeatedSelection
  | differentParents
  | notMovable (name : String) (kind : Kind)
  | targetNotFolder (kind : Kind)
  | badPvs (faults : List PvFault)
  | badItems (faults : List ItemFault)
  /-- Only one of name and comment is given. -/
  | halfCommit (absent : String)
  | blankComment
  | alreadyCommitted (id : Id)
  | draftGolden
  | notStorable (pv : String)
  | blankPvName
  | blankTagName
  | draftTagged
  /-- The target is one of the nodes to be moved or copied, or lies below one. -/
  | cycle (node target : Id)
  deriving DecidableEq

namespace Refusal

/-- What a client is told of a refusal. -/
def report : Refusal → Report
  | noNode id => .notFound s!"Node not found: {id}" id
  | otherKind id actual wanted =>
    .notFound s!"Node {id} is a {actual.label}, not a {wanted.label}" id
  | noParent id => .notFound s!"Node {id} has no parent" id
  | parentMissing id parent => .notFound s!"Parent {parent} of {id} not found" parent
  | noPv config name => .notFound s!"PV '{plain name}' not found in configuration" config
  | tagElsewhere snapshot name =>
    .notFound s!"Tag '{plain name}' does not belong to snapshot {snapshot}" snapshot
  | noTag snapshot name => .notFound s!"Tag '{plain name}' not found" snapshot
  | nothingAt path => .notFound s!"No node at path: {path}" none
  | noFolderAt path => .notFound s!"No folder at path: {path}" none
  | nameTaken kind name parent holder =>
    .conflict s!"A {kind.label} named '{name}' already exists in {plain parent}" holder name
  | targetNameTaken kind name holder =>
    .conflict s!"Target already contains a {kind.label} named '{name}'" holder name
  | nodeChanged id => .conflict s!"Node {id} was modified concurrently" id none
  | configurationChanged id => .conflict s!"Configuration {id} was modified concurrently" id none
  | nodeMoved id => .conflict s!"Node {id} was moved concurrently" id none
  | preconditionLost cause =>
    let message := cause.report.message
    .conflict s!"Precondition invalidated by a concurrent modification: {message}" none none
  | tagTaken snapshot name =>
    .conflict s!"Snapshot already has a tag named '{name}'" snapshot name
  | pvTaken config name => .conflict s!"PV '{name}' already exists in configuration" config name
  | collision key =>
    .conflict s!"Name collision: UNIQUE constraint failed: {key.fields}" none none
  | busy => .conflict "Database is busy, retry the operation: database is locked" none none
  | blankName what => .invalid s!"{what} name cannot be empty" "name" []
  | slashInName what name =>
    .invalid s!"{what} name cannot contain '/': {quoted name}" "name" []
  | unknownKind word => .invalid s!"Invalid node type: {quotedOrNone word}" "node_type" []
  | folderWithPayload => .invalid "FOLDER nodes carry no payload" "payload" []
  | configurationWithoutPayload =>
    .invalid "CONFIGURATION nodes require a ConfigurationPayload" "payload" []
  | snapshotWithoutPayload => .invalid "SNAPSHOT nodes require a SnapshotPayload" "payload" []
  | propertyNotText => .invalid "Node properties must map str to str" "properties" []
  | notAConfiguration actual =>
    .invalid s!"Configuration requires a CONFIGURATION node, got {actual.label}" "node" []
  | unfitKind id actual wanted =>
    .invalid s!"Node {id} is a {actual.label}, not a {wanted.label}" "node_type" []
  | childNotAllowed parent child =>
    .invalid s!"A {parent.label} node cannot contain a {child.label} node" "node_type" []
  | rootDeleted => .invalid "The root node cannot be deleted" "node_id" []
  | rootSelected => .invalid "The root node cannot be moved, copied or deleted" none []
  | rootRenamed => .invalid "The root node cannot be renamed" "name" []
  | snapshotCreated =>
    .invalid "Snapshot nodes are created by saving a snapshot" "node_type" []
  | kindChanged => .invalid "Node type cannot be changed" "node_type" []
  | snapshotRenamed => .invalid "Snapshot nodes cannot be renamed" "name" []
  | snapshotPropertiesChanged =>
    .invalid "Only the golden property of a snapshot can be changed" "properties" []
  | relativePath path => .invalid s!"Path must start with '/': {quotedOrNone path}" "path" []
  | draftWithoutPath id =>
    .invalid s!"Draft snapshot {id} has no path until it is committed" "node_id" []
  | parentCycle id => .invalid s!"Parent chain of {id} contains a cycle" none []
  | nothingSelected => .invalid "No nodes selected" "node_ids" []
  | repeatedSelection => .invalid "Node selection contains duplicates" "node_ids" []
  | differentParents => .invalid "All selected nodes must have the same parent" "node_ids" []
  | notMovable name kind =>
    .invalid s!"Only folders and configurations can be moved or copied, '{name}' is a {kind.label}"
      "node_ids" []
  | targetNotFolder kind => .invalid s!"Target must be a FOLDER, got {kind.label}" "target_id" []
  | badPvs faults => .invalid "Invalid PV list" "pv_list" (faults.map PvFault.message)
  | badItems faults =>
    .invalid "Snapshot items do not match the configuration" "items"
      (faults.map ItemFault.message)
  | halfCommit absent =>
    .invalid "Name and comment must both be given to commit a snapshot" absent []
  | blankComment => .invalid "Comment cannot be empty" "comment" []
  | alreadyCommitted id => .invalid s!"Snapshot {id} is already committed" "snapshot_id" []
  | draftGolden => .invalid "Draft snapshots cannot be marked golden" none []
  | notStorable pv => .invalid s!"Value of PV '{pv}' is not JSON serializable" "items" []
  | blankPvName => .invalid "PV name cannot be empty" "new_name" []
  | blankTagName => .invalid "Tag name cannot be empty" "name" []
  | draftTagged => .invalid "Draft snapshots cannot be tagged" "node" []
  | cycle node target => .cycle node target

/-- The category of a refusal. -/
def category (r : Refusal) : Category := r.report.category

/-- The message of a refusal. -/
def message (r : Refusal) : String := r.report.message

/-- Whether a refusal is a conflict. -/
def isConflict (r : Refusal) : Bool := r.category = .conflict

end Refusal

end SnapshotArchive
