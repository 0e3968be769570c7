import SnapshotArchive.Store.Query
import SnapshotArchive.Configuring

/-!
# Records for clients

The records in which clients see the contents of an archive. A described node, variable, item or
tag has the same fields as a stored one.

* `Node.record`, `Reading.record`, `Tag.record` : what clients see of a node, an item and a tag.
* `Payload.ofRecord` : reads what a node holds from a record.
-/

namespace SnapshotArchive

namespace Value

/-- A text, or nothing. -/
def ofOption : Option String → Value
  | some s => text s
  | none => null

/-- A record with further fields. -/
def withFields (more : List (String × Value)) : Value → Value
  | record fields => record (fields ++ more)
  | v => v

end Value

/-! ### Nodes -/

/-- The record of properties. -/
def Properties.record (p : Properties) : Value :=
  .record (p.entries.map fun e => (e.1, .text e.2))

/-- The record of what a node holds. -/
def Content.record : Content → Value
  | folder => .record []
  | configuration description => .record [("description", .text description)]
  | snapshot status comment =>
    .record [("status", .text status.label), ("comment", .text comment)]

/-- The record of a described node. -/
def NodeForm.record (n : NodeForm) : Value :=
  .record [
    ("unique_id", .text n.id),
    ("name", .ofOption n.name),
    ("node_type", .text n.kind.label),
    ("parent_id", .ofOption n.parent),
    ("properties", n.properties.record),
    ("created_time", .whole n.created),
    ("last_modified_time", .whole n.modified),
    ("user_name", .ofOption n.user),
    ("payload", n.content.record),
    ("version", .whole n.version)]

/-- A stored node as clients describe it. -/
def Node.form (n : Node) : NodeForm where
  id := n.id
  parent := n.parent
  name := n.name
  content := n.content
  properties := n.properties
  created := n.created
  modified := n.modified
  user := n.user
  version := n.version

/-- The record of a stored node. -/
def Node.record (n : Node) : Value := n.form.record

/-- The payload that a record describes, for a node of the kind. Fields that are left out have
their defaults. -/
def Payload.ofRecord (kind : Kind) (fields : List (String × String)) :
    Except String (Option Payload) :=
  let comment := (fields.lookup "comment").getD ""
  match kind with
  | .folder => .ok none
  | .configuration => .ok (some (.configuration ((fields.lookup "description").getD "")))
  | .snapshot =>
    match fields.lookup "status" with
    | none => .ok (some (.snapshot .draft comment))
    | some word =>
      match Status.ofLabel? word with
      | some status => .ok (some (.snapshot status comment))
      | none => .error word

/-- The record of a payload. -/
def Payload.record : Payload → Value
  | configuration description => (Content.configuration description).record
  | snapshot status comment => (Content.snapshot status comment).record

/-! ### Variables, items and tags -/

/-- The record of a described variable. -/
def PvForm.record (pv : PvForm) : Value :=
  .record [
    ("pv_id", .ofOption pv.id),
    ("pv_name", .ofOption pv.name),
    ("readback_pv_name", .ofOption pv.readback),
    ("read_only", .truth pv.readOnly)]

/-- The record of a stored variable. -/
def Pv.record (pv : Pv) : Value := pv.describe.record

/-- The record of a captured item. -/
def ItemForm.record (item : ItemForm) : Value :=
  .record [
    ("config_pv", item.pv.record),
    ("value", item.value),
    ("readback_value", item.readback),
    ("timestamp", (item.timestamp.map Value.whole).getD .null),
    ("alarm_severity", .ofOption item.severity),
    ("alarm_status", .ofOption item.status)]

/-- A stored item as clients capture it. -/
def Reading.form (r : Reading) : ItemForm where
  pv := r.pv.describe
  value := r.item.value
  readback := r.item.readback
  timestamp := r.item.timestamp
  severity := r.item.severity
  status := r.item.status

/-- The record of a stored item. -/
def Reading.record (r : Reading) : Value := r.form.record

/-- The record of a described tag. -/
def TagForm.record (tag : TagForm) : Value :=
  .record [
    ("name", .ofOption tag.name),
    ("comment", .ofOption tag.comment),
    ("user_name", .ofOption tag.user),
    ("created_time", (tag.created.map Value.whole).getD .null),
    ("snapshot_id", .ofOption tag.snapshot)]

/-- A stored tag as clients describe it. -/
def Tag.form (tag : Tag) : TagForm where
  name := tag.name
  comment := tag.comment
  user := tag.user
  created := tag.created
  snapshot := tag.snapshot

/-- The record of a stored tag. -/
def Tag.record (tag : Tag) : Value := tag.form.record

/-! ### Configurations, snapshots and counts -/

/-- The record of the variables of a configuration. -/
def pvsRecord (config : Id) (pvs : List Value) : Value :=
  .record [("unique_id", .text config), ("pv_list", .list pvs)]

/-- The record of a described configuration. -/
def ConfigurationForm.record (c : ConfigurationForm) : Value :=
  .record [("node", c.node.record), ("data", pvsRecord "" (c.pvs.map PvForm.record))]

/-- The record of what a stored configuration lists. -/
def Configuration.data (c : Configuration) : Value :=
  pvsRecord c.node.id (c.pvs.map Pv.record)

/-- The record of a stored configuration. -/
def Configuration.record (c : Configuration) : Value :=
  .record [("node", c.node.record), ("data", c.data)]

/-- The record of the items of a stored snapshot. -/
def Snapshot.data (s : Snapshot) : Value :=
  .record [
    ("unique_id", .text s.node.id),
    ("snapshot_items", .list (s.readings.map Reading.record))]

/-- The record of a stored snapshot. -/
def Snapshot.record (s : Snapshot) : Value :=
  .record [("node", s.node.record), ("data", s.data)]

/-- The counts by name, in ascending order of names. -/
def Stats.entries (s : Stats) : List (String × Nat) :=
  [("config_pvs", s.pvs), ("configuration", s.configurations), ("draft_snapshots", s.drafts),
    ("folder", s.folders), ("snapshot", s.snapshots), ("snapshot_items", s.items),
    ("tags", s.tags)]

/-- The record of counts. -/
def Stats.record (s : Stats) : Value :=
  .record (s.entries.map fun e => (e.1, .whole e.2))

end SnapshotArchive
