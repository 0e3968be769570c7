import SnapshotArchive.Archive
import SnapshotArchive.Record
import SnapshotArchive.Value
import SnapshotArchive.Value.Reader

/-!
# Stored archives

An archive is kept as a document: a record of its four tables, each a list of records in the order
of the table.

* `Archive.toText`, `Archive.ofText?` : an archive as the text of such a document.
-/

namespace SnapshotArchive

/-! ### Writing -/

/-- The document of a node: what clients see of it, its place and whether it is a draft. -/
def Node.toDocument (n : Node) : Value :=
  n.record.withFields [("draft", .truth n.draft), ("position", .whole n.position)]

/-- The document of a variable. -/
def Pv.toDocument (pv : Pv) : Value :=
  pv.record.withFields [("config_id", .text pv.config), ("position", .whole pv.position),
    ("active", .truth pv.active)]

/-- The document of an item. -/
def Item.toDocument (item : Item) : Value :=
  .record [("snapshot_id", .text item.snapshot), ("config_pv_id", .text item.pv),
    ("value", item.value), ("readback_value", item.readback), ("timestamp", .whole item.timestamp),
    ("alarm_severity", .text item.severity), ("alarm_status", .text item.status),
    ("position", .whole item.position)]

/-- The document of an archive. -/
def Archive.toDocument (a : Archive) : Value :=
  let tables (s : Store) : Value :=
    .record [("nodes", .list (s.nodes.map Node.toDocument)),
      ("config_pvs", .list (s.pvs.map Pv.toDocument)),
      ("snapshot_items", .list (s.items.map Item.toDocument)),
      ("tags", .list (s.tags.map Tag.record))]
  .record [("write_ahead", .truth a.writeAhead), ("tables", (a.store.map tables).getD .null)]

/-! ### Reading -/

namespace Value

/-- The text in a field. -/
def textIn? (v : Value) (name : String) : Option String :=
  (v.field? name).bind text?

/-- The whole number in a field. -/
def wholeIn? (v : Value) (name : String) : Option Int :=
  (v.field? name).bind whole?

/-- The truth value in a field. -/
def truthIn? (v : Value) (name : String) : Option Bool :=
  (v.field? name).bind truth?

/-- The values of a list in a field, each taken apart. -/
def listIn? {α : Type} (v : Value) (name : String) (take? : Value → Option α) : Option (List α) :=
  (v.field? name).bind list? >>= List.mapM take?

end Value

/-- The fields of a record that are texts. -/
def Value.texts : Value → List (String × String)
  | record fields => fields.filterMap fun f => f.2.text?.map (f.1, ·)
  | _ => []

/-- The node of a document. -/
def Node.ofDocument? (v : Value) : Option Node := do
  let kind ← Kind.ofLabel? (← v.textIn? "node_type")
  let payload ← (Payload.ofRecord kind ((← v.field? "payload").texts)).toOption
  return {
    id := ← v.textIn? "unique_id"
    parent := v.textIn? "parent_id"
    name := ← v.textIn? "name"
    content := ← (Content.ofPayload kind payload).toOption
    draft := ← v.truthIn? "draft"
    position := (← v.wholeIn? "position").toNat
    properties := .ofList (← v.field? "properties").texts
    created := ← v.wholeIn? "created_time"
    modified := ← v.wholeIn? "last_modified_time"
    user := ← v.textIn? "user_name"
    version := (← v.wholeIn? "version").toNat }

/-- The variable of a document. -/
def Pv.ofDocument? (v : Value) : Option Pv := do
  return {
    id := ← v.textIn? "pv_id"
    config := ← v.textIn? "config_id"
    name := ← v.textIn? "pv_name"
    readback := v.textIn? "readback_pv_name"
    readOnly := ← v.truthIn? "read_only"
    position := (← v.wholeIn? "position").toNat
    active := ← v.truthIn? "active" }

/-- The item of a document. -/
def Item.ofDocument? (v : Value) : Option Item := do
  return {
    snapshot := ← v.textIn? "snapshot_id"
    pv := ← v.textIn? "config_pv_id"
    value := ← v.field? "value"
    readback := ← v.field? "readback_value"
    timestamp := ← v.wholeIn? "timestamp"
    severity := ← v.textIn? "alarm_severity"
    status := ← v.textIn? "alarm_status"
    position := (← v.wholeIn? "position").toNat }

/-- The tag of a document. -/
def Tag.ofDocument? (v : Value) : Option Tag := do
  return {
    snapshot := ← v.textIn? "snapshot_id"
    name := ← v.textIn? "name"
    comment := ← v.textIn? "comment"
    user := ← v.textIn? "user_name"
    created := ← v.wholeIn? "created_time" }

/-- The archive of a document. -/
def Archive.ofDocument? (v : Value) : Option Archive := do
  let writeAhead ← v.truthIn? "write_ahead"
  match ← v.field? "tables" with
  | .null => return ⟨writeAhead, none⟩
  | tables =>
    let store : Store := {
      nodes := ← tables.listIn? "nodes" Node.ofDocument?
      pvs := ← tables.listIn? "config_pvs" Pv.ofDocument?
      items := ← tables.listIn? "snapshot_items" Item.ofDocument?
      tags := ← tables.listIn? "tags" Tag.ofDocument? }
    return ⟨writeAhead, some store⟩

/-! ### As text -/

/-- An archive as text. -/
def Archive.toText (a : Archive) : String :=
  a.toDocument.pretty ++ "\n"

/-- The archive of a text. -/
def Archive.ofText? (s : String) : Option Archive :=
  (Value.ofText? s).bind Archive.ofDocument?

end SnapshotArchive
