import SnapshotArchive.Node
import SnapshotArchive.Write
import SnapshotArchive.Store.Query

/-!
# Snapshots and their tags

A snapshot holds one captured item for each variable that its configuration lists. Saved without a
name and a comment it is a draft, of which a configuration has one, and saving again overwrites it;
saved with both it is committed. A draft can also be committed later. A committed snapshot never
changes, except that it can be marked as golden and tagged. Adding and removing a tag answers with
the tags of the snapshot, the newest first.
-/

namespace SnapshotArchive

open Text

namespace Store

/-- The draft of a configuration; of several the newest. -/
def draft? (s : Store) (config : Id) : Option Node :=
  ((s.nodes.filter fun n => n.parent = some config && n.kind = .snapshot && n.draft).mergeSort
    fun a b => b.created ≤ a.created).head?

/-- Gives a draft a name and a content. If that commits it, the name must be free. -/
def reviseDraft (s : Store) (c : Context) (n : Node) (name : String) (status : Status)
    (comment : String) (user : Option String) : Except Failure Store := do
  let _ ← if status = .committed then s.checkNameFree n.parent .snapshot name none else .ok ()
  let author ← present .nodeUser user
  s.changeNode n.id fun m =>
    { m with
      name
      draft := status = .draft
      content := .snapshot status comment
      modified := c.now
      user := author
      version := m.version + 1 }

/-! ### Items -/

/-- The whole numbers that fit into a record: those of 64 bits with a sign. -/
def fitsRecord (n : Int) : Prop :=
  -9223372036854775808 ≤ n ∧ n ≤ 9223372036854775807

instance (n : Int) : Decidable (fitsRecord n) :=
  inferInstanceAs (Decidable (_ ∧ _))

/-- The record of a captured item. -/
def itemRecord (snapshot pv : Id) (position : Nat) (form : ItemForm) : Except Failure Item := do
  demand (∀ t ∈ form.timestamp, fitsRecord t) .outOfRange
  let timestamp ← present .itemTimestamp form.timestamp
  let severity ← present .itemSeverity form.severity
  let status ← present .itemStatus form.status
  return {
    snapshot
    pv
    value := form.value
    readback := form.readback
    timestamp
    severity
    status
    position }

/-- Adds captured items to a snapshot, from a position on. -/
def addItems (snapshot : Id) (position : Nat) :
    List (Pv × ItemForm) → Store → Except Failure Store
  | [], s => .ok s
  | (pv, form) :: pairs, s => do
    let item ← itemRecord snapshot pv.id position form
    let s ← s.insertItem item
    addItems snapshot (position + 1) pairs s

/-- The captured items of a configuration, paired with its variables. -/
def pairItems (s : Store) (config : Id) (items : List ItemForm) :
    Except Failure (List (Pv × ItemForm)) :=
  match matchItems Pv.describe (s.activePvs config) items with
  | .ok pairs => .ok pairs
  | .error faults => .error (.refused (.badItems faults))

end Store

/-- Whether the values of a captured item can be stored. -/
def ItemForm.isStorable (form : ItemForm) : Bool :=
  form.value.isStorable && form.readback.isStorable

/-! ### Saving -/

/-- The snapshot to write into: the draft of the configuration without its items, or a new one. -/
def Store.openSnapshot (s : Store) (c : Context) (config : Node) (name : String) (status : Status)
    (comment : String) (user : Option String) : Except Failure (Id × Store) :=
  match s.draft? config.id with
  | some draft => do
    let s ← s.reviseDraft c draft name status comment user
    return (draft.id, s.removeItemsOf draft.id)
  | none => do
    let id := c.fresh 0
    let s ← s.addNode c id config name (.snapshot status comment) (status = .draft) .empty user
    return (id, s)

/-- Saves captured items as a draft, or with a name and a comment as a committed snapshot. -/
def saveSnapshot (c : Context) (config : Id) (items : List ItemForm) (name comment : Option String)
    (user : Option String) : Write Snapshot := fun _ => do
  let name := strip (name.getD "")
  let comment := strip (comment.getD "")
  ensure (name = "" ↔ comment = "") (.halfCommit (if name = "" then "name" else "comment"))
  let status : Status := if name = "" then .draft else .committed
  let name ← if status = .committed then checkName "Snapshot" name else .ok name
  return fun s => do
    let node ← s.requireToWrite config .configuration
    let pairs ← s.pairItems config items
    let (id, s) ← s.openSnapshot c node name status comment user
    match pairs.find? fun pair => !pair.2.isStorable with
    | some pair => throw (.refused (.notStorable pair.1.name))
    | none =>
      let s ← s.addItems id 0 pairs
      return (← s.snapshot id, s)

/-- Commits a draft under a name and a comment. -/
def commitSnapshot (c : Context) (id : Id) (name comment : Option String) (user : Option String) :
    Write Node := fun _ => do
  let comment := strip (comment.getD "")
  let name ← checkName "Snapshot" name
  ensure (comment ≠ "") .blankComment
  return fun s => do
    let n ← s.requireToWrite id .snapshot
    ensure (n.content.isDraft) (.alreadyCommitted id)
    let s ← s.reviseDraft c n name .committed comment user
    s.answerNode id

/-! ### Golden snapshots -/

namespace Store

/-- Sets or clears the golden mark of a node. -/
def setGolden (s : Store) (c : Context) (id : Id) (golden : Bool) : Store :=
  s.mapNode id fun n =>
    { n with
      properties := if golden then n.properties.insert goldenKey "true"
        else n.properties.erase goldenKey
      modified := c.now
      version := n.version + 1 }

/-- The other golden snapshots of the same configuration. -/
def goldenSiblings (s : Store) (n : Node) : List Node :=
  s.nodes.filter fun m =>
    m.parent.isSome && m.parent = n.parent && m.kind = .snapshot && m.id ≠ n.id &&
      m.properties.isGolden

end Store

/-- Sets or clears the golden mark of a committed snapshot; with `exclusive`, setting it clears that
of the other snapshots of the configuration. -/
def markGolden (c : Context) (exclusive : Bool) (id : Id) (golden : Bool) : Write Node := fun _ =>
  return fun s => do
    let n ← s.requireToWrite id .snapshot
    ensure (n.content.isDraft = false) .draftGolden
    let others := if golden && exclusive then s.goldenSiblings n else []
    let s := others.foldl (fun s m => s.setGolden c m.id false) s
    let s := s.setGolden c n.id golden
    s.answerNode n.id

/-! ### Tags -/

/-- Adds a tag to a committed snapshot. A tag without a time is of now. -/
def addTag (c : Context) (id : Id) (form : TagForm) : Write (List Tag) := fun _ => do
  let name := strip (form.name.getD "")
  ensure (name ≠ "") .blankTagName
  return fun s => do
    let n ← s.requireToWrite id .snapshot
    ensure (n.content.isDraft = false) .draftTagged
    ensure (s.tags.all fun t => t.snapshot ≠ n.id || t.name ≠ name) (.tagTaken n.id name)
    let created := (form.created.filter (· ≠ 0)).getD c.now
    demand (Store.fitsRecord created) .outOfRange
    let s ← s.insertTag
      { snapshot := n.id
        name
        comment := form.comment.getD ""
        user := form.user.getD ""
        created }
    return (s.tagsOf n.id, s)

/-- Removes the tag with the name from a snapshot. A tag that says where it belongs must belong
there. -/
def removeTag (id : Id) (form : TagForm) : Write (List Tag) := fun _ => do
  ensure (∀ owner ∈ form.snapshot, owner = "" ∨ owner = id) (.tagElsewhere id form.name)
  return fun s => do
    let _ ← s.requireToRead id .snapshot
    ensure (s.tags.any fun t => t.snapshot = id && some t.name = form.name) (.noTag id form.name)
    let s := s.removeTag id (form.name.getD "")
    return (s.tagsOf id, s)

end SnapshotArchive
