import SnapshotArchive.Failure
import SnapshotArchive.Properties
import SnapshotArchive.Text.Case

/-!
# Nodes

A `Node` is a stored node of the tree, a `NodeForm` one as a client describes it. What a node holds
besides its name depends on its kind: a configuration has a description, a snapshot is a draft or
committed with a comment. A name is not blank, has no blanks around it, and is free of the slash
that paths are made with.

* `checkName_eq_ok_iff` : which names pass, and what is kept of them.
-/

namespace SnapshotArchive

open Text

/-! ### Names -/

/-- Whether a text can be the name of a node. -/
def IsName (s : String) : Prop :=
  s ≠ "" ∧ strip s = s ∧ '/' ∉ s.toList

/-- Checks a name and gives it without blanks around it; `what` is the word for its bearer. -/
def checkName (what : String) (name : Option String) : Except Failure String := do
  let given := name.getD ""
  let stripped := strip given
  ensure (stripped ≠ "") (.blankName what)
  ensure ('/' ∉ stripped.toList) (.slashInName what given)
  return stripped

/-- What passes as a name, with the blanks around it dropped, is one. -/
theorem checkName_eq_ok_iff {what : String} {name : Option String} {s : String} :
    checkName what name = .ok s ↔ s = strip (name.getD "") ∧ IsName s := by
  unfold checkName IsName
  simp only [demand_bind_eq_ok_iff, pure, Except.pure, Except.ok.injEq]
  constructor
  · rintro ⟨h₁, h₂, rfl⟩
    exact ⟨rfl, h₁, strip_strip _, h₂⟩
  · rintro ⟨rfl, h₁, _, h₂⟩
    exact ⟨h₁, h₂, rfl⟩

/-! ### Content -/

/-- The states of a snapshot. -/
inductive Status where
  | draft
  | committed
  deriving DecidableEq

/-- The word for a state. -/
def Status.label : Status → String
  | draft => "draft"
  | committed => "committed"

/-- The state that a word names. -/
def Status.ofLabel? : String → Option Status
  | "draft" => some draft
  | "committed" => some committed
  | _ => none

/-- What a node holds, by its kind. -/
inductive Content where
  | folder
  | configuration (description : String)
  | snapshot (status : Status) (comment : String)
  deriving DecidableEq

namespace Content

/-- The kind of node that a content belongs to. -/
def kind : Content → Kind
  | folder => .folder
  | configuration _ => .configuration
  | snapshot _ _ => .snapshot

/-- Whether the content is that of an uncommitted snapshot. -/
def isDraft : Content → Bool
  | snapshot .draft _ => true
  | _ => false

end Content

/-- A payload as a client gives it. -/
inductive Payload where
  | configuration (description : String)
  | snapshot (status : Status) (comment : String)
  deriving DecidableEq

/-- The content of a node of some kind with the given payload, or the default one. -/
def Content.ofPayload : Kind → Option Payload → Except Failure Content
  | .folder, none => .ok .folder
  | .folder, some _ => .error (.refused .folderWithPayload)
  | .configuration, none => .ok (.configuration "")
  | .configuration, some (.configuration description) => .ok (.configuration description)
  | .configuration, some (.snapshot _ _) => .error (.refused .configurationWithoutPayload)
  | .snapshot, none => .ok (.snapshot .draft "")
  | .snapshot, some (.snapshot status comment) => .ok (.snapshot status comment)
  | .snapshot, some (.configuration _) => .error (.refused .snapshotWithoutPayload)

/-! ### Nodes -/

/-- A stored node. -/
structure Node where
  id : Id
  /-- The node that holds it; only the root has none. -/
  parent : Option Id
  name : String
  content : Content
  /-- Set on an uncommitted snapshot, whose name siblings need not avoid. -/
  draft : Bool
  /-- The place among the children of the parent. -/
  position : Nat
  properties : Properties
  /-- The time of creation, in milliseconds. -/
  created : Int
  /-- The time of the last change, in milliseconds. -/
  modified : Int
  /-- Who created or last changed it. -/
  user : String
  /-- Grows with every change. -/
  version : Nat
  deriving DecidableEq

/-- The kind of a node. -/
def Node.kind (n : Node) : Kind := n.content.kind

/-- A node as a client describes it. -/
structure NodeForm where
  id : Id
  parent : Option Id
  name : Option String
  content : Content
  properties : Properties
  created : Int
  modified : Int
  user : Option String
  version : Int
  deriving DecidableEq

/-- The kind of a described node. -/
def NodeForm.kind (n : NodeForm) : Kind := n.content.kind

/-- The property that marks a snapshot as golden. -/
def goldenKey : String := "golden"

/-- Whether properties mark their node as golden, in any letter case. -/
def Properties.isGolden (p : Properties) : Bool :=
  lower ((p.get? goldenKey).getD "false") = "true"

/-- Properties whose values may be other than text. -/
def Properties.ofTexts (es : List (String × Option String)) : Except Failure Properties := do
  ensure (es.all (·.2.isSome)) .propertyNotText
  return .ofList (es.map fun e => (e.1, e.2.getD ""))

/-- The line of a listing for a node. -/
def listingLine (kind : Kind) (name : Option String) (properties : Properties) (isDraft : Bool)
    (id : Id) : String :=
  let mark := if properties.isGolden then " *" else if isDraft then " (draft)" else ""
  s!"[{kind.label}] {plain name}{mark}  {id}"

/-- The line of a listing for a stored node. -/
def Node.line (n : Node) : String :=
  listingLine n.kind n.name n.properties n.content.isDraft n.id

/-- The line of a listing for a described node. -/
def NodeForm.line (n : NodeForm) : String :=
  listingLine n.kind n.name n.properties n.content.isDraft n.id

/-- The folder that a new archive starts with. -/
def rootNode (now : Int) : Node where
  id := rootId
  parent := none
  name := rootName
  content := .folder
  draft := false
  position := 0
  properties := .empty
  created := now
  modified := now
  user := "system"
  version := 1

end SnapshotArchive
