/-!
# Identifiers and kinds of node

Nodes and process variables have identifiers, opaque texts that never change. The root of the tree
has a fixed one. The tree holds folders, configurations and snapshots. Folders hold folders and
configurations, a configuration holds snapshots, and a snapshot holds nothing.

* `Kind.ofLabel?_label` : a kind is read back from its label.
* `Kind.mayHold_iff` : the containment rules, spelled out.
-/

namespace SnapshotArchive

/-! ### Identifiers -/

/-- An identifier. -/
abbrev Id := String

/-- The identifier of the root folder. -/
def rootId : Id := "44bef5de-e8e6-4014-af37-b8f6c8a939a2"

/-- The name of the root folder, which is in no path. -/
def rootName : String := "Save & Restore Root"

/-! ### Kinds -/

/-- The kinds of node. -/
inductive Kind where
  | folder
  | configuration
  | snapshot
  deriving DecidableEq

namespace Kind

/-- The word for a kind in listings and messages. -/
def label : Kind → String
  | folder => "FOLDER"
  | configuration => "CONFIGURATION"
  | snapshot => "SNAPSHOT"

/-- The kind that a word names. -/
def ofLabel? : String → Option Kind
  | "FOLDER" => some folder
  | "CONFIGURATION" => some configuration
  | "SNAPSHOT" => some snapshot
  | _ => none

/-- A kind is read back from its label. -/
@[simp] theorem ofLabel?_label (k : Kind) : ofLabel? k.label = some k := by
  cases k <;> rfl

/-- Whether a node of the first kind may hold a child of the second. -/
def mayHold : Kind → Kind → Bool
  | folder, folder => true
  | folder, configuration => true
  | configuration, snapshot => true
  | _, _ => false

/-- The containment rules, spelled out. -/
theorem mayHold_iff {parent child : Kind} :
    parent.mayHold child ↔
      parent = folder ∧ (child = folder ∨ child = configuration) ∨
        parent = configuration ∧ child = snapshot := by
  cases parent <;> cases child <;> decide

/-- The kinds that move and copy take. -/
def isMovable : Kind → Bool
  | folder => true
  | configuration => true
  | snapshot => false

end Kind

end SnapshotArchive
