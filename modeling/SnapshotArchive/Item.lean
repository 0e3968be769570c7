import SnapshotArchive.Pv
import SnapshotArchive.Value
import SnapshotArchive.Text.Quoted

/-!
# Items and tags

A snapshot holds one item for each process variable of its configuration. An `ItemForm` is one as
a client captured it, an `Item` one as it is stored. A tag is a named and commented label on a
committed snapshot.

* `matchItems` : pairs the variables of a configuration with the captured items, in their order.
-/

namespace SnapshotArchive

open Text

/-- A value as a client captured it. The variable is meant by its identifier if it has one that is
not empty, and else by its name. -/
structure ItemForm where
  pv : PvForm
  value : Value
  readback : Value
  timestamp : Option Int
  severity : Option String
  status : Option String

/-- A stored item of a snapshot. -/
structure Item where
  snapshot : Id
  pv : Id
  value : Value
  readback : Value
  timestamp : Int
  severity : String
  status : String
  position : Nat

/-- A tag as a client describes it. -/
structure TagForm where
  name : Option String
  comment : Option String
  user : Option String
  created : Option Int
  snapshot : Option Id
  deriving DecidableEq

/-- A stored tag. -/
structure Tag where
  snapshot : Id
  name : String
  comment : String
  user : String
  created : Int
  deriving DecidableEq

/-! ### Pairing items with variables -/

/-- What is wrong with captured items. -/
inductive ItemFault where
  | unknown (name : Option String)
  | repeated (name : Option String)
  | missing (name : Option String)
  deriving DecidableEq

/-- The message of a fault. -/
def ItemFault.message : ItemFault → String
  | unknown name => s!"PV '{plain name}' is not part of the configuration"
  | repeated name => s!"Duplicate item for PV '{plain name}'"
  | missing name => s!"Missing item for PV '{plain name}'"

section

variable {α : Type} (describe : α → PvForm)

/-- The variable that a captured item means; of several the last. -/
def meant? (pvs : List α) (item : ItemForm) : Option α :=
  match item.pv.id.filter (· ≠ "") with
  | some id => pvs.reverse.find? fun pv => (describe pv).id = some id
  | none => pvs.reverse.find? fun pv => (describe pv).name = item.pv.name

/-- Goes through captured items: the faults in their order, and the first item taken for each
identifier, after those already `taken`. -/
def takeItems (pvs : List α) (taken : List (Option Id × ItemForm)) :
    List ItemForm → List ItemFault × List (Option Id × ItemForm)
  | [] => ([], taken)
  | item :: items =>
    match meant? describe pvs item with
    | none =>
      let (faults, all) := takeItems pvs taken items
      (.unknown item.pv.name :: faults, all)
    | some pv =>
      if (taken.lookup (describe pv).id).isSome then
        let (faults, all) := takeItems pvs taken items
        (.repeated (describe pv).name :: faults, all)
      else takeItems pvs (taken ++ [((describe pv).id, item)]) items

/-- The faults for the variables that no item was taken for. -/
def missingItems (pvs : List α) (taken : List (Option Id × ItemForm)) : List ItemFault :=
  (pvs.filter fun pv => (taken.lookup (describe pv).id).isNone).map fun pv =>
    .missing (describe pv).name

/-- Each variable with its item, in the order of the variables. The items must refer to variables
of the list, and to each of them once. -/
def matchItems (pvs : List α) (items : List ItemForm) :
    Except (List ItemFault) (List (α × ItemForm)) :=
  let (faults, taken) := takeItems describe pvs [] items
  match faults ++ missingItems describe pvs taken with
  | [] => .ok (pvs.filterMap fun pv => (taken.lookup (describe pv).id).map (pv, ·))
  | all => .error all

end

/-- A stored variable as clients refer to it. -/
def Pv.describe (pv : Pv) : PvForm where
  name := some pv.name
  readback := pv.readback
  readOnly := pv.readOnly
  id := some pv.id

end SnapshotArchive
