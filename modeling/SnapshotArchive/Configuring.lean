import SnapshotArchive.Node
import SnapshotArchive.Write
import SnapshotArchive.Store.Query

/-!
# Configurations

A configuration is created and updated together with its list of variables. Items of snapshots
refer to variables by identifier, so an update matches variables by name and keeps their
identifiers: a variable that is listed again is brought back, one that is no longer listed is kept
as a retired one while an item refers to it.
-/

namespace SnapshotArchive

open Text

/-- A configuration as a client describes it. -/
structure ConfigurationForm where
  node : NodeForm
  pvs : List PvForm
  isConfiguration : node.kind = .configuration
  deriving DecidableEq

/-- A configuration with the given node, which must be of that kind. -/
def ConfigurationForm.make (node : NodeForm) (pvs : List PvForm) :
    Except Failure ConfigurationForm :=
  if h : node.kind = .configuration then .ok ⟨node, pvs, h⟩
  else .error (.refused (.notAConfiguration node.kind))

/-- The list with its names stripped; refused if a name is blank or repeated. -/
def checkPvs (pvs : List PvForm) : Except Failure (List PvForm) :=
  match cleanPvs pvs with
  | .ok cleaned => .ok cleaned
  | .error faults => .error (.refused (.badPvs faults))

namespace Store

/-! ### Creation -/

/-- Adds the variables of a list to a configuration, from a position on. -/
def addPvs (c : Context) (config : Id) (position : Nat) :
    List PvForm → Store → Except Failure Store
  | [], s => .ok s
  | pv :: pvs, s => do
    let s ← s.insertPv
      { id := c.fresh (position + 1)
        config
        name := pv.cleanName
        readback := pv.readback
        readOnly := pv.readOnly
        position
        active := true }
    addPvs c config (position + 1) pvs s

end Store

/-- Creates a configuration with its variables. -/
def createConfiguration (c : Context) (parent : Id) (form : ConfigurationForm)
    (user : Option String) : Write Configuration := fun _ => do
  let name ← checkName "Configuration" form.node.name
  let pvs ← checkPvs form.pvs
  return fun s => do
    let p ← s.require parent
    let id := c.fresh 0
    let s ← s.addNode c id p name form.node.content false form.node.properties
      (author user form.node.user)
    let s ← s.addPvs c id 0 pvs
    return (← s.configuration id, s)

/-! ### Update -/

namespace Store

/-- The variable that an update keeps for a name: the active one, or else the last retired one. -/
def keptPv? (s : Store) (config : Id) (name : String) : Option Pv :=
  (s.activePv? config name).or
    ((s.pvsOf config).reverse.find? fun pv => pv.name = name && !pv.active)

/-- Brings the variables of a list into a configuration, from a position on; `old` is the store
before the update, `used` the number of identifiers used. -/
def listPvs (c : Context) (config : Id) (old : Store) (position used : Nat) :
    List PvForm → Store → Except Failure Store
  | [], s => .ok s
  | pv :: pvs, s =>
    match old.keptPv? config pv.cleanName with
    | some kept => do
      let s ← s.changePv kept.id fun q =>
        { q with readback := pv.readback, readOnly := pv.readOnly, position, active := true }
      listPvs c config old (position + 1) used pvs s
    | none => do
      let s ← s.insertPv
        { id := c.fresh used
          config
          name := pv.cleanName
          readback := pv.readback
          readOnly := pv.readOnly
          position
          active := true }
      listPvs c config old (position + 1) (used + 1) pvs s

/-- Whether an item refers to a variable. -/
def isReferenced (s : Store) (pv : Id) : Bool :=
  s.items.any (·.pv = pv)

/-- Takes a variable off the list: retired if an item refers to it, and else deleted. -/
def unlistPv (s : Store) (pv : Id) : Store :=
  if s.isReferenced pv then s.mapPv pv fun q => { q with active := false } else s.removePv pv

/-- Makes the variables of a configuration those of a list. -/
def replacePvs (c : Context) (config : Id) (pvs : List PvForm) (s : Store) :
    Except Failure Store := do
  let listed ← s.listPvs c config 0 0 pvs s
  let names := pvs.map (·.cleanName)
  let dropped := (s.activePvs config).filter (·.name ∉ names)
  return dropped.foldl (fun s pv => s.unlistPv pv.id) listed

end Store

/-- Replaces the name, the description, the properties and the variables of a configuration. A
version other than zero must be the stored one. -/
def updateConfiguration (c : Context) (form : ConfigurationForm) (user : Option String) :
    Write Configuration := fun _ => do
  let name ← checkName "Configuration" form.node.name
  let pvs ← checkPvs form.pvs
  return fun s => do
    let stored ← s.requireToWrite form.node.id .configuration
    ensure (form.node.version = 0 ∨ form.node.version = stored.version)
      (.configurationChanged stored.id)
    let _ ← if name = stored.name then .ok ()
      else s.checkNameFree stored.parent .configuration name stored.id
    let s ← s.changeNode stored.id fun n =>
      { n with
        name
        content := form.node.content
        properties := form.node.properties
        modified := c.now
        user := (author (author user form.node.user) n.user).getD n.user
        version := n.version + 1 }
    let s ← s.replacePvs c stored.id pvs
    return (← s.configuration stored.id, s)

/-! ### Renaming a variable -/

/-- Renames a variable of a configuration; it keeps its identifier. -/
def renamePv (c : Context) (config : Id) (old new : Option String) (user : Option String) :
    Write Pv := fun _ => do
  let name := strip (new.getD "")
  ensure (name ≠ "") .blankPvName
  return fun s => do
    let _ ← s.requireToWrite config .configuration
    match old.bind (s.activePv? config) with
    | none => throw (.refused (.noPv config old))
    | some pv =>
      ensure (name = pv.name ∨ (s.activePv? config name).isNone) (.pvTaken config name)
      let s ← s.changePv pv.id fun q => { q with name }
      let s ← s.touch c config user
      match (s.activePvs config).find? (·.id = pv.id) with
      | some renamed => return (renamed, s)
      | none => throw (.notCopied pv.id)

end SnapshotArchive
