import SnapshotArchive.Kind
import SnapshotArchive.Text.Class

/-!
# Process variables

A configuration lists process variables. A `PvForm` is one as a client describes it, a `Pv` one as
it is stored. A variable that a configuration no longer lists stays as a retired one while items
refer to it.

* `cleanPvs` : checks a list of descriptions and strips the names in it.
* `cleanPvs_eq_ok_iff` : a list passes exactly if no name in it is blank or repeated.
-/

namespace SnapshotArchive

open Text

/-- A process variable as a client describes it. -/
structure PvForm where
  name : Option String
  readback : Option String
  readOnly : Bool
  id : Option Id
  deriving DecidableEq

/-- A stored process variable of a configuration. -/
structure Pv where
  id : Id
  config : Id
  name : String
  readback : Option String
  readOnly : Bool
  position : Nat
  /-- Whether the configuration lists it; a retired one is kept for the items that refer to it. -/
  active : Bool
  deriving DecidableEq

/-! ### Checking a list -/

/-- What is wrong with an entry of a list of process variables. -/
inductive PvFault where
  | unnamed
  | repeated (name : String)
  deriving DecidableEq

/-- The message of a fault. -/
def PvFault.message : PvFault → String
  | unnamed => "PV name cannot be empty"
  | repeated name => s!"Duplicate PV name: {name}"

/-- The name of a description without blanks around it; empty if there is none. -/
def PvForm.cleanName (pv : PvForm) : String :=
  strip (pv.name.getD "")

/-- A text without blanks around it, unless nothing is left. -/
def nonBlank (s : Option String) : Option String :=
  (s.map strip).filter (· ≠ "")

/-- The description with its names stripped. -/
def PvForm.cleaned (pv : PvForm) : PvForm :=
  { pv with name := some pv.cleanName, readback := nonBlank pv.readback }

/-- The fault of an entry after the names `seen`. -/
def PvForm.fault? (seen : List String) (pv : PvForm) : Option PvFault :=
  if pv.cleanName = "" then some .unnamed
  else if pv.cleanName ∈ seen then some (.repeated pv.cleanName)
  else none

/-- The faults of a list, in its order, after the names `seen`. -/
def pvFaults (seen : List String) : List PvForm → List PvFault
  | [] => []
  | pv :: pvs =>
    match pv.fault? seen with
    | some fault => fault :: pvFaults seen pvs
    | none => pvFaults (pv.cleanName :: seen) pvs

/-- The list with its names stripped, if no name is blank or repeated. -/
def cleanPvs (pvs : List PvForm) : Except (List PvFault) (List PvForm) :=
  match pvFaults [] pvs with
  | [] => .ok (pvs.map PvForm.cleaned)
  | faults => .error faults

/-! ### Lists that pass -/

/-- No fault is found exactly if no name is blank, met before or repeated. -/
theorem pvFaults_eq_nil_iff {seen : List String} {pvs : List PvForm} :
    pvFaults seen pvs = [] ↔
      (∀ pv ∈ pvs, pv.cleanName ≠ "" ∧ pv.cleanName ∉ seen) ∧
        (pvs.map PvForm.cleanName).Nodup := by
  induction pvs generalizing seen with
  | nil => simp [pvFaults]
  | cons pv pvs ih =>
    rw [pvFaults]
    unfold PvForm.fault?
    split
    · rename_i fault h
      constructor
      · simp
      · intro ⟨hall, _⟩
        have := hall pv List.mem_cons_self
        simp [this.1, this.2] at h
    · rename_i h
      split at h
      · cases h
      · split at h
        · cases h
        · rename_i hne hseen
          rw [ih, List.map_cons, List.nodup_cons]
          constructor
          · intro ⟨hall, hnodup⟩
            refine ⟨fun q hq => ?_, fun hmem => ?_, hnodup⟩
            · rcases List.mem_cons.1 hq with rfl | hq
              · exact ⟨hne, hseen⟩
              · exact ⟨(hall q hq).1, fun hs => (hall q hq).2 (List.mem_cons_of_mem _ hs)⟩
            · obtain ⟨q, hq, he⟩ := List.mem_map.1 hmem
              exact (hall q hq).2 (he ▸ List.mem_cons_self)
          · intro ⟨hall, hmem, hnodup⟩
            refine ⟨fun q hq => ⟨(hall q (List.mem_cons_of_mem _ hq)).1, fun hs => ?_⟩, hnodup⟩
            rcases List.mem_cons.1 hs with he | hs
            · exact hmem (he ▸ List.mem_map_of_mem hq)
            · exact (hall q (List.mem_cons_of_mem _ hq)).2 hs

/-- A list passes exactly if no name in it is blank or repeated, and is then cleaned. -/
theorem cleanPvs_eq_ok_iff {pvs cleaned : List PvForm} :
    cleanPvs pvs = .ok cleaned ↔
      ((∀ pv ∈ pvs, pv.cleanName ≠ "") ∧ (pvs.map PvForm.cleanName).Nodup) ∧
        cleaned = pvs.map PvForm.cleaned := by
  have hnil : pvFaults [] pvs = [] ↔ _ := pvFaults_eq_nil_iff
  simp only [List.not_mem_nil, not_false_eq_true, and_true] at hnil
  unfold cleanPvs
  split
  · rename_i h
    rw [h] at hnil
    have hp := hnil.1 rfl
    exact ⟨fun he => ⟨hp, (Except.ok.inj he).symm⟩, fun he => by rw [he.2]⟩
  · rename_i h
    constructor
    · simp
    · intro ⟨hp, _⟩
      exact absurd (hnil.2 hp) h

end SnapshotArchive
