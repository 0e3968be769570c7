import Mathlib.Data.List.Forall2
import SnapshotArchive.Proofs.Configuring

/-!
# Which lists of variables pass

A list of variables is gone through once, with a record of the names met so far. It passes exactly
if no stripped name in it is blank or repeated; what passes is the list with its names stripped,
which passes again as it is. A list that does not pass is told one fault for each position whose
name is blank or is the name of an earlier position. The record holds no blank names, and each other
name once, but it decides as all earlier names would.

* `IsAtFault`, `faultAt`, `listFaults` : the faults by position, without a record.
* `pvFaults_congr`, `pvFaults_cons` : which names count, and the faults of an entry and of the rest.
* `pvFaults_eq_listFaults` : the faults that are found are those of the positions.
* `checkPvs_cleaned` : what passes, passes again as it is.
* `checkPvs_exact` : when a list passes, as what, and what it is told if it does not.
-/

namespace SnapshotArchive

open Text

/-! ### Faults by position -/

section

variable (pvs : List PvForm) (i : Fin pvs.length)

/-- Whether a position is at fault: its name is blank, or is the name of an earlier position. -/
def IsAtFault : Prop :=
  pvs[i].cleanName = "" ∨ ∃ j < i, pvs[j].cleanName = pvs[i].cleanName

instance : DecidablePred (IsAtFault pvs) :=
  fun _ => inferInstanceAs (Decidable (_ ∨ _))

/-- What a position is told if it is at fault. -/
def faultAt : PvFault :=
  if pvs[i].cleanName = "" then .unnamed else .repeated pvs[i].cleanName

/-- What a list is told: one fault for each position at fault, in the order of the list. -/
def listFaults : List PvFault :=
  ((List.finRange pvs.length).filter fun i => IsAtFault pvs i).map (faultAt pvs)

end

/-! ### The names that count -/

section

variable {seen seen' : List String} {pvs : List PvForm}

/-- Blank names in the record make no difference to an entry. -/
theorem PvForm.fault?_congr (h : ∀ name ≠ "", name ∈ seen ↔ name ∈ seen') (pv : PvForm) :
    pv.fault? seen = pv.fault? seen' := by
  unfold fault?
  by_cases hblank : pv.cleanName = ""
  · rw [if_pos hblank, if_pos hblank]
  · rw [if_neg hblank, if_neg hblank]
    simp only [h _ hblank]

/-- Records with the same names, blank ones aside, lead to the same faults. -/
theorem pvFaults_congr (h : ∀ name ≠ "", name ∈ seen ↔ name ∈ seen') (pvs : List PvForm) :
    pvFaults seen pvs = pvFaults seen' pvs := by
  induction pvs generalizing seen seen' with
  | nil => rfl
  | cons pv pvs ih =>
    rw [pvFaults, pvFaults, PvForm.fault?_congr h]
    cases pv.fault? seen' with
    | some fault => exact congrArg (fault :: ·) (ih h)
    | none =>
      apply ih
      intro name hname
      rw [List.mem_cons, List.mem_cons, h name hname]

/-- The name of an entry at fault is blank or in the record. -/
theorem PvForm.mem_of_fault? {pv : PvForm} {fault : PvFault} (h : pv.fault? seen = some fault) :
    pv.cleanName = "" ∨ pv.cleanName ∈ seen := by
  unfold fault? at h
  split at h
  · exact .inl ‹_›
  · split at h
    · exact .inr ‹_›
    · cases h

/-- The faults of a list are that of its first entry and those of the rest, for which the name of
the first may be recorded whether or not it was at fault. -/
theorem pvFaults_cons (seen : List String) (pv : PvForm) (pvs : List PvForm) :
    pvFaults seen (pv :: pvs) =
      (pv.fault? seen).toList ++ pvFaults (pv.cleanName :: seen) pvs := by
  rw [pvFaults]
  cases hfault : pv.fault? seen with
  | none => rfl
  | some fault =>
    -- The name of an entry at fault is not recorded, but it is blank or in the record already.
    have hsame : ∀ name ≠ "", name ∈ seen ↔ name ∈ pv.cleanName :: seen := by
      intro name hname
      rw [List.mem_cons]
      refine ⟨Or.inr, ?_⟩
      rintro (rfl | hseen)
      · exact (PvForm.mem_of_fault? hfault).resolve_left hname
      · exact hseen
    rw [Option.toList_some, List.singleton_append, pvFaults_congr hsame]

/-! ### From entry to entry, and by position -/

/-- The fault of a position after the names `seen` and all earlier names of the list. -/
def faultAfter? (seen : List String) (pvs : List PvForm) (i : Fin pvs.length) : Option PvFault :=
  pvs[i].fault? ((pvs.take i).map PvForm.cleanName ++ seen)

/-- The fault of the first entry depends on the names seen before alone. -/
theorem faultAfter?_zero (seen : List String) (pv : PvForm) (pvs : List PvForm) :
    faultAfter? seen (pv :: pvs) (0 : Fin (pvs.length + 1)) = pv.fault? seen :=
  rfl

/-- The first name of a list counts as one of the names before the rest. -/
theorem faultAfter?_succ (seen : List String) (pv : PvForm) (pvs : List PvForm)
    (i : Fin pvs.length) :
    faultAfter? seen (pv :: pvs) i.succ = faultAfter? (pv.cleanName :: seen) pvs i := by
  have hfirst : faultAfter? seen (pv :: pvs) i.succ =
      pvs[i].fault? (pv.cleanName :: ((pvs.take i).map PvForm.cleanName ++ seen)) := rfl
  rw [hfirst, faultAfter?]
  exact PvForm.fault?_congr (fun _ _ => List.perm_middle.symm.mem_iff) pvs[i]

/-- The walk over a list finds the fault of each position. -/
theorem pvFaults_eq_filterMap (seen : List String) (pvs : List PvForm) :
    pvFaults seen pvs = (List.finRange pvs.length).filterMap (faultAfter? seen pvs) := by
  induction pvs generalizing seen with
  | nil => rfl
  | cons pv pvs ih =>
    have hpositions : List.finRange (pv :: pvs).length =
        (0 : Fin (pvs.length + 1)) :: (List.finRange pvs.length).map Fin.succ :=
      List.finRange_succ
    have hrest : faultAfter? seen (pv :: pvs) ∘ Fin.succ =
        faultAfter? (pv.cleanName :: seen) pvs := by
      funext i
      rw [Function.comp_apply, faultAfter?_succ]
    rw [pvFaults_cons, ih, hpositions, List.filterMap_cons, List.filterMap_map, hrest,
      faultAfter?_zero]
    cases pv.fault? seen with
    | none => rfl
    | some fault => rfl

/-- The names before a position are those of the earlier positions. -/
theorem mem_names_take_iff {i : Fin pvs.length} {name : String} :
    name ∈ (pvs.take i).map PvForm.cleanName ↔ ∃ j < i, pvs[j].cleanName = name := by
  rw [List.mem_map]
  constructor
  · rintro ⟨pv, hpv, hname⟩
    obtain ⟨j, hj, rfl⟩ := List.mem_take_iff_getElem.1 hpv
    have hbounds : j < i ∧ j < pvs.length := Nat.lt_min.1 hj
    exact ⟨⟨j, hbounds.2⟩, hbounds.1, hname⟩
  · rintro ⟨j, hji, hname⟩
    exact ⟨pvs[j], List.mem_take_iff_getElem.2 ⟨j, Nat.lt_min.2 ⟨hji, j.isLt⟩, rfl⟩, hname⟩

/-- The names before a position decide whether it is at fault. -/
theorem faultAfter?_nil (pvs : List PvForm) (i : Fin pvs.length) :
    faultAfter? [] pvs i = if IsAtFault pvs i then some (faultAt pvs i) else none := by
  unfold faultAfter? PvForm.fault? faultAt
  rw [List.append_nil]
  by_cases hblank : pvs[i].cleanName = ""
  · have hfault : IsAtFault pvs i := .inl hblank
    rw [if_pos hblank, if_pos hfault, if_pos hblank]
  · have hrepeated : pvs[i].cleanName ∈ (pvs.take i).map PvForm.cleanName ↔ IsAtFault pvs i :=
      mem_names_take_iff.trans (or_iff_right hblank).symm
    simp only [hblank, hrepeated, if_false]

/-- The faults that are found are those of the positions. -/
theorem pvFaults_eq_listFaults (pvs : List PvForm) : pvFaults [] pvs = listFaults pvs := by
  have hall : faultAfter? [] pvs =
      fun i => if IsAtFault pvs i then some (faultAt pvs i) else none :=
    funext (faultAfter?_nil pvs)
  rw [pvFaults_eq_filterMap, hall, listFaults, ← List.filterMap_eq_map, List.filterMap_filter]
  simp only [decide_eq_true_eq, Function.comp_apply]

end

/-! ### What is kept -/

/-- What a list that passes keeps of an entry. -/
structure PvForm.IsCleaned (pv kept : PvForm) : Prop where
  name : kept.name = some (strip (pv.name.getD ""))
  readback : kept.readback =
    if strip (pv.readback.getD "") = "" then none else some (strip (pv.readback.getD ""))
  readOnly : kept.readOnly = pv.readOnly
  id : kept.id = pv.id

/-- A text is kept stripped, and left out if nothing remains. -/
theorem nonBlank_eq_ite (s : Option String) :
    nonBlank s = if strip (s.getD "") = "" then none else some (strip (s.getD "")) := by
  unfold nonBlank
  cases s with
  | none => rfl
  | some s =>
    rw [Option.map_some, Option.filter_some, Option.getD_some]
    by_cases hblank : strip s = ""
    · rw [if_pos hblank, if_neg (by simp [hblank])]
    · rw [if_neg hblank, if_pos (by simp [hblank])]

/-- Kept so once, it is kept as it is. -/
theorem nonBlank_nonBlank (s : Option String) : nonBlank (nonBlank s) = nonBlank s := by
  rw [nonBlank_eq_ite s]
  split
  · rfl
  · rename_i hblank
    rw [nonBlank_eq_ite, Option.getD_some, strip_strip, if_neg hblank]

namespace PvForm

variable (pv : PvForm)

/-- Cleaning an entry gives its cleaned form. -/
theorem isCleaned_cleaned : pv.IsCleaned pv.cleaned where
  name := rfl
  readback := nonBlank_eq_ite pv.readback
  readOnly := rfl
  id := rfl

/-- Cleaning twice is cleaning once. -/
theorem cleaned_cleaned : pv.cleaned.cleaned = pv.cleaned := by
  rw [cleaned, pv.cleanName_cleaned]
  simp only [cleaned, nonBlank_nonBlank]

end PvForm

section

variable {pvs cleaned : List PvForm}

/-- What passes, passes again as it is. -/
theorem checkPvs_cleaned (h : checkPvs pvs = .ok cleaned) : checkPvs cleaned = .ok cleaned := by
  obtain ⟨-, rfl⟩ := cleanPvs_eq_ok_iff.1 (checkPvs_ok_iff.1 h)
  refine checkPvs_ok_iff.2 (cleanPvs_eq_ok_iff.2 ⟨⟨fun pv hpv => ?_, checkPvs_nodup h⟩, ?_⟩)
  · exact (checkPvs_names h pv hpv).1
  · rw [List.map_map]
    exact List.map_congr_left fun pv _ => pv.cleaned_cleaned.symm

/-- A list is accepted exactly if its clean names are not empty and differ. -/
theorem exists_checkPvs_eq_ok_iff :
    (∃ cleaned, checkPvs pvs = .ok cleaned) ↔
      (∀ pv ∈ pvs, pv.cleanName ≠ "") ∧ (pvs.map PvForm.cleanName).Nodup := by
  simp only [checkPvs_ok_iff, cleanPvs_eq_ok_iff, exists_and_left, exists_eq, and_true]

/-- A list that does not pass is told what is wrong with its positions. -/
theorem eq_of_checkPvs_eq_error {failure : Failure} (h : checkPvs pvs = .error failure) :
    failure = .refused (.badPvs (listFaults pvs)) := by
  unfold checkPvs cleanPvs at h
  rw [pvFaults_eq_listFaults] at h
  cases hfaults : listFaults pvs with
  | nil =>
    rw [hfaults] at h
    cases h
  | cons fault faults =>
    rw [hfaults] at h
    exact (Except.error.inj h).symm

end

/-! ### Exactly the clean lists -/

/-- A list passes exactly if no stripped name in it is blank and no two are the same. What passes
has an entry for each of the list, in the same order, with the name stripped, the readback name
stripped or left out if it is blank, and the rest as it was; it passes again as it is. A list that
does not pass is told one fault for each position whose name is blank or the name of an earlier
position, in the order of the list. -/
theorem checkPvs_exact (pvs : List PvForm) :
    ((∃ cleaned, checkPvs pvs = .ok cleaned) ↔
      (∀ pv ∈ pvs, pv.cleanName ≠ "") ∧ (pvs.map PvForm.cleanName).Nodup) ∧
    (∀ cleaned, checkPvs pvs = .ok cleaned →
      List.Forall₂ PvForm.IsCleaned pvs cleaned ∧ checkPvs cleaned = .ok cleaned) ∧
    ∀ failure, checkPvs pvs = .error failure →
      ∃ r : Refusal, failure = .refused r ∧
        r.report = .invalid "Invalid PV list" "pv_list" ((listFaults pvs).map PvFault.message) := by
  refine ⟨exists_checkPvs_eq_ok_iff, fun cleaned h => ⟨?_, checkPvs_cleaned h⟩, fun failure h => ?_⟩
  · obtain ⟨-, rfl⟩ := cleanPvs_eq_ok_iff.1 (checkPvs_ok_iff.1 h)
    rw [List.forall₂_map_right_iff, List.forall₂_same]
    exact fun pv _ => pv.isCleaned_cleaned
  · exact ⟨_, eq_of_checkPvs_eq_error h, rfl⟩

namespace Sample

/-- A description with a name and a readback name. -/
def described (name readback : Option String) : PvForm :=
  ⟨name, readback, true, some "7"⟩

/-- Two names with blanks around them: a tab, a no-break space and an em space. -/
def padded : List PvForm :=
  [described (some "\ta ") (some "\u00a0"), described (some "b") (some " r\u2003")]

/-- Of the names, the third is the first once stripped, and so is the last; the second and the
fourth are nothing else than blanks. -/
def muddled : List PvForm :=
  [described (some "a") none, described none none, described (some "\u2003a\t") none,
    described (some "\u00a0\u001f") none, described (some "b") none, described (some " a") none]

end Sample

/-- A list with blanks around its names, and one with two names missing and two repeated. -/
theorem checkPvs_exact_muddled :
    (∃ cleaned, checkPvs Sample.padded = .ok cleaned ∧
      List.Forall₂ PvForm.IsCleaned Sample.padded cleaned ∧ checkPvs cleaned = .ok cleaned) ∧
    ∃ failure, checkPvs Sample.muddled = .error failure ∧
      ∃ r : Refusal, failure = .refused r ∧ r.report = .invalid "Invalid PV list" "pv_list"
        ["PV name cannot be empty", "Duplicate PV name: a", "PV name cannot be empty",
          "Duplicate PV name: a"] := by
  obtain ⟨hpasses, hcleaned, -⟩ := checkPvs_exact Sample.padded
  obtain ⟨-, -, htold⟩ := checkPvs_exact Sample.muddled
  obtain ⟨cleaned, hok⟩ := hpasses.2 (by decide +kernel)
  have herror : checkPvs Sample.muddled = .error (.refused (.badPvs
      [.unnamed, .repeated "a", .unnamed, .repeated "a"])) := by decide +kernel
  obtain ⟨r, hr, hreport⟩ := htold _ herror
  have hfaults : (listFaults Sample.muddled).map PvFault.message =
      ["PV name cannot be empty", "Duplicate PV name: a", "PV name cannot be empty",
        "Duplicate PV name: a"] := by decide +kernel
  rw [hfaults] at hreport
  exact ⟨⟨cleaned, hok, hcleaned cleaned hok⟩, _, herror, r, hr, hreport⟩

end SnapshotArchive
