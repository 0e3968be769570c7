import SnapshotArchive.Item
import SnapshotArchive.Proofs.Committed
import SnapshotArchive.Proofs.Completeness.Snapshots
import SnapshotArchive.Proofs.Completeness.Variables

/-!
# Updating a list of variables, written down

An update goes through the list of a client and brings the variables in one by one, each under the
identifier of the variable that is kept for its name or under a new one, and then takes off what is
not in the list. What it leaves can be written down at once: the variables that the list becomes
(`Store.listedFor`) are put into the table (`Store.putPv`), and those that were active and are none
of them are retired or deleted (`Store.relist`).

* `Store.replacePvs_eq_ok` : what an update leaves.
* `Store.activePvs_relist` : a configuration lists the variables that the list becomes.
* `Store.IsOwned.appliesList_relist` : what becomes of each variable.
* `Store.IsOwned.relist_of_listed` : another update with the same list changes nothing.
-/

namespace SnapshotArchive

open Text Store

/-! ### The identifiers in a list -/

/-- A description without the identifier that a client gives. -/
def PvForm.anonymous (form : PvForm) : PvForm :=
  { form with id := none }

section

variable {c : Context} {config : Id} {forms : List PvForm}

/-- The identifiers in a list do not matter to its faults. -/
theorem pvFaults_map_anonymous {seen : List String} :
    pvFaults seen (forms.map PvForm.anonymous) = pvFaults seen forms := by
  induction forms generalizing seen with
  | nil => rfl
  | cons form forms ih =>
    have hfault : form.anonymous.fault? seen = form.fault? seen := rfl
    have hname : form.anonymous.cleanName = form.cleanName := rfl
    rw [List.map_cons, pvFaults, pvFaults, hfault, hname]
    split <;> rw [ih]

/-- Nor to its check. -/
theorem checkPvs_map_anonymous : checkPvs (forms.map PvForm.anonymous) =
    (checkPvs forms).map (List.map PvForm.anonymous) := by
  unfold checkPvs cleanPvs
  rw [pvFaults_map_anonymous]
  cases pvFaults [] forms with
  | nil =>
    refine congrArg Except.ok ?_
    rw [List.map_map, List.map_map]
    rfl
  | cons => rfl

/-- Nor to what is stored of it. -/
theorem Store.listPvs_map_anonymous {old t : Store} {position used : Nat} :
    old.listPvs c config position used (forms.map PvForm.anonymous) t =
      old.listPvs c config position used forms t := by
  induction forms generalizing t position used with
  | nil => rfl
  | cons form forms ih =>
    rw [List.map_cons, listPvs, listPvs]
    have hname : form.anonymous.cleanName = form.cleanName := rfl
    rw [hname]
    cases old.keptPv? config form.cleanName with
    | some kept => exact bind_congr fun _ => ih
    | none => exact bind_congr fun _ => ih

/-- Nor to what takes the place of the old list. -/
theorem Store.replacePvs_map_anonymous {s : Store} :
    s.replacePvs c config (forms.map PvForm.anonymous) = s.replacePvs c config forms := by
  have hnames : (forms.map PvForm.anonymous).map (·.cleanName) = forms.map (·.cleanName) := by
    rw [List.map_map]
    rfl
  unfold replacePvs
  simp only [listPvs_map_anonymous, hnames]

end

/-! ### What an update makes -/

/-- The variable that a description becomes. -/
def PvForm.listed (form : PvForm) (config id : Id) (position : Nat) : Pv where
  id
  config
  name := form.cleanName
  readback := form.readback
  readOnly := form.readOnly
  position
  active := true

section

variable {form : PvForm} {config id : Id} {position : Nat}

/-- An entry is listed under the identifier given to it. -/
@[simp] theorem PvForm.id_listed : (form.listed config id position).id = id := rfl

/-- It is listed for the configuration. -/
@[simp] theorem PvForm.config_listed : (form.listed config id position).config = config := rfl

/-- It is listed by its clean name. -/
@[simp] theorem PvForm.name_listed : (form.listed config id position).name = form.cleanName := rfl

end

namespace Store

/-- The store with a variable in it: in the place of the one that has its identifier, or behind all
others. -/
def putPv (s : Store) (q : Pv) : Store :=
  if (s.pv? q.id).isSome then s.replacePv q else { s with pvs := s.pvs ++ [q] }

/-- The variables that a list becomes, from a position on; `used` is the number of identifiers
used. -/
def listedFor (s : Store) (c : Context) (config : Id) (position used : Nat) :
    List PvForm → List Pv
  | [] => []
  | form :: forms =>
    match s.keptPv? config form.cleanName with
    | some kept =>
      form.listed config kept.id position :: s.listedFor c config (position + 1) used forms
    | none =>
      form.listed config (c.fresh used) position ::
        s.listedFor c config (position + 1) (used + 1) forms

/-- The variables that a configuration lists and a list does not name. -/
def dropped (s : Store) (config : Id) (forms : List PvForm) : List Pv :=
  (s.activePvs config).filter (·.name ∉ forms.map PvForm.cleanName)

/-- The store with the variables of a configuration made those of a list. -/
def relist (s : Store) (c : Context) (config : Id) (forms : List PvForm) : Store :=
  (s.dropped config forms).foldl (fun s pv => s.unlistPv pv.id)
    ((s.listedFor c config 0 0 forms).foldl putPv s)

variable {s t u : Store} {c : Context} {config : Id} {position used : Nat} {forms : List PvForm}

/-! ### Putting variables in -/

/-- A variable whose identifier is taken replaces the one that has it. -/
theorem putPv_of_id_eq {p q : Pv} (hp : p ∈ s.pvs) (hid : p.id = q.id) :
    s.putPv q = s.replacePv q :=
  if_pos (List.find?_isSome.2 ⟨p, hp, by simp [hid]⟩)

/-- One whose identifier is new is appended. -/
theorem putPv_of_new {q : Pv} (h : (s.pv? q.id).isNone) :
    s.putPv q = { s with pvs := s.pvs ++ [q] } :=
  if_neg (by simpa using h)

/-- After it is put, the store has it and the variables of other identifiers. -/
theorem mem_putPv_iff {q o : Pv} :
    o ∈ (s.putPv q).pvs ↔ o = q ∨ o ∈ s.pvs ∧ o.id ≠ q.id := by
  unfold putPv
  split
  · rename_i hsome
    obtain ⟨p, hp⟩ := Option.isSome_iff_exists.1 hsome
    obtain ⟨hp, hid⟩ := pv?_eq_some hp
    rw [mem_replacePv_iff]
    exact or_congr_left (and_iff_left ⟨p, hp, hid⟩)
  · rename_i hnone
    have hnew : ∀ o ∈ s.pvs, o.id ≠ q.id := pv?_isNone_iff.1 (by simpa using hnone)
    rw [List.mem_append, List.mem_singleton, or_comm]
    exact or_congr_right ⟨fun ho => ⟨ho, hnew o ho⟩, And.left⟩

/-- Putting a variable that is stored changes nothing. -/
theorem putPv_of_mem (hids : (s.pvs.map (·.id)).Nodup) {q : Pv} (hq : q ∈ s.pvs) :
    s.putPv q = s := by
  have hsame : s.pvs.map (fun p => if p.id = q.id then q else p) = s.pvs := by
    refine (List.map_congr_left fun p hp => ?_).trans (List.map_id _)
    split
    · exact pv_eq_of_id_eq hids hq hp (Eq.symm ‹_›)
    · rfl
  rw [putPv_of_id_eq hq rfl, replacePv, hsame]

/-- The identifiers of variables still differ. -/
theorem nodup_putPv (hids : (s.pvs.map (·.id)).Nodup) (q : Pv) :
    ((s.putPv q).pvs.map (·.id)).Nodup := by
  unfold putPv
  split
  · rw [map_id_replacePv]
    exact hids
  · rename_i hnone
    exact nodup_map_append_singleton hids (pv?_isNone_iff.1 (by simpa using hnone))

/-- The items are left as they are. -/
@[simp] theorem putPv_items (q : Pv) : (s.putPv q).items = s.items := by
  unfold putPv
  split <;> rfl

/-- Several variables that differ in their identifiers. -/
theorem mem_foldl_putPv_iff {pvs : List Pv} (hpvs : (pvs.map (·.id)).Nodup) {o : Pv} :
    o ∈ (pvs.foldl putPv s).pvs ↔ o ∈ pvs ∨ o ∈ s.pvs ∧ o.id ∉ pvs.map (·.id) := by
  induction pvs generalizing s with
  | nil => simp
  | cons pv pvs ih =>
    obtain ⟨hhead, hpvs⟩ := List.nodup_cons.1 hpvs
    rw [List.foldl_cons, ih hpvs, mem_putPv_iff, List.map_cons, List.mem_cons, List.mem_cons]
    constructor
    · rintro (ho | ⟨rfl | ⟨ho, hne⟩, hrest⟩)
      · exact .inl (.inr ho)
      · exact .inl (.inl rfl)
      · exact .inr ⟨ho, not_or.2 ⟨hne, hrest⟩⟩
    · rintro ((rfl | ho) | ⟨ho, hnot⟩)
      · exact .inr ⟨.inl rfl, hhead⟩
      · exact .inl ho
      · obtain ⟨hne, hrest⟩ := not_or.1 hnot
        exact .inr ⟨.inr ⟨ho, hne⟩, hrest⟩

/-- The identifiers differ after several variables were put. -/
theorem nodup_foldl_putPv (hids : (s.pvs.map (·.id)).Nodup) (pvs : List Pv) :
    ((pvs.foldl putPv s).pvs.map (·.id)).Nodup := by
  induction pvs generalizing s with
  | nil => exact hids
  | cons pv pvs ih => exact ih (nodup_putPv hids pv)

/-- Putting several that are stored changes nothing. -/
theorem foldl_putPv_of_forall_mem (hids : (s.pvs.map (·.id)).Nodup) {pvs : List Pv}
    (hpvs : ∀ q ∈ pvs, q ∈ s.pvs) : pvs.foldl putPv s = s := by
  induction pvs with
  | nil => rfl
  | cons pv pvs ih =>
    obtain ⟨hpv, hpvs⟩ := List.forall_mem_cons.1 hpvs
    rw [List.foldl_cons, putPv_of_mem hids hpv, ih hpvs]

/-- The items are left by several, too. -/
theorem foldl_putPv_items (pvs : List Pv) : (pvs.foldl putPv s).items = s.items := by
  induction pvs generalizing s with
  | nil => rfl
  | cons pv pvs ih => rw [List.foldl_cons, ih, putPv_items]

/-! ### What a list becomes -/

/-- The variables of one store are in another, be it with other readbacks, flags and positions. -/
def KeepsPvs (old t : Store) : Prop :=
  ∀ r ∈ old.pvs, ∃ p ∈ t.pvs, p.id = r.id ∧ p.config = r.config ∧ p.name = r.name

/-- A store keeps its own variables. -/
theorem KeepsPvs.refl (s : Store) : s.KeepsPvs s :=
  fun r hr => ⟨r, hr, rfl, rfl, rfl⟩

/-- Bringing a list in begins with putting in the variable that its head becomes: under the
identifier of the one that is kept for the name, or else under a new one. -/
theorem listPvs_cons_eq_ok {old : Store} {form : PvForm} (hids : (t.pvs.map (·.id)).Nodup)
    (hkept : old.KeepsPvs t)
    (h : old.listPvs c config position used (form :: forms) t = .ok u) :
    ∃ id next, old.listedFor c config position used (form :: forms) =
        form.listed config id position :: old.listedFor c config (position + 1) next forms ∧
      old.listPvs c config (position + 1) next forms (t.putPv (form.listed config id position)) =
        .ok u ∧
      old.KeepsPvs (t.putPv (form.listed config id position)) ∧
      (∀ kept, old.keptPv? config form.cleanName = some kept → id = kept.id) ∧
      (old.keptPv? config form.cleanName = none → (t.pv? id).isNone) := by
  rw [listPvs] at h
  rw [listedFor]
  cases hfound : old.keptPv? config form.cleanName with
  | some kept =>
    rw [hfound] at h
    obtain ⟨t₁, hchange, h⟩ := bind_eq_ok_iff.1 h
    obtain ⟨hmem, rfl⟩ := mem_of_keptPv? hfound
    obtain ⟨p, hp, hid, hpc, hpname⟩ := hkept kept hmem
    have hname := hpname.trans (name_of_keptPv? hfound)
    have hput : t₁ = t.putPv (form.listed kept.config kept.id position) := by
      rw [putPv_of_id_eq hp (hid.trans PvForm.id_listed.symm), changePv_eq_ok hchange, ← hid,
        mapPv_eq_replacePv hids hp rfl, hpc, hname, hid]
      rfl
    subst hput
    refine ⟨kept.id, used, rfl, h, fun r hr => ?_, fun k hk => ?_, fun hnone => ?_⟩
    · obtain ⟨q, hq, hqid, hqc, hqname⟩ := hkept r hr
      by_cases hsame : q.id = kept.id
      · obtain rfl := pv_eq_of_id_eq hids hq hp (hsame.trans hid.symm)
        refine ⟨_, mem_putPv_iff.2 (.inl rfl), ?_⟩
        rw [PvForm.id_listed, PvForm.config_listed, PvForm.name_listed, ← hid, ← hpc, ← hname]
        exact ⟨hqid, hqc, hqname⟩
      · rw [← @PvForm.id_listed form kept.config kept.id position] at hsame
        exact ⟨q, mem_putPv_iff.2 (.inr ⟨hq, hsame⟩), hqid, hqc, hqname⟩
    · rw [Option.some.inj hk]
    · cases hnone
  | none =>
    rw [hfound] at h
    obtain ⟨t₁, hinsert, h⟩ := bind_eq_ok_iff.1 h
    obtain ⟨hnew, -, -, hput⟩ := insertPv_eq_ok_iff.1 hinsert
    have hput : t₁ = t.putPv (form.listed config (c.fresh used) position) :=
      hput.symm.trans (putPv_of_new hnew).symm
    subst hput
    refine ⟨c.fresh used, used + 1, rfl, h, fun r hr => ?_, fun k hk => ?_, fun _ => hnew⟩
    · obtain ⟨q, hq, hrest⟩ := hkept r hr
      exact ⟨q, mem_putPv_iff.2 (.inr ⟨hq, pv?_isNone_iff.1 hnew q hq⟩), hrest⟩
    · cases hk

/-- Bringing a list in puts in the variables that it becomes. -/
theorem listPvs_eq_ok {old : Store} (hids : (t.pvs.map (·.id)).Nodup) (hkept : old.KeepsPvs t)
    (h : old.listPvs c config position used forms t = .ok u) :
    u = (old.listedFor c config position used forms).foldl putPv t := by
  induction forms generalizing t position used with
  | nil => exact (Except.ok.inj h).symm
  | cons form forms ih =>
    obtain ⟨id, next, hlisted, hrest, hkept, -⟩ := listPvs_cons_eq_ok hids hkept h
    rw [hlisted]
    exact ih (nodup_putPv hids _) hkept hrest

/-- Under which identifier a variable is brought in: that of the variable which is kept for its
name, or else a new one. -/
structure TakesId (s : Store) (c : Context) (config : Id) (used : Nat) (q : Pv) : Prop where
  kept : ∀ kept, s.keptPv? config q.name = some kept → q.id = kept.id
  new : s.keptPv? config q.name = none → ∃ j, used ≤ j ∧ q.id = c.fresh j

/-- With fewer identifiers used before, it takes one all the more. -/
theorem TakesId.mono {used' : Nat} {q : Pv} (h : s.TakesId c config used' q) (hle : used ≤ used') :
    s.TakesId c config used q :=
  ⟨h.kept, fun hnone => (h.new hnone).imp fun _ hj => ⟨Nat.le_trans hle hj.1, hj.2⟩⟩

/-- What a variable made from a list is like. -/
theorem mem_listedFor {q : Pv} (hq : q ∈ s.listedFor c config position used forms) :
    q.config = config ∧ q.active ∧ position ≤ q.position ∧ q.name ∈ forms.map PvForm.cleanName ∧
      s.TakesId c config used q := by
  induction forms generalizing position used with
  | nil => cases hq
  | cons form forms ih =>
    rw [listedFor] at hq
    cases hfound : s.keptPv? config form.cleanName with
    | some kept =>
      rw [hfound] at hq
      rcases List.mem_cons.1 hq with rfl | hq
      · refine ⟨rfl, rfl, Nat.le_refl _, List.mem_cons_self, fun k hk => ?_, fun hnone => ?_⟩
        · obtain rfl := Option.some.inj (hfound.symm.trans hk)
          rfl
        · cases hfound.symm.trans hnone
      · obtain ⟨hc, ha, hle, hname, hid⟩ := ih hq
        exact ⟨hc, ha, Nat.le_of_succ_le hle, List.mem_cons_of_mem _ hname, hid⟩
    | none =>
      rw [hfound] at hq
      rcases List.mem_cons.1 hq with rfl | hq
      · refine ⟨rfl, rfl, Nat.le_refl _, List.mem_cons_self, fun k hk => ?_, fun _ => ?_⟩
        · cases hfound.symm.trans hk
        · exact ⟨used, Nat.le_refl _, rfl⟩
      · obtain ⟨hc, ha, hle, hname, hid⟩ := ih hq
        exact ⟨hc, ha, Nat.le_of_succ_le hle, List.mem_cons_of_mem _ hname,
          hid.mono (Nat.le_succ used)⟩

/-- It keeps a stored identifier or takes a new one. -/
theorem takesId_of_mem_listedFor {q : Pv} (hq : q ∈ s.listedFor c config position used forms) :
    s.TakesId c config used q :=
  (mem_listedFor hq).2.2.2.2

/-- What a list becomes is numbered. -/
theorem map_position_listedFor : (s.listedFor c config position used forms).map (·.position) =
    List.range' position forms.length := by
  induction forms generalizing position used with
  | nil => rfl
  | cons form forms ih =>
    rw [listedFor, List.length_cons, List.range'_succ]
    split <;> exact congrArg (position :: ·) ih

/-- The list becomes variables in rising positions. -/
theorem pairwise_listedFor : (s.listedFor c config position used forms).Pairwise fun q r =>
    q.position < r.position := by
  have hpositions : ((s.listedFor c config position used forms).map (·.position)).Pairwise
      (· < ·) := map_position_listedFor ▸ List.pairwise_lt_range'
  exact List.pairwise_map.1 hpositions

/-- What a list becomes has identifiers that differ, and new ones where none is kept. -/
structure ListsApart (s : Store) (c : Context) (config : Id) (forms : List PvForm) : Prop where
  nodup : ((s.listedFor c config 0 0 forms).map (·.id)).Nodup
  new : ∀ q ∈ s.listedFor c config 0 0 forms, s.keptPv? config q.name = none →
    (s.pv? q.id).isNone

/-- Their identifiers differ. -/
theorem nodup_listedFor (hs : (s.pvs.map (·.id)).Nodup) (hinj : Function.Injective c.fresh)
    (hfresh : ∀ j, (s.pv? (c.fresh j)).isNone) (hnodup : (forms.map PvForm.cleanName).Nodup) :
    ((s.listedFor c config position used forms).map (·.id)).Nodup := by
  rw [List.Nodup, List.pairwise_map]
  induction forms generalizing position used with
  | nil => exact .nil
  | cons form forms ih =>
    obtain ⟨hhead, hnodup⟩ := List.nodup_cons.1 hnodup
    rw [listedFor]
    cases hfound : s.keptPv? config form.cleanName with
    | some kept =>
      obtain ⟨hmem, -⟩ := mem_of_keptPv? hfound
      refine List.pairwise_cons.2 ⟨fun r hr he => ?_, ih hnodup⟩
      obtain ⟨-, -, -, hname, hid⟩ := mem_listedFor hr
      cases hother : s.keptPv? config r.name with
      | some k =>
        obtain rfl := pv_eq_of_id_eq hs hmem (mem_of_keptPv? hother).1
          (Eq.trans he (hid.kept k hother))
        rw [← name_of_keptPv? hother, name_of_keptPv? hfound] at hname
        exact hhead hname
      | none =>
        obtain ⟨j, -, hj⟩ := hid.new hother
        exact pv?_isNone_iff.1 (hfresh j) kept hmem (Eq.trans he hj)
    | none =>
      refine List.pairwise_cons.2 ⟨fun r hr he => ?_, ih hnodup⟩
      obtain ⟨-, -, -, -, hid⟩ := mem_listedFor hr
      cases hother : s.keptPv? config r.name with
      | some k =>
        exact pv?_isNone_iff.1 (hfresh used) k (mem_of_keptPv? hother).1
          (Eq.trans he (hid.kept k hother)).symm
      | none =>
        obtain ⟨j, hj, hrj⟩ := hid.new hother
        have hused := hinj (Eq.trans he hrj)
        omega

/-- All that keeps the variables of a list apart. -/
theorem listsApart (hs : (s.pvs.map (·.id)).Nodup) (hinj : Function.Injective c.fresh)
    (hfresh : ∀ j, (s.pv? (c.fresh j)).isNone) (hnodup : (forms.map PvForm.cleanName).Nodup) :
    s.ListsApart c config forms where
  nodup := nodup_listedFor hs hinj hfresh hnodup
  new q hq hnone := by
    obtain ⟨j, -, hj⟩ := (takesId_of_mem_listedFor hq).new hnone
    exact hj ▸ hfresh j

/-- If a list could be brought in, no identifier was given twice, and a new one was not in use. -/
theorem listPvs_apart {old : Store} (hold : (old.pvs.map (·.id)).Nodup)
    (hids : (t.pvs.map (·.id)).Nodup) (hkept : old.KeepsPvs t)
    (hnodup : (forms.map PvForm.cleanName).Nodup)
    (h : old.listPvs c config position used forms t = .ok u) :
    ((old.listedFor c config position used forms).map (·.id)).Nodup ∧
      ∀ q ∈ old.listedFor c config position used forms, old.keptPv? config q.name = none →
        (t.pv? q.id).isNone := by
  induction forms generalizing t position used with
  | nil => exact ⟨.nil, nofun⟩
  | cons form forms ih =>
    obtain ⟨hhead, hnodup⟩ := List.nodup_cons.1 hnodup
    obtain ⟨id, next, hlisted, hrest, hkept', hold', hnew'⟩ := listPvs_cons_eq_ok hids hkept h
    obtain ⟨hapart, hnew⟩ := ih (nodup_putPv hids _) hkept' hnodup hrest
    -- What is new in the store after the head was put in is new before, and is not the head.
    have hlater {q : Pv} (hq : q ∈ old.listedFor c config (position + 1) next forms)
        (hnone : old.keptPv? config q.name = none) : q.id ≠ id ∧ (t.pv? q.id).isNone := by
      have hfree := pv?_isNone_iff.1 (hnew q hq hnone)
      refine ⟨fun he => hfree _ (mem_putPv_iff.2 (.inl rfl)) he.symm, pv?_isNone_iff.2 ?_⟩
      intro p hp he
      by_cases hid : p.id = id
      · exact hfree _ (mem_putPv_iff.2 (.inl rfl)) (hid.symm.trans he)
      · exact hfree p (mem_putPv_iff.2 (.inr ⟨hp, hid⟩)) he
    rw [hlisted, List.map_cons, List.nodup_cons, List.forall_mem_cons]
    refine ⟨⟨fun hmem => ?_, hapart⟩, hnew', fun q hq hnone => (hlater hq hnone).2⟩
    obtain ⟨r, hr, he⟩ := List.mem_map.1 hmem
    obtain ⟨-, -, -, hname, hid⟩ := mem_listedFor hr
    cases hother : old.keptPv? config r.name with
    | none => exact (hlater hr hother).1 he
    | some k =>
      have hk := (mem_of_keptPv? hother).1
      have hkid : k.id = id := (hid.kept k hother).symm.trans he
      cases hfound : old.keptPv? config form.cleanName with
      | none =>
        obtain ⟨p, hp, hpid, -⟩ := hkept k hk
        exact pv?_isNone_iff.1 (hnew' hfound) p hp (hpid.trans hkid)
      | some kept =>
        obtain rfl := pv_eq_of_id_eq hold hk (mem_of_keptPv? hfound).1
          (hkid.trans (hold' kept hfound))
        rw [← name_of_keptPv? hother, name_of_keptPv? hfound] at hname
        exact hhead hname

/-- A list of stripped names becomes variables with just these names, readbacks and flags. -/
theorem map_describe_listedFor
    (hclean : ∀ form ∈ forms, form.name = some form.cleanName) :
    (s.listedFor c config position used forms).map (·.describe.anonymous) =
      forms.map PvForm.anonymous := by
  induction forms generalizing position used with
  | nil => rfl
  | cons form forms ih =>
    obtain ⟨hname, hclean⟩ := List.forall_mem_cons.1 hclean
    have hhead (id : Id) :
        (form.listed config id position).describe.anonymous = form.anonymous := by
      rw [PvForm.anonymous, PvForm.anonymous, hname]
      rfl
    rw [listedFor]
    split <;> rw [List.map_cons, List.map_cons, ih hclean, hhead]

/-! ### The variables that a configuration lists -/

/-- A configuration lists its active variables as any list of them in which the positions grow. -/
theorem activePvs_eq (hids : (t.pvs.map (·.id)).Nodup) {pvs : List Pv}
    (hpvs : pvs.Pairwise fun q r => q.position < r.position)
    (hmem : ∀ q, q ∈ pvs ↔ q ∈ t.pvs ∧ q.config = config ∧ q.active) :
    t.activePvs config = pvs := by
  have hsorted : (t.activePvs config).Pairwise fun q r => q.position ≤ r.position := by
    have hall : (t.pvsOf config).Pairwise fun q r => decide (q.position ≤ r.position) :=
      List.pairwise_mergeSort (fun q r o hqr hro => by simp only [decide_eq_true_eq] at *; omega)
        (fun q r => by simp only [Bool.or_eq_true, decide_eq_true_eq]; omega) _
    exact (hall.imp of_decide_eq_true).filter _
  have hnodup : (t.activePvs config).Nodup := by
    refine List.Nodup.filter _ ((List.mergeSort_perm _ _).nodup_iff.2 ?_)
    exact (List.Nodup.of_map _ hids).filter _
  have hpositions : (pvs.map (·.position)).Nodup :=
    List.pairwise_map.2 (hpvs.imp Nat.ne_of_lt)
  have hperm : (t.activePvs config).Perm pvs :=
    (List.perm_ext_iff_of_nodup hnodup hpositions.of_map).2 fun q => by
      rw [mem_activePvs_iff, hmem]
  refine hperm.eq_of_pairwise (fun q r hq hr hqr hrq => ?_) hsorted (hpvs.imp Nat.le_of_lt)
  exact List.inj_on_of_nodup_map hpositions (hperm.mem_iff.1 hq) hr (Nat.le_antisymm hqr hrq)

/-! ### Taking variables off -/

/-- Taking a variable off the list leaves the items. -/
@[simp] theorem unlistPv_items (id : Id) : (s.unlistPv id).items = s.items := by
  unfold unlistPv
  split
  · rfl
  · rename_i hfree
    refine List.filter_eq_self.2 fun item hitem => decide_eq_true ?_
    rintro rfl
    exact hfree (List.any_eq_true.2 ⟨item, hitem, by simp⟩)

/-- The others stay, and it stays retired if an item refers to it. -/
theorem mem_unlistPv_iff (hids : (s.pvs.map (·.id)).Nodup) {q o : Pv} (hq : q ∈ s.pvs) :
    o ∈ (s.unlistPv q.id).pvs ↔
      o ∈ s.pvs ∧ o.id ≠ q.id ∨ s.isReferenced q.id ∧ o = { q with active := false } := by
  unfold unlistPv
  split
  · rename_i href
    rw [mapPv_eq_replacePv hids hq rfl, mem_replacePv_iff, or_comm]
    refine or_congr_right ⟨fun ho => ⟨href, ho.1⟩, fun ho => ⟨ho.2, q, hq, rfl⟩⟩
  · rename_i href
    rw [mem_pvs_removePv_iff]
    exact ⟨.inl, fun ho => ho.elim id fun ho => absurd ho.1 href⟩

/-- The identifiers that remain differ. -/
theorem nodup_unlistPv (hids : (s.pvs.map (·.id)).Nodup) (id : Id) :
    ((s.unlistPv id).pvs.map (·.id)).Nodup := by
  unfold unlistPv
  split
  · rw [mapPv, List.map_map]
    have hsame : s.pvs.map (Pv.id ∘ fun q => if q.id = id then { q with active := false } else q) =
        s.pvs.map (·.id) := by
      refine List.map_congr_left fun q _ => ?_
      rw [Function.comp_apply]
      split <;> rfl
    exact hsame ▸ hids
  · exact hids.sublist (List.filter_sublist.map _)

/-- They differ after several were taken off. -/
theorem nodup_foldl_unlistPv (hids : (s.pvs.map (·.id)).Nodup) (pvs : List Pv) :
    ((pvs.foldl (fun s pv => s.unlistPv pv.id) s).pvs.map (·.id)).Nodup := by
  induction pvs generalizing s with
  | nil => exact hids
  | cons pv pvs ih => exact ih (nodup_unlistPv hids pv.id)

/-- Several variables that differ in their identifiers. -/
theorem mem_foldl_unlistPv_iff (hids : (s.pvs.map (·.id)).Nodup) {pvs : List Pv}
    (hpvs : ∀ q ∈ pvs, q ∈ s.pvs) (hnodup : (pvs.map (·.id)).Nodup) {o : Pv} :
    o ∈ (pvs.foldl (fun s pv => s.unlistPv pv.id) s).pvs ↔
      o ∈ s.pvs ∧ o.id ∉ pvs.map (·.id) ∨
        ∃ q ∈ pvs, s.isReferenced q.id ∧ o = { q with active := false } := by
  induction pvs generalizing s with
  | nil => simp
  | cons q pvs ih =>
    obtain ⟨hq, hpvs⟩ := List.forall_mem_cons.1 hpvs
    obtain ⟨hhead, hnodup⟩ := List.nodup_cons.1 hnodup
    have hne : ∀ r ∈ pvs, r.id ≠ q.id := fun r hr he => hhead (List.mem_map.2 ⟨r, hr, he⟩)
    have hrest : ∀ r ∈ pvs, r ∈ (s.unlistPv q.id).pvs := fun r hr =>
      (mem_unlistPv_iff hids hq).2 (.inl ⟨hpvs r hr, hne r hr⟩)
    have href : ∀ id, (s.unlistPv q.id).isReferenced id = s.isReferenced id := fun id => by
      rw [isReferenced, unlistPv_items, isReferenced]
    rw [List.foldl_cons, ih (nodup_unlistPv hids q.id) hrest hnodup, mem_unlistPv_iff hids hq,
      List.map_cons, List.mem_cons, not_or, List.exists_mem_cons_iff]
    simp only [href]
    constructor
    · rintro (⟨⟨ho, hoq⟩ | hretired, hnot⟩ | hothers)
      · exact .inl ⟨ho, hoq, hnot⟩
      · exact .inr (.inl hretired)
      · exact .inr (.inr hothers)
    · rintro (⟨ho, hoq, hnot⟩ | ⟨hq, rfl⟩ | hothers)
      · exact .inl ⟨.inl ⟨ho, hoq⟩, hnot⟩
      · exact .inl ⟨.inr ⟨hq, rfl⟩, hhead⟩
      · exact .inr hothers

/-! ### The whole update -/

/-- An update leaves the store with the variables made those of the list. -/
theorem replacePvs_eq_ok (hids : (s.pvs.map (·.id)).Nodup)
    (h : s.replacePvs c config forms = .ok t) : t = s.relist c config forms := by
  obtain ⟨listed, hlist, h⟩ := bind_eq_ok_iff.1 h
  obtain rfl := listPvs_eq_ok hids (.refl s) hlist
  exact (Except.ok.inj h).symm

/-- An update that succeeds was given identifiers that could be told apart. -/
theorem listsApart_of_replacePvs (hids : (s.pvs.map (·.id)).Nodup)
    (hnodup : (forms.map PvForm.cleanName).Nodup)
    (h : s.replacePvs c config forms = .ok t) : s.ListsApart c config forms := by
  obtain ⟨listed, hlist, -⟩ := bind_eq_ok_iff.1 h
  obtain ⟨hapart, hnew⟩ := listPvs_apart hids hids (.refl s) hnodup hlist
  exact ⟨hapart, hnew⟩

/-- So they do after a list has taken the place of another. -/
theorem nodup_relist (hids : (s.pvs.map (·.id)).Nodup) :
    ((s.relist c config forms).pvs.map (·.id)).Nodup :=
  nodup_foldl_unlistPv (nodup_foldl_putPv hids _) _

section

variable (hs : s.IsOwned) (happart : s.ListsApart c config forms)

include hs

omit hs in
/-- Dropped are the listed variables that the new list does not name. -/
theorem mem_dropped_iff {q : Pv} : q ∈ s.dropped config forms ↔
    q ∈ s.pvs ∧ q.config = config ∧ q.active ∧ q.name ∉ forms.map PvForm.cleanName := by
  rw [dropped, List.mem_filter, mem_activePvs_iff, decide_eq_true_eq]
  simp only [and_assoc]

/-- An active variable that the list names keeps its identifier. -/
theorem IsOwned.exists_mem_listedFor {o : Pv} (ho : o ∈ s.pvs) (hactive : o.active)
    (hname : o.name ∈ forms.map PvForm.cleanName) :
    ∃ q ∈ s.listedFor c o.config position used forms, q.id = o.id := by
  induction forms generalizing position used with
  | nil => cases hname
  | cons form forms ih =>
    rw [listedFor]
    rcases List.mem_cons.1 hname with he | hname
    · rw [← he, hs.keptPv?_of_active ho hactive]
      exact ⟨_, List.mem_cons_self, rfl⟩
    · split
      all_goals
        obtain ⟨q, hq, hid⟩ := ih hname
        exact ⟨q, List.mem_cons_of_mem _ hq, hid⟩

include happart

/-- No variable of the list takes the place of one that is dropped. -/
theorem IsOwned.ne_of_mem_dropped {q o : Pv} (hq : q ∈ s.listedFor c config 0 0 forms)
    (ho : o ∈ s.dropped config forms) : q.id ≠ o.id := by
  intro he
  obtain ⟨hmem, rfl, hactive, hnot⟩ := mem_dropped_iff.1 ho
  obtain ⟨-, -, -, hname, hid⟩ := mem_listedFor hq
  cases hkept : s.keptPv? o.config q.name with
  | some kept =>
    obtain rfl := pv_eq_of_id_eq hs.pvIds hmem (mem_of_keptPv? hkept).1
      (he.symm.trans (hid.kept kept hkept))
    exact hnot (name_of_keptPv? hkept ▸ hname)
  | none => exact pv?_isNone_iff.1 (happart.new q hq hkept) o hmem he.symm

/-- The variables after an update: those that the list becomes, those that it does not touch, and
the dropped ones that items refer to. -/
theorem mem_relist_iff {o : Pv} : o ∈ (s.relist c config forms).pvs ↔
    o ∈ s.listedFor c config 0 0 forms ∨
    (o ∈ s.pvs ∧ (∀ q ∈ s.listedFor c config 0 0 forms, q.id ≠ o.id) ∧
      o ∉ s.dropped config forms) ∨
    ∃ q ∈ s.dropped config forms, s.isReferenced q.id ∧ o = { q with active := false } := by
  have hpvs : ((s.listedFor c config 0 0 forms).map (·.id)).Nodup := happart.nodup
  have hput : ∀ q ∈ s.dropped config forms,
      q ∈ ((s.listedFor c config 0 0 forms).foldl putPv s).pvs := by
    intro q hq
    refine (mem_foldl_putPv_iff hpvs).2 (.inr ⟨(mem_dropped_iff.1 hq).1, fun hmem => ?_⟩)
    obtain ⟨r, hr, hid⟩ := List.mem_map.1 hmem
    exact hs.ne_of_mem_dropped happart hr hq hid
  have hdropped : ((s.dropped config forms).map (·.id)).Nodup :=
    (hs.nodup_activePvs config).sublist (List.filter_sublist.map _)
  have href (id : Id) : ((s.listedFor c config 0 0 forms).foldl putPv s).isReferenced id =
      s.isReferenced id := by
    rw [isReferenced, foldl_putPv_items, isReferenced]
  rw [relist, mem_foldl_unlistPv_iff (nodup_foldl_putPv hs.pvIds _) hput hdropped,
    mem_foldl_putPv_iff hpvs]
  simp only [href, List.mem_map, not_exists, not_and]
  constructor
  · rintro (⟨ho | ⟨ho, hnot⟩, hkeep⟩ | hretired)
    · exact .inl ho
    · exact .inr (.inl ⟨ho, hnot, fun hdrop => hkeep o hdrop rfl⟩)
    · exact .inr (.inr hretired)
  · rintro (ho | ⟨ho, hnot, hkeep⟩ | hretired)
    · exact .inl ⟨.inl ho, fun q hq he => hs.ne_of_mem_dropped happart ho hq he.symm⟩
    · refine .inl ⟨.inr ⟨ho, hnot⟩, fun q hq he => hkeep ?_⟩
      exact pv_eq_of_id_eq hs.pvIds (mem_dropped_iff.1 hq).1 ho he ▸ hq
    · exact .inr hretired

/-- The configuration lists the variables that the list becomes. -/
theorem activePvs_relist :
    (s.relist c config forms).activePvs config = s.listedFor c config 0 0 forms := by
  refine activePvs_eq (nodup_relist hs.pvIds) pairwise_listedFor fun q => ?_
  rw [mem_relist_iff hs happart]
  constructor
  · intro hq
    obtain ⟨hc, ha, -⟩ := mem_listedFor hq
    exact ⟨.inl hq, hc, ha⟩
  · rintro ⟨hq | ⟨hq, hnot, hkeep⟩ | ⟨o, -, -, rfl⟩, rfl, ha⟩
    · exact hq
    · by_cases hname : q.name ∈ forms.map PvForm.cleanName
      · obtain ⟨r, hr, hid⟩ := hs.exists_mem_listedFor hq ha hname
        exact absurd hid (hnot r hr)
      · exact absurd (mem_dropped_iff.2 ⟨hq, rfl, ha, hname⟩) hkeep
    · cases ha

/-- A variable that is dropped is retired if an item refers to it, and else deleted. -/
theorem pv?_relist_of_mem_dropped (ht : (s.relist c config forms).IsOwned) {o : Pv}
    (ho : o ∈ s.dropped config forms) : (s.relist c config forms).pv? o.id =
      if s.isReferenced o.id then some { o with active := false } else none := by
  have hmem {q : Pv} : q ∈ (s.relist c config forms).pvs ↔ _ :=
    mem_relist_iff hs happart
  split
  · rename_i href
    have hthere : { o with active := false } ∈ (s.relist c config forms).pvs :=
      hmem.2 (.inr (.inr ⟨o, ho, href, rfl⟩))
    exact pv?_of_mem ht hthere
  · rename_i href
    refine Option.isNone_iff_eq_none.1 (pv?_isNone_iff.2 fun q hq he => ?_)
    rcases hmem.1 hq with hq | ⟨hq, -, hkeep⟩ | ⟨r, -, hrref, rfl⟩
    · exact hs.ne_of_mem_dropped happart hq ho he
    · exact hkeep (pv_eq_of_id_eq hs.pvIds hq (mem_dropped_iff.1 ho).1 he ▸ ho)
    · exact href (he ▸ hrref)

end

/-! ### What becomes of each variable -/

/-- What an update of the list of a configuration makes of a store. -/
structure AppliesList (c : Context) (config : Id) (forms : List PvForm) (s t : Store) : Prop where
  /-- The configuration lists just the list, in its order. -/
  listed : (t.activePvs config).map (·.describe.anonymous) = forms.map PvForm.anonymous
  /-- A name that an active variable had keeps its identifier. -/
  active : ∀ q ∈ t.activePvs config, ∀ o ∈ s.pvs, o.config = config → o.name = q.name →
    o.active → q.id = o.id
  /-- A name that variables had, be they all retired, has the identifier of one of them. -/
  known : ∀ q ∈ t.activePvs config, (∃ o ∈ s.pvs, o.config = config ∧ o.name = q.name) →
    ∃ o ∈ s.pvs, o.config = config ∧ o.name = q.name ∧ q.id = o.id
  /-- Any other name has a new identifier. -/
  new : ∀ q ∈ t.activePvs config, (∀ o ∈ s.pvs, o.config = config → o.name ≠ q.name) →
    (∃ j, q.id = c.fresh j) ∧ s.pv? q.id = none
  /-- A variable that is no longer listed stays as a retired one if an item refers to it. -/
  dropped : ∀ o ∈ s.pvs, o.config = config → o.active → o.name ∉ forms.map PvForm.cleanName →
    t.pv? o.id = if s.isReferenced o.id then some { o with active := false } else none
  /-- A retired variable stays as it is unless its name gets it back. -/
  retired : ∀ o ∈ s.pvs, o.config = config → o.active = false →
    (∀ q ∈ t.activePvs config, q.id ≠ o.id) → t.pv? o.id = some o
  /-- There are no other variables. -/
  only : ∀ q ∈ t.pvs, q ∈ t.activePvs config ∨ ∃ o ∈ s.pvs, q.id = o.id
  others : ∀ id ≠ config, t.pvs.filter (·.config = id) = s.pvs.filter (·.config = id)
  items : t.items = s.items

/-- An update makes the store what it should. -/
theorem IsOwned.appliesList_relist (hs : s.IsOwned) (hinj : Function.Injective c.fresh)
    (hfresh : ∀ j, (s.pv? (c.fresh j)).isNone) (hnodup : (forms.map PvForm.cleanName).Nodup)
    (hclean : ∀ form ∈ forms, form.name = some form.cleanName)
    (ht : (s.relist c config forms).IsOwned)
    (hkeeps : s.KeepsOthers config (s.relist c config forms)) :
    AppliesList c config forms s (s.relist c config forms) := by
  have happart : s.ListsApart c config forms := listsApart hs.pvIds hinj hfresh hnodup
  have hlisted : (s.relist c config forms).activePvs config = s.listedFor c config 0 0 forms :=
    activePvs_relist hs happart
  have hmem {o : Pv} : o ∈ (s.relist c config forms).pvs ↔ _ :=
    mem_relist_iff hs happart
  refine ⟨hlisted ▸ map_describe_listedFor hclean, fun q hq o ho hc hname ha => ?_,
    fun q hq hknown => ?_, fun q hq hnone => ?_, fun o ho hc ha hname => ?_,
    fun o ho hc ha hnot => ?_, fun q hq => ?_, hkeeps.others, hkeeps.items⟩
  · obtain rfl := hc
    exact (takesId_of_mem_listedFor (hlisted ▸ hq)).kept o (hname ▸ hs.keptPv?_of_active ho ha)
  · obtain ⟨o, ho, hc, hname⟩ := hknown
    cases hkept : s.keptPv? config q.name with
    | none => exact absurd hname (keptPv?_eq_none_iff.1 hkept o ho hc)
    | some kept =>
      obtain ⟨hmem, hc⟩ := mem_of_keptPv? hkept
      exact ⟨kept, hmem, hc, name_of_keptPv? hkept,
        (takesId_of_mem_listedFor (hlisted ▸ hq)).kept kept hkept⟩
  · obtain ⟨j, -, hj⟩ :=
      (takesId_of_mem_listedFor (hlisted ▸ hq)).new (keptPv?_eq_none_iff.2 hnone)
    exact ⟨⟨j, hj⟩, hj ▸ Option.isNone_iff_eq_none.1 (hfresh j)⟩
  · exact pv?_relist_of_mem_dropped hs happart ht
      (mem_dropped_iff.2 ⟨ho, hc, ha, hname⟩)
  · refine pv?_of_mem ht (hmem.2 (.inr (.inl ⟨ho, hlisted ▸ hnot, fun hdrop => ?_⟩)))
    have hactive := (mem_dropped_iff.1 hdrop).2.2.1
    simp [ha] at hactive
  · rcases hmem.1 hq with hq | ⟨hq, -⟩ | ⟨r, hr, -, rfl⟩
    · exact .inl (hlisted ▸ hq)
    · exact .inr ⟨q, hq, rfl⟩
    · exact .inr ⟨r, (mem_dropped_iff.1 hr).1, rfl⟩

/-! ### The same list again -/

/-- Where its variables are stored already, a list becomes them again. -/
theorem listedFor_eq_of_forall_mem (ht : t.IsOwned) {c₁ : Context} {used₁ : Nat}
    (h : ∀ q ∈ s.listedFor c config position used forms, q ∈ t.pvs) :
    t.listedFor c₁ config position used₁ forms = s.listedFor c config position used forms := by
  induction forms generalizing position used used₁ with
  | nil => rfl
  | cons form forms ih =>
    have hhead {id : Id} (hmem : form.listed config id position ∈ t.pvs) :
        t.keptPv? config form.cleanName = some (form.listed config id position) :=
      ht.keptPv?_of_active hmem rfl
    rw [listedFor] at h ⊢
    rw [listedFor]
    split at h
    all_goals
      obtain ⟨hmem, hrest⟩ := List.forall_mem_cons.1 h
      rw [hhead hmem]
      exact congrArg _ (ih hrest)

/-- Where a configuration lists what a list became, another update with the list changes
nothing. -/
theorem IsOwned.relist_of_listed (ht : t.IsOwned) {c₁ : Context}
    (h : t.activePvs config = s.listedFor c config 0 0 forms) : t.relist c₁ config forms = t := by
  have hmem : ∀ q ∈ s.listedFor c config 0 0 forms, q ∈ t.pvs := fun q hq =>
    (mem_activePvs_iff.1 (h ▸ hq)).1
  have hdropped : t.dropped config forms = [] := by
    refine List.filter_eq_nil_iff.2 fun q hq => ?_
    obtain ⟨-, -, -, hname, -⟩ := mem_listedFor (h ▸ hq)
    simpa using hname
  rw [relist, hdropped, listedFor_eq_of_forall_mem ht hmem, foldl_putPv_of_forall_mem ht.pvIds hmem]
  rfl

end Store

end SnapshotArchive
