import SnapshotArchive.Proofs.Drafts
import SnapshotArchive.Proofs.Completeness

/-!
# All or nothing

A transaction works on a copy of the tables, and other clients see the tables as they were until it
is committed (`Session`). The work of an operation can fail after any of its changes and leave a
copy that is changed in part; then the copy is given up. It is given up as well if all the work is
done and the commit is refused. So whatever makes an operation fail, and however late, the tables
are as the other clients left them (`Archive.transact`).

A client is told that the archive is held only when all checks that need no transaction have passed.

* `Archive.transact_eq_finish` : what becomes of the tables does not depend on the copy that failing
  work leaves.
* `Service.Reachable.all_or_nothing` : an operation that does not succeed changes nothing.
-/

namespace SnapshotArchive

open Archive

/-! ### Transactions at work -/

/-- A connection inside a transaction. -/
structure Session where
  /-- The tables as all other clients see them. -/
  committed : Store
  /-- The copy that the transaction works on. -/
  working : Store

namespace Session

/-- A transaction that begins. -/
def start (s : Store) : Session := ⟨s, s⟩

/-- The copy becomes the tables. -/
def commit (σ : Session) : Session := ⟨σ.working, σ.working⟩

/-- The copy is given up. -/
def rollback (σ : Session) : Session := ⟨σ.committed, σ.committed⟩

end Session

/-- What an operation does inside its transaction. It may fail when it has changed the copy. -/
abbrev Work (α : Type) := Session → Except Failure α × Session

namespace Work

variable {α : Type}

/-- Work that does what a transaction says: it leaves the copy that it should if it succeeds, and
any copy if it fails. -/
structure Performs (w : Work α) (t : Transaction α) : Prop where
  /-- It does not commit. -/
  committed : ∀ σ, (w σ).2.committed = σ.committed
  ok : ∀ {σ answer s}, t σ.working = .ok (answer, s) → (w σ).1 = .ok answer ∧ (w σ).2.working = s
  error : ∀ {σ f}, t σ.working = .error f → (w σ).1 = .error f

/-- The work of a transaction that leaves `wreck s` of a copy `s` if it fails. -/
def leaving (wreck : Store → Store) (t : Transaction α) : Work α := fun σ =>
  match t σ.working with
  | .ok (answer, s) => (.ok answer, { σ with working := s })
  | .error f => (.error f, { σ with working := wreck σ.working })

/-- A transaction that leaves a wreck when it fails does its work when it succeeds. -/
theorem leaving_performs (wreck : Store → Store) (t : Transaction α) :
    (leaving wreck t).Performs t where
  committed σ := by
    unfold leaving
    split <;> rfl
  ok ht := by simp [leaving, ht]
  error ht := by simp [leaving, ht]

end Work

namespace Archive

variable {α : Type}

/-- A transaction from its begin to its end. It begins unless another client writes; it is committed
if the work is done and no reader is in the way, and otherwise rolled back. -/
def transact (hold : Hold) (a : Archive) (w : Work α) : Except Failure α × Archive :=
  if hold = .writing then (.error (.refused .busy), a)
  else
    match a.store with
    | none => (.error .notInitialised, a)
    | some s =>
      let close (result : Except Failure α) (σ : Session) :=
        (result, { a with store := some σ.committed })
      match w (.start s) with
      | (.error f, σ) => close (.error f) σ.rollback
      | (.ok answer, σ) =>
        if hold = .reading ∧ a.writeAhead = false then close (.error (.refused .busy)) σ.rollback
        else close (.ok answer) σ.commit

/-- What becomes of the tables does not depend on the copy that failing work leaves. -/
theorem transact_eq_finish {w : Work α} {t : Transaction α} (h : w.Performs t) (hold : Hold)
    (a : Archive) : a.transact hold w = a.finish hold t := by
  unfold transact finish
  split
  · rfl
  · obtain ⟨ahead, store⟩ := a
    cases store with
    | none => rfl
    | some s =>
      obtain ⟨⟨result, σ⟩, hw⟩ : ∃ done, w (.start s) = done := ⟨_, rfl⟩
      have hcommitted : σ.committed = s :=
        (congrArg (·.2.committed) hw).symm.trans (h.committed (.start s))
      cases ht : t s with
      | error f =>
        obtain rfl : result = .error f := by simpa [hw] using h.error (σ := .start s) ht
        simp [hw, ht, Session.rollback, hcommitted]
      | ok found =>
        obtain ⟨hresult, hworking⟩ := h.ok (σ := .start s) ht
        obtain rfl : result = .ok found.1 := by simpa [hw] using hresult
        simp only [hw] at hworking
        simp [hw, ht, Session.rollback, Session.commit, hcommitted, hworking]

/-- With all the work done, a commit is refused while another client reads, unless changes are
logged ahead. -/
theorem finish_of_reading {a : Archive} {s s' : Store} {t : Transaction α} {answer : α}
    (hs : a.store = some s) (ht : t s = .ok (answer, s')) (hahead : a.writeAhead = false) :
    a.finish .reading t = (.error (.refused .busy), a) := by
  simp [finish, hs, ht, hahead]

end Archive

namespace Service

open Sample

/-- An operation that does not succeed changes nothing, and neither does a query. If the plan of an
operation is refused, that is its answer, and it is not for a lock. Otherwise, if it fails, the
archive is as the other clients left it when its transaction began, whatever its work had made of
the copy: whether the work fails, or the transaction cannot begin because another client writes, or
it cannot be committed because another client reads. -/
theorem Reachable.all_or_nothing {a : Archive} {ts : List (Transaction Answer)}
    (h : Reachable ⟨a, ts⟩) (hold : Hold) (between : Archive → Archive) (c : Context) (p : Policy)
    {o : Operation} (ho : o ≠ .initialise) : ∃ s, a.store = some s ∧
      (∀ q : Query, (a.run hold between q.call).2 = a) ∧
      let result := a.run hold between (o.call c p)
      (∀ f, o.write c p s = .error f → result = (.error f, a) ∧ f ≠ .refused .busy) ∧
      ∀ t, o.write c p s = .ok t →
        (∀ f, result.1 = .error f → result.2 = between a) ∧
        (hold = .writing → result.1 = .error (.refused .busy)) ∧
        (hold = .reading → (between a).writeAhead = false → ∀ s₁ answer s₂,
          (between a).store = some s₁ → t s₁ = .ok (answer, s₂) →
            result.1 = .error (.refused .busy)) ∧
        ∀ w : Work Answer, w.Performs t → (between a).transact hold w = result := by
  obtain ⟨⟨s, hs, -⟩, -⟩ := h.isSound
  have hwrite : o = .initialise → hold = .nothing := fun he => absurd he ho
  refine ⟨s, hs, fun q => rfl, fun f hplan => ⟨run_of_plan_error hs hwrite hplan, ?_⟩,
    fun t hplan => ?_⟩
  · rintro rfl
    obtain ⟨r, hr, hcheck⟩ := Operation.plan_checked c p o s _ hplan
    obtain rfl := Failure.refused.inj hr
    exact hcheck
  · simp only [run_of_plan_ok hs hwrite hplan]
    refine ⟨fun f hf => finish_of_error (Prod.ext hf rfl), ?_, ?_,
      fun w hw => transact_eq_finish hw hold (between a)⟩
    · rintro rfl
      rfl
    · rintro rfl hahead s₁ answer s₂ hs₁ ht
      rw [finish_of_reading hs₁ ht hahead]

/-- A draft keeps its item if saving over it fails at the time of the new one, also if its item was
deleted in the copy by then. -/
theorem all_or_nothing_late :
    let late := Operation.saveSnapshot "c0" [{ item with timestamp := some 9223372036854775808 }]
      none none (some "u")
    ∃ s t, drafted.store = some s ∧ s.items.map (·.snapshot) = ["d0"] ∧
      late.write (supply "e") policy s = .ok t ∧
      drafted.run .nothing id (late.call (supply "e") policy) = (.error .outOfRange, drafted) ∧
      drafted.transact .nothing (Work.leaving (·.removeItemsOf "d0") t) =
        (.error .outOfRange, drafted) := by
  intro late
  obtain ⟨ts, h⟩ := reachable_drafted
  obtain ⟨s, hs, -, -, hplanned⟩ :=
    h.all_or_nothing .nothing id (supply "e") policy (fun he => nomatch he : late ≠ .initialise)
  have hitems : drafted.store.map (fun s => s.items.map (·.snapshot)) = some ["d0"] := by
    decide +kernel
  have hfails : (match (drafted.run .nothing id (late.call (supply "e") policy)).1 with
      | .error f => decide (f = .outOfRange)
      | .ok _ => false) = true := by
    decide +kernel
  obtain ⟨t, ht⟩ : ∃ t, late.write (supply "e") policy s = .ok t := ⟨_, rfl⟩
  obtain ⟨hkeeps, -, -, hworks⟩ := hplanned t ht
  have hresult : (drafted.run .nothing id (late.call (supply "e") policy)).1 =
      .error .outOfRange := by
    cases he : (drafted.run .nothing id (late.call (supply "e") policy)).1 with
    | ok answer => simp [he] at hfails
    | error f =>
      rw [he] at hfails
      rw [of_decide_eq_true hfails]
  have hcall : drafted.run .nothing id (late.call (supply "e") policy) =
      (.error .outOfRange, drafted) := Prod.ext hresult (hkeeps _ hresult)
  refine ⟨s, t, hs, ?_, ht, hcall, (hworks _ (Work.leaving_performs _ t)).trans hcall⟩
  simpa [show drafted.store = some s from hs] using hitems

end Service

end SnapshotArchive
