import SnapshotArchive.Operation
import SnapshotArchive.Proofs.Moving
import SnapshotArchive.Proofs.Capturing
import SnapshotArchive.Proofs.Copying.Subtrees

/-!
# Clients of an archive

Several clients use an archive, and each call of theirs has two phases. Between its plan and its
transaction a client has a transaction planned, and any number of clients may have, while others
open the archive, plan and commit. `Service` is an archive with all transactions that are planned,
and `Service.Step` what a client does next; identifiers, times, policies and what holds the archive
may differ from step to step.

Whatever is planned is made of edits, in whatever store it was planned, so every step keeps a sound
store sound.

* `Operation.write_edits` : the transaction of every operation is made of edits.
* `Service.Run.run` : a whole call, with the work of other clients between its phases, is a run.
* `Service.Reachable.isSound` : the store of an archive in use is always sound.
-/

namespace SnapshotArchive

/-! ### Operations -/

/-- What succeeds with another answer succeeds. -/
theorem map_eq_ok_iff {α β : Type} {x : Except Failure α} {f : α → β} {b : β} :
    x.map f = .ok b ↔ ∃ a, x = .ok a ∧ f a = b := by
  cases x <;> simp [Except.map]

/-- With another answer a write succeeds where it did, and leaves the same. -/
theorem Write.exists_map_eq_ok_iff {α β : Type} {f : α → β} {w : Write α} {s₀ s s' : Store}
    {b : β} :
    (∃ t, w.map f s₀ = .ok t ∧ t s = .ok (b, s')) ↔
      ∃ a, b = f a ∧ ∃ t, w s₀ = .ok t ∧ t s = .ok (a, s') := by
  constructor
  · rintro ⟨t, hplan, ht⟩
    obtain ⟨u, hu, rfl⟩ := map_eq_ok_iff.1 hplan
    obtain ⟨⟨a, s₁⟩, ha, he⟩ := map_eq_ok_iff.1 ht
    obtain ⟨rfl, rfl⟩ := Prod.mk.inj he
    exact ⟨a, rfl, u, hu, ha⟩
  · rintro ⟨a, rfl, u, hu, ha⟩
    exact ⟨_, map_eq_ok_iff.2 ⟨u, hu, rfl⟩, map_eq_ok_iff.2 ⟨_, ha, rfl⟩⟩

/-- With another answer a transaction makes the same edits. -/
theorem Write.map_edits {α β : Type} {f : α → β} {w : Write α} {s : Store} {t : Transaction β}
    (h : w.map f s = .ok t) (hw : ∀ {u : Transaction α}, w s = .ok u → u.IsEdits) : t.IsEdits := by
  obtain ⟨u, hu, rfl⟩ := map_eq_ok_iff.1 h
  intro s s' b hs hb
  obtain ⟨⟨a, s₁⟩, ha, he⟩ := map_eq_ok_iff.1 hb
  obtain ⟨-, rfl⟩ := Prod.mk.inj he
  exact hw hu hs ha

/-- In a sound store the root is there and is not made again. -/
theorem Archive.makeRoot_eq {s : Store} (hs : s.IsTree) (now : Int) :
    makeRoot now s = .ok (false, s) := by
  obtain ⟨r, hr, hid, -⟩ := hs.root
  have hroot : s.hasNode rootId := hid ▸ Store.hasNode_of_mem hr
  rw [makeRoot, if_pos hroot]

/-- Making the root is a run of edits. -/
theorem Archive.makeRoot_edits {now : Int} : Transaction.IsEdits (Archive.makeRoot now) := by
  intro s s' a hs ha
  rw [makeRoot_eq hs.tree] at ha
  obtain ⟨-, rfl⟩ := Prod.mk.inj (Except.ok.inj ha)
  exact .refl

/-- The transaction of every operation is made of edits. -/
theorem Operation.write_edits {c : Context} {p : Policy} {o : Operation} {s : Store}
    {t : Transaction Answer} (h : o.write c p s = .ok t) : t.IsEdits := by
  cases o with
  | createNode => exact Write.map_edits h createNode_edits
  | updateNode => exact Write.map_edits h updateNode_edits
  | deleteNode => exact Write.map_edits h deleteNode_edits
  | deleteNodes => exact Write.map_edits h deleteNodes_edits
  | moveNodes => exact Write.map_edits h moveNodes_edits
  | copyNodes => exact Write.map_edits h copyNodes_edits
  | createConfiguration => exact Write.map_edits h createConfiguration_edits
  | updateConfiguration => exact Write.map_edits h updateConfiguration_edits
  | renamePv => exact Write.map_edits h renamePv_edits
  | saveSnapshot => exact Write.map_edits h saveSnapshot_edits
  | commitSnapshot => exact Write.map_edits h commitSnapshot_edits
  | markGolden => exact Write.map_edits h markGolden_edits
  | addTag => exact Write.map_edits h addTag_edits
  | removeTag => exact Write.map_edits h removeTag_edits
  | initialise =>
    rw [write] at h
    refine Write.map_edits h fun hu => ?_
    exact Except.ok.inj hu ▸ Archive.makeRoot_edits

/-- All operations but initialising are writes. -/
theorem Operation.call_eq {c : Context} {p : Policy} {o : Operation} (h : o ≠ .initialise) :
    o.call c p = .write (o.write c p) := by
  cases o with
  | initialise => exact absurd rfl h
  | _ => rfl

/-! ### The phases of a call -/

namespace Archive

/-- An archive that was just initialised: it holds the root. -/
def initialised (writeAhead : Bool) (now : Int) : Archive :=
  ⟨writeAhead, some ⟨[rootNode now], [], [], []⟩⟩

example (writeAhead : Bool) (c : Context) (p : Policy) :
    (⟨writeAhead, none⟩ : Archive).run .nothing id (Operation.initialise.call c p) =
      (.ok .nothing, initialised writeAhead c.now) := by
  rfl

/-- The name of the root is a name. -/
theorem isName_rootName : IsName rootName :=
  ⟨by decide, by decide, by decide⟩

/-- The tables of an archive that was just initialised are sound. -/
theorem isSound_initialised (now : Int) : Store.IsSound ⟨[rootNode now], [], [], []⟩ where
  tree := by
    refine ⟨by simp, ⟨rootNode now, List.mem_cons_self, rfl, rfl, rfl⟩, ?_, ?_, ?_⟩
    all_goals intro n hn; obtain rfl := List.mem_singleton.1 hn
    · exact fun _ => rfl
    · exact fun p hp => nomatch hp
    · exact .refl
  named := by
    refine ⟨?_, ?_, ?_⟩
    all_goals intro n hn; obtain rfl := List.mem_singleton.1 hn
    · rfl
    · exact fun _ => isName_rootName
    · exact fun m hm _ _ _ _ _ => (List.mem_singleton.1 hm).symm
  owned := by constructor <;> simp

variable {a b : Archive} {s : Store} {c : Context} {p : Policy} {o : Operation} {hold : Hold}
  {between : Archive → Archive}

/-- With tables there the first phase of a write reads them, and leaves them as they are. -/
theorem start_write {α : Type} (hs : a.store = some s) (w : Write α) :
    a.start hold (.write w) = (a, match w s with
      | .ok t => .pending t
      | .error f => .done (.error f)) := by
  simp only [start, look, hs]
  cases w s <;> rfl

/-- The first phase of an operation leaves an archive with tables as it is, and what it plans is
made of edits. -/
theorem start_operation (hs : a.store = some s) {stage : Stage Answer}
    (h : a.start hold (o.call c p) = (b, stage)) :
    b = a ∧ ∀ t, stage = .pending t → t.IsEdits := by
  by_cases ho : o = .initialise
  · subst ho
    have htables : { a with store := some (a.store.getD .empty) } = a := by
      rw [hs, Option.getD_some, ← hs]
    simp only [Operation.call, start, makeTables, htables] at h
    split at h
    · rename_i found hfound
      split at hfound
      · obtain rfl := Except.ok.inj hfound
        obtain ⟨rfl, rfl⟩ := Prod.mk.inj h
        refine ⟨rfl, fun t ht => ?_⟩
        obtain rfl := Stage.pending.inj ht
        intro s s' answer hs ha
        obtain ⟨⟨made, s₁⟩, hmade, he⟩ := map_eq_ok_iff.1 ha
        obtain ⟨-, rfl⟩ := Prod.mk.inj he
        exact makeRoot_edits hs hmade
      · cases hfound
    · obtain ⟨rfl, rfl⟩ := Prod.mk.inj h
      exact ⟨rfl, fun t ht => nomatch ht⟩
  · rw [Operation.call_eq ho, start_write hs] at h
    obtain ⟨rfl, rfl⟩ := Prod.mk.inj h
    refine ⟨rfl, fun t ht => ?_⟩
    split at ht
    · rename_i u hu
      obtain rfl := Stage.pending.inj ht
      exact Operation.write_edits hu
    · cases ht

/-- On an archive with tables an operation is a write; initialising it, if nobody holds it. -/
theorem start_call (hs : a.store = some s) (hhold : o = .initialise → hold = .nothing) :
    a.start hold (o.call c p) = a.start hold (.write (o.write c p)) := by
  by_cases ho : o = .initialise
  · obtain rfl := hhold ho
    obtain rfl := ho
    obtain ⟨ahead, _⟩ := a
    obtain rfl : _ = some s := hs
    rfl
  · rw [Operation.call_eq ho]

/-- A call whose plan fails ends with the failure, and nobody ran before it. -/
theorem run_of_plan_error (hs : a.store = some s) (hhold : o = .initialise → hold = .nothing)
    {f : Failure} (hplan : o.write c p s = .error f) :
    a.run hold between (o.call c p) = (.error f, a) := by
  rw [run, start_call hs hhold, start_write hs, hplan]

/-- A call whose plan passes ends with its transaction, on what the others left. -/
theorem run_of_plan_ok (hs : a.store = some s) (hhold : o = .initialise → hold = .nothing)
    {t : Transaction Answer} (hplan : o.write c p s = .ok t) :
    a.run hold between (o.call c p) = (between a).finish hold t := by
  rw [run, start_call hs hhold, start_write hs, hplan]

/-- The second phase leaves an archive as it is, or with the store that the transaction leaves. -/
theorem finish_eq (hs : a.store = some s) (hold : Hold) (t : Transaction Answer) :
    (a.finish hold t).2 = a ∨
      ∃ answer s', t s = .ok (answer, s') ∧ (a.finish hold t).2 = { a with store := some s' } := by
  unfold finish
  split
  · exact .inl rfl
  · simp only [hs]
    split
    · exact .inl rfl
    · rename_i answer s' ht
      split
      · exact .inl rfl
      · exact .inr ⟨answer, s', ht, rfl⟩

end Archive

/-! ### Steps of clients -/

/-- An archive with the transactions that its clients have planned and not committed yet. -/
structure Service where
  archive : Archive
  planned : List (Transaction Answer)

namespace Service

open Archive

/-- What a client does next. -/
inductive Step : Service → Service → Prop
  /-- It opens the archive. -/
  | connect {a b : Archive} {ts : List (Transaction Answer)} {writeAhead : Bool} {hold : Hold} :
    a.connect writeAhead hold = .ok b → Step ⟨a, ts⟩ ⟨b, ts⟩
  /-- It starts an operation, which ends in its first phase. -/
  | refuse {a b : Archive} {ts : List (Transaction Answer)} {hold : Hold} {c : Context}
    {p : Policy} {o : Operation} {result : Except Failure Answer} :
    a.start hold (o.call c p) = (b, .done result) → Step ⟨a, ts⟩ ⟨b, ts⟩
  /-- It starts an operation, which plans a transaction. -/
  | plan {a b : Archive} {ts us : List (Transaction Answer)} {hold : Hold} {c : Context}
    {p : Policy} {o : Operation} {t : Transaction Answer} :
    a.start hold (o.call c p) = (b, .pending t) → Step ⟨a, ts ++ us⟩ ⟨b, ts ++ t :: us⟩
  /-- It runs the transaction that it planned, which may fail. -/
  | commit {a : Archive} {ts us : List (Transaction Answer)} {hold : Hold}
    {t : Transaction Answer} : Step ⟨a, ts ++ t :: us⟩ ⟨(a.finish hold t).2, ts ++ us⟩

/-- What clients do one after the other. -/
def Run : Service → Service → Prop :=
  Relation.ReflTransGen Step

/-- An archive that clients have used since it was initialised. -/
def Reachable (sv : Service) : Prop :=
  ∃ writeAhead now, Run ⟨initialised writeAhead now, []⟩ sv

/-- The store is sound, and what is planned is made of edits. -/
structure IsSound (sv : Service) : Prop where
  store : ∃ s, sv.archive.store = some s ∧ s.IsSound
  planned : ∀ t ∈ sv.planned, t.IsEdits

/-- One thing that a client does keeps tables and planned transactions sound. -/
theorem IsSound.step {sv sv' : Service} (h : sv.IsSound) (hstep : Step sv sv') : sv'.IsSound := by
  obtain ⟨⟨s, hs, hsound⟩, hplanned⟩ := h
  cases hstep with
  | @connect a b ts writeAhead hold hconnect =>
    refine ⟨⟨s, ?_, hsound⟩, hplanned⟩
    unfold Archive.connect at hconnect
    split at hconnect
    · exact Except.ok.inj hconnect ▸ hs
    · split at hconnect
      · exact Except.ok.inj hconnect ▸ hs
      · cases hconnect
  | refuse hstart =>
    obtain ⟨rfl, -⟩ := start_operation hs hstart
    exact ⟨⟨s, hs, hsound⟩, hplanned⟩
  | plan hstart =>
    obtain ⟨rfl, hedits⟩ := start_operation hs hstart
    refine ⟨⟨s, hs, hsound⟩, fun u hu => ?_⟩
    rcases List.mem_cons.1 (List.perm_middle.mem_iff.1 hu) with rfl | hu
    · exact hedits u rfl
    · exact hplanned u hu
  | @commit a ts us hold t =>
    have hrest : ∀ u ∈ ts ++ us, u.IsEdits := fun u hu =>
      hplanned u (List.perm_middle.mem_iff.2 (List.mem_cons_of_mem _ hu))
    rcases finish_eq hs hold t with he | ⟨answer, s', ht, he⟩
    · exact ⟨⟨s, he ▸ hs, hsound⟩, hrest⟩
    · exact ⟨⟨s', he ▸ rfl, hsound.edits (hplanned t (by simp) hsound ht)⟩, hrest⟩

/-- So does whatever clients do one after the other. -/
theorem IsSound.run {sv sv' : Service} (h : sv.IsSound) (hrun : Run sv sv') : sv'.IsSound := by
  induction hrun with
  | refl => exact h
  | tail _ hlast ih => exact ih.step hlast

/-- The store of an archive in use is always sound. -/
theorem Reachable.isSound {sv : Service} (h : sv.Reachable) : sv.IsSound := by
  obtain ⟨writeAhead, now, hrun⟩ := h
  exact IsSound.run ⟨⟨_, rfl, isSound_initialised now⟩, by simp⟩ hrun

/-! ### Whole calls -/

/-- What clients do, they can do with one more transaction planned. -/
theorem Step.frame {sv sv' : Service} (h : Step sv sv') (t : Transaction Answer) :
    Step ⟨sv.archive, sv.planned ++ [t]⟩ ⟨sv'.archive, sv'.planned ++ [t]⟩ := by
  cases h with
  | connect hconnect => exact .connect hconnect
  | refuse hstart => exact .refuse hstart
  | @plan a b ts us hold c p o u hstart =>
    have hplan : Step ⟨a, ts ++ (us ++ [t])⟩ ⟨b, ts ++ u :: (us ++ [t])⟩ := .plan hstart
    simpa using hplan
  | @commit a ts us hold u =>
    have hcommit : Step ⟨a, ts ++ u :: (us ++ [t])⟩ ⟨(a.finish hold u).2, ts ++ (us ++ [t])⟩ :=
      .commit
    simpa using hcommit

/-- What clients do can be done while another transaction is planned. -/
theorem Run.frame {sv sv' : Service} (h : Run sv sv') (t : Transaction Answer) :
    Run ⟨sv.archive, sv.planned ++ [t]⟩ ⟨sv'.archive, sv'.planned ++ [t]⟩ := by
  induction h with
  | refl => exact .refl
  | tail _ hlast ih => exact .tail ih (hlast.frame t)

/-- A whole call, with the work of other clients between its phases, is a run. -/
theorem Run.run {a : Archive} {s : Store} (hs : a.store = some s) {between : Archive → Archive}
    {ts us : List (Transaction Answer)} (h : Run ⟨a, ts⟩ ⟨between a, us⟩) (hold : Hold)
    (c : Context) (p : Policy) (o : Operation) :
    ∃ vs, Run ⟨a, ts⟩ ⟨(a.run hold between (o.call c p)).2, vs⟩ := by
  obtain ⟨⟨b, stage⟩, hstart⟩ : ∃ phase, a.start hold (o.call c p) = phase := ⟨_, rfl⟩
  obtain ⟨rfl, -⟩ := start_operation hs hstart
  rw [Archive.run, hstart]
  cases stage with
  | done result => exact ⟨ts, .refl⟩
  | pending t =>
    have hplan : Step ⟨b, ts ++ []⟩ ⟨b, ts ++ [t]⟩ := .plan hstart
    have hcommit : Step ⟨between b, us ++ [t]⟩ ⟨((between b).finish hold t).2, us ++ []⟩ := .commit
    rw [List.append_nil] at hplan hcommit
    exact ⟨us, .tail (.head hplan (h.frame t)) hcommit⟩

end Service

end SnapshotArchive
