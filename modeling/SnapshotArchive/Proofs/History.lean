import SnapshotArchive.Proofs.Clients

/-!
# What happens to the tables

Whatever happens to the tables of an archive is done by operations that succeed. A transaction may
run in another store than the one in which it was planned, so an operation is said to succeed in
the store in which its transaction does, whatever it saw before (`Operation.Succeeds`).

What every such operation keeps therefore holds of every archive in use, and what it keeps of a node
that stays holds as long as the node is there (`Service.RunWith`).

* `Archive.run_eq_ok` : a call that is answered has succeeded in the store that the others left.
* `Service.Step.store` : a step leaves the store as it is, or is an operation that succeeds.
* `Service.Reachable.invariant`, `Service.RunWith.invariant` : the two induction principles.
-/

namespace SnapshotArchive

/-- An operation succeeds in a store, wherever it was planned, and leaves another. -/
def Operation.Succeeds (c : Context) (p : Policy) (o : Operation) (s : Store) (answer : Answer)
    (s' : Store) : Prop :=
  ∃ s₀ t, o.write c p s₀ = .ok t ∧ t s = .ok (answer, s')

/-- An operation that succeeds leaves a sound store. -/
theorem Operation.Succeeds.isSound {c : Context} {p : Policy} {o : Operation} {s s' : Store}
    {answer : Answer} (h : o.Succeeds c p s answer s') (hs : s.IsSound) : s'.IsSound := by
  obtain ⟨s₀, t, hplan, ht⟩ := h
  exact hs.edits (write_edits hplan hs ht)

/-! ### Calls -/

namespace Archive

variable {a b : Archive} {s : Store} {c : Context} {p : Policy} {o : Operation} {hold : Hold}

/-- The first phase of an operation fails or plans its transaction. -/
theorem start_cases (hs : a.store = some s) :
    (∃ f, a.start hold (o.call c p) = (a, .done (.error f))) ∨
      ∃ t, o.write c p s = .ok t ∧ a.start hold (o.call c p) = (a, .pending t) := by
  by_cases ho : o = .initialise
  · subst ho
    simp only [Operation.call, start]
    cases htables : a.makeTables hold with
    | error f => exact .inl ⟨f, rfl⟩
    | ok b =>
      have hb : b = a := by
        unfold makeTables at htables
        split at htables
        · rw [← Except.ok.inj htables, hs, Option.getD_some, ← hs]
        · cases htables
      exact .inr ⟨_, rfl, by rw [hb]⟩
  · rw [Operation.call_eq ho, start_write hs]
    cases hplan : o.write c p s with
    | error f => exact .inl ⟨f, rfl⟩
    | ok t => exact .inr ⟨t, rfl, rfl⟩

/-- A transaction that is answered has left its store. -/
theorem finish_eq_ok (hs : a.store = some s) {t : Transaction Answer} {answer : Answer}
    (h : a.finish hold t = (.ok answer, b)) :
    ∃ s', t s = .ok (answer, s') ∧ b = { a with store := some s' } := by
  unfold finish at h
  split at h
  · cases h
  · simp only [hs] at h
    split at h
    · cases h
    · rename_i found s' ht
      split at h
      · cases h
      · obtain ⟨hanswer, rfl⟩ := Prod.mk.inj h
        obtain rfl := Except.ok.inj hanswer
        exact ⟨s', ht, rfl⟩

/-- A call that is answered has succeeded in the store that the others left. -/
theorem run_eq_ok {s₀ : Store} {between : Archive → Archive} {answer : Answer}
    (hs₀ : a.store = some s₀) (hs : (between a).store = some s)
    (h : a.run hold between (o.call c p) = (.ok answer, b)) :
    ∃ s', o.Succeeds c p s answer s' ∧ b = { between a with store := some s' } := by
  unfold run at h
  rcases @start_cases a s₀ c p o hold hs₀ with
    ⟨f, hstart⟩ | ⟨t, hplan, hstart⟩
  · rw [hstart] at h
    cases h
  · rw [hstart] at h
    obtain ⟨s', ht, hb⟩ := finish_eq_ok hs h
    exact ⟨s', ⟨s₀, t, hplan, ht⟩, hb⟩

end Archive

namespace Service

open Archive

/-! ### Steps -/

/-- Whatever is planned was planned by an operation. -/
def IsPlanned (sv : Service) : Prop :=
  ∀ t ∈ sv.planned, ∃ c p o s₀, Operation.write c p o s₀ = .ok t

/-- A step leaves the store as it is, or runs a transaction that was planned. -/
theorem Step.commits {sv sv' : Service} {s : Store} (h : Step sv sv')
    (hs : sv.archive.store = some s) :
    sv'.archive.store = some s ∨ ∃ t ∈ sv.planned, ∃ answer s',
      t s = .ok (answer, s') ∧ sv'.archive.store = some s' := by
  cases h with
  | @connect a b ts writeAhead hold hconnect =>
    refine .inl ?_
    unfold Archive.connect at hconnect
    split at hconnect
    · exact Except.ok.inj hconnect ▸ hs
    · split at hconnect
      · exact Except.ok.inj hconnect ▸ hs
      · cases hconnect
  | refuse hstart =>
    obtain ⟨rfl, -⟩ := start_operation hs hstart
    exact .inl hs
  | plan hstart =>
    obtain ⟨rfl, -⟩ := start_operation hs hstart
    exact .inl hs
  | @commit a ts us hold t =>
    rcases finish_eq hs hold t with he | ⟨answer, s', ht, he⟩
    · exact .inl (he ▸ hs)
    · exact .inr ⟨t, by simp, answer, s', ht, by rw [he]⟩

/-- A step leaves the store as it is, or is an operation that succeeds. -/
theorem Step.store {sv sv' : Service} {s : Store} (h : Step sv sv') (hplanned : sv.IsPlanned)
    (hs : sv.archive.store = some s) :
    sv'.IsPlanned ∧ (sv'.archive.store = some s ∨
      ∃ c p o answer s', Operation.Succeeds c p o s answer s' ∧ sv'.archive.store = some s') := by
  constructor
  · cases h with
    | connect => exact hplanned
    | refuse => exact hplanned
    | @plan a b ts us hold c p o t hstart =>
      rcases @start_cases a s c p o hold hs with
        ⟨f, hfail⟩ | ⟨u, hplan, hpending⟩
      · rw [hfail] at hstart
        cases hstart
      · rw [hpending] at hstart
        obtain ⟨rfl, hstage⟩ := Prod.mk.inj hstart
        obtain rfl := Stage.pending.inj hstage
        intro v hv
        rcases List.mem_cons.1 (List.perm_middle.mem_iff.1 hv) with rfl | hv
        · exact ⟨c, p, o, s, hplan⟩
        · exact hplanned v hv
    | commit =>
      exact fun v hv => hplanned v (List.perm_middle.mem_iff.2 (List.mem_cons_of_mem _ hv))
  · refine (h.commits hs).imp_right ?_
    rintro ⟨t, htp, answer, s', ht, hs'⟩
    obtain ⟨c, p, o, s₀, hplan⟩ := hplanned t htp
    exact ⟨c, p, o, answer, s', ⟨s₀, t, hplan, ht⟩, hs'⟩

/-- An archive in use has tables, which are sound, and what is planned was planned by operations. -/
theorem Reachable.sound_and_planned {sv : Service} (h : sv.Reachable) :
    (∃ s, sv.archive.store = some s ∧ s.IsSound) ∧ sv.IsPlanned := by
  obtain ⟨writeAhead, now, hrun⟩ := h
  induction hrun with
  | refl => exact ⟨⟨_, rfl, isSound_initialised now⟩, fun t ht => nomatch ht⟩
  | tail hrun hlast ih =>
    obtain ⟨⟨s, hs, -⟩, hplanned⟩ := ih
    have hreach : Reachable _ := ⟨writeAhead, now, hrun.tail hlast⟩
    exact ⟨hreach.isSound.store, (hlast.store hplanned hs).1⟩

/-- The tables of a reachable archive are sound. -/
theorem Reachable.isSound_store {sv : Service} (h : sv.Reachable) {s : Store}
    (hs : sv.archive.store = some s) : s.IsSound := by
  obtain ⟨s', hs', hsound⟩ := h.isSound.store
  exact Option.some.inj (hs'.symm.trans hs) ▸ hsound

/-- What a client makes of a reachable archive is reachable. -/
theorem Reachable.step {sv sv' : Service} (h : sv.Reachable) (hstep : Step sv sv') :
    sv'.Reachable := by
  obtain ⟨writeAhead, now, hrun⟩ := h
  exact ⟨writeAhead, now, hrun.tail hstep⟩

/-- What clients make of a reachable archive is reachable. -/
theorem Reachable.run {sv sv' : Service} (h : sv.Reachable) (hrun : Run sv sv') :
    sv'.Reachable := by
  obtain ⟨writeAhead, now, hbefore⟩ := h
  exact ⟨writeAhead, now, hbefore.trans hrun⟩

/-- A call that is answered has succeeded in the sound store that the others left, and leaves a
sound one. -/
theorem Reachable.call_eq_ok {a b : Archive} {between : Archive → Archive}
    {ts us : List (Transaction Answer)} {s : Store} {hold : Hold} {c : Context} {p : Policy}
    {o : Operation} {answer : Answer} (h : Reachable ⟨a, ts⟩)
    (hothers : Run ⟨a, ts⟩ ⟨between a, us⟩) (hs : (between a).store = some s)
    (hcall : a.run hold between (o.call c p) = (.ok answer, b)) :
    ∃ s', b = { between a with store := some s' } ∧ s.IsSound ∧ s'.IsSound ∧
      o.Succeeds c p s answer s' := by
  obtain ⟨⟨s₀, hs₀, -⟩, -⟩ := h.isSound
  have hsound := (h.run hothers).isSound_store hs
  obtain ⟨s', hok, hb⟩ := run_eq_ok hs₀ hs hcall
  exact ⟨s', hb, hsound, hok.isSound hsound, hok⟩

/-! ### Induction over what happens -/

/-- What holds of a store with nothing but the root and is kept by every operation that succeeds
holds in every archive in use. -/
theorem Reachable.invariant {P : Store → Prop} (hstart : ∀ now, P ⟨[rootNode now], [], [], []⟩)
    (hkeep : ∀ {c p o s answer s'}, s.IsSound → Operation.Succeeds c p o s answer s' → P s → P s')
    {sv : Service} (h : sv.Reachable) {s : Store} (hs : sv.archive.store = some s) : P s := by
  obtain ⟨writeAhead, now, hrun⟩ := h
  induction hrun generalizing s with
  | refl => exact Option.some.inj hs ▸ hstart now
  | @tail sv sv' hrun hlast ih =>
    have hreach : sv.Reachable := ⟨writeAhead, now, hrun⟩
    obtain ⟨⟨s₁, hs₁, hsound⟩, hplanned⟩ := hreach.sound_and_planned
    rcases (hlast.store hplanned hs₁).2 with hsame | ⟨c, p, o, answer, s', hok, hs'⟩
    · exact ih (hs₁.trans (hsame.symm.trans hs))
    · exact Option.some.inj (hs'.symm.trans hs) ▸ hkeep hsound hok (ih hs₁)

/-- A node with the identifier is in the archive. -/
def Holds (sv : Service) (id : Id) : Prop :=
  ∃ s, sv.archive.store = some s ∧ s.hasNode id

/-- What clients do while a node is there all the time. -/
def RunWith (id : Id) : Service → Service → Prop :=
  Relation.ReflTransGen fun sv sv' => Step sv sv' ∧ sv.Holds id ∧ sv'.Holds id

/-- What clients do while a node is there is something that they do. -/
theorem RunWith.run {id : Id} {sv sv' : Service} (h : RunWith id sv sv') : Run sv sv' :=
  Relation.ReflTransGen.mono (fun _ _ hstep => hstep.1) _ _ h

/-- What every operation that succeeds keeps, if a node is there before and after it, is kept as
long as the node is there. -/
theorem RunWith.invariant {id : Id} {P : Store → Prop}
    (hkeep : ∀ {c p o s answer s'}, s.IsSound → Operation.Succeeds c p o s answer s' →
      s.hasNode id → s'.hasNode id → P s → P s')
    {sv sv' : Service} (hrun : RunWith id sv sv') (h : sv.Reachable) {s s' : Store}
    (hs : sv.archive.store = some s) (hs' : sv'.archive.store = some s') (hP : P s) : P s' := by
  induction hrun generalizing s' with
  | refl => exact Option.some.inj (hs.symm.trans hs') ▸ hP
  | @tail sv₁ sv₂ hrun hlast ih =>
    obtain ⟨hstep, ⟨s₁, hs₁, hnode₁⟩, ⟨s₂, hs₂, hnode₂⟩⟩ := hlast
    obtain rfl : s₂ = s' := Option.some.inj (hs₂.symm.trans hs')
    have hreach := h.run (RunWith.run hrun)
    have hplanned := hreach.sound_and_planned.2
    rcases (hstep.store hplanned hs₁).2 with hsame | ⟨c, p, o, answer, s', hok, hs'⟩
    · exact ih (hs₁.trans (hsame.symm.trans hs₂))
    · obtain rfl : s' = s₂ := Option.some.inj (hs'.symm.trans hs₂)
      exact hkeep (hreach.isSound_store hs₁) hok hnode₁ hnode₂ (ih hs₁)

/-- A call that nobody interrupts is a run with a node that is there before and after it. -/
theorem RunWith.call {node : Id} {a : Archive} {ts : List (Transaction Answer)} {hold : Hold}
    {c : Context} {p : Policy} {o : Operation} (h : Holds ⟨a, ts⟩ node)
    (h' : Holds ⟨(a.run hold id (o.call c p)).2, ts⟩ node) :
    ∃ us, RunWith node ⟨a, ts⟩ ⟨(a.run hold id (o.call c p)).2, us⟩ := by
  obtain ⟨s, hs, hnode⟩ := h
  obtain ⟨⟨b, stage⟩, hstart⟩ : ∃ phase, a.start hold (o.call c p) = phase := ⟨_, rfl⟩
  obtain ⟨rfl, -⟩ := start_operation hs hstart
  rw [Archive.run, hstart] at h' ⊢
  cases stage with
  | done result => exact ⟨ts, .refl⟩
  | pending t =>
    have hplan : Step ⟨b, ts ++ []⟩ ⟨b, ts ++ [t]⟩ := .plan hstart
    have hcommit : Step ⟨b, ts ++ [t]⟩ ⟨(b.finish hold t).2, ts ++ []⟩ := .commit
    rw [List.append_nil] at hplan hcommit
    have hplanned : RunWith node ⟨b, ts⟩ ⟨b, ts ++ [t]⟩ :=
      .single ⟨hplan, ⟨s, hs, hnode⟩, ⟨s, hs, hnode⟩⟩
    exact ⟨ts, hplanned.tail ⟨hcommit, ⟨s, hs, hnode⟩, h'⟩⟩

end Service

end SnapshotArchive
