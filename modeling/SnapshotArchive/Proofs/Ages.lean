import SnapshotArchive.Proofs.Listings

/-!
# The ages of snapshots

The snapshots of a configuration are listed by the time of their creation, and its children by their
positions. If the clock of an archive never goes back, these are one order: a new snapshot comes
behind its siblings, snapshots are not moved, and those of a copied configuration are of one age and
keep their positions.

* `Clocked.Step`, `Clocked.Reachable` : what clients do while the clock goes on.
* `Clocked.Reachable.isAged` : the snapshots of a configuration are in the order of their ages.
* `Store.IsAged.snapshotsOf_eq` : so they are listed in the order of their positions.
-/

namespace SnapshotArchive

open Store Archive

/-! ### Archives with a clock -/

/-- An archive that clients use, and what its clock shows. -/
structure Clocked where
  service : Service
  now : Int

namespace Clocked

/-- What a client does next. The clock goes on meanwhile, and what changes the tables is done at a
time that it shows. -/
structure Step (x y : Clocked) : Prop where
  step : Service.Step x.service y.service
  onward : x.now ≤ y.now
  timed : y.service.archive.store = x.service.archive.store ∨ ∃ c p o s answer s',
    x.service.archive.store = some s ∧ Operation.Succeeds c p o s answer s' ∧
      y.service.archive.store = some s' ∧ x.now ≤ c.now ∧ c.now ≤ y.now

/-- What clients do one after the other. -/
def Run : Clocked → Clocked → Prop :=
  Relation.ReflTransGen Step

/-- An archive that clients have used since it was initialised, and whose clock has never gone
back. -/
def Reachable (x : Clocked) : Prop :=
  ∃ writeAhead now, Run ⟨⟨initialised writeAhead now, []⟩, now⟩ x

/-- What clients do while the clock goes on is something that clients do. -/
theorem Run.service {x y : Clocked} (h : Run x y) : Service.Run x.service y.service :=
  h.lift Clocked.service fun _ _ hstep => hstep.step

/-- An archive with a clock that can be reached can be reached without looking at the clock. -/
theorem Reachable.service {x : Clocked} (h : x.Reachable) : x.service.Reachable := by
  obtain ⟨writeAhead, now, hrun⟩ := h
  exact ⟨writeAhead, now, hrun.service⟩

/-- What is reached from a reachable archive is reachable. -/
theorem Reachable.run {x y : Clocked} (h : x.Reachable) (hrun : Run x y) : y.Reachable := by
  obtain ⟨writeAhead, now, hbefore⟩ := h
  exact ⟨writeAhead, now, hbefore.trans hrun⟩

/-- A call that nobody interrupts is carried out at its time. -/
theorem Run.call {a : Archive} {s : Store} (hs : a.store = some s) (ts : List (Transaction Answer))
    {now : Int} {c : Context} (hle : now ≤ c.now) (hold : Hold) (p : Policy) (o : Operation) :
    ∃ us, Run ⟨⟨a, ts⟩, now⟩ ⟨⟨(a.run hold id (o.call c p)).2, us⟩, c.now⟩ := by
  rw [Archive.run]
  have hcases : (∃ f, a.start hold (o.call c p) = (a, .done (.error f))) ∨
      ∃ t, o.write c p s = .ok t ∧ a.start hold (o.call c p) = (a, .pending t) := start_cases hs
  rcases hcases with ⟨f, hstart⟩ | ⟨t, hplan, hstart⟩
  · rw [hstart]
    exact ⟨ts, .single ⟨.refuse hstart, hle, .inl rfl⟩⟩
  · rw [hstart]
    have hplanned : Service.Step ⟨a, ts ++ []⟩ ⟨a, ts ++ [t]⟩ := .plan hstart
    have hcommit : Service.Step ⟨a, ts ++ [t]⟩ ⟨(a.finish hold t).2, ts ++ []⟩ := .commit
    rw [List.append_nil] at hplanned hcommit
    have hplanned : Run ⟨⟨a, ts⟩, now⟩ ⟨⟨a, ts ++ [t]⟩, now⟩ :=
      .single ⟨hplanned, Int.le_refl now, .inl rfl⟩
    refine ⟨ts, hplanned.tail ⟨hcommit, hle, ?_⟩⟩
    rcases finish_eq hs hold t with he | ⟨answer, s', ht, he⟩
    · exact .inl (congrArg Archive.store he)
    · exact .inr ⟨c, p, o, s, answer, s', hs, ⟨s, t, hplan, ht⟩, congrArg Archive.store he, hle,
        Int.le_refl c.now⟩

end Clocked

/-! ### Where snapshots are -/

/-- A snapshot stays at its place. -/
theorem Node.Revision.hasPlaceOf {c : Context} {n m : Node} (h : n.Revision c m)
    (hk : n.kind = .snapshot) : m.HasPlaceOf n := by
  cases h with
  | moved hmovable => exact absurd hk (Kind.ne_snapshot_of_isMovable hmovable)
  | _ => constructor <;> rfl

/-- A node is younger than all others, and comes behind those that a store has beside it. -/
structure Store.IsLast (s : Store) (c : Context) (m : Node) : Prop where
  created : m.created = c.now
  behind : ∀ n ∈ s.nodes, n.parent = m.parent → n.position < m.position

/-- The copy of a snapshot lies in a copied configuration, which had no children. -/
theorem Store.IsCopied.isLast {c : Context} {user : String} {s s' : Store} {target : Id}
    {nodes : List Node} {d : Id → Duplicate} (h : s.IsCopied c user target nodes d s')
    (hmovable : ∀ n ∈ nodes, n.kind.isMovable) {m : Node}
    (hm : m ∈ (copies c user target s d nodes).nodes) (hk : m.kind = .snapshot) : s.IsLast c m := by
  obtain ⟨source, hsource, n, hn, rfl⟩ := mem_nodes_copies_iff.1 hm
  rcases h.copyOf_cases hsource hn with ⟨rfl, hroot⟩ | ⟨o, ho, -, hcopy, hparent⟩
  · rw [hroot] at hk
    exact absurd hk (Kind.ne_snapshot_of_isMovable (hmovable n hsource))
  · rw [hcopy]
    refine ⟨rfl, fun k hk hp => ?_⟩
    obtain ⟨q, hq, hid, -⟩ := h.before.tree.contained k hk _ (hp.trans hparent)
    exact absurd hid (not_mem_of_hasNode_eq_false (h.new hsource ho) hq)

/-- A snapshot that was not there before an operation comes last. -/
theorem Operation.Effect.isLast {c : Context} {p : Policy} {o : Operation} {s s' : Store}
    (h : o.Effect c p s s') (hs : s.IsSound) (hs' : s'.IsSound) {m : Node} (hm : m ∈ s'.nodes)
    (hk : m.kind = .snapshot) (hnew : s.hasNode m.id = false) : s.IsLast c m := by
  have hold : ∀ {n : Node}, n ∈ s.nodes → m.id ≠ n.id := fun hn he =>
    not_mem_of_hasNode_eq_false hnew hn he.symm
  cases h with
  | createNode | createConfiguration | newSnapshot =>
    rcases List.mem_append.1 hm with hm | hm
    · exact absurd rfl (hold hm)
    · rw [List.mem_singleton.1 hm]
      exact ⟨rfl, fun n hn hp => lt_nextPosition hn hp⟩
  | copyNodes hcopies hbeside _ hplaced =>
    rcases List.mem_append.1 hm with hm | hm
    · obtain ⟨n, hn, hplace⟩ := mem_nodes_stamp hm
      exact absurd hplace.id (hold hn)
    · exact (hcopies.isCopied hs hs' hbeside hplaced rfl).isLast hcopies.movable hm hk
  | deleteNode | deleteNodes => exact absurd rfl (hold (mem_nodes_removeNodes_iff.1 hm).1)
  | addTag | removeTag | initialise => exact absurd rfl (hold hm)
  | renamePv | keepNodes =>
    obtain ⟨n, hn, hplace⟩ := mem_nodes_stamp hm
    exact absurd hplace.id (hold hn)
  | moveNodes =>
    obtain ⟨k, hk, hplace⟩ := mem_nodes_stamp hm
    obtain ⟨n, hn, rfl⟩ := List.mem_map.1 hk
    refine absurd (hplace.id.trans ?_) (hold hn)
    split <;> rfl
  | markGolden =>
    obtain ⟨n, hn, rfl⟩ := List.mem_map.1 hm
    exact absurd (hasPlaceOf_mark c _ _ _ n).id (hold hn)
  | updateNode | updateConfiguration | overwriteDraft | commitSnapshot =>
    obtain ⟨n, hn, he⟩ := List.mem_map.1 (map_id_replaceNode _ ▸ List.mem_map_of_mem hm)
    exact absurd he.symm (hold hn)

/-! ### Ages and positions -/

namespace Store

/-- No snapshot is from the future, and of two beside each other the one behind is not older. -/
structure IsAged (s : Store) (now : Int) : Prop where
  past : ∀ n ∈ s.nodes, n.kind = .snapshot → n.created ≤ now
  beside : ∀ n ∈ s.nodes, ∀ m ∈ s.nodes, n.kind = .snapshot → m.kind = .snapshot →
    n.parent = m.parent → n.position < m.position → n.created ≤ m.created

variable {s s' : Store} {now later : Int}

/-- A store stays aged as the clock goes on. -/
theorem IsAged.mono (h : s.IsAged now) (hle : now ≤ later) : s.IsAged later where
  past n hn hk := Int.le_trans (h.past n hn hk) hle
  beside := h.beside

/-- An operation that is carried out when the clock has gone on keeps snapshots in the order of
their ages. -/
theorem IsAged.succeeds (h : s.IsAged now) (hs : s.IsSound) {c : Context} {p : Policy}
    {o : Operation} {answer : Answer} (hok : o.Succeeds c p s answer s') (hle : now ≤ c.now) :
    s'.IsAged c.now := by
  have heffect := hok.effect hs
  have hcases : ∀ m ∈ s'.nodes, m.kind = .snapshot →
      (∃ n ∈ s.nodes, n.kind = .snapshot ∧ m.HasPlaceOf n) ∨ s.IsLast c m := by
    intro m hm hk
    cases hid : s.hasNode m.id with
    | false => exact .inr (heffect.isLast hs (hok.isSound hs) hm hk hid)
    | true =>
      obtain ⟨n, hn, he⟩ := hasNode_iff.1 hid
      have hrevision := heffect.revision hs hn hm he.symm
      have hkind : n.kind = .snapshot := hrevision.kind_eq.symm.trans hk
      exact .inl ⟨n, hn, hkind, hrevision.hasPlaceOf hkind⟩
  have hpast : ∀ m ∈ s'.nodes, m.kind = .snapshot → m.created ≤ c.now := by
    intro m hm hk
    rcases hcases m hm hk with ⟨n, hn, hkind, hplace⟩ | hlast
    · exact hplace.created ▸ Int.le_trans (h.past n hn hkind) hle
    · exact Int.le_of_eq hlast.created
  refine ⟨hpast, fun a ha b hb hka hkb hp hlt => ?_⟩
  rcases hcases b hb hkb with ⟨m, hm, hkm, hbm⟩ | hlast
  · rcases hcases a ha hka with ⟨n, hn, hkn, han⟩ | hlast
    · rw [han.created, hbm.created]
      refine h.beside n hn m hm hkn hkm ?_ ?_
      · rw [← han.parent, hp, hbm.parent]
      · rwa [← han.position, ← hbm.position]
    · -- A new snapshot does not come before one that was there.
      have hbehind := hlast.behind m hm (hbm.parent.symm.trans hp.symm)
      rw [← hbm.position] at hbehind
      exact absurd hlt (Nat.lt_asymm hbehind)
  · exact hlast.created ▸ hpast a ha hka

end Store

/-- In an archive whose clock has never gone back the snapshots of a configuration are in the order
of their ages. -/
theorem Clocked.Reachable.isAged {x : Clocked} (h : x.Reachable) {s : Store}
    (hs : x.service.archive.store = some s) : s.IsAged x.now := by
  obtain ⟨writeAhead, now, hrun⟩ := h
  induction hrun generalizing s with
  | refl =>
    obtain rfl := Option.some.inj hs
    have hnone : ∀ n ∈ [rootNode now], n.kind ≠ .snapshot := by
      intro n hn
      rw [List.mem_singleton.1 hn]
      exact Kind.noConfusion
    exact ⟨fun n hn hk => absurd hk (hnone n hn), fun n hn _ _ hk => absurd hk (hnone n hn)⟩
  | @tail x y hrun hstep ih =>
    have hreach : x.Reachable := ⟨writeAhead, now, hrun⟩
    rcases hstep.timed with hsame | ⟨c, p, o, s₁, answer, s₂, hs₁, hok, hs₂, hle, hle'⟩
    · exact (ih (hsame ▸ hs)).mono hstep.onward
    · obtain rfl := Option.some.inj (hs₂.symm.trans hs)
      exact ((ih hs₁).succeeds (hreach.service.isSound_store hs₁) hok hle).mono hle'

/-! ### Listings of snapshots -/

namespace Store

variable {s : Store} {now : Int}

/-- Ascending lists of the same nodes are equal. -/
theorem IsAscending.eq_of_perm {l l' : List Node} (hl : IsAscending l) (hl' : IsAscending l')
    (h : l.Perm l') : l = l' :=
  h.eq_of_pairwise (fun _ _ _ _ hlt hgt => absurd hgt (Nat.lt_asymm hlt)) hl hl'

/-- The snapshots of a configuration are listed in the order of their positions. -/
theorem IsAged.snapshotsOf_eq (h : s.IsAged now) (hs : s.IsTree) (ho : s.IsOrdered) (config : Id) :
    s.snapshotsOf config =
      (s.children config).filter fun n => n.kind = .snapshot && !n.draft := by
  have hmem : ∀ n ∈ s.snapshotsOf config,
      n ∈ s.nodes ∧ n.parent = some config ∧ n.kind = .snapshot := by
    intro n hn
    simp only [snapshotsOf, List.mem_mergeSort, List.mem_filter, Bool.and_eq_true,
      decide_eq_true_eq] at hn
    exact ⟨hn.1, hn.2.1⟩
  refine IsAscending.eq_of_perm ?_ ((ho.isAscending_children hs.nodup config).filter _) ?_
  · refine (snapshotsOf_sorted hs ho config).imp_of_mem fun {n m} hn hm hnm => ?_
    obtain ⟨hn, hnp, hnk⟩ := hmem n hn
    obtain ⟨hm, hmp, hmk⟩ := hmem m hm
    rcases hnm with hlt | ⟨-, hlt⟩
    · -- The one behind would not be older.
      by_contra hge
      have hne : m.position ≠ n.position := fun he => by
        rw [ho n hn m hm config hnp hmp he.symm] at hlt
        exact Int.lt_irrefl _ hlt
      have hle := h.beside m hm n hn hmk hnk (hmp.trans hnp.symm) (by omega)
      omega
    · exact hlt
  · refine (List.mergeSort_perm _ _).trans (((List.mergeSort_perm _ _).filter _).trans ?_).symm
    rw [List.filter_filter]
    exact .of_eq (List.filter_congr fun n _ => by
      simp only [Bool.and_comm, Bool.and_left_comm])

end Store

end SnapshotArchive
