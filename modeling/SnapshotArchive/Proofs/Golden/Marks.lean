import SnapshotArchive.Proofs.Golden
import SnapshotArchive.Proofs.Listings
import SnapshotArchive.Proofs.Relocation

/-!
# Marking a snapshot as golden

A committed snapshot gets the golden mark or loses it, and nothing else about it changes. Where
clients mark exclusively, setting the mark clears that of the golden snapshots beside it, however
they came by it, and writes to no other node (`Store.IsMarked`). Drafts and nodes of other kinds
are refused, and nothing changes then.

* `markGolden_of_committed`, `markGolden_of_draft`, `markGolden_of_kind` : the operation.
* `Store.IsTree.isMarked` : what it leaves.
* `Service.Reachable.golden_marked` : the call.
-/

namespace SnapshotArchive

open Text Store Archive Sample

/-! ### The marked node -/

/-- With the golden mark properties are golden. -/
theorem Properties.isGolden_insert (p : Properties) : (p.insert goldenKey "true").isGolden := by
  rw [isGolden, get?_insert, if_pos rfl]
  decide

namespace Node

variable {n : Node} {c : Context} {golden : Bool}

/-- A marked snapshot is golden exactly if it was marked so. -/
theorem isGolden_marked (hk : n.kind = .snapshot) : (n.marked c golden).IsGolden ↔ golden := by
  cases golden with
  | true => exact iff_of_true ⟨hk, Properties.isGolden_insert _⟩ rfl
  | false =>
    refine iff_of_false (fun hgolden => ?_) Bool.false_ne_true
    exact absurd hgolden.2 (by simp [marked, Properties.isGolden_erase])

/-- Marking a snapshot leaves its other properties. -/
theorem get?_marked {key : String} (hkey : key ≠ goldenKey) :
    (n.marked c golden).properties.get? key = n.properties.get? key := by
  cases golden with
  | true => exact (Properties.get?_insert _ _ _ _).trans (if_neg hkey)
  | false => exact (Properties.get?_erase _ _ _).trans (if_neg hkey)

/-- A marked snapshot is a changed one, for it has another version. -/
theorem marked_ne : n.marked c golden ≠ n := fun he =>
  Nat.succ_ne_self n.version (congrArg Node.version he)

end Node

namespace Store

/-- The snapshots that lose their mark when that of another is set or cleared. -/
def cleared (s : Store) (exclusive golden : Bool) (n : Node) : List Node :=
  if golden && exclusive then s.goldenSiblings n else []

/-- What marking a snapshot makes of the tables; `m` is the snapshot afterwards. -/
structure IsMarked (s : Store) (c : Context) (exclusive golden : Bool) (n m : Node) (t : Store) :
    Prop where
  golden_iff : m.IsGolden ↔ golden
  properties : ∀ key ≠ goldenKey, m.properties.get? key = n.properties.get? key
  record : m = { n with
    properties := m.properties, modified := c.now, version := n.version + 1 }
  stored : m ∈ t.nodes
  ids : t.nodes.map (·.id) = s.nodes.map (·.id)
  pvs : t.pvs = s.pvs
  items : t.items = s.items
  tags : t.tags = s.tags
  single : golden → exclusive → ∀ o ∈ t.nodes, o.IsGolden → o.parent = n.parent → o = m
  /-- Of the other nodes just the golden snapshots beside it are written to. -/
  rewritten : ∀ o ∈ s.nodes, o.id ≠ n.id →
    (o ∉ t.nodes ↔ golden ∧ exclusive ∧ o.parent = n.parent ∧ o.IsGolden)
  unmarked : golden → exclusive → ∀ o ∈ s.nodes, o.id ≠ n.id → o.parent = n.parent → o.IsGolden →
    { o with properties := o.properties.erase goldenKey
             modified := c.now
             version := o.version + 1 } ∈ t.nodes

variable {s t : Store} {c : Context} {n : Node} {golden exclusive : Bool}

/-! ### What is left -/

section

variable (hs : s.IsTree)

include hs

/-- A mark is cleared exactly where an exclusive one is set beside it. -/
theorem mem_cleared_iff {o : Node} (ho : o ∈ s.nodes) (hne : o.id ≠ n.id) :
    o.id ∈ (s.cleared exclusive golden n).map (·.id) ↔
      golden ∧ exclusive ∧ o.parent = n.parent ∧ o.IsGolden := by
  unfold cleared
  by_cases hset : golden && exclusive
  · rw [if_pos hset]
    obtain ⟨hgolden, hexclusive⟩ := Bool.and_eq_true_iff.1 hset
    constructor
    · intro hmem
      obtain ⟨k, hk, hid⟩ := List.mem_map.1 hmem
      obtain ⟨hk, ⟨-, hp⟩, -, hkg⟩ := mem_goldenSiblings_iff.1 hk
      obtain rfl := eq_of_id_eq hs.nodup hk ho hid
      exact ⟨hgolden, hexclusive, hp, hkg⟩
    · rintro ⟨-, -, hp, hog⟩
      exact List.mem_map_of_mem (hs.mem_goldenSiblings ho hog hp hne)
  · rw [if_neg hset]
    refine iff_of_false List.not_mem_nil ?_
    rintro ⟨hgolden, hexclusive, -⟩
    exact hset (Bool.and_eq_true_iff.2 ⟨hgolden, hexclusive⟩)

/-- No mark is cleared twice. -/
theorem nodup_cleared : ((s.cleared exclusive golden n).map (·.id)).Nodup := by
  unfold cleared
  split
  · exact hs.nodup_goldenSiblings n
  · exact List.nodup_nil

omit hs in
/-- The mark that is set is not cleared. -/
theorem not_mem_cleared : n.id ∉ (s.cleared exclusive golden n).map (·.id) := by
  unfold cleared
  split
  · exact not_mem_goldenSiblings s n
  · exact List.not_mem_nil

/-- A node of the marked store is the marked one, or another one that lost its mark or is as it
was. -/
theorem mem_mark_iff (hn : n ∈ s.nodes) {others : List Node} {o : Node} :
    o ∈ (s.mark c n golden others).nodes ↔ o = n.marked c golden ∨
      ∃ k ∈ s.nodes, k.id ≠ n.id ∧
        o = if k.id ∈ others.map (·.id) then k.marked c false else k := by
  rw [mark, List.mem_map]
  constructor
  · rintro ⟨k, hk, rfl⟩
    by_cases hid : k.id = n.id
    · rw [if_pos hid, eq_of_id_eq hs.nodup hk hn hid]
      exact .inl rfl
    · rw [if_neg hid]
      exact .inr ⟨k, hk, hid, rfl⟩
  · rintro (rfl | ⟨k, hk, hid, rfl⟩)
    · exact ⟨n, hn, if_pos rfl⟩
    · exact ⟨k, hk, if_neg hid⟩

omit hs in
/-- Marking keeps the identifiers. -/
theorem map_id_mark (others : List Node) :
    (s.mark c n golden others).nodes.map (·.id) = s.nodes.map (·.id) := by
  rw [mark, List.map_map]
  exact List.map_congr_left fun m _ => (hasPlaceOf_mark c n golden others m).id

/-- What marking a stored snapshot makes of the tables. -/
theorem IsTree.isMarked (hn : n ∈ s.nodes) (hk : n.kind = .snapshot) :
    s.IsMarked c exclusive golden n (n.marked c golden)
      (s.mark c n golden (s.cleared exclusive golden n)) where
  golden_iff := Node.isGolden_marked hk
  properties _ := Node.get?_marked
  record := rfl
  stored := (mem_mark_iff hs hn).2 (.inl rfl)
  ids := map_id_mark _
  pvs := rfl
  items := rfl
  tags := rfl
  single hgolden hexclusive o ho hog hp := by
    rcases (mem_mark_iff hs hn).1 ho with rfl | ⟨k, hk, hne, rfl⟩
    · rfl
    · split at hog
      · exact absurd ((Node.isGolden_marked (n := k) hog.1).1 hog) Bool.false_ne_true
      · rename_i hnot
        rw [if_neg hnot] at hp
        exact absurd ((mem_cleared_iff hs hk hne).2 ⟨hgolden, hexclusive, hp, hog⟩) hnot
  rewritten o ho hne := by
    rw [← mem_cleared_iff hs ho hne, ← not_iff_not, not_not]
    constructor
    · intro hkept hother
      rcases (mem_mark_iff hs hn).1 hkept with rfl | ⟨k, hk, -, he⟩
      · exact hne rfl
      · have hid : k.id = o.id := by rw [he]; split <;> rfl
        obtain rfl := eq_of_id_eq hs.nodup hk ho hid
        rw [if_pos hother] at he
        exact Node.marked_ne he.symm
    · exact fun hnot => (mem_mark_iff hs hn).2 (.inr ⟨o, ho, hne, (if_neg hnot).symm⟩)
  unmarked hgolden hexclusive o ho hne hp hog := by
    refine (mem_mark_iff hs hn).2 (.inr ⟨o, ho, hne, ?_⟩)
    rw [if_pos ((mem_cleared_iff hs ho hne).2 ⟨hgolden, hexclusive, hp, hog⟩)]
    rfl

end

end Store

/-! ### The operation -/

section

variable {s s₀ : Store} {c : Context} {p : Policy} {n : Node} {golden : Bool} (hs : s.IsTree)
  (hn : n ∈ s.nodes)

include hs hn

/-- What is no snapshot is refused. -/
theorem markGolden_of_kind (hk : n.kind ≠ .snapshot) :
    ∃ t, (Operation.markGolden n.id golden).write c p s₀ = .ok t ∧
      t s = .error (.refused (.unfitKind n.id n.kind .snapshot)) := by
  refine ⟨_, rfl, map_eq_error_iff.2 (bind_eq_error_iff.2 (.inl (bind_eq_error_iff.2 (.inr
    ⟨n, require_eq_ok_iff.2 (node?_of_mem hs.nodup hn), bind_eq_error_iff.2 (.inl ?_)⟩))))⟩
  exact demand_eq_error_iff.2 ⟨hk, rfl⟩

variable (hk : n.kind = .snapshot)

include hk

/-- A draft is refused. -/
theorem markGolden_of_draft (hd : n.content.isDraft) :
    ∃ t, (Operation.markGolden n.id golden).write c p s₀ = .ok t ∧
      t s = .error (.refused .draftGolden) := by
  refine ⟨_, rfl, map_eq_error_iff.2 (bind_eq_error_iff.2 (.inr ⟨n, requireToWrite_eq_ok_iff.2
    ⟨node?_of_mem hs.nodup hn, hk⟩, bind_eq_error_iff.2 (.inl ?_)⟩))⟩
  exact demand_eq_error_iff.2 ⟨by simp [hd], rfl⟩

/-- A committed snapshot is marked. -/
theorem markGolden_of_committed (hd : n.content.isDraft = false) :
    ∃ t, (Operation.markGolden n.id golden).write c p s₀ = .ok t ∧
      t s = .ok (.node (n.marked c golden),
        s.mark c n golden (s.cleared p.goldenExclusive golden n)) := by
  have hmark : ((s.cleared p.goldenExclusive golden n).foldl
      (fun s m => s.setGolden c m.id false) s).setGolden c n.id golden =
        s.mark c n golden (s.cleared p.goldenExclusive golden n) :=
    foldl_setGolden_setGolden (nodup_cleared hs) not_mem_cleared
  have hids : ((s.mark c n golden (s.cleared p.goldenExclusive golden n)).nodes.map
      (·.id)).Nodup := by
    rw [map_id_mark]
    exact hs.nodup
  refine Write.exists_map_eq_ok_iff.2 ⟨n.marked c golden, rfl, _, rfl, bind_eq_ok_iff.2 ⟨n,
    requireToWrite_eq_ok_iff.2 ⟨node?_of_mem hs.nodup hn, hk⟩,
    demand_bind_eq_ok_iff.2 ⟨hd, answerNode_eq_ok_iff.2 ⟨hmark ▸ ?_, hmark⟩⟩⟩⟩
  exact node?_of_mem hids ((mem_mark_iff hs hn).2 (.inl rfl))

end

/-- A transaction that fails is undone, if it began. -/
theorem Archive.finish_of_refused {a : Archive} {s : Store} (hs : a.store = some s) (hold : Hold)
    {t : Transaction Answer} {r : Refusal} (ht : t s = .error (.refused r)) :
    ∃ r', a.finish hold t = (.error (.refused r'), a) ∧ (hold ≠ .writing → r' = r) := by
  unfold finish
  split
  · exact ⟨.busy, rfl, fun hne => absurd ‹_› hne⟩
  · simp only [hs, ht]
    exact ⟨r, rfl, fun _ => rfl⟩

namespace Service

/-- Whether a snapshot is golden is set as asked for, and nothing else about it changes. Where
clients mark exclusively, setting the mark clears that of the golden snapshots beside it. No other
node is written to, and drafts and other nodes are refused. -/
theorem Reachable.golden_marked {a : Archive} {between : Archive → Archive}
    {ts us : List (Transaction Answer)} {s : Store} {n : Node} (h : Reachable ⟨a, ts⟩)
    (hothers : Run ⟨a, ts⟩ ⟨between a, us⟩) (hs : (between a).store = some s) (hn : n ∈ s.nodes)
    (hold : Hold) (c : Context) (p : Policy) (golden : Bool) :
    let result := a.run hold between ((Operation.markGolden n.id golden).call c p)
    (¬(n.kind = .snapshot ∧ n.draft = false) →
      ∃ r, result = (.error (.refused r), between a) ∧ (hold ≠ .writing →
        r = if n.kind = .snapshot then .draftGolden else .unfitKind n.id n.kind .snapshot)) ∧
    (n.kind = .snapshot → n.draft = false → hold = .nothing →
      ∃ answer b, result = (.ok answer, b)) ∧
    ∀ answer b, result = (.ok answer, b) → ∃ m s', answer = .node m ∧
      b = { between a with store := some s' } ∧
      s.IsMarked c p.goldenExclusive golden n m s' ∧
      (Query.snapshot n.id).ask b = .ok (.snapshot ⟨m, s.readings n.id⟩) ∧
      (Query.tags n.id).ask b = .ok (.tags (s.tagsOf n.id)) := by
  intro result
  obtain ⟨⟨s₀, hs₀, -⟩, -⟩ := h.isSound
  have hsound := (h.run hothers).isSound_store hs
  have hdraft := hsound.named.drafts n hn
  have hrun {t : Transaction Answer} (hplan : (Operation.markGolden n.id golden).write c p s₀ =
      .ok t) : result = (between a).finish hold t :=
    run_of_plan_ok (o := .markGolden n.id golden) hs₀ (fun he => nomatch he) hplan
  have hrefused : ¬(n.kind = .snapshot ∧ n.draft = false) →
      ∃ r, result = (.error (.refused r), between a) ∧ (hold ≠ .writing →
        r = if n.kind = .snapshot then .draftGolden else .unfitKind n.id n.kind .snapshot) := by
    intro hnot
    by_cases hk : n.kind = .snapshot
    · have hd : n.content.isDraft := hdraft ▸ eq_true_of_ne_false fun hd => hnot ⟨hk, hd⟩
      obtain ⟨t, hplan, ht⟩ := markGolden_of_draft hsound.tree hn hk hd
      rw [hrun hplan, if_pos hk]
      exact finish_of_refused hs hold ht
    · obtain ⟨t, hplan, ht⟩ := markGolden_of_kind hsound.tree hn hk
      rw [hrun hplan, if_neg hk]
      exact finish_of_refused hs hold ht
  refine ⟨hrefused, fun hk hd hhold => ?_, fun answer b hcall => ?_⟩
  · subst hhold
    obtain ⟨t, hplan, ht⟩ := markGolden_of_committed hsound.tree hn hk (hdraft ▸ hd)
    rw [hrun hplan, finish_nothing_of_ok hs ht]
    exact ⟨_, _, rfl⟩
  · obtain ⟨hk, hd⟩ : n.kind = .snapshot ∧ n.draft = false := by
      by_contra hnot
      obtain ⟨r, hfails, -⟩ := hrefused hnot
      cases hcall.symm.trans hfails
    obtain ⟨s', rfl, -, hsound', s₁, t, hplan, ht⟩ := h.call_eq_ok hothers hs hcall
    obtain ⟨t', hplan', ht'⟩ := markGolden_of_committed hsound.tree hn hk (hdraft ▸ hd)
    obtain rfl := Except.ok.inj (hplan.symm.trans hplan')
    obtain ⟨rfl, rfl⟩ := Prod.mk.inj (Except.ok.inj (ht.symm.trans ht'))
    have hmarked : s.IsMarked c p.goldenExclusive golden n _ _ := hsound.tree.isMarked hn hk
    have hreads := answers_listings (a := { between a with
      store := some (s.mark c n golden (s.cleared p.goldenExclusive golden n)) }) hsound'.tree rfl
    have hstored := mem_ofKind_iff.2 ⟨hmarked.stored, hk⟩
    exact ⟨n.marked c golden, _, rfl, rfl, hmarked, hreads.readingsOf (n.marked c golden) hstored,
      hreads.tagsOf (n.marked c golden) hstored⟩

/-- Of two snapshots the first one is golden. Marking the second one clears it. -/
theorem golden_marked_gilded : ∃ s n o m s' b, gilded.store = some s ∧ n ∈ s.nodes ∧
    o ∈ s.nodes ∧ n.kind = .snapshot ∧ o.parent = n.parent ∧ o.id ≠ n.id ∧ o.IsGolden ∧
    ¬n.IsGolden ∧
    gilded.run .nothing id ((Operation.markGolden n.id true).call (supply "h") policy) =
      (.ok (.node m), b) ∧ b.store = some s' ∧ m.IsGolden ∧ o ∉ s'.nodes ∧
    (∀ k ∈ s.nodes, k.id ≠ n.id → k.id ≠ o.id → k ∈ s'.nodes) ∧
    ∀ k ∈ s'.nodes, k.IsGolden → k.parent = n.parent → k = m := by
  obtain ⟨ts, h⟩ := reachable_gilded
  obtain ⟨⟨s, hs, -⟩, -⟩ := h.isSound
  have hpair : ∀ s ∈ gilded.store, ∃ n ∈ s.nodes, ∃ o ∈ s.nodes, n.kind = .snapshot ∧
      n.draft = false ∧ o.parent = n.parent ∧ o.id ≠ n.id ∧ o.IsGolden ∧ ¬n.IsGolden ∧
      ∀ k ∈ s.nodes, k.IsGolden → k.id = o.id := by
    decide +kernel
  obtain ⟨n, hn, o, ho, hk, hd, hp, hne, hog, hng, honly⟩ := hpair s hs
  have hidle : Run ⟨gilded, ts⟩ ⟨id gilded, ts⟩ := .refl
  obtain ⟨-, hanswered, heffect⟩ := h.golden_marked hidle hs hn .nothing (supply "h") policy true
  obtain ⟨answer, b, hcall⟩ := hanswered hk hd rfl
  obtain ⟨m, s', rfl, hb, hmarked, -, -⟩ := heffect answer b hcall
  refine ⟨s, n, o, m, s', b, hs, hn, ho, hk, hp, hne, hog, hng, hcall, by rw [hb],
    hmarked.golden_iff.2 rfl, (hmarked.rewritten o ho hne).2 ⟨rfl, rfl, hp, hog⟩,
    fun k hk hkn hko => ?_, hmarked.single rfl rfl⟩
  by_contra hnot
  exact hko (honly k hk ((hmarked.rewritten k hk hkn).1 hnot).2.2.2)

end Service

end SnapshotArchive
