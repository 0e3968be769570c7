import SnapshotArchive.Proofs.Drafts
import SnapshotArchive.Proofs.Footprint

/-!
# Golden snapshots

Where clients mark exclusively, marking a snapshot as golden clears the mark of the others of its
configuration, and no other operation but one brings a second golden snapshot to a configuration.
That one is an update that sets the property itself: it leaves the others as they are, so an update
of a snapshot beside a golden one leaves two (`Operation.MarksBeside`). It is the only way to get
there.

* `Operation.Effect.goldenApart_iff` : which operations keep golden snapshots apart.
* `Service.ExclusiveRun.golden_apart_or_beside` : in which runs they are apart.
* `Service.golden_beside` : a run in which they are not.
-/

namespace SnapshotArchive

open Text Store Archive Sample

/-- Whether a node is a golden snapshot. -/
def Node.IsGolden (n : Node) : Prop :=
  n.kind = .snapshot ∧ n.properties.isGolden

instance (n : Node) : Decidable n.IsGolden :=
  inferInstanceAs (Decidable (_ ∧ _))

/-- No configuration has two golden snapshots. -/
def Store.IsGoldenApart (s : Store) : Prop :=
  ∀ n ∈ s.nodes, ∀ m ∈ s.nodes, n.IsGolden → m.IsGolden → n.parent = m.parent → n = m

/-- An update that marks a snapshot as golden while another one of its configuration is. -/
def Operation.MarksBeside (s : Store) : Operation → Prop
  | .updateNode form _ => form.properties.isGolden ∧
      ∃ n ∈ s.nodes, n.id = form.id ∧ n.kind = .snapshot ∧ s.goldenSiblings n ≠ []
  | _ => False

/-! ### The property -/

namespace Properties

variable (p : Properties)

/-- Without the golden mark nothing is golden. -/
theorem isGolden_erase : (p.erase goldenKey).isGolden = false := by
  rw [isGolden, get?_erase, if_pos rfl]
  decide

end Properties

namespace Store

variable {s s' : Store}

/-- The golden siblings of a node are the golden snapshots beside it. -/
theorem mem_goldenSiblings_iff {n m : Node} : m ∈ s.goldenSiblings n ↔
    m ∈ s.nodes ∧ (m.parent.isSome ∧ m.parent = n.parent) ∧ m.id ≠ n.id ∧ m.IsGolden := by
  simp only [goldenSiblings, List.mem_filter, Bool.and_eq_true, decide_eq_true_eq, Node.IsGolden]
  constructor
  · rintro ⟨hm, ⟨⟨⟨hsome, hp⟩, hk⟩, hne⟩, hgolden⟩
    exact ⟨hm, ⟨hsome, hp⟩, hne, hk, hgolden⟩
  · rintro ⟨hm, ⟨hsome, hp⟩, hne, hk, hgolden⟩
    exact ⟨hm, ⟨⟨⟨hsome, hp⟩, hk⟩, hne⟩, hgolden⟩

/-- A snapshot has a parent, so its golden siblings are the golden snapshots beside it. -/
theorem IsTree.mem_goldenSiblings (h : s.IsTree) {n m : Node} (hm : m ∈ s.nodes)
    (hgolden : m.IsGolden) (hp : m.parent = n.parent) (hne : m.id ≠ n.id) :
    m ∈ s.goldenSiblings n := by
  refine mem_goldenSiblings_iff.2 ⟨hm, ⟨?_, hp⟩, hne, hgolden⟩
  refine Option.isSome_iff_ne_none.2 fun hnone => ?_
  have hk := hgolden.1
  rw [h.kind_of_parent_eq_none hm hnone] at hk
  cases hk

/-! ### What keeps golden snapshots apart -/

namespace IsGoldenApart

variable (h : s.IsGoldenApart)

include h

/-- If each golden snapshot comes from one in its place. -/
theorem of_origin (hids : (s'.nodes.map (·.id)).Nodup) (horigin : ∀ m ∈ s'.nodes, m.IsGolden →
    ∃ n ∈ s.nodes, n.IsGolden ∧ n.id = m.id ∧ n.parent = m.parent) : s'.IsGoldenApart := by
  intro m hm m' hm' hgolden hgolden' hp
  obtain ⟨n, hn, hng, hid, hnp⟩ := horigin m hm hgolden
  obtain ⟨n', hn', hng', hid', hnp'⟩ := horigin m' hm' hgolden'
  have he := h n hn n' hn' hng hng' (hnp.trans (hp.trans hnp'.symm))
  exact eq_of_id_eq hids hm hm' (hid.symm.trans ((congrArg _ he).trans hid'))

/-- Taking nodes away leaves golden snapshots apart. -/
theorem of_subset (hsub : s'.nodes ⊆ s.nodes) : s'.IsGoldenApart :=
  fun n hn m hm => h n (hsub hn) m (hsub hm)

/-- Adding a node that is not golden leaves golden snapshots apart. -/
theorem of_append {m : Node} (ht : s'.nodes = s.nodes ++ [m]) (hm : ¬m.IsGolden) :
    s'.IsGoldenApart := by
  have hold : ∀ o ∈ s'.nodes, o.IsGolden → o ∈ s.nodes := by
    intro o ho hgolden
    rw [ht] at ho
    rcases List.mem_append.1 ho with ho | ho
    · exact ho
    · exact absurd (List.mem_singleton.1 ho ▸ hgolden) hm
  exact fun o ho q hq hog hqg => h o (hold o ho hog) q (hold q hq hqg) hog hqg

/-- If a node that is put in the place of another is golden only as that was. -/
theorem of_replaceNode (hids : (s'.nodes.map (·.id)).Nodup) {n k : Node}
    (ht : s'.nodes = (s.replaceNode k).nodes) (hn : n ∈ s.nodes) (hid : n.id = k.id)
    (hp : n.parent = k.parent) (hk : k.IsGolden → n.IsGolden) : s'.IsGoldenApart := by
  refine h.of_origin hids fun m hm hgolden => ?_
  rcases mem_replaceNode_iff.1 (ht ▸ hm : m ∈ (s.replaceNode k).nodes) with ⟨rfl, -⟩ | ⟨hm, -⟩
  · exact ⟨n, hn, hk hgolden, hid, hp⟩
  · exact ⟨m, hm, hgolden, rfl, rfl⟩

/-- Stamping a node leaves golden snapshots apart. -/
theorem of_stamp (hids : (s'.nodes.map (·.id)).Nodup) {c : Context} {id : Id} {user : String}
    (ht : s'.nodes = (s.stamp c id user).nodes) : s'.IsGoldenApart := by
  refine h.of_origin hids fun m hm hgolden => ?_
  rw [ht] at hm
  obtain ⟨n, hn, rfl⟩ := List.mem_map.1 hm
  refine ⟨n, hn, ?_, ?_, ?_⟩
  · by_cases hid : n.id = id
    · rw [if_pos hid] at hgolden
      exact hgolden
    · rwa [if_neg hid] at hgolden
  · exact (hasPlaceOf_stamp c id user n).id.symm
  · exact (hasPlaceOf_stamp c id user n).parent.symm

/-- Snapshots are not moved. -/
theorem of_move (hids : (s'.nodes.map (·.id)).Nodup) {c : Context} {target : Id} {user : String}
    {ids : List Id} (hmovable : ∀ n ∈ s.nodes, n.id ∈ ids → n.kind.isMovable)
    (ht : s'.nodes = ((s.move c target user ids).stamp c target user).nodes) :
    s'.IsGoldenApart := by
  have hstays : ∀ n ∈ s.nodes, n.id ∈ ids → n.kind ≠ .snapshot := fun n hn hid =>
    Kind.ne_snapshot_of_isMovable (hmovable n hn hid)
  refine h.of_origin hids fun m hm hgolden => ?_
  rw [ht] at hm
  obtain ⟨k, hk, rfl⟩ := List.mem_map.1 hm
  obtain ⟨n, hn, rfl⟩ := List.mem_map.1 hk
  by_cases hid : n.id ∈ ids
  · -- A moved node is of the kind that it was.
    rw [if_pos hid] at hgolden
    have hkind : n.kind = .snapshot := by
      have hk := hgolden.1
      split at hk <;> exact hk
    exact absurd hkind (hstays n hn hid)
  · rw [if_neg hid] at hgolden ⊢
    refine ⟨n, hn, ?_, (hasPlaceOf_stamp c target user n).id.symm,
      (hasPlaceOf_stamp c target user n).parent.symm⟩
    split at hgolden <;> exact hgolden

/-- Copies of golden snapshots lie in copies of their configurations. -/
theorem of_copies {c : Context} {user : String} {target : Id} {nodes : List Node}
    {d : Id → Duplicate} (hcopied : s.IsCopied c user target nodes d s')
    (hmovable : ∀ n ∈ nodes, n.kind.isMovable) : s'.IsGoldenApart := by
  refine hcopied.single (fun m hm hgolden hnone => ?_) (fun source hsource hgolden => ?_)
    (fun _ _ hgolden => hgolden) h (h.of_stamp hcopied.nodup_stamp rfl)
  · have hk := hgolden.1
    rw [hcopied.after.tree.kind_of_parent_eq_none hm hnone] at hk
    cases hk
  · exact Kind.ne_snapshot_of_isMovable (hmovable source hsource) hgolden.1

/-- A snapshot that is marked while the others are cleared is the only one. -/
theorem of_mark (hs : s.IsTree) {c : Context} {n : Node} {golden : Bool} (hn : n ∈ s.nodes)
    (ht : s'.nodes = (s.mark c n golden (if golden then s.goldenSiblings n else [])).nodes) :
    s'.IsGoldenApart := by
  -- A golden snapshot is the marked one, or was golden and stays what it was.
  have hcases : ∀ m ∈ s'.nodes, m.IsGolden → m = n.marked c golden ∧ golden ∨
      m ∈ s.nodes ∧ m.id ≠ n.id ∧ (golden → m.parent ≠ n.parent) := by
    intro m hm hgolden
    rw [ht] at hm
    obtain ⟨o, ho, rfl⟩ := List.mem_map.1 hm
    by_cases hid : o.id = n.id
    · obtain rfl := eq_of_id_eq hs.nodup ho hn hid
      rw [if_pos hid] at hgolden ⊢
      refine .inl ⟨rfl, ?_⟩
      cases golden with
      | true => rfl
      | false => exact absurd hgolden.2 (by simp [Node.marked, Properties.isGolden_erase])
    · rw [if_neg hid] at hgolden ⊢
      by_cases hother : o.id ∈ (if golden then s.goldenSiblings n else []).map (·.id)
      · rw [if_pos hother] at hgolden
        exact absurd hgolden.2 (by simp [Node.marked, Properties.isGolden_erase])
      · rw [if_neg hother] at hgolden ⊢
        refine .inr ⟨ho, hid, fun hset hp => hother ?_⟩
        rw [if_pos hset]
        exact List.mem_map_of_mem (hs.mem_goldenSiblings ho hgolden hp hid)
  intro m hm m' hm' hgolden hgolden' hp
  rcases hcases m hm hgolden with ⟨rfl, hset⟩ | ⟨hold, -, hapart⟩
  · rcases hcases m' hm' hgolden' with ⟨rfl, -⟩ | ⟨-, -, hapart⟩
    · rfl
    · exact absurd hp.symm (hapart hset)
  · rcases hcases m' hm' hgolden' with ⟨rfl, hset⟩ | ⟨hold', -, -⟩
    · exact absurd hp (hapart hset)
    · exact h m hold m' hold' hgolden hgolden' hp

/-- An update of a node keeps them apart exactly if it does not mark a snapshot beside another. -/
theorem update_iff (hs : s.IsTree) {c : Context} {n : Node} {form : NodeForm} {keepTime : Bool}
    {name : String} (hn : n ∈ s.nodes) (hid : n.id = form.id) :
    (s.replaceNode (n.updated c form keepTime name)).IsGoldenApart ↔
      ¬(Operation.updateNode form keepTime).MarksBeside s := by
  constructor
  · rintro hapart ⟨hgolden, m, hm, hmid, hk, hsiblings⟩
    obtain rfl := eq_of_id_eq hs.nodup hm hn (hmid.trans hid.symm)
    obtain ⟨o, ho⟩ := List.exists_mem_of_ne_nil _ hsiblings
    obtain ⟨ho, ⟨-, hp⟩, hne, hog⟩ := mem_goldenSiblings_iff.1 ho
    have hother : o ∈ (s.replaceNode (m.updated c form keepTime name)).nodes :=
      mem_replaceNode_iff.2 (.inr ⟨ho, hne⟩)
    have hsame := hapart _ (mem_replaceNode_self hn rfl) o hother ⟨hk, hgolden⟩ hog hp.symm
    exact hne (congrArg Node.id hsame).symm
  · intro hnot
    -- No other golden snapshot lies beside the updated node, if that is one.
    have halone : (n.updated c form keepTime name).IsGolden →
        ∀ m ∈ s.nodes, m.IsGolden → m.parent = n.parent → m.id = n.id := by
      intro hgolden m hm hmg hp
      by_contra hne
      refine hnot ⟨hgolden.2, n, hn, hid, hgolden.1, fun hnone => ?_⟩
      have hmem := hs.mem_goldenSiblings hm hmg hp hne
      rw [hnone] at hmem
      cases hmem
    intro m hm m' hm' hgolden hgolden' hp
    rcases mem_replaceNode_iff.1 hm with ⟨rfl, -⟩ | ⟨hm, hne⟩
    · rcases mem_replaceNode_iff.1 hm' with ⟨rfl, -⟩ | ⟨hm', hne'⟩
      · rfl
      · exact absurd (halone hgolden m' hm' hgolden' hp.symm) hne'
    · rcases mem_replaceNode_iff.1 hm' with ⟨rfl, -⟩ | ⟨hm', -⟩
      · exact absurd (halone hgolden' m hm hgolden hp) hne
      · exact h m hm m' hm' hgolden hgolden' hp

end IsGoldenApart

end Store

/-! ### Every operation -/

namespace Operation.Effect

variable {c : Context} {p : Policy} {o : Operation} {s s' : Store}

/-- Where clients mark exclusively, an operation keeps golden snapshots apart exactly if it is not
an update that marks one beside another. -/
theorem goldenApart_iff (h : o.Effect c p s s') (hs : s.IsSound) (hs' : s'.IsSound)
    (hp : p.goldenExclusive) (hapart : s.IsGoldenApart) :
    s'.IsGoldenApart ↔ ¬o.MarksBeside s := by
  have htree := hs.tree
  have hids := hs'.tree.nodup
  cases h with
  | updateNode hn hid => exact hapart.update_iff htree hn hid
  | createNode _ _ hk => exact iff_of_true (hapart.of_append rfl fun hgolden => hk hgolden.1) id
  | @createConfiguration q form =>
    refine iff_of_true (hapart.of_append rfl fun hgolden => ?_) id
    exact absurd (form.isConfiguration.symm.trans hgolden.1) (by decide)
  | newSnapshot =>
    refine iff_of_true (hapart.of_append rfl fun hgolden => ?_) id
    exact absurd hgolden.2 (by simp [newNode, Properties.isGolden_empty])
  | deleteNode => exact iff_of_true (hapart.of_subset List.filter_sublist.subset) id
  | deleteNodes => exact iff_of_true (hapart.of_subset List.filter_sublist.subset) id
  | @moveNodes ids target nodes t user hmoves =>
    refine iff_of_true (hapart.of_move hids (fun n hn hid => ?_) rfl) id
    exact hmoves.movable n (hmoves.selection.mem_of_id_mem htree hn hid)
  | keepNodes => exact iff_of_true (hapart.of_stamp hids rfl) id
  | copyNodes hcopies hbeside _ hplaced =>
    have hcopied := hcopies.isCopied hs hs' hbeside hplaced rfl
    exact iff_of_true (hapart.of_copies hcopied hcopies.movable) id
  | @updateConfiguration n form user name pvs hn hk hid =>
    refine iff_of_true (hapart.of_replaceNode hids rfl hn rfl rfl fun hgolden => ?_) id
    exact absurd (form.isConfiguration.symm.trans hgolden.1) (by decide)
  | renamePv => exact iff_of_true (hapart.of_stamp hids rfl) id
  | overwriteDraft hdraft =>
    obtain ⟨hn, -, hk, -⟩ := draft?_eq_some hdraft
    exact iff_of_true (hapart.of_replaceNode hids rfl hn rfl rfl fun hgolden => ⟨hk, hgolden.2⟩) id
  | commitSnapshot hn hk =>
    exact iff_of_true (hapart.of_replaceNode hids rfl hn rfl rfl fun hgolden => ⟨hk, hgolden.2⟩) id
  | @markGolden n golden hn =>
    have hmark : (s.mark c n golden (if golden then s.goldenSiblings n else [])).IsGoldenApart :=
      hapart.of_mark htree hn rfl
    exact iff_of_true (by simpa [hp] using hmark) id
  | addTag => exact iff_of_true (hapart.of_subset (List.Subset.refl _)) id
  | removeTag => exact iff_of_true (hapart.of_subset (List.Subset.refl _)) id
  | initialise => exact iff_of_true hapart id

end Operation.Effect

/-! ### Runs -/

namespace Service

/-- Whatever is planned was planned where clients mark exclusively. -/
def IsExclusive (sv : Service) : Prop :=
  ∀ t ∈ sv.planned, ∃ c p o s₀, p.goldenExclusive ∧ Operation.write c p o s₀ = .ok t

/-- What clients do who mark exclusively. -/
def ExclusiveRun : Service → Service → Prop :=
  Relation.ReflTransGen fun sv sv' => Step sv sv' ∧ sv'.IsExclusive

/-- What clients do who mark exclusively is something that clients do. -/
theorem ExclusiveRun.run {sv sv' : Service} (h : ExclusiveRun sv sv') : Run sv sv' :=
  Relation.ReflTransGen.mono (fun _ _ hstep => hstep.1) _ _ h

/-- Whatever they have planned was planned by such clients. -/
theorem ExclusiveRun.isExclusive {sv sv' : Service} (h : ExclusiveRun sv sv')
    (hsv : sv.IsExclusive) : sv'.IsExclusive := by
  cases h with
  | refl => exact hsv
  | tail _ hlast => exact hlast.2

/-- A step leaves the store as it is, or is an operation of a client who marks exclusively. -/
theorem IsExclusive.step {sv sv' : Service} {s : Store} (h : sv.IsExclusive) (hstep : Step sv sv')
    (hs : sv.archive.store = some s) : sv'.archive.store = some s ∨
      ∃ c p o answer s', p.goldenExclusive ∧ Operation.Succeeds c p o s answer s' ∧
        sv'.archive.store = some s' := by
  refine (hstep.commits hs).imp_right ?_
  rintro ⟨t, htp, answer, s', ht, hs'⟩
  obtain ⟨c, p, o, s₀, hp, hplan⟩ := h t htp
  exact ⟨c, p, o, answer, s', hp, ⟨s₀, t, hplan, ht⟩, hs'⟩

/-- A call of such a client that nobody interrupts. -/
theorem ExclusiveRun.call {a : Archive} {s : Store} (hs : a.store = some s) {p : Policy}
    (hp : p.goldenExclusive) (hold : Hold) (c : Context) (o : Operation) :
    ExclusiveRun ⟨a, []⟩ ⟨(a.run hold id (o.call c p)).2, []⟩ := by
  have hnone : ∀ b, IsExclusive ⟨b, []⟩ := fun b t ht => nomatch ht
  rw [Archive.run]
  rcases @start_cases a s c p o hold hs with ⟨f, hstart⟩ | ⟨t, hplan, hstart⟩
  · rw [hstart]
    exact .refl
  · rw [hstart]
    have hplanned : Step ⟨a, [] ++ []⟩ ⟨a, [] ++ [t]⟩ := .plan hstart
    have hcommit : Step ⟨a, [] ++ [t]⟩ ⟨(a.finish hold t).2, [] ++ []⟩ := .commit
    have hexclusive : IsExclusive ⟨a, [t]⟩ := fun u hu =>
      ⟨c, p, o, s, hp, List.mem_singleton.1 hu ▸ hplan⟩
    exact .tail (.single ⟨hplanned, hexclusive⟩) ⟨hcommit, hnone _⟩

/-- Where clients have marked exclusively from the start, no configuration has two golden snapshots,
unless a client has updated one to be golden beside another. -/
theorem ExclusiveRun.golden_apart_or_beside {writeAhead : Bool} {now : Int} {sv : Service}
    (h : ExclusiveRun ⟨initialised writeAhead now, []⟩ sv) :
    ∃ s, sv.archive.store = some s ∧ (s.IsGoldenApart ∨
      ∃ sv₁ sv₂ s₁ s₂ c p o answer, ExclusiveRun ⟨initialised writeAhead now, []⟩ sv₁ ∧
        Step sv₁ sv₂ ∧ ExclusiveRun sv₂ sv ∧ sv₁.archive.store = some s₁ ∧
        sv₂.archive.store = some s₂ ∧ Operation.Succeeds c p o s₁ answer s₂ ∧
        o.MarksBeside s₁) := by
  induction h with
  | refl =>
    refine ⟨_, rfl, .inl fun n hn m hm _ _ _ => ?_⟩
    exact (List.mem_singleton.1 hn).trans (List.mem_singleton.1 hm).symm
  | @tail sv₁ sv₂ hbefore hlast ih =>
    have hrun : ExclusiveRun _ sv₁ := hbefore
    obtain ⟨s₁, hs₁, hcases⟩ := ih
    have hreach₁ : Reachable sv₁ := ⟨writeAhead, now, hrun.run⟩
    have hreach₂ : Reachable sv₂ := hreach₁.step hlast.1
    obtain ⟨⟨s₂, hs₂, hsound₂⟩, -⟩ := hreach₂.isSound
    refine ⟨s₂, hs₂, ?_⟩
    rcases hcases with hapart | ⟨sv, sv', s, s', c, p, o, answer, hbefore, hstep, hafter, hrest⟩
    · have hexclusive : sv₁.IsExclusive := hrun.isExclusive fun t ht => nomatch ht
      rcases hexclusive.step hlast.1 hs₁ with hsame | ⟨c, p, o, answer, s', hp, hok, hs'⟩
      · exact .inl (Option.some.inj (hsame.symm.trans hs₂) ▸ hapart)
      · obtain rfl := Option.some.inj (hs'.symm.trans hs₂)
        have hsound₁ := hreach₁.isSound_store hs₁
        have hiff := (hok.effect hsound₁).goldenApart_iff hsound₁ hsound₂ hp hapart
        by_cases hbeside : o.MarksBeside s₁
        · exact .inr ⟨sv₁, sv₂, s₁, s', c, p, o, answer, hrun, hlast.1, .refl, hs₁, hs₂, hok,
            hbeside⟩
        · exact .inl (hiff.2 hbeside)
    · exact .inr ⟨sv, sv', s, s', c, p, o, answer, hbefore, hstep, hafter.tail hlast, hrest⟩

end Service

/-! ### A second golden snapshot -/

namespace Sample

/-- The second snapshot of a configuration is updated to be golden while the first one is. -/
def paired : Archive :=
  perform "h" (.updateNode { form "r" (.snapshot .committed "second") with
    id := "r0", properties := .ofList [(goldenKey, "TRUE")] } false) gilded

/-- A client who marks exclusively can go on from where such clients have come. -/
theorem exclusiveRun_perform {a : Archive}
    (h : Service.ExclusiveRun ⟨initialised false 0, []⟩ ⟨a, []⟩) (stem : String) (o : Operation) :
    Service.ExclusiveRun ⟨initialised false 0, []⟩ ⟨perform stem o a, []⟩ := by
  have hreach : Service.Reachable ⟨a, []⟩ := ⟨false, 0, h.run⟩
  obtain ⟨⟨s, hs, -⟩, -⟩ := hreach.isSound
  exact h.trans (Service.ExclusiveRun.call hs rfl .nothing (supply stem) o)

/-- They can come to the archive with the second golden snapshot. -/
theorem exclusiveRun_paired : Service.ExclusiveRun ⟨initialised false 0, []⟩ ⟨paired, []⟩ := by
  have h : Service.ExclusiveRun ⟨initialised false 0, []⟩ ⟨folder, []⟩ :=
    exclusiveRun_perform .refl "a" (.createNode rootId (form "a" .folder) (some "u"))
  have h := exclusiveRun_perform h "c" (.createConfiguration "a0" configuration (some "u"))
  have h := exclusiveRun_perform h "s"
    (.saveSnapshot "c0" [item] (some "s") (some "first") (some "u"))
  have h := exclusiveRun_perform h "r"
    (.saveSnapshot "c0" [item] (some "r") (some "second") (some "u"))
  have h := exclusiveRun_perform h "g" (.markGolden "s0" true)
  exact exclusiveRun_perform h "h" _

/-- In that archive two snapshots of one configuration are golden. -/
theorem exists_pair : ∃ s, paired.store = some s ∧ ∃ n ∈ s.nodes, ∃ m ∈ s.nodes,
    n.id = "s0" ∧ m.id = "r0" ∧ n.parent = some "c0" ∧ m.parent = some "c0" ∧
      n.IsGolden ∧ m.IsGolden := by
  obtain ⟨s, hs⟩ : ∃ s, paired.store = some s := Option.isSome_iff_exists.1 (by decide +kernel)
  have hpair : ∀ s ∈ paired.store, ∃ n ∈ s.nodes, ∃ m ∈ s.nodes, n.id = "s0" ∧ m.id = "r0" ∧
      n.parent = some "c0" ∧ m.parent = some "c0" ∧ n.IsGolden ∧ m.IsGolden := by
    decide +kernel
  exact ⟨s, hs, hpair s hs⟩

end Sample

namespace Service

/-- When a configuration has two golden snapshots, an update has marked one beside another. -/
theorem golden_apart_or_beside_paired : ∃ sv₁ s₁ s₂ c p o answer,
    ExclusiveRun ⟨initialised false 0, []⟩ sv₁ ∧ sv₁.archive.store = some s₁ ∧
      Operation.Succeeds c p o s₁ answer s₂ ∧ o.MarksBeside s₁ := by
  obtain ⟨s, hs, hapart | ⟨sv₁, sv₂, s₁, s₂, c, p, o, answer, hrun, -, -, hs₁, -, hok, hbeside⟩⟩ :=
    exclusiveRun_paired.golden_apart_or_beside
  · obtain ⟨s', hs', n, hn, m, hm, hnid, hmid, hnp, hmp, hng, hmg⟩ := exists_pair
    obtain rfl := Option.some.inj (hs'.symm.trans hs)
    obtain rfl := hapart n hn m hm hng hmg (hnp.trans hmp.symm)
    exact absurd (hnid.symm.trans hmid) (by decide)
  · exact ⟨sv₁, s₁, s₂, c, p, o, answer, hrun, hs₁, hok, hbeside⟩

/-- Clients who mark exclusively come to a configuration with two golden snapshots. -/
theorem golden_beside : ∃ s, ExclusiveRun ⟨initialised false 0, []⟩ ⟨paired, []⟩ ∧
    paired.store = some s ∧ ∃ n ∈ s.nodes, ∃ m ∈ s.nodes, n.id = "s0" ∧ m.id = "r0" ∧
      n.parent = some "c0" ∧ m.parent = some "c0" ∧ n.IsGolden ∧ m.IsGolden := by
  obtain ⟨s, hs, hpair⟩ := exists_pair
  exact ⟨s, exclusiveRun_paired, hs, hpair⟩

end Service

end SnapshotArchive
