import SnapshotArchive.Proofs.Ordering

/-!
# Drafts

A draft is marked as one in three places: by the flag of the node, by the status in its content, and
by its empty name. Nothing in the tables keeps a configuration from having two of them, but every
operation keeps what it finds: a draft is bare, without name and properties, and the only one of its
parent (`Store.HasBareDrafts`).

All operations but saving leave the flag as it is or clear it, so for most of them it is enough to
say what becomes of each node. Copies of drafts are drafts again, but in copies of configurations.

* `Operation.Succeeds.saves` : what saving a snapshot makes of the nodes.
* `Operation.Succeeds.hasBareDrafts` : every operation keeps the drafts bare and single.
* `Service.Reachable.drafts_disciplined` : what clients find of drafts, and what becomes of them.
-/

namespace SnapshotArchive

open Text Store Archive

/-- A node has neither a name nor properties. -/
def Node.IsBare (n : Node) : Prop :=
  n.name = "" ∧ n.properties = .empty

/-- Drafts are bare, and a node has at most one of them. -/
structure Store.HasBareDrafts (s : Store) : Prop where
  bare : ∀ n ∈ s.nodes, n.draft → n.IsBare
  single : ∀ n ∈ s.nodes, ∀ m ∈ s.nodes, n.draft → m.draft → n.parent = m.parent → n = m

/-- The drafts of a configuration. -/
def Store.drafts (s : Store) (config : Id) : List Node :=
  s.nodes.filter fun n => n.parent = some config && n.draft

/-- The drafts of a configuration are the drafts that lie in it. -/
@[simp] theorem Store.mem_drafts_iff {s : Store} {config : Id} {n : Node} :
    n ∈ s.drafts config ↔ n ∈ s.nodes ∧ n.parent = some config ∧ n.draft := by
  simp [drafts]

/-- Without properties nothing is golden. -/
theorem Properties.isGolden_empty : Properties.empty.isGolden = false := by
  decide

namespace Store.HasBareDrafts

variable {s t : Store} (h : s.HasBareDrafts)

include h

/-! ### What keeps drafts bare and single -/

/-- Taking nodes away leaves drafts bare. -/
theorem of_subset (ht : t.nodes ⊆ s.nodes) : t.HasBareDrafts :=
  ⟨fun n hn => h.bare n (ht hn), fun n hn m hm => h.single n (ht hn) m (ht hm)⟩

/-- If no node becomes a draft, and each draft stays in its place and bare. -/
theorem of_map {f : Node → Node} (ht : t.nodes = s.nodes.map f)
    (hf : ∀ n ∈ s.nodes, (f n).draft →
      n.draft ∧ (f n).parent = n.parent ∧ (n.IsBare → (f n).IsBare)) : t.HasBareDrafts := by
  constructor <;> rw [ht]
  · intro m hm hd
    obtain ⟨n, hn, rfl⟩ := List.mem_map.1 hm
    obtain ⟨hnd, -, hbare⟩ := hf n hn hd
    exact hbare (h.bare n hn hnd)
  · intro m hm m' hm' hd hd' hp
    obtain ⟨n, hn, rfl⟩ := List.mem_map.1 hm
    obtain ⟨n', hn', rfl⟩ := List.mem_map.1 hm'
    obtain ⟨hnd, hnp, -⟩ := hf n hn hd
    obtain ⟨hnd', hnp', -⟩ := hf n' hn' hd'
    rw [h.single n hn n' hn' hnd hnd' (hnp.symm.trans (hp.trans hnp'))]

/-- Drafts stay bare when a node is replaced by one that is no new draft. -/
theorem of_replaceNode (hs : s.IsTree) {n k : Node} (ht : t.nodes = (s.replaceNode k).nodes)
    (hn : n ∈ s.nodes) (hid : k.id = n.id)
    (hk : k.draft → n.draft ∧ k.parent = n.parent ∧ (n.IsBare → k.IsBare)) :
    t.HasBareDrafts := by
  refine h.of_map ht fun o ho hd => ?_
  by_cases he : o.id = k.id
  · obtain rfl := eq_of_id_eq hs.nodup ho hn (he.trans hid)
    rw [if_pos he] at hd ⊢
    exact hk hd
  · rw [if_neg he] at hd ⊢
    exact ⟨hd, rfl, fun hbare => hbare⟩

/-- Drafts stay bare when a node is added that is none, or the first in its place. -/
theorem of_append {m : Node} (ht : t.nodes = s.nodes ++ [m])
    (hm : m.draft → m.IsBare ∧ ∀ n ∈ s.nodes, n.draft → n.parent ≠ m.parent) :
    t.HasBareDrafts := by
  constructor <;> simp only [ht, List.mem_append, List.mem_singleton]
  · rintro n (hn | rfl) hd
    · exact h.bare n hn hd
    · exact (hm hd).1
  · rintro n (hn | rfl) k (hk | rfl) hnd hkd hp
    · exact h.single n hn k hk hnd hkd hp
    · exact absurd hp ((hm hkd).2 n hn hnd)
    · exact absurd hp.symm ((hm hnd).2 k hk hkd)
    · rfl

/-- Drafts stay bare when a node is stamped. -/
theorem of_stamp (c : Context) (id : Id) (user : String)
    (ht : t.nodes = (s.stamp c id user).nodes) : t.HasBareDrafts := by
  refine h.of_map ht fun n _ hd => ?_
  by_cases he : n.id = id
  · rw [if_pos he] at hd ⊢
    exact ⟨hd, rfl, fun hbare => hbare⟩
  · rw [if_neg he] at hd ⊢
    exact ⟨hd, rfl, fun hbare => hbare⟩

/-- A draft of a configuration is its only one. -/
theorem eq_of_mem_drafts {config : Id} {n : Node} (hn : n ∈ s.drafts config)
    (hnodup : (s.nodes.map (·.id)).Nodup) : s.drafts config = [n] := by
  have hall : ∀ m ∈ s.drafts config, m = n := by
    intro m hm
    obtain ⟨hm, hmp, hmd⟩ := mem_drafts_iff.1 hm
    obtain ⟨hn, hnp, hnd⟩ := mem_drafts_iff.1 hn
    exact h.single m hm n hn hmd hnd (hmp.trans hnp.symm)
  have hnodup : (s.drafts config).Nodup := (List.Nodup.of_map _ hnodup).filter _
  match hdrafts : s.drafts config with
  | [] => simp [hdrafts] at hn
  | [m] => rw [hall m (by simp [hdrafts])]
  | m :: k :: rest =>
    rw [hdrafts] at hall hnodup
    have he : m = k := (hall m (by simp)).trans (hall k (by simp)).symm
    simp [he] at hnodup

end Store.HasBareDrafts

/-! ### Saving -/

/-- A snapshot with a name is a committed one. -/
def Status.ofTitle (title : String) : Status :=
  if title = "" then .draft else .committed

/-- A snapshot is a draft exactly if it has no title. -/
theorem Status.ofTitle_eq_draft_iff {title : String} : ofTitle title = .draft ↔ title = "" := by
  unfold ofTitle
  split <;> simp [*]

/-- What saving a snapshot of a configuration makes of the nodes, with the node that is saved. -/
inductive Store.Saves (c : Context) (s : Store) (config : Id) (title comment : String) :
    Node → List Node → Prop
  | new {user : String} : s.draft? config = none →
    Saves c s config title comment
      (s.newNode c config title (.snapshot (.ofTitle title) comment)
        (Status.ofTitle title = .draft) .empty user)
      (s.nodes ++ [s.newNode c config title (.snapshot (.ofTitle title) comment)
        (Status.ofTitle title = .draft) .empty user])
  | overwritten {n : Node} {user : String} : s.draft? config = some n →
    Saves c s config title comment (n.revised c title (.ofTitle title) comment user)
      (s.replaceNode (n.revised c title (.ofTitle title) comment user)).nodes

/-- No draft is found exactly if no snapshot of the configuration is one. -/
theorem Store.draft?_isNone_iff {s : Store} {config : Id} :
    s.draft? config = none ↔
      ∀ n ∈ s.nodes, n.parent = some config → n.kind = .snapshot → n.draft = false := by
  rw [draft?, List.head?_eq_none_iff, ← List.length_eq_zero_iff, List.length_mergeSort,
    List.length_eq_zero_iff, List.filter_eq_nil_iff]
  simp

namespace Store.Saves

variable {c : Context} {s : Store} {config : Id} {title comment : String} {saved : Node}
  {nodes : List Node} (h : s.Saves c config title comment saved nodes)

include h

/-- What is saved is stored. -/
theorem mem : saved ∈ nodes := by
  cases h with
  | new => simp
  | overwritten hdraft => exact mem_replaceNode_self (draft?_eq_some hdraft).1 rfl

/-- What is saved lies in its configuration. -/
theorem parent_eq : saved.parent = some config := by
  cases h with
  | new => rfl
  | overwritten hdraft => exact (draft?_eq_some hdraft).2.1

/-- What is saved is a draft exactly if it has no title. -/
theorem draft_iff : saved.draft ↔ title = "" := by
  cases h <;> simp [newNode, Node.revised, Status.ofTitle_eq_draft_iff]

/-- A draft that was there is the one that is written into. -/
theorem id_eq (hnamed : s.IsNamed) (hbare : s.HasBareDrafts) {n : Node}
    (hn : n ∈ s.drafts config) : saved.id = n.id := by
  obtain ⟨hn, hp, hd⟩ := mem_drafts_iff.1 hn
  cases h with
  | new hnone =>
    rw [draft?_isNone_iff.1 hnone n hn hp (hnamed.kind_of_draft hn hd)] at hd
    cases hd
  | overwritten hdraft =>
    obtain ⟨hm, hmp, -, hmd⟩ := draft?_eq_some hdraft
    obtain rfl := hbare.single _ hm n hn hmd hd (hmp.trans hp.symm)
    rfl

/-- No other draft of the configuration is there then. -/
theorem eq_of_draft (hnamed : s.IsNamed) (hbare : s.HasBareDrafts) {k : Node} (hk : k ∈ nodes)
    (hp : k.parent = some config) (hd : k.draft) : k = saved := by
  cases h with
  | new hnone =>
    rcases List.mem_append.1 hk with hk | hk
    · rw [draft?_isNone_iff.1 hnone k hk hp (hnamed.kind_of_draft hk hd)] at hd
      cases hd
    · exact List.mem_singleton.1 hk
  | overwritten hdraft =>
    obtain ⟨hn, hnp, -, hnd⟩ := draft?_eq_some hdraft
    rcases mem_replaceNode_iff.1 hk with ⟨hk, -⟩ | ⟨hk, hne⟩
    · exact hk
    · exact absurd (congrArg Node.id (hbare.single k hk _ hn hd hnd (hp.trans hnp.symm))) hne

/-- Drafts stay bare when a snapshot is saved. -/
theorem hasBareDrafts (hs : s.IsSound) (hbare : s.HasBareDrafts) {t : Store}
    (ht : t.nodes = nodes) : t.HasBareDrafts := by
  have hdraft := h.draft_iff
  cases h with
  | new hnone =>
    refine hbare.of_append ht fun hd => ⟨⟨hdraft.1 hd, rfl⟩, fun n hn hnd hp => ?_⟩
    rw [draft?_isNone_iff.1 hnone n hn hp (hs.named.kind_of_draft hn hnd)] at hnd
    cases hnd
  | overwritten hfound =>
    obtain ⟨hn, -, -, hnd⟩ := draft?_eq_some hfound
    refine hbare.of_replaceNode hs.tree ht hn rfl fun hd => ⟨hnd, rfl, fun hempty => ?_⟩
    exact ⟨hdraft.1 hd, hempty.2⟩

end Store.Saves

/-- What saving a snapshot makes of the nodes. The answer is the snapshot that is found then. -/
theorem saveSnapshot_saves {c : Context} {config : Id} {items : List ItemForm}
    {name comment user : Option String} {s₀ s s' : Store} {t : Transaction Snapshot}
    {found : Snapshot} (hs : s.IsSound)
    (hplan : saveSnapshot c config items name comment user s₀ = .ok t)
    (ht : t s = .ok (found, s')) :
    (strip (name.getD "") = "" ↔ strip (comment.getD "") = "") ∧
      s.Saves c config (strip (name.getD "")) (strip (comment.getD "")) found.node s'.nodes := by
  have hs' := hs.edits (saveSnapshot_edits hplan hs ht)
  obtain ⟨hboth, hplan⟩ := demand_bind_eq_ok_iff.1 hplan
  obtain ⟨title, htitle, hplan⟩ := ite_bind_eq_ok hplan
  obtain rfl := Except.ok.inj hplan
  have htitle : title = strip (name.getD "") := by
    by_cases hempty : strip (name.getD "") = ""
    · rw [if_pos hempty, if_neg (by decide)] at htitle
      exact (Except.ok.inj htitle).symm
    · rw [if_neg hempty, if_pos rfl] at htitle
      rw [(checkName_eq_ok_iff.1 htitle).1, Option.getD_some, strip_strip]
  subst htitle
  refine ⟨hboth, ?_⟩
  obtain ⟨q, hq, ht⟩ := bind_eq_ok_iff.1 ht
  obtain ⟨hq, -⟩ := requireToWrite_eq_ok_iff.1 hq
  obtain ⟨-, rfl⟩ := node?_eq_some hq
  obtain ⟨pairs, -, ht⟩ := bind_eq_ok_iff.1 ht
  obtain ⟨⟨id, s₁⟩, hopen, ht⟩ := bind_eq_ok_iff.1 ht
  dsimp only at ht
  split at ht
  · cases ht
  · obtain ⟨s₂, hadd, ht⟩ := bind_eq_ok_iff.1 ht
    obtain ⟨read, hread, ht⟩ := bind_eq_ok_iff.1 ht
    obtain ⟨rfl, rfl⟩ := Prod.mk.inj (Except.ok.inj ht)
    obtain ⟨added, -, rfl⟩ := addItems_eq hadd
    obtain ⟨n, hn, -, rfl⟩ := snapshot_eq_ok_iff.1 hread
    obtain ⟨hmem, rfl⟩ := node?_eq_some hn
    -- The saved node is the one that is found.
    have hfound : ∀ {m : Node},
        s.Saves c q.id (strip (name.getD "")) (strip (comment.getD "")) m s₁.nodes →
        m.id = n.id →
        s.Saves c q.id (strip (name.getD "")) (strip (comment.getD "")) n s₁.nodes := by
      intro m hsaves hid
      obtain rfl := eq_of_id_eq hs'.tree.nodup hsaves.mem hmem hid
      exact hsaves
    unfold openSnapshot at hopen
    split at hopen
    · rename_i draft hdraft
      obtain ⟨s₂, hrevise, hopen⟩ := bind_eq_ok_iff.1 hopen
      obtain ⟨hid, rfl⟩ := Prod.mk.inj (Except.ok.inj hopen)
      obtain ⟨writer, rfl, rfl⟩ := reviseDraft_eq hs.tree (draft?_eq_some hdraft).1 hrevise
      exact hfound (.overwritten hdraft) hid
    · rename_i hnone
      obtain ⟨s₂, hnode, hopen⟩ := bind_eq_ok_iff.1 hopen
      obtain ⟨hid, rfl⟩ := Prod.mk.inj (Except.ok.inj hopen)
      obtain ⟨writer, rfl, -, -, rfl⟩ := addNode_eq hnode
      exact hfound (.new hnone) hid

/-- A save that succeeds has a title and a comment or neither, and answers with the node that it
saves. -/
theorem Operation.Succeeds.saves {c : Context} {p : Policy} {config : Id} {items : List ItemForm}
    {name comment user : Option String} {s s' : Store} {answer : Answer}
    (h : (saveSnapshot config items name comment user).Succeeds c p s answer s') (hs : s.IsSound) :
    (strip (name.getD "") = "" ↔ strip (comment.getD "") = "") ∧
      ∃ found, answer = .snapshot found ∧
        s.Saves c config (strip (name.getD "")) (strip (comment.getD "")) found.node s'.nodes := by
  obtain ⟨s₀, t, hplan, ht⟩ := h
  obtain ⟨u, hu, rfl⟩ := map_eq_ok_iff.1 hplan
  obtain ⟨⟨found, s₁⟩, hfound, he⟩ := map_eq_ok_iff.1 ht
  obtain ⟨rfl, rfl⟩ := Prod.mk.inj he
  obtain ⟨hboth, hsaves⟩ := saveSnapshot_saves hs hu hfound
  exact ⟨hboth, found, rfl, hsaves⟩

/-! ### Copies -/

/-- A node without a parent is a folder. -/
theorem Store.IsTree.kind_of_parent_eq_none {s : Store} (h : s.IsTree) {n : Node}
    (hn : n ∈ s.nodes) (hp : n.parent = none) : n.kind = .folder := by
  obtain ⟨r, hr, hid, -, hfolder⟩ := h.root
  rwa [eq_of_id_eq h.nodup hn hr ((h.onlyRoot n hn hp).trans hid.symm)]

/-- If no node has two children of a sort, then neither does it among copies. The copies of such
children lie below the copies of their parents, unless they are copied into the target. -/
theorem Store.IsCopied.single {c : Context} {user : String} {s s' : Store} {target : Id}
    {nodes : List Node} {d : Id → Duplicate} (h : s.IsCopied c user target nodes d s')
    {P : Node → Prop} (hparent : ∀ m ∈ s'.nodes, P m → m.parent ≠ none)
    (hroot : ∀ source ∈ nodes, ¬P ((d source.id).root c user target source))
    (hcopy : ∀ (r : Renaming) (n : Node), P (r.copyNode c user n) → P n)
    (hold : ∀ n ∈ s.nodes, ∀ m ∈ s.nodes, P n → P m → n.parent = m.parent → n = m)
    (hstamp : ∀ n ∈ (s.stamp c target user).nodes, ∀ m ∈ (s.stamp c target user).nodes,
      P n → P m → n.parent = m.parent → n = m) :
    ∀ m ∈ s'.nodes, ∀ m' ∈ s'.nodes, P m → P m' → m.parent = m'.parent → m = m' := by
  intro m hm m' hm' hd hd' hp
  obtain ⟨p, hmp⟩ := Option.ne_none_iff_exists'.1 (hparent m hm hd)
  rcases h.parent_cases hm hmp with ⟨hthere, hmem⟩ | ⟨-, source, hsource, rfl⟩ |
    ⟨source, hsource, n, hn, k, hk, rfl, rfl⟩
  · rcases h.parent_cases hm' (hp.symm.trans hmp) with ⟨-, hmem'⟩ | ⟨-, source, hsource, rfl⟩ |
      ⟨source, hsource, n, hn, k, hk, rfl, rfl⟩
    · exact hstamp m hmem m' hmem' hd hd' hp
    · exact absurd hd' (hroot source hsource)
    · rw [h.new hsource hn] at hthere
      cases hthere
  · exact absurd hd (hroot source hsource)
  · rcases h.parent_cases hm' (hp.symm.trans hmp) with ⟨hthere, -⟩ | ⟨-, other, hother, rfl⟩ |
      ⟨other, hother, n', hn', k', hk', he, rfl⟩
    · rw [h.new hsource hn] at hthere
      cases hthere
    · exact absurd hd' (hroot other hother)
    · obtain ⟨rfl, rfl⟩ := h.apart hsource hother hn hn' he
      obtain ⟨hk, hkp⟩ := mem_children_iff.1 hk
      obtain ⟨hk', hkp'⟩ := mem_children_iff.1 hk'
      rw [hold k hk k' hk' (hcopy _ k hd) (hcopy _ k' hd') (hkp.trans hkp'.symm)]

/-- The copies of a draft are drafts of other configurations, and these have no other drafts. -/
theorem Store.IsCopied.hasBareDrafts {c : Context} {user : String} {s s' : Store} {target : Id}
    {nodes : List Node} {d : Id → Duplicate} (h : s.IsCopied c user target nodes d s')
    (hmovable : ∀ n ∈ nodes, n.kind.isMovable) (hbare : s.HasBareDrafts) : s'.HasBareDrafts := by
  have hstamp : (s.stamp c target user).HasBareDrafts := hbare.of_stamp c target user rfl
  have hroot : ∀ source ∈ nodes, source.draft = false := fun source hsource =>
    h.before.named.draft_eq_false_of_kind (h.mem source hsource)
      (Kind.ne_snapshot_of_isMovable (hmovable source hsource))
  constructor
  · intro m hm hd
    rw [h.eq] at hm
    rcases List.mem_append.1 hm with hm | hm
    · exact hstamp.bare m hm hd
    · obtain ⟨source, hsource, n, hn, rfl⟩ := mem_nodes_copies_iff.1 hm
      rcases h.copyOf_cases hsource hn with ⟨rfl, hcopy⟩ | ⟨-, -, -, hcopy, -⟩
      · rw [hcopy] at hd
        exact absurd hd (by simp [Duplicate.root, Renaming.copyNode, hroot n hsource])
      · rw [hcopy] at hd ⊢
        exact hbare.bare n (mem_nodes_of_mem_subtree hn) hd
  · refine h.single (P := fun n => n.draft) (fun m hm hd hnone => ?_) (fun source hsource => ?_)
      (fun _ _ hd => hd) hbare.single hstamp.single
    · have hk := h.after.named.kind_of_draft hm hd
      rw [h.after.tree.kind_of_parent_eq_none hm hnone] at hk
      cases hk
    · simp [Duplicate.root, Renaming.copyNode, hroot source hsource]

/-! ### Every operation -/

/-- A draft cannot be updated: it would have to keep its empty name, which is none. -/
theorem Store.HasBareDrafts.checkSnapshotUpdate_ne_ok {s : Store} (h : s.HasBareDrafts)
    (hs : s.IsNamed) {n : Node} (hn : n ∈ s.nodes) (hd : n.draft) {given : Option String}
    {name : String} (hname : checkName "Node" given = .ok name) (properties : Properties) :
    checkSnapshotUpdate n name properties ≠ .ok () := by
  intro hcheck
  have hsame := (checkSnapshotUpdate_eq_ok_iff.1 hcheck (hs.kind_of_draft hn hd)).1
  exact (checkName_eq_ok_iff.1 hname).2.1 (hsame.trans (h.bare n hn hd).1)

/-- Every operation keeps the drafts bare and single. -/
theorem Operation.Succeeds.hasBareDrafts {c : Context} {p : Policy} {o : Operation} {s s' : Store}
    {answer : Answer} (h : o.Succeeds c p s answer s') (hs : s.IsSound) (hb : s.HasBareDrafts) :
    s'.HasBareDrafts := by
  have hs' := h.isSound hs
  cases h.effect hs with
  | createNode => exact hb.of_append rfl fun hd => by cases hd
  | createConfiguration => exact hb.of_append rfl fun hd => by cases hd
  | @updateNode n form keepTime name hn hid hversion hkind hname hcheck =>
    exact hb.of_replaceNode hs.tree rfl hn rfl fun hd =>
      absurd hcheck (hb.checkSnapshotUpdate_ne_ok hs.named hn hd hname _)
  | updateConfiguration hn hk =>
    refine hb.of_replaceNode hs.tree rfl hn rfl fun hd => ?_
    have hsnapshot := hs.named.kind_of_draft hn hd
    rw [hk] at hsnapshot
    cases hsnapshot
  | deleteNode => exact hb.of_subset fun n hn => (mem_nodes_removeNodes_iff.1 hn).1
  | deleteNodes => exact hb.of_subset fun n hn => (mem_nodes_removeNodes_iff.1 hn).1
  | @moveNodes ids target nodes t user hmoves =>
    have hmoved : (s.move c target user ids).HasBareDrafts := by
      refine hb.of_map rfl fun n hn hd => ?_
      by_cases hid : n.id ∈ ids
      · rw [if_pos hid] at hd
        have hmem := hmoves.selection.mem_of_id_mem hs.tree hn hid
        exact absurd (hs.named.kind_of_draft hn hd)
          (Kind.ne_snapshot_of_isMovable (hmoves.movable n hmem))
      · rw [if_neg hid] at hd ⊢
        exact ⟨hd, rfl, fun hbare => hbare⟩
    exact hmoved.of_stamp c target user rfl
  | keepNodes => exact hb.of_stamp c _ _ rfl
  | copyNodes hcopies hbeside _ hplaced =>
    exact (hcopies.isCopied hs hs' hbeside hplaced rfl).hasBareDrafts hcopies.movable hb
  | renamePv => exact hb.of_stamp c _ _ rfl
  | newSnapshot =>
    obtain ⟨-, found, -, hsaves⟩ := h.saves hs
    exact hsaves.hasBareDrafts hs hb rfl
  | overwriteDraft =>
    obtain ⟨-, found, -, hsaves⟩ := h.saves hs
    exact hsaves.hasBareDrafts hs hb rfl
  | commitSnapshot hn => exact hb.of_replaceNode hs.tree rfl hn rfl fun hd => by cases hd
  | @markGolden n golden hn hk hcommitted =>
    refine hb.of_map rfl fun m hm hd => ?_
    by_cases hid : m.id = n.id
    · rw [if_pos hid] at hd
      have hmd : m.draft := hd
      rw [eq_of_id_eq hs.tree.nodup hm hn hid, hs.named.drafts n hn, hcommitted] at hmd
      cases hmd
    · rw [if_neg hid] at hd ⊢
      -- A draft is not golden, so no mark is taken off it.
      by_cases hother : m.id ∈ (if golden && p.goldenExclusive then s.goldenSiblings n else []).map
          (·.id)
      · rw [if_pos hother] at hd
        obtain ⟨k, hgolden, he⟩ := List.mem_map.1 hother
        split at hgolden
        · obtain ⟨hk, hholds⟩ := List.mem_filter.1 hgolden
          obtain rfl := eq_of_id_eq hs.tree.nodup hk hm he
          simp [(hb.bare k hk hd).2, Properties.isGolden_empty] at hholds
        · cases hgolden
      · rw [if_neg hother] at hd ⊢
        exact ⟨hd, rfl, fun hbare => hbare⟩
  | addTag => exact hb.of_subset fun n hn => hn
  | removeTag => exact hb.of_subset fun n hn => hn
  | initialise => exact hb

/-- In a reachable archive drafts are bare, and no node has two of them. -/
theorem Service.Reachable.hasBareDrafts {sv : Service} (h : sv.Reachable) {s : Store}
    (hs : sv.archive.store = some s) : s.HasBareDrafts := by
  refine h.invariant (fun now => ⟨fun n hn hd => ?_, fun n hn m hm _ _ _ => ?_⟩)
    (fun hsound hok hbare => hok.hasBareDrafts hsound hbare) hs
  · rw [List.mem_singleton.1 hn] at hd
    cases hd
  · rw [List.mem_singleton.1 hn, List.mem_singleton.1 hm]

/-! ### What clients find -/

namespace Sample

/-- A configuration with a draft. -/
def drafted : Archive :=
  perform "d" (.saveSnapshot "c0" [item] none none (some "u")) <|
    perform "c" (.createConfiguration "a0" configuration (some "u")) folder

/-- The archive with a draft can be reached. -/
theorem reachable_drafted : ∃ ts, Service.Reachable ⟨drafted, ts⟩ := by
  obtain ⟨ts, h⟩ := reachable_folder
  obtain ⟨ts, h⟩ := reachable_perform h "c" (.createConfiguration "a0" configuration (some "u"))
  exact reachable_perform h "d" (.saveSnapshot "c0" [item] none none (some "u"))

end Sample

namespace Service

open Sample

/-- The flag of a node, the status in its content and an empty name say the same of it: whether it
is a draft. A configuration has at most one; it has neither tags nor properties and is never
updated. A committed snapshot is none as long as it is there. Saving without a name and a comment
leaves one draft, saving with both leaves none, and what is written into is the draft that the
configuration has, if it has one. -/
theorem Reachable.drafts_disciplined {a : Archive} {ts : List (Transaction Answer)}
    (h : Reachable ⟨a, ts⟩) : ∃ s, a.store = some s ∧
      (∀ n ∈ s.nodes, (n.draft ↔ ∃ comment, n.content = .snapshot .draft comment) ∧
        (n.draft ↔ n.name = "")) ∧
      (∀ config, (s.drafts config).length ≤ 1) ∧
      (∀ n ∈ s.nodes, n.draft → (∀ tag ∈ s.tags, tag.snapshot ≠ n.id) ∧
        n.properties = .empty ∧ n.properties.isGolden = false) ∧
      (∀ n ∈ s.nodes, n.kind = .snapshot → n.draft = false →
        ∀ sv' s', RunWith n.id ⟨a, ts⟩ sv' → sv'.archive.store = some s' →
          ∃ m, s'.node? n.id = some m ∧ m.draft = false) ∧
      ∀ between us s₁ hold c p b, Run ⟨a, ts⟩ ⟨between a, us⟩ → (between a).store = some s₁ →
        (∀ form keepTime answer, (∃ n ∈ s₁.nodes, n.id = form.id ∧ n.draft) →
          a.run hold between ((Operation.updateNode form keepTime).call c p) ≠ (.ok answer, b)) ∧
        ∀ config items name comment user answer,
          a.run hold between ((Operation.saveSnapshot config items name comment user).call c p) =
            (.ok answer, b) →
          ∃ s₂ saved, b.store = some s₂ ∧ answer = .snapshot saved ∧
            saved.node ∈ s₂.nodes ∧ saved.node.parent = some config ∧
            (∀ n ∈ s₁.drafts config, saved.node.id = n.id) ∧
            (strip (name.getD "") = "" ∧ strip (comment.getD "") = "" ∧
                s₂.drafts config = [saved.node] ∨
              strip (name.getD "") ≠ "" ∧ strip (comment.getD "") ≠ "" ∧
                s₂.drafts config = []) := by
  obtain ⟨⟨s, hs, hsound⟩, -⟩ := h.isSound
  have hbare := h.hasBareDrafts hs
  refine ⟨s, hs, fun n hn => ⟨hsound.named.draft_iff hn, fun hd => (hbare.bare n hn hd).1,
    fun hname => ?_⟩, fun config => ?_, fun n hn hd => ⟨fun tag htag hid => ?_,
    (hbare.bare n hn hd).2, ?_⟩, fun n hn hk hd sv' s' hrun hs' => ?_,
    fun between us s₁ hold c p b hothers hs₁ => ⟨?_, ?_⟩⟩
  · by_contra hd
    exact (hsound.named.names n hn (Bool.eq_false_iff.2 hd)).1 hname
  · match hdrafts : s.drafts config with
    | [] => simp
    | n :: rest =>
      have hn : n ∈ s.drafts config := by simp [hdrafts]
      rw [hbare.eq_of_mem_drafts hn hsound.tree.nodup] at hdrafts
      rw [← hdrafts]
      simp
  · obtain ⟨m, hm, hmid, -, hmd⟩ := hsound.owned.tagOwner tag htag
    rw [eq_of_id_eq hsound.tree.nodup hm hn (hmid.trans hid), hd] at hmd
    cases hmd
  · rw [(hbare.bare n hn hd).2, Properties.isGolden_empty]
  · obtain ⟨m, hm, hid, hsame, -⟩ : s.HasSnapshot s' n :=
      hrun.invariant (fun hsound hok _ hstays hhas =>
        Store.HasSnapshot.effect hhas hk hd hsound (hok.effect hsound) hstays) h hs hs'
        ⟨n, hn, rfl, .refl n, rfl⟩
    have hsound' := (h.run hrun.run).isSound_store hs'
    exact ⟨m, hid ▸ node?_of_mem hsound'.tree.nodup hm, hsame.draft.trans hd⟩
  · rintro form keepTime answer ⟨n, hn, hid, hd⟩ hcall
    obtain ⟨s₂, -, hsound₁, -, hok⟩ := h.call_eq_ok hothers hs₁ hcall
    have hbare₁ := (h.run hothers).hasBareDrafts hs₁
    cases hok.effect hsound₁ with
    | updateNode hm hmid hversion hkind hname hcheck =>
      obtain rfl := eq_of_id_eq hsound₁.tree.nodup hm hn (hmid.trans hid.symm)
      exact hbare₁.checkSnapshotUpdate_ne_ok hsound₁.named hn hd hname _ hcheck
  · intro config items name comment user answer hcall
    obtain ⟨s₂, rfl, hsound₁, hsound₂, hok⟩ := h.call_eq_ok hothers hs₁ hcall
    have hbare₁ := (h.run hothers).hasBareDrafts hs₁
    obtain ⟨hboth, saved, hanswer, hsaves⟩ := hok.saves hsound₁
    refine ⟨s₂, saved, rfl, hanswer, hsaves.mem, hsaves.parent_eq,
      fun n hn => hsaves.id_eq hsound₁.named hbare₁ hn, ?_⟩
    by_cases hname : strip (name.getD "") = ""
    · refine .inl ⟨hname, hboth.1 hname, ?_⟩
      refine (hok.hasBareDrafts hsound₁ hbare₁).eq_of_mem_drafts ?_ hsound₂.tree.nodup
      exact mem_drafts_iff.2 ⟨hsaves.mem, hsaves.parent_eq, hsaves.draft_iff.2 hname⟩
    · refine .inr ⟨hname, fun hcomment => hname (hboth.2 hcomment), ?_⟩
      refine List.eq_nil_iff_forall_not_mem.2 fun k hk => hname ?_
      obtain ⟨hk, hp, hd⟩ := mem_drafts_iff.1 hk
      obtain rfl := hsaves.eq_of_draft hsound₁.named hbare₁ hk hp hd
      exact hsaves.draft_iff.1 hd

/-- A draft is committed by saving over it, and the configuration has none then. -/
theorem drafts_disciplined_drafted : ∃ s s₂ saved b, drafted.store = some s ∧
    (s.drafts "c0").map (·.id) = ["d0"] ∧
    drafted.run .nothing id ((Operation.saveSnapshot "c0" [item] (some "s") (some "first")
      (some "u")).call (supply "s") policy) = (.ok (.snapshot saved), b) ∧
    b.store = some s₂ ∧ saved.node.id = "d0" ∧ s₂.drafts "c0" = [] := by
  obtain ⟨ts, h⟩ := reachable_drafted
  obtain ⟨s, hs, -, -, -, -, hcalls⟩ := h.drafts_disciplined
  obtain ⟨answer, hanswer⟩ := exists_answer drafted "s"
    (.saveSnapshot "c0" [item] (some "s") (some "first") (some "u")) (by decide +kernel)
  obtain ⟨s₂, saved, hs₂, rfl, -, -, hid, hdrafts⟩ :=
    (hcalls id ts s .nothing (supply "s") policy _ .refl hs).2 _ _ _ _ _ _ hanswer
  have hbefore : drafted.store.map (fun s => (s.drafts "c0").map (·.id)) = some ["d0"] := by
    decide +kernel
  rw [show drafted.store = some s from hs, Option.map_some, Option.some.injEq] at hbefore
  obtain ⟨n, hn, hnid⟩ : ∃ n ∈ s.drafts "c0", n.id = "d0" := by
    simpa using (hbefore ▸ List.mem_singleton_self "d0" : "d0" ∈ (s.drafts "c0").map (·.id))
  refine ⟨s, s₂, saved, _, hs, hbefore, hanswer, hs₂, (hid n hn).trans hnid, ?_⟩
  obtain ⟨hname, -⟩ | ⟨-, -, hnone⟩ := hdrafts
  · exact absurd hname (by decide)
  · exact hnone

end Service

end SnapshotArchive
