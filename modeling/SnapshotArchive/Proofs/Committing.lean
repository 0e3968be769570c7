import SnapshotArchive.Proofs.Saving
import SnapshotArchive.Proofs.Locality.Requests

/-!
# Two ways to commit

A snapshot is committed at once, by saving captured items with a name and a comment, or in two
steps, by saving them as a draft first. The draft does not stand in the way of any name
(`Store.forall_not_holdsName_capture_iff`), so both ways ask for the same things, and the second
step puts into the place of the draft what the first way stores (`Store.capture_relabel`).

* `commitSnapshot_eq_ok_iff` : when committing a draft succeeds, and what it leaves.
* `Store.savedNode_eq_revised` : the snapshot that both ways leave.
* `Store.captures_agree` : the stores that both ways leave.
* `Service.Reachable.commits_agree` : both ways succeed alike, and leave the same.
-/

namespace SnapshotArchive

open Text Store Archive

/-- The store with another node in the place of a snapshot, and the items of the snapshot under the
identifier of that. -/
def Store.relabel (s : Store) (id : Id) (n : Node) : Store :=
  { s with
    nodes := s.nodes.map fun k => if k.id = id then n else k
    items := s.items.map fun i => if i.snapshot = id then { i with snapshot := n.id } else i }

namespace Store

variable {s t : Store} {c c₁ c₂ : Context} {config : Id} {m n : Node}
  {pairs : List (Pv × ItemForm)}

/-! ### Other snapshots in the same place -/

/-- A captured snapshot can be replaced by another of its identifier. -/
theorem replaceNode_capture (h : n.id = m.id) (pairs : List (Pv × ItemForm)) :
    (s.capture m pairs).replaceNode n = s.capture n pairs := by
  rw [capture, capture, h, ← replaceNode_putNode h]
  rfl

/-- Under the same identifier no item is written anew. -/
theorem relabel_of_id_eq (h : n.id = m.id) : s.relabel m.id n = s.replaceNode n := by
  have hitems : s.items.map
      (fun i => if i.snapshot = m.id then { i with snapshot := n.id } else i) = s.items := by
    refine (List.map_congr_left fun i _ => ?_).trans (List.map_id _)
    split
    · rename_i hi
      rw [h, ← hi]
      rfl
    · rfl
  rw [relabel, hitems, replaceNode, h]

/-- The items of one snapshot become those of another. -/
theorem storedItems_relabel {id : Id} (position : Nat) :
    (storedItems m.id position pairs).map
        (fun i => if i.snapshot = m.id then { i with snapshot := id } else i) =
      storedItems id position pairs := by
  rw [storedItems, List.map_map]
  exact List.map_congr_left fun e _ => if_pos rfl

/-- Snapshots of one identifier, or new ones, can be saved one for the other. -/
theorem capture_relabel (hs : s.IsOwned)
    (h : n.id = m.id ∨ s.hasNode m.id = false ∧ s.hasNode n.id = false) :
    (s.capture m pairs).relabel m.id n = s.capture n pairs := by
  rcases h with h | ⟨hm, hn⟩
  · rw [relabel_of_id_eq h, replaceNode_capture h]
  · have hnodes : s.nodes.map (fun k => if k.id = m.id then n else k) = s.nodes :=
      (List.map_congr_left fun k hk => if_neg (not_mem_of_hasNode_eq_false hm hk)).trans
        (List.map_id _)
    have hitems : s.items.map (fun i => if i.snapshot = m.id then { i with snapshot := n.id }
        else i) = s.items :=
      (List.map_congr_left fun i hi => if_neg ((hs.ne_of_hasNode_eq_false hm).2.1 i hi)).trans
        (List.map_id _)
    rw [capture_of_new hs hm, capture_of_new hs hn, relabel]
    simp only [List.map_append, hnodes, hitems, storedItems_relabel]
    simp

/-- A draft that is saved holds no name, and the one in whose place it stands held none. -/
theorem forall_not_holdsName_capture_iff {parent : Option Id} {kind : Kind} {title : String}
    (hd : m.draft) (hplace : ∀ o ∈ s.nodes, o.id = m.id → o.draft) :
    (∀ o ∈ (s.capture m pairs).nodes, ¬holdsName parent kind title o) ↔
      ∀ o ∈ s.nodes, ¬holdsName parent kind title o := by
  have hnone : ∀ o : Node, o.draft → ¬holdsName parent kind title o := by
    intro o ho hholds
    rw [(holdsName_iff.1 hholds).2.2.2.2] at ho
    cases ho
  constructor
  · intro hall o ho
    by_cases hid : o.id = m.id
    · exact hnone o (hplace o ho hid)
    · exact hall o (mem_putNode_iff.2 (.inr ⟨ho, hid⟩))
  · intro hall o ho
    rcases mem_putNode_iff.1 ho with rfl | ⟨ho, -⟩
    · exact hnone o hd
    · exact hall o ho

/-- A draft of a configuration is the one that is found there. -/
theorem HasBareDrafts.draft?_eq_some (h : s.HasBareDrafts) (hs : s.IsNamed)
    (hn : n ∈ s.drafts config) : s.draft? config = some n := by
  obtain ⟨hn, hp, hd⟩ := mem_drafts_iff.1 hn
  cases hdraft : s.draft? config with
  | none =>
    rw [draft?_isNone_iff.1 hdraft n hn hp (hs.kind_of_draft hn hd)] at hd
    cases hd
  | some k =>
    obtain ⟨hk, hkp, -, hkd⟩ := Store.draft?_eq_some hdraft
    rw [h.single k hk n hn hkd hd (hkp.trans hp.symm)]

/-- No draft is left when one was written over, or none was there. -/
theorem drafts_capture (hs : s.IsNamed) (hbare : s.HasBareDrafts) (hd : m.draft = false)
    (hplace : ∀ n, s.draft? config = some n → m.id = n.id) :
    (s.capture m pairs).drafts config = [] := by
  refine List.eq_nil_iff_forall_not_mem.2 fun k hk => ?_
  obtain ⟨hk, hp, hkd⟩ := mem_drafts_iff.1 hk
  rcases mem_putNode_iff.1 hk with rfl | ⟨hk, hne⟩
  · rw [hd] at hkd
    cases hkd
  · have hfound := hbare.draft?_eq_some hs (mem_drafts_iff.2 ⟨hk, hp, hkd⟩)
    exact hne (hplace k hfound).symm

/-! ### The saved node -/

variable {title note writer : String}

/-- What is saved over a draft has its identifier. -/
theorem id_savedNode_of_draft (h : s.draft? config = some n) :
    (s.savedNode c config title note writer).id = n.id := by
  rw [savedNode, h]
  rfl

/-- What is saved anew has the first identifier of the supply. -/
theorem id_savedNode_of_none (h : s.draft? config = none) :
    (s.savedNode c config title note writer).id = c.fresh 0 := by
  rw [savedNode, h]
  rfl

/-- What is saved lies in its configuration. -/
theorem parent_savedNode : (s.savedNode c config title note writer).parent = some config := by
  unfold savedNode
  split
  · rename_i n hdraft
    exact (draft?_eq_some hdraft).2.1
  · rfl

/-- What is saved without a title is uncommitted. -/
theorem isDraft_savedNode : (s.savedNode c config "" note writer).content.isDraft := by
  unfold savedNode
  split <;> rfl

/-- What is saved counts as a draft exactly if it has no title. -/
theorem draft_savedNode_iff : (s.savedNode c config title note writer).draft ↔ title = "" := by
  unfold savedNode
  split <;> simp [Node.revised, newNode, Status.ofTitle_eq_draft_iff]

/-- What is saved takes the place of a draft, if of any node. -/
theorem MaySave.draft_of_id_eq {items : List ItemForm} (h : s.MaySave c config title items pairs)
    (hs : s.IsTree) {o : Node} (ho : o ∈ s.nodes)
    (hid : o.id = (s.savedNode c config title note writer).id) : o.draft := by
  cases hdraft : s.draft? config with
  | some n =>
    obtain ⟨hn, -, -, hd⟩ := draft?_eq_some hdraft
    rw [id_savedNode_of_draft hdraft] at hid
    rw [eq_of_id_eq hs.nodup ho hn hid]
    exact hd
  | none =>
    rw [id_savedNode_of_none hdraft] at hid
    exact absurd hid (not_mem_of_hasNode_eq_false (h.new hdraft) ho)

/-- A draft may be saved exactly if the same items may be saved under a title, if that is free. -/
theorem maySave_iff {items : List ItemForm} (htitle : title ≠ "")
    (hc : s.hasNode (c.fresh 0) = false) (hc₁ : s.hasNode (c₁.fresh 0) = false) :
    s.MaySave c config title items pairs ↔ s.MaySave c₁ config "" items pairs ∧
      ∀ o ∈ s.nodes, ¬holdsName config .snapshot title o := by
  constructor
  · intro h
    exact ⟨{ h with free := fun hne => absurd rfl hne, new := fun _ => hc₁ }, h.free htitle⟩
  · rintro ⟨h, hfree⟩
    exact { h with free := fun _ => hfree, new := fun _ => hc }

/-- A draft that is committed is what saving stores at once, but for its identifier, its times and
its version. -/
theorem savedNode_eq_revised (htitle : title ≠ "") :
    s.savedNode c config title note writer =
      { (s.savedNode c₁ config "" "" writer).revised c₂ title .committed note writer with
        id := (s.savedNode c config title note writer).id
        created := (s.savedNode c config title note writer).created
        modified := (s.savedNode c config title note writer).modified
        version := (s.savedNode c config title note writer).version } := by
  have hstatus : Status.ofTitle title = .committed := ofTitle_eq_committed_iff.2 htitle
  unfold savedNode
  split <;> simp [Node.revised, newNode, hstatus]

/-- Both ways leave the same tables, but for the snapshot and its identifier. -/
theorem capture_savedNode_eq_relabel (hs : s.IsOwned) (hc : s.hasNode (c.fresh 0) = false)
    (hc₁ : s.hasNode (c₁.fresh 0) = false) (hm : m.id = (s.savedNode c₁ config "" "" writer).id) :
    s.capture (s.savedNode c config title note writer) pairs =
      (s.capture m pairs).relabel m.id (s.savedNode c config title note writer) := by
  refine (capture_relabel hs ?_).symm
  cases hdraft : s.draft? config with
  | some d => exact .inl (by rw [hm, id_savedNode_of_draft hdraft, id_savedNode_of_draft hdraft])
  | none =>
    rw [hm, id_savedNode_of_none hdraft, id_savedNode_of_none hdraft]
    exact .inr ⟨hc₁, hc⟩

/-- The store after a draft was saved and then committed, and the one after saving at once. -/
theorem captures_agree (hs : s.IsSound) (hbare : s.HasBareDrafts)
    (hc : s.hasNode (c.fresh 0) = false) (hc₁ : s.hasNode (c₁.fresh 0) = false)
    (htitle : title ≠ "") (pairs : List (Pv × ItemForm)) :
    let node := (s.savedNode c₁ config "" "" writer).revised c₂ title .committed note writer
    let found := s.savedNode c config title note writer
    let s₁ := s.capture node pairs
    let s₂ := s.capture found pairs
    s₁.node? node.id = some node ∧ s₂ = s₁.relabel node.id found ∧
      found = { node with
        id := found.id
        created := found.created
        modified := found.modified
        version := found.version } ∧
      node.name = title ∧ node.content = .snapshot .committed note ∧ node.draft = false ∧
      node.parent = some config ∧
      (∀ n ∈ s.drafts config, node.id = n.id ∧ found.id = n.id) ∧
      s₁.drafts config = [] ∧ s₂.drafts config = [] := by
  intro node found s₁ s₂
  have hdraft : found.draft = false :=
    Bool.eq_false_iff.2 fun hd => htitle (draft_savedNode_iff.1 hd)
  have hplace : ∀ n, s.draft? config = some n → node.id = n.id ∧ found.id = n.id :=
    fun n hn => ⟨id_savedNode_of_draft hn, id_savedNode_of_draft hn⟩
  refine ⟨node?_putNode_self, capture_savedNode_eq_relabel hs.owned hc hc₁ rfl,
    savedNode_eq_revised htitle, rfl, rfl, rfl, parent_savedNode, ?_, ?_, ?_⟩
  · exact fun n hn => hplace n (hbare.draft?_eq_some hs.named hn)
  · exact drafts_capture hs.named hbare rfl fun n hn => (hplace n hn).1
  · exact drafts_capture hs.named hbare hdraft fun n hn => (hplace n hn).2

end Store

/-! ### Committing a draft -/

section

variable {c : Context} {p : Policy} {s₀ s s' : Store} {id : Id} {name comment user : Option String}
  {title note : String} {answer : Answer} {node : Node}

/-- When committing a draft succeeds, and what it leaves. -/
theorem commitSnapshot_eq_ok_iff (hs : s.IsTree) (htitle : strip (name.getD "") = title)
    (hnote : strip (comment.getD "") = note) :
    (∃ t, commitSnapshot c id name comment user s₀ = .ok t ∧ t s = .ok (node, s')) ↔
      IsName title ∧ note ≠ "" ∧ ∃ n writer, s.node? id = some n ∧ n.kind = .snapshot ∧
        n.content.isDraft ∧ (∀ o ∈ s.nodes, ¬holdsName n.parent .snapshot title o) ∧
        user = some writer ∧ node = n.revised c title .committed note writer ∧
        s' = s.replaceNode node := by
  subst htitle hnote
  have hanswer : ∀ n ∈ s.nodes, ∀ title note writer,
      (s.replaceNode (n.revised c title .committed note writer)).answerNode n.id =
        .ok (n.revised c title .committed note writer, s.replaceNode (n.revised c title .committed
          note writer)) := by
    intro n hn title note writer
    refine answerNode_eq_ok_iff.2 ⟨?_, rfl⟩
    rw [← putNode_of_mem (m := n.revised c title .committed note writer) hn rfl]
    exact node?_putNode_self
  constructor
  · rintro ⟨t, hplan, ht⟩
    obtain ⟨checked, hchecked, hplan⟩ := bind_eq_ok_iff.1 hplan
    obtain ⟨hblank, hplan⟩ := demand_bind_eq_ok_iff.1 hplan
    obtain rfl := Except.ok.inj hplan
    obtain ⟨n, hn, ht⟩ := bind_eq_ok_iff.1 ht
    obtain ⟨hdraft, ht⟩ := demand_bind_eq_ok_iff.1 ht
    obtain ⟨s₁, hrevise, ht⟩ := bind_eq_ok_iff.1 ht
    obtain ⟨hfind, hk⟩ := requireToWrite_eq_ok_iff.1 hn
    obtain ⟨hmem, rfl⟩ := node?_eq_some hfind
    obtain ⟨rfl, hname⟩ := checkName_eq_ok_iff.1 hchecked
    obtain ⟨hfree, writer, rfl, rfl⟩ := (reviseDraft_eq_ok_iff hs hmem).1 hrevise
    rw [hanswer n hmem] at ht
    obtain ⟨rfl, rfl⟩ := Prod.mk.inj (Except.ok.inj ht)
    exact ⟨hname, hblank, n, writer, hfind, hk, hdraft, hfree rfl, rfl, rfl, rfl⟩
  · rintro ⟨hname, hblank, n, writer, hfind, hk, hdraft, hfree, rfl, rfl, rfl⟩
    obtain ⟨hmem, rfl⟩ := node?_eq_some hfind
    refine ⟨_, bind_eq_ok_iff.2 ⟨_, checkName_eq_ok_iff.2 ⟨rfl, hname⟩,
      demand_bind_eq_ok_iff.2 ⟨hblank, rfl⟩⟩, ?_⟩
    exact bind_eq_ok_iff.2 ⟨n, requireToWrite_eq_ok_iff.2 ⟨hfind, hk⟩, demand_bind_eq_ok_iff.2
      ⟨hdraft, bind_eq_ok_iff.2 ⟨_, (reviseDraft_eq_ok_iff hs hmem).2
        ⟨fun _ => hfree, writer, rfl, rfl⟩, hanswer n hmem _ _ _⟩⟩⟩

end

/-- A store stays sound when a draft is saved in it. -/
theorem Store.MaySave.isSound_capture {s : Store} {c : Context} {config : Id}
    {items : List ItemForm} {pairs : List (Pv × ItemForm)}
    (h : s.MaySave c config "" items pairs) (hs : s.IsSound) (writer : String) :
    (s.capture (s.savedNode c config "" "" writer) pairs).IsSound := by
  have hempty : strip ((none : Option String).getD "") = "" := rfl
  obtain ⟨t, hplan, ht⟩ := (saveSnapshot_eq_ok_iff hs s hempty hempty).2
    ⟨.rfl, fun hne => absurd rfl hne, pairs, writer, h, rfl, rfl, rfl⟩
  exact hs.edits (saveSnapshot_edits hplan hs ht)

/-! ### Calls -/

namespace Archive

variable {a b : Archive} {s : Store} {c : Context} {p : Policy} {o : Operation} {answer : Answer}

variable {draft config : Id} {items : List ItemForm} {user : String}

/-- When saving captured items is answered with nobody else about, and what it leaves. -/
theorem run_saveSnapshot_iff (hs : a.store = some s) (hsound : s.IsSound)
    {name comment : Option String} {title note : String} (htitle : strip (name.getD "") = title)
    (hnote : strip (comment.getD "") = note) :
    a.run .nothing id ((Operation.saveSnapshot config items name comment (some user)).call c p) =
        (.ok answer, b) ↔
      (title = "" ↔ note = "") ∧ (title ≠ "" → IsName title) ∧
      ∃ pairs, s.MaySave c config title items pairs ∧
        b = { a with store := some (s.capture (s.savedNode c config title note user) pairs) } ∧
        answer = .snapshot ⟨s.savedNode c config title note user,
          (s.capture (s.savedNode c config title note user) pairs).readings
            (s.savedNode c config title note user).id⟩ := by
  rw [run_alone_eq_ok_iff hs]
  simp only [Operation.write_saveSnapshot_iff hsound htitle hnote]
  constructor
  · rintro ⟨s', ⟨hboth, hname, pairs, writer, hsave, huser, rfl, rfl⟩, rfl⟩
    obtain rfl := Option.some.inj huser
    exact ⟨hboth, hname, pairs, hsave, rfl, rfl⟩
  · rintro ⟨hboth, hname, pairs, hsave, rfl, rfl⟩
    exact ⟨_, ⟨hboth, hname, pairs, user, hsave, rfl, rfl, rfl⟩, rfl⟩

/-- When committing a draft is answered with nobody else about, and what it leaves. -/
theorem run_commitSnapshot_iff (hs : a.store = some s) (hsound : s.IsTree)
    {name comment : Option String} {title note : String} (htitle : strip (name.getD "") = title)
    (hnote : strip (comment.getD "") = note) :
    a.run .nothing id
        ((Operation.commitSnapshot draft name comment (some user)).call c p) = (.ok answer, b) ↔
      IsName title ∧ note ≠ "" ∧ ∃ n, s.node? draft = some n ∧ n.kind = .snapshot ∧
        n.content.isDraft ∧ (∀ o ∈ s.nodes, ¬holdsName n.parent .snapshot title o) ∧
        answer = .node (n.revised c title .committed note user) ∧
        b = { a with store := some (s.replaceNode (n.revised c title .committed note user)) } := by
  have hwrite : ∀ s', (∃ t, (Operation.commitSnapshot draft name comment (some user)).write c p s =
      .ok t ∧ t s = .ok (answer, s')) ↔ ∃ node, answer = .node node ∧ ∃ t,
        commitSnapshot c draft name comment (some user) s = .ok t ∧ t s = .ok (node, s') :=
    fun s' => Write.exists_map_eq_ok_iff
  rw [run_alone_eq_ok_iff hs]
  simp only [hwrite, commitSnapshot_eq_ok_iff hsound htitle hnote]
  constructor
  · rintro ⟨s', ⟨node, rfl, hname, hblank, n, writer, hn, hk, hd, hfree, huser, rfl, rfl⟩, rfl⟩
    obtain rfl := Option.some.inj huser
    exact ⟨hname, hblank, n, hn, hk, hd, hfree, rfl, rfl⟩
  · rintro ⟨hname, hblank, n, hn, hk, hd, hfree, rfl, rfl⟩
    exact ⟨_, ⟨_, rfl, hname, hblank, n, user, hn, hk, hd, hfree, rfl, rfl, rfl⟩, rfl⟩

/-- Captured items are saved as a draft if they are paired with the variables and can be stored. -/
theorem run_saveSnapshot_draft_iff (hs : a.store = some s) (hsound : s.IsSound) {draft : Snapshot} :
    a.run .nothing id ((Operation.saveSnapshot config items none none (some user)).call c p) =
        (.ok (.snapshot draft), b) ↔
      ∃ pairs, s.MaySave c config "" items pairs ∧
        b = { a with store := some (s.capture (s.savedNode c config "" "" user) pairs) } ∧
        draft = ⟨s.savedNode c config "" "" user,
          (s.capture (s.savedNode c config "" "" user) pairs).readings
            (s.savedNode c config "" "" user).id⟩ := by
  have hempty : strip ((none : Option String).getD "") = "" := rfl
  rw [run_saveSnapshot_iff hs hsound hempty hempty]
  simp

/-- They are committed at once if the name is one and is free, too. -/
theorem run_saveSnapshot_titled_iff (hs : a.store = some s) (hsound : s.IsSound)
    {name comment : String} (hname : strip name ≠ "") (hcomment : strip comment ≠ "")
    {found : Snapshot} :
    a.run .nothing id ((Operation.saveSnapshot config items (some name) (some comment)
        (some user)).call c p) = (.ok (.snapshot found), b) ↔
      IsName (strip name) ∧ ∃ pairs, s.MaySave c config (strip name) items pairs ∧
        b = { a with store := some (s.capture
          (s.savedNode c config (strip name) (strip comment) user) pairs) } ∧
        found = ⟨s.savedNode c config (strip name) (strip comment) user,
          (s.capture (s.savedNode c config (strip name) (strip comment) user) pairs).readings
            (s.savedNode c config (strip name) (strip comment) user).id⟩ := by
  rw [run_saveSnapshot_iff hs hsound (congrArg strip Option.getD_some)
    (congrArg strip Option.getD_some)]
  simp [hname, hcomment]

/-- A draft that was just saved can be committed exactly if its name is one, and is free in the
store as it was. -/
theorem run_commitSnapshot_captured_iff {m : Node} {pairs : List (Pv × ItemForm)}
    {name comment : String} (ha : a.store = some (s.capture m pairs))
    (hsound : (s.capture m pairs).IsTree) (hd : m.draft) (hk : m.kind = .snapshot)
    (hcontent : m.content.isDraft) (hp : m.parent = some config)
    (hplace : ∀ o ∈ s.nodes, o.id = m.id → o.draft) (hcomment : strip comment ≠ "") :
    a.run .nothing id ((Operation.commitSnapshot m.id (some name) (some comment)
        (some user)).call c p) = (.ok answer, b) ↔
      IsName (strip name) ∧ (∀ o ∈ s.nodes, ¬holdsName config .snapshot (strip name) o) ∧
        answer = .node (m.revised c (strip name) .committed (strip comment) user) ∧
        b = { a with store := some (s.capture
          (m.revised c (strip name) .committed (strip comment) user) pairs) } := by
  have hnode : (s.capture m pairs).node? m.id = some m := node?_putNode_self
  have hreplace := replaceNode_capture (s := s) (m := m)
    (n := m.revised c (strip name) .committed (strip comment) user) rfl pairs
  rw [run_commitSnapshot_iff ha hsound rfl rfl]
  constructor
  · rintro ⟨hname, -, n, hn, -, -, hfree, rfl, rfl⟩
    obtain rfl := Option.some.inj (hnode.symm.trans hn)
    rw [hp] at hfree
    refine ⟨hname, (forall_not_holdsName_capture_iff hd hplace).1 hfree, rfl, ?_⟩
    rw [← hreplace]
    rfl
  · rintro ⟨hname, hfree, rfl, rfl⟩
    refine ⟨hname, hcomment, m, hnode, hk, hcontent, ?_, rfl, ?_⟩
    · rw [hp]
      exact (forall_not_holdsName_capture_iff hd hplace).2 hfree
    · rw [← hreplace]
      rfl

end Archive

namespace Service

open Sample

/-- Saving captured items as a draft and then committing it succeed both exactly if saving the items
with the name and the comment does. Both ways leave the same store, with the same snapshot in it but
for its times, its version and, if there was no draft before, its identifier: it is committed, and
the configuration has no draft. -/
theorem Reachable.commits_agree {a : Archive} {ts : List (Transaction Answer)} {s : Store}
    {c c₁ : Context} {name comment : String} (h : Reachable ⟨a, ts⟩) (hs : a.store = some s)
    (hfresh : c.IsFreshFor s) (hfresh₁ : c₁.IsFreshFor s) (hname : strip name ≠ "")
    (hcomment : strip comment ≠ "") (c₂ : Context) (p : Policy) (config : Id)
    (items : List ItemForm) (user : String) :
    let save (c : Context) (name comment : Option String) := a.run .nothing id
      ((Operation.saveSnapshot config items name comment (some user)).call c p)
    let commit (b : Archive) (draft : Id) := b.run .nothing id
      ((Operation.commitSnapshot draft (some name) (some comment) (some user)).call c₂ p)
    ((∃ draft b node b₁, save c₁ none none = (.ok (.snapshot draft), b) ∧
        commit b draft.node.id = (.ok (.node node), b₁)) ↔
      ∃ found b₂, save c (some name) (some comment) = (.ok (.snapshot found), b₂)) ∧
    ∀ draft b node b₁ found b₂, save c₁ none none = (.ok (.snapshot draft), b) →
      commit b draft.node.id = (.ok (.node node), b₁) →
      save c (some name) (some comment) = (.ok (.snapshot found), b₂) →
      ∃ s₁ s₂, b₁ = { a with store := some s₁ } ∧ b₂ = { a with store := some s₂ } ∧
        s₁.node? node.id = some node ∧ s₂ = s₁.relabel node.id found.node ∧
        found.node = { node with
          id := found.node.id
          created := found.node.created
          modified := found.node.modified
          version := found.node.version } ∧
        node.name = strip name ∧ node.content = .snapshot .committed (strip comment) ∧
        node.draft = false ∧ node.parent = some config ∧
        (∀ n ∈ s.drafts config, node.id = n.id ∧ found.node.id = n.id) ∧
        s₁.drafts config = [] ∧ s₂.drafts config = [] := by
  intro save commit
  have hsound := h.isSound_store hs
  have hbare := h.hasBareDrafts hs
  have hmay (pairs : List (Pv × ItemForm)) : s.MaySave c config (strip name) items pairs ↔
      s.MaySave c₁ config "" items pairs ∧
        ∀ o ∈ s.nodes, ¬holdsName config .snapshot (strip name) o :=
    maySave_iff hname (hfresh.nodes 0) (hfresh₁.nodes 0)
  generalize hm : s.savedNode c₁ config "" "" user = m
  generalize hk : m.revised c₂ (strip name) .committed (strip comment) user = k
  generalize hn : s.savedNode c config (strip name) (strip comment) user = n
  have hdraft (draft : Snapshot) (b : Archive) : save c₁ none none = (.ok (.snapshot draft), b) ↔
      ∃ pairs, s.MaySave c₁ config "" items pairs ∧
        b = { a with store := some (s.capture m pairs) } ∧
        draft = ⟨m, (s.capture m pairs).readings m.id⟩ :=
    hm ▸ run_saveSnapshot_draft_iff hs hsound
  have hdirect (found : Snapshot) (b : Archive) :
      save c (some name) (some comment) = (.ok (.snapshot found), b) ↔ IsName (strip name) ∧
        ∃ pairs, s.MaySave c config (strip name) items pairs ∧
          b = { a with store := some (s.capture n pairs) } ∧
          found = ⟨n, (s.capture n pairs).readings n.id⟩ :=
    hn ▸ run_saveSnapshot_titled_iff hs hsound hname hcomment
  have hcommit (pairs : List (Pv × ItemForm)) (hsave : s.MaySave c₁ config "" items pairs)
      (node : Node) (b : Archive) :
      commit { a with store := some (s.capture m pairs) } m.id = (.ok (.node node), b) ↔
        IsName (strip name) ∧ (∀ o ∈ s.nodes, ¬holdsName config .snapshot (strip name) o) ∧
          .node node = Answer.node k ∧ b = { a with store := some (s.capture k pairs) } := by
    subst hm hk
    exact run_commitSnapshot_captured_iff rfl (hsave.isSound_capture hsound user).tree
      (draft_savedNode_iff.2 rfl) (kind_savedNode user) isDraft_savedNode parent_savedNode
      (fun o ho hid => hsave.draft_of_id_eq hsound.tree ho hid) hcomment
  refine ⟨⟨?_, ?_⟩, ?_⟩
  · rintro ⟨draft, b, node, b₁, hsaved, hcommitted⟩
    obtain ⟨pairs, hsave, rfl, rfl⟩ := (hdraft draft b).1 hsaved
    obtain ⟨hvalid, hfree, -, -⟩ := (hcommit pairs hsave node b₁).1 hcommitted
    exact ⟨_, _, (hdirect _ _).2 ⟨hvalid, pairs, (hmay pairs).2 ⟨hsave, hfree⟩, rfl, rfl⟩⟩
  · rintro ⟨found, b₂, hsaved⟩
    obtain ⟨hvalid, pairs, hsave, -, -⟩ := (hdirect found b₂).1 hsaved
    obtain ⟨hsave, hfree⟩ := (hmay pairs).1 hsave
    exact ⟨_, _, k, _, (hdraft _ _).2 ⟨pairs, hsave, rfl, rfl⟩,
      (hcommit pairs hsave k _).2 ⟨hvalid, hfree, rfl, rfl⟩⟩
  · intro draft b node b₁ found b₂ hsaved hcommitted hsavedDirect
    obtain ⟨pairs, hsave, rfl, rfl⟩ := (hdraft draft b).1 hsaved
    obtain ⟨-, -, hnode, rfl⟩ := (hcommit pairs hsave node b₁).1 hcommitted
    obtain rfl := Answer.node.inj hnode
    obtain ⟨-, pairs', hsave', rfl, rfl⟩ := (hdirect found b₂).1 hsavedDirect
    obtain rfl : pairs = pairs' := Except.ok.inj (hsave.paired.symm.trans hsave'.paired)
    subst hm hk hn
    exact ⟨_, _, rfl, rfl,
      captures_agree hsound hbare (hfresh.nodes 0) (hfresh₁.nodes 0) hname pairs⟩

/-- The draft of a configuration is saved again and then committed, or committed at once. -/
theorem commits_agree_drafted :
    let save (stem : String) (name comment : Option String) := drafted.run .nothing id
      ((Operation.saveSnapshot "c0" [item] name comment (some "u")).call (supply stem) policy)
    ∃ draft b node s₁ found s₂, save "e" none none = (.ok (.snapshot draft), b) ∧
      b.run .nothing id ((Operation.commitSnapshot draft.node.id (some "s") (some "first")
        (some "u")).call (supply "f") policy) =
          (.ok (.node node), { drafted with store := some s₁ }) ∧
      save "s" (some "s") (some "first") =
        (.ok (.snapshot found), { drafted with store := some s₂ }) ∧
      s₂ = s₁.relabel node.id found.node ∧ s₁.drafts "c0" = [] ∧ s₂.drafts "c0" = [] := by
  intro save
  obtain ⟨ts, h⟩ := reachable_drafted
  obtain ⟨⟨s, hs, -⟩, -⟩ := h.isSound
  have hids : ∀ s ∈ drafted.store, ((∀ n ∈ s.nodes, ¬ "s".toList <+: n.id.toList) ∧
      ∀ pv ∈ s.pvs, ¬ "s".toList <+: pv.id.toList) ∧
      (∀ n ∈ s.nodes, ¬ "e".toList <+: n.id.toList) ∧
      ∀ pv ∈ s.pvs, ¬ "e".toList <+: pv.id.toList := by
    decide +kernel
  obtain ⟨⟨hnodes, hpvs⟩, hnodes₁, hpvs₁⟩ := hids s hs
  have hname : strip "s" ≠ "" := by decide
  have hcomment : strip "first" ≠ "" := by decide
  obtain ⟨hiff, hagree⟩ := h.commits_agree hs (isFreshFor_supply hnodes hpvs)
    (isFreshFor_supply hnodes₁ hpvs₁) hname hcomment (supply "f") policy "c0" [item] "u"
  obtain ⟨answer, hanswer⟩ := exists_answer drafted "s"
    (.saveSnapshot "c0" [item] (some "s") (some "first") (some "u")) (by decide +kernel)
  have hidle : Run ⟨drafted, ts⟩ ⟨id drafted, ts⟩ := .refl
  obtain ⟨s', -, hsound, -, hok⟩ := h.call_eq_ok hidle hs hanswer
  obtain ⟨-, found, rfl, -⟩ := hok.saves hsound
  obtain ⟨draft, b, node, b₁, hdraft, hcommit⟩ := hiff.2 ⟨found, _, hanswer⟩
  obtain ⟨s₁, s₂, rfl, hb₂, -, hsame, -, -, -, -, -, -, hnone₁, hnone₂⟩ :=
    hagree draft b node b₁ found _ hdraft hcommit hanswer
  rw [hb₂] at hanswer
  exact ⟨draft, b, node, s₁, found, s₂, hdraft, hcommit, hanswer, hsame, hnone₁, hnone₂⟩

end Service

end SnapshotArchive
