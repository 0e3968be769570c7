import SnapshotArchive.Proofs.Ordering

/-!
# Footprints of operations

A version tells clients that a node has changed, so it matters which nodes an operation changes: one
that grows for nothing makes the updates of other clients fail, and one that does not grow loses
them. `Operation.Touches` says which nodes these are. The version of each of them grows by one; of
all other nodes that stay, the whole record is what it was. In particular no node changes because
children of it are added, renamed, moved away or deleted.

Variables, items and tags of a node that stays change only by the operations that are about them
(`Operation.ChangesPvs`, `Operation.ChangesItems`, `Operation.ChangesTags`).

* `Operation.Effect.footprint` : what an operation leaves alone, and what it changes.
* `Service.Reachable.exact_footprint` : what clients find of a call that is answered.
-/

namespace SnapshotArchive

open Text Store Archive Sample

/-! ### What operations touch -/

namespace Operation

/-- The nodes that an operation changes, of those that are there before it. -/
def Touches (p : Policy) (s : Store) (id : Id) : Operation → Prop
  | .updateNode form _ => id = form.id
  | .updateConfiguration form _ => id = form.node.id
  | .renamePv config _ _ _ => id = config
  | .commitSnapshot snapshot _ _ _ => id = snapshot
  | .saveSnapshot config _ _ _ _ => ∃ draft, s.draft? config = some draft ∧ id = draft.id
  | .moveNodes ids target _ => id = target ∨ id ∈ ids ∧ id ∉ s.childIds target
  | .copyNodes _ target _ => id = target
  | .markGolden snapshot golden => id = snapshot ∨ golden ∧ p.goldenExclusive ∧
      ∃ n, s.node? snapshot = some n ∧ id ∈ (s.goldenSiblings n).map (·.id)
  | .createNode _ _ _ | .createConfiguration _ _ _ | .deleteNode _ | .deleteNodes _ | .addTag _ _ |
    .removeTag _ _ | .initialise => False

/-- The snapshots whose tags an operation changes. -/
def ChangesTags (id : Id) : Operation → Prop
  | .addTag snapshot _ => id = snapshot
  | .removeTag snapshot _ => id = snapshot
  | _ => False

/-- What an operation changes of the records that are there before and after it. -/
structure Footprint (p : Policy) (s : Store) (o : Operation) (s' : Store) : Prop where
  /-- The nodes that it changes are there before and after it, and have the next version. -/
  touched : ∀ id, o.Touches p s id →
    ∃ n m, s.node? id = some n ∧ s'.node? id = some m ∧ m.version = n.version + 1
  /-- All fields of the others are what they were. -/
  others : ∀ id, ¬o.Touches p s id → ∀ n m, s.node? id = some n → s'.node? id = some m → m = n
  /-- No node changes its kind or its time of creation. -/
  lasting : ∀ id n m, s.node? id = some n → s'.node? id = some m →
    m.kind = n.kind ∧ m.created = n.created
  /-- Nodes get another parent only by being moved. -/
  parents : ∀ id n m, s.node? id = some n → s'.node? id = some m → m.parent ≠ n.parent →
    ∃ ids target user, o = .moveNodes ids target user ∧ id ∈ ids
  pvs : ∀ id, s.hasNode id → s'.hasNode id → ¬o.ChangesPvs id → s'.pvsOf id = s.pvsOf id
  items : ∀ id, s.hasNode id → s'.hasNode id → ¬o.ChangesItems s id →
    s'.itemsOf id = s.itemsOf id
  tags : ∀ id, s.hasNode id → s'.hasNode id → ¬o.ChangesTags id → s'.tagsOf id = s.tagsOf id

end Operation

/-! ### Nodes -/

namespace Node.Revision

variable {c : Context} {n m : Node}

/-- No operation changes the time of creation. -/
theorem created_eq (h : n.Revision c m) : m.created = n.created := by
  cases h <;> rfl

end Node.Revision

namespace Store

variable {s s' : Store}

/-- What becomes of the nodes of a store when those of some identifiers are changed, and whether
they may be moved. -/
structure ChangesNodes (s : Store) (chosen : Id → Prop) (mayMove : Id → Prop) (s' : Store) :
    Prop where
  touched : ∀ id, chosen id →
    ∃ n ∈ s.nodes, ∃ m ∈ s'.nodes, n.id = id ∧ m.id = id ∧ m.version = n.version + 1
  others : ∀ n ∈ s.nodes, ¬chosen n.id → ∀ m ∈ s'.nodes, m.id = n.id → m = n
  parents : ∀ n ∈ s.nodes, ∀ m ∈ s'.nodes, m.id = n.id → m.parent = n.parent ∨ mayMove n.id

namespace ChangesNodes

/-- If nodes are deleted, no other is changed. -/
theorem of_subset (hs : s.IsTree) (h : s'.nodes ⊆ s.nodes) {mayMove : Id → Prop} :
    s.ChangesNodes (fun _ => False) mayMove s' where
  touched _ h := h.elim
  others _ hn _ _ hm hid := eq_of_id_eq hs.nodup (h hm) hn hid
  parents _ hn _ hm hid := .inl (congrArg _ (eq_of_id_eq hs.nodup (h hm) hn hid))

/-- Where nodes are as before, none is changed. -/
theorem of_nodes_eq (hs : s.IsTree) (he : s'.nodes = s.nodes) {mayMove : Id → Prop} :
    s.ChangesNodes (fun _ => False) mayMove s' :=
  .of_subset hs (he ▸ List.Subset.refl _)

/-- Each node is what a function makes of it, and others may be added. -/
theorem of_map (hs : s.IsTree) {f : Node → Node} {new : List Node} {chosen : Id → Prop}
    {mayMove : Id → Prop} (he : s'.nodes = s.nodes.map f ++ new)
    (hnew : ∀ m ∈ new, s.hasNode m.id = false) (hid : ∀ n ∈ s.nodes, (f n).id = n.id)
    (hmem : ∀ id, chosen id → s.hasNode id)
    (htouched : ∀ n ∈ s.nodes, chosen n.id → (f n).version = n.version + 1)
    (hothers : ∀ n ∈ s.nodes, ¬chosen n.id → f n = n)
    (hparents : ∀ n ∈ s.nodes, (f n).parent = n.parent ∨ mayMove n.id) :
    s.ChangesNodes chosen mayMove s' := by
  have hplace : ∀ n ∈ s.nodes, ∀ m ∈ s'.nodes, m.id = n.id → m = f n := by
    intro n hn m hm hmid
    rw [he] at hm
    rcases List.mem_append.1 hm with hm | hm
    · obtain ⟨o, ho, rfl⟩ := List.mem_map.1 hm
      rw [eq_of_id_eq hs.nodup ho hn ((hid o ho).symm.trans hmid)]
    · exact absurd hmid.symm (not_mem_of_hasNode_eq_false (hnew m hm) hn)
  refine ⟨fun id hi => ?_, fun n hn hnot m hm hmid => ?_, fun n hn m hm hmid => ?_⟩
  · obtain ⟨n, hn, rfl⟩ := hasNode_iff.1 (hmem id hi)
    have hm : f n ∈ s'.nodes := he ▸ List.mem_append_left _ (List.mem_map_of_mem hn)
    exact ⟨n, hn, f n, hm, rfl, hid n hn, htouched n hn hi⟩
  · exact (hplace n hn m hm hmid).trans (hothers n hn hnot)
  · exact hplace n hn m hm hmid ▸ hparents n hn

/-- A node is added to those that are there. -/
theorem of_append (hs : s.IsTree) {m : Node} (he : s'.nodes = s.nodes ++ [m])
    (hnew : s.hasNode m.id = false) {mayMove : Id → Prop} :
    s.ChangesNodes (fun _ => False) mayMove s' := by
  refine .of_map hs (f := id) (he.trans (by rw [List.map_id])) (fun o ho => ?_) (fun _ _ => rfl)
    (fun _ h => h.elim) (fun _ _ h => h.elim) (fun _ _ _ => rfl) fun _ _ => .inl rfl
  exact List.mem_singleton.1 ho ▸ hnew

/-- A node is put in the place of another. -/
theorem of_replaceNode (hs : s.IsTree) {n k : Node} {mayMove : Id → Prop}
    (he : s'.nodes = (s.replaceNode k).nodes) (hn : n ∈ s.nodes) (hid : k.id = n.id)
    (hversion : k.version = n.version + 1) (hparent : k.parent = n.parent) :
    s.ChangesNodes (· = n.id) mayMove s' := by
  have hsame : ∀ o ∈ s.nodes, o.id = k.id → o = n := fun o ho h =>
    eq_of_id_eq hs.nodup ho hn (h.trans hid)
  refine .of_map hs (he.trans (List.append_nil _).symm) (by simp) (fun o ho => ?_)
    (fun id h => h ▸ hasNode_of_mem hn) (fun o ho h => ?_) (fun o ho h => ?_) fun o ho => ?_
  · split
    · rename_i h
      exact h.symm
    · rfl
  · rw [if_pos (h.trans hid.symm), hversion, hsame o ho (h.trans hid.symm)]
  · exact if_neg fun he => h (he.trans hid)
  · split
    · rename_i h
      exact .inl (hparent.trans (congrArg _ (hsame o ho h).symm))
    · exact .inl rfl

/-- A node is stamped as changed, and others may be added. -/
theorem of_stamp (hs : s.IsTree) {c : Context} {id : Id} {user : String} {new : List Node}
    {mayMove : Id → Prop} (hnode : s.hasNode id) (hnew : ∀ m ∈ new, s.hasNode m.id = false)
    (he : s'.nodes = (s.stamp c id user).nodes ++ new) : s.ChangesNodes (· = id) mayMove s' := by
  refine .of_map hs he hnew (fun n _ => (hasPlaceOf_stamp c id user n).id)
    (fun _ h => h ▸ hnode) (fun n _ h => by rw [if_pos h]) (fun n _ h => if_neg h) fun n _ => ?_
  exact .inl (hasPlaceOf_stamp c id user n).parent

/-- Nodes are moved into another that is stamped as changed. -/
theorem of_move (hs : s.IsTree) {c : Context} {target : Id} {user : String} {ids : List Id}
    (hnode : s.hasNode target) (hids : ∀ id ∈ ids, s.hasNode id) (hne : target ∉ ids) :
    s.ChangesNodes (fun id => id = target ∨ id ∈ ids) (· ∈ ids)
      ((s.move c target user ids).stamp c target user) := by
  have hstamp : ∀ id ∈ ids, id ≠ target := fun id hid he => hne (he ▸ hid)
  have he : ((s.move c target user ids).stamp c target user).nodes = s.nodes.map (fun n =>
      if n.id ∈ ids then n.movedTo c target user (s.nextPosition target + ids.idxOf n.id)
      else if n.id = target then { n with version := n.version + 1, modified := c.now, user }
      else n) := by
    simp only [stamp, mapNode, move, List.map_map]
    refine List.map_congr_left fun n _ => ?_
    rw [Function.comp_apply]
    by_cases hid : n.id ∈ ids
    · rw [if_pos hid, if_pos hid]
      exact if_neg (hstamp n.id hid)
    · rw [if_neg hid, if_neg hid]
  refine .of_map hs (he.trans (List.append_nil _).symm) (by simp) (fun n _ => ?_)
    (fun id h => ?_) (fun n _ h => ?_) (fun n _ h => ?_) fun n _ => ?_
  · split
    · rfl
    · split <;> rfl
  · rcases h with rfl | h
    · exact hnode
    · exact hids id h
  · rcases h with h | h
    · rw [if_neg (h ▸ hne), if_pos h]
    · rw [if_pos h]
      rfl
  · rw [not_or] at h
    rw [if_neg h.2, if_neg h.1]
  · by_cases hid : n.id ∈ ids
    · exact .inr hid
    · rw [if_neg hid]
      split <;> exact .inl rfl

/-- A node is marked as golden or not, and others no longer. -/
theorem of_mark (hs : s.IsTree) {c : Context} {n : Node} {golden : Bool} {others : List Node}
    {mayMove : Id → Prop} (hn : n ∈ s.nodes) (hothers : ∀ o ∈ others, o ∈ s.nodes) :
    s.ChangesNodes (fun id => id = n.id ∨ id ∈ others.map (·.id)) mayMove
      (s.mark c n golden others) := by
  refine .of_map hs (List.append_nil _).symm (by simp)
    (fun m _ => (hasPlaceOf_mark c n golden others m).id) (fun id h => ?_) (fun m _ h => ?_)
    (fun m _ h => ?_) fun m _ => .inl (hasPlaceOf_mark c n golden others m).parent
  · rcases h with rfl | h
    · exact hasNode_of_mem hn
    · obtain ⟨o, ho, rfl⟩ := List.mem_map.1 h
      exact hasNode_of_mem (hothers o ho)
  · by_cases hid : m.id = n.id
    · rw [if_pos hid]
      rfl
    · rw [if_neg hid, if_pos (h.resolve_left hid)]
      rfl
  · rw [not_or] at h
    rw [if_neg h.1, if_neg h.2]

/-- Which nodes are changed may be said in other words, and more of them may be moved. -/
theorem congr {chosen chosen' : Id → Prop} {mayMove mayMove' : Id → Prop}
    (h : s.ChangesNodes chosen mayMove s') (ht : ∀ id, chosen' id ↔ chosen id)
    (hm : ∀ id, mayMove id → mayMove' id) : s.ChangesNodes chosen' mayMove' s' where
  touched id hid := h.touched id ((ht id).1 hid)
  others n hn hnot := h.others n hn fun hid => hnot ((ht n.id).2 hid)
  parents n hn m hm' hid := (h.parents n hn m hm' hid).imp_right (hm n.id)

end ChangesNodes

end Store

namespace Operation.Effect

variable {c : Context} {p : Policy} {o : Operation} {s s' : Store}

/-- What an operation makes of the nodes that are there before and after it. -/
theorem changesNodes (h : o.Effect c p s s') (hs : s.IsSound) :
    s.ChangesNodes (o.Touches p s)
      (fun id => ∃ ids target user, o = .moveNodes ids target user ∧ id ∈ ids) s' := by
  have htree := hs.tree
  cases h with
  | createNode _ _ _ _ _ hnew => exact .of_append htree rfl hnew
  | createConfiguration _ _ _ _ hnew => exact .of_append htree rfl hnew
  | @newSnapshot q items name comment title user status added _ _ hnone hnew =>
    refine (ChangesNodes.of_append htree rfl hnew).congr (fun id => ?_) fun _ h => h
    simp [Touches, hnone]
  | @overwriteDraft config n items name comment title user status added hdraft =>
    have hn := (draft?_eq_some hdraft).1
    refine .congr (.of_replaceNode htree rfl hn rfl rfl rfl) (fun id => ?_) fun _ h => h
    simp [Touches, hdraft]
  | updateNode hn hid =>
    refine .congr (.of_replaceNode htree rfl hn rfl rfl rfl) (fun id => ?_) fun _ h => h
    rw [Touches, hid]
  | updateConfiguration hn _ hid =>
    refine .congr (.of_replaceNode htree rfl hn rfl rfl rfl) (fun id => ?_) fun _ h => h
    rw [Touches, hid]
  | commitSnapshot hn => exact .of_replaceNode htree rfl hn rfl rfl rfl
  | renamePv hn =>
    exact .of_stamp htree (hasNode_of_mem hn) (by simp) (List.append_nil (s.stamp c _ _).nodes).symm
  | deleteNode => exact .of_subset htree (List.filter_sublist.subset)
  | deleteNodes => exact .of_subset htree (List.filter_sublist.subset)
  | @moveNodes ids target nodes t user hmoves helse =>
    have hfound := hmoves.hasNode_target
    have hmem : ∀ id ∈ ids, s.hasNode id := by
      intro id hid
      obtain ⟨n, hn, rfl⟩ := hmoves.selection.exists_of_mem hid
      exact hasNode_of_mem (hmoves.selection.mem hn)
    have htarget := hmoves.target_not_mem htree
    refine (ChangesNodes.of_move htree hfound hmem htarget).congr (fun id => ?_)
      fun id hid => ⟨_, _, _, rfl, hid⟩
    refine or_congr_right ⟨fun h => h.1, fun hid => ⟨hid, fun hchild => ?_⟩⟩
    obtain ⟨m, hm, rfl⟩ := List.mem_map.1 hchild
    obtain ⟨hm, hp⟩ := mem_children_iff.1 hm
    exact helse m (hmoves.selection.mem_of_id_mem htree hm hid) hp
  | @keepNodes ids target nodes t user hmoves hthere =>
    have hfound := hmoves.hasNode_target
    have hstamp : s.ChangesNodes (· = target) (fun _ => False) (s.stamp c target user) :=
      .of_stamp htree hfound (by simp) (List.append_nil _).symm
    refine hstamp.congr (fun id => ?_) fun _ h => h.elim
    refine ⟨fun h => h.resolve_right fun hmoved => hmoved.2 ?_, .inl⟩
    exact hmoves.selection.mem_childIds hthere id hmoved.1
  | @copyNodes ids target nodes t user d hcopies hbeside =>
    exact .of_stamp htree hcopies.hasNode_target hbeside.own.nodes rfl
  | @markGolden n golden hn hk =>
    have hothers : ∀ o ∈ (if golden && p.goldenExclusive then s.goldenSiblings n else []),
        o ∈ s.nodes := by
      intro o ho
      split at ho
      · exact (List.mem_filter.1 ho).1
      · cases ho
    refine (ChangesNodes.of_mark htree hn hothers).congr (fun id => or_congr_right ?_)
      fun _ h => h
    rw [node?_of_mem htree.nodup hn]
    split
    · rename_i h
      simp_all
    · rename_i h
      simp_all
  | addTag =>
    refine .of_nodes_eq htree ?_
    rfl
  | removeTag =>
    refine .of_nodes_eq htree ?_
    rfl
  | initialise => exact .of_nodes_eq htree rfl

end Operation.Effect

/-! ### What belongs to nodes -/

namespace Store

variable {s t : Store} {id : Id}

/-- Rows without tags of a snapshot leave its tags alone. -/
theorem tagsOf_append (h : ∀ tag ∈ t.tags, tag.snapshot ≠ id) :
    (s ++ t).tagsOf id = s.tagsOf id := by
  rw [tagsOf, tags_append, filter_append_of_forall_not fun tag ht => by simpa using h tag ht]
  rfl

/-- What is taken from other snapshots does not show. -/
theorem tagsOf_filter {p : Tag → Bool} (h : ∀ tag ∈ s.tags, tag.snapshot = id → p tag) :
    tagsOf { s with tags := s.tags.filter p } id = s.tagsOf id := by
  have hfilter : (s.tags.filter p).filter (·.snapshot = id) = s.tags.filter (·.snapshot = id) := by
    rw [List.filter_filter]
    refine List.filter_congr fun tag ht => ?_
    by_cases he : tag.snapshot = id
    · simp [he, h tag ht he]
    · simp [he]
  rw [tagsOf, hfilter]
  rfl

/-- A deletion leaves the tags of a snapshot that stays. -/
theorem tagsOf_removeNodes {gone : List Id} (hid : id ∉ gone) :
    (s.removeNodes gone).tagsOf id = s.tagsOf id :=
  tagsOf_filter fun _ _ he => decide_eq_true (he ▸ hid)

end Store

namespace Operation.Effect

variable {c : Context} {p : Policy} {o : Operation} {s s' : Store}

/-- A snapshot that stays has the tags that it had, unless the operation is about them. -/
theorem tagsOf_eq (h : o.Effect c p s s') {n m : Node} (hn : n ∈ s.nodes) (hm : m ∈ s'.nodes)
    (hid : m.id = n.id) (hnot : ¬o.ChangesTags n.id) : s'.tagsOf n.id = s.tagsOf n.id := by
  cases h with
  | deleteNode => exact tagsOf_removeNodes (hid ▸ (mem_nodes_removeNodes_iff.1 hm).2)
  | deleteNodes => exact tagsOf_removeNodes (hid ▸ (mem_nodes_removeNodes_iff.1 hm).2)
  | copyNodes _ hbeside =>
    refine tagsOf_append fun tag htag he => ?_
    exact not_mem_of_hasNode_eq_false (hbeside.own.tags tag htag) hn he.symm
  | @addTag k tag form _ _ _ htag =>
    refine tagsOf_append (t := ⟨[], [], [], [tag]⟩) fun u hu he => hnot ?_
    rw [List.mem_singleton.1 hu, htag] at he
    exact he.symm
  | @removeTag snapshot form =>
    refine tagsOf_filter fun tag _ he => ?_
    have hne : n.id ≠ snapshot := hnot
    simp [he, hne]
  | _ => rfl

/-- An operation changes nothing else than it should. -/
theorem footprint (h : o.Effect c p s s') (hs : s.IsSound) (hs' : s'.IsSound) :
    o.Footprint p s s' := by
  have hnodes := h.changesNodes hs
  have hfound : ∀ {id} {n m : Node}, s.node? id = some n → s'.node? id = some m →
      n ∈ s.nodes ∧ m ∈ s'.nodes ∧ m.id = n.id ∧ n.id = id := by
    intro id n m hn hm
    obtain ⟨hn, hid⟩ := node?_eq_some hn
    obtain ⟨hm, hmid⟩ := node?_eq_some hm
    exact ⟨hn, hm, hmid.trans hid.symm, hid⟩
  have hstays : ∀ {id}, s.hasNode id → s'.hasNode id →
      ∃ n ∈ s.nodes, ∃ m ∈ s'.nodes, n.id = id ∧ m.id = n.id := by
    intro id hid hid'
    obtain ⟨n, hn, rfl⟩ := hasNode_iff.1 hid
    obtain ⟨m, hm, he⟩ := hasNode_iff.1 hid'
    exact ⟨n, hn, m, hm, rfl, he⟩
  refine ⟨fun id hid => ?_, fun id hnot n m hn hm => ?_, fun id n m hn hm => ?_,
    fun id n m hn hm hp => ?_, fun id hid hid' hnot => ?_, fun id hid hid' hnot => ?_,
    fun id hid hid' hnot => ?_⟩
  · obtain ⟨n, hn, m, hm, rfl, hmid, hversion⟩ := hnodes.touched id hid
    exact ⟨n, m, node?_of_mem hs.tree.nodup hn, hmid ▸ node?_of_mem hs'.tree.nodup hm, hversion⟩
  · obtain ⟨hnode, hmnode, hmid, rfl⟩ := hfound hn hm
    exact hnodes.others n hnode hnot m hmnode hmid
  · obtain ⟨hn, hm, hmid, -⟩ := hfound hn hm
    have hrevision := h.revision hs hn hm hmid
    exact ⟨hrevision.kind_eq, hrevision.created_eq⟩
  · obtain ⟨hnode, hmnode, hmid, rfl⟩ := hfound hn hm
    exact (hnodes.parents n hnode m hmnode hmid).resolve_left hp
  · obtain ⟨n, hn, m, hm, rfl, he⟩ := hstays hid hid'
    exact h.pvsOf_eq hs hn hm he hnot
  · obtain ⟨n, hn, m, hm, rfl, he⟩ := hstays hid hid'
    exact h.itemsOf_eq_of_not hs hn hm he hnot
  · obtain ⟨n, hn, m, hm, rfl, he⟩ := hstays hid hid'
    exact h.tagsOf_eq hn hm he hnot

end Operation.Effect

/-! ### Golden snapshots of one configuration -/

namespace Sample

/-- A configuration with two committed snapshots, of which the first is golden. -/
def gilded : Archive :=
  perform "g" (.markGolden "s0" true) <|
    perform "r" (.saveSnapshot "c0" [item] (some "r") (some "second") (some "u")) committed

/-- The archive with two committed snapshots can be reached. -/
theorem reachable_gilded : ∃ ts, Service.Reachable ⟨gilded, ts⟩ := by
  obtain ⟨ts, h⟩ := reachable_committed
  obtain ⟨ts, h⟩ := reachable_perform h "r"
    (.saveSnapshot "c0" [item] (some "r") (some "second") (some "u"))
  exact reachable_perform h "g" (.markGolden "s0" true)

end Sample

namespace Service

/-- Whenever a call is answered, its operation has changed the tables that other clients left before
in what it should change, and in nothing else. -/
theorem Reachable.exact_footprint {a b : Archive} {between : Archive → Archive}
    {ts us : List (Transaction Answer)} {s : Store} {hold : Hold} {c : Context} {p : Policy}
    {o : Operation} {answer : Answer} (h : Reachable ⟨a, ts⟩)
    (hothers : Run ⟨a, ts⟩ ⟨between a, us⟩) (hs : (between a).store = some s)
    (hcall : a.run hold between (o.call c p) = (.ok answer, b)) :
    ∃ s', b = { between a with store := some s' } ∧ o.Footprint p s s' := by
  obtain ⟨s', hb, hsound, hsound', hok⟩ := h.call_eq_ok hothers hs hcall
  exact ⟨s', hb, (hok.effect hsound).footprint hsound hsound'⟩

/-- When the second snapshot is marked as golden instead of the first, both change, and the
configuration that they lie in does not. -/
theorem exact_footprint_gilded : ∃ s s', gilded.store = some s ∧
    (perform "h" (.markGolden "r0" true) gilded).store = some s' ∧
    (∀ id ∈ ["s0", "r0"], ∃ n m, s.node? id = some n ∧ s'.node? id = some m ∧
      m.version = n.version + 1) ∧
    s'.node? "c0" = s.node? "c0" := by
  obtain ⟨ts, h⟩ := reachable_gilded
  obtain ⟨s, hs⟩ : ∃ s, gilded.store = some s := Option.isSome_iff_exists.1 (by decide +kernel)
  obtain ⟨answer, hanswer⟩ := exists_answer gilded "h" (.markGolden "r0" true) (by decide +kernel)
  have hidle : (id gilded).store = some s := hs
  have hnobody : Run ⟨gilded, ts⟩ ⟨id gilded, ts⟩ := .refl
  obtain ⟨s', hb, hfootprint⟩ := h.exact_footprint hnobody hidle hanswer
  have hs' : (perform "h" (.markGolden "r0" true) gilded).store = some s' := congrArg _ hb
  have hsibling : ∀ s ∈ gilded.store, ∃ n ∈ s.node? "r0",
      (s.goldenSiblings n).map (·.id) = ["s0"] := by
    decide +kernel
  have hconfig : (gilded.store.bind (·.node? "c0")).isSome ∧
      ((perform "h" (.markGolden "r0" true) gilded).store.bind (·.node? "c0")).isSome := by
    decide +kernel
  obtain ⟨n, hn, hgolden⟩ := hsibling s hs
  rw [hs, hs', Option.bind_some, Option.bind_some] at hconfig
  obtain ⟨k, hk⟩ := Option.isSome_iff_exists.1 hconfig.1
  obtain ⟨k', hk'⟩ := Option.isSome_iff_exists.1 hconfig.2
  refine ⟨s, s', hs, hs', fun id hid => hfootprint.touched id ?_, ?_⟩
  · rcases List.mem_cons.1 hid with rfl | hid
    · exact .inr ⟨rfl, rfl, n, hn, by simp [hgolden]⟩
    · exact .inl (List.mem_singleton.1 hid)
  · have hnot : ¬(Operation.markGolden "r0" true).Touches policy s "c0" := by
      rintro (he | ⟨-, -, m, hm, hmem⟩)
      · exact absurd he (by decide)
      · obtain rfl := Option.some.inj (hm.symm.trans hn)
        rw [hgolden] at hmem
        exact absurd hmem (by decide)
    rw [hk, hk', hfootprint.others "c0" hnot k k' hk hk']

end Service

end SnapshotArchive
