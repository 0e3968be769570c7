import SnapshotArchive.Proofs.Copying.Isomorphic
import SnapshotArchive.Proofs.Committed

/-!
# Ordered trees

To clients the tree is ordered: each node has a list of children. The tables have positions, which
are given out as nodes are added and moved, are free again after a deletion, and are copied with
subtrees. Still no two children of a node ever have the same (`Service.Reachable.isOrdered`), so an
operation changes the lists as it would change those of an ordered tree (`Operation.Relists`).

* `Operation.Effect.isOrdered` : every operation keeps positions apart.
* `Operation.Effect.relists` : what it makes of the lists of children.
* `Service.Reachable.children_relisted` : what clients find of a call that is answered.
-/

namespace SnapshotArchive

open Store Archive Sample

/-! ### Copied subtrees -/

/-- The copies of selected nodes are placed one after the other. -/
theorem IsPlaced.position_eq {policy : CopyPolicy} {s : Store} {target : Id} {d : Id → Duplicate}
    {nodes : List Node} (hnodup : (nodes.map (·.id)).Nodup)
    (hplaced : ∀ before n after, nodes = before ++ n :: after →
      IsPlaced policy s target d before n) {n : Node} (hn : n ∈ nodes) :
    (d n.id).position = s.nextPosition target + (nodes.map (·.id)).idxOf n.id := by
  obtain ⟨before, after, rfl⟩ := List.append_of_mem hn
  have hbefore : n.id ∉ before.map (·.id) := by
    rw [List.map_append, List.map_cons] at hnodup
    exact fun hmem => (List.nodup_append.1 hnodup).2.2 _ hmem _ List.mem_cons_self rfl
  rw [(hplaced before n after rfl).position, List.map_append, List.map_cons,
    List.idxOf_append_of_notMem hbefore, List.idxOf_cons_self, List.length_map, Nat.add_zero]

/-- A checked relocation whose copies were stamped and appended is a copy in every clause. -/
theorem Store.IsRelocation.isCopied {c : Context} {policy : CopyPolicy} {user : String}
    {s s' : Store} {ids : List Id} {target : Id} {inPlace byName : Bool} {nodes : List Node}
    {t : Node} {d : Id → Duplicate} (h : s.IsRelocation ids target inPlace byName nodes t)
    (hs : s.IsSound) (hs' : s'.IsSound)
    (hbeside : s.IsBeside target (copies c user target s d nodes))
    (hplaced : ∀ before n after, nodes = before ++ n :: after →
      IsPlaced policy s target d before n)
    (he : s' = s.stamp c target user ++ copies c user target s d nodes) :
    s.IsCopied c user target nodes d s' where
  before := hs
  after := hs'
  found := h.hasNode_target
  mem _ := h.selection.mem
  nodup := h.selection.nodup_ids
  beside := hbeside
  position _ := IsPlaced.position_eq h.selection.nodup_ids hplaced
  eq := he

/-! ### Positions stay apart -/

namespace Operation.Effect

variable {c : Context} {p : Policy} {o : Operation} {s s' : Store}

/-- The effect of a call leaves the children of every node in strictly rising positions. -/
theorem isOrdered (h : o.Effect c p s s') (hs : s.IsSound) (hs' : s'.IsSound) (ho : s.IsOrdered) :
    s'.IsOrdered := by
  have hnodup := hs.tree.nodup
  cases h with
  | createNode => exact ho.addNode rfl rfl hs'.tree.nodup
  | createConfiguration => exact (ho.addNode rfl rfl hs'.tree.nodup).of_nodes_eq rfl
  | newSnapshot => exact (ho.addNode rfl rfl hs'.tree.nodup).of_nodes_eq rfl
  | updateNode hn =>
    exact ho.map (hasPlaceOf_replaceNode hnodup hn (by constructor <;> rfl))
  | updateConfiguration hn =>
    exact (ho.map (hasPlaceOf_replaceNode hnodup hn (by constructor <;> rfl))).of_nodes_eq rfl
  | overwriteDraft hdraft =>
    have hn := (draft?_eq_some hdraft).1
    exact (ho.map (hasPlaceOf_replaceNode hnodup hn (by constructor <;> rfl))).of_nodes_eq rfl
  | commitSnapshot hn =>
    exact ho.map (hasPlaceOf_replaceNode hnodup hn (by constructor <;> rfl))
  | renamePv => exact (ho.map fun n _ => hasPlaceOf_stamp c _ _ n).of_nodes_eq rfl
  | keepNodes => exact ho.map fun n _ => hasPlaceOf_stamp c _ _ n
  | markGolden => exact ho.map fun m _ => hasPlaceOf_mark c _ _ _ m
  | deleteNode => exact ho.removeNodes _
  | deleteNodes => exact ho.removeNodes _
  | @moveNodes ids target nodes t user hmoves helse =>
    obtain rfl := hmoves.selection.ids_eq
    have hmoved : (s.move c target user (nodes.map (·.id))).IsOrdered :=
      ho.move hnodup (fun n hn => hmoves.selection.mem hn) hmoves.selection.nodup_ids helse
    exact hmoved.map fun n _ => hasPlaceOf_stamp c target user n
  | copyNodes hcopies hbeside _ hplaced =>
    exact (hcopies.isCopied hs hs' hbeside hplaced rfl).isOrdered ho
  | addTag => exact ho
  | removeTag => exact ho
  | initialise => exact ho

end Operation.Effect

/-- So they are in every reachable store. -/
theorem Service.Reachable.isOrdered {sv : Service} (h : sv.Reachable) {s : Store}
    (hs : sv.archive.store = some s) : s.IsOrdered := by
  refine h.invariant (fun now n hn m hm p hnp hmp he => ?_) (fun hsound hok hordered => ?_) hs
  · rw [List.mem_singleton.1 hn, List.mem_singleton.1 hm]
  · exact (hok.effect hsound).isOrdered hsound (hok.isSound hsound) hordered

/-! ### Lists of children -/

/-- What a deletion of nodes makes of the lists of children: those that stay lose the nodes that
were selected. -/
def Store.Delists (s s' : Store) (ids : List Id) : Prop :=
  ∀ p, (s'.hasNode p ↔ s.hasNode p ∧ ∀ id ∈ ids, ¬s.LeadsTo p id) ∧
    (s'.hasNode p → s'.childIds p = (s.childIds p).filter (· ∉ ids))

/-- What an operation makes of the lists of children in an ordered tree. -/
def Operation.Relists (c : Context) (s s' : Store) : Operation → Prop
  | .createNode parent _ _ | .createConfiguration parent _ _ =>
    s'.childIds = Function.update s.childIds parent (s.childIds parent ++ [c.fresh 0])
  | .saveSnapshot config _ _ _ _ =>
    s'.childIds =
      if (s.draft? config).isSome then s.childIds
      else Function.update s.childIds config (s.childIds config ++ [c.fresh 0])
  | .moveNodes ids target _ => ∃ parent, (∀ id ∈ ids, id ∈ s.childIds parent) ∧
    s'.childIds =
      if parent = target then s.childIds
      else Function.update
        (Function.update s.childIds parent ((s.childIds parent).filter (· ∉ ids)))
        target (s.childIds target ++ ids)
  | .copyNodes ids target _ => ∃ r : Id → Renaming,
    (∀ p, s'.hasNode p ↔ s.hasNode p ∨ ∃ id ∈ ids, ∃ n ∈ s.subtree id, p = (r id).node n.id) ∧
    (∀ p, s.hasNode p → s'.childIds p =
      if p = target then s.childIds p ++ ids.map (fun id => (r id).node id) else s.childIds p) ∧
    ∀ id ∈ ids, ∀ n ∈ s.subtree id, s.hasNode ((r id).node n.id) = false ∧
      s'.childIds ((r id).node n.id) = (s.childIds n.id).map (r id).node
  | .deleteNode id => s.Delists s' [id]
  | .deleteNodes ids => s.Delists s' ids
  | .updateNode _ _ | .updateConfiguration _ _ | .renamePv _ _ _ _ | .commitSnapshot _ _ _ _ |
    .markGolden _ _ | .addTag _ _ | .removeTag _ _ | .initialise => s'.childIds = s.childIds

namespace Store

variable {c : Context} {user : String} {s s' : Store} {target : Id} {nodes : List Node}

/-- A row replaced in its place changes no list of children. -/
theorem childIds_replaceNode (hs : s.IsTree) {n m : Node} (hn : n ∈ s.nodes)
    (hm : m.HasPlaceOf n) : (s.replaceNode m).childIds = s.childIds :=
  childIds_map (hasPlaceOf_replaceNode hs.nodup hn hm)

/-- A stamp changes no list of children. -/
theorem childIds_stamp (id : Id) : (s.stamp c id user).childIds = s.childIds :=
  childIds_map fun n _ => hasPlaceOf_stamp c id user n

/-- Removing all that lies below some nodes takes just them off their lists. -/
theorem IsAllBelow.delists (hs : s.IsTree) (ho : s.IsOrdered) {ids gone : List Id}
    (h : s.IsAllBelow ids gone) : s.Delists (s.removeNodes gone) ids := by
  intro p
  have hstays : (s.removeNodes gone).hasNode p ↔ s.hasNode p ∧ p ∉ gone := by
    simp only [hasNode_iff, mem_nodes_removeNodes_iff]
    constructor
    · rintro ⟨n, ⟨hn, hgone⟩, rfl⟩
      exact ⟨⟨n, hn, rfl⟩, hgone⟩
    · rintro ⟨⟨n, hn, rfl⟩, hgone⟩
      exact ⟨n, ⟨hn, hgone⟩, rfl⟩
  refine ⟨?_, fun hp => childIds_removeNodes ho hs h (hstays.1 hp).2⟩
  rw [hstays, h p]
  refine and_congr_right fun hp => ?_
  simp [hp]

/-- The nodes of a selection are on the list of the parent they share. -/
theorem IsSelection.mem_childIds {ids : List Id} (h : s.IsSelection ids nodes) {p : Id}
    (hp : ∀ n ∈ nodes, n.parent = some p) : ∀ id ∈ ids, id ∈ s.childIds p := by
  intro id hid
  obtain ⟨n, hn, rfl⟩ := h.exists_of_mem hid
  exact List.mem_map_of_mem (mem_children_iff.2 ⟨h.mem hn, hp n hn⟩)

/-- Moved nodes leave their parent and come last in the target. -/
theorem childIds_move (hs : s.IsTree) (ho : s.IsOrdered) {ids : List Id}
    (h : s.IsSelection ids nodes) {p : Id} (hp : ∀ n ∈ nodes, n.parent = some p)
    (hne : p ≠ target) : (s.move c target user ids).childIds =
      Function.update (Function.update s.childIds p ((s.childIds p).filter (· ∉ ids)))
        target (s.childIds target ++ ids) := by
  have hmem : ∀ n ∈ nodes, n ∈ s.nodes := fun n hn => h.mem hn
  have helse : ∀ n ∈ nodes, n.parent ≠ some target := by
    intro n hn he
    exact hne (Option.some.inj ((hp n hn).symm.trans he))
  obtain rfl := h.ids_eq
  funext q
  by_cases hq : q = target
  · rw [hq, Function.update_self, childIds, children_move_target ho hs.nodup hmem h.nodup helse,
      List.map_append, List.map_map]
    rfl
  · have hlist : (s.move c target user (nodes.map (·.id))).childIds q =
        (s.childIds q).filter (· ∉ nodes.map (·.id)) := by
      rw [childIds, children_move ho hs.nodup hmem hq, childIds, List.filter_map]
      rfl
    rw [Function.update_of_ne hq, hlist]
    by_cases hqp : q = p
    · rw [hqp, Function.update_self]
    · rw [Function.update_of_ne hqp]
      refine List.filter_eq_self.2 fun id hid => ?_
      -- A child of another node is not among the selected ones.
      obtain ⟨m, hm, rfl⟩ := List.mem_map.1 hid
      obtain ⟨hm, hmq⟩ := mem_children_iff.1 hm
      rw [decide_eq_true_eq]
      intro hselected
      obtain ⟨n, hn, he⟩ := List.mem_map.1 hselected
      rw [← eq_of_id_eq hs.nodup (hmem n hn) hm he, hp n hn] at hmq
      exact hqp (Option.some.inj hmq).symm

namespace IsCopied

variable {d : Id → Duplicate} (h : s.IsCopied c user target nodes d s') (ho : s.IsOrdered)

include h ho

/-- An older node keeps its list, and the target has the copies behind it. -/
theorem childIds_old {p : Id} (hp : s.hasNode p) : s'.childIds p =
    if p = target then s.childIds p ++ nodes.map (fun n => (d n.id).node n.id)
    else s.childIds p := by
  have hstamp : ((s.stamp c target user).children p).map (·.id) = s.childIds p :=
    congrFun (childIds_stamp target) p
  split
  · rename_i he
    subst he
    rw [childIds, h.children_target ho, List.map_append, hstamp, List.map_map]
    rfl
  · rename_i hne
    rw [childIds, h.children_old ho hp hne, hstamp]

/-- The list of a copied node is the list of its original, copied. -/
theorem childIds_copy {source n : Node} (hsource : source ∈ nodes)
    (hn : n ∈ s.subtree source.id) :
    s'.childIds ((d source.id).node n.id) = (s.childIds n.id).map (d source.id).node := by
  rw [childIds, h.children_copy ho hsource hn, childIds, List.map_map, List.map_map]
  rfl

omit ho in
/-- A node after a copy is one from before or the copy of a node below a source. -/
theorem hasNode_iff_or (p : Id) : s'.hasNode p ↔
    s.hasNode p ∨ ∃ source ∈ nodes, ∃ n ∈ s.subtree source.id, p = (d source.id).node n.id := by
  constructor
  · intro hp
    obtain ⟨m, hm, rfl⟩ := hasNode_iff.1 hp
    rw [h.eq] at hm
    rcases List.mem_append.1 hm with hm | hm
    · obtain ⟨n, hn, hplace⟩ := mem_nodes_stamp hm
      exact .inl (hplace.id ▸ hasNode_of_mem hn)
    · obtain ⟨source, hsource, n, hn, rfl⟩ := mem_nodes_copies_iff.1 hm
      exact .inr ⟨source, hsource, n, hn, Duplicate.id_copyOf n⟩
  · rintro (hp | ⟨source, hsource, n, hn, rfl⟩)
    · obtain ⟨n, hn, rfl⟩ := hasNode_iff.1 hp
      obtain ⟨m, hm, hplace⟩ := exists_mem_stamp c target user hn
      exact hasNode_iff.2 ⟨m, h.eq ▸ List.mem_append_left _ hm, hplace.id⟩
    · exact hasNode_iff.2 ⟨_, h.copy_mem hsource hn, Duplicate.id_copyOf n⟩

end IsCopied

end Store

namespace Operation.Effect

variable {c : Context} {p : Policy} {o : Operation} {s s' : Store}

/-- An operation makes of the lists of children what it would make of those of an ordered tree. -/
theorem relists (h : o.Effect c p s s') (hs : s.IsSound) (hs' : s'.IsSound) (ho : s.IsOrdered) :
    o.Relists c s s' := by
  have htree := hs.tree
  cases h with
  | createNode => exact childIds_addNode ho rfl rfl hs'.tree.nodup
  | createConfiguration => exact childIds_addNode ho rfl rfl hs'.tree.nodup
  | newSnapshot _ _ hnone =>
    show _ = ite _ _ _
    rw [hnone, Option.isSome_none, if_neg Bool.false_ne_true]
    exact childIds_addNode ho rfl rfl hs'.tree.nodup
  | overwriteDraft hdraft =>
    show _ = ite _ _ _
    rw [hdraft, Option.isSome_some, if_pos rfl]
    exact childIds_replaceNode htree (draft?_eq_some hdraft).1 (by constructor <;> rfl)
  | updateNode hn => exact childIds_replaceNode htree hn (by constructor <;> rfl)
  | updateConfiguration hn => exact childIds_replaceNode htree hn (by constructor <;> rfl)
  | commitSnapshot hn => exact childIds_replaceNode htree hn (by constructor <;> rfl)
  | renamePv => exact childIds_stamp _
  | markGolden => exact childIds_map fun m _ => hasPlaceOf_mark c _ _ _ m
  | deleteNode _ _ hgone => exact hgone.delists htree ho
  | deleteNodes _ hgone => exact hgone.delists htree ho
  | @moveNodes ids target nodes t user hmoves helse =>
    obtain ⟨q, hq⟩ := hmoves.selection.exists_parent htree
    refine ⟨q, hmoves.selection.mem_childIds hq, ?_⟩
    have hne : q ≠ target := by
      rintro rfl
      obtain ⟨n, hn⟩ := hmoves.selection.exists_mem
      exact helse n hn (hq n hn)
    rw [if_neg hne, childIds_stamp]
    exact childIds_move htree ho hmoves.selection hq hne
  | @keepNodes ids target nodes t user hmoves hthere =>
    refine ⟨target, hmoves.selection.mem_childIds hthere, ?_⟩
    rw [if_pos rfl]
    exact childIds_stamp target
  | @copyNodes ids target nodes t user d hcopies hbeside _ hplaced =>
    have hcopied := hcopies.isCopied hs hs' hbeside hplaced rfl
    obtain rfl := hcopies.selection.ids_eq
    refine ⟨fun id => (d id).toRenaming, fun q => ?_, fun q hq => ?_, ?_⟩
    · simpa using hcopied.hasNode_iff_or q
    · rw [List.map_map]
      exact hcopied.childIds_old ho hq
    · intro id hid n hn
      obtain ⟨source, hsource, rfl⟩ := List.mem_map.1 hid
      exact ⟨hcopied.new hsource hn, hcopied.childIds_copy ho hsource hn⟩
  | addTag => rfl
  | removeTag => rfl
  | initialise => rfl

end Operation.Effect

/-- Clients read the children of a node in the order of its list. -/
theorem Store.childNodes_map_id {s : Store} {p : Id} (hp : s.hasNode p) :
    (s.childNodes p).map (List.map (·.id)) = .ok (s.childIds p) := by
  obtain ⟨n, hn⟩ := Option.isSome_iff_exists.1 hp
  rw [childNodes, require_eq_ok_iff.2 hn]
  rfl

namespace Sample

/-- The committed snapshot has got a tag. -/
def tagged : Archive :=
  perform "t" (.addTag "s0" ⟨some "t", none, none, none, none⟩) committed

/-- The tagged store can be reached. -/
theorem reachable_tagged : ∃ ts, Service.Reachable ⟨tagged, ts⟩ := by
  obtain ⟨ts, h⟩ := reachable_committed
  exact reachable_perform h "t" (.addTag "s0" ⟨some "t", none, none, none, none⟩)

/-- Copying its configuration is answered. -/
theorem exists_copy : ∃ ts s answer, Service.Reachable ⟨tagged, ts⟩ ∧ tagged.store = some s ∧
    tagged.run .nothing id
      ((Operation.copyNodes ["c0"] rootId (some "u")).call (supply "e") policy) =
        (.ok answer, captured) := by
  obtain ⟨ts, h⟩ := reachable_tagged
  obtain ⟨s, hs⟩ : ∃ s, tagged.store = some s := Option.isSome_iff_exists.1 (by decide +kernel)
  obtain ⟨answer, hanswer⟩ := exists_answer tagged "e" (.copyNodes ["c0"] rootId (some "u"))
    (by decide +kernel)
  exact ⟨ts, s, answer, h, hs, hanswer⟩

end Sample

namespace Service

/-- Whenever a call is answered, the tables that it leaves have the lists of children that its
operation makes of the lists in the tables that other clients left before. -/
theorem Reachable.children_relisted {a b : Archive} {between : Archive → Archive}
    {ts us : List (Transaction Answer)} {s : Store} {hold : Hold} {c : Context} {p : Policy}
    {o : Operation} {answer : Answer} (h : Reachable ⟨a, ts⟩)
    (hothers : Run ⟨a, ts⟩ ⟨between a, us⟩) (hs : (between a).store = some s)
    (hcall : a.run hold between (o.call c p) = (.ok answer, b)) :
    ∃ s', b = { between a with store := some s' } ∧ o.Relists c s s' := by
  have hreach : Reachable ⟨between a, us⟩ := h.run hothers
  obtain ⟨s', hb, hsound, hsound', hok⟩ := h.call_eq_ok hothers hs hcall
  exact ⟨s', hb, (hok.effect hsound).relists hsound hsound' (hreach.isOrdered hs)⟩

/-- A copied configuration comes last in the root, and has the copy of its snapshot. -/
theorem children_relisted_captured : ∃ s' r, captured.store = some s' ∧
    (s'.childNodes rootId).map (List.map (·.id)) = .ok ["a0", Renaming.node r "c0"] ∧
    s'.childIds (r.node "c0") = [r.node "s0"] := by
  obtain ⟨ts, s, answer, h, hs, hanswer⟩ := exists_copy
  have hbefore : ∀ s ∈ tagged.store, s.childIds rootId = ["a0"] ∧ s.childIds "c0" = ["s0"] ∧
      s.hasNode rootId ∧ "c0" ∈ s.subtreeIds "c0" := by
    decide +kernel
  obtain ⟨hroot, hconfig, hthere, htop⟩ := hbefore s hs
  have hidle : (id tagged).store = some s := hs
  have hnobody : Run ⟨tagged, ts⟩ ⟨id tagged, ts⟩ := .refl
  obtain ⟨s', hcaptured, r, hnodes, hold, hcopies⟩ :=
    h.children_relisted hnobody hidle hanswer
  refine ⟨s', r "c0", congrArg Archive.store hcaptured, ?_, ?_⟩
  · rw [childNodes_map_id ((hnodes rootId).2 (.inl hthere)), hold rootId hthere, if_pos rfl, hroot]
    rfl
  · obtain ⟨n, hn, hid⟩ := List.mem_map.1 htop
    have hcopy := (hcopies "c0" List.mem_cons_self n hn).2
    rw [hid, hconfig] at hcopy
    exact hcopy

end Service

end SnapshotArchive
