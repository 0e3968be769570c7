import SnapshotArchive.Proofs.Moving
import SnapshotArchive.Proofs.Effects.Basic

/-!
# Effects of operations on nodes

The loops that move and delete selected nodes one after the other come to one change of the tables.
A moved node gets the position behind the children that the target had and the nodes moved before
it. A subtree that is deleted is read off the store that the deletions before it left, in which the
links between the nodes that are left are what they were.

* `Store.reparent_eq`, `Store.removeSubtrees_eq` : the two loops.
* `createNode_effect`, `updateNode_effect`, `deleteNode_effect`, `deleteNodes_effect`,
  `moveNodes_effect`, `copyNodes_effect` : the operations.
-/

namespace SnapshotArchive

open Store

namespace Store

section

variable {s t : Store}

/-! ### Single nodes -/

/-- Adding a child for a named author, under a new identifier, puts it behind the other nodes. -/
theorem addNode_eq {c : Context} {parent : Node} {name : String} {content : Content} {draft : Bool}
    {properties : Properties} {user : Option String}
    (h : s.addNode c (c.fresh 0) parent name content draft properties user = .ok t) :
    ∃ author, user = some author ∧ s.hasNode (c.fresh 0) = false ∧
      parent.kind.mayHold content.kind ∧ t = { s with
        nodes := s.nodes ++ [s.newNode c parent.id name content draft properties author] } := by
  obtain ⟨_, hchild, h⟩ := bind_eq_ok_iff.1 h
  obtain ⟨_, -, h⟩ := ite_bind_eq_ok h
  obtain ⟨author, hauthor, h⟩ := bind_eq_ok_iff.1 h
  obtain ⟨hid, -, -, rfl⟩ := insertNode_eq_ok_iff.1 h
  exact ⟨author, present_eq_ok_iff.1 hauthor, hid, demand_eq_ok_iff.1 hchild, rfl⟩

/-- A change that succeeds puts the changed node into its place. -/
theorem changeNode_eq_replaceNode (hnodup : (s.nodes.map (·.id)).Nodup) {n : Node}
    (hn : n ∈ s.nodes) {f : Node → Node} (hid : (f n).id = n.id)
    (h : s.changeNode n.id f = .ok t) : t = s.replaceNode (f n) := by
  rw [changeNode, node?_of_mem hnodup hn] at h
  simp only [demand_bind_eq_ok_iff, pure, Except.pure, Except.ok.injEq] at h
  obtain ⟨-, -, rfl⟩ := h
  exact mapNode_eq_replaceNode hnodup hn hid

/-! ### Positions -/

/-- A bound on what comes next is a bound on all positions. -/
theorem foldl_max_le_iff {l : List Node} {top k : Nat} :
    l.foldl (fun top n => max top (n.position + 1)) top ≤ k ↔
      top ≤ k ∧ ∀ n ∈ l, n.position < k := by
  induction l generalizing top with
  | nil => simp
  | cons n l ih =>
    rw [List.foldl_cons, ih, Nat.max_le, List.forall_mem_cons, and_assoc, Nat.succ_le_iff]

/-- The next position is the least one behind all children. -/
theorem nextPosition_le_iff {parent : Id} {k : Nat} :
    s.nextPosition parent ≤ k ↔ ∀ n ∈ s.nodes, n.parent = some parent → n.position < k := by
  rw [nextPosition, foldl_max_le_iff]
  simp

/-- A new child comes behind all others. -/
theorem lt_nextPosition {parent : Id} {n : Node} (hn : n ∈ s.nodes) (hp : n.parent = some parent) :
    n.position < s.nextPosition parent :=
  nextPosition_le_iff.1 (Nat.le_refl _) n hn hp

/-- A node that comes in from elsewhere comes last. -/
theorem nextPosition_replaceNode {target : Id} {n m : Node} (hn : n ∈ s.nodes) (hid : m.id = n.id)
    (hp : m.parent = some target) (hposition : m.position = s.nextPosition target) :
    (s.replaceNode m).nextPosition target = s.nextPosition target + 1 := by
  refine Nat.le_antisymm (nextPosition_le_iff.2 fun o ho hop => ?_) ?_
  · rcases mem_replaceNode_iff.1 ho with ⟨rfl, -⟩ | ⟨ho, -⟩
    · omega
    · have hlt := lt_nextPosition ho hop
      omega
  · have hlt := lt_nextPosition (mem_replaceNode_self hn hid) hp
    omega

/-! ### Moving -/

/-- The nodes of a store in which one node was moved, when others are moved after it. -/
theorem move_replaceNode {c : Context} {target : Id} {user : String} {n : Node} {ids : List Id}
    (hn : n ∈ s.nodes) (hids : n.id ∉ ids) :
    (s.replaceNode (n.movedTo c target user (s.nextPosition target))).move c target user ids =
      { s with nodes := s.nodes.map fun o =>
          if o.id = n.id then n.movedTo c target user (s.nextPosition target)
          else if o.id ∈ ids then
            o.movedTo c target user (s.nextPosition target + (ids.idxOf o.id + 1))
          else o } := by
  have hnext := nextPosition_replaceNode hn (m := n.movedTo c target user (s.nextPosition target))
    rfl rfl rfl
  simp only [move, hnext]
  simp only [replaceNode, List.map_map]
  congr 1
  refine List.map_congr_left fun o _ => ?_
  rw [Function.comp_apply]
  by_cases ho : o.id = n.id
  · have hself : o.id = (n.movedTo c target user (s.nextPosition target)).id := ho
    rw [if_pos hself, if_pos ho]
    exact if_neg hids
  · have hother : o.id ≠ (n.movedTo c target user (s.nextPosition target)).id := ho
    rw [if_neg hother, if_neg ho, Nat.add_assoc, Nat.add_comm 1]

/-- Nodes that lie elsewhere are all moved. -/
theorem reparent_eq {c : Context} {target : Id} {user : String} {nodes : List Node}
    (hs : (s.nodes.map (·.id)).Nodup) (hmem : ∀ n ∈ nodes, n ∈ s.nodes)
    (hnodup : (nodes.map (·.id)).Nodup) (helse : ∀ n ∈ nodes, n.parent ≠ some target)
    (h : reparent c target (some user) nodes s = .ok t) :
    t = s.move c target user (nodes.map (·.id)) := by
  induction nodes generalizing s with
  | nil =>
    obtain rfl := Except.ok.inj h
    simp [move]
  | cons n ns ih =>
    obtain ⟨hhead, hnodup⟩ := List.nodup_cons.1 hnodup
    have hn := hmem n List.mem_cons_self
    rw [reparent, if_neg (helse n List.mem_cons_self)] at h
    obtain ⟨author, hauthor, h⟩ := bind_eq_ok_iff.1 h
    obtain rfl := Option.some.inj (present_eq_ok_iff.1 hauthor)
    obtain ⟨s₁, hchange, h⟩ := bind_eq_ok_iff.1 h
    obtain rfl : s₁ = s.replaceNode (n.movedTo c target user (s.nextPosition target)) :=
      changeNode_eq_replaceNode hs hn rfl hchange
    have hrest := ih (by rwa [map_id_replaceNode]) (fun o ho => ?_) hnodup
      (fun o ho => helse o (List.mem_cons_of_mem _ ho)) h
    · rw [hrest, move_replaceNode hn hhead, move]
      congr 1
      refine List.map_congr_left fun o ho => ?_
      by_cases hid : o.id = n.id
      · obtain rfl := eq_of_id_eq hs ho hn hid
        simp
      · have hmem : o.id ∈ (n :: ns).map (·.id) ↔ o.id ∈ ns.map (·.id) := by simp [hid]
        rw [if_neg hid]
        simp only [hmem]
        rw [List.map_cons, List.idxOf_cons_ne _ (Ne.symm hid)]
    · have hne : o.id ≠ n.id := fun he => hhead (List.mem_map.2 ⟨o, ho, he⟩)
      exact mem_replaceNode_iff.2 (.inr ⟨hmem o (List.mem_cons_of_mem _ ho), hne⟩)

/-- Nodes that lie in the target already stay as they are. -/
theorem reparent_eq_self {c : Context} {target : Id} {user : Option String} {nodes : List Node}
    (hthere : ∀ n ∈ nodes, n.parent = some target)
    (h : reparent c target user nodes s = .ok t) : t = s := by
  induction nodes with
  | nil => exact (Except.ok.inj h).symm
  | cons n ns ih =>
    rw [reparent, if_pos (hthere n List.mem_cons_self)] at h
    exact ih (fun o ho => hthere o (List.mem_cons_of_mem _ ho)) h

/-! ### Deleting -/

/-- Only what is at or below a node is in its subtree, whether the node is there or not. -/
theorem IsTree.isAllBelow_subtreeIds (hs : s.IsTree) (id : Id) :
    s.IsAllBelow [id] (s.subtreeIds id) := by
  intro x
  cases hn : s.node? id with
  | some n =>
    obtain ⟨hmem, rfl⟩ := node?_eq_some hn
    simp [hs.mem_subtreeIds_iff hmem]
  | none =>
    have hnone : s.subtreeIds id = [] := by simp [subtreeIds, subtree, hn]
    have hhas : ∀ n ∈ s.nodes, n.id ≠ id := fun n hn' =>
      not_mem_of_hasNode_eq_false (by simp [hasNode, hn]) hn'
    simp only [hnone, List.not_mem_nil, List.mem_singleton, exists_eq_left, false_iff, not_and]
    intro hx hup
    -- The last link to a node that is not there would name a parent that is not there.
    obtain ⟨n, hn', rfl⟩ := hasNode_iff.1 hx
    rcases Relation.ReflTransGen.cases_tail hup with he | ⟨y, -, ⟨m, hm, -, hp⟩⟩
    · exact hhas n hn' he.symm
    · obtain ⟨q, hq, hqid, -⟩ := hs.contained m hm id hp
      exact hhas q hq hqid

/-- A subtree has no node twice, whether the node is there or not. -/
theorem IsTree.nodup_subtreeIds (hs : s.IsTree) (id : Id) : (s.subtreeIds id).Nodup := by
  cases hn : s.node? id with
  | some n =>
    obtain ⟨hmem, rfl⟩ := node?_eq_some hn
    exact hs.subtreeIds_nodup hmem
  | none => simp [subtreeIds, subtree, hn]

/-- What lies below a deleted node is deleted. -/
theorem IsAllBelow.closed {roots gone : List Id} (h : s.IsAllBelow roots gone) {n : Node} {p : Id}
    (hn : n ∈ s.nodes) (hp : n.parent = some p) (hgone : p ∈ gone) : n.id ∈ gone := by
  obtain ⟨-, r, hr, hup⟩ := (h p).1 hgone
  exact (h n.id).2 ⟨hasNode_of_mem hn, r, hr, .head ⟨n, hn, rfl, hp⟩ hup⟩

/-- Links between nodes that stay are what they were. -/
theorem IsAllBelow.leadsTo_removeNodes_iff {roots gone : List Id} (h : s.IsAllBelow roots gone)
    {x y : Id} (hx : x ∉ gone) : (s.removeNodes gone).LeadsTo x y ↔ s.LeadsTo x y := by
  constructor
  · refine Relation.ReflTransGen.mono ?_ x y
    rintro a b ⟨n, hn, hid, hp⟩
    exact ⟨n, (mem_nodes_removeNodes_iff.1 hn).1, hid, hp⟩
  · intro hup
    induction hup using Relation.ReflTransGen.head_induction_on with
    | refl => exact .refl
    | head hlink _ ih =>
      obtain ⟨n, hn, rfl, hp⟩ := hlink
      refine .head ⟨n, mem_nodes_removeNodes_iff.2 ⟨hn, hx⟩, rfl, hp⟩ (ih fun hz => hx ?_)
      exact h.closed hn hp hz

/-- Deleting no node does nothing. -/
theorem removeNodes_nil : s.removeNodes [] = s := by
  have hitems : s.items.filter (fun i => decide (i.snapshot ∉ []) &&
      !s.pvs.any fun pv => decide (pv.id = i.pv) && decide (pv.config ∈ [])) = s.items := by
    refine List.filter_eq_self.2 fun i _ => ?_
    simp
  rw [removeNodes, hitems]
  simp

/-- Nodes that are deleted one after the other are deleted at once. -/
theorem removeNodes_removeNodes (ids more : List Id) :
    (s.removeNodes ids).removeNodes more = s.removeNodes (ids ++ more) := by
  have hitems : ∀ i : Item,
      ((decide (i.snapshot ∉ more) && !(s.removeNodes ids).pvs.any fun pv =>
          decide (pv.id = i.pv) && decide (pv.config ∈ more)) &&
        (decide (i.snapshot ∉ ids) && !s.pvs.any fun pv =>
          decide (pv.id = i.pv) && decide (pv.config ∈ ids))) =
      (decide (i.snapshot ∉ ids ++ more) && !s.pvs.any fun pv =>
        decide (pv.id = i.pv) && decide (pv.config ∈ ids ++ more)) := by
    intro i
    rw [Bool.eq_iff_iff]
    simp only [removeNodes, List.any_filter]
    simp
    grind
  simp only [removeNodes, List.filter_filter] at hitems ⊢
  simp only [hitems]
  simp [Bool.and_comm]

/-- Subtrees deleted one after the other are deleted at once, and no node is counted twice. -/
theorem removeSubtrees_eq {nodes : List Node} {count : Nat} (hs : s.IsSound)
    (h : removeSubtrees nodes s = .ok (count, t)) :
    ∃ gone, s.IsAllBelow (nodes.map (·.id)) gone ∧ gone.Nodup ∧ count = gone.length ∧
      t = s.removeNodes gone := by
  induction nodes generalizing s count with
  | nil =>
    obtain ⟨rfl, rfl⟩ := Prod.mk.inj (Except.ok.inj h)
    exact ⟨[], fun x => by simp, .nil, rfl, removeNodes_nil.symm⟩
  | cons n ns ih =>
    obtain ⟨⟨k, s₁⟩, hn, h⟩ := bind_eq_ok_iff.1 h
    obtain ⟨⟨more, s₂⟩, hns, h⟩ := bind_eq_ok_iff.1 h
    obtain ⟨rfl, rfl⟩ := Prod.mk.inj (Except.ok.inj h)
    have hsound := hs.edit (removeSubtree_edit hs hn)
    obtain ⟨-, hn⟩ := demand_bind_eq_ok_iff.1 hn
    obtain ⟨rfl, rfl⟩ := Prod.mk.inj (Except.ok.inj hn)
    obtain ⟨gone, hgone, hnodup, rfl, rfl⟩ := ih hsound hns
    have hfirst := hs.tree.isAllBelow_subtreeIds n.id
    have hapart : List.Disjoint (s.subtreeIds n.id) gone := by
      intro x hx hlater
      obtain ⟨m, hm, rfl⟩ := hasNode_iff.1 ((hgone x).1 hlater).1
      exact (mem_nodes_removeNodes_iff.1 hm).2 hx
    refine ⟨s.subtreeIds n.id ++ gone, fun x => ?_,
      (hs.tree.nodup_subtreeIds n.id).append hnodup hapart, List.length_append.symm,
      removeNodes_removeNodes _ _⟩
    by_cases hx : x ∈ s.subtreeIds n.id
    · have hall := (hfirst x).1 hx
      simp only [List.mem_singleton, exists_eq_left] at hall
      simp [hx, hall.1, hall.2]
    · -- What is left is at or below one of the others as it was before.
      have hhas : (s.removeNodes (s.subtreeIds n.id)).hasNode x ↔ s.hasNode x := by
        simp only [hasNode_iff, mem_nodes_removeNodes_iff]
        constructor
        · rintro ⟨m, ⟨hm, -⟩, rfl⟩
          exact ⟨m, hm, rfl⟩
        · rintro ⟨m, hm, rfl⟩
          exact ⟨m, ⟨hm, hx⟩, rfl⟩
      have hnot : s.hasNode x → ¬s.LeadsTo x n.id := fun hxs hup =>
        hx ((hfirst x).2 ⟨hxs, n.id, List.mem_cons_self, hup⟩)
      rw [List.mem_append, hgone x, hhas]
      simp only [hx, false_or, hfirst.leadsTo_removeNodes_iff hx, List.map_cons, List.mem_cons]
      constructor
      · rintro ⟨hxs, r, hr, hup⟩
        exact ⟨hxs, r, .inr hr, hup⟩
      · rintro ⟨hxs, r, rfl | hr, hup⟩
        · exact absurd hup (hnot hxs)
        · exact ⟨hxs, r, hr, hup⟩

end

end Store

/-! ### The operations -/

section

variable {c : Context} {p : Policy} {s₀ s s' : Store}

/-- What creating a node makes of the tables. -/
theorem createNode_effect {parent : Id} {form : NodeForm} {user : Option String}
    {t : Transaction Node} {answer : Node} (hplan : createNode c parent form user s₀ = .ok t)
    (ht : t s = .ok (answer, s')) : (Operation.createNode parent form user).Effect c p s s' := by
  obtain ⟨hk, hplan⟩ := demand_bind_eq_ok_iff.1 hplan
  obtain ⟨name, hname, hplan⟩ := bind_eq_ok_iff.1 hplan
  obtain rfl := Except.ok.inj hplan
  obtain ⟨q, hq, ht⟩ := bind_eq_ok_iff.1 ht
  obtain ⟨s₁, hadd, ht⟩ := bind_eq_ok_iff.1 ht
  obtain ⟨-, rfl⟩ := answerNode_eq_ok_iff.1 ht
  obtain ⟨hmem, rfl⟩ := node?_eq_some (require_eq_ok_iff.1 hq)
  obtain ⟨writer, hwriter, hnew, hholds, rfl⟩ := addNode_eq hadd
  exact .createNode hmem hholds hk hname hwriter hnew

variable (hs : s.IsSound)

include hs

/-- What updating a node makes of the tables. -/
theorem updateNode_effect {form : NodeForm} {keepTime : Bool} {t : Transaction Node}
    {answer : Node} (hplan : updateNode c form keepTime s₀ = .ok t)
    (ht : t s = .ok (answer, s')) : (Operation.updateNode form keepTime).Effect c p s s' := by
  obtain ⟨name, hname, hplan⟩ := bind_eq_ok_iff.1 hplan
  obtain rfl := Except.ok.inj hplan
  obtain ⟨n, hn, ht⟩ := bind_eq_ok_iff.1 ht
  obtain ⟨hversion, ht⟩ := demand_bind_eq_ok_iff.1 ht
  obtain ⟨hkind, ht⟩ := demand_bind_eq_ok_iff.1 ht
  obtain ⟨-, ht⟩ := demand_bind_eq_ok_iff.1 ht
  obtain ⟨_, hsnapshot, ht⟩ := bind_eq_ok_iff.1 ht
  obtain ⟨_, -, ht⟩ := ite_bind_eq_ok ht
  obtain ⟨s₁, hchange, ht⟩ := bind_eq_ok_iff.1 ht
  obtain ⟨-, rfl⟩ := answerNode_eq_ok_iff.1 ht
  obtain ⟨hn, hid⟩ := node?_eq_some (require_eq_ok_iff.1 hn)
  obtain rfl := changeNode_eq_replaceNode hs.tree.nodup hn rfl hchange
  exact .updateNode hn hid hversion hkind hname hsnapshot

omit hs in
/-- A node that is deleted is not the root, and goes with all below it. -/
theorem deleteNode_eq {id : Id} {t : Transaction Nat} {count : Nat}
    (hplan : deleteNode id s₀ = .ok t) (ht : t s = .ok (count, s')) :
    ∃ n ∈ s.nodes, n.id = id ∧ id ≠ rootId ∧ count = (s.subtreeIds id).length ∧
      s' = s.removeNodes (s.subtreeIds id) := by
  obtain rfl := Except.ok.inj hplan
  obtain ⟨n, hn, ht⟩ := bind_eq_ok_iff.1 ht
  obtain ⟨hroot, ht⟩ := demand_bind_eq_ok_iff.1 ht
  obtain ⟨rfl, rfl⟩ := Prod.mk.inj (Except.ok.inj ht)
  obtain ⟨hmem, rfl⟩ := node?_eq_some (require_eq_ok_iff.1 hn)
  exact ⟨n, hmem, rfl, hroot, rfl, rfl⟩

/-- What deleting a node makes of the tables. -/
theorem deleteNode_effect {id : Id} {t : Transaction Nat} {count : Nat}
    (hplan : deleteNode id s₀ = .ok t) (ht : t s = .ok (count, s')) :
    (Operation.deleteNode id).Effect c p s s' := by
  obtain ⟨n, hn, rfl, hroot, -, rfl⟩ := deleteNode_eq hplan ht
  exact .deleteNode hn hroot (hs.tree.isAllBelow_subtreeIds n.id)

omit hs in
/-- A batch of nodes that is deleted is a selection, and goes subtree by subtree. -/
theorem deleteNodes_eq {ids : List Id} {t : Transaction Nat} {count : Nat}
    (hplan : deleteNodes ids s₀ = .ok t) (ht : t s = .ok (count, s')) :
    ∃ nodes, s.IsSelection ids nodes ∧ removeSubtrees nodes s = .ok (count, s') := by
  obtain ⟨planned, -, hplan⟩ := bind_eq_ok_iff.1 hplan
  obtain rfl := Except.ok.inj hplan
  obtain ⟨nodes, hcheck, ht⟩ := bind_eq_ok_iff.1 ht
  obtain ⟨-, ht⟩ := refuseFound_bind_eq_ok_iff.1 ht
  exact ⟨nodes, checkSelection_eq_ok_iff.1 (recheck_eq_ok_iff.1 hcheck), ht⟩

/-- What deleting several nodes makes of the tables. -/
theorem deleteNodes_effect {ids : List Id} {t : Transaction Nat} {count : Nat}
    (hplan : deleteNodes ids s₀ = .ok t) (ht : t s = .ok (count, s')) :
    (Operation.deleteNodes ids).Effect c p s s' := by
  obtain ⟨nodes, hselection, hremove⟩ := deleteNodes_eq hplan ht
  obtain ⟨gone, hgone, -, -, rfl⟩ := removeSubtrees_eq hs hremove
  exact .deleteNodes hselection (hselection.ids_eq ▸ hgone)

/-- What a move makes of the tables. -/
theorem moveNodes_effect {ids : List Id} {target : Id} {user : Option String}
    {t : Transaction Node} {answer : Node} (hplan : moveNodes c ids target user s₀ = .ok t)
    (ht : t s = .ok (answer, s')) : (Operation.moveNodes ids target user).Effect c p s s' := by
  obtain ⟨planned, -, hplan⟩ := bind_eq_ok_iff.1 hplan
  obtain rfl := Except.ok.inj hplan
  obtain ⟨⟨nodes, tn⟩, hcheck, ht⟩ := bind_eq_ok_iff.1 ht
  obtain ⟨-, ht⟩ := refuseFound_bind_eq_ok_iff.1 ht
  obtain ⟨s₁, hmove, ht⟩ := bind_eq_ok_iff.1 ht
  obtain ⟨s₂, htouch, ht⟩ := bind_eq_ok_iff.1 ht
  obtain ⟨-, rfl⟩ := answerNode_eq_ok_iff.1 ht
  obtain ⟨writer, rfl, rfl⟩ := touch_eq_ok_iff.1 htouch
  have hok := checkRelocation_eq_ok_iff.1 (recheck_eq_ok_iff.1 hcheck)
  by_cases hthere : ∀ n ∈ nodes, n.parent = some target
  · rw [reparent_eq_self hthere hmove]
    exact .keepNodes hok hthere
  · -- The selected nodes are siblings, so all of them lie elsewhere.
    have helse : ∀ n ∈ nodes, n.parent ≠ some target := fun n hn hp =>
      hthere fun m hm => (hok.selection.siblings m hm n hn).trans hp
    rw [reparent_eq hs.tree.nodup (fun n hn => hok.selection.mem hn) hok.selection.nodup_ids helse
      hmove, hok.selection.ids_eq]
    exact .moveNodes hok helse

/-- What a copy makes of the tables. -/
theorem copyNodes_effect {ids : List Id} {target : Id} {user : Option String}
    {t : Transaction Node} {answer : Node}
    (hplan : copyNodes c p.copies ids target user s₀ = .ok t) (ht : t s = .ok (answer, s')) :
    (Operation.copyNodes ids target user).Effect c p s s' := by
  obtain ⟨nodes, tn, writer, d, hok, rfl, hbeside, hsupplied, hplaced, rfl⟩ :=
    copyNodes_eq hplan hs ht
  exact .copyNodes hok hbeside hsupplied hplaced

end

end SnapshotArchive
