import SnapshotArchive.Proofs.Effects

/-!
# The order of children

Children are listed by their positions, and the time of creation decides between equal ones. It
never has to, if the children of a node differ in their positions (`Store.IsOrdered`). Then their
list is the one list with the right members in which the positions grow.

A node that is added or moved comes last, since its position is behind all others. Nodes that are
replaced in their places and nodes that are deleted do not change the order of the others.

* `Store.children_eq` : which list the children make.
* `Store.children_addNode`, `Store.children_map`, `Store.children_removeNodes`,
  `Store.children_move` : the lists after a change of the table.
-/

namespace SnapshotArchive

open Store

/-- The children of a node differ in their positions. -/
def Store.IsOrdered (s : Store) : Prop :=
  ∀ n ∈ s.nodes, ∀ m ∈ s.nodes, ∀ p, n.parent = some p → m.parent = some p →
    n.position = m.position → n = m

/-- In a list of nodes the positions grow. -/
abbrev IsAscending (l : List Node) : Prop :=
  l.Pairwise fun n m => n.position < m.position

/-- A list with rising positions names nothing twice. -/
theorem IsAscending.nodup {l : List Node} (h : IsAscending l) : l.Nodup :=
  h.imp fun hlt he => Nat.ne_of_lt hlt (congrArg _ he)

/-- At most one of its nodes stands at a position. -/
theorem IsAscending.eq_of_position_eq {l : List Node} (h : IsAscending l) {n m : Node}
    (hn : n ∈ l) (hm : m ∈ l) (he : n.position = m.position) : n = m := by
  have hnodup : (l.map (·.position)).Nodup :=
    List.pairwise_map.2 (h.imp fun hlt => Nat.ne_of_lt hlt)
  exact List.inj_on_of_nodup_map hnodup hn hm he

/-- A node has the place of another among siblings. -/
structure Node.HasPlaceOf (m n : Node) : Prop where
  id : m.id = n.id
  parent : m.parent = n.parent
  position : m.position = n.position
  created : m.created = n.created

/-- A node has its own place. -/
theorem Node.HasPlaceOf.refl (n : Node) : n.HasPlaceOf n := by
  constructor <;> rfl

/-- A list in which positions grow is behind another that ends below a bound. -/
theorem IsAscending.append {l l' : List Node} (hl : IsAscending l) (hl' : IsAscending l') {k : Nat}
    (hbelow : ∀ n ∈ l, n.position < k) (habove : ∀ n ∈ l', k ≤ n.position) :
    IsAscending (l ++ l') :=
  List.pairwise_append.2 ⟨hl, hl', fun n hn m hm => Nat.lt_of_lt_of_le (hbelow n hn) (habove m hm)⟩

namespace Store

variable {s t : Store}

/-! ### Lists of children -/

/-- The order of children depends on the nodes alone. -/
theorem IsOrdered.of_nodes_eq (h : s.IsOrdered) (he : t.nodes = s.nodes) : t.IsOrdered := by
  unfold IsOrdered
  rw [he]
  exact h

/-- The children of a node are listed by the order of siblings. -/
theorem pairwise_children (s : Store) (p : Id) :
    (s.children p).Pairwise fun n m => n.precedes m := by
  refine List.pairwise_mergeSort (fun a b k hab hbk => ?_) (fun a b => ?_) _
  · simp only [Node.precedes, Bool.or_eq_true, Bool.and_eq_true, decide_eq_true_eq] at *
    omega
  · simp only [Node.precedes, Bool.or_eq_true, Bool.and_eq_true, decide_eq_true_eq]
    omega

/-- The positions of children grow. -/
theorem IsOrdered.isAscending_children (h : s.IsOrdered) (hs : (s.nodes.map (·.id)).Nodup)
    (p : Id) : IsAscending (s.children p) := by
  have hnodup : (s.children p).Nodup :=
    (List.mergeSort_perm _ _).nodup_iff.2 ((List.Nodup.of_map _ hs).filter _)
  refine ((pairwise_children s p).and hnodup).imp_of_mem fun {n m} hn hm hnm => ?_
  obtain ⟨hprecedes, hne⟩ := hnm
  obtain ⟨hn, hnp⟩ := mem_children_iff.1 hn
  obtain ⟨hm, hmp⟩ := mem_children_iff.1 hm
  have hposition : n.position ≠ m.position := fun he => hne (h n hn m hm p hnp hmp he)
  simp only [Node.precedes, Bool.or_eq_true, Bool.and_eq_true, decide_eq_true_eq] at hprecedes
  omega

/-- The children of a node are listed as any list of them in which the positions grow. -/
theorem children_eq (hs : (s.nodes.map (·.id)).Nodup) {p : Id} {l : List Node} (hl : IsAscending l)
    (hmem : ∀ n, n ∈ l ↔ n ∈ s.nodes ∧ n.parent = some p) : s.children p = l := by
  have hperm : (s.children p).Perm l := by
    refine (List.perm_ext_iff_of_nodup ?_ hl.nodup).2 fun n => by rw [mem_children_iff, hmem]
    exact (List.mergeSort_perm _ _).nodup_iff.2 ((List.Nodup.of_map _ hs).filter _)
  refine List.Perm.eq_of_pairwise (fun n m hn hm hnm hmn => ?_) (pairwise_children s p)
    (hl.imp fun hlt => by simp [Node.precedes, hlt]) hperm
  refine hl.eq_of_position_eq (hperm.mem_iff.1 hn) hm ?_
  simp only [Node.precedes, Bool.or_eq_true, Bool.and_eq_true, decide_eq_true_eq] at hnm hmn
  omega

/-- If the positions of children grow, they differ. -/
theorem IsOrdered.of_children (h : ∀ p, IsAscending (s.children p)) : s.IsOrdered :=
  fun _ hn _ hm p hnp hmp he =>
    (h p).eq_of_position_eq (mem_children_iff.2 ⟨hn, hnp⟩) (mem_children_iff.2 ⟨hm, hmp⟩) he

/-- The next position is beyond every child. -/
theorem lt_nextPosition_of_mem_children {p : Id} {n : Node} (hn : n ∈ s.children p) :
    n.position < s.nextPosition p :=
  lt_nextPosition (mem_children_iff.1 hn).1 (mem_children_iff.1 hn).2

/-! ### Nodes that are added -/

section

variable (h : s.IsOrdered) {p : Id} {n : Node} (hp : n.parent = some p)
  (hposition : n.position = s.nextPosition p)
  (hnodup : ((s.nodes ++ [n]).map (·.id)).Nodup)

include h hp hposition hnodup

omit hp in
/-- With a node at the next position appended, the children still rise. -/
theorem isAscending_children_append_singleton : IsAscending (s.children p ++ [n]) := by
  have hs : (s.nodes.map (·.id)).Nodup := by
    rw [List.map_append] at hnodup
    exact hnodup.of_append_left
  refine (h.isAscending_children hs p).append (List.pairwise_singleton _ _)
    (fun m hm => lt_nextPosition_of_mem_children hm) fun m hm => ?_
  obtain rfl := List.mem_singleton.1 hm
  exact Nat.le_of_eq hposition.symm

/-- A node that is added comes behind the other children of its parent. -/
theorem children_addNode : children { s with nodes := s.nodes ++ [n] } p = s.children p ++ [n] := by
  refine children_eq hnodup (isAscending_children_append_singleton h hposition hnodup) fun m => ?_
  rw [List.mem_append, List.mem_append, mem_children_iff, List.mem_singleton]
  constructor
  · rintro (⟨hm, hmp⟩ | rfl)
    · exact ⟨.inl hm, hmp⟩
    · exact ⟨.inr rfl, hp⟩
  · rintro ⟨hm | rfl, hmp⟩
    · exact .inl ⟨hm, hmp⟩
    · exact .inr rfl

omit h hposition hnodup in
/-- A node added elsewhere leaves the children as they are. -/
theorem children_addNode_of_ne {q : Id} (hq : q ≠ p) :
    children { s with nodes := s.nodes ++ [n] } q = s.children q := by
  rw [children, filter_append_of_forall_not fun m hm => ?_]
  · rfl
  · rw [List.mem_singleton.1 hm, hp]
    simpa using Ne.symm hq

/-- A node added at the next position keeps the order of children. -/
theorem IsOrdered.addNode : IsOrdered { s with nodes := s.nodes ++ [n] } := by
  have hs : (s.nodes.map (·.id)).Nodup := by
    rw [List.map_append] at hnodup
    exact hnodup.of_append_left
  refine .of_children fun q => ?_
  by_cases hq : q = p
  · subst hq
    rw [children_addNode h hp hposition hnodup]
    exact isAscending_children_append_singleton h hposition hnodup
  · rw [children_addNode_of_ne hp hq]
    exact h.isAscending_children hs q

/-- Only the parent gets a child. -/
theorem childIds_addNode : childIds { s with nodes := s.nodes ++ [n] } =
    Function.update s.childIds p (s.childIds p ++ [n.id]) := by
  funext q
  by_cases hq : q = p
  · subst hq
    rw [Function.update_self, childIds, children_addNode h hp hposition hnodup, List.map_append]
    rfl
  · rw [Function.update_of_ne hq, childIds, children_addNode_of_ne hp hq]
    rfl

end

/-! ### Nodes that keep their places -/

/-- So does a change of every node in its place. -/
theorem IsOrdered.map (h : s.IsOrdered) {f : Node → Node}
    (hf : ∀ n ∈ s.nodes, (f n).HasPlaceOf n) : IsOrdered { s with nodes := s.nodes.map f } := by
  intro a ha b hb p hap hbp he
  obtain ⟨n, hn, rfl⟩ := List.mem_map.1 ha
  obtain ⟨m, hm, rfl⟩ := List.mem_map.1 hb
  rw [(hf n hn).parent] at hap
  rw [(hf m hm).parent] at hbp
  rw [(hf n hn).position, (hf m hm).position] at he
  rw [h n hn m hm p hap hbp he]

/-- The children after such a change are the changed children. -/
theorem children_map {f : Node → Node} (hf : ∀ n ∈ s.nodes, (f n).HasPlaceOf n) (p : Id) :
    children { s with nodes := s.nodes.map f } p = (s.children p).map f := by
  have hfilter : (s.nodes.map f).filter (·.parent = some p) =
      (s.nodes.filter (·.parent = some p)).map f := by
    rw [List.filter_map]
    congr 1
    refine List.filter_congr fun n hn => ?_
    rw [Function.comp_apply, (hf n hn).parent]
  rw [children, hfilter, children, List.map_mergeSort]
  intro a ha b hb
  have hfa := hf a (List.mem_filter.1 ha).1
  have hfb := hf b (List.mem_filter.1 hb).1
  simp only [Node.precedes, hfa.position, hfa.created, hfb.position, hfb.created]

/-- They are listed as before. -/
theorem childIds_map {f : Node → Node} (hf : ∀ n ∈ s.nodes, (f n).HasPlaceOf n) :
    childIds { s with nodes := s.nodes.map f } = s.childIds := by
  funext p
  rw [childIds, childIds, children_map hf, List.map_map]
  refine List.map_congr_left fun n hn => ?_
  exact (hf n (mem_children_iff.1 hn).1).id

/-- A node in the place of another that has its identifier. -/
theorem hasPlaceOf_replaceNode (hs : (s.nodes.map (·.id)).Nodup) {n m : Node} (hn : n ∈ s.nodes)
    (hm : m.HasPlaceOf n) : ∀ o ∈ s.nodes, (if o.id = m.id then m else o).HasPlaceOf o := by
  intro o ho
  split
  · rename_i hid
    obtain rfl := eq_of_id_eq hs ho hn (hid.trans hm.id)
    exact hm
  · exact .refl o

/-- A stamp leaves a node in its place. -/
theorem hasPlaceOf_stamp (c : Context) (id : Id) (user : String) (n : Node) :
    (if n.id = id then { n with version := n.version + 1, modified := c.now, user }
      else n).HasPlaceOf n := by
  split
  · constructor <;> rfl
  · exact .refl n

/-- So does a mark. -/
theorem hasPlaceOf_mark (c : Context) (n : Node) (golden : Bool) (others : List Node) (m : Node) :
    (if m.id = n.id then m.marked c golden
      else if m.id ∈ others.map (·.id) then m.marked c false else m).HasPlaceOf m := by
  split
  · constructor <;> rfl
  · split
    · constructor <;> rfl
    · exact .refl m

/-! ### Nodes that are deleted -/

/-- Removing nodes keeps the order of children. -/
theorem IsOrdered.removeNodes (h : s.IsOrdered) (gone : List Id) : (s.removeNodes gone).IsOrdered :=
  fun n hn m hm => h n (mem_nodes_removeNodes_iff.1 hn).1 m (mem_nodes_removeNodes_iff.1 hm).1

/-- The identifiers that remain differ. -/
theorem nodup_removeNodes (hs : (s.nodes.map (·.id)).Nodup) (gone : List Id) :
    ((s.removeNodes gone).nodes.map (·.id)).Nodup :=
  hs.sublist (List.filter_sublist.map _)

/-- Of the children, those that are not removed remain. -/
theorem children_removeNodes (h : s.IsOrdered) (hs : (s.nodes.map (·.id)).Nodup) (gone : List Id)
    (p : Id) : (s.removeNodes gone).children p = (s.children p).filter (·.id ∉ gone) := by
  refine children_eq (nodup_removeNodes hs gone) ?_ fun n => ?_
  · exact (h.isAscending_children hs p).filter _
  · rw [List.mem_filter, mem_children_iff, mem_nodes_removeNodes_iff, decide_eq_true_eq]
    exact and_right_comm

/-- A node that stays loses those of its children that were selected. -/
theorem childIds_removeNodes (h : s.IsOrdered) (hs : s.IsTree) {roots gone : List Id}
    (hgone : s.IsAllBelow roots gone) {p : Id} (hp : p ∉ gone) :
    (s.removeNodes gone).childIds p = (s.childIds p).filter (· ∉ roots) := by
  rw [childIds, children_removeNodes h hs.nodup, childIds, List.filter_map]
  congr 1
  refine List.filter_congr fun n hn => ?_
  obtain ⟨hn, hnp⟩ := mem_children_iff.1 hn
  have hiff : n.id ∈ gone ↔ n.id ∈ roots := by
    constructor
    · intro hid
      obtain ⟨-, r, hr, hup⟩ := (hgone n.id).1 hid
      rcases Relation.ReflTransGen.cases_head hup with rfl | ⟨q, ⟨o, ho, hoid, hoq⟩, hup⟩
      · exact hr
      · -- A way up that goes on goes through the parent, which would be deleted too.
        obtain rfl := eq_of_id_eq hs.nodup ho hn hoid
        obtain rfl := Option.some.inj (hnp.symm.trans hoq)
        obtain ⟨m, hm, rfl, -⟩ := hs.contained o ho p hnp
        exact absurd ((hgone m.id).2 ⟨hasNode_of_mem hm, r, hr, hup⟩) hp
    · exact fun hid => (hgone n.id).2 ⟨hasNode_of_mem hn, n.id, hid, .refl⟩
  simp only [Function.comp_apply, hiff]

/-! ### Nodes that are moved -/

/-- The places of the elements in a list grow. -/
theorem pairwise_idxOf {l : List Id} (h : l.Nodup) :
    l.Pairwise fun a b => l.idxOf a < l.idxOf b := by
  rw [List.pairwise_iff_getElem]
  intro i j hi hj hij
  rwa [h.idxOf_getElem, h.idxOf_getElem]

/-- The positions of nodes that are placed one after the other grow. -/
theorem isAscending_map_idxOf {nodes : List Node} (hnodup : (nodes.map (·.id)).Nodup)
    {f : Node → Node} {k : Nat}
    (hf : ∀ n ∈ nodes, (f n).position = k + (nodes.map (·.id)).idxOf n.id) :
    IsAscending (nodes.map f) := by
  refine List.pairwise_map.2 ?_
  refine (List.pairwise_map.1 (pairwise_idxOf hnodup)).imp_of_mem fun {n m} hn hm hlt => ?_
  rw [hf n hn, hf m hm]
  exact Nat.add_lt_add_left hlt k

section

variable {c : Context} {target : Id} {user : String} {nodes : List Node}

/-- A node of a store in which nodes were moved lies in the target, or is where it was. -/
theorem mem_nodes_move_iff (hs : (s.nodes.map (·.id)).Nodup) (hnodes : ∀ n ∈ nodes, n ∈ s.nodes)
    {m : Node} : m ∈ (s.move c target user (nodes.map (·.id))).nodes ↔
      (∃ n ∈ nodes, m = n.movedTo c target user
        (s.nextPosition target + (nodes.map (·.id)).idxOf n.id)) ∨
      m ∈ s.nodes ∧ m.id ∉ nodes.map (·.id) := by
  simp only [move, List.mem_map (l := s.nodes)]
  constructor
  · rintro ⟨n, hn, rfl⟩
    by_cases hid : n.id ∈ nodes.map (·.id)
    · obtain ⟨n', hn', he⟩ := List.mem_map.1 hid
      obtain rfl := eq_of_id_eq hs (hnodes n' hn') hn he
      rw [if_pos hid]
      exact .inl ⟨n', hn', rfl⟩
    · rw [if_neg hid]
      exact .inr ⟨hn, hid⟩
  · rintro (⟨n, hn, rfl⟩ | ⟨hm, hid⟩)
    · exact ⟨n, hnodes n hn, if_pos (List.mem_map_of_mem hn)⟩
    · exact ⟨m, hm, if_neg hid⟩

/-- After a move the identifiers still differ. -/
theorem nodup_move (hs : (s.nodes.map (·.id)).Nodup) (ids : List Id) :
    ((s.move c target user ids).nodes.map (·.id)).Nodup := by
  have hids : (s.move c target user ids).nodes.map (·.id) = s.nodes.map (·.id) := by
    simp only [move, List.map_map]
    refine List.map_congr_left fun n _ => ?_
    rw [Function.comp_apply]
    split <;> rfl
  rwa [hids]

variable (h : s.IsOrdered) (hs : (s.nodes.map (·.id)).Nodup) (hnodes : ∀ n ∈ nodes, n ∈ s.nodes)

include h hs hnodes

/-- Another node than the target loses those of its children that are moved. -/
theorem children_move {p : Id} (hp : p ≠ target) :
    (s.move c target user (nodes.map (·.id))).children p =
      (s.children p).filter (·.id ∉ nodes.map (·.id)) := by
  refine children_eq (nodup_move hs _) ((h.isAscending_children hs p).filter _) fun m => ?_
  rw [mem_nodes_move_iff hs hnodes, List.mem_filter, mem_children_iff, decide_eq_true_eq]
  constructor
  · rintro ⟨⟨hm, hmp⟩, hid⟩
    exact ⟨.inr ⟨hm, hid⟩, hmp⟩
  · rintro ⟨⟨n, -, rfl⟩ | ⟨hm, hid⟩, hmp⟩
    · exact absurd (Option.some.inj hmp).symm hp
    · exact ⟨⟨hm, hmp⟩, hid⟩

variable (hnodup : (nodes.map (·.id)).Nodup) (helse : ∀ n ∈ nodes, n.parent ≠ some target)

include hnodup

omit hnodes in
/-- The children of the target rise, with the moved nodes behind them. -/
theorem isAscending_children_append_moved : IsAscending (s.children target ++ nodes.map fun n =>
    n.movedTo c target user (s.nextPosition target + (nodes.map (·.id)).idxOf n.id)) := by
  refine (h.isAscending_children hs target).append (isAscending_map_idxOf hnodup fun n _ => rfl)
    (fun m hm => lt_nextPosition_of_mem_children hm) fun m hm => ?_
  obtain ⟨n, -, rfl⟩ := List.mem_map.1 hm
  exact Nat.le_add_right _ _

include helse

/-- The target gets the moved nodes behind its children and in their order. -/
theorem children_move_target : (s.move c target user (nodes.map (·.id))).children target =
    s.children target ++ nodes.map fun n => n.movedTo c target user
      (s.nextPosition target + (nodes.map (·.id)).idxOf n.id) := by
  refine children_eq (nodup_move hs _) (isAscending_children_append_moved h hs hnodup) fun m => ?_
  rw [mem_nodes_move_iff hs hnodes, List.mem_append, mem_children_iff, List.mem_map]
  constructor
  · rintro (⟨hm, hmp⟩ | ⟨n, hn, rfl⟩)
    · refine ⟨.inr ⟨hm, fun hid => ?_⟩, hmp⟩
      obtain ⟨n, hn, he⟩ := List.mem_map.1 hid
      exact helse n hn (eq_of_id_eq hs (hnodes n hn) hm he ▸ hmp)
    · exact ⟨.inl ⟨n, hn, rfl⟩, rfl⟩
  · rintro ⟨⟨n, hn, rfl⟩ | ⟨hm, -⟩, hmp⟩
    · exact .inr ⟨n, hn, rfl⟩
    · exact .inl ⟨hm, hmp⟩

/-- A move keeps the order of children. -/
theorem IsOrdered.move : (s.move c target user (nodes.map (·.id))).IsOrdered := by
  refine .of_children fun p => ?_
  by_cases hp : p = target
  · rw [hp, children_move_target h hs hnodes hnodup helse]
    exact isAscending_children_append_moved h hs hnodup
  · rw [children_move h hs hnodes hp]
    exact (h.isAscending_children hs p).filter _

end

end Store

end SnapshotArchive
