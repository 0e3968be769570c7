import SnapshotArchive.Command
import SnapshotArchive.Proofs.Documents
import SnapshotArchive.Proofs.Walks

/-!
# The outline of the whole tree

The outline of an archive is walked from the root, with one look at the children of each node and
nothing that remembers the nodes met before. In a tree the bound on its depth is never met: the walk
ends by itself (`Store.Spans`). Both renderings are read off the list of the nodes that it meets
(`Tree.entries`), and this list has each node of the store once, below its parent and among its
siblings as they are listed (`Store.IsOutlined`).

* `Store.IsTree.spans_treeBelow` : no bound stops the walk.
* `Store.IsTree.isOutlined` : what the list of the nodes holds.
* `Tree.lines_eq`, `Tree.nested_record` : the two renderings have the nodes of that list.
* `Value.nested_asWritten` : so has the text of the nested records, when it is read.
* `Service.Reachable.outlines_complete` : the renderings of a reachable archive.
-/

namespace SnapshotArchive

open Store Archive Sample

/-! ### Outlines as lists -/

/-- A node in an outline, and how deep it stands there. -/
structure Entry where
  depth : Nat
  node : Node

/-- The line of an outline for a node. -/
def Entry.line (e : Entry) : String :=
  String.ofList (List.replicate (2 * e.depth) ' ') ++ e.node.line

/-- The node that an entry stands below: that of the last entry before it which is less deep. -/
def Entry.above? (before : List Entry) (e : Entry) : Option Node :=
  (before.reverse.find? (·.depth < e.depth)).map (·.node)

namespace Tree

mutual

/-- The nodes of a tree, parents first. -/
def entries (depth : Nat) : Tree → List Entry
  | node top children => ⟨depth, top⟩ :: entriesOf (depth + 1) children

/-- The nodes of several trees. -/
def entriesOf (depth : Nat) : List Tree → List Entry
  | [] => []
  | t :: ts => t.entries depth ++ entriesOf depth ts

end

/-- The entries of a list of trees are those of each tree, one after the other. -/
theorem entriesOf_map {α : Type} (f : α → Tree) (depth : Nat) (as : List α) :
    entriesOf depth (as.map f) = as.flatMap fun a => (f a).entries depth := by
  induction as with
  | nil => rfl
  | cons a as ih => rw [List.map_cons, entriesOf, ih, List.flatMap_cons]

mutual

/-- The lines of a tree are those of its nodes. -/
theorem lines_eq : ∀ (t : Tree) (depth : Nat), t.lines depth = (t.entries depth).map Entry.line
  | node top children, depth => by
    rw [lines, entries, List.map_cons, linesOf_eq children]
    rfl

/-- The lines of trees are the lines of their entries. -/
theorem linesOf_eq : ∀ (ts : List Tree) (depth : Nat),
    linesOf depth ts = (entriesOf depth ts).map Entry.line
  | [], _ => rfl
  | t :: ts, depth => by
    rw [linesOf, entriesOf, List.map_append, lines_eq t, linesOf_eq ts]

end

end Tree

/-! ### Lines of a text -/

/-- A line has no break of its own if neither the name nor the identifier has one. -/
theorem Entry.lineBreak_notMem_line {e : Entry} (hname : '\n' ∉ e.node.name.toList)
    (hid : '\n' ∉ e.node.id.toList) : '\n' ∉ e.line.toList := by
  have hlabel : '\n' ∉ e.node.kind.label.toList := by
    cases e.node.kind <;> decide
  have hmark : '\n' ∉ (if e.node.properties.isGolden then " *"
      else if e.node.content.isDraft then " (draft)" else "").toList := by
    split_ifs <;> decide
  simp only [Entry.line, Node.line, listingLine, Text.plain, String.toList_append,
    String.toList_ofList, List.mem_append, List.mem_replicate, not_or]
  refine ⟨by simp, ?_⟩
  simp only [toString, hlabel, hname, hmark, hid]
  decide

/-- Lines that are put together without line breaks in them are the lines of the text. -/
theorem Command.splitOn_unlines {lines : List String} (hne : lines ≠ [])
    (h : ∀ line ∈ lines, '\n' ∉ line.toList) :
    (unlines lines).toList.splitOn '\n' = lines.map String.toList := by
  have hbreak : "\n".toList = ['\n'] := rfl
  rw [unlines, String.toList_intercalate, hbreak, List.splitOn_intercalate]
  · simpa using h
  · simpa using hne

/-! ### Nested records -/

/-- The field of a record that holds those below it. -/
def Value.childrenField : String := "children"

namespace Value

mutual

/-- The records that are nested as children, with their depths, the outer ones first. Each is
without the field for its children. -/
def nested (depth : Nat) : Value → List (Nat × Value)
  | record fields =>
    (depth, record (fields.filter (·.1 ≠ childrenField))) :: nestedIn (depth + 1) fields
  | list elements => nestedAll depth elements
  | _ => []

/-- The records nested in a list. -/
def nestedAll (depth : Nat) : List Value → List (Nat × Value)
  | [] => []
  | v :: vs => v.nested depth ++ nestedAll depth vs

/-- The records nested in the fields for children. -/
def nestedIn (depth : Nat) : List (String × Value) → List (Nat × Value)
  | [] => []
  | (name, v) :: fs => (if name = childrenField then v.nested depth else []) ++ nestedIn depth fs

end

/-- The nodes nested in a list of values are those of each value in turn. -/
theorem nestedAll_eq_flatMap (depth : Nat) (vs : List Value) :
    nestedAll depth vs = vs.flatMap (nested depth) := by
  induction vs with
  | nil => rfl
  | cons v vs ih => rw [nestedAll, ih, List.flatMap_cons]

/-- The nodes nested in the fields of a record are those under the field of children. -/
theorem nestedIn_eq_flatMap (depth : Nat) (fs : List (String × Value)) :
    nestedIn depth fs =
      (fs.filter (·.1 = childrenField)).flatMap fun f => f.2.nested depth := by
  induction fs with
  | nil => rfl
  | cons f fs ih =>
    rw [nestedIn, ih]
    by_cases h : f.1 = childrenField <;> simp [h]

/-- The records that are nested in a value as it is written are those of the value, as they are
written: fields with one name stay in their order. -/
theorem nested_asWritten (v : Value) (depth : Nat) :
    v.asWritten.nested depth = (v.nested depth).map fun r => (r.1, r.2.asWritten) := by
  induction v using inductionOn generalizing depth with
  | list vs ih =>
    simp only [asWritten, nested, allAsWritten_eq_map, nestedAll_eq_flatMap, List.flatMap_map,
      List.map_flatMap]
    exact List.flatMap_congr fun v hv => ih v hv depth
  | record fs ih =>
    have hothers : ((fieldsAsWritten fs).mergeSort (·.1 ≤ ·.1)).filter (·.1 ≠ childrenField) =
        (fieldsAsWritten (fs.filter (·.1 ≠ childrenField))).mergeSort (·.1 ≤ ·.1) := by
      rw [filter_mergeSort field_le_trans field_le_total, fieldsAsWritten_eq_map, List.filter_map,
        fieldsAsWritten_eq_map]
      rfl
    have hchildren : ((fieldsAsWritten fs).mergeSort (·.1 ≤ ·.1)).filter (·.1 = childrenField) =
        (fs.filter (·.1 = childrenField)).map fun f => (f.1, f.2.asWritten) := by
      rw [filter_name_mergeSort, fieldsAsWritten_eq_map, List.filter_map]
      rfl
    simp only [asWritten, nested, nestedIn_eq_flatMap, hothers, hchildren, List.map_cons,
      List.flatMap_map, List.map_flatMap]
    refine congrArg _ (List.flatMap_congr fun f hf => ?_)
    exact ih f (List.mem_of_mem_filter hf) (depth + 1)
  | _ => rfl

end Value

namespace Tree

mutual

/-- The record of a tree has the records of its nodes, nested as they stand in the tree. -/
theorem nested_record : ∀ (t : Tree) (depth : Nat), (t.record fun _ => []).nested depth =
    (t.entries depth).map fun e => (e.depth, e.node.record)
  | node top children, depth => by
    rw [entries, List.map_cons, ← nestedAll_recordsOf children]
    simp [record, Node.record, NodeForm.record, Value.withFields, Value.nested, Value.nestedIn,
      Value.childrenField]

/-- The nodes nested in the records of trees are the entries of the trees. -/
theorem nestedAll_recordsOf : ∀ (ts : List Tree) (depth : Nat),
    Value.nestedAll depth (recordsOf (fun _ => []) ts) =
      (entriesOf depth ts).map fun e => (e.depth, e.node.record)
  | [], _ => rfl
  | t :: ts, depth => by
    rw [recordsOf, Value.nestedAll, entriesOf, List.map_append, nested_record t,
      nestedAll_recordsOf ts]

end

mutual

/-- The record of a tree has no floating-point number with another text in it. -/
theorem hasRealTexts_record : ∀ t : Tree, (t.record fun _ => []).hasRealTexts
  | node top children => by
    refine Value.hasRealTexts_withFields top.hasRealTexts_record ?_
    simp [Value.fieldsHaveRealTexts, Value.hasRealTexts, allHaveRealTexts_recordsOf children]

/-- Nor do the records of several trees. -/
theorem allHaveRealTexts_recordsOf : ∀ ts : List Tree,
    Value.allHaveRealTexts (recordsOf (fun _ => []) ts)
  | [] => rfl
  | t :: ts => by
    rw [recordsOf, Value.allHaveRealTexts, hasRealTexts_record t, allHaveRealTexts_recordsOf ts]
    rfl

end

/-- The text of the record of a tree is read as records, and these are nested as the nodes stand in
the tree. -/
theorem nested_ofText? (t : Tree) : ∃ w, Value.ofText? (t.record fun _ => []).pretty = some w ∧
    w.nested 0 = (t.entries 0).map fun e => (e.depth, e.node.record.asWritten) := by
  refine ⟨_, Value.ofText?_pretty t.hasRealTexts_record, ?_⟩
  rw [Value.nested_asWritten, nested_record, List.map_map]
  rfl

end Tree

/-! ### The walk without a bound -/

namespace Store

mutual

/-- The tree that is made by a walk from a node which goes on to all children of each node that it
meets, in their order. That there is one means that the walk ends. -/
inductive Spans (s : Store) : Node → Tree → Prop
  | node {n : Node} {ts : List Tree} : SpansAll s (s.children n.id) ts → Spans s n (.node n ts)

/-- The trees that are made by walks from several nodes. -/
inductive SpansAll (s : Store) : List Node → List Tree → Prop
  | nil : SpansAll s [] []
  | cons {n : Node} {ns : List Node} {t : Tree} {ts : List Tree} :
    Spans s n t → SpansAll s ns ts → SpansAll s (n :: ns) (t :: ts)

end

variable {s : Store}

mutual

/-- At most one tree spans a node. -/
theorem Spans.unique {n : Node} {t u : Tree} : s.Spans n t → s.Spans n u → t = u
  | .node h, .node h' => by rw [h.unique h']

/-- At most one list of trees spans a list of nodes. -/
theorem SpansAll.unique {ns : List Node} {ts us : List Tree} :
    s.SpansAll ns ts → s.SpansAll ns us → ts = us
  | .nil, .nil => rfl
  | .cons ht hts, .cons hu hus => by rw [ht.unique hu, hts.unique hus]

end

/-- If each node is spanned by its tree, then the list by the list of trees. -/
theorem spansAll_map {ns : List Node} {f : Node → Tree} (h : ∀ n ∈ ns, s.Spans n (f n)) :
    s.SpansAll ns (ns.map f) := by
  induction ns with
  | nil => exact .nil
  | cons n ns ih =>
    exact .cons (h n List.mem_cons_self) (ih fun m hm => h m (List.mem_cons_of_mem _ hm))

/-- With enough levels left, what is read below a node spans it. -/
theorem IsTree.spans_treeBelow (hs : s.IsTree) {d : Nat} {n : Node} (hn : n ∈ s.nodes)
    (hd : s.nodes.length ≤ s.depth n.id + d) : s.Spans n (s.treeBelow d n) := by
  induction d generalizing n with
  | zero =>
    refine .node ?_
    rw [hs.children_eq_nil hd]
    exact .nil
  | succ d ih =>
    refine .node (spansAll_map fun m hm => ?_)
    obtain ⟨hm, hp⟩ := mem_children_iff.1 hm
    refine ih hm ?_
    rw [hs.depth_of_parent hm hp]
    omega

/-! ### What the list of the nodes holds -/

/-- A place in a flattened list is a place in one of its parts. -/
theorem flatMap_eq_append_cons {α β : Type} {f : α → List β} {as : List α} {x : β}
    {before after : List β} (h : as.flatMap f = before ++ x :: after) :
    ∃ as₁ a as₂ b c, as = as₁ ++ a :: as₂ ∧ f a = b ++ x :: c ∧ before = as₁.flatMap f ++ b := by
  induction as generalizing before with
  | nil => simp at h
  | cons a as ih =>
    rw [List.flatMap_cons] at h
    rcases List.append_eq_append_iff.1 h with ⟨b, rfl, hrest⟩ | ⟨b, ha, hrest⟩
    · obtain ⟨as₁, a', as₂, b', c, rfl, ha', rfl⟩ := ih hrest
      exact ⟨a :: as₁, a', as₂, b', c, rfl, ha', by simp⟩
    · cases b with
      | nil =>
        obtain ⟨as₁, a', as₂, b', c, rfl, ha', hb⟩ := @ih [] hrest.symm
        refine ⟨a :: as₁, a', as₂, b', c, rfl, ha', ?_⟩
        rw [List.flatMap_cons, List.append_assoc, ← hb, ha]
        simp
      | cons y b =>
        obtain ⟨rfl, -⟩ := List.cons.inj hrest
        exact ⟨[], a, as, before, b, rfl, ha, by simp⟩

/-- Of entries that are deeper but for the first, the first is the last one that is less deep. -/
theorem find?_reverse_cons {q : Entry} {k : Nat} {es : List Entry} (hq : q.depth < k)
    (hes : ∀ e ∈ es, k ≤ e.depth) : (q :: es).reverse.find? (·.depth < k) = some q := by
  rw [List.reverse_cons, List.find?_append, List.find?_eq_none.2]
  · simp [hq]
  · simpa using hes

/-- The entries below a node are its own and those below its children, one level deeper. -/
theorem entries_treeBelow_succ (s : Store) (d k : Nat) (n : Node) :
    (s.treeBelow (d + 1) n).entries k =
      ⟨k, n⟩ :: (s.children n.id).flatMap fun m => (s.treeBelow d m).entries (k + 1) := by
  rw [treeBelow, Tree.entries, Tree.entriesOf_map]

/-- The entries below a node begin with its own. -/
theorem exists_entries_treeBelow (s : Store) (d k : Nat) (n : Node) :
    ∃ below, (s.treeBelow d n).entries k = ⟨k, n⟩ :: below := by
  cases d with
  | zero => exact ⟨[], rfl⟩
  | succ d => exact ⟨_, s.entries_treeBelow_succ d k n⟩

/-- The nodes listed below several come in the order of those. -/
theorem sublist_entries (s : Store) (d k : Nat) (ns : List Node) :
    ns.Sublist (ns.flatMap fun n => ((s.treeBelow d n).entries k).map Entry.node) := by
  induction ns with
  | nil => exact .slnil
  | cons n ns ih =>
    obtain ⟨below, hbelow⟩ := s.exists_entries_treeBelow d k n
    rw [List.flatMap_cons, hbelow]
    exact .cons_cons n (ih.trans (List.sublist_append_right _ _))

/-- Walking down from two lists meets what walking down from each meets. -/
theorem levels_append_perm (s : Store) (d : Nat) (ns ms : List Node) :
    (s.levels d (ns ++ ms)).Perm (s.levels d ns ++ s.levels d ms) := by
  induction d generalizing ns ms with
  | zero => exact .refl _
  | succ d ih =>
    simp only [levels_succ, List.flatMap_append]
    refine ((ih _ _).append_left _).trans ?_
    simp only [List.append_assoc]
    refine .append_left _ ?_
    simp only [← List.append_assoc]
    exact List.perm_append_comm.append_right _

/-- Level by level or node by node, the walk down meets the same. -/
theorem levels_perm_flatMap (s : Store) (d : Nat) (ns : List Node) :
    (s.levels d ns).Perm (ns.flatMap fun n => s.levels d [n]) := by
  induction ns with
  | nil => simp
  | cons n ns ih => exact (s.levels_append_perm d [n] ns).trans (ih.append_left _)

/-- The walk meets the nodes that the walk by levels meets. -/
theorem entries_perm_levels (s : Store) (d k : Nat) (n : Node) :
    (((s.treeBelow d n).entries k).map Entry.node).Perm (s.levels d [n]) := by
  induction d generalizing n k with
  | zero => exact .refl _
  | succ d ih =>
    rw [entries_treeBelow_succ, List.map_cons, List.map_flatMap, levels_succ, List.flatMap_cons,
      List.flatMap_nil, List.append_nil]
    refine .cons n (.trans ?_ (s.levels_perm_flatMap d _).symm)
    exact List.Perm.flatMap_left _ fun m _ => ih (k + 1) m

namespace IsTree

variable (hs : s.IsTree)

include hs

/-- The outline of the root lists each stored node once. -/
theorem entries_perm {root : Node} (hroot : s.node? rootId = some root) :
    (((s.treeBelow s.nodes.length root).entries 0).map Entry.node).Perm s.nodes := by
  obtain ⟨hmem, hid⟩ := node?_eq_some hroot
  have hsubtree : s.subtree rootId = s.levels s.nodes.length [root] := by rw [subtree, hroot]
  refine (s.entries_perm_levels _ 0 root).trans ?_
  rw [← hsubtree, ← hid, List.perm_ext_iff_of_nodup (hs.subtree_nodup hmem) hs.nodup.of_map]
  intro n
  rw [hs.mem_subtree_iff hmem]
  exact and_iff_left_of_imp fun hn => hid ▸ hs.rooted n hn

/-- The depth an entry is listed at is how much deeper than the start its node lies. -/
theorem depth_entries {d k : Nat} {n : Node} (hn : n ∈ s.nodes) {e : Entry}
    (he : e ∈ (s.treeBelow d n).entries k) :
    k ≤ e.depth ∧ e.node ∈ s.nodes ∧ s.depth e.node.id + k = s.depth n.id + e.depth := by
  induction d generalizing n k with
  | zero =>
    obtain rfl := List.mem_singleton.1 he
    exact ⟨Nat.le_refl _, hn, rfl⟩
  | succ d ih =>
    rw [entries_treeBelow_succ] at he
    rcases List.mem_cons.1 he with rfl | he
    · exact ⟨Nat.le_refl _, hn, rfl⟩
    · obtain ⟨m, hm, he⟩ := List.mem_flatMap.1 he
      obtain ⟨hm, hp⟩ := mem_children_iff.1 hm
      obtain ⟨hle, hnode, hdepth⟩ := ih hm he
      rw [hs.depth_of_parent hm hp] at hdepth
      exact ⟨by omega, hnode, by omega⟩

/-- All but the first entry stand below the entry of their parent. -/
theorem above?_entries {d k : Nat} {n : Node} (hn : n ∈ s.nodes) {before after : List Entry}
    {e : Entry} (he : (s.treeBelow d n).entries k = before ++ e :: after) :
    before = [] ∧ e = ⟨k, n⟩ ∨
      ∃ q, before.reverse.find? (·.depth < e.depth) = some q ∧ e.node.parent = some q.node.id := by
  cases before with
  | nil =>
    obtain ⟨below, hbelow⟩ := s.exists_entries_treeBelow d k n
    exact .inl ⟨rfl, (List.cons.inj (he.symm.trans hbelow)).1⟩
  | cons first before =>
    right
    induction d generalizing n k first before after with
    | zero =>
      have hlength := congrArg List.length he
      simp [treeBelow, Tree.entries, Tree.entriesOf] at hlength
    | succ d ih =>
      rw [entries_treeBelow_succ] at he
      obtain ⟨rfl, hrest⟩ := List.cons.inj he
      -- The entry is one of those of some child, the first of them or a later one.
      obtain ⟨ms, m, ms', b, c, hms, hm, rfl⟩ := flatMap_eq_append_cons hrest
      have hchild : ∀ m' ∈ ms ++ m :: ms', m' ∈ s.nodes ∧ m'.parent = some n.id :=
        fun m' hm' => mem_children_iff.1 (hms ▸ hm')
      obtain ⟨hmem, hp⟩ := hchild m (by simp)
      cases b with
      | nil =>
        obtain ⟨below, hbelow⟩ := s.exists_entries_treeBelow d (k + 1) m
        obtain ⟨rfl, -⟩ := List.cons.inj (hm.symm.trans hbelow)
        have hdeep : ∀ q ∈ ms.flatMap fun m => (s.treeBelow d m).entries (k + 1),
            k + 1 ≤ q.depth := by
          intro q hq
          obtain ⟨m', hm', hq⟩ := List.mem_flatMap.1 hq
          exact (hs.depth_entries (hchild m' (List.mem_append_left _ hm')).1 hq).1
        rw [List.append_nil]
        exact ⟨⟨k, n⟩, find?_reverse_cons (Nat.lt_succ_self k) hdeep, hp⟩
      | cons first b =>
        obtain ⟨q, hq, hparent⟩ := ih hmem first b hm
        refine ⟨q, ?_, hparent⟩
        rw [← List.cons_append, List.reverse_append, List.find?_append, hq, Option.some_or]

/-- The children of a listed node are listed in their order. -/
theorem children_sublist_entries {d k : Nat} {n : Node} (hn : n ∈ s.nodes)
    (hd : s.nodes.length ≤ s.depth n.id + d) {e : Entry}
    (he : e ∈ (s.treeBelow d n).entries k) :
    (s.children e.node.id).Sublist (((s.treeBelow d n).entries k).map Entry.node) := by
  induction d generalizing n k with
  | zero =>
    obtain rfl := List.mem_singleton.1 he
    rw [hs.children_eq_nil hd]
    exact List.nil_sublist _
  | succ d ih =>
    rw [entries_treeBelow_succ] at he ⊢
    rw [List.map_cons, List.map_flatMap]
    refine .cons _ ?_
    rcases List.mem_cons.1 he with rfl | he
    · exact s.sublist_entries d (k + 1) _
    · obtain ⟨m, hm, he⟩ := List.mem_flatMap.1 he
      have hchild := mem_children_iff.1 hm
      have hdepth := hs.depth_of_parent hchild.1 hchild.2
      refine (ih hchild.1 (by omega) he).trans ?_
      exact List.sublist_flatten_of_mem (List.mem_map_of_mem hm)

/-- The children of a node are met in their order, and nobody else is a child of it. -/
theorem filter_entries {root : Node} (hroot : s.node? rootId = some root) (p : Id) :
    (((s.treeBelow s.nodes.length root).entries 0).map Entry.node).filter (·.parent = some p) =
      s.children p := by
  obtain ⟨hmem, -⟩ := node?_eq_some hroot
  have hperm := hs.entries_perm hroot
  have hsame := (hperm.filter (·.parent = some p)).trans
    (List.mergeSort_perm _ Node.precedes).symm
  refine (List.Sublist.eq_of_length ?_ hsame.symm.length_eq).symm
  by_cases hnode : s.hasNode p
  · obtain ⟨n, hn, rfl⟩ := hasNode_iff.1 hnode
    obtain ⟨e, he, rfl⟩ := List.mem_map.1 (hperm.mem_iff.2 hn)
    have hbelow := (hs.children_sublist_entries hmem (Nat.le_add_left _ _) he).filter
      (·.parent = some e.node.id)
    rwa [List.filter_eq_self.2] at hbelow
    intro m hm
    simpa using (mem_children_iff.1 hm).2
  · have hnone : s.children p = [] := by
      refine List.eq_nil_iff_forall_not_mem.2 fun m hm => hnode ?_
      obtain ⟨hm, hp⟩ := mem_children_iff.1 hm
      obtain ⟨q, hq, rfl, -⟩ := hs.contained m hm p hp
      exact hasNode_of_mem hq
    change (s.children p).Sublist _
    rw [hnone]
    exact List.nil_sublist _

end IsTree

/-- A list of entries that has the whole tree, in the order of an outline. -/
structure IsOutlined (s : Store) (entries : List Entry) : Prop where
  /-- The nodes are those of the store. -/
  nodes : (entries.map (·.node)).Perm s.nodes
  /-- None is there twice. -/
  once : (entries.map (·.node.id)).Nodup
  /-- A node is as deep as it has ancestors besides itself. -/
  depth : ∀ e ∈ entries, (s.ancestorIds e.node.id).tail.length = e.depth
  /-- It comes after its parent and stands below it; the root is below none. -/
  above : ∀ before e after, entries = before ++ e :: after →
    (e.above? before).map (·.id) = e.node.parent
  /-- Siblings are in the order in which they are listed. -/
  siblings : ∀ p, (entries.map (·.node)).filter (·.parent = some p) = s.children p

/-- What is read below the root is an outline of the store. -/
theorem IsTree.isOutlined (hs : s.IsTree) {root : Node} (hroot : s.node? rootId = some root) :
    s.IsOutlined ((s.treeBelow s.nodes.length root).entries 0) := by
  obtain ⟨hmem, hid⟩ := node?_eq_some hroot
  obtain ⟨r, hr, hrid, htop, -⟩ := hs.root
  obtain rfl := eq_of_id_eq hs.nodup hr hmem (hrid.trans hid.symm)
  have hperm := hs.entries_perm hroot
  refine ⟨hperm, ?_, fun e he => ?_, fun before e after he => ?_, fun p => ?_⟩
  · have hids := (hperm.map (·.id)).nodup_iff.2 hs.nodup
    rwa [List.map_map] at hids
  · have hdepth := (hs.depth_entries hmem he).2.2
    have hone : s.depth r.id = 1 := by
      rw [depth, hs.ancestorIds_eq (.top hmem htop), List.length_singleton]
    rw [hone] at hdepth
    rw [List.length_tail, ← depth]
    omega
  · rcases hs.above?_entries hmem he with ⟨rfl, rfl⟩ | ⟨q, hq, hparent⟩
    · exact htop.symm
    · rw [Entry.above?, hq, hparent]
      rfl
  · exact hs.filter_entries hroot p

/-- Every node is counted as one of its kind. -/
theorem length_nodes (s : Store) :
    s.nodes.length = s.stats.folders + s.stats.configurations + s.stats.snapshots := by
  simp only [stats]
  induction s.nodes with
  | nil => rfl
  | cons n ns ih =>
    simp only [List.length_cons, List.countP_cons, ih]
    cases n.kind <;> simp <;> omega

variable {entries : List Entry}

/-- An outline is as long as the counts of the three kinds say. -/
theorem IsOutlined.length_eq (h : s.IsOutlined entries) :
    entries.length = s.stats.folders + s.stats.configurations + s.stats.snapshots := by
  rw [← length_nodes, ← h.nodes.length_eq, List.length_map]

/-- Cut at its line breaks, the printed outline is the list of its lines. -/
theorem IsOutlined.splitOn_unlines (h : s.IsOutlined entries) (hne : s.nodes ≠ [])
    (hbreaks : ∀ n ∈ s.nodes, '\n' ∉ n.name.toList ∧ '\n' ∉ n.id.toList) :
    (Command.unlines (entries.map Entry.line)).toList.splitOn '\n' =
      entries.map (·.line.toList) := by
  rw [Command.splitOn_unlines, List.map_map]
  · rfl
  · intro hnil
    rw [List.map_eq_nil_iff] at hnil
    exact hne (List.nil_perm.1 (by simpa [hnil] using h.nodes))
  · intro line hline
    obtain ⟨e, he, rfl⟩ := List.mem_map.1 hline
    obtain ⟨hname, hid⟩ := hbreaks e.node (h.nodes.mem_iff.1 (List.mem_map_of_mem he))
    exact e.lineBreak_notMem_line hname hid

end Store

namespace Service

/-- The renderings of the tree of an archive. The walk ends by itself, with one result, and meets
each node once, a draft too, below its parent and at its depth, and siblings as they are listed. Its
lines and its nested records have these nodes in this order, and the printed records are read back
as such. If no name and no identifier has a line break, the text has as many lines as folders,
configurations and snapshots are counted. -/
theorem Reachable.outlines_complete {a : Archive} {ts : List (Transaction Answer)}
    (h : Reachable ⟨a, ts⟩) : ∃ (s : Store) (st : Stats) (root : Node) (t : Tree) (text : String)
      (v : Value), a.store = some s ∧
      Query.stats.ask a = .ok (.stats st) ∧
      (∀ n ∈ s.nodes, (Query.children n.id).ask a = .ok (.nodes (s.children n.id))) ∧
      s.node? rootId = some root ∧ (∀ u, s.Spans root u ↔ u = t) ∧ s.IsOutlined (t.entries 0) ∧
      (∀ (hold : Hold) (between : Archive → Archive) (c : Context) (settings : Settings)
        (user : String),
        a.run hold between (Command.call c settings user (.tree false)) = (.ok (.ok text), a) ∧
        a.run hold between (Command.call c settings user (.tree true)) =
          (.ok (.ok v.pretty), a)) ∧
      text = Command.unlines ((t.entries 0).map Entry.line) ∧
      ((∀ n ∈ s.nodes, '\n' ∉ n.name.toList ∧ '\n' ∉ n.id.toList) →
        text.toList.splitOn '\n' = (t.entries 0).map (·.line.toList) ∧
        (text.toList.splitOn '\n').length = st.folders + st.configurations + st.snapshots) ∧
      v.nested 0 = (t.entries 0).map (fun e => (e.depth, e.node.record)) ∧
      ∃ w, Value.ofText? v.pretty = some w ∧
        w.nested 0 = (t.entries 0).map fun e => (e.depth, e.node.record.asWritten) := by
  obtain ⟨⟨s, hs, hsound⟩, -⟩ := h.isSound
  have htree := hsound.tree
  obtain ⟨root, hmem, hid, -⟩ := htree.root
  have hroot : s.node? rootId = some root := hid ▸ node?_of_mem htree.nodup hmem
  have houtlined := htree.isOutlined hroot
  have hwalk : s.tree = .ok (s.treeBelow s.nodes.length root) := by
    rw [tree, require_eq_ok_iff.2 hroot]
    rfl
  refine ⟨s, s.stats, root, s.treeBelow s.nodes.length root, _, _, hs, read_of_store hs _,
    fun n hn => ?_, hroot, fun u => ?_, houtlined,
    fun hold between c settings user => ⟨?_, ?_⟩, rfl, fun hbreaks => ?_, Tree.nested_record _ 0,
    Tree.nested_ofText? _⟩
  · exact (read_of_store hs _).trans (by
      rw [Query.answer, childNodes, require_eq_ok_iff.2 (node?_of_mem htree.nodup hn)]
      rfl)
  · have hspans := htree.spans_treeBelow hmem (Nat.le_add_left s.nodes.length (s.depth root.id))
    exact ⟨fun hu => hu.unique hspans, fun hu => hu ▸ hspans⟩
  · refine Prod.ext ?_ rfl
    refine (read_of_store hs _).trans ?_
    rw [Command.rendering, hwalk, ← Tree.lines_eq]
    rfl
  · refine Prod.ext ?_ rfl
    refine (read_of_store hs _).trans ?_
    rw [Command.rendering, hwalk]
    rfl
  · have hsplit := houtlined.splitOn_unlines (List.ne_nil_of_mem hmem) hbreaks
    rw [hsplit, List.length_map]
    exact ⟨rfl, houtlined.length_eq⟩

/-- Of seven nodes one is a draft, which stands three deep. Seven lines are printed, and seven
nested records. -/
theorem outlines_complete_sketched : ∃ s t text document w, sketched.store = some s ∧
    s.IsOutlined (Tree.entries 0 t) ∧
    (∀ (c : Context) (settings : Settings) (user : String),
      sketched.run .nothing id (Command.call c settings user (.tree false)) =
        (.ok (.ok text), sketched) ∧
      sketched.run .nothing id (Command.call c settings user (.tree true)) =
        (.ok (.ok document), sketched)) ∧
    (text.toList.splitOn '\n').length = 7 ∧ Value.ofText? document = some w ∧
    (w.nested 0).length = 7 ∧
    ∃ e ∈ t.entries 0, e.node.draft ∧ e.depth = 3 ∧ (3, e.node.record.asWritten) ∈ w.nested 0 := by
  obtain ⟨ts, h⟩ := reachable_sketched
  obtain ⟨s, st, root, t, text, v, hs, -, -, -, -, houtlined, hrun, -, hlines, -, w, hread,
    hnested⟩ := h.outlines_complete
  have hbreaks : ∀ s ∈ sketched.store, ∀ n ∈ s.nodes,
      '\n' ∉ n.name.toList ∧ '\n' ∉ n.id.toList := by
    decide +kernel
  obtain ⟨hsplit, -⟩ := hlines (hbreaks s hs)
  have hfacts : sketched.store.map (fun s => (s.nodes.length,
      (s.node? "d0").map fun n => (n.draft, (s.ancestorIds n.id).tail.length))) =
        some (7, some (true, 3)) := by
    decide +kernel
  rw [hs, Option.map_some, Option.some.injEq, Prod.mk.injEq, Option.map_eq_some_iff] at hfacts
  obtain ⟨hlength, n, hn, hdraft⟩ := hfacts
  obtain ⟨hdraft, hdepth⟩ := Prod.mk.inj hdraft
  have hseven : (t.entries 0).length = 7 := by
    rw [houtlined.length_eq, ← length_nodes, hlength]
  obtain ⟨e, he, rfl⟩ := List.mem_map.1 (houtlined.nodes.mem_iff.2 (node?_eq_some hn).1)
  have hthree : e.depth = 3 := (houtlined.depth e he).symm.trans hdepth
  refine ⟨s, t, text, _, w, hs, houtlined, hrun .nothing id, ?_, hread, ?_, e, he, hdraft, hthree,
    ?_⟩
  · rw [hsplit, List.length_map, hseven]
  · rw [hnested, List.length_map, hseven]
  · rw [hnested, ← hthree]
    exact List.mem_map_of_mem he

end Service

end SnapshotArchive
