import SnapshotArchive.Proofs.Names

/-!
# Edits keep the owners

Variables, items and tags belong to nodes, and items to variables too. A node that changes stays of
its kind, a snapshot stays below its configuration and, once committed, stays committed; a node that
is deleted takes what belongs to it along. What is added has its owners there.

* `Store.IsOwned.edit` : each edit keeps the rules for owners.
* `Store.IsSound.edits` : a run of edits keeps all three rules.
-/

namespace SnapshotArchive

namespace Store

/-! ### Lists of records that differ -/

/-- A list stays free of doubles if the appended element is new to it. -/
theorem nodup_map_append_singleton {α β : Type} {f : α → β} {l : List α} {a : α}
    (h : (l.map f).Nodup) (ha : ∀ b ∈ l, f b ≠ f a) : ((l ++ [a]).map f).Nodup := by
  rw [List.map_append, List.nodup_append]
  refine ⟨h, List.nodup_singleton _, ?_⟩
  simp only [List.map_cons, List.map_nil, List.mem_singleton, List.mem_map]
  rintro x ⟨b, hb, rfl⟩ y rfl
  exact ha b hb

/-- A relation between all pairs survives an element related to all before it. -/
theorem pairwise_append_singleton {α : Type} {r : α → α → Prop} {l : List α} {a : α}
    (h : l.Pairwise r) (ha : ∀ b ∈ l, r b a) : (l ++ [a]).Pairwise r := by
  refine List.pairwise_append.2 ⟨h, List.pairwise_singleton _ _, fun b hb c hc => ?_⟩
  exact List.mem_singleton.1 hc ▸ ha b hb

namespace IsOwned

variable {s : Store} (h : s.IsOwned)

include h

/-! ### Nodes -/

/-- The owners stay if each node has another in its place that is as good an owner. -/
theorem of_nodes {nodes : List Node}
    (hplace : ∀ n ∈ s.nodes, ∃ n' ∈ nodes, n'.id = n.id ∧ n'.kind = n.kind ∧
      (n.draft = false → n'.draft = false) ∧ (n.kind = .snapshot → n'.parent = n.parent)) :
    IsOwned { s with nodes } := by
  refine { h with
    pvOwner := fun pv hpv => ?_
    itemOwner := fun item hi => ?_
    tagOwner := fun tag ht => ?_ }
  · obtain ⟨c, hc, hid, hk⟩ := h.pvOwner pv hpv
    obtain ⟨c', hc', hid', hk', -⟩ := hplace c hc
    exact ⟨c', hc', hid'.trans hid, hk'.trans hk⟩
  · obtain ⟨n, hn, hid, hk, pv, hpv, he, hp⟩ := h.itemOwner item hi
    obtain ⟨n', hn', hid', hk', -, hp'⟩ := hplace n hn
    exact ⟨n', hn', hid'.trans hid, hk'.trans hk, pv, hpv, he, (hp' hk).trans hp⟩
  · obtain ⟨n, hn, hid, hk, hd⟩ := h.tagOwner tag ht
    obtain ⟨n', hn', hid', hk', hd', -⟩ := hplace n hn
    exact ⟨n', hn', hid'.trans hid, hk'.trans hk, hd' hd⟩

/-- A further node takes no row from its owner. -/
theorem addNode (n : Node) : IsOwned { s with nodes := s.nodes ++ [n] } :=
  h.of_nodes fun o ho => ⟨o, List.mem_append_left _ ho, rfl, rfl, id, fun _ => rfl⟩

/-- Nor does a node replaced by one of its kind, below a place it may enter. -/
theorem changeNode (hs : s.IsTree) {n m : Node} (hn : n ∈ s.nodes) (hid : m.id = n.id)
    (hk : m.kind = n.kind) (hd : m.draft → n.draft)
    (hp : m.parent = n.parent ∨ ∃ target, m.parent = some target.id ∧ s.MayEnter n target) :
    (s.replaceNode m).IsOwned := by
  refine h.of_nodes fun o ho => ?_
  obtain ⟨o', ho', he, ⟨rfl, rfl⟩ | rfl⟩ := exists_mem_replaceNode hn hid hs.nodup ho
  · refine ⟨o', ho', he, hk, fun hod => ?_, fun hsnapshot => ?_⟩
    · cases hm : o'.draft
      · rfl
      · exact absurd (hd hm) (by simp [hod])
    · rcases hp with hp | ⟨_, -, henter⟩
      · exact hp
      · exact absurd hsnapshot (Kind.ne_snapshot_of_isMovable henter.movable)
  · exact ⟨o', ho', rfl, rfl, id, fun _ => rfl⟩

/-- Nor do removed nodes, if all below them is removed too. -/
theorem removeNodes {ids : List Id}
    (hclosed : ∀ n ∈ s.nodes, ∀ p ∈ ids, n.parent = some p → n.id ∈ ids) :
    (s.removeNodes ids).IsOwned := by
  refine ⟨h.pvIds.sublist (List.filter_sublist.map _), fun pv hmem => ?_, fun pv hmem => ?_,
    fun p hp q hq => ?_, fun item hmem => ?_, h.itemOnce.filter _, fun tag hmem => ?_,
    h.tagOnce.filter _⟩
  · obtain ⟨hmem, hconfig⟩ := mem_pvs_removeNodes_iff.1 hmem
    obtain ⟨c, hc, hid, hk⟩ := h.pvOwner pv hmem
    exact ⟨c, mem_nodes_removeNodes_iff.2 ⟨hc, hid ▸ hconfig⟩, hid, hk⟩
  · exact h.pvName pv (mem_pvs_removeNodes_iff.1 hmem).1
  · exact h.activePvs p (mem_pvs_removeNodes_iff.1 hp).1 q (mem_pvs_removeNodes_iff.1 hq).1
  · obtain ⟨hitem, hkeep⟩ := List.mem_filter.1 hmem
    simp only [Bool.and_eq_true, decide_eq_true_eq] at hkeep
    obtain ⟨n, hn, hid, hk, pv, hmem, he, hp⟩ := h.itemOwner item hitem
    -- With its configuration the snapshot would be gone.
    have hconfig : pv.config ∉ ids := fun hc => hkeep.1 (hid ▸ hclosed n hn _ hc hp)
    exact ⟨n, mem_nodes_removeNodes_iff.2 ⟨hn, hid ▸ hkeep.1⟩, hid, hk, pv,
      mem_pvs_removeNodes_iff.2 ⟨hmem, hconfig⟩, he, hp⟩
  · obtain ⟨htag, hkeep⟩ := List.mem_filter.1 hmem
    obtain ⟨n, hn, hid, hrest⟩ := h.tagOwner tag htag
    exact ⟨n, mem_nodes_removeNodes_iff.2 ⟨hn, by simpa [hid] using hkeep⟩, hid, hrest⟩

/-! ### Variables -/

/-- A suitable variable can come to stand beside variables of other identifiers. -/
theorem of_suitsPv {pvs : List Pv} {q : Pv} (hq : s.SuitsPv q) (hids : (pvs.map (·.id)).Nodup)
    (howner : ∃ c ∈ s.nodes, c.id = q.config ∧ c.kind = .configuration)
    (hpvs : ∀ o ∈ pvs, o = q ∨ o ∈ s.pvs ∧ o.id ≠ q.id)
    (hplace : ∀ o ∈ s.pvs, ∃ o' ∈ pvs, o'.id = o.id ∧ o'.config = o.config) :
    IsOwned { s with pvs } := by
  refine { h with
    pvIds := hids
    pvOwner := fun o ho => ?_
    pvName := fun o ho => ?_
    activePvs := fun o ho p hp hoa hpa hc hname => ?_
    itemOwner := fun item hi => ?_ }
  · rcases hpvs o ho with rfl | ⟨ho, -⟩
    · exact howner
    · exact h.pvOwner o ho
  · rcases hpvs o ho with rfl | ⟨ho, -⟩
    · exact hq.name
    · exact h.pvName o ho
  · rcases hpvs o ho with rfl | ⟨ho, hoid⟩ <;> rcases hpvs p hp with rfl | ⟨hp, hpid⟩
    · rfl
    · exact absurd hname.symm (hq.free hoa p hp hpid hpa hc.symm)
    · exact absurd hname (hq.free hpa o ho hoid hoa hc)
    · exact h.activePvs o ho p hp hoa hpa hc hname
  · obtain ⟨n, hn, hid, hk, pv, hpv, he, hp⟩ := h.itemOwner item hi
    obtain ⟨pv', hpv', he', hc'⟩ := hplace pv hpv
    exact ⟨n, hn, hid, hk, pv', hpv', he'.trans he, hc' ▸ hp⟩

/-- Nor does a new variable of a configuration that has none like it. -/
theorem addPv {c : Node} {pv : Pv} (hc : c ∈ s.nodes) (hid : c.id = pv.config)
    (hk : c.kind = .configuration) (hnew : ∀ o ∈ s.pvs, o.id ≠ pv.id) (hsuits : s.SuitsPv pv) :
    IsOwned { s with pvs := s.pvs ++ [pv] } := by
  refine h.of_suitsPv hsuits (nodup_map_append_singleton h.pvIds hnew) ⟨c, hc, hid, hk⟩
    (fun o ho => ?_) fun o ho => ⟨o, List.mem_append_left _ ho, rfl, rfl⟩
  rcases List.mem_append.1 ho with ho | ho
  · exact .inr ⟨ho, hnew o ho⟩
  · exact .inl (List.mem_singleton.1 ho)

/-- Nor does a changed variable that still suits its configuration. -/
theorem changePv {p q : Pv} (hp : p ∈ s.pvs) (hid : q.id = p.id) (hc : q.config = p.config)
    (hsuits : s.SuitsPv q) : (s.replacePv q).IsOwned := by
  have hids : ((s.replacePv q).pvs.map (·.id)).Nodup := by
    rw [map_id_replacePv]
    exact h.pvIds
  refine h.of_suitsPv hsuits hids (hc ▸ h.pvOwner p hp)
    (fun o ho => (mem_replacePv_iff.1 ho).imp_left And.left) fun o ho => ?_
  by_cases hne : o.id = q.id
  · obtain rfl := pv_eq_of_id_eq h.pvIds ho hp (hne.trans hid)
    exact ⟨q, mem_replacePv_iff.2 (.inl ⟨rfl, o, ho, hne⟩), hid, hc⟩
  · exact ⟨o, mem_replacePv_iff.2 (.inr ⟨ho, hne⟩), rfl, rfl⟩

/-- Nor does a removed variable. -/
theorem removePv (id : Id) : (s.removePv id).IsOwned := by
  refine { h with
    pvIds := h.pvIds.sublist (List.filter_sublist.map _)
    pvOwner := fun pv hmem => h.pvOwner pv (mem_pvs_removePv_iff.1 hmem).1
    pvName := fun pv hmem => h.pvName pv (mem_pvs_removePv_iff.1 hmem).1
    activePvs := fun p hp q hq =>
      h.activePvs p (mem_pvs_removePv_iff.1 hp).1 q (mem_pvs_removePv_iff.1 hq).1
    itemOwner := fun item hmem => ?_
    itemOnce := h.itemOnce.filter _ }
  obtain ⟨hitem, hkeep⟩ := List.mem_filter.1 hmem
  obtain ⟨n, hn, hid, hk, pv, hmem, he, hp⟩ := h.itemOwner item hitem
  exact ⟨n, hn, hid, hk, pv, mem_pvs_removePv_iff.2 ⟨hmem, by simpa [he] using hkeep⟩, he, hp⟩

/-! ### Items and tags -/

/-- Nor does a new item the snapshot may hold. -/
theorem addItem {n : Node} {item : Item} (hn : n ∈ s.nodes) (hholds : s.HoldsItem n item)
    (hnew : ∀ i ∈ s.items, i.snapshot ≠ item.snapshot ∨ i.pv ≠ item.pv) :
    IsOwned { s with items := s.items ++ [item] } := by
  refine { h with
    itemOwner := fun i hi => ?_
    itemOnce := pairwise_append_singleton h.itemOnce hnew }
  rcases List.mem_append.1 hi with hi | hi
  · exact h.itemOwner i hi
  · obtain rfl := List.mem_singleton.1 hi
    exact ⟨n, hn, hholds⟩

/-- Nor does a new tag of a snapshot that is no draft. -/
theorem addTag {n : Node} {tag : Tag} (hn : n ∈ s.nodes) (hid : n.id = tag.snapshot)
    (hk : n.kind = .snapshot) (hd : n.draft = false)
    (hnew : ∀ t ∈ s.tags, t.snapshot ≠ tag.snapshot ∨ t.name ≠ tag.name) :
    IsOwned { s with tags := s.tags ++ [tag] } := by
  refine { h with
    tagOwner := fun t ht => ?_
    tagOnce := pairwise_append_singleton h.tagOnce hnew }
  rcases List.mem_append.1 ht with ht | ht
  · exact h.tagOwner t ht
  · obtain rfl := List.mem_singleton.1 ht
    exact ⟨n, hn, hid, hk, hd⟩

/-- Each edit keeps the rules for owners. -/
theorem edit (hs : s.IsTree) {t : Store} (e : Edit s t) : t.IsOwned := by
  cases e with
  | addNode => exact h.addNode _
  | changeNode hn hid hk hd _ hp => exact h.changeNode hs hn hid hk hd hp
  | removeNodes _ hclosed => exact h.removeNodes hclosed
  | addPv hc hid hk hnew hsuits => exact h.addPv hc hid hk hnew hsuits
  | changePv hp hid hc hsuits => exact h.changePv hp hid hc hsuits
  | removePv id => exact h.removePv id
  | addItem hn hholds hnew => exact h.addItem hn hholds hnew
  | removeItems p =>
    exact { h with
      itemOwner := fun i hi => h.itemOwner i (List.mem_filter.1 hi).1
      itemOnce := h.itemOnce.filter _ }
  | addTag hn hid hk hd hnew => exact h.addTag hn hid hk hd hnew
  | removeTags p =>
    exact { h with
      tagOwner := fun t ht => h.tagOwner t (List.mem_filter.1 ht).1
      tagOnce := h.tagOnce.filter _ }

end IsOwned

/-! ### All rules -/

/-- An edit keeps a store sound. -/
theorem IsSound.edit {s t : Store} (h : s.IsSound) (e : Edit s t) : t.IsSound :=
  ⟨h.tree.edit e, h.named.edit e, h.owned.edit h.tree e⟩

/-- A run of edits keeps all three rules. -/
theorem IsSound.edits {s t : Store} (h : s.IsSound) (e : Edits s t) : t.IsSound := by
  induction e with
  | refl => exact h
  | tail _ hlast ih => exact ih.edit hlast

/-- Going through a list by edits is a run of edits. -/
theorem IsSound.foldl_edits {α : Type} {f : Store → α → Store}
    (hf : ∀ {s : Store}, s.IsSound → ∀ a, s.Edits (f s a)) (as : List α) {s : Store}
    (h : s.IsSound) : s.Edits (as.foldl f s) := by
  induction as generalizing s with
  | nil => exact .refl
  | cons a as ih => exact (hf h a).trans (ih (h.edits (hf h a)))

end Store

end SnapshotArchive
