import SnapshotArchive.Proofs.Tree.Edits

/-!
# Edits keep the names apart

A node that is added or changed suits its siblings, so the names stay apart; whatever else is
edited, no name comes to be.

* `Store.IsNamed.edit` : each edit keeps the rules for names.
-/

namespace SnapshotArchive

namespace Store

/-- Whether a store is well named depends on its nodes alone. -/
theorem IsNamed.of_nodes_eq {s t : Store} (h : s.IsNamed) (he : t.nodes = s.nodes) : t.IsNamed := by
  constructor <;> rw [he]
  exacts [h.drafts, h.names, h.siblings]

/-- Only snapshots are drafts. -/
theorem IsNamed.draft_iff {s : Store} (h : s.IsNamed) {n : Node} (hn : n ∈ s.nodes) :
    n.draft ↔ ∃ comment, n.content = .snapshot .draft comment := by
  rw [h.drafts n hn]
  constructor
  · intro hdraft
    match hcontent : n.content with
    | .snapshot .draft comment => exact ⟨comment, rfl⟩
    | .snapshot .committed _ => simp [hcontent, Content.isDraft] at hdraft
    | .folder => simp [hcontent, Content.isDraft] at hdraft
    | .configuration _ => simp [hcontent, Content.isDraft] at hdraft
  · rintro ⟨comment, hcontent⟩
    rw [hcontent]
    rfl

/-- Only snapshots are drafts. -/
theorem IsNamed.kind_of_draft {s : Store} (h : s.IsNamed) {n : Node} (hn : n ∈ s.nodes)
    (hd : n.draft) : n.kind = .snapshot := by
  obtain ⟨comment, hcontent⟩ := (h.draft_iff hn).1 hd
  rw [Node.kind, hcontent]
  rfl

/-- A node of another kind is no draft. -/
theorem IsNamed.draft_eq_false_of_kind {s : Store} (h : s.IsNamed) {n : Node} (hn : n ∈ s.nodes)
    (hk : n.kind ≠ .snapshot) : n.draft = false :=
  Bool.eq_false_iff.2 fun hd => hk (h.kind_of_draft hn hd)

/-- A suitable node can come to stand beside named nodes of other identifiers. -/
theorem IsNamed.of_suits {s t : Store} (h : s.IsNamed) {m : Node} (hm : s.Suits m)
    (ht : ∀ o ∈ t.nodes, o = m ∨ o ∈ s.nodes ∧ o.id ≠ m.id) : t.IsNamed := by
  refine ⟨fun o ho => ?_, fun o ho hd => ?_, fun o ho q hq hod hqd hp hk hname => ?_⟩
  · rcases ht o ho with rfl | ⟨ho, -⟩
    · exact hm.draft
    · exact h.drafts o ho
  · rcases ht o ho with rfl | ⟨ho, -⟩
    · exact hm.name hd
    · exact h.names o ho hd
  · rcases ht o ho with rfl | ⟨ho, hoid⟩ <;> rcases ht q hq with rfl | ⟨hq, hqid⟩
    · rfl
    · exact absurd hname.symm (hm.free hod q hq hqid hqd hp.symm hk.symm)
    · exact absurd hname (hm.free hqd o ho hoid hod hp hk)
    · exact h.siblings o ho q hq hod hqd hp hk hname

/-- Each edit keeps the rules for names. -/
theorem IsNamed.edit {s t : Store} (h : s.IsNamed) (e : Edit s t) : t.IsNamed := by
  cases e with
  | addNode _ _ _ hid hsuits =>
    refine h.of_suits hsuits fun o ho => ?_
    rcases List.mem_append.1 ho with ho | ho
    · exact .inr ⟨ho, not_mem_of_hasNode_eq_false hid ho⟩
    · exact .inl (List.mem_singleton.1 ho)
  | changeNode _ _ _ _ hsuits =>
    refine h.of_suits hsuits fun o ho => ?_
    exact (mem_replaceNode_iff.1 ho).imp_left And.left
  | @removeNodes ids =>
    have hsub : ∀ {o : Node}, o ∈ (s.removeNodes ids).nodes → o ∈ s.nodes :=
      fun ho => (mem_nodes_removeNodes_iff.1 ho).1
    exact ⟨fun o ho => h.drafts o (hsub ho), fun o ho => h.names o (hsub ho),
      fun o ho q hq => h.siblings o (hsub ho) q (hsub hq)⟩
  | addPv => exact h.of_nodes_eq rfl
  | changePv => exact h.of_nodes_eq rfl
  | removePv => exact h.of_nodes_eq rfl
  | addItem => exact h.of_nodes_eq rfl
  | removeItems => exact h.of_nodes_eq rfl
  | addTag => exact h.of_nodes_eq rfl
  | removeTags => exact h.of_nodes_eq rfl

end Store

end SnapshotArchive
