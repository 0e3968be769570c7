import SnapshotArchive.Proofs.Interleaving

/-!
# Changes of nodes are checked completely

Whatever an operation does to a node it has checked before, so that the tables accept it: the
identifier is new, the parent is there, and the name is free. In a sound store a name that was found
free is held by no sibling, and a name that is kept is held by none but the node itself.

* `Write.IsChecked` : what a write planned fails only by checks.
* `Store.addNode_checked`, `Store.changeNode_checked` : the single changes.
* `createNode_checked`, `updateNode_checked`, `deleteNode_checked`, `Batch.write_checked` : the
  operations.
-/

namespace SnapshotArchive

open Store

/-- A write whose transaction fails only by checks, wherever it was planned, if the identifiers that
are generated for it are new to the store in which it is committed. -/
def Write.IsChecked {α : Type} (c : Context) (w : Write α) : Prop :=
  ∀ s₀ s t, w s₀ = .ok t → s.IsSound → c.IsFreshFor s → Checked (t s)

/-- Another answer makes no difference to how a write fails. -/
theorem Write.IsChecked.map {α β : Type} {c : Context} {w : Write α} (h : w.IsChecked c)
    (f : α → β) : (w.map f).IsChecked c := by
  intro s₀ s t hplan hs hfresh
  obtain ⟨u, hu, rfl⟩ := map_eq_ok_iff.1 hplan
  exact (h s₀ s u hu hs hfresh).map _

namespace Store

variable {s : Store}

/-- A name that was found free is held by none but the node that asked. -/
theorem eq_of_checkNameFree (hs : s.IsNamed) {parent : Option Id} {kind : Kind} {name : String}
    {self : Option Id} (h : s.checkNameFree parent kind name self = .ok ()) {o : Node}
    (ho : o ∈ s.nodes) (hholds : holdsName parent kind name o) : self = some o.id := by
  cases hfound : s.sibling? parent kind name with
  | none => exact absurd hholds (sibling?_isNone_iff.1 (by simp [hfound]) o ho)
  | some holder =>
    obtain ⟨-, hp, hk, hname, hd⟩ := holdsName_iff.1 (List.find?_some hfound)
    obtain ⟨-, hp', hk', hname', hd'⟩ := holdsName_iff.1 hholds
    obtain rfl := hs.siblings holder (List.mem_of_find?_eq_some hfound) o ho hd hd'
      (hp.trans hp'.symm) (hk.trans hk'.symm) (hname.trans hname'.symm)
    exact checkNameFree_eq_ok_iff.1 h holder hfound

/-- A new node with an author can be added below a node that is there. -/
theorem addNode_checked {c : Context} {id : Id} {parent : Node} {name : String} {content : Content}
    {draft : Bool} {properties : Properties} {user : Option String} (hp : parent ∈ s.nodes)
    (hid : s.hasNode id = false) (huser : user.isSome) :
    Checked (s.addNode c id parent name content draft properties user) := by
  obtain ⟨writer, rfl⟩ := Option.isSome_iff_exists.1 huser
  refine (Checked.checkChild parent content.kind).bind fun _ _ => ?_
  refine .ite_bind (.ok ()) (.checkNameFree _ _ _ _ _) fun _ hname =>
    .of_eq_ok ⟨_, insertNode_eq_ok_iff.2 ⟨hid, ?_, ?_, rfl⟩⟩
  · cases draft with
    | true => exact .inl rfl
    | false =>
      refine .inr (Option.isNone_iff_eq_none.2 (Option.eq_none_iff_forall_ne_some.2 ?_))
      exact fun holder hholder => nomatch checkNameFree_eq_ok_iff.1 hname holder hholder
  · simpa using ⟨parent, hp, rfl⟩

/-- A node that stays in its place can be changed, if it is a draft then, keeps its name, or gets
one that was found free. -/
theorem changeNode_checked (hs : s.IsSound) {n : Node} (hn : n ∈ s.nodes) {f : Node → Node}
    (hid : (f n).id = n.id) (hk : (f n).kind = n.kind) (hp : (f n).parent = n.parent)
    (hfree : (f n).draft = false → n.draft = false ∧ (f n).name = n.name ∨ n.parent = none ∨
      ∃ self, (∀ id ∈ self, id = n.id) ∧
        s.checkNameFree n.parent n.kind (f n).name self = .ok ()) :
    Checked (s.changeNode n.id f) := by
  refine .of_eq_ok ⟨_, changeNode_ok hs.tree hn hid (.inl hp) fun hd o ho hne hholds => hne ?_⟩
  rw [hp, hk] at hholds
  rcases hfree hd with ⟨hnd, hname⟩ | hnone | ⟨self, hself, hcheck⟩
  · obtain ⟨-, hop, hok, hoName, hod⟩ := holdsName_iff.1 hholds
    rw [hs.named.siblings o ho n hn hod hnd hop hok (hoName.trans hname)]
  · obtain ⟨hsome, hop, -⟩ := holdsName_iff.1 hholds
    rw [hop, hnone] at hsome
    cases hsome
  · exact hself _ (eq_of_checkNameFree hs.named hcheck ho hholds)

end Store

/-! ### The operations -/

section

variable {c : Context}

/-- Creating a node for a named author fails only by checks. -/
theorem createNode_checked {parent : Id} {form : NodeForm} {user : Option String}
    (huser : (author user form.user).isSome) : (createNode c parent form user).IsChecked c := by
  intro s₀ s t hplan _ hfresh
  obtain ⟨-, hplan⟩ := demand_bind_eq_ok_iff.1 hplan
  obtain ⟨name, -, hplan⟩ := bind_eq_ok_iff.1 hplan
  obtain rfl := Except.ok.inj hplan
  refine (Checked.require s parent).bind fun p hp => ?_
  obtain ⟨hp, -⟩ := node?_eq_some (require_eq_ok_iff.1 hp)
  exact (addNode_checked hp (hfresh.nodes 0) huser).bind fun s₁ _ => .answerNode s₁ _

/-- Updating a node fails only by checks. -/
theorem updateNode_checked {form : NodeForm} {keepTime : Bool} :
    (updateNode c form keepTime).IsChecked c := by
  intro s₀ s t hplan hs _
  obtain ⟨name, -, hplan⟩ := bind_eq_ok_iff.1 hplan
  obtain rfl := Except.ok.inj hplan
  refine (Checked.require s form.id).bind fun n hn => ?_
  obtain ⟨hn, -⟩ := node?_eq_some (require_eq_ok_iff.1 hn)
  refine .ensure_bind trivial fun _ => .ensure_bind trivial fun _ => .ensure_bind trivial fun _ =>
    (Checked.checkSnapshotUpdate _ _ _).bind fun _ _ => ?_
  refine .ite_bind (.ok ()) (.checkNameFree _ _ _ _ _) fun _ hfree => ?_
  refine (changeNode_checked hs hn rfl rfl rfl fun hd => ?_).bind fun s₁ _ => .answerNode s₁ _
  split at hfree
  · rename_i hkept
    exact hkept.imp (fun hsame => ⟨hd, hsame⟩) .inl
  · exact .inr (.inr ⟨some n.id, fun id hid => (Option.some.inj hid).symm, hfree⟩)

/-- Deleting a node fails only by checks. -/
theorem deleteNode_checked {id : Id} : (deleteNode id).IsChecked c := by
  intro s₀ s t hplan _ _
  obtain rfl := Except.ok.inj hplan
  exact (Checked.require s id).bind fun n _ => .ensure_bind trivial fun _ => .ok _

/-- What a batch does after its checks does not fail. -/
theorem Batch.write_checked (p : Policy) (b : Batch) : (b.operation.write c p).IsChecked c := by
  intro s₀ s t hplan hs hfresh
  rw [b.write_eq] at hplan
  obtain ⟨planned, -, rfl⟩ := map_eq_ok_iff.1 hplan
  refine (b.checked_check p s).recheck.bind fun nodes hcheck => ?_
  refine .ite_bind (.ok ()) (.checkUnmoved _ _) fun _ _ => .of_eq_ok ?_
  exact Batch.work_ok hs (recheck_eq_ok_iff.1 hcheck) fun _ => hfresh

end

end SnapshotArchive
