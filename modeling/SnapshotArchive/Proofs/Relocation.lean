import SnapshotArchive.Proofs.Completeness

/-!
# What the answer to "may these be moved?" says

Clients ask whether nodes may be moved or copied into a target before they let a user confirm it.
The answer is that of the check which the operations make themselves, so it foretells them, if the
check is all that can make them fail. It is: what follows a check that passes succeeds
(`Batch.work_ok`).

The three operations ask for different things of the names in the target. A move forgives a node
that its own name is in its way, a copy that is refused for names does not, and a copy that is given
another name does not look at them. So one question foretells all three, but the second only for
nodes that lie elsewhere, and the third only in a store without the nodes whose names are in the way
(`Store.withoutNamesakes`).

* `Store.isRelocation_reject_iff` : copies that are refused for names.
* `Store.isRelocation_withoutNamesakes_iff` : copies that are given other names.
* `Service.Reachable.relocation_predicted` : the answer to the question, and the three operations.
-/

namespace SnapshotArchive

open Store Archive Sample

/-! ### Steps that fail -/

/-- Two steps fail as the first does, or as the second after it. -/
theorem bind_eq_error_iff {α β : Type} {x : Except Failure α} {k : α → Except Failure β}
    {f : Failure} : (x >>= k) = .error f ↔ x = .error f ∨ ∃ a, x = .ok a ∧ k a = .error f := by
  cases x <;> simp [bind, Except.bind]

/-- An answer renamed fails as the answer does. -/
theorem map_eq_error_iff {α β : Type} {x : Except Failure α} {g : α → β} {f : Failure} :
    x.map g = .error f ↔ x = .error f := by
  cases x <;> simp [Except.map]

/-- What fails for something found is refused for it. -/
theorem refuseFound_eq_error {α : Type} {found : Option α} {r : α → Refusal} {f : Failure}
    (h : refuseFound found r = .error f) : ∃ a, f = .refused (r a) := by
  cases found with
  | none => cases h
  | some a => exact ⟨a, (Except.error.inj h).symm⟩

namespace Store

variable {s : Store} {ids : List Id} {nodes : List Node} {target : Id} {t : Node}

/-! ### The name of a node in its target -/

/-- A selected node that lies in the target is in its own way. -/
theorem sibling?_of_mem_target (hs : s.IsSound) {n : Node} (hn : n ∈ s.nodes)
    (hmovable : n.kind.isMovable) (hp : n.parent = some target) :
    s.sibling? target n.kind n.name = some n := by
  have hdraft : n.draft = false :=
    hs.named.draft_eq_false_of_kind hn (Kind.ne_snapshot_of_isMovable hmovable)
  have hholds : holdsName target n.kind n.name n :=
    holdsName_iff.2 ⟨by simp [hp], hp, rfl, rfl, hdraft⟩
  cases hfound : s.sibling? target n.kind n.name with
  | none => exact absurd hholds (sibling?_isNone_iff.1 (by simp [hfound]) n hn)
  | some holder =>
    obtain ⟨-, hhp, hk, hname, hd⟩ := holdsName_iff.1 (List.find?_some hfound)
    have hholder : holder ∈ s.nodes := List.mem_of_find?_eq_some hfound
    rw [hs.named.siblings holder hholder n hn hd hdraft (hhp.trans hp.symm) hk hname]

/-- Nodes can be copied under their names exactly if they can be moved and lie elsewhere. -/
theorem isRelocation_reject_iff (hs : s.IsSound) :
    s.IsRelocation ids target false true nodes t ↔
      s.IsRelocation ids target true true nodes t ∧ ∀ n ∈ nodes, n.parent ≠ some target := by
  constructor
  · intro h
    refine ⟨{ h with free := fun hby n hn => ?_ }, fun n hn hp => ?_⟩
    · have hfree := h.free hby n hn
      cases hfound : s.sibling? target n.kind n.name with
      | none => simp [obstacle?, hfound]
      | some holder => simp [obstacle?, hfound] at hfree
    · have hself := sibling?_of_mem_target hs (h.selection.mem hn) (h.movable n hn) hp
      have hfree := h.free rfl n hn
      simp [obstacle?, hself] at hfree
  · rintro ⟨h, helsewhere⟩
    refine { h with free := fun hby n hn => ?_ }
    have hfree := h.free hby n hn
    cases hfound : s.sibling? target n.kind n.name with
    | none => simp [obstacle?, hfound]
    | some holder =>
      -- The holder is not the node itself, which lies elsewhere.
      obtain ⟨-, hp, -⟩ := holdsName_iff.1 (List.find?_some hfound)
      have hne : holder.id ≠ n.id := by
        intro he
        have hholder : holder ∈ s.nodes := List.mem_of_find?_eq_some hfound
        obtain rfl := eq_of_id_eq hs.tree.nodup hholder (h.selection.mem hn) he
        exact helsewhere holder hn hp
      simp [obstacle?, hfound, hne] at hfree

/-! ### A target without namesakes -/

/-- Whether a child of the target has the kind and the name of a selected node and is not selected
itself. -/
def isNamesake (s : Store) (target : Id) (ids : List Id) (m : Node) : Bool :=
  m.id ∉ ids && s.nodes.any fun n => n.id ∈ ids && holdsName (some target) n.kind n.name m

/-- The store without the children of a target whose names are in the way of selected nodes. -/
def withoutNamesakes (s : Store) (target : Id) (ids : List Id) : Store :=
  { s with nodes := s.nodes.filter fun m => !s.isNamesake target ids m }

/-- Without the namesakes, the nodes are those that are none. -/
theorem mem_withoutNamesakes_iff {m : Node} :
    m ∈ (s.withoutNamesakes target ids).nodes ↔
      m ∈ s.nodes ∧ s.isNamesake target ids m = false := by
  simp [withoutNamesakes]

/-- Their identifiers stay apart. -/
theorem nodup_withoutNamesakes (hs : (s.nodes.map (·.id)).Nodup) (target : Id) (ids : List Id) :
    ((s.withoutNamesakes target ids).nodes.map (·.id)).Nodup :=
  hs.sublist (List.filter_sublist.map _)

/-- A node to be moved is no namesake of one. -/
theorem isNamesake_eq_false_of_mem {m : Node} (h : m.id ∈ ids) :
    s.isNamesake target ids m = false := by
  simp [isNamesake, h]

/-- Nor is a node elsewhere. -/
theorem isNamesake_eq_false_of_parent_ne {m : Node} (h : m.parent ≠ some target) :
    s.isNamesake target ids m = false := by
  refine Bool.eq_false_iff.2 fun hnamesake => h ?_
  simp only [isNamesake, Bool.and_eq_true, List.any_eq_true] at hnamesake
  obtain ⟨-, n, -, -, hholds⟩ := hnamesake
  exact (holdsName_iff.1 hholds).2.1

/-- A node that is no namesake is found as before. -/
theorem node?_withoutNamesakes (hs : (s.nodes.map (·.id)).Nodup) {n : Node}
    (hn : s.isNamesake target ids n = false) :
    (s.withoutNamesakes target ids).node? n.id = some n ↔ s.node? n.id = some n := by
  constructor
  · intro h
    exact node?_of_mem hs (mem_withoutNamesakes_iff.1 (node?_eq_some h).1).1
  · intro h
    have hmem := mem_withoutNamesakes_iff.2 ⟨(node?_eq_some h).1, hn⟩
    exact node?_of_mem (nodup_withoutNamesakes hs target ids) hmem

/-- A node on the way from another one up to the root does not lie in it. -/
theorem IsTree.parent_ne_of_mem_lineage (hs : s.IsTree) {ways : List Id}
    (h : s.Lineage target ways) {m : Node} (hm : m ∈ s.nodes) (hway : m.id ∈ ways) :
    m.parent ≠ some target := by
  intro hp
  obtain ⟨rest, hrest, hsuffix⟩ := h.suffix hway
  -- The way up from a child is longer than that of which it is a part.
  have he : rest = m.id :: ways := hrest.unique hs.nodup (.child hm hp h)
  have hle := hsuffix.length_le
  rw [he, List.length_cons] at hle
  omega

/-- A lineage stands in any store that has its nodes. -/
theorem Lineage.of_mem {s' : Store} {id : Id} {ways : List Id} (h : s.Lineage id ways)
    (hmem : ∀ n ∈ s.nodes, n.id ∈ ways → n ∈ s'.nodes) : s'.Lineage id ways := by
  induction h with
  | top hn hp => exact .top (hmem _ hn List.mem_cons_self) hp
  | child hn hp _ ih =>
    refine .child (hmem _ hn List.mem_cons_self) hp (ih fun m hm hway => ?_)
    exact hmem m hm (List.mem_cons_of_mem _ hway)

/-- The way from the target to the root meets none of its children. -/
theorem ancestorIds_withoutNamesakes (hs : s.IsTree) (ht : t ∈ s.nodes) :
    (s.withoutNamesakes t.id ids).ancestorIds t.id = s.ancestorIds t.id := by
  have hup := hs.lineage_ancestorIds ht
  have hup' : (s.withoutNamesakes t.id ids).Lineage t.id (s.ancestorIds t.id) := by
    refine hup.of_mem fun m hm hway => mem_withoutNamesakes_iff.2 ⟨hm, ?_⟩
    exact isNamesake_eq_false_of_parent_ne (hs.parent_ne_of_mem_lineage hup hm hway)
  have hnodup := nodup_withoutNamesakes hs.nodup t.id ids
  exact hup'.climb_eq hnodup (Nat.le_succ_of_le (hup'.length_le hnodup)) (by simp)

/-- The same nodes can be chosen with the namesakes and without. -/
theorem isSelection_withoutNamesakes_iff (hs : (s.nodes.map (·.id)).Nodup) :
    (s.withoutNamesakes target ids).IsSelection ids nodes ↔ s.IsSelection ids nodes := by
  have hfind : nodes.map (·.id) = ids → ∀ n ∈ nodes,
      ((s.withoutNamesakes target ids).node? n.id = some n ↔ s.node? n.id = some n) := by
    rintro rfl n hn
    exact node?_withoutNamesakes hs (isNamesake_eq_false_of_mem (List.mem_map_of_mem hn))
  constructor
  · intro h
    exact { h with find := fun n hn => (hfind h.ids_eq n hn).1 (h.find n hn) }
  · intro h
    exact { h with find := fun n hn => (hfind h.ids_eq n hn).2 (h.find n hn) }

/-- The target is found with them and without. -/
theorem node?_target_withoutNamesakes_iff (hs : s.IsTree) :
    (s.withoutNamesakes target ids).node? target = some t ↔ s.node? target = some t := by
  have hself : ∀ m ∈ s.nodes, m.id = target → m.parent ≠ some target := by
    rintro m hm rfl
    have hup := hs.lineage_ancestorIds hm
    refine hs.parent_ne_of_mem_lineage hup hm ?_
    exact (hs.mem_ancestorIds_iff hm).2 .refl
  constructor
  · intro h
    obtain ⟨ht, rfl⟩ := node?_eq_some h
    exact node?_of_mem hs.nodup (mem_withoutNamesakes_iff.1 ht).1
  · intro h
    obtain ⟨ht, rfl⟩ := node?_eq_some h
    have hkept : s.isNamesake t.id ids t = false :=
      isNamesake_eq_false_of_parent_ne (hself t ht rfl)
    exact (node?_withoutNamesakes hs.nodup hkept).2 h

/-- Nothing but a selected node that lies in the target already has its name there. -/
theorem obstacle?_withoutNamesakes (hs : s.IsSound) (h : s.IsSelection ids nodes)
    (hmovable : ∀ n ∈ nodes, n.kind.isMovable) {n : Node} (hn : n ∈ nodes) :
    (s.withoutNamesakes target ids).obstacle? target true n = none := by
  unfold obstacle?
  cases hfound : (s.withoutNamesakes target ids).sibling? target n.kind n.name with
  | none => rfl
  | some holder =>
    obtain ⟨hholder, hkept⟩ := mem_withoutNamesakes_iff.1 (List.mem_of_find?_eq_some hfound)
    have hholds : holdsName target n.kind n.name holder := List.find?_some hfound
    have hid : n.id ∈ ids := h.id_mem hn
    -- A holder that is not selected would be a namesake.
    have hselected : holder.id ∈ ids := by
      by_contra hnot
      have hnamesake : s.isNamesake target ids holder := by
        simp only [isNamesake, Bool.and_eq_true, List.any_eq_true, decide_eq_true_eq]
        exact ⟨hnot, n, h.mem hn, hid, hholds⟩
      rw [hnamesake] at hkept
      cases hkept
    have hsibling := h.siblings holder (h.mem_of_id_mem hs.tree hholder hselected) n hn
    obtain ⟨-, -, hk, hname, hd⟩ := holdsName_iff.1 hholds
    have hdraft : n.draft = false := hs.named.draft_eq_false_of_kind (h.mem hn)
      (Kind.ne_snapshot_of_isMovable (hmovable n hn))
    have hsame : holder = n :=
      hs.named.siblings holder hholder n (h.mem hn) hd hdraft hsibling hk hname
    simp [hsame]

/-- Nodes can be copied under other names exactly if they could be moved, were there no namesakes of
them in the target. -/
theorem isRelocation_withoutNamesakes_iff (hs : s.IsSound) {inPlace : Bool} :
    s.IsRelocation ids target inPlace false nodes t ↔
      (s.withoutNamesakes target ids).IsRelocation ids target true true nodes t := by
  constructor
  · intro h
    obtain ⟨ht, rfl⟩ := node?_eq_some h.found
    exact
      { selection := (isSelection_withoutNamesakes_iff hs.tree.nodup).2 h.selection
        movable := h.movable
        found := (node?_target_withoutNamesakes_iff hs.tree).2 h.found
        folder := h.folder
        outside := fun n hn => ancestorIds_withoutNamesakes hs.tree ht ▸ h.outside n hn
        free := fun _ n hn => obstacle?_withoutNamesakes hs h.selection h.movable hn }
  · intro h
    have hfound := (node?_target_withoutNamesakes_iff hs.tree).1 h.found
    obtain ⟨ht, rfl⟩ := node?_eq_some hfound
    exact
      { selection := (isSelection_withoutNamesakes_iff hs.tree.nodup).1 h.selection
        movable := h.movable
        found := hfound
        folder := h.folder
        outside := fun n hn => ancestorIds_withoutNamesakes hs.tree ht ▸ h.outside n hn
        free := fun hby => nomatch hby }

/-! ### Refusals of a check that does not look at names -/

/-- Only an unknown identifier fails to be required. -/
theorem require_eq_error {id : Id} {f : Failure} (h : s.require id = .error f) :
    f = .refused (.noNode id) := by
  unfold require at h
  split at h
  · cases h
  · exact (Except.error.inj h).symm

/-- Of several, one is unknown if they fail. -/
theorem requireAll_eq_error {f : Failure} (h : s.requireAll ids = .error f) :
    ∃ id, f = .refused (.noNode id) := by
  induction ids with
  | nil => cases h
  | cons id ids ih =>
    rcases bind_eq_error_iff.1 h with h | ⟨n, -, h⟩
    · exact ⟨id, require_eq_error h⟩
    · rcases bind_eq_error_iff.1 h with h | ⟨ns, -, h⟩
      · exact ih h
      · cases h

/-- A selection is never refused for a conflict. -/
theorem category_of_checkSelection {f : Failure} (h : s.checkSelection ids = .error f) :
    ∃ r : Refusal, f = .refused r ∧ r.category ≠ .conflict := by
  rcases bind_eq_error_iff.1 h with h | ⟨_, -, h⟩
  · obtain ⟨-, rfl⟩ := demand_eq_error_iff.1 h
    exact ⟨_, rfl, by decide⟩
  rcases bind_eq_error_iff.1 h with h | ⟨_, -, h⟩
  · obtain ⟨-, rfl⟩ := demand_eq_error_iff.1 h
    exact ⟨_, rfl, by decide⟩
  rcases bind_eq_error_iff.1 h with h | ⟨_, -, h⟩
  · obtain ⟨id, rfl⟩ := requireAll_eq_error h
    exact ⟨_, rfl, nofun⟩
  rcases bind_eq_error_iff.1 h with h | ⟨_, -, h⟩
  · obtain ⟨-, rfl⟩ := demand_eq_error_iff.1 h
    exact ⟨_, rfl, by decide⟩
  rcases bind_eq_error_iff.1 h with h | ⟨_, -, h⟩
  · obtain ⟨-, rfl⟩ := demand_eq_error_iff.1 h
    exact ⟨_, rfl, by decide⟩
  · cases h

/-- A check that does not look at names finds no conflict. -/
theorem category_of_checkRelocation {inPlace : Bool} {f : Failure}
    (h : s.checkRelocation ids target inPlace false = .error f) :
    ∃ r : Refusal, f = .refused r ∧ r.category ≠ .conflict := by
  rcases bind_eq_error_iff.1 h with h | ⟨nodes, -, h⟩
  · exact category_of_checkSelection h
  rcases bind_eq_error_iff.1 h with h | ⟨_, -, h⟩
  · obtain ⟨n, rfl⟩ := refuseFound_eq_error h
    exact ⟨_, rfl, nofun⟩
  rcases bind_eq_error_iff.1 h with h | ⟨t, -, h⟩
  · obtain rfl := require_eq_error h
    exact ⟨_, rfl, nofun⟩
  rcases bind_eq_error_iff.1 h with h | ⟨_, -, h⟩
  · obtain ⟨-, rfl⟩ := demand_eq_error_iff.1 h
    exact ⟨_, rfl, nofun⟩
  rcases bind_eq_error_iff.1 h with h | ⟨_, -, h⟩
  · obtain ⟨n, rfl⟩ := refuseFound_eq_error h
    exact ⟨_, rfl, nofun⟩
  · cases h

end Store

/-! ### How the operations end -/

namespace Archive

variable {a : Archive} {s : Store} {c : Context} {p : Policy}

/-- With nobody else about, a batch succeeds exactly if its check passes. -/
theorem run_batch_alone {b : Batch} (hs : a.store = some s) (hsound : s.IsSound)
    (hfresh : b.isCopy → c.IsFreshFor s) :
    (∃ answer, (a.run .nothing id (b.operation.call c p)).1 = .ok answer) ↔
      ∃ nodes, b.check p s = .ok nodes := by
  constructor
  · rintro ⟨answer, hanswer⟩
    cases hcheck : b.check p s with
    | ok nodes => exact ⟨nodes, rfl⟩
    | error f =>
      rw [run_batch_of_error hs hcheck] at hanswer
      cases hanswer
  · rintro ⟨nodes, hcheck⟩
    obtain ⟨answer, s', hcall⟩ := run_batch_of_check hs hsound hcheck hfresh
    exact ⟨answer, congrArg Prod.fst hcall⟩

variable {ids : List Id} {target : Id}

/-- The answer to the question whether nodes may be moved is yes or no. -/
theorem ask_relocationAllowed (hs : a.store = some s) (ids : List Id) (target : Id) :
    ∃ b : Bool, (Query.relocationAllowed ids target).ask a = .ok (.truth b) ∧
      (b ↔ ∃ nodes t, s.IsRelocation ids target true true nodes t) := by
  have hread : a.read (Query.relocationAllowed ids target).answer =
      (s.checkRelocation ids target true true).map fun _ => .truth true := read_of_store hs _
  cases hcheck : s.checkRelocation ids target true true with
  | ok found =>
    rw [hcheck] at hread
    refine ⟨true, by unfold Query.ask; rw [hread]; rfl, iff_of_true rfl ?_⟩
    exact ⟨found.1, found.2, checkRelocation_eq_ok_iff.1 hcheck⟩
  | error f =>
    obtain ⟨r, rfl, -⟩ := Checked.checkRelocation s ids target true true f hcheck
    rw [hcheck] at hread
    refine ⟨false, by unfold Query.ask; rw [hread]; rfl, iff_of_false Bool.false_ne_true ?_⟩
    rintro ⟨nodes, t, h⟩
    rw [checkRelocation_eq_ok_iff.2 h] at hcheck
    cases hcheck

/-- Asked whether nodes may be moved, the archive says yes exactly if a move is possible. -/
theorem ask_relocationAllowed_iff (hs : a.store = some s) :
    (Query.relocationAllowed ids target).ask a = .ok (.truth true) ↔
      ∃ nodes t, s.IsRelocation ids target true true nodes t := by
  obtain ⟨b, hask, hb⟩ := ask_relocationAllowed hs ids target
  rw [← hb, hask, Except.ok.injEq, Answer.truth.injEq]

end Archive

/-- A batch that checks for a relocation passes exactly if there is one. -/
theorem Batch.exists_check_iff {p : Policy} {s : Store} {b : Batch} {ids : List Id} {target : Id}
    {inPlace byName : Bool}
    (h : b.check p s = (s.checkRelocation ids target inPlace byName).map Prod.fst) :
    (∃ nodes, b.check p s = .ok nodes) ↔
      ∃ nodes t, s.IsRelocation ids target inPlace byName nodes t := by
  simp only [h, map_eq_ok_iff, Prod.exists, checkRelocation_eq_ok_iff]
  constructor
  · rintro ⟨_, nodes, t, hrelocates, rfl⟩
    exact ⟨nodes, t, hrelocates⟩
  · rintro ⟨nodes, t, hrelocates⟩
    exact ⟨nodes, nodes, t, hrelocates, rfl⟩

namespace Service

/-- The answer to the question whether nodes may be moved or copied is yes or no, and it is yes
exactly if moving them succeeds. Copying them under a policy that refuses a name which is taken
succeeds exactly if the answer is yes and none of them lies in the target already. Under a policy
that gives a copy another name it succeeds exactly if the answer would be yes, were there no
namesakes of the nodes in the target, and no name is ever a reason to refuse it. -/
theorem Reachable.relocation_predicted {a : Archive} {ts : List (Transaction Answer)}
    (h : Reachable ⟨a, ts⟩) (c : Context) (p : Policy) (ids : List Id) (target : Id)
    (user : String) : ∃ s, a.store = some s ∧
      let allowed (a : Archive) := (Query.relocationAllowed ids target).ask a = .ok (.truth true)
      let moved := (a.run .nothing id ((Operation.moveNodes ids target (some user)).call c p)).1
      let copied := (a.run .nothing id ((Operation.copyNodes ids target (some user)).call c p)).1
      (∃ b, (Query.relocationAllowed ids target).ask a = .ok (.truth b)) ∧
      (allowed a ↔ ∃ answer, moved = .ok answer) ∧
      (c.IsFreshFor s →
        (p.copies = .reject → ((∃ answer, copied = .ok answer) ↔
          allowed a ∧ ∀ id ∈ ids, id ∉ s.childIds target)) ∧
        (p.copies = .suffix → ((∃ answer, copied = .ok answer) ↔
          allowed { a with store := some (s.withoutNamesakes target ids) }) ∧
            ∀ f, copied = .error f → ∃ r : Refusal, f = .refused r ∧ r.category ≠ .conflict)) := by
  obtain ⟨⟨s, hs, hsound⟩, -⟩ := h.isSound
  refine ⟨s, hs, ?_⟩
  intro allowed moved copied
  have hallowed : allowed a ↔ ∃ nodes t, s.IsRelocation ids target true true nodes t :=
    ask_relocationAllowed_iff hs
  have hcopied (hfresh : c.IsFreshFor s) : (∃ answer, copied = .ok answer) ↔
      ∃ nodes t, s.IsRelocation ids target false (p.copies = .reject) nodes t :=
    (run_batch_alone (b := .copy ids target user) hs hsound fun _ => hfresh).trans
      (Batch.exists_check_iff rfl)
  refine ⟨?_, ?_, fun hfresh => ⟨fun hpolicy => ?_, fun hpolicy => ⟨?_, fun f hf => ?_⟩⟩⟩
  · obtain ⟨b, hask, -⟩ := ask_relocationAllowed hs ids target
    exact ⟨b, hask⟩
  · have hmoved : (∃ answer, moved = .ok answer) ↔ _ :=
      run_batch_alone (b := .move ids target user) hs hsound fun hcopy => nomatch hcopy
    rw [hallowed, hmoved]
    exact (Batch.exists_check_iff rfl).symm
  · rw [hcopied hfresh, hallowed]
    simp only [hpolicy, decide_true, isRelocation_reject_iff hsound]
    constructor
    · rintro ⟨nodes, t, hmoves, helsewhere⟩
      refine ⟨⟨nodes, t, hmoves⟩, fun id hid hthere => ?_⟩
      rw [← hmoves.selection.ids_eq] at hid
      obtain ⟨n, hn, rfl⟩ := List.mem_map.1 hid
      obtain ⟨m, hm, he⟩ := List.mem_map.1 hthere
      obtain ⟨hm, hp⟩ := mem_children_iff.1 hm
      obtain rfl := eq_of_id_eq hsound.tree.nodup hm (hmoves.selection.mem hn) he
      exact helsewhere m hn hp
    · rintro ⟨⟨nodes, t, hmoves⟩, helsewhere⟩
      refine ⟨nodes, t, hmoves, fun n hn hp => ?_⟩
      refine helsewhere n.id (hmoves.selection.ids_eq ▸ List.mem_map_of_mem hn) ?_
      exact List.mem_map_of_mem (mem_children_iff.2 ⟨hmoves.selection.mem hn, hp⟩)
  · rw [hcopied hfresh]
    have hwithout : allowed { a with store := some (s.withoutNamesakes target ids) } ↔ _ :=
      ask_relocationAllowed_iff rfl
    rw [hwithout]
    simp only [hpolicy, reduceCtorEq, decide_false, isRelocation_withoutNamesakes_iff hsound]
  · cases hcheck : (Batch.copy ids target user).check p s with
    | error g =>
      have hrun : copied = .error g := congrArg Prod.fst (run_batch_of_error hs hcheck)
      obtain rfl : g = f := Except.error.inj (hrun.symm.trans hf)
      rw [Batch.check, map_eq_error_iff] at hcheck
      simp only [hpolicy, reduceCtorEq, decide_false] at hcheck
      exact category_of_checkRelocation hcheck
    | ok nodes =>
      obtain ⟨answer, hanswer⟩ :=
        (run_batch_alone (b := .copy ids target user) (c := c) hs hsound fun _ => hfresh).2
          ⟨nodes, hcheck⟩
      rw [show copied = .ok answer from hanswer] at hf
      cases hf

/-- A folder may be moved to where it is, and copied there under another name but not under its
own. -/
theorem relocation_predicted_beside :
    let moved := (folder.run .nothing id
      ((Operation.moveNodes ["a0"] rootId (some "u")).call (supply "c") policy)).1
    let copied (p : Policy) := (folder.run .nothing id
      ((Operation.copyNodes ["a0"] rootId (some "u")).call (supply "c") p)).1
    (Query.relocationAllowed ["a0"] rootId).ask folder = .ok (.truth true) ∧
      (∃ answer, moved = .ok answer) ∧ (∃ answer, copied ⟨.suffix, true⟩ = .ok answer) ∧
      ¬∃ answer, copied ⟨.reject, true⟩ = .ok answer := by
  intro moved copied
  obtain ⟨ts, h⟩ := reachable_folder
  have hids : ∀ s ∈ folder.store, ((∀ n ∈ s.nodes, ¬ "c".toList <+: n.id.toList) ∧
      ∀ pv ∈ s.pvs, ¬ "c".toList <+: pv.id.toList) ∧ "a0" ∈ s.childIds rootId := by
    decide +kernel
  have hallowed : (Query.relocationAllowed ["a0"] rootId).ask folder = .ok (.truth true) := rfl
  have hwithout : (Query.relocationAllowed ["a0"] rootId).ask
      ⟨false, folder.store.map fun s => s.withoutNamesakes rootId ["a0"]⟩ = .ok (.truth true) := rfl
  obtain ⟨s, hs, -, hmoved, hcopied⟩ :=
    h.relocation_predicted (supply "c") policy ["a0"] rootId "u"
  obtain ⟨s', hs', -, -, hrefused⟩ :=
    h.relocation_predicted (supply "c") ⟨.reject, true⟩ ["a0"] rootId "u"
  obtain rfl := Option.some.inj (hs.symm.trans hs')
  obtain ⟨⟨hnodes, hpvs⟩, hthere⟩ := hids s hs
  have hfresh : (supply "c").IsFreshFor s := isFreshFor_supply hnodes hpvs
  rw [show folder.store = some s from hs, Option.map_some] at hwithout
  refine ⟨hallowed, hmoved.1 hallowed, ((hcopied hfresh).2 rfl).1.2 hwithout, fun hanswer => ?_⟩
  obtain ⟨-, helsewhere⟩ := ((hrefused hfresh).1 rfl).1 hanswer
  exact helsewhere "a0" List.mem_cons_self hthere

end Service

end SnapshotArchive
