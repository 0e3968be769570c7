import SnapshotArchive.Proofs.Relocation
import SnapshotArchive.Proofs.Walks

/-!
# Refusals for cycles

Nodes are not moved or copied to where they are themselves, nor below. The check walks up from the
target and looks for a selected node on the way; it comes after the checks of the selection and of
the target, and before that of the names. By the agreement of the two walks it refuses exactly those
targets that are selected or lie in a selected subtree.

The check is made once more inside the transaction, but what fails there is a conflict. So nothing
that happens between the plan and its transaction, or in it, ends as a cycle (`NoCycle`).

* `Store.exists_checkRelocation_eq_cycle_iff` : when the check finds a cycle.
* `Operation.Relocates.noCycle_of_plan` : a transaction does not.
* `Service.Reachable.walks_agree` : the walks, and the refusals that rest on them.
-/

namespace SnapshotArchive

open Store Archive Sample

/-- A computation that is not refused for a cycle. -/
def NoCycle {α : Type} (e : Except Failure α) : Prop :=
  ∀ x target, e ≠ .error (.refused (.cycle x target))

namespace NoCycle

variable {α β : Type}

/-! ### Composition -/

/-- What succeeds is not refused for a cycle. -/
theorem ok (a : α) : NoCycle (.ok a) :=
  nofun

/-- Two steps are not refused for a cycle if neither of them is. -/
theorem bind {x : Except Failure α} {k : α → Except Failure β} (hx : NoCycle x)
    (hk : ∀ a, NoCycle (k a)) : NoCycle (x >>= k) := by
  intro y target h
  rcases bind_eq_error_iff.1 h with h | ⟨a, -, h⟩
  · exact hx y target h
  · exact hk a y target h

/-- Another answer makes no difference. -/
theorem map {x : Except Failure α} (hx : NoCycle x) (f : α → β) : NoCycle (x.map f) :=
  fun y target h => hx y target (map_eq_error_iff.1 h)

/-- A check that fails otherwise is not refused for a cycle. -/
theorem demand_bind {p : Prop} [Decidable p] {f : Failure} {k : Unit → Except Failure α}
    (hf : ∀ x target, f ≠ .refused (.cycle x target)) (hk : NoCycle (k ())) :
    NoCycle (demand p f >>= k) := by
  intro x target h
  rcases bind_eq_error_iff.1 h with h | ⟨_, -, h⟩
  · exact hf x target (demand_eq_error_iff.1 h).2
  · exact hk x target h

/-- A missing field is no cycle. -/
theorem present (field : RequiredField) (v : Option α) : NoCycle (present field v) := by
  cases v <;> exact nofun

/-- A search that is refused otherwise is not refused for a cycle. -/
theorem refuseFound (found : Option α) {r : α → Refusal}
    (hr : ∀ a x target, r a ≠ .cycle x target) : NoCycle (refuseFound found r) := by
  intro x target h
  obtain ⟨a, ha⟩ := refuseFound_eq_error h
  exact hr a x target (Failure.refused.inj ha).symm

/-- A check that is made inside a transaction fails as a conflict. -/
theorem recheck (e : Except Failure α) : NoCycle (recheck e) := by
  intro x target h
  have hconflict := isConflict_of_recheck h
  cases hconflict

/-- A write whose transactions are not refused so has none that is with other answers. -/
theorem of_map_eq_ok {w : Write α} {f : α → β} {s₀ : Store} {t : Transaction β}
    (hplan : w.map f s₀ = .ok t) (hw : ∀ u, w s₀ = .ok u → ∀ s, NoCycle (u s)) (s : Store) :
    NoCycle (t s) := by
  obtain ⟨u, hu, rfl⟩ := map_eq_ok_iff.1 hplan
  exact (hw u hu s).map _

/-! ### Checks and changes -/

/-- A missing node is no cycle. -/
theorem require (s : Store) (id : Id) : NoCycle (s.require id) := by
  intro x target h
  cases require_eq_error h

/-- Nor is one of several. -/
theorem requireAll (s : Store) (ids : List Id) : NoCycle (s.requireAll ids) := by
  intro x target h
  obtain ⟨id, hid⟩ := requireAll_eq_error h
  cases hid

/-- A bad selection is no cycle. -/
theorem checkSelection (s : Store) (ids : List Id) : NoCycle (s.checkSelection ids) :=
  demand_bind nofun <| demand_bind nofun <| (requireAll s ids).bind fun nodes =>
    demand_bind nofun <| demand_bind nofun <| ok nodes

/-- A name that is taken is no cycle. -/
theorem checkNameFree (s : Store) (parent : Option Id) (kind : Kind) (name : String)
    (self : Option Id) : NoCycle (s.checkNameFree parent kind name self) := by
  unfold Store.checkNameFree
  split
  · intro x target h
    cases (demand_eq_error_iff.1 h).2
  · exact ok ()

/-- Storing a node is not refused for a cycle. -/
theorem insertNode (s : Store) (n : Node) : NoCycle (s.insertNode n) :=
  demand_bind nofun <| demand_bind nofun <| demand_bind nofun <| ok _

/-- Nor is storing a variable. -/
theorem insertPv (s : Store) (pv : Pv) : NoCycle (s.insertPv pv) :=
  demand_bind nofun <| demand_bind nofun <| demand_bind nofun <| ok _

/-- Nor is storing an item. -/
theorem insertItem (s : Store) (item : Item) : NoCycle (s.insertItem item) :=
  demand_bind nofun <| demand_bind nofun <| ok _

/-- Nor is storing a tag. -/
theorem insertTag (s : Store) (tag : Tag) : NoCycle (s.insertTag tag) :=
  demand_bind nofun <| demand_bind nofun <| ok _

/-- Nor is changing a node. -/
theorem changeNode (s : Store) (id : Id) (f : Node → Node) : NoCycle (s.changeNode id f) := by
  unfold Store.changeNode
  split
  · exact ok s
  · exact demand_bind nofun <| demand_bind nofun <| ok _

/-- Nor is touching a node. -/
theorem touch (s : Store) (c : Context) (id : Id) (user : Option String) :
    NoCycle (s.touch c id user) :=
  (present _ _).bind fun _ => ok _

/-- Nor is an answer with a node. -/
theorem answerNode (s : Store) (id : Id) : NoCycle (s.answerNode id) :=
  (require s id).bind fun _ => ok _

/-! ### Moves and copies -/

/-- Nor is moving nodes that were checked. -/
theorem reparent (c : Context) (target : Id) (user : Option String) (nodes : List Node)
    (s : Store) : NoCycle (s.reparent c target user nodes) := by
  induction nodes generalizing s with
  | nil => exact ok s
  | cons n ns ih =>
    unfold Store.reparent
    split
    · exact ih s
    · exact (present _ _).bind fun _ => (changeNode _ _ _).bind fun s => ih s

/-- A record that was not copied is no cycle. -/
theorem copyOf (ids : List (Id × Id)) (id : Id) : NoCycle (copyOf ids id) := by
  unfold SnapshotArchive.copyOf
  split <;> exact nofun

/-- Copying variables is not refused for a cycle. -/
theorem addPvs (c : Context) (config : Id) (pvs : List Pv) (k : Copying) :
    NoCycle (Copying.addPvs c config pvs k) := by
  induction pvs generalizing k with
  | nil => exact ok k
  | cons pv pvs ih => exact (insertPv _ _).bind fun _ => ih _

/-- Nor is copying items. -/
theorem addItems (snapshot : Id) (items : List Item) (k : Copying) :
    NoCycle (Copying.addItems snapshot items k) := by
  induction items generalizing k with
  | nil => exact ok k
  | cons item items ih => exact (copyOf _ _).bind fun _ => (insertItem _ _).bind fun _ => ih _

/-- Nor is copying tags. -/
theorem addTags (snapshot : Id) (tags : List Tag) (k : Copying) :
    NoCycle (Copying.addTags snapshot tags k) := by
  induction tags generalizing k with
  | nil => exact ok k
  | cons tag tags ih => exact (insertTag _ _).bind fun _ => ih _

/-- Nor is copying a node. -/
theorem addNode (c : Context) (user : Option String) (old : Node) (parent : Id) (name : String)
    (position : Nat) (k : Copying) :
    NoCycle (Copying.addNode c user old parent name position k) :=
  (present _ _).bind fun _ => (insertNode _ _).bind fun _ =>
    (addPvs _ _ _ _).bind fun _ => (addItems _ _ _).bind fun _ => addTags _ _ _

/-- Nor is copying what lies below it. -/
theorem addBelow (c : Context) (user : Option String) (olds : List Node) (k : Copying) :
    NoCycle (Copying.addBelow c user olds k) := by
  induction olds generalizing k with
  | nil => exact ok k
  | cons old olds ih => exact (copyOf _ _).bind fun _ => (addNode _ _ _ _ _ _ _).bind fun k => ih k

/-- Nor is copying a subtree. -/
theorem addSubtree (c : Context) (user : Option String) (target : Id) (name : String)
    (source : Node) (k : Copying) : NoCycle (Copying.addSubtree c user target name source k) := by
  unfold Copying.addSubtree
  dsimp only
  split
  · exact ok _
  · exact (checkNameFree _ _ _ _ _).bind fun _ => (addNode _ _ _ _ _ _ _).bind fun k =>
      addBelow c user _ k

/-- Nor is copying several subtrees. -/
theorem addAll (c : Context) (policy : CopyPolicy) (user : Option String) (target : Id)
    (nodes : List Node) (k : Copying) : NoCycle (Copying.addAll c policy user target nodes k) := by
  induction nodes generalizing k with
  | nil => exact ok k
  | cons n ns ih => exact (addSubtree _ _ _ _ _ _).bind fun k => ih k

end NoCycle

/-! ### When the check finds a cycle -/

namespace Store

/-- What the check asks for before it looks for a cycle: a selection of nodes that can be moved, and
a folder for them. -/
structure IsProposal (s : Store) (ids : List Id) (target : Id) (nodes : List Node) : Prop where
  selection : s.IsSelection ids nodes
  movable : ∀ n ∈ nodes, n.kind.isMovable
  folder : ∃ t, s.node? target = some t ∧ t.kind = .folder

variable {s : Store} {ids : List Id} {target : Id} {inPlace byName : Bool}

/-- It finds the first selected node that is on the way up from the target. -/
theorem checkRelocation_eq_cycle_iff {x y : Id} :
    s.checkRelocation ids target inPlace byName = .error (.refused (.cycle x y)) ↔
      ∃ nodes n, s.IsProposal ids target nodes ∧
        nodes.find? (fun n => n.id ∈ s.ancestorIds target) = some n ∧ n.id = x ∧ target = y := by
  constructor
  · intro h
    rcases bind_eq_error_iff.1 h with h | ⟨nodes, hselection, h⟩
    · exact absurd h (NoCycle.checkSelection s ids x y)
    rcases bind_eq_error_iff.1 h with h | ⟨_, hmovable, h⟩
    · exact absurd h (NoCycle.refuseFound _ (by exact nofun) x y)
    rcases bind_eq_error_iff.1 h with h | ⟨t, htarget, h⟩
    · exact absurd h (NoCycle.require s target x y)
    rcases bind_eq_error_iff.1 h with h | ⟨_, hfolder, h⟩
    · cases (demand_eq_error_iff.1 h).2
    rcases bind_eq_error_iff.1 h with h | ⟨_, -, h⟩
    · cases hfound : nodes.find? fun n => n.id ∈ s.ancestorIds target with
      | none => simp [refuseFound, hfound] at h
      | some n =>
        simp only [refuseFound, hfound, Except.error.injEq, Failure.refused.injEq,
          Refusal.cycle.injEq] at h
        refine ⟨nodes, n, ⟨checkSelection_eq_ok_iff.1 hselection, ?_, t, ?_, ?_⟩, hfound, h⟩
        · simpa using refuseFound_eq_ok_iff.1 hmovable
        · exact require_eq_ok_iff.1 htarget
        · exact demand_eq_ok_iff.1 hfolder
    rcases bind_eq_error_iff.1 h with h | ⟨_, -, h⟩
    · obtain ⟨⟨n, holder⟩, hname⟩ := refuseFound_eq_error h
      cases Failure.refused.inj hname
    · cases h
  · rintro ⟨nodes, n, ⟨hselection, hmovable, t, htarget, hfolder⟩, hfound, rfl, rfl⟩
    have hmovable : nodes.find? (fun n => !n.kind.isMovable) = none := by simpa using hmovable
    refine bind_eq_error_iff.2 (.inr ⟨nodes, checkSelection_eq_ok_iff.2 hselection, ?_⟩)
    refine bind_eq_error_iff.2 (.inr ⟨(), refuseFound_eq_ok_iff.2 hmovable, ?_⟩)
    refine bind_eq_error_iff.2 (.inr ⟨t, require_eq_ok_iff.2 htarget, ?_⟩)
    refine bind_eq_error_iff.2 (.inr ⟨(), demand_eq_ok_iff.2 hfolder, ?_⟩)
    refine bind_eq_error_iff.2 (.inl ?_)
    simp only [refuseFound, hfound]

/-- If all before it is well, the check finds a cycle exactly if the target is selected or lies in
a selected subtree. -/
theorem exists_checkRelocation_eq_cycle_iff (hs : s.IsTree) :
    (∃ x y, s.checkRelocation ids target inPlace byName = .error (.refused (.cycle x y))) ↔
      (∃ nodes, s.IsProposal ids target nodes) ∧
        (target ∈ ids ∨ ∃ x ∈ ids, target ∈ s.subtreeIds x) := by
  simp only [checkRelocation_eq_cycle_iff]
  constructor
  · rintro ⟨x, y, nodes, n, hproposal, hfound, -, -⟩
    refine ⟨⟨nodes, hproposal⟩, .inr ⟨n.id, ?_, ?_⟩⟩
    · exact hproposal.selection.id_mem (List.mem_of_find?_eq_some hfound)
    · rw [hs.mem_subtreeIds_iff_mem_ancestorIds]
      simpa using List.find?_some hfound
  · rintro ⟨⟨nodes, hproposal⟩, hbelow⟩
    -- A target that is selected is in its own subtree.
    have hway : ∃ x ∈ ids, x ∈ s.ancestorIds target := by
      simp only [hs.mem_subtreeIds_iff_mem_ancestorIds] at hbelow
      refine hbelow.elim (fun hmem => ⟨target, hmem, ?_⟩) id
      obtain ⟨t, hfind, -⟩ := hproposal.folder
      obtain ⟨ht, rfl⟩ := node?_eq_some hfind
      exact (hs.mem_ancestorIds_iff ht).2 .refl
    obtain ⟨x, hx, hway⟩ := hway
    obtain ⟨m, hm, rfl⟩ := hproposal.selection.exists_of_mem hx
    obtain ⟨n, hfound⟩ : ∃ n, nodes.find? (fun n => n.id ∈ s.ancestorIds target) = some n :=
      Option.isSome_iff_exists.1 (List.find?_isSome.2 ⟨m, hm, by simpa using hway⟩)
    exact ⟨n.id, target, nodes, n, hproposal, hfound, rfl, rfl⟩

end Store

/-! ### Calls -/

/-- A transaction that is not refused for a cycle ends a call that is not. -/
theorem noCycle_finish {α : Type} {hold : Hold} {a : Archive} {t : Transaction α}
    (ht : ∀ s, NoCycle (t s)) : NoCycle (a.finish hold t).1 := by
  intro x y h
  unfold finish at h
  split at h
  · cases h
  · split at h
    · cases h
    · rename_i s _
      split at h
      · rename_i f hf
        obtain rfl := Except.error.inj h
        exact ht s x y hf
      · split at h <;> cases h

/-- The operations that move or copy nodes into a target. -/
inductive Operation.Relocates : Operation → List Id → Id → Prop
  | move (ids : List Id) (target : Id) (user : Option String) :
    Relocates (.moveNodes ids target user) ids target
  | copy (ids : List Id) (target : Id) (user : Option String) :
    Relocates (.copyNodes ids target user) ids target

namespace Operation.Relocates

variable {o : Operation} {ids : List Id} {target : Id} {c : Context} {p : Policy}

/-- The plan fails as the check does. -/
theorem plan_eq_error_iff (h : o.Relocates ids target) (c : Context) (p : Policy) :
    ∃ inPlace byName, ∀ (s : Store) (f : Failure),
      o.write c p s = .error f ↔ s.checkRelocation ids target inPlace byName = .error f := by
  have hbind {α β : Type} (x : Except Failure α) (k : α → β) (f : Failure) :
      (x >>= fun a => pure (k a)) = .error f ↔ x = .error f := by
    rw [← map_eq_bind, map_eq_error_iff]
  cases h with
  | move => exact ⟨true, true, fun s f => map_eq_error_iff.trans (hbind _ _ f)⟩
  | copy => exact ⟨false, p.copies = .reject, fun s f => map_eq_error_iff.trans (hbind _ _ f)⟩

/-- What is planned does not end as a cycle. -/
theorem noCycle_of_plan (h : o.Relocates ids target) {s₀ : Store} {t : Transaction Answer}
    (hplan : o.write c p s₀ = .ok t) (s : Store) : NoCycle (t s) := by
  cases h with
  | move =>
    refine .of_map_eq_ok hplan (fun u hu s => ?_) s
    obtain ⟨_, -, hu⟩ := bind_eq_ok_iff.1 hu
    obtain rfl := Except.ok.inj hu
    exact (NoCycle.recheck _).bind fun _ => (NoCycle.refuseFound _ nofun).bind fun _ =>
      (NoCycle.reparent _ _ _ _ _).bind fun _ => (NoCycle.touch _ _ _ _).bind fun _ =>
        NoCycle.answerNode _ _
  | copy =>
    refine .of_map_eq_ok hplan (fun u hu s => ?_) s
    obtain ⟨_, -, hu⟩ := bind_eq_ok_iff.1 hu
    obtain rfl := Except.ok.inj hu
    exact (NoCycle.recheck _).bind fun _ => (NoCycle.addAll _ _ _ _ _ _).bind fun _ =>
      (NoCycle.touch _ _ _ _).bind fun _ => NoCycle.answerNode _ _

/-- A call is refused for a cycle exactly if its check is, whatever others do meanwhile. -/
theorem run_eq_cycle_iff (h : o.Relocates ids target) {a : Archive} {s : Store}
    (hs : a.store = some s) (hold : Hold) (between : Archive → Archive) (c : Context)
    (p : Policy) : ∃ inPlace byName, ∀ x y,
      (a.run hold between (o.call c p)).1 = .error (.refused (.cycle x y)) ↔
        s.checkRelocation ids target inPlace byName = .error (.refused (.cycle x y)) := by
  obtain ⟨inPlace, byName, hcheck⟩ := h.plan_eq_error_iff c p
  have hwrite : o = .initialise → hold = .nothing := by
    rintro rfl
    cases h
  refine ⟨inPlace, byName, fun x y => ?_⟩
  cases hplan : o.write c p s with
  | error f =>
    rw [run_of_plan_error hs hwrite hplan, (hcheck s f).1 hplan]
    simp only [Except.error.injEq]
  | ok t =>
    rw [run_of_plan_ok hs hwrite hplan]
    refine iff_of_false (fun hcycle => ?_) fun hcycle => ?_
    · exact noCycle_finish (h.noCycle_of_plan hplan) x y hcycle
    · rw [(hcheck s _).2 hcycle] at hplan
      cases hplan

end Operation.Relocates

namespace Service

/-- The walk down and the walk up agree. The walk down from a node ends by itself, with a level that
is empty, and has listed the node and all below it, each once and after its parent; the walk up ends
by itself, at the root, so that it gets no further with more steps or without its guard. So moves
and copies of nodes that may be moved, to a folder, are refused for a cycle exactly if the target is
selected or lies in a selected subtree, and the refusal names such a node. -/
theorem Reachable.walks_agree {a : Archive} {ts : List (Transaction Answer)}
    (h : Reachable ⟨a, ts⟩) : ∃ s, a.store = some s ∧
      (∀ x r, x ∈ s.subtreeIds r ↔ r ∈ s.ancestorIds x) ∧
      (∀ n ∈ s.nodes, s.Unfolding [n] (s.subtree n.id) ∧ s.IsListing n.id (s.subtreeIds n.id)) ∧
      (∀ n ∈ s.nodes, s.Lineage n.id (s.ancestorIds n.id) ∧
        (s.ancestorIds n.id).getLast? = some rootId ∧
        ∀ steps, s.nodes.length ≤ steps → s.ascend steps (some n.id) = s.ancestorIds n.id) ∧
      (∀ id steps, s.climb steps [] (some id) = s.ascend steps (some id)) ∧
      ∀ (hold : Hold) (between : Archive → Archive) (c : Context) (p : Policy) (o : Operation)
        (ids : List Id) (target : Id), o.Relocates ids target →
        let result := (a.run hold between (o.call c p)).1
        ((∃ x y, result = .error (.refused (.cycle x y))) ↔
          (∃ nodes, s.IsProposal ids target nodes) ∧
            (target ∈ ids ∨ ∃ x ∈ ids, target ∈ s.subtreeIds x)) ∧
        ∀ x y, result = .error (.refused (.cycle x y)) →
          x ∈ ids ∧ target ∈ s.subtreeIds x ∧ y = target := by
  obtain ⟨⟨s, hs, hsound⟩, -⟩ := h.isSound
  have htree := hsound.tree
  refine ⟨s, hs, htree.mem_subtreeIds_iff_mem_ancestorIds, fun n hn => ?_, fun n hn => ?_,
    fun id steps => htree.climb_eq_ascend steps id, ?_⟩
  · exact ⟨htree.unfolding_subtree hn, htree.isListing_subtreeIds hn⟩
  · exact ⟨htree.lineage_ancestorIds hn, htree.getLast?_ancestorIds hn,
      fun _ hsteps => htree.ascend_eq_ancestorIds hn hsteps⟩
  intro hold between c p o ids target ho result
  obtain ⟨inPlace, byName, hcheck⟩ := ho.run_eq_cycle_iff hs hold between c p
  refine ⟨?_, fun x y hcycle => ?_⟩
  · rw [← exists_checkRelocation_eq_cycle_iff htree]
    exact exists_congr fun x => exists_congr fun y => hcheck x y
  · obtain ⟨nodes, n, hproposal, hfound, rfl, rfl⟩ :=
      checkRelocation_eq_cycle_iff.1 ((hcheck x y).1 hcycle)
    refine ⟨hproposal.selection.id_mem (List.mem_of_find?_eq_some hfound), ?_, rfl⟩
    rw [htree.mem_subtreeIds_iff_mem_ancestorIds]
    simpa using List.find?_some hfound

/-- A folder is not copied into one that lies in it. -/
theorem walks_agree_crossed :
    let copy := (Operation.copyNodes ["a0"] "b0" (some "u")).call (supply "c") policy
    ∃ s, crossed.store = some s ∧ s.IsListing "a0" (s.subtreeIds "a0") ∧
      "b0" ∈ s.subtreeIds "a0" ∧ "a0" ∈ s.ancestorIds "b0" ∧
      ∃ x y, (crossed.run .nothing id copy).1 = .error (.refused (.cycle x y)) := by
  intro copy
  obtain ⟨ts, h⟩ := reachable_crossed
  obtain ⟨s, hs, hagree, hdown, -, -, hcycle⟩ := h.walks_agree
  obtain ⟨n, hn, hid⟩ : ∃ n ∈ s.nodes, n.id = "a0" := by
    have hnode : crossed.store.map (fun s => s.hasNode "a0") = some true := by decide
    rw [show crossed.store = some s from hs, Option.map_some] at hnode
    exact hasNode_iff.1 (Option.some.inj hnode)
  obtain ⟨x, y, hrefused⟩ :
      ∃ x y, (crossed.run .nothing id copy).1 = .error (.refused (.cycle x y)) := by
    have hrun : (crossed.run .nothing id copy).1.map (fun _ => ()) =
        .error (.refused (.cycle "a0" "b0")) := by
      decide +kernel
    exact ⟨_, _, map_eq_error_iff.1 hrun⟩
  obtain ⟨-, hnames⟩ := hcycle .nothing id (supply "c") policy _ ["a0"] "b0" (.copy _ _ (some "u"))
  obtain ⟨hx, hbelow, -⟩ := hnames x y hrefused
  obtain rfl := List.mem_singleton.1 hx
  exact ⟨s, hs, hid ▸ (hdown n hn).2, hbelow, (hagree _ _).1 hbelow, _, y, hrefused⟩

end Service

end SnapshotArchive
