import SnapshotArchive.Proofs.Checks
import SnapshotArchive.Proofs.Integrity
import SnapshotArchive.Proofs.Copying.Progress

/-!
# Operations that plan first

Moves, copies and batch deletions check their selection when they are planned, and again inside the
transaction, when other clients may have been at work (`Batch`). The second check is the one that
counts: a transaction whose check passes succeeds, and does what the operation does that is planned
in the store as it is then; any other ends as a conflict and changes nothing.

* `Batch.write_eq` : the two phases of such an operation.
* `Batch.work_ok` : what follows a check that passes does not fail.
* `Service.Reachable.batch_outcome` : how such an operation ends, whatever happened in between.
-/

namespace SnapshotArchive

open Store Archive

/-! ### Refusals -/

/-- A step that fails only by refusing. -/
def Refuses {α : Type} (e : Except Failure α) : Prop :=
  ∀ f, e = .error f → ∃ r, f = .refused r

/-- What fails only by checks fails only by refusing. -/
theorem Checked.refuses {α : Type} {e : Except Failure α} (h : Checked e) : Refuses e :=
  fun f hf => (h f hf).imp fun _ hr => hr.1

/-- Giving another answer is a second step. -/
theorem map_eq_bind {α β : Type} (x : Except Failure α) (f : α → β) :
    x.map f = x >>= fun a => pure (f a) := by
  cases x <;> rfl

/-- Making a check again is indifferent to what is made of its answer. -/
theorem recheck_map {α β : Type} (f : α → β) (e : Except Failure α) :
    recheck (e.map f) = (recheck e).map f := by
  cases e with
  | ok a => rfl
  | error failure => cases failure <;> rfl

/-- A refusal inside a transaction ends as a conflict. -/
theorem Refuses.recheck {α : Type} {e : Except Failure α} (he : Refuses e) {f : Failure}
    (h : e = .error f) : ∃ r, r.isConflict ∧ recheck e = .error (.refused r) := by
  obtain ⟨q, rfl⟩ := he f h
  subst h
  have hrecheck : SnapshotArchive.recheck (.error (.refused q) : Except Failure α) = .error _ := rfl
  exact ⟨_, isConflict_of_recheck hrecheck, hrecheck⟩

/-! ### Batches -/

/-- The operations that plan first, as a user asks for them. -/
inductive Batch where
  | move (ids : List Id) (target : Id) (user : String)
  | copy (ids : List Id) (target : Id) (user : String)
  | delete (ids : List Id)

namespace Batch

/-- The operation that a batch is. -/
def operation : Batch → Operation
  | move ids target user => .moveNodes ids target (some user)
  | copy ids target user => .copyNodes ids target (some user)
  | delete ids => .deleteNodes ids

/-- The check that it makes twice; it gives the selected nodes. -/
def check (p : Policy) (s : Store) : Batch → Except Failure (List Node)
  | move ids target _ => (s.checkRelocation ids target true true).map Prod.fst
  | copy ids target _ => (s.checkRelocation ids target false (p.copies = .reject)).map Prod.fst
  | delete ids => s.checkSelection ids

/-- Whether it makes new nodes. -/
def isCopy : Batch → Bool
  | copy _ _ _ => true
  | _ => false

/-- What it does with the nodes that pass. -/
def work (c : Context) (p : Policy) (nodes : List Node) : Batch → Transaction Answer
  | move _ target user => fun s => do
    let s ← s.reparent c target (some user) nodes
    let s ← s.touch c target (some user)
    let (n, s) ← s.answerNode target
    return (.node n, s)
  | copy _ target user => fun s => do
    let k ← Copying.addAll c p.copies (some user) target nodes ⟨s, 0, [], []⟩
    let s ← k.store.touch c target (some user)
    let (n, s) ← s.answerNode target
    return (.node n, s)
  | delete _ => fun s => do
    let (count, s) ← removeSubtrees nodes s
    return (.count count, s)

/-- Its transaction: it checks again, and unless it copies, that the nodes were not moved. -/
def commit (c : Context) (p : Policy) (b : Batch) (planned : List Node) : Transaction Answer :=
  fun s => do
    let nodes ← recheck (b.check p s)
    if b.isCopy then .ok () else checkUnmoved (commonParent planned) nodes
    b.work c p nodes s

/-- The check of a batch fails only by checks. -/
theorem checked_check (p : Policy) (s : Store) (b : Batch) : Checked (b.check p s) := by
  cases b with
  | move ids target => exact (Checked.checkRelocation s ids target _ _).map _
  | copy ids target => exact (Checked.checkRelocation s ids target _ _).map _
  | delete ids => exact Checked.checkSelection s ids

/-- The two phases of a batch: the plan is its check. -/
theorem write_eq (c : Context) (p : Policy) (b : Batch) (s : Store) :
    b.operation.write c p s = (b.check p s).map (b.commit c p) := by
  cases b with
  | move ids target user =>
    simp only [operation, Operation.write, Write.map, moveNodes, check, map_eq_bind, bind_assoc,
      pure_bind]
    refine bind_congr fun found => congrArg pure (funext fun s => ?_)
    simp only [commit, check, recheck_map, isCopy, Bool.false_eq_true, if_false]
    simp only [map_eq_bind, work, bind_assoc, pure_bind]
  | copy ids target user =>
    simp only [operation, Operation.write, Write.map, copyNodes, check, map_eq_bind, bind_assoc,
      pure_bind]
    refine bind_congr fun found => congrArg pure (funext fun s => ?_)
    simp only [commit, check, recheck_map, isCopy, if_true]
    simp only [map_eq_bind, work, bind_assoc, pure_bind]
    rfl
  | delete ids =>
    simp only [operation, Operation.write, Write.map, deleteNodes, check, map_eq_bind, bind_assoc,
      pure_bind]
    refine bind_congr fun found => congrArg pure (funext fun s => ?_)
    simp only [commit, check, isCopy, Bool.false_eq_true, if_false, work]

/-! ### The transaction of a batch -/

section

variable {c : Context} {p : Policy} {b : Batch} {s : Store} {nodes : List Node}

/-- The nodes that pass are a selection. -/
theorem isSelection_of_check (h : b.check p s = .ok nodes) : ∃ ids, s.IsSelection ids nodes := by
  cases b with
  | move ids target user =>
    obtain ⟨⟨_, t⟩, hcheck, rfl⟩ := map_eq_ok_iff.1 h
    exact ⟨ids, (checkRelocation_eq_ok_iff.1 hcheck).selection⟩
  | copy ids target user =>
    obtain ⟨⟨_, t⟩, hcheck, rfl⟩ := map_eq_ok_iff.1 h
    exact ⟨ids, (checkRelocation_eq_ok_iff.1 hcheck).selection⟩
  | delete ids => exact ⟨ids, checkSelection_eq_ok_iff.1 h⟩

/-- A stamped target can be answered with. -/
theorem touch_answer_ok {t : Node} (ht : t ∈ s.nodes) (user : String) :
    ∃ n s', s.touch c t.id (some user) = .ok s' ∧ s'.answerNode t.id = .ok (n, s') := by
  have htouch : s.touch c t.id (some user) = .ok _ := bind_eq_ok_iff.2 ⟨user, rfl, rfl⟩
  have hasNode : (s.mapNode t.id fun n =>
      { n with version := n.version + 1, modified := c.now, user }).hasNode t.id :=
    hasNode_iff.2 ⟨_, List.mem_map_of_mem ht, by simp⟩
  obtain ⟨n, hn⟩ := Option.isSome_iff_exists.1 hasNode
  exact ⟨n, _, htouch, answerNode_eq_ok_iff.2 ⟨hn, rfl⟩⟩

/-- What follows a check that passes does not fail. -/
theorem work_ok (hs : s.IsSound) (hcheck : b.check p s = .ok nodes)
    (hfresh : b.isCopy → c.IsFreshFor s) : ∃ result, b.work c p nodes s = .ok result := by
  cases b with
  | move ids target user =>
    obtain ⟨⟨_, t⟩, hfound, rfl⟩ := map_eq_ok_iff.1 hcheck
    have hok := checkRelocation_eq_ok_iff.1 hfound
    obtain ⟨ht, rfl⟩ := node?_eq_some hok.found
    obtain ⟨s₁, hmove, ht₁⟩ := reparent_ok (c := c) hs ht (hok.mayAllEnter hs.tree)
      (fun n hn hne _ ho => hok.free_of_outside hs hn hne ho) (hok.names_differ hs) user
    obtain ⟨n, s₂, htouch, hanswer⟩ := touch_answer_ok (c := c) ht₁ user
    exact ⟨_, bind_eq_ok_iff.2 ⟨s₁, hmove, bind_eq_ok_iff.2 ⟨s₂, htouch,
      bind_eq_ok_iff.2 ⟨_, hanswer, rfl⟩⟩⟩⟩
  | copy ids target user =>
    obtain ⟨⟨_, t⟩, hfound, rfl⟩ := map_eq_ok_iff.1 hcheck
    have hok := checkRelocation_eq_ok_iff.1 hfound
    obtain ⟨ht, rfl⟩ := node?_eq_some hok.found
    have hsupply : Copying.Supplied c ⟨s, 0, [], []⟩ :=
      have hfresh := hfresh rfl
      ⟨hfresh.injective, fun j _ => hfresh.nodes j, fun j _ => hfresh.pvs j⟩
    obtain ⟨k, hcopy, ht₁⟩ := Copying.addAll_ok (k := ⟨s, 0, [], []⟩) hok.folder hs hsupply ht
      (fun n hn => ⟨hok.selection.mem hn, hok.selection.notRoot n hn, hok.movable n hn⟩)
      (fun hreject n hn => hok.sibling?_isNone (by simpa using hreject) hn)
      (hok.names_differ hs) user
    obtain ⟨n, s₂, htouch, hanswer⟩ := touch_answer_ok (c := c) ht₁ user
    exact ⟨_, bind_eq_ok_iff.2 ⟨k, hcopy, bind_eq_ok_iff.2 ⟨s₂, htouch,
      bind_eq_ok_iff.2 ⟨_, hanswer, rfl⟩⟩⟩⟩
  | delete ids =>
    have hsel := checkSelection_eq_ok_iff.1 hcheck
    obtain ⟨result, hremove⟩ := removeSubtrees_ok hsel.notRoot s
    exact ⟨_, bind_eq_ok_iff.2 ⟨result, hremove, rfl⟩⟩

/-! ### How the transaction ends -/

/-- The nodes that pass have the parent that those had that were planned. A copy does not mind. -/
def IsUnmoved (b : Batch) (planned nodes : List Node) : Prop :=
  b.isCopy = false → ∀ m ∈ planned, ∀ n ∈ nodes, n.parent = m.parent

/-- Nodes that pass have not been moved since they passed. -/
theorem isUnmoved_of_check (h : b.check p s = .ok nodes) : b.IsUnmoved nodes nodes := by
  obtain ⟨ids, hsel⟩ := isSelection_of_check h
  exact fun _ m hm n hn => hsel.siblings n hn m hm

/-- A selection that passes is not empty. -/
theorem head_of_check (h : b.check p s = .ok nodes) : ∃ n ns, nodes = n :: ns := by
  obtain ⟨ids, hsel⟩ := isSelection_of_check h
  cases nodes with
  | nil => exact absurd hsel.ids_eq.symm hsel.nonempty
  | cons n ns => exact ⟨n, ns, rfl⟩

/-- The first nodes stand for all of them. -/
theorem isUnmoved_iff {s₀ : Store} {m n : Node} {ms ns : List Node}
    (hplan : b.check p s₀ = .ok (m :: ms)) (hcheck : b.check p s = .ok (n :: ns)) :
    b.IsUnmoved (m :: ms) (n :: ns) ↔ (b.isCopy = false → n.parent = m.parent) := by
  obtain ⟨_, hplanned⟩ := isSelection_of_check hplan
  obtain ⟨_, hfound⟩ := isSelection_of_check hcheck
  constructor
  · exact fun h hcopy => h hcopy m List.mem_cons_self n List.mem_cons_self
  · intro h hcopy m' hm' n' hn'
    calc n'.parent = n.parent := hfound.siblings n' hn' n List.mem_cons_self
      _ = m.parent := h hcopy
      _ = m'.parent := hplanned.siblings m List.mem_cons_self m' hm'

/-- If the second check does not pass, that is a conflict. -/
theorem commit_of_error {f : Failure} (hcheck : b.check p s = .error f) (planned : List Node) :
    ∃ r, r.isConflict ∧ b.commit c p planned s = .error (.refused r) := by
  obtain ⟨r, hr, hrecheck⟩ := (checked_check p s b).refuses.recheck hcheck
  refine ⟨r, hr, ?_⟩
  rw [commit, hrecheck]
  rfl

/-- After a second check that passes, the transaction is one test and the work. -/
theorem commit_eq {m n : Node} {ms ns : List Node} (hcheck : b.check p s = .ok (n :: ns)) :
    b.commit c p (m :: ms) s =
      if b.isCopy = false → n.parent = m.parent then b.work c p (n :: ns) s
      else .error (.refused (.nodeMoved n.id)) := by
  rw [commit, recheck_eq_ok_iff.2 hcheck]
  cases b.isCopy with
  | true =>
    rw [if_pos fun h => nomatch h]
    rfl
  | false =>
    by_cases hp : n.parent = m.parent
    · have hunmoved : checkUnmoved (commonParent (m :: ms)) (n :: ns) = .ok () := by
        simp [checkUnmoved, commonParent, Option.filter, refuseFound, hp]
      rw [if_pos fun _ => hp]
      simp only [bind, Except.bind, Bool.false_eq_true, if_false, hunmoved]
    · have hmoved : checkUnmoved (commonParent (m :: ms)) (n :: ns) =
          .error (.refused (.nodeMoved n.id)) := by
        simp [checkUnmoved, commonParent, Option.filter, refuseFound, hp]
      rw [if_neg fun h => hp (h rfl)]
      simp only [bind, Except.bind, Bool.false_eq_true, if_false, hmoved]

variable {s₀ : Store} {planned : List Node}

/-- If the nodes were moved, that is a conflict. -/
theorem commit_of_moved (hplan : b.check p s₀ = .ok planned) (hcheck : b.check p s = .ok nodes)
    (hmoved : ¬ b.IsUnmoved planned nodes) :
    ∃ r, r.isConflict ∧ b.commit c p planned s = .error (.refused r) := by
  obtain ⟨m, ms, rfl⟩ := head_of_check hplan
  obtain ⟨n, ns, rfl⟩ := head_of_check hcheck
  rw [isUnmoved_iff hplan hcheck] at hmoved
  refine ⟨.nodeMoved n.id, rfl, ?_⟩
  rw [commit_eq hcheck, if_neg hmoved]

/-- Otherwise the work is done. -/
theorem commit_of_ok (hplan : b.check p s₀ = .ok planned) (hcheck : b.check p s = .ok nodes)
    (hunmoved : b.IsUnmoved planned nodes) : b.commit c p planned s = b.work c p nodes s := by
  obtain ⟨m, ms, rfl⟩ := head_of_check hplan
  obtain ⟨n, ns, rfl⟩ := head_of_check hcheck
  rw [isUnmoved_iff hplan hcheck] at hunmoved
  rw [commit_eq hcheck, if_pos hunmoved]

end

end Batch

/-! ### How a call ends -/

namespace Archive

variable {a : Archive} {s : Store} {between : Archive → Archive}

/-- With nobody else about, a transaction that succeeds is committed. -/
theorem finish_nothing_of_ok {t : Transaction Answer} {answer : Answer} {s' : Store}
    (hs : a.store = some s) (ht : t s = .ok (answer, s')) :
    a.finish .nothing t = (.ok answer, { a with store := some s' }) := by
  obtain ⟨ahead, _⟩ := a
  obtain rfl : _ = some s := hs
  rw [finish_of_nothing, Transaction.run_of_ok ht]

/-- With nobody else about, a transaction that fails leaves the archive as it was. -/
theorem finish_nothing_of_error {t : Transaction Answer} {f : Failure}
    (hs : a.store = some s) (ht : t s = .error f) : a.finish .nothing t = (.error f, a) := by
  obtain ⟨ahead, _⟩ := a
  obtain rfl : _ = some s := hs
  rw [finish_of_nothing, Transaction.run_of_error ht]

variable {c : Context} {p : Policy} {b : Batch}

/-! The first phase of a batch is its check. -/

/-- A batch whose plan fails ends with the failure, and nobody ran before it. -/
theorem run_batch_of_error {f : Failure} (hs : a.store = some s) (hplan : b.check p s = .error f) :
    a.run .nothing between (b.operation.call c p) = (.error f, a) :=
  run_of_plan_error hs (fun _ => rfl) (by rw [b.write_eq, hplan]; rfl)

/-- A batch whose plan passes ends with its transaction, on what the others left. -/
theorem run_batch_of_ok {planned : List Node} (hs : a.store = some s)
    (hplan : b.check p s = .ok planned) :
    a.run .nothing between (b.operation.call c p) =
      (between a).finish .nothing (b.commit c p planned) :=
  run_of_plan_ok hs (fun _ => rfl) (by rw [b.write_eq, hplan]; rfl)

/-- With nobody else about, a batch whose check passes succeeds. -/
theorem run_batch_of_check {nodes : List Node} (hs : a.store = some s) (hsound : s.IsSound)
    (hcheck : b.check p s = .ok nodes) (hfresh : b.isCopy → c.IsFreshFor s) :
    ∃ answer s', a.run .nothing id (b.operation.call c p) =
      (.ok answer, { a with store := some s' }) := by
  obtain ⟨⟨answer, s'⟩, hwork⟩ := Batch.work_ok (c := c) hsound hcheck hfresh
  have hcommit : b.commit c p nodes s = .ok (answer, s') :=
    (Batch.commit_of_ok hcheck hcheck (Batch.isUnmoved_of_check hcheck)).trans hwork
  exact ⟨answer, s', (run_batch_of_ok hs hcheck).trans (finish_nothing_of_ok hs hcommit)⟩

end Archive

namespace Sample

/-- A folder is to be copied into another one, and meanwhile another client moves it there. -/
def carried : Archive → Archive :=
  perform "d" (.moveNodes ["a0"] "b0" (some "u"))

/-- Identifiers with a stem are new where no identifier starts with it. -/
theorem isFreshFor_supply {stem : String} {s : Store}
    (hnodes : ∀ n ∈ s.nodes, ¬ stem.toList <+: n.id.toList)
    (hpvs : ∀ pv ∈ s.pvs, ¬ stem.toList <+: pv.id.toList) : (supply stem).IsFreshFor s := by
  have hlist (j : Nat) : ((supply stem).fresh j).toList = stem.toList ++ Nat.toDigits 10 j := by
    simp [supply, toString, Nat.toList_repr]
  refine ⟨fun i j h => ?_, fun j => ?_, fun j => pv?_isNone_iff.2 fun pv hpv hid => ?_⟩
  · have hlists := congrArg String.toList h
    rw [hlist, hlist] at hlists
    exact toDigits_injective (List.append_cancel_left hlists)
  · refine Bool.eq_false_iff.2 fun hused => ?_
    obtain ⟨n, hn, hid⟩ := hasNode_iff.1 hused
    exact hnodes n hn (hid ▸ hlist j ▸ List.prefix_append _ _)
  · exact hpvs pv hpv (hid ▸ hlist j ▸ List.prefix_append _ _)

end Sample

namespace Service

open Archive Sample

/-- How an operation that plans first ends. If its check does not pass when it is planned, that is
its answer, and nothing changes. Otherwise it succeeds exactly if its check passes after the work of
the others, and the nodes have not been moved; then it has done what it does alone in the archive as
the others left it. If it does not succeed it is answered with a conflict, and the archive is as the
others left it. -/
theorem Reachable.batch_outcome {a : Archive} {between : Archive → Archive}
    {ts us : List (Transaction Answer)} {s₀ s₁ : Store} (h : Reachable ⟨a, ts⟩)
    (hothers : Run ⟨a, ts⟩ ⟨between a, us⟩) (hs₀ : a.store = some s₀)
    (hs₁ : (between a).store = some s₁) (c : Context) (p : Policy) (b : Batch)
    (hfresh : b.isCopy → c.IsFreshFor s₁) :
    let result := a.run .nothing between (b.operation.call c p)
    (∀ f, b.check p s₀ = .error f → result = (.error f, a)) ∧
      ∀ planned, b.check p s₀ = .ok planned →
        ((∃ answer, result.1 = .ok answer) ↔
          ∃ nodes, b.check p s₁ = .ok nodes ∧ b.IsUnmoved planned nodes) ∧
        ((∃ answer, result.1 = .ok answer) →
          result = (between a).run .nothing id (b.operation.call c p)) ∧
        ((∀ answer, result.1 ≠ .ok answer) →
          ∃ r : Refusal, r.isConflict ∧ result = (.error (.refused r), between a)) := by
  intro result
  have hsound : s₁.IsSound := by
    obtain ⟨writeAhead, now, hrun⟩ := h
    obtain ⟨⟨s, hs, hsound⟩, -⟩ := Reachable.isSound ⟨writeAhead, now, hrun.trans hothers⟩
    exact Option.some.inj (hs.symm.trans hs₁) ▸ hsound
  refine ⟨fun f hplan => run_batch_of_error hs₀ hplan, fun planned hplan => ?_⟩
  have hresult : result = (between a).finish .nothing (b.commit c p planned) :=
    run_batch_of_ok hs₀ hplan
  -- A transaction that does not come to its work ends as a conflict.
  have hconflict (hcommit : ∃ r : Refusal, r.isConflict ∧
      b.commit c p planned s₁ = .error (.refused r)) :
      ∃ r : Refusal, r.isConflict ∧ result = (.error (.refused r), between a) := by
    obtain ⟨r, hr, hcommit⟩ := hcommit
    exact ⟨r, hr, hresult.trans (finish_nothing_of_error hs₁ hcommit)⟩
  by_cases hpass : ∃ nodes, b.check p s₁ = .ok nodes ∧ b.IsUnmoved planned nodes
  · obtain ⟨nodes, hcheck, hunmoved⟩ := hpass
    obtain ⟨⟨answer, s'⟩, hwork⟩ := Batch.work_ok (c := c) hsound hcheck hfresh
    have hcommit : b.commit c p planned s₁ = .ok (answer, s') :=
      (Batch.commit_of_ok hplan hcheck hunmoved).trans hwork
    have halone : b.commit c p nodes s₁ = .ok (answer, s') :=
      (Batch.commit_of_ok hcheck hcheck (Batch.isUnmoved_of_check hcheck)).trans hwork
    rw [finish_nothing_of_ok hs₁ hcommit] at hresult
    refine ⟨⟨fun _ => ⟨nodes, hcheck, hunmoved⟩, fun _ => ⟨answer, by rw [hresult]⟩⟩, fun _ => ?_,
      fun hfail => absurd (by rw [hresult]) (hfail answer)⟩
    rw [hresult, run_batch_of_ok hs₁ hcheck, id, finish_nothing_of_ok hs₁ halone]
  · obtain ⟨r, hr, hfail⟩ := hconflict (by
      cases hcheck : b.check p s₁ with
      | error f => exact Batch.commit_of_error hcheck planned
      | ok nodes => exact Batch.commit_of_moved hplan hcheck fun h => hpass ⟨nodes, hcheck, h⟩)
    have hnone : ¬ ∃ answer, result.1 = .ok answer := by
      rintro ⟨answer, hok⟩
      rw [hfail] at hok
      cases hok
    exact ⟨⟨fun hok => absurd hok hnone, fun h => absurd h hpass⟩, fun hok => absurd hok hnone,
      fun _ => ⟨r, hr, hfail⟩⟩

/-- A copy does not mind that the folder was moved to where it is copied; it gets another name. -/
theorem batch_outcome_carried :
    let copy := (Operation.copyNodes ["a0"] "b0" (some "u")).call (supply "c") policy
    (∃ answer, (folders.run .nothing carried copy).1 = .ok answer) ∧
      folders.run .nothing carried copy = (carried folders).run .nothing id copy := by
  intro copy
  obtain ⟨ts, h⟩ := reachable_folders
  obtain ⟨⟨s₀, hs₀, -⟩, -⟩ := h.isSound
  obtain ⟨us, hothers⟩ := run_perform hs₀ ts "d" (.moveNodes ["a0"] "b0" (some "u"))
  obtain ⟨s₁, hs₁⟩ : ∃ s, (carried folders).store = some s := Option.isSome_iff_exists.1 (by decide)
  have hids : ∀ s ∈ (carried folders).store, (∀ n ∈ s.nodes, ¬ "c".toList <+: n.id.toList) ∧
      ∀ pv ∈ s.pvs, ¬ "c".toList <+: pv.id.toList := by
    decide +kernel
  obtain ⟨hnodes, hpvs⟩ := hids s₁ hs₁
  obtain ⟨hrefused, hplanned⟩ := h.batch_outcome hothers hs₀ hs₁ (supply "c") policy
    (.copy ["a0"] "b0" "u") fun _ => isFreshFor_supply hnodes hpvs
  have hok : ∃ answer, (folders.run .nothing carried copy).1 = .ok answer := by
    have hsucceeds : (folders.run .nothing carried copy).1.isOk := by decide +kernel
    cases hresult : (folders.run .nothing carried copy).1 with
    | ok answer => exact ⟨answer, rfl⟩
    | error f => simp [hresult, Except.isOk, Except.toBool] at hsucceeds
  cases hplan : (Batch.copy ["a0"] "b0" "u").check policy s₀ with
  | ok planned => exact ⟨hok, (hplanned planned hplan).2.1 hok⟩
  | error f =>
    obtain ⟨answer, hanswer⟩ := hok
    rw [show folders.run .nothing carried copy = _ from hrefused f hplan] at hanswer
    cases hanswer

end Service

end SnapshotArchive
