import SnapshotArchive.Proofs.Paths
import SnapshotArchive.Proofs.Completeness.Variables
import SnapshotArchive.Proofs.Completeness.Snapshots

/-!
# The checks are complete

An operation that is given all that its records need, on an archive that nobody holds, succeeds or
ends by one of its checks, whatever other clients did between its phases. No rule of the tables is
broken on the way, no reference dangles, the copy of everything that is referred to is found, and so
is a variable that was renamed. A query ends by a check too if it does not succeed: the path of a
node never comes to a parent that is not there, or to a cycle.

* `Operation.IsComplete` : what a client must give.
* `Operation.write_checked`, `Query.answer_checked` : operations and queries fail only by checks.
* `Service.Reachable.checks_complete` : so do whole calls.
-/

namespace SnapshotArchive

open Store Archive

/-! ### Operations -/

/-- Whether a request has all that the records of it need: an author, and the fields of items. -/
def Operation.IsComplete (c : Context) : Operation → Prop
  | createNode _ form user => (author user form.user).isSome
  | moveNodes _ _ user => user.isSome
  | copyNodes _ _ user => user.isSome
  | createConfiguration _ form user => (author user form.node.user).isSome
  | renamePv _ _ _ user => user.isSome
  | saveSnapshot _ items _ _ user => user.isSome ∧ ∀ item ∈ items, item.IsComplete
  | commitSnapshot _ _ _ user => user.isSome
  | addTag _ form => fitsRecord ((form.created.filter (· ≠ 0)).getD c.now)
  | _ => True

/-- A complete request fails only by checks. -/
theorem Operation.write_checked {c : Context} {p : Policy} {o : Operation} (h : o.IsComplete c) :
    (o.write c p).IsChecked c := by
  cases o with
  | createNode => exact (createNode_checked h).map _
  | updateNode => exact updateNode_checked.map _
  | deleteNode => exact deleteNode_checked.map _
  | deleteNodes ids => exact Batch.write_checked p (.delete ids)
  | moveNodes ids target user =>
    obtain ⟨writer, rfl⟩ := Option.isSome_iff_exists.1 h
    exact Batch.write_checked p (.move ids target writer)
  | copyNodes ids target user =>
    obtain ⟨writer, rfl⟩ := Option.isSome_iff_exists.1 h
    exact Batch.write_checked p (.copy ids target writer)
  | createConfiguration => exact (createConfiguration_checked h).map _
  | updateConfiguration => exact updateConfiguration_checked.map _
  | renamePv => exact (renamePv_checked h).map _
  | saveSnapshot => exact (saveSnapshot_checked h.1 h.2).map _
  | commitSnapshot => exact (commitSnapshot_checked h).map _
  | markGolden => exact markGolden_checked.map _
  | addTag => exact (addTag_checked h).map _
  | removeTag => exact removeTag_checked.map _
  | initialise =>
    intro s₀ s t hplan hs _
    obtain rfl := Except.ok.inj hplan
    exact Checked.map (.of_eq_ok ⟨_, makeRoot_eq hs.tree c.now⟩) _

/-! ### Queries -/

/-- A reading of a tree fails only by checks. -/
theorem Query.answer_checked {s : Store} (hs : s.IsTree) (q : Query) : Checked (q.answer s) := by
  cases q with
  | node id => exact (Checked.require s id).map _
  | parent id =>
    refine Checked.map (.bind (.require s id) fun n _ => ?_) _
    cases n.parent with
    | none => exact .refused trivial
    | some parent => exact .require s parent
  | children id => exact Checked.map (.bind (.require s id) fun _ _ => .ok _) _
  | fullPath id =>
    refine Checked.map (fun f hf => ?_) _
    rcases hs.fullPath_eq_error hf with rfl | rfl
    · exact ⟨_, rfl, trivial⟩
    · exact ⟨_, rfl, trivial⟩
  | resolve path =>
    refine Checked.map (.bind (.splitPath path) fun names _ => ?_) _
    cases s.node? rootId with
    | none => exact .ok _
    | some root => exact .ok _
  | stats => exact .ok _
  | relocationAllowed ids target => exact (Checked.checkRelocation s ids target true true).map _
  | configuration id => exact (Checked.configuration s id).map _
  | listedPvs config =>
    exact Checked.map (.bind (.requireToRead s config .configuration) fun _ _ => .ok _) _
  | everyPv => exact .ok _
  | committedSnapshots config =>
    exact Checked.map (.bind (.requireToRead s config .configuration) fun _ _ => .ok _) _
  | allSnapshots => exact .ok _
  | snapshotNode id => exact (Checked.requireToRead s id .snapshot).map _
  | snapshot id => exact (Checked.snapshot s id).map _
  | tags id => exact Checked.map (.bind (.requireToRead s id .snapshot) fun _ _ => .ok _) _
  | allTags => exact .ok _

/-- A query that looks at tables fails only by checks. -/
theorem Query.ask_checked {a : Archive} {s : Store} (ha : a.store = some s) (hs : s.IsTree)
    (q : Query) : Checked (q.ask a) := by
  have hread : Checked (a.read q.answer) := read_of_store ha q.answer ▸ q.answer_checked hs
  unfold Query.ask
  split
  · exact .ok _
  · exact hread

/-! ### Whole calls -/

/-- What fails only by checks succeeds or is refused by a check, which a client is told of as
something missing, a conflict, a broken rule or a cycle. -/
theorem Checked.ok_or_refused {α : Type} {e : Except Failure α} (h : Checked e) :
    (∃ a, e = .ok a) ∨ ∃ r : Refusal, e = .error (.refused r) ∧ r.IsCheck ∧
      r.category ∈ [.notFound, .conflict, .invalid, .cycle] := by
  cases e with
  | ok a => exact .inl ⟨a, rfl⟩
  | error f =>
    obtain ⟨r, rfl, hr⟩ := h f rfl
    have hgeneral := r.category_ne_general
    refine .inr ⟨r, rfl, hr, ?_⟩
    cases hcategory : r.category <;> simp_all

namespace Archive

variable {a : Archive} {s : Store} {between : Archive → Archive} {c : Context} {p : Policy}
  {o : Operation}

/-- A whole call fails only by checks. -/
theorem run_checked {s₁ : Store} (hs : a.store = some s) (hs₁ : (between a).store = some s₁)
    (hsound : s₁.IsSound) (hfresh : c.IsFreshFor s₁) (ho : o.IsComplete c) :
    Checked (a.run .nothing between (o.call c p)).1 := by
  cases hplan : o.write c p s with
  | error f =>
    rw [run_of_plan_error hs (fun _ => rfl) hplan]
    exact .of_eq_error (Operation.plan_checked c p o s) hplan
  | ok t =>
    rw [run_of_plan_ok hs (fun _ => rfl) hplan]
    have hcommit := Operation.write_checked ho s s₁ t hplan hsound hfresh
    cases ht : t s₁ with
    | error f =>
      rw [finish_nothing_of_error hs₁ ht]
      exact .of_eq_error hcommit ht
    | ok result =>
      rw [finish_nothing_of_ok hs₁ ht]
      exact .ok _

end Archive

namespace Service

open Sample

/-- An operation that is given all that its records need, with new identifiers and on an archive
that nobody holds, succeeds or is refused by one of its checks, whatever others did after it was
planned. A query is answered or refused by a check. Neither ends by a rule of the tables that a
record breaks, by a reference or a copy that is not there, or by parent links that lead nowhere. -/
theorem Reachable.checks_complete {a : Archive} {between : Archive → Archive}
    {ts us : List (Transaction Answer)} {s₁ : Store} (h : Reachable ⟨a, ts⟩)
    (hothers : Run ⟨a, ts⟩ ⟨between a, us⟩) (hs₁ : (between a).store = some s₁) :
    (∀ c p o, c.IsFreshFor s₁ → Operation.IsComplete c o →
      let result := (a.run .nothing between (o.call c p)).1
      (∃ answer, result = .ok answer) ∨ ∃ r : Refusal, result = .error (.refused r) ∧ r.IsCheck ∧
        r.category ∈ [.notFound, .conflict, .invalid, .cycle]) ∧
    ∀ q : Query, (∃ answer, q.ask a = .ok answer) ∨ ∃ r : Refusal, q.ask a = .error (.refused r) ∧
      r.IsCheck ∧ r.category ∈ [.notFound, .conflict, .invalid, .cycle] := by
  obtain ⟨⟨s, hs, hsound⟩, -⟩ := h.isSound
  obtain ⟨writeAhead, now, hrun⟩ := h
  obtain ⟨⟨s', hs', hsound'⟩, -⟩ := Reachable.isSound ⟨writeAhead, now, hrun.trans hothers⟩
  obtain rfl := Option.some.inj (hs'.symm.trans hs₁)
  exact ⟨fun c p o hfresh ho => (run_checked hs hs₁ hsound' hfresh ho).ok_or_refused,
    fun q => (q.ask_checked hs hsound.tree).ok_or_refused⟩

/-- A name that another client takes meanwhile is found so by the check, and not by the tables. -/
theorem checks_complete_taken :
    let taken := (Operation.createNode rootId (form " b " .folder) (some "u")).call (supply "c")
      policy
    let others := perform "b" (.createNode rootId (form "b" .folder) (some "u"))
    ∃ r : Refusal, (folder.run .nothing others taken).1 = .error (.refused r) ∧ r.IsCheck ∧
      r.category ∈ [.notFound, .conflict, .invalid, .cycle] := by
  intro taken others
  obtain ⟨ts, h⟩ := reachable_folder
  obtain ⟨⟨s₀, hs₀, -⟩, -⟩ := h.isSound
  obtain ⟨us, hothers⟩ := run_perform hs₀ ts "b" (.createNode rootId (form "b" .folder) (some "u"))
  obtain ⟨s₁, hs₁⟩ : ∃ s, folders.store = some s := Option.isSome_iff_exists.1 (by decide)
  have hids : ∀ s ∈ folders.store, (∀ n ∈ s.nodes, ¬ "c".toList <+: n.id.toList) ∧
      ∀ pv ∈ s.pvs, ¬ "c".toList <+: pv.id.toList := by
    decide +kernel
  obtain ⟨hnodes, hpvs⟩ := hids s₁ hs₁
  have hcomplete : (Operation.createNode rootId (form " b " .folder) (some "u")).IsComplete
      (supply "c") := rfl
  obtain ⟨hcalls, -⟩ := h.checks_complete hothers hs₁
  have hfails : (folder.run .nothing others taken).1.isOk = false := by decide +kernel
  rcases hcalls (supply "c") policy _ (isFreshFor_supply hnodes hpvs) hcomplete with hok | hrefused
  · obtain ⟨answer, hok⟩ := hok
    rw [show (folder.run .nothing others taken).1 = _ from hok] at hfails
    cases hfails
  · exact hrefused

end Service

end SnapshotArchive
