import SnapshotArchive.Operation
import SnapshotArchive.Proofs.Editing

/-!
# Checks

A call that fails should do so by a check: something is not found, a name is taken, a request breaks
a rule. The other failures show that no check was made where one was needed, so that a record would
have broken the rules of the tables, or that something is not there that must be
(`Refusal.IsCheck`).

A computation is checked if it fails only by checks (`Checked`). That is closed under composition,
where what follows a check may use that it has passed.

* `Checked.bind`, `Checked.ite_bind` : one step after another.
* `Checked.checkSelection`, `Checked.checkRelocation` : the checks that are made twice.
* `Operation.plan_checked` : a plan fails only by checks.
-/

namespace SnapshotArchive

/-- Whether a refusal is made by a check: not for a rule of the tables that a record breaks, not for
a lock, and not for parent links that lead nowhere. -/
def Refusal.IsCheck : Refusal → Prop
  | collision _ => False
  | busy => False
  | parentMissing _ _ => False
  | parentCycle _ => False
  | preconditionLost cause => cause.IsCheck
  | _ => True

/-- What a client is told of a refusal is that something is not found, a conflict, a broken rule or
a cycle. -/
theorem Refusal.category_ne_general (r : Refusal) : r.category ≠ .general := by
  cases r <;> exact fun h => nomatch h

/-- A computation that fails only by checks. -/
def Checked {α : Type} (e : Except Failure α) : Prop :=
  ∀ f, e = .error f → ∃ r : Refusal, f = .refused r ∧ r.IsCheck

namespace Checked

variable {α β : Type}

/-! ### Composition -/

/-- What succeeds fails at no constraint. -/
theorem ok (a : α) : Checked (.ok a) :=
  fun _ h => nomatch h

/-- What is known to succeed fails at no constraint. -/
theorem of_eq_ok {e : Except Failure α} (h : ∃ a, e = .ok a) : Checked e := by
  obtain ⟨a, rfl⟩ := h
  exact ok a

/-- A failure can be passed on by what gives another answer. -/
theorem of_eq_error {e : Except Failure α} (h : Checked e) {f : Failure} (he : e = .error f) :
    Checked (.error f : Except Failure β) :=
  fun _ hg => h _ (he.trans (congrArg Except.error (Except.error.inj hg)))

/-- A refusal by a check is one. -/
theorem refused {r : Refusal} (hr : r.IsCheck) : Checked (.error (.refused r) : Except Failure α) :=
  fun _ h => ⟨r, (Except.error.inj h).symm, hr⟩

/-- What follows a step may use that the step has succeeded. -/
theorem bind {x : Except Failure α} {k : α → Except Failure β} (hx : Checked x)
    (hk : ∀ a, x = .ok a → Checked (k a)) : Checked (x >>= k) := by
  intro f h
  cases x with
  | error g => exact hx f (congrArg Except.error (Except.error.inj h))
  | ok a => exact hk a rfl f h

/-- Another answer makes no difference to how a call fails. -/
theorem map {x : Except Failure α} (hx : Checked x) (f : α → β) : Checked (x.map f) := by
  intro g h
  cases x with
  | error e => exact hx g (congrArg Except.error (Except.error.inj h))
  | ok a => cases h

/-- A condition is a check if its refusal is. -/
theorem ensure (p : Prop) [Decidable p] {r : Refusal} (hr : r.IsCheck) : Checked (ensure p r) :=
  fun _ h => ⟨r, (demand_eq_error_iff.1 h).2.symm, hr⟩

/-- What follows a test may use that it holds. -/
theorem ensure_bind {p : Prop} [Decidable p] {r : Refusal} {k : Unit → Except Failure α}
    (hr : r.IsCheck) (hk : p → Checked (k ())) : Checked (SnapshotArchive.ensure p r >>= k) :=
  (ensure p hr).bind fun _ h => hk (demand_eq_ok_iff.1 h)

/-- A check that is made only in some cases, and what follows it. -/
theorem ite_bind {p : Prop} [Decidable p] {x y : Except Failure α} {k : α → Except Failure β}
    (hx : Checked x) (hy : Checked y) (hk : ∀ a, (if p then x else y) = .ok a → Checked (k a)) :
    Checked (if p then x >>= k else y >>= k) := by
  split at hk
  · rw [if_pos ‹p›]
    exact hx.bind hk
  · rw [if_neg ‹¬p›]
    exact hy.bind hk

/-- A search is a check if its refusals are. -/
theorem refuseFound (found : Option α) {r : α → Refusal} (hr : ∀ a, (r a).IsCheck) :
    Checked (refuseFound found r) := by
  cases found with
  | none => exact ok ()
  | some a => exact refused (hr a)

/-- A refusal of a check is still one if the check is made again inside the transaction. -/
theorem recheck {x : Except Failure α} (hx : Checked x) : Checked (recheck x) := by
  cases x with
  | ok a => exact ok a
  | error f =>
    obtain ⟨r, rfl, hr⟩ := hx f rfl
    refine refused ?_
    split
    · exact hr
    · exact hr

/-! ### Checks against the store -/

/-- Requiring a node is a check. -/
theorem require (s : Store) (id : Id) : Checked (s.require id) := by
  unfold Store.require
  split
  · exact ok _
  · exact refused trivial

/-- Requiring a node of a kind to read it is a check. -/
theorem requireToRead (s : Store) (id : Id) (kind : Kind) : Checked (s.requireToRead id kind) :=
  (require s id).bind fun n _ => ensure_bind trivial fun _ => ok n

/-- Requiring a node of a kind to write to it is a check. -/
theorem requireToWrite (s : Store) (id : Id) (kind : Kind) : Checked (s.requireToWrite id kind) :=
  (require s id).bind fun n _ => ensure_bind trivial fun _ => ok n

/-- The containment rules are a check. -/
theorem checkChild (parent : Node) (child : Kind) : Checked (Store.checkChild parent child) :=
  ensure (parent.kind.mayHold child) trivial

/-- That a name is free is a check. -/
theorem checkNameFree (s : Store) (parent : Option Id) (kind : Kind) (name : String)
    (self : Option Id) : Checked (s.checkNameFree parent kind name self) := by
  unfold Store.checkNameFree
  split
  · exact ensure _ trivial
  · exact ok ()

/-- An answer with a node fails only if the node is not there. -/
theorem answerNode (s : Store) (id : Id) : Checked (s.answerNode id) :=
  (require s id).bind fun _ _ => ok _

/-- Reading a configuration fails at no constraint. -/
theorem configuration (s : Store) (id : Id) : Checked (s.configuration id) :=
  (requireToRead s id .configuration).bind fun _ _ => ok _

/-- Reading a snapshot fails at no constraint. -/
theorem snapshot (s : Store) (id : Id) : Checked (s.snapshot id) :=
  (requireToRead s id .snapshot).bind fun _ _ => ok _

/-! ### Checks of what clients give -/

/-- That a text is a name is a check. -/
theorem checkName (what : String) (name : Option String) : Checked (checkName what name) :=
  ensure_bind trivial fun _ => ensure_bind trivial fun _ => ok _

/-- Taking a path apart fails only for its first character. -/
theorem splitPath (path : Option String) : Checked (splitPath path) :=
  ensure_bind trivial fun _ => ok _

/-- A list of variables is refused for its faults only. -/
theorem checkPvs (pvs : List PvForm) : Checked (checkPvs pvs) := by
  unfold SnapshotArchive.checkPvs
  split
  · exact ok _
  · exact refused trivial

/-- An update of a snapshot is refused for what it changes only. -/
theorem checkSnapshotUpdate (stored : Node) (name : String) (properties : Properties) :
    Checked (checkSnapshotUpdate stored name properties) :=
  ensure_bind trivial fun _ => ensure _ trivial

/-- Captured items are refused for their faults only. -/
theorem pairItems (s : Store) (config : Id) (items : List ItemForm) :
    Checked (s.pairItems config items) := by
  unfold Store.pairItems
  split
  · exact ok _
  · exact refused trivial

/-! ### Checks of selections -/

/-- Requiring several nodes is a check. -/
theorem requireAll (s : Store) (ids : List Id) : Checked (s.requireAll ids) := by
  induction ids with
  | nil => exact ok []
  | cons id ids ih => exact (require s id).bind fun n _ => ih.bind fun ns _ => ok (n :: ns)

/-- The rules for a selection are a check. -/
theorem checkSelection (s : Store) (ids : List Id) : Checked (s.checkSelection ids) :=
  ensure_bind trivial fun _ => ensure_bind trivial fun _ => (requireAll s ids).bind fun nodes _ =>
    ensure_bind trivial fun _ => ensure_bind trivial fun _ => ok nodes

/-- The rules for a move or a copy are a check. -/
theorem checkRelocation (s : Store) (ids : List Id) (target : Id) (inPlace byName : Bool) :
    Checked (s.checkRelocation ids target inPlace byName) := by
  refine (checkSelection s ids).bind fun nodes _ => (refuseFound _ ?_).bind fun _ _ =>
    (require s target).bind fun t _ => ensure_bind trivial fun _ => (refuseFound _ ?_).bind
      fun _ _ => (refuseFound _ ?_).bind fun _ _ => ok (nodes, t)
  all_goals exact fun _ => trivial

/-- That nodes were not moved meanwhile is a check. -/
theorem checkUnmoved (planned : Option Id) (nodes : List Node) :
    Checked (checkUnmoved planned nodes) :=
  refuseFound _ fun _ => trivial

end Checked

/-! ### Plans -/

/-- A plan fails as the write does whose answer it gives in another form. -/
theorem Checked.plan {α β : Type} {w : Write α} {s : Store} (h : Checked (w s)) (f : α → β) :
    Checked (w.map f s) :=
  h.map _

/-- A plan fails only by checks. -/
theorem Operation.plan_checked (c : Context) (p : Policy) (o : Operation) (s : Store) :
    Checked (o.write c p s) := by
  cases o with
  | createNode =>
    refine .plan ?_ _
    exact .ensure_bind trivial fun _ => (Checked.checkName _ _).bind fun _ _ => .ok _
  | updateNode =>
    refine .plan ?_ _
    exact .bind (.checkName _ _) fun _ _ => .ok _
  | deleteNode => exact .plan (.ok _) _
  | deleteNodes =>
    refine .plan ?_ _
    exact .bind (.checkSelection _ _) fun _ _ => .ok _
  | moveNodes =>
    refine .plan ?_ _
    exact .bind (.checkRelocation _ _ _ _ _) fun _ _ => .ok _
  | copyNodes =>
    refine .plan ?_ _
    exact .bind (.checkRelocation _ _ _ _ _) fun _ _ => .ok _
  | createConfiguration =>
    refine .plan ?_ _
    exact .bind (.checkName _ _) fun _ _ => .bind (.checkPvs _) fun _ _ => .ok _
  | updateConfiguration =>
    refine .plan ?_ _
    exact .bind (.checkName _ _) fun _ _ => .bind (.checkPvs _) fun _ _ => .ok _
  | renamePv =>
    refine .plan ?_ _
    exact .ensure_bind trivial fun _ => .ok _
  | saveSnapshot =>
    refine .plan ?_ _
    exact .ensure_bind trivial fun _ => .ite_bind (.checkName _ _) (.ok _) fun _ _ => .ok _
  | commitSnapshot =>
    refine .plan ?_ _
    exact (Checked.checkName _ _).bind fun _ _ => .ensure_bind trivial fun _ => .ok _
  | markGolden => exact .plan (.ok _) _
  | addTag =>
    refine .plan ?_ _
    exact .ensure_bind trivial fun _ => .ok _
  | removeTag =>
    refine .plan ?_ _
    exact .ensure_bind trivial fun _ => .ok _
  | initialise => exact .ok _

end SnapshotArchive
