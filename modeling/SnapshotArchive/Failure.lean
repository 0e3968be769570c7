import SnapshotArchive.Refusal

/-!
# Failures

How a call can end without an answer. Most failures are refusals; the others show a request that
carries a value no record can hold, or an archive that is not ready.

* `demand_eq_ok_iff` : a check passes exactly if its condition holds.
-/

namespace SnapshotArchive

/-- The fields that a record cannot leave out and a request can. -/
inductive RequiredField where
  | nodeUser
  | itemTimestamp
  | itemSeverity
  | itemStatus
  deriving DecidableEq

/-- The table and the column of a field. -/
def RequiredField.column : RequiredField → String
  | nodeUser => "nodes.user_name"
  | itemTimestamp => "snapshot_items.timestamp"
  | itemSeverity => "snapshot_items.alarm_severity"
  | itemStatus => "snapshot_items.alarm_status"

/-- The ways in which a call fails. -/
inductive Failure where
  | refused (r : Refusal)
  /-- A record lacks a field that it cannot leave out. -/
  | absentField (field : RequiredField)
  /-- A record refers to one that does not exist. -/
  | danglingReference
  /-- A number does not fit into a record. -/
  | outOfRange
  /-- The archive has no tables yet. -/
  | notInitialised
  /-- The archive is held by another client while its tables are made. -/
  | locked
  /-- A copy refers to a record that was not copied. -/
  | notCopied (id : Id)
  deriving DecidableEq

namespace Failure

/-- The message of a failure. -/
def message : Failure → String
  | refused r => r.message
  | absentField field => s!"NOT NULL constraint failed: {field.column}"
  | danglingReference => "FOREIGN KEY constraint failed"
  | outOfRange => "number too large for a record"
  | notInitialised => "no such table: nodes"
  | locked => "database is locked"
  | notCopied id => Text.quoted id

end Failure

/-! ### Checks -/

/-- Fails unless a condition holds. -/
def demand (p : Prop) [Decidable p] (f : Failure) : Except Failure Unit :=
  if p then .ok () else .error f

/-- Refuses unless a condition holds. -/
abbrev ensure (p : Prop) [Decidable p] (r : Refusal) : Except Failure Unit :=
  demand p (.refused r)

/-- A check passes exactly if its condition holds. -/
theorem demand_eq_ok_iff {p : Prop} [Decidable p] {f : Failure} {u : Unit} :
    demand p f = .ok u ↔ p := by
  by_cases h : p <;> simp [demand, h]

/-- A check fails exactly if its condition does not hold, and with its own failure. -/
theorem demand_eq_error_iff {p : Prop} [Decidable p] {f g : Failure} :
    demand p f = .error g ↔ ¬p ∧ f = g := by
  by_cases h : p <;> simp [demand, h]

/-- A check and what follows it succeed exactly if the condition holds and the rest succeeds. -/
theorem demand_bind_eq_ok_iff {α : Type} {p : Prop} [Decidable p] {f : Failure}
    {k : Unit → Except Failure α} {a : α} :
    (demand p f >>= k) = .ok a ↔ p ∧ k () = .ok a := by
  by_cases h : p <;> simp [demand, h, bind, Except.bind]

/-- Two steps succeed exactly if the first does and the second does with its result. -/
theorem bind_eq_ok_iff {α β : Type} {x : Except Failure α} {k : α → Except Failure β} {b : β} :
    (x >>= k) = .ok b ↔ ∃ a, x = .ok a ∧ k a = .ok b := by
  cases x <;> simp [bind, Except.bind]

/-- A value that a record cannot leave out. -/
def present {α : Type} (field : RequiredField) : Option α → Except Failure α
  | some a => .ok a
  | none => .error (.absentField field)

/-- A field that cannot be left out passes exactly if it is given. -/
theorem present_eq_ok_iff {α : Type} {field : RequiredField} {v : Option α} {a : α} :
    present field v = .ok a ↔ v = some a := by
  cases v <;> simp [present]

end SnapshotArchive
