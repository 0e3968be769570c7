import SnapshotArchive.Write
import SnapshotArchive.Selection

/-!
# Archives

An archive is a store that several clients use at a time. Clients read what was last committed;
writes are transactions that run one after the other. Until it is initialised an archive has no
tables, and a call fails as soon as it looks at one.

* `Archive.finish_of_error` : a transaction that fails leaves the archive as it was.
* `Archive.finish_of_nothing` : with nobody else about, a transaction runs on the tables as they
  are.
-/

namespace SnapshotArchive

/-- An archive as its clients share it. -/
structure Archive where
  /-- Whether changes are logged ahead, so that readers and a writer do not exclude each other. -/
  writeAhead : Bool
  /-- The tables, once there are any. -/
  store : Option Store
  deriving Inhabited

/-- What another client does all the while. -/
inductive Hold where
  | nothing
  /-- It is inside a reading. -/
  | reading
  /-- It is inside a transaction. -/
  | writing
  deriving DecidableEq

/-- A call of a client: a reading, a write, or the making of tables and root, which is answered
from whether the root was made. -/
inductive Call (α : Type) where
  | read (r : Archive → Except Failure α)
  | write (w : Write α)
  | initialise (now : Int) (answer : Bool → α)

/-- A call with another answer. -/
def Call.map {α β : Type} (f : α → β) : Call α → Call β
  | read r => .read fun a => (r a).map f
  | write w => .write (w.map f)
  | initialise now answer => .initialise now fun made => f (answer made)

/-- Whether a refusal comes of not finding something. -/
def Refusal.isAbsence : Refusal → Bool
  | noNode _ => true
  | nothingAt _ => true
  | noFolderAt _ => true
  | _ => false

namespace Archive

/-- An archive that was just made: it has no tables. -/
def blank : Archive := ⟨false, none⟩

/-- Opens an archive. A client that asks for logging ahead turns it on for good, if nobody else
holds the archive. -/
def connect (writeAhead : Bool) (hold : Hold) (a : Archive) : Except Failure Archive :=
  if !writeAhead || a.writeAhead then .ok a
  else if hold = .nothing then .ok { a with writeAhead := true }
  else .error .locked

/-- Looks at the tables, if there are any. Without them a look fails; a refusal for what needs no
look comes first. -/
def look {α : Type} (a : Archive) (r : Store → Except Failure α) : Except Failure α :=
  match a.store with
  | some s => r s
  | none =>
    match r .empty with
    | .error (.refused refusal) =>
      .error (if refusal.isAbsence then .notInitialised else .refused refusal)
    | result => result

/-- Reads from the tables, which must be there. -/
def read {α : Type} (a : Archive) (r : Store → Except Failure α) : Except Failure α := do
  let answer ← a.look r
  demand a.store.isSome .notInitialised
  return answer

/-- Makes the tables if there are none. Another client may only read meanwhile, and only if changes
are logged ahead. -/
def makeTables (hold : Hold) (a : Archive) : Except Failure Archive :=
  if hold = .nothing ∨ hold = .reading ∧ a.writeAhead then
    .ok { a with store := some (a.store.getD .empty) }
  else .error .locked

/-- Makes the root if there is none; the answer says whether it was made. -/
def makeRoot (now : Int) : Transaction Bool := fun s =>
  if s.hasNode rootId then .ok (false, s)
  else (s.insertNode (rootNode now)).map (true, ·)

/-! ### The two phases of a call -/

/-- How far the first phase of a call has come. -/
inductive Stage (α : Type) where
  | done (result : Except Failure α)
  | pending (t : Transaction α)

/-- The first phase of a call: a reading is done in it, a write makes its plan. -/
def start {α : Type} (hold : Hold) (a : Archive) : Call α → Archive × Stage α
  | .read r => (a, .done (r a))
  | .write w =>
    match a.look w with
    | .ok t => (a, .pending t)
    | .error f => (a, .done (.error f))
  | .initialise now answer =>
    match a.makeTables hold with
    | .ok b => (b, .pending fun s => (makeRoot now s).map fun (made, s) => (answer made, s))
    | .error f => (a, .done (.error f))

/-- The second phase of a call: its transaction. It does not begin while another client writes. If
changes are not logged ahead it cannot end while another client reads, and is undone. -/
def finish {α : Type} (hold : Hold) (a : Archive) (t : Transaction α) :
    Except Failure α × Archive :=
  if hold = .writing then (.error (.refused .busy), a)
  else
    match a.store with
    | none => (.error .notInitialised, a)
    | some s =>
      match t s with
      | .error f => (.error f, a)
      | .ok (answer, s) =>
        if hold = .reading ∧ a.writeAhead = false then (.error (.refused .busy), a)
        else (.ok answer, { a with store := some s })

/-- A whole call, with the work of other clients between its phases. -/
def run {α : Type} (hold : Hold) (between : Archive → Archive) (a : Archive) (call : Call α) :
    Except Failure α × Archive :=
  match a.start hold call with
  | (b, .done result) => (result, b)
  | (b, .pending t) => (between b).finish hold t

/-! ### Failing calls -/

/-- A transaction that fails leaves the archive as it was. -/
theorem finish_of_error {α : Type} {hold : Hold} {a b : Archive} {t : Transaction α} {f : Failure}
    (h : a.finish hold t = (.error f, b)) : b = a := by
  unfold finish at h
  split at h
  · simp_all
  · split at h
    · simp_all
    · split at h
      · simp_all
      · split at h <;> simp_all

/-- With nobody else about, a transaction runs on the tables as they are. -/
theorem finish_of_nothing {α : Type} {s : Store} {ahead : Bool} {t : Transaction α} :
    (⟨ahead, some s⟩ : Archive).finish .nothing t =
      ((Transaction.run t s).1, ⟨ahead, some (Transaction.run t s).2⟩) := by
  unfold finish Transaction.run
  cases h : t s <;> simp [h]

end Archive

end SnapshotArchive
