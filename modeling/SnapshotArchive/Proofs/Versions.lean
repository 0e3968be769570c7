import SnapshotArchive.Proofs.Integrity
import SnapshotArchive.Proofs.Revisions

/-!
# No update is lost

An update can carry the version in which its client has read the node. It succeeds only if the node
is in that version when the transaction runs. Every operation that changes a node, or the variables
of a configuration, gives the node a higher version, and no operation gives it a lower one. So an
update with a version succeeds only on the node that the client has read, whatever other clients
have done in between, and of two updates with one version one fails.

* `Operation.Effect.isSince` : what an operation keeps of a node in the version that was read.
* `Service.Reachable.no_lost_update` : the two statements about updates.
-/

namespace SnapshotArchive

open Store Archive Sample

/-- Whether an operation updates a node in a certain version. -/
def Operation.Carries (id : Id) (version : Nat) : Operation → Prop
  | .updateNode form _ => form.id = id ∧ form.version = version
  | .updateConfiguration form _ => form.node.id = id ∧ form.node.version = version
  | _ => False

/-- A node of a store is in a later one as it was and with the variables that it had, or has a
higher version. -/
def Store.IsSince (old s : Store) (n : Node) : Prop :=
  ∃ m ∈ s.nodes, m.id = n.id ∧
    (m = n ∧ s.pvsOf n.id = old.pvsOf n.id ∨ n.version < m.version)

namespace Operation

variable {c : Context} {p : Policy} {o : Operation} {s s' old : Store} {n : Node}

/-- An operation keeps a node as it is, with its variables, or gives it a higher version. -/
theorem Effect.isSince (h : o.Effect c p s s') (hs : s.IsSound) (hold : old.IsSince s n)
    (hstays : s'.hasNode n.id) : old.IsSince s' n := by
  obtain ⟨m, hm, hid, hm'⟩ := hold
  obtain ⟨k, hk, hkid⟩ := hasNode_iff.1 hstays
  have hrevision := h.revision hs hm hk (hkid.trans hid.symm)
  have hle := hrevision.version_le
  refine ⟨k, hk, hkid, ?_⟩
  rcases hm' with ⟨rfl, hpvs⟩ | hlt
  · rcases h.pvsOf_eq_or hs hm hk hkid with hsame | hlt
    · rcases hrevision.eq_or_version_lt with hkm | hlt
      · exact .inl ⟨hkm, hsame.trans hpvs⟩
      · exact .inr hlt
    · exact .inr hlt
  · exact .inr (Nat.lt_of_lt_of_le hlt hle)

/-- An update with a version other than zero finds the node in that version, and leaves it in a
higher one. -/
theorem Effect.of_carries {id : Id} {version : Nat} (h : o.Effect c p s s')
    (ho : o.Carries id version) (hversion : version ≠ 0) :
    (∃ m ∈ s.nodes, m.id = id ∧ m.version = version) ∧
      ∃ m ∈ s'.nodes, m.id = id ∧ version < m.version := by
  cases h with
  | @updateNode m form keepTime name hm hid hform =>
    obtain ⟨rfl, hcarried⟩ := ho
    have hsame : m.version = version := by omega
    refine ⟨⟨m, hm, hid, hsame⟩, m.updated c form keepTime name,
      mem_replaceNode_self hm rfl, hid, ?_⟩
    show version < m.version + 1
    omega
  | @updateConfiguration m form user name pvs hm hk hid hform =>
    obtain ⟨rfl, hcarried⟩ := ho
    have hsame : m.version = version := by omega
    refine ⟨⟨m, hm, hid, hsame⟩, m.configured c form name user,
      mem_replaceNode_self hm rfl, hid, ?_⟩
    show version < m.version + 1
    omega
  | _ => exact ho.elim

end Operation

namespace Service

variable {sv sv' : Service} {s s' : Store} {n : Node}

/-- As long as a node is there, it is as it was, with the variables that it had, or in a higher
version. -/
theorem RunWith.isSince (hrun : RunWith n.id sv sv') (h : sv.Reachable)
    (hs : sv.archive.store = some s) (hs' : sv'.archive.store = some s') (hn : n ∈ s.nodes) :
    s.IsSince s' n :=
  hrun.invariant (fun hsound hok _ hstays hold => (hok.effect hsound).isSince hsound hold hstays)
    h hs hs' ⟨n, hn, rfl, .inl ⟨rfl, rfl⟩⟩

/-- When a client has read a node in some version, which is not zero, an update of the node with
that version succeeds later, while the node has been there all the time, only if all fields of the
node and all its variables are what they were, whatever other clients have done. After that update
no other one with that version succeeds. -/
theorem Reachable.no_lost_update {sv₁ sv₂ : Service} {s₁ s₂ s₃ : Store} {id : Id} {n : Node}
    {c : Context} {p : Policy} {o : Operation} {answer : Answer} (h : sv₁.Reachable)
    (hs₁ : sv₁.archive.store = some s₁) (hread : s₁.node? id = some n) (hversion : n.version ≠ 0)
    (hrun : RunWith id sv₁ sv₂) (hs₂ : sv₂.archive.store = some s₂)
    (hcarries : o.Carries id n.version) (hok : o.Succeeds c p s₂ answer s₃) :
    s₂.node? id = some n ∧ s₂.pvsOf id = s₁.pvsOf id ∧
      ∀ {sv₃ sv₄ : Service} {s₄ s₅ : Store} {c' : Context} {p' : Policy} {o' : Operation}
        {answer' : Answer}, sv₃.Reachable → sv₃.archive.store = some s₃ → RunWith id sv₃ sv₄ →
        sv₄.archive.store = some s₄ → o'.Carries id n.version →
        ¬o'.Succeeds c' p' s₄ answer' s₅ := by
  obtain ⟨hn, rfl⟩ := node?_eq_some hread
  have hsound₂ := (h.run hrun.run).isSound_store hs₂
  obtain ⟨⟨m, hm, hid, hsame⟩, k, hk, hkid, hlt⟩ :=
    (hok.effect hsound₂).of_carries hcarries hversion
  obtain ⟨m', hm', hid', hsince⟩ := hrun.isSince h hs₁ hs₂ hn
  obtain rfl := eq_of_id_eq hsound₂.tree.nodup hm hm' (hid.trans hid'.symm)
  rcases hsince with ⟨rfl, hpvs⟩ | hhigher
  · refine ⟨node?_of_mem hsound₂.tree.nodup hm, hpvs, ?_⟩
    intro sv₃ sv₄ s₄ s₅ c' p' o' answer' h₃ hs₃ hrun' hs₄ hcarries' hok'
    have hsound₄ := (h₃.run hrun'.run).isSound_store hs₄
    obtain ⟨⟨l, hl, hlid, hlv⟩, -⟩ := (hok'.effect hsound₄).of_carries hcarries' hversion
    -- The node has a higher version since the first of the two updates.
    rw [← hkid] at hrun'
    obtain ⟨l', hl', hlid', hsince'⟩ := hrun'.isSince h₃ hs₃ hs₄ hk
    obtain rfl := eq_of_id_eq hsound₄.tree.nodup hl hl' (by rw [hlid, hlid', hkid])
    rcases hsince' with ⟨rfl, -⟩ | hhigher'
    · omega
    · omega
  · omega

end Service

/-! ### Two clients that update one folder -/

namespace Sample

/-- What a client does without interruption, while a node is there before and after it, is a run
with the node. -/
theorem runWith_perform {a : Archive} {s s' : Store} {node : Id} (hs : a.store = some s)
    (hnode : s.hasNode node) {stem : String} {o : Operation}
    (hs' : (perform stem o a).store = some s') (hnode' : s'.hasNode node)
    (ts : List (Transaction Answer)) :
    ∃ us, Service.RunWith node ⟨a, ts⟩ ⟨perform stem o a, us⟩ :=
  Service.RunWith.call ⟨s, hs, hnode⟩ ⟨s', hs', hnode'⟩

/-- What a client does is answered, unless it fails. -/
theorem exists_answer (a : Archive) (stem : String) (o : Operation)
    (hok : (a.run .nothing id (o.call (supply stem) policy)).1.isOk) :
    ∃ answer, a.run .nothing id (o.call (supply stem) policy) = (.ok answer, perform stem o a) := by
  rw [perform]
  cases hrun : a.run .nothing id (o.call (supply stem) policy) with
  | mk result b =>
    rw [hrun] at hok
    cases result with
    | ok answer => exact ⟨answer, rfl⟩
    | error f => cases hok

/-- The folder gets another name, if it is in its first version. -/
def rename (name : String) : Operation :=
  .updateNode { form name .folder with id := "a0", version := 1, user := some "u" } false

/-- The archive with two folders when the first has got another name. -/
def renamed : Archive := perform "d" (rename "c") folders

end Sample

namespace Service

/-- Another folder that is created meanwhile does not keep a folder from being renamed in the
version that was read, and the folder is renamed once. -/
theorem no_lost_update_folders : ∃ s₂ s₃ answer, folders.store = some s₂ ∧
    renamed.store = some s₃ ∧ (rename "c").Succeeds (supply "d") policy s₂ answer s₃ ∧
    s₂.node? "a0" = folder.store.bind (·.node? "a0") ∧
    ∀ c p answer s', ¬(rename "d").Succeeds c p s₃ answer s' := by
  obtain ⟨ts, h⟩ := reachable_folder
  obtain ⟨s₁, hs₁⟩ : ∃ s, folder.store = some s := Option.isSome_iff_exists.1 (by decide)
  obtain ⟨s₂, hs₂⟩ : ∃ s, folders.store = some s := Option.isSome_iff_exists.1 (by decide)
  have hfound : (folder.store.bind (·.node? "a0")).map (·.version) = some 1 := by decide
  have hstays : (folders.store.bind (·.node? "a0")).isSome := by decide
  rw [hs₁, Option.bind_some] at hfound
  rw [hs₂, Option.bind_some] at hstays
  obtain ⟨n, hread, hversion⟩ := Option.map_eq_some_iff.1 hfound
  have hnode : s₁.hasNode "a0" := by rw [hasNode, hread]; rfl
  obtain ⟨us, hrun⟩ := runWith_perform hs₁ hnode hs₂ hstays ts
  obtain ⟨answer, hanswer⟩ := exists_answer folders "d" (rename "c") (by decide)
  have hidle : (id folders).store = some s₂ := hs₂
  obtain ⟨s₃, hok, hrenamed⟩ := run_eq_ok hs₂ hidle hanswer
  have hs₃ : renamed.store = some s₃ := congrArg Archive.store hrenamed
  have hcarries : ∀ name, (rename name).Carries "a0" n.version := fun name =>
    ⟨rfl, by rw [hversion]; rfl⟩
  obtain ⟨hsame, -, honce⟩ := h.no_lost_update hs₁ hread (by omega) hrun hs₂ (hcarries "c") hok
  obtain ⟨vs, hreach⟩ := reachable_perform (h.run hrun.run) "d" (rename "c")
  refine ⟨s₂, s₃, answer, hs₂, hs₃, hok, ?_, fun c p answer' s' => ?_⟩
  · rw [hsame, hs₁, Option.bind_some, hread]
  · exact honce hreach hs₃ .refl hs₃ (hcarries "d")

end Service

end SnapshotArchive
