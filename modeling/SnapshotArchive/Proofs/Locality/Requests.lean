import SnapshotArchive.Proofs.Interleaving
import SnapshotArchive.Proofs.Locality.Operations

/-!
# Requests inside a region

The operations and queries whose nodes lie in a region, taken together. A query may look above the
top, at the parent or the path of a node, so for queries the stores must also have the same nodes
there.

* `Region.Agree.write`, `Region.Agree.answer_eq` : all operations, and all queries.
* `Region.Agree.run` : a call of a client, with nobody else about.
-/

namespace SnapshotArchive

open Store

/-! ### What requests name -/

/-- What a client asks of an archive. -/
inductive Request where
  | change (o : Operation)
  | read (q : Query)

/-- The nodes that an operation names. -/
def Operation.ids : Operation → List Id
  | createNode parent _ _ => [parent]
  | updateNode form _ => [form.id]
  | deleteNode id => [id]
  | deleteNodes ids => ids
  | moveNodes ids target _ => target :: ids
  | copyNodes ids target _ => target :: ids
  | createConfiguration parent _ _ => [parent]
  | updateConfiguration form _ => [form.node.id]
  | renamePv config _ _ _ => [config]
  | saveSnapshot config _ _ _ _ => [config]
  | commitSnapshot id _ _ _ => [id]
  | markGolden id _ => [id]
  | addTag id _ => [id]
  | removeTag id _ => [id]
  | initialise => []

/-- The nodes that a query names. -/
def Query.ids : Query → List Id
  | node id => [id]
  | parent id => [id]
  | children id => [id]
  | fullPath id => [id]
  | resolve _ => []
  | stats => []
  | relocationAllowed ids target => target :: ids
  | configuration id => [id]
  | listedPvs config => [config]
  | everyPv config => [config]
  | committedSnapshots config => [config]
  | allSnapshots => []
  | snapshotNode id => [id]
  | snapshot id => [id]
  | tags id => [id]
  | allTags => []

/-- Whether an operation does not rename, delete, move or copy a node itself. -/
def Operation.Spares (r : Node) : Operation → Prop
  | updateNode form _ =>
    form.id = r.id → ∀ name, checkName "Node" form.name = .ok name → name = r.name
  | updateConfiguration form _ =>
    form.node.id = r.id → ∀ name, checkName "Configuration" form.node.name = .ok name →
      name = r.name
  | deleteNode id => id ≠ r.id
  | deleteNodes ids => r.id ∉ ids
  | moveNodes ids _ _ => r.id ∉ ids
  | copyNodes ids _ _ => r.id ∉ ids
  | _ => True

namespace Request

/-- The call that carries out a request. -/
def call (c : Context) (p : Policy) : Request → Call Answer
  | change o => o.call c p
  | read q => q.call

/-- The nodes that a request names. -/
def ids : Request → List Id
  | change o => o.ids
  | read q => q.ids

/-- Whether requests of its sort name nodes. Those about the whole archive do not. -/
def TakesIds : Request → Prop
  | change .initialise => False
  | read (.resolve _) => False
  | read .stats => False
  | read .allSnapshots => False
  | read .allTags => False
  | _ => True

/-- Whether a request does not rename, delete, move or copy a node itself. -/
def Spares (r : Node) : Request → Prop
  | change o => o.Spares r
  | read _ => True

end Request

/-- With nobody else about, a write runs from its plan to its end on one store. -/
theorem Archive.run_write {α : Type} {a : Archive} {s : Store} (hs : a.store = some s)
    (w : Write α) :
    a.run .nothing id (.write w) =
      match w.alone s with
      | .ok (answer, s') => (.ok answer, { a with store := some s' })
      | .error f => (.error f, a) := by
  obtain ⟨ahead, _⟩ := a
  obtain rfl : _ = some s := hs
  rw [run, start_write rfl, Write.alone]
  cases hplan : w s with
  | error f => rfl
  | ok t =>
    show Archive.finish .nothing ⟨ahead, some s⟩ t = match t s with
      | .ok (answer, s') => (.ok answer, ⟨ahead, some s'⟩)
      | .error f => (.error f, ⟨ahead, some s⟩)
    cases ht : t s with
    | error f => rw [finish_of_nothing, Transaction.run_of_error ht]
    | ok found => rw [finish_of_nothing, Transaction.run_of_ok ht]

/-- A call with nobody else about is its write alone. -/
theorem Archive.run_alone {a : Archive} {s : Store} (hs : a.store = some s) {c : Context}
    {p : Policy} {o : Operation} :
    a.run .nothing id (o.call c p) =
      match (o.write c p).alone s with
      | .ok (answer, s') => (.ok answer, { a with store := some s' })
      | .error f => (.error f, a) := by
  rw [run, start_call hs fun _ => rfl, ← run, run_write hs]
  cases (o.write c p).alone s <;> rfl

/-- With nobody else about, a call is answered exactly if its plan and its transaction succeed in
the store as it is. -/
theorem Archive.run_alone_eq_ok_iff {a b : Archive} {s : Store} (hs : a.store = some s)
    {c : Context} {p : Policy} {o : Operation} {answer : Answer} :
    a.run .nothing id (o.call c p) = (.ok answer, b) ↔ ∃ s', (∃ t, o.write c p s = .ok t ∧
      t s = .ok (answer, s')) ∧ b = { a with store := some s' } := by
  have halone : ∀ s', (o.write c p).alone s = .ok (answer, s') ↔
      ∃ t, o.write c p s = .ok t ∧ t s = .ok (answer, s') := fun s' => bind_eq_ok_iff
  simp only [run_alone hs, ← halone]
  cases (o.write c p).alone s with
  | ok result => simp [Prod.ext_iff, eq_comm, and_assoc]
  | error f => simp

/-- A node has the same names above it where the way up from it is the same. -/
theorem Store.IsAt.of_leadsTo {s t : Store} (hs : s.IsTree) {n : Node} {names : List String}
    (hat : s.IsAt n names) (hup : ∀ x, s.LeadsTo n.id x → s.node? x = t.node? x) :
    t.IsAt n names := by
  have hmem : ∀ {m : Node}, m ∈ s.nodes → s.node? m.id = t.node? m.id → m ∈ t.nodes :=
    fun hm he => (node?_eq_some (he.symm.trans (node?_of_mem hs.nodup hm))).1
  induction hat with
  | root hn hp => exact .root (hmem hn (hup _ .refl)) hp
  | child hn hp hat ih =>
    have hlink : s.LeadsTo _ _ := .single ⟨_, hn, rfl, hp⟩
    exact .child (hmem hn (hup _ .refl)) hp (ih fun x hx => hup x (hlink.trans hx))

namespace Region.Agree

variable {g : Region} {u v s t : Store} (h : g.Agree u v s t) (hs : s.IsSound) (ht : t.IsSound)
  {c : Context} {p : Policy}

include h hs ht

/-! ### Operations -/

omit h hs ht in
/-- Writes that are alike stay so with another answer. -/
theorem map_alone {α β : Type} {w : Write α} (f : α → β)
    (hw : Both (g.Same u v) (w.alone s) (w.alone t)) :
    Both (g.Same u v) ((w.map f).alone s) ((w.map f).alone t) := by
  have hmap : ∀ r : Store,
      (w.map f).alone r = (w.alone r).map fun found => (f found.1, found.2) := by
    intro r
    unfold Write.alone Write.map
    cases w r <;> rfl
  rw [hmap, hmap]
  exact hw.map fun _ _ hsame => ⟨congrArg f hsame.1, hsame.2⟩

/-- An operation on nodes of the region does the same to both stores. -/
theorem write (hc : g.Supplies c) {r : Node} (hr : s.node? g.top = some r)
    (hk : r.kind ≠ .snapshot) {o : Operation} (ho : (Request.change o).TakesIds)
    (hids : ∀ id ∈ o.ids, g.Holds id) (hspares : o.Spares r) :
    Both (g.Same u v) ((o.write c p).alone s) ((o.write c p).alone t) := by
  have hrid : r.id = g.top := (node?_eq_some hr).2
  cases o with
  | createNode parent form user =>
    exact map_alone _ (h.createNode hc (hids parent List.mem_cons_self) form user)
  | updateNode form keepTime =>
    exact map_alone _ (h.updateNode hs.named ht.named (hids form.id List.mem_cons_self) hr
      (fun htop => hspares (htop.trans hrid.symm)) keepTime)
  | deleteNode id =>
    exact map_alone _ (h.deleteNode hs.tree ht.tree (hids id List.mem_cons_self))
  | deleteNodes ids =>
    exact map_alone _ (h.deleteNodes hs ht hids)
  | moveNodes ids target user =>
    exact map_alone _ (h.moveNodes hs.tree ht.tree (fun id hid =>
      ⟨hids id (List.mem_cons_of_mem _ hid), fun he => hspares (hrid.trans he.symm ▸ hid)⟩)
      (hids target List.mem_cons_self) user)
  | copyNodes ids target user =>
    exact map_alone _ (h.copyNodes hs ht hc p.copies (fun id hid =>
      hids id (List.mem_cons_of_mem _ hid)) (hids target List.mem_cons_self) user)
  | createConfiguration parent form user =>
    exact map_alone _ (h.createConfiguration hc (hids parent List.mem_cons_self) form user)
  | updateConfiguration form user =>
    exact map_alone _ (h.updateConfiguration hs.named ht.named hc
      (hids form.node.id List.mem_cons_self) hr (fun htop => hspares (htop.trans hrid.symm)) user)
  | renamePv config old new user =>
    exact map_alone _ (h.renamePv (hids config List.mem_cons_self) old new user)
  | saveSnapshot config items name comment user =>
    exact map_alone _ (h.saveSnapshot hs.tree hr hk hc (hids config List.mem_cons_self) items name
      comment user)
  | commitSnapshot id name comment user =>
    exact map_alone _ (h.commitSnapshot hr hk (hids id List.mem_cons_self) name comment user)
  | markGolden id golden =>
    exact map_alone _ (h.markGolden hr hk (hids id List.mem_cons_self) p.goldenExclusive golden)
  | addTag id form =>
    exact map_alone _ (h.addTag (hids id List.mem_cons_self) form)
  | removeTag id form =>
    exact map_alone _ (h.removeTag (hids id List.mem_cons_self) form)
  | initialise => exact ho.elim

/-! ### Queries -/

variable (habove : ∀ x, s.LeadsTo g.top x → s.node? x = t.node? x)

omit hs ht in
include habove in
/-- The way up from a node of the region is the same in both stores. -/
theorem node?_eq_of_leadsTo {id x : Id} (hid : g.Holds id) (hup : s.LeadsTo id x) :
    s.node? x = t.node? x := by
  induction hup using Relation.ReflTransGen.head_induction_on with
  | refl => exact h.node?_eq hid
  | @head y z hlink hrest ih =>
    by_cases htop : y = g.top
    · have hup : s.LeadsTo y x := .head hlink hrest
      exact habove x (htop ▸ hup)
    · obtain ⟨n, hn, rfl, hp⟩ := hlink
      obtain ⟨p, hparent, hholds⟩ := h.parents n hn hid htop
      obtain rfl := Option.some.inj (hp.symm.trans hparent)
      exact ih hholds

include habove in
/-- A node of the region has the same path in both stores. -/
theorem fullPath_eq {id : Id} (hid : g.Holds id) : s.fullPath id = t.fullPath id := by
  cases hfound : s.node? id with
  | none =>
    simp only [fullPath, require, hfound, ← h.node?_eq hid]
    rfl
  | some n =>
    obtain ⟨hn, rfl⟩ := node?_eq_some hfound
    cases hd : n.content.isDraft with
    | true => simp [fullPath, require, hfound, ← h.node?_eq hid, hd, demand, bind, Except.bind]
    | false =>
      obtain ⟨names, hat⟩ := hs.tree.exists_isAt hn
      have hat' : t.IsAt n names := hat.of_leadsTo hs.tree fun x hx =>
        h.node?_eq_of_leadsTo habove hid hx
      rw [hs.tree.fullPath_eq hat hd, ht.tree.fullPath_eq hat' hd]

omit hs ht in
include habove in
/-- It has the same parent in both. -/
theorem parentNode_eq {id : Id} (hid : g.Holds id) : s.parentNode id = t.parentNode id := by
  rw [parentNode, parentNode, ← h.require_eq hid]
  refine bind_congr_of_ok fun n hfound => ?_
  obtain ⟨hn, rfl⟩ := node?_eq_some (require_eq_ok_iff.1 hfound)
  cases hp : n.parent with
  | none => rfl
  | some p =>
    show s.require p = t.require p
    rw [require, h.node?_eq_of_leadsTo habove hid (.single ⟨n, hn, rfl, hp⟩), require]

omit hs ht in
/-- The committed snapshots of a configuration of the region are listed alike in both. -/
theorem committedSnapshots_eq {config : Id} (hid : g.Holds config) :
    s.committedSnapshots config = t.committedSnapshots config := by
  rw [committedSnapshots, committedSnapshots, h.requireToRead_eq hid,
    h.filter_nodes_eq hid fun n hn => by simp_all]

include habove in
/-- A query about nodes of the region has the same answer in both stores. -/
theorem answer_eq {q : Query} (hq : (Request.read q).TakesIds) (hids : ∀ id ∈ q.ids, g.Holds id) :
    q.answer s = q.answer t := by
  cases q with
  | node id => rw [Query.answer, Query.answer, h.require_eq (hids id List.mem_cons_self)]
  | parent id =>
    rw [Query.answer, Query.answer, h.parentNode_eq habove (hids id List.mem_cons_self)]
  | children id =>
    have hid := hids id List.mem_cons_self
    rw [Query.answer, Query.answer, childNodes, h.require_eq hid, h.children_eq hid, childNodes]
  | fullPath id =>
    rw [Query.answer, Query.answer, h.fullPath_eq hs ht habove (hids id List.mem_cons_self)]
  | relocationAllowed ids target =>
    rw [Query.answer, Query.answer, h.checkRelocation_eq hs.tree ht.tree (fun id hid =>
      hids id (List.mem_cons_of_mem _ hid)) (hids target List.mem_cons_self)]
  | configuration id =>
    rw [Query.answer, Query.answer, h.configuration_eq (hids id List.mem_cons_self)]
  | listedPvs config =>
    have hid := hids config List.mem_cons_self
    rw [Query.answer, Query.answer, listedPvs, h.requireToRead_eq hid, h.activePvs_eq hid,
      listedPvs]
  | everyPv config => rw [Query.answer, Query.answer, h.pvsOf_eq (hids config List.mem_cons_self)]
  | committedSnapshots config =>
    rw [Query.answer, Query.answer, h.committedSnapshots_eq (hids config List.mem_cons_self)]
  | snapshotNode id =>
    rw [Query.answer, Query.answer, h.requireToRead_eq (hids id List.mem_cons_self)]
  | snapshot id => rw [Query.answer, Query.answer, h.snapshot_eq (hids id List.mem_cons_self)]
  | tags id =>
    have hid := hids id List.mem_cons_self
    rw [Query.answer, Query.answer, snapshotTags, h.requireToRead_eq hid, h.tagsOf_eq hid,
      snapshotTags]
  | resolve => exact hq.elim
  | stats => exact hq.elim
  | allSnapshots => exact hq.elim
  | allTags => exact hq.elim

/-! ### Calls -/

include habove in
/-- A request about nodes of the region is answered the same in both archives, and leaves stores
that agree. -/
theorem run (hc : g.Supplies c) {r : Node} (hr : s.node? g.top = some r) (hk : r.kind ≠ .snapshot)
    {q : Request} (hq : q.TakesIds) (hids : ∀ id ∈ q.ids, g.Holds id) (hspares : q.Spares r)
    {a b : Archive} (ha : a.store = some s) (hb : b.store = some t) :
    (a.run .nothing id (q.call c p)).1 = (b.run .nothing id (q.call c p)).1 ∧
      ∃ s' t', (a.run .nothing id (q.call c p)).2.store = some s' ∧
        (b.run .nothing id (q.call c p)).2.store = some t' ∧ g.Agree u v s' t' := by
  cases q with
  | read q =>
    refine ⟨?_, s, t, ha, hb, h⟩
    have hread : a.read q.answer = b.read q.answer := by
      rw [Archive.read_of_store ha, Archive.read_of_store hb, h.answer_eq hs ht habove hq hids]
    show q.ask a = q.ask b
    unfold Query.ask
    rw [hread]
  | change o =>
    have hboth := h.write (p := p) hs ht hc hr hk hq hids hspares
    simp only [Request.call, Archive.run_alone ha, Archive.run_alone hb]
    generalize (o.write c p).alone s = x at hboth
    generalize (o.write c p).alone t = y at hboth
    cases hboth with
    | error f => exact ⟨rfl, s, t, ha, hb, h⟩
    | ok hsame => exact ⟨congrArg Except.ok hsame.1, _, _, rfl, rfl, hsame.2⟩

end Region.Agree

end SnapshotArchive
