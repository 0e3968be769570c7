import SnapshotArchive.Proofs.History
import SnapshotArchive.Proofs.Locality.Requests

/-!
# Requests in disjoint subtrees

Two requests about nodes of subtrees of which neither lies in the other do not interfere: in both
orders they have the same answers, and leave the same rows. Each of them works in its own region of
the store (`Region.below`), and to each the store with the work of the other looks like the store
without it (`Region.Agree.beside`).

That a request spares the node that its subtree starts at keeps it from looking at the names beside
that node, where the other subtree may start.

* `Rows.filter_eq_of_apart` : what two changes of a table leave, in both orders.
* `Region.agree_below`, `Region.apart_below` : the region of a subtree.
* `Service.Reachable.disjoint_requests` : the result.
-/

namespace SnapshotArchive

open Store Archive Sample

/-! ### Two changes of a table -/

section

variable {α : Type}

/-- A selection among selected rows. -/
theorem filter_eq_of_imp {l m : List α} {p q : α → Bool} (h : l.filter q = m.filter q)
    (hpq : ∀ a, p a → q a) : l.filter p = m.filter p := by
  have hinner : ∀ k : List α, k.filter p = (k.filter q).filter p := by
    intro k
    rw [List.filter_filter]
    refine List.filter_congr fun a _ => ?_
    cases hp : p a with
    | true => simp [hpq a hp]
    | false => simp
  rw [hinner l, h, ← hinner m]

namespace Rows

variable {q₁ q₂ : α → Prop} [DecidablePred q₁] [DecidablePred q₂] {l l₁ l₂ l₁₂ l₂₁ : List α}
  (hapart : ∀ a, q₁ a → ¬q₂ a)
  (h₁ : Rows q₁ (l.filter (¬q₁ ·)) (l₂.filter (¬q₁ ·)) l₁ l₂₁)
  (h₂ : Rows q₂ (l.filter (¬q₂ ·)) (l₁.filter (¬q₂ ·)) l₂ l₁₂)

include hapart h₁ h₂

/-- One change makes `l₁` of the rows, and `l₂₁` after the other, and that makes `l₂`, and `l₁₂`
after the one. In both orders the same rows of each sort are left, in the same order. -/
theorem filter_eq_of_apart {p : α → Bool} (hp : (∀ a, p a → q₁ a) ∨ (∀ a, p a → q₂ a) ∨
    ∀ a, p a → ¬q₁ a ∧ ¬q₂ a) : l₁₂.filter p = l₂₁.filter p := by
  rcases hp with hp | hp | hp
  · have hnot : ∀ a, p a → decide (¬q₂ a) = true := fun a ha =>
      decide_eq_true (hapart a (hp a ha))
    calc l₁₂.filter p = l₁.filter p := filter_eq_of_imp h₂.right hnot
      _ = l₂₁.filter p := filter_eq_of_imp h₁.same fun a ha => decide_eq_true (hp a ha)
  · have hnot : ∀ a, p a → decide (¬q₁ a) = true := fun a ha =>
      decide_eq_true fun hq => hapart a hq (hp a ha)
    calc l₁₂.filter p = l₂.filter p :=
          (filter_eq_of_imp h₂.same fun a ha => decide_eq_true (hp a ha)).symm
      _ = l₂₁.filter p := (filter_eq_of_imp h₁.right hnot).symm
  · have hnot₁ : ∀ a, p a → decide (¬q₁ a) = true := fun a ha => decide_eq_true (hp a ha).1
    have hnot₂ : ∀ a, p a → decide (¬q₂ a) = true := fun a ha => decide_eq_true (hp a ha).2
    calc l₁₂.filter p = l₁.filter p := filter_eq_of_imp h₂.right hnot₂
      _ = l.filter p := filter_eq_of_imp h₁.left hnot₁
      _ = l₂.filter p := (filter_eq_of_imp h₂.left hnot₂).symm
      _ = l₂₁.filter p := (filter_eq_of_imp h₁.right hnot₁).symm

/-- Two requests about regions apart leave the same rows in either order. -/
theorem perm_of_apart : l₁₂.Perm l₂₁ := by
  classical
  refine List.perm_iff_count.2 fun a => ?_
  rw [List.count_eq_length_filter, List.count_eq_length_filter, filter_eq_of_apart hapart h₁ h₂]
  by_cases ha₁ : q₁ a
  · exact .inl fun b hb => beq_iff_eq.1 hb ▸ ha₁
  · by_cases ha₂ : q₂ a
    · exact .inr (.inl fun b hb => beq_iff_eq.1 hb ▸ ha₂)
    · exact .inr (.inr fun b hb => beq_iff_eq.1 hb ▸ ⟨ha₁, ha₂⟩)

end Rows

end

/-- Two stores have the same rows. Those of each table may stand in another order, but the tags of
each snapshot do not. -/
structure Store.SameRows (s t : Store) : Prop where
  nodes : s.nodes.Perm t.nodes
  pvs : s.pvs.Perm t.pvs
  items : s.items.Perm t.items
  tags : s.tags.Perm t.tags
  tagsOf : ∀ id, s.tags.filter (·.snapshot = id) = t.tags.filter (·.snapshot = id)

/-! ### Regions that lie apart -/

namespace Region

/-- The rows outside a region. -/
def rest (g : Region) (s : Store) : Store where
  nodes := s.nodes.filter fun n => ¬g.Holds n.id
  pvs := s.pvs.filter fun pv => ¬g.Holds pv.config
  items := s.items.filter fun item => ¬g.Holds item.snapshot
  tags := s.tags.filter fun tag => ¬g.Holds tag.snapshot

/-- Two regions share no identifiers, and the top of the second does not lie in the first. -/
structure Apart (g g' : Region) : Prop where
  holds : ∀ x, g.Holds x → ¬g'.Holds x
  owns : ∀ x, g.Owns x → ¬g'.Owns x
  above : ∀ p, g'.above = some p → ¬g.Holds p

namespace Agree

variable {g g' : Region} {s t : Store}

/-- Work in one region leaves the nodes outside as they are. -/
theorem node?_eq_of_not_holds (h : g'.Agree (g'.rest s) (g'.rest s) t t) {x : Id}
    (hx : ¬g'.Holds x) : s.node? x = t.node? x := by
  unfold Store.node?
  rw [← List.head?_filter, ← List.head?_filter]
  refine congrArg List.head? (filter_eq_of_imp h.nodes.left.symm fun n hn => ?_)
  exact decide_eq_true ((of_decide_eq_true hn : n.id = x) ▸ hx)

/-- To a client in one region, a store looks the same after work in another region. -/
theorem beside (hapart : g.Apart g') (h : g.Agree (g.rest s) (g.rest s) s s)
    (h' : g'.Agree (g'.rest s) (g'.rest s) t t) : g.Agree (g.rest s) (g.rest t) s t := by
  have hsame : ∀ {α : Type} {l m : List α} {owner : α → Id},
      m.filter (fun a => ¬g'.Holds (owner a)) = l.filter (fun a => ¬g'.Holds (owner a)) →
      l.filter (fun a => g.Holds (owner a)) = m.filter fun a => g.Holds (owner a) := fun hrest =>
    filter_eq_of_imp hrest.symm fun a ha =>
      decide_eq_true (hapart.holds _ (of_decide_eq_true ha))
  refine { h with
    nodes := ⟨hsame h'.nodes.left, rfl, rfl⟩
    pvs := ⟨hsame h'.pvs.left, rfl, rfl⟩
    items := ⟨hsame h'.items.left, rfl, rfl⟩
    tags := ⟨hsame h'.tags.left, rfl, rfl⟩
    right := ⟨fun n hn p hp hholds => ?_, fun pv hpv hown => ?_, fun item hitem hown => ?_⟩ }
  · obtain ⟨hn, hout⟩ := List.mem_filter.1 hn
    by_cases hin : g'.Holds n.id
    · by_cases htop : n.id = g'.top
      · exact hapart.above p ((h'.place n hn htop).symm.trans hp) hholds
      · obtain ⟨p', hp', hholds'⟩ := h'.parents n hn hin htop
        obtain rfl := Option.some.inj (hp.symm.trans hp')
        exact hapart.holds p hholds hholds'
    · have hns := (List.mem_filter.1 (h'.nodes.mem_left_iff.2 ⟨hn, hin⟩)).1
      exact h.left.nodes n (List.mem_filter.2 ⟨hns, hout⟩) p hp hholds
  · obtain ⟨hpv, hout⟩ := List.mem_filter.1 hpv
    by_cases hin : g'.Holds pv.config
    · exact hapart.owns _ hown (h'.ownPvs pv hpv hin)
    · have hpvs := (List.mem_filter.1 (h'.pvs.mem_left_iff.2 ⟨hpv, hin⟩)).1
      exact h.left.pvs pv (List.mem_filter.2 ⟨hpvs, hout⟩) hown
  · obtain ⟨hitem, hout⟩ := List.mem_filter.1 hitem
    by_cases hin : g'.Holds item.snapshot
    · exact hapart.owns _ hown (h'.ownItems item hitem hin)
    · have hitems := (List.mem_filter.1 (h'.items.mem_left_iff.2 ⟨hitem, hin⟩)).1
      exact h.left.items item (List.mem_filter.2 ⟨hitems, hout⟩) hown

/-- What work in two regions leaves, in both orders. -/
theorem sameRows {s₁ s₂ s₁₂ s₂₁ : Store} (hapart : g.Apart g')
    (h : g.Agree (g.rest s) (g.rest s₂) s₁ s₂₁) (h' : g'.Agree (g'.rest s) (g'.rest s₁) s₂ s₁₂) :
    s₁₂.SameRows s₂₁ where
  nodes := Rows.perm_of_apart (fun _ => hapart.holds _) h.nodes h'.nodes
  pvs := Rows.perm_of_apart (fun _ => hapart.holds _) h.pvs h'.pvs
  items := Rows.perm_of_apart (fun _ => hapart.holds _) h.items h'.items
  tags := Rows.perm_of_apart (fun _ => hapart.holds _) h.tags h'.tags
  tagsOf id := by
    refine Rows.filter_eq_of_apart (fun _ => hapart.holds _) h.tags h'.tags ?_
    by_cases hg : g.Holds id
    · exact .inl fun tag htag => of_decide_eq_true htag ▸ hg
    · by_cases hg' : g'.Holds id
      · exact .inr (.inl fun tag htag => of_decide_eq_true htag ▸ hg')
      · exact .inr (.inr fun tag htag => of_decide_eq_true htag ▸ ⟨hg, hg'⟩)

end Agree

/-! ### The region of a subtree -/

/-- The region of a client that works below a node: the nodes there, their variables, and the
identifiers that the client makes up. -/
noncomputable def below (s : Store) (r : Node) (c : Context) : Region where
  top := r.id
  above := r.parent
  Holds x := s.LeadsTo x r.id ∨ ∃ j, x = c.fresh j
  Owns x := (∃ pv ∈ s.pvs, pv.id = x ∧ s.LeadsTo pv.config r.id) ∨ ∃ j, x = c.fresh j
  holds_top := .inl .refl
  dec := Classical.decPred _

section

variable {s : Store} (hs : s.IsSound) {r : Node} (hr : r ∈ s.nodes) {c : Context}
  (hc : c.IsFreshFor s)

include hr hc

/-- The identifiers that a client makes up are in its region. -/
theorem supplies_below : (below s r c).Supplies c where
  holds j := .inr ⟨j, rfl⟩
  ne_top j := (not_mem_of_hasNode_eq_false (hc.nodes j) hr).symm
  owns j := .inr ⟨j, rfl⟩

omit hr in
/-- A node of the store that is in the region leads to its top. -/
theorem leadsTo_of_holds {n : Node} (hn : n ∈ s.nodes) (hid : (below s r c).Holds n.id) :
    s.LeadsTo n.id r.id := by
  rcases hid with hup | ⟨j, hj⟩
  · exact hup
  · exact absurd hj (not_mem_of_hasNode_eq_false (hc.nodes j) hn)

omit hr in
/-- A variable of the store that is in the region belongs to a configuration there. -/
theorem leadsTo_of_owns (hs : s.IsOwned) {pv : Pv} (hpv : pv ∈ s.pvs)
    (hid : (below s r c).Owns pv.id) : s.LeadsTo pv.config r.id := by
  rcases hid with ⟨q, hq, he, hup⟩ | ⟨j, hj⟩
  · exact pv_eq_of_id_eq hs.pvIds hq hpv he ▸ hup
  · exact absurd hj (pv?_isNone_iff.1 (hc.pvs j) pv hpv)

include hs

omit hr in
/-- What lies outside the region of a subtree refers to nothing in it. -/
theorem bounds_below : (below s r c).Bounds ((below s r c).rest s) where
  nodes n hn p hp hholds := by
    obtain ⟨hn, hout⟩ := List.mem_filter.1 hn
    obtain ⟨m, hm, rfl, -⟩ := hs.tree.contained n hn p hp
    refine of_decide_eq_true hout (.inl (.head ⟨n, hn, rfl, hp⟩ ?_))
    exact leadsTo_of_holds hc hm hholds
  pvs pv hpv hown := by
    obtain ⟨hpv, hout⟩ := List.mem_filter.1 hpv
    exact of_decide_eq_true hout (.inl (leadsTo_of_owns hc hs.owned hpv hown))
  items item hitem hown := by
    obtain ⟨hitem, hout⟩ := List.mem_filter.1 hitem
    obtain ⟨n, hn, hid, -, pv, hpv, he, hp⟩ := hs.owned.itemOwner item hitem
    have hup := leadsTo_of_owns hc hs.owned hpv (he ▸ hown)
    exact of_decide_eq_true hout (.inl (hid ▸ .head ⟨n, hn, rfl, hp⟩ hup))

/-- The region of a subtree is closed. -/
theorem agree_below (hk : r.kind ≠ .snapshot) :
    (below s r c).Agree ((below s r c).rest s) ((below s r c).rest s) s s where
  nodes := ⟨rfl, rfl, rfl⟩
  pvs := ⟨rfl, rfl, rfl⟩
  items := ⟨rfl, rfl, rfl⟩
  tags := ⟨rfl, rfl, rfl⟩
  left := bounds_below hs hc
  right := bounds_below hs hc
  place n hn hid := congrArg Node.parent (eq_of_id_eq hs.tree.nodup hn hr hid)
  parents n hn hid hne := by
    rcases Relation.ReflTransGen.cases_head (leadsTo_of_holds hc hn hid) with he | hup
    · exact absurd he hne
    · obtain ⟨p, ⟨m, hm, he, hp⟩, hup⟩ := hup
      exact ⟨p, eq_of_id_eq hs.tree.nodup hm hn he ▸ hp, .inl hup⟩
  ownPvs pv hpv hid := by
    obtain ⟨n, hn, he, -⟩ := hs.owned.pvOwner pv hpv
    exact .inl ⟨pv, hpv, rfl, he ▸ leadsTo_of_holds hc hn (he ▸ hid)⟩
  ownItems item hitem hid := by
    obtain ⟨n, hn, he, hsnapshot, pv, hpv, hpvid, hp⟩ := hs.owned.itemOwner item hitem
    rcases Relation.ReflTransGen.cases_head (leadsTo_of_holds hc hn (he ▸ hid)) with htop | hup
    · exact absurd (eq_of_id_eq hs.tree.nodup hn hr htop ▸ hsnapshot) hk
    · obtain ⟨p, ⟨m, hm, hmid, hmp⟩, hup⟩ := hup
      obtain rfl := eq_of_id_eq hs.tree.nodup hm hn hmid
      obtain rfl := Option.some.inj (hmp.symm.trans hp)
      exact .inl ⟨pv, hpv, hpvid, hup⟩

end

/-! ### Two subtrees -/

/-- Of two nodes above a third, one lies above the other. -/
theorem leadsTo_or_leadsTo {s : Store} (hs : (s.nodes.map (·.id)).Nodup) {x y z : Id}
    (hy : s.LeadsTo x y) (hz : s.LeadsTo x z) : s.LeadsTo y z ∨ s.LeadsTo z y := by
  refine Relation.ReflTransGen.total_of_right_unique (fun _ _ _ hp hq => ?_) hy hz
  obtain ⟨n, hn, rfl, hp⟩ := hp
  obtain ⟨m, hm, hid, hq⟩ := hq
  obtain rfl := eq_of_id_eq hs hm hn hid
  exact Option.some.inj (hp.symm.trans hq)

/-- What leads to a node is one. -/
theorem hasNode_of_leadsTo {s : Store} {r : Node} (hr : r ∈ s.nodes) {x : Id}
    (hup : s.LeadsTo x r.id) : s.hasNode x := by
  rcases Relation.ReflTransGen.cases_head hup with rfl | ⟨p, ⟨n, hn, rfl, -⟩, -⟩
  · exact hasNode_of_mem hr
  · exact hasNode_of_mem hn

/-- The regions of two subtrees lie apart, if the clients make up other identifiers. -/
theorem apart_below {s : Store} (hs : s.IsSound) {r r' : Node} (hr : r ∈ s.nodes)
    (hr' : r' ∈ s.nodes) (hbelow : ¬s.LeadsTo r.id r'.id) (hbelow' : ¬s.LeadsTo r'.id r.id)
    {c c' : Context} (hc : c.IsFreshFor s) (hc' : c'.IsFreshFor s)
    (hfresh : ∀ i j, c.fresh i ≠ c'.fresh j) : (below s r c).Apart (below s r' c') where
  holds x := by
    rintro (hup | ⟨i, rfl⟩) (hup' | ⟨j, hj⟩)
    · exact (leadsTo_or_leadsTo hs.tree.nodup hup hup').elim hbelow hbelow'
    · have hnode := hasNode_of_leadsTo hr hup
      rw [hj, hc'.nodes j] at hnode
      cases hnode
    · have hnode := hasNode_of_leadsTo hr' hup'
      rw [hc.nodes i] at hnode
      cases hnode
    · exact hfresh i j hj
  owns x := by
    rintro (⟨pv, hpv, rfl, hup⟩ | ⟨i, rfl⟩) hown
    · have hup' := leadsTo_of_owns hc' hs.owned hpv hown
      exact (leadsTo_or_leadsTo hs.tree.nodup hup hup').elim hbelow hbelow'
    · rcases hown with ⟨pv, hpv, hid, -⟩ | ⟨j, hj⟩
      · exact pv?_isNone_iff.1 (hc.pvs i) pv hpv hid
      · exact hfresh i j hj
  above p hp hholds := by
    obtain ⟨m, hm, rfl, -⟩ := hs.tree.contained r' hr' p hp
    exact hbelow' (.head ⟨r', hr', rfl, hp⟩ (leadsTo_of_holds hc hm hholds))

/-- What lies above a node that does not lie below another is not in the region of that. -/
theorem not_holds_above {s : Store} (hs : s.IsTree) {r r' : Node} (hr : r ∈ s.nodes) {c : Context}
    (hc : c.IsFreshFor s) (hbelow : ¬s.LeadsTo r.id r'.id) {x : Id} (hup : s.LeadsTo r.id x) :
    ¬(below s r' c).Holds x := by
  have hnode : ∃ n ∈ s.nodes, n.id = x := by
    rcases Relation.ReflTransGen.cases_tail hup with rfl | ⟨z, -, m, hm, -, hp⟩
    · exact ⟨r, hr, rfl⟩
    · obtain ⟨n, hn, hid, -⟩ := hs.contained m hm x hp
      exact ⟨n, hn, hid⟩
  obtain ⟨n, hn, rfl⟩ := hnode
  exact fun hholds => hbelow (hup.trans (leadsTo_of_holds hc hn hholds))

end Region

/-! ### The two orders -/

/-- A request about nodes of the subtree of a folder or a configuration, which spares that node. -/
structure Request.IsBelow (q : Request) (s : Store) (r : Node) : Prop where
  mem : r ∈ s.nodes
  kind : r.kind ≠ .snapshot
  takesIds : q.TakesIds
  ids : ∀ id ∈ q.ids, s.LeadsTo id r.id
  spares : q.Spares r

/-- A client asks, and nobody else is about. -/
def Archive.ask (a : Archive) (c : Context) (p : Policy) (q : Request) :
    Except Failure Answer × Archive :=
  a.run .nothing id (q.call c p)

namespace Service

/-- A reachable archive that a client asks stays reachable. -/
theorem Reachable.ask {a : Archive} {ts : List (Transaction Answer)} (h : Reachable ⟨a, ts⟩)
    (c : Context) (p : Policy) (q : Request) : ∃ us, Reachable ⟨(a.ask c p q).2, us⟩ := by
  cases q with
  | read q => exact ⟨ts, h⟩
  | change o =>
    obtain ⟨⟨s, hs, -⟩, -⟩ := h.isSound
    have hidle : Run ⟨a, ts⟩ ⟨id a, ts⟩ := .refl
    obtain ⟨us, hrun⟩ := hidle.run hs .nothing c p o
    exact ⟨us, h.run hrun⟩

section

variable {a : Archive} {ts : List (Transaction Answer)} (h : Reachable ⟨a, ts⟩) {s : Store}
  (hs : a.store = some s) {q₁ q₂ : Request} {r₁ r₂ : Node} (hq₁ : q₁.IsBelow s r₁)
  (hq₂ : q₂.IsBelow s r₂) {c₁ c₂ : Context} (hc₁ : c₁.IsFreshFor s) (hc₂ : c₂.IsFreshFor s)
  (p : Policy)

include h hs hq₁ hc₁

/-- A request works in the region of its subtree. -/
theorem Reachable.agree_ask : ∃ s₁, (a.ask c₁ p q₁).2.store = some s₁ ∧
    (Region.below s r₁ c₁).Agree ((Region.below s r₁ c₁).rest s) ((Region.below s r₁ c₁).rest s)
      s₁ s₁ := by
  have hsound := h.isSound_store hs
  obtain ⟨-, s₁, t, hs₁, ht, hagree⟩ :=
    (Region.agree_below hsound hq₁.mem hc₁ hq₁.kind).run (p := p) hsound hsound (fun _ _ => rfl)
      (Region.supplies_below hq₁.mem hc₁) (node?_of_mem hsound.tree.nodup hq₁.mem) hq₁.kind
      hq₁.takesIds (fun id hid => .inl (hq₁.ids id hid)) hq₁.spares hs hs
  obtain rfl := Option.some.inj (hs₁.symm.trans ht)
  exact ⟨s₁, hs₁, hagree⟩

variable (h₁₂ : ¬s.LeadsTo r₁.id r₂.id) (h₂₁ : ¬s.LeadsTo r₂.id r₁.id)
  (hfresh : ∀ i j, c₁.fresh i ≠ c₂.fresh j)

include hq₂ hc₂ h₁₂ h₂₁ hfresh

/-- After a request in another subtree it has the same answer and does the same in the region. -/
theorem Reachable.agree_ask_after :
    (a.ask c₁ p q₁).1 = ((a.ask c₂ p q₂).2.ask c₁ p q₁).1 ∧
      ∃ s₁ s₂ s₂₁, (a.ask c₁ p q₁).2.store = some s₁ ∧ (a.ask c₂ p q₂).2.store = some s₂ ∧
        ((a.ask c₂ p q₂).2.ask c₁ p q₁).2.store = some s₂₁ ∧
        (Region.below s r₁ c₁).Agree ((Region.below s r₁ c₁).rest s)
          ((Region.below s r₁ c₁).rest s₂) s₁ s₂₁ := by
  have hsound := h.isSound_store hs
  obtain ⟨s₂, hs₂, hagree₂⟩ := h.agree_ask hs hq₂ hc₂ p
  obtain ⟨us, hreach⟩ := h.ask c₂ p q₂
  have hapart := Region.apart_below hsound hq₁.mem hq₂.mem h₁₂ h₂₁ hc₁ hc₂ hfresh
  have hbeside := Region.Agree.beside hapart
    (Region.agree_below hsound hq₁.mem hc₁ hq₁.kind) hagree₂
  -- What lies above the first subtree does not lie in the second.
  have habove : ∀ x, s.LeadsTo r₁.id x → s.node? x = s₂.node? x := fun x hup =>
    hagree₂.node?_eq_of_not_holds (Region.not_holds_above hsound.tree hq₁.mem hc₂ h₁₂ hup)
  obtain ⟨hanswer, s₁, s₂₁, hs₁, hs₂₁, hagree⟩ := hbeside.run (p := p) hsound
    (hreach.isSound_store hs₂) habove (Region.supplies_below hq₁.mem hc₁)
    (node?_of_mem hsound.tree.nodup hq₁.mem) hq₁.kind hq₁.takesIds
    (fun id hid => .inl (hq₁.ids id hid)) hq₁.spares hs hs₂
  exact ⟨hanswer, s₁, s₂, s₂₁, hs₁, hs₂, hs₂₁, hagree⟩

end

/-- Two requests about nodes of subtrees of which neither lies in the other do not interfere: in
both orders each of them has the same answer or failure, and the same rows are left. -/
theorem Reachable.disjoint_requests {a : Archive} {ts : List (Transaction Answer)}
    (h : Reachable ⟨a, ts⟩) {s : Store} (hs : a.store = some s) {r₁ r₂ : Node}
    (h₁₂ : ¬s.LeadsTo r₁.id r₂.id) (h₂₁ : ¬s.LeadsTo r₂.id r₁.id) {q₁ q₂ : Request}
    (hq₁ : q₁.IsBelow s r₁) (hq₂ : q₂.IsBelow s r₂) {c₁ c₂ : Context} (hc₁ : c₁.IsFreshFor s)
    (hc₂ : c₂.IsFreshFor s) (hfresh : ∀ i j, c₁.fresh i ≠ c₂.fresh j) (p : Policy) :
    (a.ask c₁ p q₁).1 = ((a.ask c₂ p q₂).2.ask c₁ p q₁).1 ∧
      (a.ask c₂ p q₂).1 = ((a.ask c₁ p q₁).2.ask c₂ p q₂).1 ∧
      ∃ s₁₂ s₂₁, ((a.ask c₁ p q₁).2.ask c₂ p q₂).2.store = some s₁₂ ∧
        ((a.ask c₂ p q₂).2.ask c₁ p q₁).2.store = some s₂₁ ∧ s₁₂.SameRows s₂₁ := by
  obtain ⟨hanswer₁, s₁, s₂, s₂₁, hs₁, hs₂, hs₂₁, hagree₁⟩ :=
    h.agree_ask_after hs hq₁ hq₂ hc₁ hc₂ p h₁₂ h₂₁ hfresh
  obtain ⟨hanswer₂, t₂, t₁, s₁₂, ht₂, ht₁, hs₁₂, hagree₂⟩ :=
    h.agree_ask_after hs hq₂ hq₁ hc₂ hc₁ p h₂₁ h₁₂ fun i j => (hfresh j i).symm
  obtain rfl := Option.some.inj (hs₁.symm.trans ht₁)
  obtain rfl := Option.some.inj (hs₂.symm.trans ht₂)
  have hapart := Region.apart_below (h.isSound_store hs) hq₁.mem hq₂.mem h₁₂ h₂₁ hc₁ hc₂ hfresh
  exact ⟨hanswer₁, hanswer₂, s₁₂, s₂₁, hs₁₂, hs₂₁, hagree₁.sameRows hapart hagree₂⟩

/-- In one folder a configuration is created and in another one a folder. The order shows in that of
the rows alone. -/
theorem disjoint_requests_folders :
    let first := Request.change (.createConfiguration "a0" configuration (some "u"))
    let second := Request.change (.createNode "b0" (form "f" .folder) (some "v"))
    ∃ s₁₂ s₂₁,
      ((folders.ask (supply "x") policy first).2.ask (supply "y") policy second).2.store =
        some s₁₂ ∧
      ((folders.ask (supply "y") policy second).2.ask (supply "x") policy first).2.store =
        some s₂₁ ∧
      s₁₂.nodes.map (·.id) = [rootId, "a0", "b0", "x0", "y0"] ∧
      s₂₁.nodes.map (·.id) = [rootId, "a0", "b0", "y0", "x0"] ∧ s₁₂.SameRows s₂₁ := by
  intro first second
  obtain ⟨ts, h⟩ := reachable_folders
  obtain ⟨s, hs⟩ : ∃ s, folders.store = some s := Option.isSome_iff_exists.1 (by decide)
  have hids : ∀ s ∈ folders.store,
      (∀ n ∈ s.nodes, ¬"x".toList <+: n.id.toList ∧ ¬"y".toList <+: n.id.toList) ∧ s.pvs = [] := by
    decide +kernel
  obtain ⟨hnodes, hpvs⟩ := hids s hs
  have hx : (supply "x").IsFreshFor s :=
    isFreshFor_supply (fun n hn => (hnodes n hn).1) (by simp [hpvs])
  have hy : (supply "y").IsFreshFor s :=
    isFreshFor_supply (fun n hn => (hnodes n hn).2) (by simp [hpvs])
  have hfresh : ∀ i j, (supply "x").fresh i ≠ (supply "y").fresh j := fun i j he => by
    have hheads := congrArg (·.toList.head?) he
    simp [supply] at hheads
  have hfolders : ∀ s ∈ folders.store, ∃ r₁ ∈ s.node? "a0", ∃ r₂ ∈ s.node? "b0",
      (r₁.kind ≠ .snapshot ∧ r₂.id ∉ s.ancestorIds r₁.id) ∧
        r₂.kind ≠ .snapshot ∧ r₁.id ∉ s.ancestorIds r₂.id := by
    decide +kernel
  obtain ⟨r₁, hr₁, r₂, hr₂, ⟨hk₁, hnot₁⟩, hk₂, hnot₂⟩ := hfolders s hs
  obtain ⟨hmem₁, hid₁⟩ := node?_eq_some hr₁
  obtain ⟨hmem₂, hid₂⟩ := node?_eq_some hr₂
  have htree := (h.isSound_store hs).tree
  have hfirst : first.IsBelow s r₁ := ⟨hmem₁, hk₁, trivial, fun id hid =>
    List.mem_singleton.1 hid ▸ hid₁ ▸ .refl, trivial⟩
  have hsecond : second.IsBelow s r₂ := ⟨hmem₂, hk₂, trivial, fun id hid =>
    List.mem_singleton.1 hid ▸ hid₂ ▸ .refl, trivial⟩
  obtain ⟨-, -, s₁₂, s₂₁, hs₁₂, hs₂₁, hsame⟩ := h.disjoint_requests hs
    (fun hup => hnot₁ ((htree.mem_ancestorIds_iff hmem₁).2 hup))
    (fun hup => hnot₂ ((htree.mem_ancestorIds_iff hmem₂).2 hup)) hfirst hsecond hx hy hfresh policy
  have horders :
      ((folders.ask (supply "x") policy first).2.ask (supply "y") policy second).2.store.map
          (fun s => s.nodes.map (·.id)) = some [rootId, "a0", "b0", "x0", "y0"] ∧
        ((folders.ask (supply "y") policy second).2.ask (supply "x") policy first).2.store.map
          (fun s => s.nodes.map (·.id)) = some [rootId, "a0", "b0", "y0", "x0"] := by
    decide +kernel
  rw [hs₁₂, hs₂₁, Option.map_some, Option.map_some] at horders
  exact ⟨s₁₂, s₂₁, hs₁₂, hs₂₁, Option.some.inj horders.1, Option.some.inj horders.2, hsame⟩

end Service

end SnapshotArchive
