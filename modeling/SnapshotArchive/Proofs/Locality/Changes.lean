import SnapshotArchive.Proofs.Locality.Region

/-!
# Changes inside a region

A change of rows inside a region does the same to two stores that agree in it: it fails in both with
the same failure, or leaves two stores that agree, and the rows outside as they were.

The name of the top is the one thing that depends on what lies outside, as the siblings of the top
do. So the top may be changed, but it keeps its name, which is free where the names of siblings
differ.

* `Both` : two results that are alike.
* `Region.Agree.insertNode`, `Region.Agree.changeNode`, … : one lemma for each change.
-/

namespace SnapshotArchive

open Store

/-! ### Results -/

/-- Two results are alike: both are the same failure, or both succeed with related values. -/
inductive Both {α β : Type} (R : α → β → Prop) : Except Failure α → Except Failure β → Prop
  | error (f : Failure) : Both R (.error f) (.error f)
  | ok {a : α} {b : β} : R a b → Both R (.ok a) (.ok b)

namespace Both

variable {α β γ δ : Type} {R : α → β → Prop} {S : γ → δ → Prop}

/-- Two steps are alike if the first ones are and the second ones are on what these give. -/
theorem bind {x : Except Failure α} {y : Except Failure β} {f : α → Except Failure γ}
    {g : β → Except Failure δ} (h : Both R x y)
    (hfg : ∀ a b, x = .ok a → y = .ok b → R a b → Both S (f a) (g b)) :
    Both S (x >>= f) (y >>= g) := by
  cases h with
  | error e => exact .error e
  | ok hab => exact hfg _ _ rfl rfl hab

/-- One step that both have in common, and what follows it. -/
theorem bind_same {x : Except Failure α} {f : α → Except Failure γ} {g : α → Except Failure δ}
    (hfg : ∀ a, x = .ok a → Both S (f a) (g a)) : Both S (x >>= f) (x >>= g) := by
  cases x with
  | error e => exact .error e
  | ok a => exact hfg a rfl

/-- One of two ways to go on, which both take. -/
theorem ite {p : Prop} [Decidable p] {x x' : Except Failure α} {y y' : Except Failure β}
    (hx : p → Both R x y) (hx' : ¬p → Both R x' y') :
    Both R (if p then x else x') (if p then y else y') := by
  split
  · exact hx ‹_›
  · exact hx' ‹_›

/-- Results stay alike when their values are replaced by related ones. -/
theorem map {x : Except Failure α} {y : Except Failure β} {f : α → γ} {g : β → δ} (h : Both R x y)
    (hfg : ∀ a b, R a b → S (f a) (g b)) : Both S (x.map f) (y.map g) := by
  cases h with
  | error e => exact .error e
  | ok hab => exact .ok (hfg _ _ hab)

end Both

/-- Beside a node that is no draft nobody else holds its name. -/
theorem Store.IsNamed.all_holders {s : Store} (hs : s.IsNamed) {n : Node} (hn : n ∈ s.nodes)
    (hd : n.draft = false) :
    s.nodes.all fun o => o.id = n.id || !holdsName n.parent n.kind n.name o := by
  refine List.all_eq_true.2 fun o ho => ?_
  by_cases hholds : holdsName n.parent n.kind n.name o
  · obtain ⟨-, hp, hk, hname, hod⟩ := holdsName_iff.1 hholds
    simp [hs.siblings o ho n hn hod hd hp hk hname]
  · simp [hholds]

namespace Region

/-- Two outcomes have the same answer, and stores that agree. -/
def Same {α : Type} (g : Region) (u v : Store) (a b : α × Store) : Prop :=
  a.1 = b.1 ∧ g.Agree u v a.2 b.2

namespace Agree

variable {g : Region} {u v s t : Store} (h : g.Agree u v s t)

include h

/-- One change after the other, each made alike. -/
theorem foldl {α : Type} {l : List α} {f : Store → α → Store}
    (hf : ∀ a ∈ l, ∀ s t, g.Agree u v s t → g.Agree u v (f s a) (f t a)) :
    g.Agree u v (l.foldl f s) (l.foldl f t) := by
  induction l generalizing s t with
  | nil => exact h
  | cons a l ih =>
    exact ih (hf a List.mem_cons_self s t h) fun b hb => hf b (List.mem_cons_of_mem _ hb)

/-! ### Adding records -/

/-- Storing a node in the region is alike in both stores. -/
theorem insertNode {n : Node} {p : Id} (hid : g.Holds n.id) (hne : n.id ≠ g.top) (hp : g.Holds p)
    (hparent : n.parent = some p) : Both (g.Agree u v) (s.insertNode n) (t.insertNode n) := by
  unfold Store.insertNode
  rw [hparent, h.hasNode_eq hid, h.sibling?_eq hp, Option.all_some, Option.all_some,
    h.hasNode_eq hp]
  refine .bind_same fun _ _ => .bind_same fun _ _ => .bind_same fun _ _ => .ok ?_
  refine { h with
    nodes := h.nodes.append fun m hm => List.mem_singleton.1 hm ▸ hid
    place := fun m hm hmid => ?_
    parents := fun m hm hmid htop => ?_ }
  · rcases List.mem_append.1 hm with hm | hm
    · exact h.place m hm hmid
    · exact absurd hmid (List.mem_singleton.1 hm ▸ hne)
  · rcases List.mem_append.1 hm with hm | hm
    · exact h.parents m hm hmid htop
    · exact ⟨p, List.mem_singleton.1 hm ▸ hparent, hp⟩

/-- So is storing a variable of the region. -/
theorem insertPv {pv : Pv} (hc : g.Holds pv.config) (hid : g.Owns pv.id) :
    Both (g.Agree u v) (s.insertPv pv) (t.insertPv pv) := by
  unfold Store.insertPv
  rw [h.pv?_eq hid, h.activePv?_eq hc, h.hasNode_eq hc]
  refine .bind_same fun _ _ => .bind_same fun _ _ => .bind_same fun _ _ => .ok ?_
  refine { h with
    pvs := h.pvs.append fun q hq => List.mem_singleton.1 hq ▸ hc
    ownPvs := fun q hq hqc => ?_ }
  rcases List.mem_append.1 hq with hq | hq
  · exact h.ownPvs q hq hqc
  · exact List.mem_singleton.1 hq ▸ hid

/-- So is storing an item of the region. -/
theorem insertItem {item : Item} (hsnapshot : g.Holds item.snapshot) (hpv : g.Owns item.pv) :
    Both (g.Agree u v) (s.insertItem item) (t.insertItem item) := by
  have hfree : s.items.all (fun i => i.snapshot ≠ item.snapshot || i.pv ≠ item.pv) =
      t.items.all (fun i => i.snapshot ≠ item.snapshot || i.pv ≠ item.pv) := by
    refine h.items.all_eq (fun i hi => ?_) fun i hi => ?_
    · simp [h.items.ne_left hsnapshot i hi]
    · simp [h.items.ne_right hsnapshot i hi]
  unfold Store.insertItem
  rw [hfree, h.hasNode_eq hsnapshot, h.pv?_eq hpv]
  refine .bind_same fun _ _ => .bind_same fun _ _ => .ok ?_
  refine { h with
    items := h.items.append fun i hi => List.mem_singleton.1 hi ▸ hsnapshot
    ownItems := fun i hi hid => ?_ }
  rcases List.mem_append.1 hi with hi | hi
  · exact h.ownItems i hi hid
  · exact List.mem_singleton.1 hi ▸ hpv

/-- A snapshot has tags of the same names. -/
theorem all_tags_eq {snapshot : Id} (hid : g.Holds snapshot) (name : String) :
    s.tags.all (fun tag => tag.snapshot ≠ snapshot || tag.name ≠ name) =
      t.tags.all (fun tag => tag.snapshot ≠ snapshot || tag.name ≠ name) := by
  refine h.tags.all_eq (fun tag htag => ?_) fun tag htag => ?_
  · simp [h.tags.ne_left hid tag htag]
  · simp [h.tags.ne_right hid tag htag]

/-- So is storing a tag of the region. -/
theorem insertTag {tag : Tag} (hsnapshot : g.Holds tag.snapshot) :
    Both (g.Agree u v) (s.insertTag tag) (t.insertTag tag) := by
  unfold Store.insertTag
  rw [h.all_tags_eq hsnapshot, h.hasNode_eq hsnapshot]
  refine .bind_same fun _ _ => .bind_same fun _ _ => .ok ?_
  exact { h with tags := h.tags.append fun i hi => List.mem_singleton.1 hi ▸ hsnapshot }

/-! ### Changing nodes -/

/-- So is changing a node of the region that stays in it. -/
theorem mapNode {id : Id} {f : Node → Node} (hid : g.Holds id) (hfid : ∀ n, (f n).id = n.id)
    (hparent : ∀ n, (f n).parent = n.parent ∨
      id ≠ g.top ∧ ∃ p, (f n).parent = some p ∧ g.Holds p) :
    g.Agree u v (s.mapNode id f) (t.mapNode id f) := by
  refine { h with
    nodes := h.nodes.map (fun n => ?_) (fun n hn => ?_) fun n hn => ?_
    place := fun m hm htop => ?_
    parents := fun m hm hmid htop => ?_ }
  · split
    · rw [hfid]
    · rfl
  · exact if_neg (h.nodes.ne_left hid n hn)
  · exact if_neg (h.nodes.ne_right hid n hn)
  · obtain ⟨n, hn, rfl⟩ := List.mem_map.1 hm
    by_cases he : n.id = id
    · rw [if_pos he] at htop ⊢
      rw [hfid] at htop
      rcases hparent n with hsame | ⟨hne, -⟩
      · exact hsame.trans (h.place n hn htop)
      · exact absurd (he.symm.trans htop) hne
    · rw [if_neg he] at htop ⊢
      exact h.place n hn htop
  · obtain ⟨n, hn, rfl⟩ := List.mem_map.1 hm
    by_cases he : n.id = id
    · rw [if_pos he] at hmid htop ⊢
      rw [hfid] at hmid htop
      rcases hparent n with hsame | ⟨-, hnew⟩
      · exact hsame ▸ h.parents n hn hmid htop
      · exact hnew
    · rw [if_neg he] at hmid htop ⊢
      exact h.parents n hn hmid htop

/-- The nodes that hold a name beside another node are the same. -/
theorem holders_eq {p : Id} (hp : g.Holds p) (id : Id) (k : Kind) (name : String) :
    s.nodes.all (fun o => o.id = id || !holdsName (some p) k name o) =
      t.nodes.all fun o => o.id = id || !holdsName (some p) k name o := by
  refine h.nodes.all_eq (fun o ho => ?_) fun o ho => ?_
  · have hnot : holdsName (some p) k name o = false := Bool.eq_false_iff.2 fun hholds =>
      h.left.nodes o ho p (holdsName_iff.1 hholds).2.1 hp
    simp [hnot]
  · have hnot : holdsName (some p) k name o = false := Bool.eq_false_iff.2 fun hholds =>
      h.right.nodes o ho p (holdsName_iff.1 hholds).2.1 hp
    simp [hnot]

/-- A node is changed alike, unless it is the top and gets another name. -/
theorem changeNode {id : Id} {f : Node → Node} (hid : g.Holds id) (hfid : ∀ n, (f n).id = n.id)
    (hparent : ∀ n, (f n).parent = n.parent ∨
      id ≠ g.top ∧ ∃ p, (f n).parent = some p ∧ g.Holds p)
    (hname : id ≠ g.top ∨ s.IsNamed ∧ t.IsNamed ∧ ∀ n, s.node? id = some n →
      (f n).kind = n.kind ∧ (f n).name = n.name ∧ (f n).draft = n.draft) :
    Both (g.Agree u v) (s.changeNode id f) (t.changeNode id f) := by
  unfold Store.changeNode
  rw [← h.node?_eq hid]
  cases hfound : s.node? id with
  | none => exact .ok h
  | some n =>
    obtain ⟨hn, rfl⟩ := node?_eq_some hfound
    have hfree : ((f n).draft ∨ s.nodes.all fun o =>
          o.id = n.id || !holdsName (f n).parent (f n).kind (f n).name o) ↔
        ((f n).draft ∨ t.nodes.all fun o =>
          o.id = n.id || !holdsName (f n).parent (f n).kind (f n).name o) := by
      by_cases htop : n.id = g.top
      · obtain ⟨hs, ht, hkeeps⟩ := hname.resolve_left (not_not.2 htop)
        obtain ⟨hk, hname, hd⟩ := hkeeps n hfound
        have hp : (f n).parent = n.parent := (hparent n).resolve_right fun hne => hne.1 htop
        rw [hp, hk, hname, hd]
        cases hd : n.draft with
        | true => simp
        | false =>
          have hn' : n ∈ t.nodes := (h.nodes.mem_iff hid).1 hn
          simp only [hs.all_holders hn hd, ht.all_holders hn' hd]
      · obtain ⟨p, hp, hholds⟩ : ∃ p, (f n).parent = some p ∧ g.Holds p := by
          rcases hparent n with hkept | ⟨-, hnew⟩
          · exact hkept ▸ h.parents n hn hid htop
          · exact hnew
        rw [hp, h.holders_eq hholds]
    have hplace : ((f n).parent = n.parent ∨ (f n).parent.all s.hasNode) ↔
        ((f n).parent = n.parent ∨ (f n).parent.all t.hasNode) := by
      rcases hparent n with hkept | ⟨-, p, hp, hholds⟩
      · simp [hkept]
      · rw [hp, Option.all_some, Option.all_some, h.hasNode_eq hholds]
    simp only [hfree, hplace]
    exact .bind_same fun _ _ => .bind_same fun _ _ => .ok (h.mapNode hid hfid hparent)

/-- So is touching a node of the region. -/
theorem touch (c : Context) {id : Id} (hid : g.Holds id) (user : Option String) :
    Both (g.Agree u v) (s.touch c id user) (t.touch c id user) :=
  .bind_same fun _ _ => .ok (h.mapNode hid (fun _ => rfl) fun _ => .inl rfl)

/-- So is an answer with a node of the region. -/
theorem answerNode {id : Id} (hid : g.Holds id) :
    Both (g.Same u v) (s.answerNode id) (t.answerNode id) := by
  unfold Store.answerNode
  rw [h.require_eq hid]
  exact .bind_same fun _ _ => .ok ⟨rfl, h⟩

/-- A child is added alike to a node of the region. -/
theorem addNode (c : Context) {id : Id} {parent : Node} (hid : g.Holds id) (hne : id ≠ g.top)
    (hp : g.Holds parent.id) (name : String) (content : Content) (draft : Bool)
    (properties : Properties) (user : Option String) :
    Both (g.Agree u v) (s.addNode c id parent name content draft properties user)
      (t.addNode c id parent name content draft properties user) := by
  unfold Store.addNode
  rw [h.checkNameFree_eq hp, h.nextPosition_eq hp]
  refine .bind_same fun _ _ => ?_
  dsimp only
  split <;> exact .bind_same fun _ _ => .bind_same fun _ _ => h.insertNode hid hne hp rfl

/-! ### Changing variables -/

/-- The configuration of a variable of the region is in the region. -/
theorem holds_of_pv?_eq_some {id : Id} (hid : g.Owns id) {pv : Pv} (hpv : s.pv? id = some pv) :
    g.Holds pv.config := by
  obtain ⟨hmem, rfl⟩ := pv?_eq_some hpv
  by_contra hc
  exact h.left.pvs pv (h.pvs.mem_left_iff.2 ⟨hmem, hc⟩) hid

/-- Changing a variable of the region is alike in both stores. -/
theorem mapPv {id : Id} {f : Pv → Pv} (hid : g.Owns id) (hfid : ∀ pv, (f pv).id = pv.id)
    (hconfig : ∀ pv, (f pv).config = pv.config) : g.Agree u v (s.mapPv id f) (t.mapPv id f) := by
  refine { h with
    pvs := h.pvs.map (fun pv => ?_) (fun pv hpv => ?_) fun pv hpv => ?_
    ownPvs := fun q hq hqc => ?_ }
  · split
    · rw [hconfig]
    · rfl
  · exact if_neg fun he : pv.id = id => h.left.pvs pv hpv (he ▸ hid)
  · exact if_neg fun he : pv.id = id => h.right.pvs pv hpv (he ▸ hid)
  · obtain ⟨pv, hpv, rfl⟩ := List.mem_map.1 hq
    by_cases he : pv.id = id
    · rw [if_pos he] at hqc ⊢
      exact hfid pv ▸ h.ownPvs pv hpv (hconfig pv ▸ hqc)
    · rw [if_neg he] at hqc ⊢
      exact h.ownPvs pv hpv hqc

/-- So is changing it under the rules of its table. -/
theorem changePv {id : Id} {f : Pv → Pv} (hid : g.Owns id) (hfid : ∀ pv, (f pv).id = pv.id)
    (hconfig : ∀ pv, (f pv).config = pv.config) :
    Both (g.Agree u v) (s.changePv id f) (t.changePv id f) := by
  unfold Store.changePv
  rw [← h.pv?_eq hid]
  cases hpv : s.pv? id with
  | none => exact .ok h
  | some pv =>
    have hholds : g.Holds (f pv).config := hconfig pv ▸ h.holds_of_pv?_eq_some hid hpv
    have hfree : s.pvs.all (fun o => o.id = id || o.config ≠ (f pv).config ||
          o.name ≠ (f pv).name || !o.active) =
        t.pvs.all (fun o => o.id = id || o.config ≠ (f pv).config ||
          o.name ≠ (f pv).name || !o.active) := by
      refine h.pvs.all_eq (fun o ho => ?_) fun o ho => ?_
      · simp [h.pvs.ne_left hholds o ho]
      · simp [h.pvs.ne_right hholds o ho]
    simp only [hfree]
    exact .bind_same fun _ _ => .ok (h.mapPv hid hfid hconfig)

/-- So is deleting it. -/
theorem removePv {id : Id} (hid : g.Owns id) : g.Agree u v (s.removePv id) (t.removePv id) :=
  { h with
    pvs := h.pvs.filter (fun _ _ _ => rfl)
      (fun pv hpv => decide_eq_true fun he => h.left.pvs pv hpv (he ▸ hid))
      fun pv hpv => decide_eq_true fun he => h.right.pvs pv hpv (he ▸ hid)
    items := h.items.filter (fun _ _ _ => rfl)
      (fun i hi => decide_eq_true fun he => h.left.items i hi (he ▸ hid))
      fun i hi => decide_eq_true fun he => h.right.items i hi (he ▸ hid)
    ownPvs := fun pv hpv => h.ownPvs pv (List.mem_filter.1 hpv).1
    ownItems := fun i hi => h.ownItems i (List.mem_filter.1 hi).1 }

/-- So is taking it off its list. -/
theorem unlistPv {id : Id} (hid : g.Owns id) : g.Agree u v (s.unlistPv id) (t.unlistPv id) := by
  unfold Store.unlistPv
  rw [h.isReferenced_eq hid]
  split
  · exact h.mapPv hid (fun _ => rfl) fun _ => rfl
  · exact h.removePv hid

/-! ### Deleting records -/

/-- So is deleting the items of a snapshot of the region. -/
theorem removeItemsOf {snapshot : Id} (hid : g.Holds snapshot) :
    g.Agree u v (s.removeItemsOf snapshot) (t.removeItemsOf snapshot) :=
  { h with
    items := h.items.filter (fun _ _ _ => rfl)
      (fun i hi => decide_eq_true (h.items.ne_left hid i hi))
      fun i hi => decide_eq_true (h.items.ne_right hid i hi)
    ownItems := fun i hi => h.ownItems i (List.mem_filter.1 hi).1 }

/-- So is deleting a tag of a snapshot of the region. -/
theorem removeTagOf {snapshot : Id} (hid : g.Holds snapshot) (name : String) :
    g.Agree u v (s.removeTag snapshot name) (t.removeTag snapshot name) := by
  refine { h with tags := h.tags.filter (fun _ _ _ => rfl) (fun tag htag => ?_) fun tag htag => ?_ }
  · simp [h.tags.ne_left hid tag htag]
  · simp [h.tags.ne_right hid tag htag]

/-- Nodes of the region are deleted with what belongs to them. Items outside have their variables
outside, and stay. -/
theorem removeNodes {ids : List Id} (hids : ∀ id ∈ ids, g.Holds id) :
    g.Agree u v (s.removeNodes ids) (t.removeNodes ids) := by
  have hleft : ∀ {α : Type} {l : List α} {owner : α → Id}, (∀ a ∈ l, ¬g.Holds (owner a)) →
      ∀ a ∈ l, (decide (owner a ∉ ids)) = true := fun hl a ha =>
    decide_eq_true fun hmem => hl a ha (hids _ hmem)
  have hitem : ∀ {w r : Store}, (∀ i ∈ w.items, ¬g.Holds i.snapshot) → g.Bounds w →
      (∀ pv ∈ r.pvs, g.Holds pv.config → g.Owns pv.id) → ∀ i ∈ w.items,
      (decide (i.snapshot ∉ ids) &&
        !r.pvs.any fun pv => pv.id = i.pv && pv.config ∈ ids) = true := by
    intro w r hw hbounds hr i hi
    have hnone : (r.pvs.any fun pv => pv.id = i.pv && pv.config ∈ ids) = false := by
      refine List.any_eq_false.2 fun pv hpv hmem => ?_
      obtain ⟨he, hc⟩ : pv.id = i.pv ∧ pv.config ∈ ids := by simpa using hmem
      exact hbounds.items i hi (he ▸ hr pv hpv (hids _ hc))
    have hkept : i.snapshot ∉ ids := fun hmem => hw i hi (hids _ hmem)
    simp [hnone, hkept]
  refine { h with
    nodes := h.nodes.filter (fun _ _ _ => rfl) (hleft fun _ => h.nodes.not_left)
      (hleft fun _ => h.nodes.not_right)
    pvs := h.pvs.filter (fun _ _ _ => rfl) (hleft fun _ => h.pvs.not_left)
      (hleft fun _ => h.pvs.not_right)
    items := h.items.filter (fun i _ _ => ?_)
      (hitem (fun _ => h.items.not_left) h.left h.ownPvs)
      (hitem (fun _ => h.items.not_right) h.right h.symm.ownPvs)
    tags := h.tags.filter (fun _ _ _ => rfl) (hleft fun _ => h.tags.not_left)
      (hleft fun _ => h.tags.not_right)
    place := fun n hn => h.place n (List.mem_filter.1 hn).1
    parents := fun n hn => h.parents n (List.mem_filter.1 hn).1
    ownPvs := fun pv hpv => h.ownPvs pv (List.mem_filter.1 hpv).1
    ownItems := fun i hi => h.ownItems i (List.mem_filter.1 hi).1 }
  have hany : s.pvs.any (fun pv => pv.id = i.pv && pv.config ∈ ids) =
      t.pvs.any fun pv => pv.id = i.pv && pv.config ∈ ids := by
    refine h.pvs.any_eq (fun pv hpv => ?_) fun pv hpv => ?_
    · have hnot : pv.config ∉ ids := fun hmem => h.pvs.not_left hpv (hids _ hmem)
      simp [hnot]
    · have hnot : pv.config ∉ ids := fun hmem => h.pvs.not_right hpv (hids _ hmem)
      simp [hnot]
  rw [hany]

end Agree

end Region

end SnapshotArchive
