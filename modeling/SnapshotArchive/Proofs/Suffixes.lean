import SnapshotArchive.Proofs.DeepCopy
import SnapshotArchive.Proofs.Interleaving
import Mathlib.Data.Nat.Pairing

/-!
# Names under the suffix policy

Under the suffix policy a copy never fails for its name: it gets the first of the names that it
tries that no child of the target of its kind has, the copies before it included
(`IsFirstFree`). The search ends after as many attempts as there are children, since no name is
tried twice.

A copy leaves the selected nodes as they are and where they are, so they can be copied again
(`Store.IsRelocation.again`), and again (`Service.copiedAgain`).

* `Store.IsCopied.isSuffixed` : what the target holds after a copy.
* `Service.Reachable.copied_under_suffixes` : what clients find after any number of copies.
-/

namespace SnapshotArchive

open Store Archive Sample

/-! ### The first free name -/

/-- Whether a node of the kind in a list has the name. -/
def HasName (l : List Node) (kind : Kind) (name : String) : Prop :=
  ∃ n ∈ l, n.kind = kind ∧ n.name = name

/-- A list has a name for a kind if one of its nodes has both. -/
theorem hasName_iff {l : List Node} {kind : Kind} {name : String} :
    HasName l kind name ↔ (kind, name) ∈ l.map fun n => (n.kind, n.name) := by
  simp only [HasName, List.mem_map, Prod.mk.injEq]

/-- Of the names that a copy of a node tries, the first that no node of its kind in a list has. The
search for it ends after at most as many attempts as there are nodes in the list. -/
def IsFirstFree (l : List Node) (n : Node) (name : String) : Prop :=
  ∃ attempt ≤ l.length, name = copyName n.name attempt ∧ ¬HasName l n.kind name ∧
    ∀ i < attempt, HasName l n.kind (copyName n.name i)

/-- If all names before an attempt are taken, there are as many nodes that have them. -/
theorem le_length_of_hasName {l : List Node} {n : Node} {attempt : Nat}
    (h : ∀ i < attempt, HasName l n.kind (copyName n.name i)) : attempt ≤ l.length := by
  have htaken : (List.range attempt).map (copyName n.name) ⊆ l.map (·.name) := by
    intro name hname
    obtain ⟨i, hi, rfl⟩ := List.mem_map.1 hname
    obtain ⟨m, hm, -, hmname⟩ := h i (List.mem_range.1 hi)
    exact List.mem_map.2 ⟨m, hm, hmname⟩
  have hle := (List.nodup_range.map (copyName_injective n.name)).length_le_of_subset htaken
  simpa using hle

/-- There is only one first free name. -/
theorem IsFirstFree.eq_copyName {l : List Node} {n : Node} {name : String}
    (h : IsFirstFree l n name) {k : Nat} (hfree : ¬HasName l n.kind (copyName n.name k))
    (hbefore : ∀ i < k, HasName l n.kind (copyName n.name i)) : name = copyName n.name k := by
  obtain ⟨j, -, rfl, hfree', hbefore'⟩ := h
  rcases Nat.lt_trichotomy j k with hlt | rfl | hlt
  · exact absurd (hbefore j hlt) hfree'
  · rfl
  · exact absurd (hbefore' k hlt) hfree

/-- Copies of nodes come behind the children of a target, are of the kinds of their originals, and
have the first names that are free when the copies before them are there. -/
structure Store.IsSuffixed (s : Store) (target : Id) (nodes : List Node) (copy : Node → Node)
    (s' : Store) : Prop where
  children : s'.children target = s.children target ++ nodes.map copy
  kind : ∀ n ∈ nodes, (copy n).kind = n.kind
  name : ∀ before n after, nodes = before ++ n :: after →
    IsFirstFree (s.children target ++ before.map copy) n (copy n).name

section

variable {s : Store} {c : Context} {user : String} {target : Id} {d : Id → Duplicate}
  {before : List Node}

/-- Of a kind that moves, a child of the target has a name exactly if it is found by it. -/
theorem Store.isSome_sibling?_iff (hs : s.IsNamed) {kind : Kind} (hmovable : kind.isMovable)
    {name : String} :
    (s.sibling? target kind name).isSome ↔ HasName (s.children target) kind name := by
  constructor
  · intro hsome
    obtain ⟨n, hn⟩ := Option.isSome_iff_exists.1 hsome
    obtain ⟨-, hp, hk, hname, -⟩ := holdsName_iff.1 (List.find?_some hn)
    exact ⟨n, mem_children_iff.2 ⟨List.mem_of_find?_eq_some hn, hp⟩, hk, hname⟩
  · rintro ⟨n, hn, rfl, rfl⟩
    obtain ⟨hn, hp⟩ := mem_children_iff.1 hn
    have hdraft := hs.draft_eq_false hn hmovable
    rw [sibling?, List.find?_isSome]
    exact ⟨n, hn, holdsName_iff.2 ⟨by simp [hp], hp, rfl, rfl, hdraft⟩⟩

/-- Names are taken by the children of the target and the copies before. -/
theorem isTaken_iff (hs : s.IsNamed) {kind : Kind} (hmovable : kind.isMovable) {name : String} :
    IsTaken s target d before kind name ↔ HasName (s.children target ++
      before.map fun n => (d n.id).root c user target n) kind name := by
  rw [IsTaken, isSome_sibling?_iff hs hmovable]
  simp only [HasName, List.mem_append, List.mem_map, or_and_right, exists_or]
  refine or_congr_right ?_
  constructor
  · rintro ⟨n, hn, hk, hname⟩
    exact ⟨_, ⟨n, hn, rfl⟩, hk, hname⟩
  · rintro ⟨_, ⟨n, hn, rfl⟩, hk, hname⟩
    exact ⟨n, hn, hk, hname⟩

/-- Where a copy is placed, it has the first free name. -/
theorem IsPlaced.isFirstFree (hs : s.IsNamed) {n : Node} (hmovable : n.kind.isMovable)
    (h : IsPlaced .suffix s target d before n) :
    IsFirstFree (s.children target ++ before.map fun m => (d m.id).root c user target m) n
      (d n.id).name := by
  have htaken : ∀ {name : String}, IsTaken s target d before n.kind name ↔ HasName
      (s.children target ++ before.map fun m => (d m.id).root c user target m) n.kind name :=
    isTaken_iff hs hmovable
  obtain ⟨attempt, hname, -, hfree, hbefore⟩ := h.name
  simp only [htaken] at hfree hbefore
  exact ⟨attempt, le_length_of_hasName hbefore, hname, hname ▸ hfree, hbefore⟩

end

namespace Store

variable {s s' : Store} {c : Context} {user : String} {target : Id} {nodes : List Node}
  {d : Id → Duplicate}

/-! ### The children of the target -/

/-- No child of a node is the node itself, so a stamp on it does not show in its children. -/
theorem IsTree.children_stamp (hs : s.IsTree) :
    (s.stamp c target user).children target = s.children target := by
  refine (children_map (fun n _ => hasPlaceOf_stamp c target user n) target).trans ?_
  refine (List.map_congr_left fun n hn => ?_).trans (List.map_id _)
  obtain ⟨hn, hp⟩ := mem_children_iff.1 hn
  have hne : n.id ≠ target := by
    intro he
    exact hs.not_leadsTo_of_parent hn hp (he ▸ .refl)
  exact if_neg hne

/-- Folders and configurations, the children of a folder, differ in their names if they are of one
kind. -/
theorem IsSound.nodup_names (hs : s.IsSound) {t : Node} (ht : t ∈ s.nodes)
    (hfolder : t.kind = .folder) :
    ((s.children t.id).map fun n => (n.kind, n.name)).Nodup := by
  have hdraft : ∀ n ∈ s.children t.id, n ∈ s.nodes ∧ n.parent = some t.id ∧ n.draft = false := by
    intro n hn
    obtain ⟨hn, hp⟩ := mem_children_iff.1 hn
    refine ⟨hn, hp, hs.named.draft_eq_false_of_kind hn fun hk => ?_⟩
    simpa [hfolder, hk, Kind.mayHold] using hs.tree.parent_mayHold hn ht hp
  refine (hs.tree.children_nodup t.id).map_on fun n hn m hm he => ?_
  obtain ⟨hn, hnp, hnd⟩ := hdraft n hn
  obtain ⟨hm, hmp, hmd⟩ := hdraft m hm
  obtain ⟨hkind, hname⟩ := Prod.mk.inj he
  exact hs.named.siblings n hn m hm hnd hmd (hnp.trans hmp.symm) hkind hname

namespace IsCopied

variable (h : s.IsCopied c user target nodes d s')

include h

/-- Copies placed under the suffix policy take the first free name one after the other. -/
theorem isSuffixed (ho : s.IsOrdered) (hmovable : ∀ n ∈ nodes, n.kind.isMovable)
    (hplaced : ∀ before n after, nodes = before ++ n :: after →
      IsPlaced .suffix s target d before n) :
    s.IsSuffixed target nodes (fun n => (d n.id).root c user target n) s' where
  children := by rw [h.children_target ho, h.before.tree.children_stamp]
  kind _ _ := rfl
  name before n after he := by
    have hn : n ∈ nodes := he ▸ List.mem_append_right _ List.mem_cons_self
    exact (hplaced before n after he).isFirstFree h.before.named (hmovable n hn)

/-! ### What a copy leaves as it is -/

/-- The target is there, of its kind. -/
theorem exists_target {t : Node} (ht : t ∈ s.nodes) (hid : t.id = target) :
    ∃ t' ∈ s'.nodes, t'.id = target ∧ t'.kind = t.kind := by
  rw [h.eq]
  refine ⟨_, List.mem_append_left _ (List.mem_map_of_mem ht), ?_⟩
  rw [if_pos hid]
  exact ⟨hid, rfl⟩

/-- Another node that was there is as it was. -/
theorem node?_of_mem {n : Node} (hn : n ∈ s.nodes) (hne : n.id ≠ target) :
    s'.node? n.id = some n := by
  have hstamp : n ∈ (s.stamp c target user).nodes := List.mem_map.2 ⟨n, hn, if_neg hne⟩
  exact Store.node?_of_mem h.after.tree.nodup (h.eq ▸ List.mem_append_left _ hstamp)

/-- From a node that was there the links lead nowhere else. -/
theorem leadsTo {x y : Id} (hx : s.hasNode x) (hup : s'.LeadsTo x y) : s.LeadsTo x y := by
  induction hup using Relation.ReflTransGen.head_induction_on with
  | refl => exact .refl
  | head hlink _ ih =>
    obtain ⟨m, hm, rfl, hp⟩ := hlink
    have hold : m ∈ (s.stamp c target user).nodes := by
      rw [h.eq] at hm
      refine (List.mem_append.1 hm).resolve_right fun hcopy => ?_
      have hnew := h.beside.own.nodes m hcopy
      rw [hx] at hnew
      cases hnew
    obtain ⟨n, hn, hplace⟩ := mem_nodes_stamp hold
    rw [hplace.parent] at hp
    obtain ⟨q, hq, rfl, -⟩ := h.before.tree.contained n hn _ hp
    exact .head ⟨n, hn, hplace.id.symm, hp⟩ (ih (hasNode_of_mem hq))

/-- What identifiers a supply has that the copies did not take are still new. -/
theorem isFreshFor (hsupplied : ∀ n ∈ nodes, (d n.id).IsSupplied c s n) {c' : Context}
    (hfresh : c'.IsFreshFor s) (hapart : ∀ i j, c.fresh i ≠ c'.fresh j) : c'.IsFreshFor s' where
  injective := hfresh.injective
  nodes j := by
    refine Bool.eq_false_iff.2 fun hused => ?_
    rcases (h.hasNode_iff_or _).1 hused with hold | ⟨source, hsource, n, hn, he⟩
    · rw [hfresh.nodes j] at hold
      cases hold
    · obtain ⟨i, hi⟩ := (hsupplied source hsource).nodes n hn
      exact hapart i j (hi.symm.trans he.symm)
  pvs j := by
    refine pv?_isNone_iff.2 fun pv hpv hid => ?_
    rw [h.eq] at hpv
    rcases List.mem_append.1 hpv with hold | hcopy
    · exact pv?_isNone_iff.1 (hfresh.pvs j) pv hold hid
    · obtain ⟨source, hsource, hcopy⟩ := List.mem_flatMap.1 hcopy
      obtain ⟨n, hn, hcopy⟩ := List.mem_flatMap.1 hcopy
      obtain ⟨original, horiginal, rfl⟩ := List.mem_map.1 hcopy
      obtain ⟨i, hi⟩ := (hsupplied source hsource).pvs n hn original horiginal
      exact hapart i j (hi.symm.trans hid)

end IsCopied

/-- What was copied can be copied again. -/
theorem IsRelocation.again {ids : List Id} {t : Node} {inPlace : Bool}
    (hcopies : s.IsRelocation ids target inPlace false nodes t)
    (h : s.IsCopied c user target nodes d s') :
    ∃ t', s'.IsRelocation ids target inPlace false nodes t' := by
  obtain ⟨ht, rfl⟩ := node?_eq_some hcopies.found
  have hne : ∀ n ∈ nodes, n.id ≠ t.id := by
    intro n hn he
    exact hcopies.target_not_mem h.before.tree (he ▸ hcopies.selection.id_mem hn)
  obtain ⟨t', ht', hid, hkind⟩ := h.exists_target ht rfl
  have hfound : s'.node? t.id = some t' := hid ▸ Store.node?_of_mem h.after.tree.nodup ht'
  refine ⟨t', ⟨?_, hcopies.movable, hfound, hkind.trans hcopies.folder, fun n hn hup => ?_, nofun⟩⟩
  · exact { hcopies.selection with
      find := fun n hn => h.node?_of_mem (hcopies.selection.mem hn) (hne n hn) }
  · rw [← hid] at hup
    have hup' := (h.after.tree.mem_ancestorIds_iff ht').1 hup
    rw [hid] at hup'
    exact hcopies.not_leadsTo h.before.tree hn (h.leadsTo (hasNode_of_mem ht) hup')

end Store

/-! ### Copying again and again -/

namespace Sample

/-- Supplies that have no identifier in common. -/
def supplies (i : Nat) : Context := ⟨0, fun j => (supply "e").fresh (Nat.pair i j)⟩

/-- Numbered supplies are fresh for the store, and no two give the same identifier. -/
theorem supplies_apart {s : Store} (hfresh : (supply "e").IsFreshFor s) :
    (∀ i, (supplies i).IsFreshFor s) ∧
      ∀ i j k l, (supplies i).fresh k = (supplies j).fresh l → i = j := by
  have hpair : ∀ i j k l, (supplies i).fresh k = (supplies j).fresh l → i = j ∧ k = l :=
    fun i j k l he => Nat.pair_eq_pair.1 (hfresh.injective he)
  exact ⟨fun i => ⟨fun k l he => (hpair i i k l he).2, fun k => hfresh.nodes _,
    fun k => hfresh.pvs _⟩, fun i j k l he => (hpair i j k l he).1⟩

/-- A folder that holds one with the name of the folder that was copied. -/
def occupied : Archive :=
  perform "d" (.createNode "b0" (form "a" .folder) (some "u")) <|
    perform "b" (.createNode rootId (form "b" .folder) (some "u")) copied

/-- The occupied store can be reached. -/
theorem reachable_occupied : ∃ ts, Service.Reachable ⟨occupied, ts⟩ := by
  obtain ⟨ts, h⟩ := reachable_folder
  obtain ⟨ts, h⟩ := reachable_perform h "c" (.copyNodes ["a0"] rootId (some "u"))
  obtain ⟨ts, h⟩ := reachable_perform h "b" (.createNode rootId (form "b" .folder) (some "u"))
  exact reachable_perform h "d" (.createNode "b0" (form "a" .folder) (some "u"))

end Sample

namespace Service

variable {a : Archive} {ts : List (Transaction Answer)} {s : Store} {p : Policy} {ids : List Id}
  {target : Id} {nodes : List Node} {t : Node}

/-- A selection that passes the checks other than those of names can be copied. -/
theorem Reachable.copied_once {c : Context} (h : Reachable ⟨a, ts⟩) (hs : a.store = some s)
    (hp : p.copies = .suffix) (hfresh : c.IsFreshFor s)
    (hcopies : s.IsRelocation ids target false false nodes t) (user : String) :
    ∃ answer s' d, a.run .nothing id ((Operation.copyNodes ids target (some user)).call c p) =
        (.ok answer, { a with store := some s' }) ∧
      s.IsCopied c user target nodes d s' ∧ (∀ n ∈ nodes, (d n.id).IsSupplied c s n) ∧
      s.IsSuffixed target nodes (fun n => (d n.id).root c user target n) s' := by
  have hsound := h.isSound_store hs
  have hcheck : (Batch.copy ids target user).check p s = .ok nodes := by
    have hfound := checkRelocation_eq_ok_iff.2 hcopies
    simp [Batch.check, hp, hfound, Except.map]
  obtain ⟨answer, s', hcall⟩ := run_batch_of_check hs hsound hcheck fun _ => hfresh
  have hidle : (id a).store = some s := hs
  have hnobody : Run ⟨a, ts⟩ ⟨id a, ts⟩ := .refl
  obtain ⟨s₁, he, -, hsound', hok⟩ := h.call_eq_ok hnobody hidle hcall
  obtain rfl : s' = s₁ := Option.some.inj (congrArg Archive.store he)
  obtain ⟨author, nodes', t', d, hauthor, hfound, hplaced, hsupplied, hcopied⟩ :=
    (hok.effect hsound).isCopied hsound hsound'
  obtain rfl := Option.some.inj hauthor
  -- What was found in the transaction is what the check has found.
  have hsame : s.checkRelocation ids target false false = .ok (nodes', t') := by
    simpa [hp] using checkRelocation_eq_ok_iff.2 hfound
  obtain ⟨rfl, rfl⟩ := Prod.mk.inj
    (Except.ok.inj ((checkRelocation_eq_ok_iff.2 hcopies).symm.trans hsame))
  rw [hp] at hplaced
  exact ⟨answer, s', d, hcall, hcopied, hsupplied,
    hcopied.isSuffixed (h.isOrdered hs) hcopies.movable hplaced⟩

/-- The archive after nodes were copied into a target a number of times, one after the other. -/
def copiedAgain (c : Nat → Context) (p : Policy) (ids : List Id) (target : Id) (user : String)
    (a : Archive) : (times : Nat) → Archive
  | 0 => a
  | i + 1 =>
    ((copiedAgain c p ids target user a i).run .nothing id
      ((Operation.copyNodes ids target (some user)).call (c i) p)).2

section

variable {c : Nat → Context} (h : Reachable ⟨a, ts⟩) (hs : a.store = some s)
  (hp : p.copies = .suffix) (hfresh : ∀ i, (c i).IsFreshFor s)
  (hapart : ∀ i j k l, (c i).fresh k = (c j).fresh l → i = j)
  (hcopies : s.IsRelocation ids target false false nodes t) (user : String)

include h hs hp hfresh hapart hcopies

/-- After any number of copies the nodes can be copied once more, with the supplies that are left,
and each copy has added as many children to the target as there are nodes. -/
theorem Reachable.copied_again (m : Nat) :
    ∃ us s' t' added, Reachable ⟨copiedAgain c p ids target user a m, us⟩ ∧
      (copiedAgain c p ids target user a m).store = some s' ∧
      s'.IsRelocation ids target false false nodes t' ∧ (∀ i, m ≤ i → (c i).IsFreshFor s') ∧
      s'.children target = s.children target ++ added ∧ added.length = m * nodes.length := by
  induction m with
  | zero =>
    exact ⟨ts, s, t, [], h, hs, hcopies, fun i _ => hfresh i, (List.append_nil _).symm, by simp⟩
  | succ m ih =>
    obtain ⟨us, s₁, t₁, added, hreach, hs₁, hcopies₁, hfresh₁, hchildren, hlength⟩ := ih
    obtain ⟨answer, s₂, d, hcall, hcopied, hsupplied, hsuffixed⟩ :=
      hreach.copied_once hs₁ hp (hfresh₁ m (Nat.le_refl m)) hcopies₁ user
    obtain ⟨t₂, hcopies₂⟩ := hcopies₁.again hcopied
    have hnobody : Run ⟨copiedAgain c p ids target user a m, us⟩
        ⟨id (copiedAgain c p ids target user a m), us⟩ := .refl
    obtain ⟨vs, hrun⟩ := hnobody.run hs₁ .nothing (c m) p (.copyNodes ids target (some user))
    refine ⟨vs, s₂, t₂, added ++ nodes.map fun n => (d n.id).root (c m) user target n,
      hreach.run hrun, ?_, hcopies₂, fun i hi => ?_, ?_, ?_⟩
    · rw [copiedAgain, hcall]
    · refine hcopied.isFreshFor hsupplied (hfresh₁ i (by omega)) fun k l he => ?_
      have := hapart m i k l he
      omega
    · rw [hsuffixed.children, hchildren, List.append_assoc]
    · rw [List.length_append, hlength, List.length_map, Nat.succ_mul]

end

/-- Under the suffix policy every selection that passes the checks other than those of names can be
copied. The copies come behind the children of the target, which stay as they are, each under the
first name that is free by then. It can be copied any number of times in a row; each time as many
children are added, and those of one kind all differ in their names. -/
theorem Reachable.copied_under_suffixes {c : Nat → Context} (h : Reachable ⟨a, ts⟩)
    (hs : a.store = some s) (hp : p.copies = .suffix) (hfresh : ∀ i, (c i).IsFreshFor s)
    (hapart : ∀ i j k l, (c i).fresh k = (c j).fresh l → i = j)
    (hcheck : s.checkRelocation ids target false false = .ok (nodes, t)) (user : String) :
    let copy i := (Operation.copyNodes ids target (some user)).call (c i) p
    let after := copiedAgain c p ids target user a
    (∃ answer s' f, a.run .nothing id (copy 0) = (.ok answer, { a with store := some s' }) ∧
      s.IsSuffixed target nodes f s') ∧
    ∀ m, (∃ answer, (after m).run .nothing id (copy m) = (.ok answer, after (m + 1))) ∧
      ∃ s' added, (after m).store = some s' ∧
        s'.children target = s.children target ++ added ∧ added.length = m * nodes.length ∧
        ((s'.children target).map fun n => (n.kind, n.name)).Nodup := by
  intro copy after
  have hcopies := checkRelocation_eq_ok_iff.1 hcheck
  constructor
  · obtain ⟨answer, s', d, hcall, -, -, hsuffixed⟩ :=
      h.copied_once hs hp (hfresh 0) hcopies user
    exact ⟨answer, s', _, hcall, hsuffixed⟩
  · intro m
    obtain ⟨us, s', t', added, hreach, hs', hcopies', hfresh', hchildren, hlength⟩ :=
      h.copied_again hs hp hfresh hapart hcopies user m
    obtain ⟨answer, s'', d, hcall, -⟩ :=
      hreach.copied_once hs' hp (hfresh' m (Nat.le_refl m)) hcopies' user
    obtain ⟨ht, hid⟩ := node?_eq_some hcopies'.found
    have hnext : after (m + 1) = { after m with store := some s'' } := congrArg Prod.snd hcall
    refine ⟨⟨answer, hnext ▸ hcall⟩, s', added, hs', hchildren, hlength, ?_⟩
    rw [← hid]
    exact (hreach.isSound_store hs').nodup_names ht hcopies'.folder

/-- A folder and its copy are copied to where the name of the folder is taken: the new copy gets the
name of the old one, so the copy of that gets another. Doing it twice makes four of them. -/
theorem copied_under_suffixes_occupied :
    let after := copiedAgain supplies policy ["a0", "c0"] "b0" "u" occupied
    ∃ s s' s'' first second, occupied.store = some s ∧ (after 1).store = some s' ∧
      (after 2).store = some s'' ∧ s'.children "b0" = s.children "b0" ++ [first, second] ∧
      (s.children "b0").map (·.name) = ["a"] ∧ first.name = "a (copy)" ∧
      second.name = "a (copy) (copy)" ∧ (s''.children "b0").length = 5 ∧
      ((s''.children "b0").map fun n => (n.kind, n.name)).Nodup := by
  intro after
  obtain ⟨ts, h⟩ := reachable_occupied
  obtain ⟨s, hs⟩ : ∃ s, occupied.store = some s := Option.isSome_iff_exists.1 (by decide +kernel)
  have hbefore : ∀ s ∈ occupied.store, (∀ n ∈ s.nodes, ¬"e".toList <+: n.id.toList) ∧
      (∀ pv ∈ s.pvs, ¬"e".toList <+: pv.id.toList) ∧
      (s.checkRelocation ["a0", "c0"] "b0" false false).toOption.map
        (fun found => found.1.map fun n => (n.kind, n.name)) =
          some [(.folder, "a"), (.folder, "a (copy)")] ∧
      (s.children "b0").map (fun n => (n.kind, n.name)) = [(.folder, "a")] := by
    decide +kernel
  obtain ⟨hnodes, hpvs, hfound, hthere⟩ := hbefore s hs
  obtain ⟨hfresh, hapart⟩ := supplies_apart (isFreshFor_supply hnodes hpvs)
  cases hcheck : s.checkRelocation ["a0", "c0"] "b0" false false with
  | error f =>
    rw [hcheck] at hfound
    cases hfound
  | ok found =>
    obtain ⟨nodes, t⟩ := found
    rw [hcheck] at hfound
    obtain ⟨⟨answer, s', f, hcall, hsuffixed⟩, hafter⟩ :=
      h.copied_under_suffixes (p := policy) hs rfl hfresh hapart hcheck "u"
    obtain ⟨-, s'', added, hs'', hchildren, hlength, hnodup⟩ := hafter 2
    obtain ⟨n, rest, rfl, hn, hrest⟩ := List.map_eq_cons_iff.1 (Option.some.inj hfound)
    obtain ⟨m, rfl, hm⟩ := List.map_eq_singleton_iff.1 hrest
    obtain ⟨hnkind, hnname⟩ := Prod.mk.inj hn
    obtain ⟨hmkind, hmname⟩ := Prod.mk.inj hm
    have hfirst : (f n).name = "a (copy)" := by
      have hname := (hsuffixed.name [] n [m] rfl).eq_copyName (k := 1)
      simp only [hasName_iff, List.map_append, List.map_nil, hthere, hnkind, hnname] at hname
      exact hname (by decide +kernel) (by decide +kernel)
    have hfkind : (f n).kind = .folder :=
      (hsuffixed.kind n List.mem_cons_self).trans hnkind
    have hsecond : (f m).name = "a (copy) (copy)" := by
      have hname := (hsuffixed.name [n] m [] rfl).eq_copyName (k := 1)
      simp only [hasName_iff, List.map_append, List.map_cons, List.map_nil, hthere, hmkind, hmname,
        hfirst, hfkind] at hname
      exact hname (by decide +kernel) (by decide +kernel)
    have hnames := congrArg (List.map Prod.snd) hthere
    rw [List.map_map] at hnames
    refine ⟨s, s', s'', f n, f m, hs, congrArg (fun r => r.2.store) hcall, hs'',
      hsuffixed.children, hnames, hfirst, hsecond, ?_, hnodup⟩
    have hone := congrArg List.length hnames
    rw [List.length_map] at hone
    rw [hchildren, List.length_append, hone, hlength]
    rfl

end Service

end SnapshotArchive
