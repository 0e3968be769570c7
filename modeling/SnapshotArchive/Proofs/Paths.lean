import SnapshotArchive.Proofs.Integrity
import SnapshotArchive.Store.Path
import Mathlib.Data.List.Induction

/-!
# Paths determine nodes

A node has the names on the way from the root down to it (`Store.IsAt`). The walk up from the node
reads them off its end, the walk down from the root follows them from their start. Both are compared
with that one relation: the walk up along the lineage of the node, the walk down by induction on the
last name, since a step at the end of a walk is a step to a child.

Each name on the way is that of a folder, of which there is one with the name, so it does not matter
that the walk down takes the first.

* `Store.IsTree.fullPath_eq_ok_iff` : a node that is no draft has a path, which holds its names.
* `Store.mem_descend_iff` : a walk down leads to the nodes with the names that it follows.
* `Service.Reachable.paths_determine` : paths and nodes determine each other.
-/

namespace SnapshotArchive

open Archive Sample

namespace Store

/-! ### The names of a node -/

/-- A list holds the names from the root, whose name is left out, down to a node. -/
inductive IsAt (s : Store) : Node → List String → Prop
  | root {n : Node} : n ∈ s.nodes → n.parent = none → IsAt s n []
  | child {n p : Node} {names : List String} : n ∈ s.nodes → n.parent = some p.id →
    IsAt s p names → IsAt s n (names ++ [n.name])

/-- What is at a place is stored. -/
theorem IsAt.mem {s : Store} {n : Node} {names : List String} (h : s.IsAt n names) :
    n ∈ s.nodes := by
  cases h <;> assumption

/-- At the empty path are the stored nodes without a parent. -/
theorem isAt_nil_iff {s : Store} {n : Node} : s.IsAt n [] ↔ n ∈ s.nodes ∧ n.parent = none := by
  constructor
  · intro h
    generalize hnames : [] = names at h
    cases h with
    | root hn hp => exact ⟨hn, hp⟩
    | child => simp at hnames
  · rintro ⟨hn, hp⟩
    exact .root hn hp

/-- At a longer path is a node of the last name below what is at the rest. -/
theorem isAt_concat_iff {s : Store} {n : Node} {names : List String} {name : String} :
    s.IsAt n (names ++ [name]) ↔
      n ∈ s.nodes ∧ n.name = name ∧ ∃ p, n.parent = some p.id ∧ s.IsAt p names := by
  constructor
  · intro h
    generalize hall : names ++ [name] = all at h
    cases h with
    | root => simp at hall
    | child hn hp hat =>
      obtain ⟨rfl, rfl⟩ := List.append_singleton_inj.1 hall
      exact ⟨hn, rfl, _, hp, hat⟩
  · rintro ⟨hn, rfl, p, hp, hat⟩
    exact .child hn hp hat

namespace IsTree

variable {s : Store} (h : s.IsTree)

include h

/-- Every stored node is somewhere. -/
theorem exists_isAt {n : Node} (hn : n ∈ s.nodes) : ∃ names, s.IsAt n names := by
  have hup := h.rooted n hn
  generalize hid : n.id = id at hup
  induction hup using Relation.ReflTransGen.head_induction_on generalizing n with
  | refl =>
    obtain ⟨r, hr, hrid, hp, -⟩ := h.root
    obtain rfl := eq_of_id_eq h.nodup hn hr (hid.trans hrid.symm)
    exact ⟨[], .root hn hp⟩
  | head hlink _ ih =>
    obtain ⟨m, hm, hmid, hp⟩ := hlink
    obtain rfl := eq_of_id_eq h.nodup hn hm (hid.trans hmid.symm)
    obtain ⟨q, hq, rfl, -⟩ := h.contained n hn _ hp
    obtain ⟨names, hnames⟩ := ih hq rfl
    exact ⟨_, .child hn hp hnames⟩

/-! ### The walk up -/

omit h in
/-- A lineage has at least its node on it. -/
theorem length_lineage_pos {id : Id} {ids : List Id} (hids : s.Lineage id ids) :
    0 < ids.length := by
  cases hids <;> simp

/-- With enough steps the walk up reads the names of a node off their end. -/
theorem namesAbove_eq {start : Id} {n : Node} {names : List String} (hat : s.IsAt n names) :
    ∀ {steps : Nat} {visited ids : List Id}, s.Lineage n.id ids → ids.length ≤ steps →
      (∀ x ∈ visited, x ∉ ids) → s.namesAbove start steps visited n = .ok names := by
  induction hat with
  | @root n hn hp =>
    intro steps visited ids hids hsteps hvisited
    have hpos := length_lineage_pos hids
    cases steps with
    | zero => omega
    | succ steps => rw [namesAbove, hp]
  | @child n p names hn hp hat ih =>
    intro steps visited ids hids hsteps hvisited
    obtain ⟨above, habove⟩ := h.exists_lineage hat.mem
    obtain rfl := hids.unique h.nodup (.child hn hp habove)
    cases steps with
    | zero => simp at hsteps
    | succ steps =>
      have hnew : n.id ∉ visited := fun hx => hvisited _ hx List.mem_cons_self
      have hrest : s.namesAbove start steps (n.id :: visited) p = .ok names := by
        refine ih habove (by simpa using hsteps) fun x hx => ?_
        rcases List.mem_cons.1 hx with rfl | hx
        · exact (List.nodup_cons.1 (hids.nodup h.nodup)).1
        · exact fun hm => hvisited x hx (List.mem_cons_of_mem _ hm)
      simp only [namesAbove, hp, node?_of_mem h.nodup hat.mem, hrest, hnew, not_false_eq_true,
        demand, if_true, bind, Except.bind, pure, Except.pure]

/-- The path told of a node that is no draft is the path it is at. -/
theorem fullPath_eq {n : Node} {names : List String} (hat : s.IsAt n names)
    (hd : n.content.isDraft = false) : s.fullPath n.id = .ok (joinPath names) := by
  obtain ⟨ids, hids⟩ := h.exists_lineage hat.mem
  have hnames : s.namesAbove n.id (s.nodes.length + 1) [] n = .ok names :=
    h.namesAbove_eq hat hids (Nat.le_succ_of_le (hids.length_le h.nodup)) (by simp)
  simp [fullPath, require_eq_ok_iff.2 (node?_of_mem h.nodup hat.mem), hd, hnames, demand, bind,
    Except.bind, pure, Except.pure]

/-- A node that is no draft has a path, which holds its names. -/
theorem fullPath_eq_ok_iff {id : Id} {path : String} :
    s.fullPath id = .ok path ↔ ∃ n names, n.id = id ∧ n.content.isDraft = false ∧
      s.IsAt n names ∧ path = joinPath names := by
  constructor
  · intro hpath
    obtain ⟨n, hn, hrest⟩ := bind_eq_ok_iff.1 hpath
    obtain ⟨hmem, hid⟩ := node?_eq_some (require_eq_ok_iff.1 hn)
    obtain ⟨hd, -⟩ := demand_bind_eq_ok_iff.1 hrest
    obtain ⟨names, hat⟩ := h.exists_isAt hmem
    rw [← hid, h.fullPath_eq hat hd] at hpath
    exact ⟨n, names, hid, hd, hat, (Except.ok.inj hpath).symm⟩
  · rintro ⟨n, names, rfl, hd, hat, rfl⟩
    exact h.fullPath_eq hat hd

/-- Only an unknown node and a draft have no path; the links never fail on the way up. -/
theorem fullPath_eq_error {id : Id} {f : Failure} (hpath : s.fullPath id = .error f) :
    f = .refused (.noNode id) ∨ f = .refused (.draftWithoutPath id) := by
  cases hn : s.node? id with
  | none => simp_all [fullPath, require, bind, Except.bind]
  | some n =>
    obtain ⟨hmem, rfl⟩ := node?_eq_some hn
    cases hd : n.content.isDraft with
    | true => simp_all [fullPath, require, demand, bind, Except.bind]
    | false =>
      obtain ⟨names, hat⟩ := h.exists_isAt hmem
      rw [h.fullPath_eq hat hd] at hpath
      cases hpath

end IsTree

/-! ### Names determine nodes -/

section

variable {s : Store} (htree : s.IsTree) (hnamed : s.IsNamed)

include htree hnamed

/-- What holds another node is no draft. -/
theorem parent_draft_eq_false {n p : Node} (hn : n ∈ s.nodes) (hp : p ∈ s.nodes)
    (hparent : n.parent = some p.id) : p.draft = false := by
  refine hnamed.draft_eq_false_of_kind hp fun hk => ?_
  simpa [hk, Kind.mayHold] using htree.parent_mayHold hn hp hparent

/-- The names on the way to a node that is no draft are all proper. -/
theorem IsAt.isName {n : Node} {names : List String} (hat : s.IsAt n names)
    (hd : n.draft = false) : ∀ name ∈ names, IsName name := by
  induction hat with
  | root => simp
  | @child n p names hn hp hat ih =>
    intro name hname
    rcases List.mem_append.1 hname with hname | hname
    · exact ih (parent_draft_eq_false htree hnamed hn hat.mem hp) name hname
    · exact List.mem_singleton.1 hname ▸ hnamed.names n hn hd

/-- Two nodes of one kind that are no drafts have different names on the way to them. -/
theorem IsAt.injective {n m : Node} {names : List String} (hn : s.IsAt n names)
    (hm : s.IsAt m names) (hnd : n.draft = false) (hmd : m.draft = false)
    (hk : n.kind = m.kind) : n = m := by
  induction hn generalizing m with
  | root hn hp =>
    obtain ⟨hm, hq⟩ := isAt_nil_iff.1 hm
    exact eq_of_id_eq htree.nodup hn hm
      ((htree.onlyRoot _ hn hp).trans (htree.onlyRoot _ hm hq).symm)
  | @child n p names hn hp hat ih =>
    obtain ⟨hm, hname, q, hq, hatq⟩ := isAt_concat_iff.1 hm
    have hpn := Kind.mayHold_iff.1 (htree.parent_mayHold hn hat.mem hp)
    have hqm := Kind.mayHold_iff.1 (htree.parent_mayHold hm hatq.mem hq)
    -- The kind of a node says of which kind its parent is.
    have hparents : p.kind = q.kind := by
      rw [hk] at hpn
      rcases hpn with ⟨hp, hc⟩ | ⟨hp, hc⟩ <;> rcases hqm with ⟨hq, hc'⟩ | ⟨hq, hc'⟩ <;>
        simp_all
    obtain rfl := ih hatq (parent_draft_eq_false htree hnamed hn hat.mem hp)
      (parent_draft_eq_false htree hnamed hm hatq.mem hq) hparents
    exact hnamed.siblings n hn m hm hnd hmd (hp.trans hq.symm) hk hname.symm

/-! ### The walk down -/

omit htree hnamed in
/-- What a step of a lookup finds: the children of that kind and name. -/
theorem mem_childrenNamed_iff {parent : Id} {kind : Kind} {name : String} {n : Node} :
    n ∈ s.childrenNamed parent kind name ↔
      n ∈ s.nodes ∧ n.parent = some parent ∧ n.kind = kind ∧ n.name = name := by
  simp [childrenNamed, and_assoc]

/-- A node has at most one child of a kind and a name, if the kind has no drafts. -/
theorem childrenNamed_cases (parent : Id) {kind : Kind} (hkind : kind ≠ .snapshot)
    (name : String) :
    s.childrenNamed parent kind name = [] ∨ ∃ n, s.childrenNamed parent kind name = [n] := by
  have hsame : ∀ n ∈ s.childrenNamed parent kind name, ∀ m ∈ s.childrenNamed parent kind name,
      n = m := by
    intro n hn m hm
    obtain ⟨hn, hnp, hnk, hnn⟩ := mem_childrenNamed_iff.1 hn
    obtain ⟨hm, hmp, hmk, hmn⟩ := mem_childrenNamed_iff.1 hm
    exact hnamed.siblings n hn m hm (hnamed.draft_eq_false_of_kind hn (hnk ▸ hkind))
      (hnamed.draft_eq_false_of_kind hm (hmk ▸ hkind)) (hnp.trans hmp.symm)
      (hnk.trans hmk.symm) (hnn.trans hmn.symm)
  have hnodup : (s.childrenNamed parent kind name).Nodup := by
    refine List.Nodup.filter _ ((List.mergeSort_perm _ _).nodup_iff.2 (List.Nodup.filter _ ?_))
    exact htree.nodup.of_map
  match hchildren : s.childrenNamed parent kind name with
  | [] => exact .inl rfl
  | [n] => exact .inr ⟨n, rfl⟩
  | n :: m :: rest =>
    rw [hchildren] at hsame hnodup
    refine absurd (hsame n (by simp) m (by simp)) ?_
    rintro rfl
    simp at hnodup

/-- With more names to follow, the walk goes on from the folder of the first. -/
theorem mem_descend_cons {m n : Node} {name : String} {rest : List String} (hrest : rest ≠ []) :
    n ∈ s.descend m (name :: rest) ↔
      ∃ c ∈ s.childrenNamed m.id .folder name, n ∈ s.descend c rest := by
  obtain ⟨next, rest, rfl⟩ := List.exists_cons_of_ne_nil hrest
  rw [descend_cons]
  rcases childrenNamed_cases htree hnamed m.id (by decide : Kind.folder ≠ .snapshot) name with
    hnone | ⟨c, hone⟩
  · simp [hnone]
  · simp [hone]

/-- A walk to a folder begins with a step to a folder. -/
theorem mem_descend_cons_of_folder {m n : Node} {name : String} {rest : List String}
    (hk : n.kind = .folder) :
    n ∈ s.descend m (name :: rest) ↔
      ∃ c ∈ s.childrenNamed m.id .folder name, n ∈ s.descend c rest := by
  by_cases hrest : rest = []
  · subst hrest
    simp [descend, mem_childrenNamed_iff, hk]
  · exact mem_descend_cons htree hnamed hrest

/-- A walk with one more name at its end goes one step on from the folder it led to. -/
theorem mem_descend_concat {m n : Node} {names : List String} {name : String}
    (hm : m.kind = .folder) :
    n ∈ s.descend m (names ++ [name]) ↔
      ∃ p ∈ s.descend m names, p.kind = .folder ∧ n ∈ s.nodes ∧ n.parent = some p.id ∧
        n.kind ≠ .snapshot ∧ n.name = name := by
  induction names generalizing m with
  | nil =>
    have hkinds : n.kind ≠ .snapshot ↔ n.kind = .folder ∨ n.kind = .configuration := by
      cases n.kind <;> decide
    simp only [List.nil_append, descend, List.mem_append, mem_childrenNamed_iff,
      List.mem_singleton, exists_eq_left, hm, true_and, hkinds]
    tauto
  | cons first names ih =>
    have hstep : ∀ c ∈ s.childrenNamed m.id .folder first, c.kind = .folder :=
      fun c hc => (mem_childrenNamed_iff.1 hc).2.2.1
    rw [List.cons_append, mem_descend_cons htree hnamed (by simp)]
    constructor
    · rintro ⟨c, hc, hn⟩
      obtain ⟨p, hp, hkind, hrest⟩ := (ih (hstep c hc)).1 hn
      exact ⟨p, (mem_descend_cons_of_folder htree hnamed hkind).2 ⟨c, hc, hp⟩, hkind, hrest⟩
    · rintro ⟨p, hp, hkind, hrest⟩
      obtain ⟨c, hc, hpc⟩ := (mem_descend_cons_of_folder htree hnamed hkind).1 hp
      exact ⟨c, hc, (ih (hstep c hc)).2 ⟨p, hpc, hkind, hrest⟩⟩

/-- The walk down from the root leads to the nodes with the names that it follows. -/
theorem mem_descend_iff {r n : Node} (hr : r ∈ s.nodes) (hroot : r.parent = none)
    (hfolder : r.kind = .folder) {names : List String} :
    n ∈ s.descend r names ↔ s.IsAt n names ∧ n.kind ≠ .snapshot := by
  induction names using List.reverseRecOn generalizing n with
  | nil =>
    rw [descend, List.mem_singleton, isAt_nil_iff]
    constructor
    · rintro rfl
      exact ⟨⟨hr, hroot⟩, by simp [hfolder]⟩
    · rintro ⟨⟨hn, hp⟩, -⟩
      exact eq_of_id_eq htree.nodup hn hr
        ((htree.onlyRoot n hn hp).trans (htree.onlyRoot r hr hroot).symm)
  | append_singleton names name ih =>
    rw [mem_descend_concat htree hnamed hfolder, isAt_concat_iff]
    constructor
    · rintro ⟨p, hp, -, hn, hparent, hk, hname⟩
      exact ⟨⟨hn, hname, p, hparent, (ih.1 hp).1⟩, hk⟩
    · rintro ⟨⟨hn, hname, p, hparent, hat⟩, hk⟩
      -- What holds a folder or a configuration is a folder.
      have hp : p.kind = .folder := by
        rcases Kind.mayHold_iff.1 (htree.parent_mayHold hn hat.mem hparent) with ⟨hp, -⟩ | ⟨-, hc⟩
        · exact hp
        · exact absurd hc hk
      exact ⟨p, ih.2 ⟨hat, by simp [hp]⟩, hp, hn, hparent, hk, hname⟩

/-- A walk from a folder leads to a folder, to a configuration, to both in this order, or
nowhere. -/
theorem kinds_descend {m : Node} (hm : m.kind = .folder) (names : List String) :
    ((s.descend m names).map (·.kind)).Sublist [.folder, .configuration] := by
  have hlast : ∀ (parent : Id) {kind : Kind} (name : String), kind ≠ .snapshot →
      ((s.childrenNamed parent kind name).map (·.kind)).Sublist [kind] := by
    intro parent kind name hkind
    rcases childrenNamed_cases htree hnamed parent hkind name with hnone | ⟨c, hone⟩
    · simp [hnone]
    · have hc : c ∈ s.childrenNamed parent kind name := by simp [hone]
      simp [hone, (mem_childrenNamed_iff.1 hc).2.2.1]
  induction names generalizing m with
  | nil => simp [descend, hm]
  | cons name rest ih =>
    cases rest with
    | nil =>
      rw [descend, List.map_append]
      exact (hlast m.id name (by decide)).append (hlast m.id name (by decide))
    | cons next rest =>
      rw [descend_cons]
      split
      · rename_i c cs hchildren
        have hc : c ∈ s.childrenNamed m.id .folder name := by simp [hchildren]
        exact ih (mem_childrenNamed_iff.1 hc).2.2.1
      · simp

/-! ### Paths of nodes -/

/-- Every node that is no draft has a path, and it is told. -/
theorem exists_fullPath {n : Node} (hn : n ∈ s.nodes) (hd : n.draft = false) :
    ∃ names, s.IsAt n names ∧ (∀ name ∈ names, name ≠ "" ∧ '/' ∉ name.toList) ∧
      s.fullPath n.id = .ok (joinPath names) := by
  obtain ⟨names, hat⟩ := htree.exists_isAt hn
  have hnames := hat.isName htree hnamed hd
  exact ⟨names, hat, fun x hx => ⟨(hnames x hx).1, (hnames x hx).2.2⟩,
    htree.fullPath_eq hat (hnamed.drafts n hn ▸ hd)⟩

/-- Two nodes of one kind that are no drafts have different paths. -/
theorem eq_of_fullPath_eq {n m : Node} (hn : n ∈ s.nodes) (hm : m ∈ s.nodes)
    (hnd : n.draft = false) (hmd : m.draft = false) (hk : n.kind = m.kind)
    (hsame : s.fullPath n.id = s.fullPath m.id) : n = m := by
  obtain ⟨names, hat, hwritable, hpath⟩ := exists_fullPath htree hnamed hn hnd
  obtain ⟨other, hother, hwritable', hpath'⟩ := exists_fullPath htree hnamed hm hmd
  rw [hpath, hpath', Except.ok.injEq] at hsame
  have he : names = other := by
    rw [← segments_joinPath hwritable, hsame, segments_joinPath hwritable']
  exact hat.injective htree hnamed (he ▸ hother) hnd hmd hk

/-- The nodes at a path are the folders and configurations that have the path. -/
theorem resolve_eq {path : String} (hpath : path.toList.head? = some '/') :
    ∃ found, s.resolve (some path) = .ok found ∧
      (∀ n, n ∈ found ↔ n ∈ s.nodes ∧ n.kind ≠ .snapshot ∧
        s.fullPath n.id = .ok (joinPath (segments path.toList))) ∧
      (found.map (·.kind)).Sublist [.folder, .configuration] ∧
      (segments path.toList = [] → found.map (·.id) = [rootId]) := by
  obtain ⟨r, hr, hid, hnone, hfolder⟩ := htree.root
  have hfound : s.resolve (some path) = .ok (s.descend r (segments path.toList)) := by
    simp only [resolve, splitPath_of_slash hpath, ← hid, node?_of_mem htree.nodup hr]
    rfl
  refine ⟨_, hfound, fun n => ?_, kinds_descend htree hnamed hfolder _, fun hnil => ?_⟩
  · rw [mem_descend_iff htree hnamed hr hnone hfolder]
    constructor
    · rintro ⟨hat, hk⟩
      have hd := hnamed.draft_eq_false_of_kind hat.mem hk
      exact ⟨hat.mem, hk, htree.fullPath_eq hat (hnamed.drafts n hat.mem ▸ hd)⟩
    · rintro ⟨hn, hk, hfull⟩
      obtain ⟨names, hat, hwritable, hpath⟩ :=
        exists_fullPath htree hnamed hn (hnamed.draft_eq_false_of_kind hn hk)
      rw [hpath, Except.ok.injEq] at hfull
      have he : names = segments path.toList := by
        rw [← segments_joinPath hwritable, hfull,
          segments_joinPath fun name hname => writable_of_mem_segments hname]
      exact ⟨he ▸ hat, hk⟩
  · simp [hnil, descend, hid]

/-- A folder or a configuration is found at its path. -/
theorem mem_resolve_fullPath {n : Node} (hn : n ∈ s.nodes) (hk : n.kind ≠ .snapshot) :
    ∃ path found, s.fullPath n.id = .ok path ∧ s.resolve (some path) = .ok found ∧ n ∈ found := by
  obtain ⟨names, -, hwritable, hpath⟩ :=
    exists_fullPath htree hnamed hn (hnamed.draft_eq_false_of_kind hn hk)
  obtain ⟨found, hfound, hmem, -⟩ := resolve_eq htree hnamed (head?_joinPath names)
  refine ⟨_, found, hpath, hfound, (hmem n).2 ⟨hn, hk, ?_⟩⟩
  rw [segments_joinPath hwritable, hpath]

end

end Store

/-! ### Paths that clients ask for -/

namespace Sample

/-- A configuration and a folder of one name. -/
def namesakes : Archive :=
  perform "f" (.createNode rootId (form "c" .folder) (some "u")) <|
    perform "c" (.createConfiguration rootId configuration (some "u")) folder

/-- The store of namesakes can be reached. -/
theorem reachable_namesakes : ∃ ts, Service.Reachable ⟨namesakes, ts⟩ := by
  obtain ⟨ts, h⟩ := reachable_folder
  obtain ⟨ts, h⟩ := reachable_perform h "c" (.createConfiguration rootId configuration (some "u"))
  exact reachable_perform h "f" (.createNode rootId (form "c" .folder) (some "u"))

end Sample

/-- Where there are tables, a reading is answered from them. -/
theorem Archive.read_of_store {α : Type} {a : Archive} {s : Store} (hs : a.store = some s)
    (r : Store → Except Failure α) : a.read r = r s := by
  cases h : r s <;> simp [Archive.read, look, hs, h, demand, bind, Except.bind, pure, Except.pure]

namespace Query

variable {a : Archive} {s : Store}

/-- Asked of an archive with a store, a path is resolved in the store. -/
theorem ask_resolve (hs : a.store = some s) (path : Option String) :
    (resolve path).ask a = (s.resolve path).map .nodes :=
  read_of_store hs _

/-- And a full path is told from it. -/
theorem ask_fullPath (hs : a.store = some s) (id : Id) :
    (fullPath id).ask a = (s.fullPath id).map .text :=
  read_of_store hs _

end Query

namespace Service

open Query

/-- Asked for a path, an archive answers with exactly the folders and configurations whose own path
it is when written without needless slashes: at most one of each kind, the folder first, and the
root for slashes alone. Every folder and configuration is found at its path. Every node that is no
draft has a path, and no other of its kind has the same. -/
theorem Reachable.paths_determine {sv : Service} (h : sv.Reachable) :
    ∃ s, sv.archive.store = some s ∧
      (∀ path : String, path.toList.head? = some '/' →
        ∃ found, (resolve path).ask sv.archive = .ok (.nodes found) ∧
          (∀ n, n ∈ found ↔ n ∈ s.nodes ∧ (n.kind = .folder ∨ n.kind = .configuration) ∧
            (fullPath n.id).ask sv.archive =
              .ok (.text ("/" ++ "/".intercalate (segments path.toList)))) ∧
          (found.map (·.kind)).Sublist [.folder, .configuration] ∧
          ((∀ c ∈ path.toList, c = '/') → found.map (·.id) = [rootId])) ∧
      (∀ n ∈ s.nodes, n.kind = .folder ∨ n.kind = .configuration →
        ∃ path found, (fullPath n.id).ask sv.archive = .ok (.text path) ∧
          (resolve path).ask sv.archive = .ok (.nodes found) ∧ n ∈ found) ∧
      (∀ n ∈ s.nodes, n.draft = false →
        ∃ path, (fullPath n.id).ask sv.archive = .ok (.text path)) ∧
      ∀ n ∈ s.nodes, ∀ m ∈ s.nodes, n.draft = false → m.draft = false → n.kind = m.kind →
        (fullPath n.id).ask sv.archive = (fullPath m.id).ask sv.archive → n = m := by
  obtain ⟨⟨s, hs, hsound⟩, -⟩ := h.isSound
  have htree := hsound.tree
  have hnamed := hsound.named
  have hkinds : ∀ n : Node, (n.kind = .folder ∨ n.kind = .configuration) ↔ n.kind ≠ .snapshot :=
    fun n => by cases n.kind <;> decide
  have hask : ∀ {id : Id} {path : String},
      (fullPath id).ask sv.archive = .ok (.text path) ↔ s.fullPath id = .ok path := by
    intro id path
    rw [ask_fullPath hs]
    cases s.fullPath id <;> simp [Except.map]
  refine ⟨s, hs, fun path hpath => ?_, fun n hn hk => ?_, fun n hn hd => ?_,
    fun n hn m hm hnd hmd hk hsame => ?_⟩
  · obtain ⟨found, hfound, hmem, hsub, hroot⟩ := Store.resolve_eq htree hnamed hpath
    refine ⟨found, by rw [ask_resolve hs, hfound]; rfl, fun n => ?_, hsub,
      fun hslash => hroot (segments_of_slashes hslash)⟩
    rw [hmem, hkinds, hask, ← joinPath_eq]
  · obtain ⟨path, found, hpath, hfound, hmem⟩ :=
      Store.mem_resolve_fullPath htree hnamed hn ((hkinds n).1 hk)
    exact ⟨path, found, hask.2 hpath, by rw [ask_resolve hs, hfound]; rfl, hmem⟩
  · obtain ⟨names, -, -, hpath⟩ := Store.exists_fullPath htree hnamed hn hd
    exact ⟨_, hask.2 hpath⟩
  · obtain ⟨names, -, -, hpath⟩ := Store.exists_fullPath htree hnamed hn hnd
    refine Store.eq_of_fullPath_eq htree hnamed hn hm hnd hmd hk (hpath.trans ?_)
    exact (hask.1 (hsame ▸ hask.2 hpath)).symm

/-- A folder and a configuration share a path, and both are found at it. -/
theorem paths_determine_namesakes :
    ∃ found, (resolve (some "//c/")).ask namesakes = .ok (.nodes found) ∧
      found.map (·.kind) = [.folder, .configuration] ∧
      ∀ n ∈ found, (fullPath n.id).ask namesakes = .ok (.text "/c") := by
  obtain ⟨ts, h⟩ := reachable_namesakes
  obtain ⟨s, hs, hpaths, -⟩ := h.paths_determine
  obtain ⟨found, hfound, hmem, hsub, -⟩ := hpaths "//c/" (by decide)
  have hpath : "/" ++ "/".intercalate (segments "//c/".toList) = "/c" := by decide
  rw [hpath] at hmem
  have hnodes : namesakes.store.map (fun s => (s.nodes.drop 2).map fun n =>
      (n.kind, (s.fullPath n.id).toOption)) =
      some [(.configuration, some "/c"), (.folder, some "/c")] := by decide +kernel
  simp only [show namesakes.store = some s from hs, Option.map_some, Option.some.injEq] at hnodes
  have hkinds : ∀ kind ∈ [Kind.folder, .configuration], kind ∈ found.map (·.kind) := by
    intro kind hkind
    have hlisted : (kind, some "/c") ∈ (s.nodes.drop 2).map fun n =>
        (n.kind, (s.fullPath n.id).toOption) := by
      rw [hnodes]
      simpa [or_comm] using hkind
    obtain ⟨n, hn, he⟩ := List.mem_map.1 hlisted
    obtain ⟨rfl, hfull⟩ := Prod.mk.inj he
    refine List.mem_map_of_mem ((hmem n).2 ⟨List.mem_of_mem_drop hn, by simpa using hkind, ?_⟩)
    rw [show (fullPath n.id).ask namesakes = _ from ask_fullPath hs n.id]
    cases hp : s.fullPath n.id <;> simp_all [Except.toOption, Except.map]
  have hlength := (by decide : [Kind.folder, .configuration].Nodup).length_le_of_subset hkinds
  exact ⟨found, hfound, hsub.eq_of_length_le hlength, fun n hn => ((hmem n).1 hn).2.2⟩

end Service

end SnapshotArchive
