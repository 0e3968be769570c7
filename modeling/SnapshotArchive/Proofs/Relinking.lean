import SnapshotArchive.Proofs.Paths
import SnapshotArchive.Proofs.Committed

/-!
# Paths after moves and renames

A path is not stored but read off the parent links, so a change of one link or of one name changes
the paths of all nodes below. It does so in one way: the names down to the changed node give way to
others, and the names below it stay. Both a move and a rename change chosen nodes of which none lies
below another (`Store.Relinks`), so each way up meets one of them at most, and the induction along
the way carries what is above that node and what is below it apart.

* `joinPath_append` : a path is the path of a node above, and a part beneath it.
* `Store.Relinks.isAt_outside`, `Store.Relinks.isAt_below` : which names a node has afterwards.
* `Operation.Effect.relinks_move`, `Operation.Succeeds.renames` : what moves and renames change.
* `Service.Reachable.paths_rewritten` : how the paths that an archive answers with change.
-/

namespace SnapshotArchive

open Text Store

/-! ### Paths beneath paths -/

/-- The path of what lies beneath a node: after the path of the node comes a slash, if that does not
end with one. -/
def beneath (above part : String) : String :=
  if above = "/" then above ++ part else above ++ "/" ++ part

/-- A path is the path of a node above, and a part beneath it. -/
theorem joinPath_append {above rest : List String} (h : ∀ name ∈ above, name ≠ "")
    (hrest : rest ≠ []) :
    joinPath (above ++ rest) = beneath (joinPath above) ("/".intercalate rest) := by
  unfold beneath
  cases above with
  | nil =>
    have hroot : joinPath [] = "/" := rfl
    rw [hroot, if_pos rfl, List.nil_append, joinPath_eq rest]
  | cons name above =>
    have hne : joinPath (name :: above) ≠ "/" := by
      intro he
      have hlist := congrArg String.toList he
      simp [joinPath, joined] at hlist
      exact h name List.mem_cons_self hlist.1
    rw [if_neg hne]
    obtain ⟨next, rest, rfl⟩ := List.exists_cons_of_ne_nil hrest
    have hpart := congrArg String.toList (joinPath_eq (next :: rest))
    apply String.toList_inj.1
    simp [joinPath, joined] at hpart ⊢
    simp [hpart]

/-- What stands above a part can be read off. -/
theorem beneath_injective {above other part : String} (h : above ≠ "") (h' : other ≠ "")
    (he : beneath above part = beneath other part) : above = other := by
  have hne : ∀ text : String, text ≠ "" → "/" ++ part ≠ text ++ "/" ++ part := by
    intro text htext hsame
    have hlist := List.append_cancel_right (by simpa using congrArg String.toList hsame :
      ['/'] ++ part.toList = (text.toList ++ ['/']) ++ part.toList)
    simp at hlist
    exact htext hlist
  unfold beneath at he
  split at he
  · split at he
    · rename_i hroot hroot'
      rw [hroot, hroot']
    · rename_i hroot _
      rw [hroot] at he
      exact absurd he (hne other h')
  · split at he
    · rename_i _ hroot
      rw [hroot] at he
      exact absurd he.symm (hne above h)
    · have hlist : (above.toList ++ ['/']) ++ part.toList =
          (other.toList ++ ['/']) ++ part.toList := by
        simpa using congrArg String.toList he
      exact String.toList_inj.1 (List.append_cancel_right (List.append_cancel_right hlist))

namespace Store

/-! ### Chosen nodes change -/

/-- A store in which chosen nodes, none of them below another, have other parents and other names
than in one before, and all other nodes have theirs. -/
structure Relinks (s t : Store) (f : Node → Node) (chosen : Id → Prop) : Prop where
  nodes : t.nodes = s.nodes.map f
  id : ∀ n ∈ s.nodes, (f n).id = n.id
  draft : ∀ n ∈ s.nodes, (f n).draft = n.draft
  others : ∀ n ∈ s.nodes, ¬chosen n.id → (f n).parent = n.parent ∧ (f n).name = n.name
  apart : ∀ x y, chosen x → chosen y → s.LeadsTo x y → x = y

namespace Relinks

variable {s t : Store} {f : Node → Node} {chosen : Id → Prop} (h : s.Relinks t f chosen)

include h

/-- The relinked row of a stored node is stored after. -/
theorem mem {n : Node} (hn : n ∈ s.nodes) : f n ∈ t.nodes := by
  rw [h.nodes]
  exact List.mem_map_of_mem hn

/-- The rows after are the relinked rows of those before. -/
theorem mem_iff {n : Node} : n ∈ t.nodes ↔ ∃ m ∈ s.nodes, f m = n := by
  rw [h.nodes, List.mem_map]

/-- A node above which nothing was changed keeps its names. -/
theorem isAt_outside {n : Node} {names : List String} (hat : s.IsAt n names)
    (houtside : ∀ y, chosen y → ¬s.LeadsTo n.id y) : t.IsAt (f n) names := by
  induction hat with
  | @root n hn hp =>
    have hsame := h.others n hn fun hc => houtside n.id hc .refl
    exact .root (h.mem hn) (hsame.1.trans hp)
  | @child n p names hn hp hat ih =>
    obtain ⟨hparent, hname⟩ := h.others n hn fun hc => houtside n.id hc .refl
    have habove : t.IsAt (f p) names := by
      apply ih
      intro y hy hup
      exact houtside y hy (.head ⟨n, hn, rfl, hp⟩ hup)
    rw [← hname]
    refine .child (h.mem hn) ?_ habove
    rw [hparent, hp, h.id p hat.mem]

/-- A node at or below a changed one keeps the names from there on, whatever comes before them. -/
theorem isAt_below (hs : s.IsTree) {m : Node} (hchosen : chosen m.id) {above other : List String}
    (hat : s.IsAt m (above ++ [m.name])) (hat' : t.IsAt (f m) (other ++ [(f m).name])) {x : Node}
    (hx : x ∈ s.nodes) (hup : s.LeadsTo x.id m.id) :
    ∃ below, s.IsAt x (above ++ m.name :: below) ∧ t.IsAt (f x) (other ++ (f m).name :: below) := by
  generalize hid : x.id = id at hup
  induction hup using Relation.ReflTransGen.head_induction_on generalizing x with
  | refl =>
    obtain rfl := eq_of_id_eq hs.nodup hx hat.mem hid
    exact ⟨[], hat, hat'⟩
  | head hlink hrest ih =>
    obtain ⟨n, hn, hnid, hp⟩ := hlink
    obtain rfl := eq_of_id_eq hs.nodup hx hn (hid.trans hnid.symm)
    obtain ⟨p, hpm, rfl, -⟩ := hs.contained x hx _ hp
    have hplain : ¬chosen x.id := by
      intro hc
      have hsame := h.apart x.id m.id hc hchosen (.head ⟨x, hx, rfl, hp⟩ hrest)
      exact hs.not_leadsTo_of_parent hx hp (hsame ▸ hrest)
    obtain ⟨hparent, hname⟩ := h.others x hx hplain
    obtain ⟨below, hbelow, hbelow'⟩ := ih hpm rfl
    refine ⟨below ++ [x.name], ?_, ?_⟩
    · have hchild := IsAt.child hx hp hbelow
      simpa using hchild
    · have hchild : t.IsAt (f x) ((other ++ (f m).name :: below) ++ [(f x).name]) := by
        refine .child (h.mem hx) ?_ hbelow'
        rw [hparent, hp, h.id p hpm]
      rw [hname] at hchild
      simpa using hchild

/-- Above a changed node nothing was changed. -/
theorem parent_outside (hs : s.IsTree) {m : Node} {p : Id} (hm : m ∈ s.nodes)
    (hchosen : chosen m.id) (hp : m.parent = some p) : ∀ y, chosen y → ¬s.LeadsTo p y := by
  intro y hy hup
  have hsame := h.apart m.id y hchosen hy (.head ⟨m, hm, rfl, hp⟩ hup)
  exact hs.not_leadsTo_of_parent hm hp (hsame ▸ hup)

end Relinks

end Store

/-! ### Paths that are answered -/

/-- An archive that is asked for the path of a node answers with it. -/
def Archive.HasPath (a : Archive) (id : Id) (path : String) : Prop :=
  (Query.fullPath id).ask a = .ok (.text path)

namespace Archive

variable {a b : Archive} {s t : Store}

/-- An archive with a store gives a node the path the store tells. -/
theorem hasPath_iff (hs : a.store = some s) {id : Id} {path : String} :
    a.HasPath id path ↔ s.fullPath id = .ok path := by
  rw [HasPath, Query.ask_fullPath hs]
  cases s.fullPath id <;> simp [Except.map]

/-- A node has one path. -/
theorem HasPath.unique {id : Id} {path other : String} (h : a.HasPath id path)
    (h' : a.HasPath id other) : path = other :=
  Answer.text.inj (Except.ok.inj (h.symm.trans h'))

/-- A node that is no draft has the path of the place it is at. -/
theorem hasPath_of_isAt (hs : a.store = some s) (hsound : s.IsSound) {n : Node}
    {names : List String} (hat : s.IsAt n names) (hd : n.draft = false) :
    a.HasPath n.id (joinPath names) := by
  rw [hasPath_iff hs]
  apply hsound.tree.fullPath_eq hat
  rw [← hsound.named.drafts n hat.mem]
  exact hd

end Archive

namespace Store.Relinks

variable {a b : Archive} {s t : Store} {f : Node → Node} {chosen : Id → Prop}
  (h : s.Relinks t f chosen) (ha : a.store = some s) (hb : b.store = some t) (hs : s.IsSound)
  (ht : t.IsSound)

include h ha hb hs ht

/-- A node above which nothing was changed keeps its path. -/
theorem path_outside {x : Node} (hx : x ∈ s.nodes) (hd : x.draft = false)
    (houtside : ∀ y, chosen y → ¬s.LeadsTo x.id y) :
    ∃ path, a.HasPath x.id path ∧ b.HasPath x.id path := by
  obtain ⟨names, hat⟩ := hs.tree.exists_isAt hx
  have hat' := h.isAt_outside hat houtside
  refine ⟨joinPath names, Archive.hasPath_of_isAt ha hs hat hd, ?_⟩
  rw [← h.id x hx]
  exact Archive.hasPath_of_isAt hb ht hat' ((h.draft x hx).trans hd)

/-- At and below a changed node all paths have the path of its parent replaced by that of its new
parent, and its name by its new name. -/
theorem path_below {m p q : Node} (hm : m ∈ s.nodes) (hchosen : chosen m.id) (hp : p ∈ s.nodes)
    (hparent : m.parent = some p.id) (hq : q ∈ s.nodes) (hparent' : (f m).parent = some q.id)
    (houtside : ∀ y, chosen y → ¬s.LeadsTo q.id y) :
    ∃ above other, a.HasPath p.id above ∧ a.HasPath q.id other ∧ b.HasPath q.id other ∧
      ∀ x ∈ s.nodes, x.draft = false → s.LeadsTo x.id m.id → ∃ below,
        a.HasPath x.id (beneath above ("/".intercalate (m.name :: below))) ∧
          b.HasPath x.id (beneath other ("/".intercalate ((f m).name :: below))) := by
  obtain ⟨names, hat⟩ := hs.tree.exists_isAt hp
  obtain ⟨names', hat'⟩ := hs.tree.exists_isAt hq
  have hnew := h.isAt_outside hat' houtside
  have hlink : (f m).parent = some (f q).id := by rw [hparent', h.id q hq]
  have hpd := parent_draft_eq_false hs.tree hs.named hm hp hparent
  have hqd : (f q).draft = false :=
    parent_draft_eq_false ht.tree ht.named (h.mem hm) (h.mem hq) hlink
  have hqd' : q.draft = false := (h.draft q hq).symm.trans hqd
  have hnewPath := Archive.hasPath_of_isAt hb ht hnew hqd
  rw [h.id q hq] at hnewPath
  refine ⟨joinPath names, joinPath names', Archive.hasPath_of_isAt ha hs hat hpd,
    Archive.hasPath_of_isAt ha hs hat' hqd', hnewPath, ?_⟩
  intro x hx hd hup
  obtain ⟨below, hbelow, hbelow'⟩ := h.isAt_below hs.tree hchosen (.child hm hparent hat)
    (.child (h.mem hm) hlink hnew) hx hup
  have hd' : (f x).draft = false := (h.draft x hx).trans hd
  have hnames : ∀ name ∈ names, name ≠ "" := fun name hname =>
    (hbelow.isName hs.tree hs.named hd name (List.mem_append_left _ hname)).1
  have hnames' : ∀ name ∈ names', name ≠ "" := fun name hname =>
    (hbelow'.isName ht.tree ht.named hd' name (List.mem_append_left _ hname)).1
  refine ⟨below, ?_, ?_⟩
  · rw [← joinPath_append hnames (List.cons_ne_nil _ _)]
    exact Archive.hasPath_of_isAt ha hs hbelow hd
  · rw [← joinPath_append hnames' (List.cons_ne_nil _ _), ← h.id x hx]
    exact Archive.hasPath_of_isAt hb ht hbelow' hd'

end Store.Relinks

/-! ### What moves and renames change -/

namespace Store

variable {s : Store}

/-- Of nodes with one parent none lies below another. -/
theorem IsSelection.apart {ids : List Id} {nodes : List Node} (hs : s.IsTree)
    (h : s.IsSelection ids nodes) :
    ∀ x y, x ∈ ids → y ∈ ids → s.LeadsTo x y → x = y := by
  intro x y hx hy hup
  obtain ⟨n, hn, rfl⟩ := h.exists_of_mem hx
  obtain ⟨m, hm, rfl⟩ := h.exists_of_mem hy
  rcases Relation.ReflTransGen.cases_head hup with he | ⟨p, ⟨k, hk, hkid, hp⟩, hrest⟩
  · exact he
  · obtain rfl := eq_of_id_eq hs.nodup hk (h.mem hn) hkid
    have hp' : m.parent = some p := (h.siblings m hm k hn).trans hp
    exact absurd hrest (hs.not_leadsTo_of_parent (h.mem hm) hp')

/-- A stamp changes no link and no name. -/
theorem exists_map_stamp (s : Store) (c : Context) (id : Id) (user : String) :
    ∃ g : Node → Node, (s.stamp c id user).nodes = s.nodes.map g ∧
      ∀ n, (g n).id = n.id ∧ (g n).parent = n.parent ∧ (g n).name = n.name ∧
        (g n).draft = n.draft := by
  refine ⟨_, rfl, ?_⟩
  intro n
  split
  · exact ⟨rfl, rfl, rfl, rfl⟩
  · exact ⟨rfl, rfl, rfl, rfl⟩

end Store

namespace Operation.Effect

variable {c : Context} {p : Policy} {s s' : Store}

/-- After a move the selected nodes have the target as their parent, and their names. -/
theorem relinks_move {ids : List Id} {target : Id} {user : Option String}
    (h : Effect c p s (.moveNodes ids target user) s') (hs : s.IsSound) :
    ∃ f nodes t, s.IsRelocation ids target true true nodes t ∧ s.Relinks s' f (· ∈ ids) ∧
      ∀ m ∈ nodes, (f m).parent = some target ∧ (f m).name = m.name := by
  cases h with
  | @moveNodes _ _ nodes t user hok helse =>
    obtain ⟨g, hg, hsame⟩ := exists_map_stamp (s.move c target user ids) c target user
    refine ⟨fun n => g (if n.id ∈ ids then n.movedTo c target user
      (s.nextPosition target + ids.idxOf n.id) else n), nodes, t, hok, ⟨?_, ?_, ?_, ?_,
      hok.selection.apart hs.tree⟩, ?_⟩
    · rw [hg, move, List.map_map]
      rfl
    · intro n hn
      rw [(hsame _).1]
      split <;> rfl
    · intro n hn
      rw [(hsame _).2.2.2]
      split <;> rfl
    · intro n hn hnot
      rw [if_neg hnot]
      exact ⟨(hsame n).2.1, (hsame n).2.2.1⟩
    · intro m hm
      simp only [if_pos (hok.selection.id_mem hm)]
      exact ⟨(hsame _).2.1, (hsame _).2.2.1⟩
  | @keepNodes _ _ nodes t user hok hthere =>
    obtain ⟨g, hg, hsame⟩ := exists_map_stamp s c target user
    refine ⟨g, nodes, t, hok, ⟨hg, fun n _ => (hsame n).1, fun n _ => (hsame n).2.2.2,
      fun n _ _ => ⟨(hsame n).2.1, (hsame n).2.2.1⟩, hok.selection.apart hs.tree⟩, ?_⟩
    intro m hm
    exact ⟨(hsame m).2.1.trans (hthere m hm), (hsame m).2.2.1⟩

end Operation.Effect

/-- The node that an operation gives a name, and the name. -/
inductive Operation.Renames : Operation → Id → String → Prop
  | node (form : NodeForm) (keepTime : Bool) :
    Renames (.updateNode form keepTime) form.id (strip (form.name.getD ""))
  | configuration (form : ConfigurationForm) (user : Option String) :
    Renames (.updateConfiguration form user) form.node.id (strip (form.node.name.getD ""))

/-- An update that succeeds gives the root no other name. -/
theorem updateNode_root {c : Context} {form : NodeForm} {keepTime : Bool} {s₀ s s' : Store}
    {t : Transaction Node} {answer n : Node} (hplan : updateNode c form keepTime s₀ = .ok t)
    (ht : t s = .ok (answer, s')) (hn : s.node? form.id = some n) (hroot : n.id = rootId) :
    strip (form.name.getD "") = n.name := by
  obtain ⟨name, hname, hplan⟩ := bind_eq_ok_iff.1 hplan
  obtain rfl := Except.ok.inj hplan
  obtain ⟨m, hm, ht⟩ := bind_eq_ok_iff.1 ht
  obtain rfl := Option.some.inj ((require_eq_ok_iff.1 hm).symm.trans hn)
  obtain ⟨-, ht⟩ := demand_bind_eq_ok_iff.1 ht
  obtain ⟨-, ht⟩ := demand_bind_eq_ok_iff.1 ht
  obtain ⟨hkept, -⟩ := demand_bind_eq_ok_iff.1 ht
  rw [← (checkName_eq_ok_iff.1 hname).1]
  exact hkept.resolve_left fun hne => hne hroot

/-- An operation that names a node puts a node with the name into its place. -/
theorem Operation.Succeeds.renames {c : Context} {p : Policy} {o : Operation} {s s' : Store}
    {answer : Answer} {id : Id} {new : String} (h : o.Succeeds c p s answer s') (hs : s.IsSound)
    (ho : o.Renames id new) :
    ∃ n ∈ s.nodes, n.id = id ∧ (id = rootId → new = n.name) ∧
      ∃ m : Node, s'.nodes = (s.replaceNode m).nodes ∧ m.id = n.id ∧ m.parent = n.parent ∧
        m.name = new ∧ m.draft = n.draft := by
  have heffect := h.effect hs
  cases ho with
  | node form keepTime =>
    cases heffect with
    | @updateNode n _ _ name hn hid hversion hkind hname hcheck =>
      refine ⟨n, hn, hid, ?_, _, rfl, rfl, rfl, (checkName_eq_ok_iff.1 hname).1, rfl⟩
      intro hroot
      obtain ⟨s₀, t, hplan, ht⟩ := h
      have hfound : s.node? form.id = some n := hid ▸ node?_of_mem hs.tree.nodup hn
      exact Write.of_map_eq_ok hplan ht fun hu hmade =>
        updateNode_root hu hmade hfound (hid.trans hroot)
  | configuration form user =>
    cases heffect with
    | @updateConfiguration n _ _ name pvs hn hk hid hversion hname hpvs =>
      refine ⟨n, hn, hid, ?_, _, rfl, rfl, rfl, (checkName_eq_ok_iff.1 hname).1, rfl⟩
      intro hroot
      obtain ⟨r, hr, hrid, -, hfolder⟩ := hs.tree.root
      obtain rfl := eq_of_id_eq hs.tree.nodup hr hn (hrid.trans (hroot.symm.trans hid.symm))
      rw [hk] at hfolder
      cases hfolder

/-- A node in the place of one that is not the root has another name, and no other change shows in
paths. -/
theorem Store.relinks_replaceNode {s s' : Store} (hs : s.IsTree) {n m : Node} (hn : n ∈ s.nodes)
    (hnodes : s'.nodes = (s.replaceNode m).nodes) (hid : m.id = n.id) (hp : m.parent = n.parent)
    (hd : m.draft = n.draft) (hroot : n.id = rootId → m.name = n.name) :
    s.Relinks s' (fun o => if o.id = m.id then m else o) (fun x => x = n.id ∧ n.id ≠ rootId) where
  nodes := hnodes
  id o ho := by
    split
    · rename_i he
      exact he.symm
    · rfl
  draft o ho := by
    split
    · rename_i he
      rw [eq_of_id_eq hs.nodup ho hn (he.trans hid), hd]
    · rfl
  others o ho hnot := by
    split
    · rename_i he
      obtain rfl := eq_of_id_eq hs.nodup ho hn (he.trans hid)
      have hisRoot : o.id = rootId := by
        by_contra hne
        exact hnot ⟨rfl, hne⟩
      exact ⟨hp, hroot hisRoot⟩
    · exact ⟨rfl, rfl⟩
  apart x y hx hy _ := hx.1.trans hy.1.symm

/-! ### Paths before and after -/

/-- How the paths that archives answer with differ before and after nodes were moved into a target;
the tables are those before. -/
structure MovesPaths (a b : Archive) (s : Store) (ids : List Id) (target : Id) : Prop where
  /-- At and below a moved node the path of the target stands for that of the former parent. -/
  moved : ∀ m ∈ s.nodes, m.id ∈ ids → ∃ parent above other, m.parent = some parent ∧
    a.HasPath parent above ∧ a.HasPath target other ∧ b.HasPath target other ∧
      ∀ x ∈ s.nodes, x.draft = false → m.id ∈ s.ancestorIds x.id → ∃ below,
        a.HasPath x.id (beneath above ("/".intercalate (m.name :: below))) ∧
          b.HasPath x.id (beneath other ("/".intercalate (m.name :: below)))
  kept : ∀ x ∈ s.nodes, x.draft = false → (∀ id ∈ ids, id ∉ s.ancestorIds x.id) →
    ∃ path, a.HasPath x.id path ∧ b.HasPath x.id path
  /-- Where something from at or below a node that lay elsewhere was found, it is found no more. -/
  left : ∀ m ∈ s.nodes, m.id ∈ ids → m.parent ≠ some target →
    ∀ x ∈ s.nodes, m.id ∈ s.ancestorIds x.id → ∀ path found,
      (Query.resolve path).ask a = .ok (.nodes found) → x ∈ found →
        ∃ rest, (Query.resolve path).ask b = .ok (.nodes rest) ∧ ∀ n ∈ rest, n.id ≠ x.id

/-- How the paths that archives answer with differ before and after a node got a name; the tables
are those before. -/
structure RenamesPaths (a b : Archive) (s : Store) (n : Node) (new : String) : Prop where
  /-- The root keeps its name. -/
  root : n.parent = none → new = n.name
  /-- At and below the node the new name stands for the old one. -/
  renamed : ∀ parent, n.parent = some parent → ∃ above, a.HasPath parent above ∧
    b.HasPath parent above ∧
      ∀ x ∈ s.nodes, x.draft = false → n.id ∈ s.ancestorIds x.id → ∃ below,
        a.HasPath x.id (beneath above ("/".intercalate (n.name :: below))) ∧
          b.HasPath x.id (beneath above ("/".intercalate (new :: below)))
  kept : ∀ x ∈ s.nodes, x.draft = false → n.parent = none ∨ n.id ∉ s.ancestorIds x.id →
    ∃ path, a.HasPath x.id path ∧ b.HasPath x.id path

/-- Only a path that begins with a slash resolves. -/
theorem Store.slash_of_resolve {s : Store} {path : Option String} {found : List Node}
    (h : s.resolve path = .ok found) : ∃ q, path = some q ∧ q.toList.head? = some '/' := by
  obtain ⟨names, hnames, -⟩ := bind_eq_ok_iff.1 h
  obtain ⟨hslash, -⟩ := demand_bind_eq_ok_iff.1 hnames
  cases path with
  | none => simp at hslash
  | some q => exact ⟨q, rfl, hslash⟩

namespace Archive

variable {a b : Archive} {s t : Store}

/-- No node has the empty path. -/
theorem HasPath.ne_empty (ha : a.store = some s) (hs : s.IsTree) {id : Id} {path : String}
    (h : a.HasPath id path) : path ≠ "" := by
  obtain ⟨n, names, -, -, -, rfl⟩ := hs.fullPath_eq_ok_iff.1 ((hasPath_iff ha).1 h)
  intro he
  have hslash := head?_joinPath names
  rw [he] at hslash
  simp at hslash

/-- What is found at a path are the folders and configurations that have it. -/
theorem mem_of_ask_resolve (ha : a.store = some s) (hs : s.IsSound) {path : Option String}
    {found : List Node} (h : (Query.resolve path).ask a = .ok (.nodes found)) :
    ∃ q, path = some q ∧ q.toList.head? = some '/' ∧
      ∀ n, n ∈ found ↔ n ∈ s.nodes ∧ n.kind ≠ .snapshot ∧
        a.HasPath n.id (joinPath (segments q.toList)) := by
  rw [Query.ask_resolve ha] at h
  obtain ⟨found, hres, he⟩ := map_eq_ok_iff.1 h
  obtain rfl := Answer.nodes.inj he
  obtain ⟨q, rfl, hslash⟩ := slash_of_resolve hres
  obtain ⟨listed, hlisted, hmem, -⟩ := resolve_eq hs.tree hs.named hslash
  obtain rfl := Except.ok.inj (hres.symm.trans hlisted)
  refine ⟨q, rfl, hslash, ?_⟩
  intro n
  rw [hmem, hasPath_iff ha]

/-- Where a node was found, it is not found any more when it has another path. -/
theorem not_found_of_hasPath_ne (ha : a.store = some s) (hb : b.store = some t) (hs : s.IsSound)
    (ht : t.IsSound) {x : Node} {old new : String} (hold : a.HasPath x.id old)
    (hnew : b.HasPath x.id new) (hne : old ≠ new) {path : Option String} {found : List Node}
    (hfound : (Query.resolve path).ask a = .ok (.nodes found)) (hx : x ∈ found) :
    ∃ rest, (Query.resolve path).ask b = .ok (.nodes rest) ∧ ∀ n ∈ rest, n.id ≠ x.id := by
  obtain ⟨q, rfl, hslash, hmem⟩ := mem_of_ask_resolve ha hs hfound
  obtain ⟨rest, hres, -⟩ := resolve_eq ht.tree ht.named hslash
  have hrest : (Query.resolve (some q)).ask b = .ok (.nodes rest) := by
    rw [Query.ask_resolve hb, hres]
    rfl
  obtain ⟨q', hq, -, hmem'⟩ := mem_of_ask_resolve hb ht hrest
  obtain rfl := Option.some.inj hq
  refine ⟨rest, hrest, ?_⟩
  intro n hn hid
  apply hne
  have hafter := ((hmem' n).1 hn).2.2
  rw [hid] at hafter
  rw [hold.unique ((hmem x).1 hx).2.2, hnew.unique hafter]

end Archive

/-- Relinking below another node rewrites the paths as a move says. -/
theorem Store.Relinks.movesPaths {a b : Archive} {s t : Store} {f : Node → Node} {ids : List Id}
    {target : Id} {nodes : List Node} {tn : Node} (h : s.Relinks t f (· ∈ ids))
    (ha : a.store = some s) (hb : b.store = some t) (hs : s.IsSound) (ht : t.IsSound)
    (hmoves : s.IsRelocation ids target true true nodes tn)
    (hf : ∀ m ∈ nodes, (f m).parent = some target ∧ (f m).name = m.name) :
    MovesPaths a b s ids target := by
  obtain ⟨htn, rfl⟩ := node?_eq_some hmoves.found
  have houtside : ∀ y, y ∈ ids → ¬s.LeadsTo tn.id y := by
    intro y hy
    obtain ⟨n, hn, rfl⟩ := hmoves.selection.exists_of_mem hy
    exact hmoves.not_leadsTo hs.tree hn
  have hbelow : ∀ m ∈ s.nodes, m.id ∈ ids → ∃ p ∈ s.nodes, m.parent = some p.id ∧
      p.kind = .folder ∧ ∃ above other, a.HasPath p.id above ∧ a.HasPath tn.id other ∧
        b.HasPath tn.id other ∧
        ∀ x ∈ s.nodes, x.draft = false → s.LeadsTo x.id m.id → ∃ below,
          a.HasPath x.id (beneath above ("/".intercalate (m.name :: below))) ∧
            b.HasPath x.id (beneath other ("/".intercalate (m.name :: below))) := by
    intro m hm hid
    have hmem := hmoves.selection.mem_of_id_mem hs.tree hm hid
    obtain ⟨q, hq⟩ := hmoves.selection.exists_parent hs.tree
    obtain ⟨p, hp, rfl, hholds⟩ := hs.tree.contained m hm q (hq m hmem)
    have hfolder : p.kind = .folder := by
      rcases Kind.mayHold_iff.1 hholds with ⟨hk, -⟩ | ⟨-, hk⟩
      · exact hk
      · exact absurd hk (Kind.ne_snapshot_of_isMovable (hmoves.movable m hmem))
    obtain ⟨hparent, hname⟩ := hf m hmem
    obtain ⟨above, other, habove, hother, hother', hpaths⟩ :=
      h.path_below ha hb hs ht hm hid hp (hq m hmem) htn hparent houtside
    rw [hname] at hpaths
    exact ⟨p, hp, hq m hmem, hfolder, above, other, habove, hother, hother', hpaths⟩
  constructor
  · intro m hm hid
    obtain ⟨p, -, hp, -, above, other, habove, hother, hother', hpaths⟩ := hbelow m hm hid
    refine ⟨p.id, above, other, hp, habove, hother, hother', ?_⟩
    intro x hx hd hup
    exact hpaths x hx hd ((hs.tree.mem_ancestorIds_iff hx).1 hup)
  · intro x hx hd hnot
    apply h.path_outside ha hb hs ht hx hd
    intro y hy hup
    exact hnot y hy ((hs.tree.mem_ancestorIds_iff hx).2 hup)
  · intro m hm hid helse x hx hup path found hfound hmem
    obtain ⟨p, hp, hparent, hfolder, above, other, habove, hother, hother', hpaths⟩ :=
      hbelow m hm hid
    have hd : x.draft = false := by
      obtain ⟨q, -, -, hlisted⟩ := Archive.mem_of_ask_resolve ha hs hfound
      exact hs.named.draft_eq_false_of_kind hx ((hlisted x).1 hmem).2.1
    obtain ⟨below, hold, hnew⟩ := hpaths x hx hd ((hs.tree.mem_ancestorIds_iff hx).1 hup)
    apply Archive.not_found_of_hasPath_ne ha hb hs ht hold hnew _ hfound hmem
    -- With one path the two folders above would be one.
    intro he
    obtain rfl := beneath_injective (habove.ne_empty ha hs.tree) (hother.ne_empty ha hs.tree) he
    rw [Archive.hasPath_iff ha] at habove hother
    have hsame : p = tn := by
      apply eq_of_fullPath_eq hs.tree hs.named hp htn
      · exact hs.named.draft_eq_false_of_kind hp (by simp [hfolder])
      · exact hs.named.draft_eq_false_of_kind htn (by simp [hmoves.folder])
      · rw [hfolder, hmoves.folder]
      · rw [habove, hother]
    exact helse (hsame ▸ hparent)

/-- Relinking under another name rewrites them as a renaming says. -/
theorem Store.Relinks.renamesPaths {a b : Archive} {s t : Store} {f : Node → Node} {n : Node}
    {new : String} (h : s.Relinks t f fun x => x = n.id ∧ n.id ≠ rootId) (ha : a.store = some s)
    (hb : b.store = some t) (hs : s.IsSound) (ht : t.IsSound) (hn : n ∈ s.nodes)
    (hparent : (f n).parent = n.parent) (hname : (f n).name = new)
    (hroot : n.id = rootId → new = n.name) : RenamesPaths a b s n new where
  root hp := hroot (hs.tree.onlyRoot n hn hp)
  renamed q hq := by
    have hne : n.id ≠ rootId := by
      intro hid
      obtain ⟨r, hr, hrid, hnone, -⟩ := hs.tree.root
      obtain rfl := eq_of_id_eq hs.tree.nodup hn hr (hid.trans hrid.symm)
      rw [hnone] at hq
      cases hq
    obtain ⟨p, hp, rfl, -⟩ := hs.tree.contained n hn q hq
    obtain ⟨above, other, habove, hother, hother', hpaths⟩ :=
      h.path_below ha hb hs ht hn ⟨rfl, hne⟩ hp hq hp (hparent.trans hq)
        (h.parent_outside hs.tree hn ⟨rfl, hne⟩ hq)
    obtain rfl := habove.unique hother
    rw [hname] at hpaths
    refine ⟨above, habove, hother', ?_⟩
    intro x hx hd hup
    exact hpaths x hx hd ((hs.tree.mem_ancestorIds_iff hx).1 hup)
  kept x hx hd hcases := by
    apply h.path_outside ha hb hs ht hx hd
    rintro y ⟨rfl, hne⟩ hup
    rcases hcases with hnone | hnot
    · exact hne (hs.tree.onlyRoot n hn hnone)
    · exact hnot ((hs.tree.mem_ancestorIds_iff hx).2 hup)

namespace Sample

/-- Beside the folder with the committed snapshot there is another. -/
def shelved : Archive :=
  perform "b" (.createNode rootId (form "b" .folder) (some "u")) committed

/-- The shelved store can be reached. -/
theorem reachable_shelved : ∃ ts, Service.Reachable ⟨shelved, ts⟩ := by
  obtain ⟨ts, h⟩ := reachable_committed
  exact reachable_perform h "b" (.createNode rootId (form "b" .folder) (some "u"))

/-- A path is had if computing it gives it. -/
theorem hasPath_of_eq {a : Archive} {id : Id} {path : String}
    (h : (a.store.bind fun s => (s.fullPath id).toOption) = some path) : a.HasPath id path := by
  obtain ⟨s, hs, hpath⟩ := Option.bind_eq_some_iff.1 h
  rw [Archive.hasPath_iff hs]
  cases hfull : s.fullPath id with
  | ok text =>
    rw [hfull] at hpath
    exact congrArg Except.ok (Option.some.inj hpath)
  | error f =>
    rw [hfull] at hpath
    cases hpath

end Sample

namespace Service

open Archive Sample

/-- What a move or a rename that is answered makes of the paths in the tables that other clients
left before. After a move, in the path of each node that is no draft and lies at or below a moved
node, the path of the target stands for that of the former parent of the moved node; after a rename
of a node by an update, the new name stands for the old one. All other nodes that are no drafts keep
their paths. Folders and configurations that went elsewhere are not found where they were found
before. -/
theorem Reachable.paths_rewritten {a b : Archive} {between : Archive → Archive}
    {ts us : List (Transaction Answer)} {s : Store} {hold : Hold} {c : Context} {p : Policy}
    {o : Operation} {answer : Answer} (h : Reachable ⟨a, ts⟩)
    (hothers : Run ⟨a, ts⟩ ⟨between a, us⟩) (hs : (between a).store = some s)
    (hcall : a.run hold between (o.call c p) = (.ok answer, b)) :
    (∀ ids target user, o = .moveNodes ids target user →
      MovesPaths (between a) b s ids target) ∧
    ∀ id new, o.Renames id new →
      ∃ n ∈ s.nodes, n.id = id ∧ RenamesPaths (between a) b s n new := by
  obtain ⟨s', rfl, hsound, hsound', hok⟩ := h.call_eq_ok hothers hs hcall
  constructor
  · rintro ids target user rfl
    obtain ⟨f, nodes, t, hmoves, hrelinks, hf⟩ := (hok.effect hsound).relinks_move hsound
    exact hrelinks.movesPaths hs rfl hsound hsound' hmoves hf
  · intro id new ho
    obtain ⟨n, hn, hid, hroot, m, hnodes, hmid, hparent, hname, hd⟩ := hok.renames hsound ho
    have hkeeps : n.id = rootId → m.name = n.name := fun hr =>
      hname.trans (hroot (hid.symm.trans hr))
    have hrelinks := relinks_replaceNode hsound.tree hn hnodes hmid hparent hd hkeeps
    refine ⟨n, hn, hid, hrelinks.renamesPaths hs rfl hsound hsound' hn ?_ ?_ ?_⟩
    · rw [if_pos hmid.symm, hparent]
    · rw [if_pos hmid.symm, hname]
    · exact fun hr => hname.symm.trans (hkeeps hr)

/-- The first folder is moved into the second, or renamed: the snapshot in its configuration keeps
what comes below the name of the folder. -/
theorem paths_rewritten_shelved : ∃ below other,
    shelved.HasPath "s0" (beneath "/" ("/".intercalate ("a" :: below))) ∧
    (perform "m" (.moveNodes ["a0"] "b0" (some "u")) shelved).HasPath "s0"
      (beneath "/b" ("/".intercalate ("a" :: below))) ∧
    shelved.HasPath "s0" (beneath "/" ("/".intercalate ("a" :: other))) ∧
    (perform "d" (rename "d") shelved).HasPath "s0"
      (beneath "/" ("/".intercalate ("d" :: other))) := by
  obtain ⟨ts, h⟩ := reachable_shelved
  obtain ⟨s, hs⟩ : ∃ s, shelved.store = some s := Option.isSome_iff_exists.1 (by decide +kernel)
  have hidle : (id shelved).store = some s := hs
  have hnobody : Run ⟨shelved, ts⟩ ⟨id shelved, ts⟩ := .refl
  have hnodes : ∀ s ∈ shelved.store, (∃ m ∈ s.nodes, m.id = "a0" ∧ m.name = "a" ∧
      m.parent = some rootId) ∧
      ∃ x ∈ s.nodes, x.id = "s0" ∧ x.draft = false ∧ "a0" ∈ s.ancestorIds x.id := by
    decide +kernel
  obtain ⟨⟨m, hm, hmid, hname, hparent⟩, x, hx, hxid, hd, hup⟩ := hnodes s hs
  have hroot : shelved.HasPath rootId "/" := hasPath_of_eq (by decide +kernel)
  have hshelf : shelved.HasPath "b0" "/b" := hasPath_of_eq (by decide +kernel)
  obtain ⟨answer, hmove⟩ := exists_answer shelved "m" (.moveNodes ["a0"] "b0" (some "u"))
    (by decide +kernel)
  obtain ⟨answer', hrename⟩ := exists_answer shelved "d" (rename "d") (by decide +kernel)
  have hmoves := (h.paths_rewritten hnobody hidle hmove).1 _ _ _ rfl
  obtain ⟨n, hn, hnid, hrenames⟩ :=
    (h.paths_rewritten hnobody hidle hrename).2 "a0" "d" (.node _ false)
  obtain rfl : n = m := eq_of_id_eq (h.isSound_store hs).tree.nodup hn hm (hnid.trans hmid.symm)
  obtain ⟨q, above, other, hq, habove, hother, -, hpaths⟩ :=
    hmoves.moved n hm (by simp [hmid])
  obtain rfl := Option.some.inj (hparent.symm.trans hq)
  obtain rfl := hroot.unique habove
  obtain rfl := hshelf.unique hother
  obtain ⟨below, hold, hnew⟩ := hpaths x hx hd (hmid ▸ hup)
  obtain ⟨above, habove', -, hpaths'⟩ := hrenames.renamed rootId hparent
  obtain rfl := hroot.unique habove'
  obtain ⟨below', hold', hnew'⟩ := hpaths' x hx hd (hmid ▸ hup)
  rw [hxid, hname] at hold hnew hold'
  rw [hxid] at hnew'
  exact ⟨below, below', hold, hnew, hold', hnew'⟩

end Service

end SnapshotArchive
