import SnapshotArchive.Proofs.Effects

/-!
# What becomes of a node and of its records

Of a node that stays, an operation makes one of seven things (`Node.Revision`): it is kept, given
another name or other properties, moved, stamped, written again as a draft, or marked. A node that
was not there is either described by a client or the copy of one that was (`Store.Yields`).

The variables of a node that stays are other ones only if the node was changed too, and the items of
a committed snapshot are never other ones.

* `Operation.Effect.yields` : where the nodes come from that an operation leaves.
* `Operation.Effect.revision` : what it makes of a node that stays.
* `Operation.Effect.pvsOf_eq`, `Operation.Effect.itemsOf_eq_of_not` : whose variables and whose
  items change.
* `Operation.Effect.pvsOf_eq_or`, `Operation.Effect.itemsOf_eq` : the variables and the items.
-/

namespace SnapshotArchive

open Text Store

/-! ### Revisions -/

/-- What an operation may make of a node. -/
inductive Node.Revision (c : Context) (n : Node) : Node → Prop
  | kept : Revision c n n
  | updated {form : NodeForm} {keepTime : Bool} {name : String} :
    checkSnapshotUpdate n name form.properties = .ok () →
    Revision c n (n.updated c form keepTime name)
  | configured {form : ConfigurationForm} {name : String} {user : Option String} :
    n.kind = .configuration → Revision c n (n.configured c form name user)
  | moved {target : Id} {user : String} {position : Nat} : n.kind.isMovable →
    Revision c n (n.movedTo c target user position)
  | stamped {user : String} :
    Revision c n { n with version := n.version + 1, modified := c.now, user }
  | revised {name : String} {status : Status} {comment user : String} : n.kind = .snapshot →
    n.draft → Revision c n (n.revised c name status comment user)
  | marked {golden : Bool} : Revision c n (n.marked c golden)

namespace Node.Revision

variable {c : Context} {n m : Node}

/-- A revision keeps the identifier. -/
theorem id_eq (h : n.Revision c m) : m.id = n.id := by
  cases h <;> rfl

/-- It keeps the kind. -/
theorem kind_eq (h : n.Revision c m) : m.kind = n.kind := by
  cases h with
  | @configured form name user hk => exact form.isConfiguration.trans hk.symm
  | revised hk => exact hk.symm
  | _ => rfl

/-- Every change makes the version grow. -/
theorem eq_or_version_lt (h : n.Revision c m) : m = n ∨ n.version < m.version := by
  cases h with
  | kept => exact .inl rfl
  | _ => exact .inr (Nat.lt_succ_self _)

/-- It never lowers the version. -/
theorem version_le (h : n.Revision c m) : n.version ≤ m.version := by
  rcases h.eq_or_version_lt with rfl | hlt
  · exact Nat.le_refl _
  · exact Nat.le_of_lt hlt

end Node.Revision

/-! ### Where nodes come from -/

/-- How a node may have come to be in the tables that an operation leaves. -/
inductive Store.Yields (s : Store) (c : Context) : Node → Prop
  /-- It is what has become of a node. -/
  | revision {n m : Node} : n ∈ s.nodes → n.Revision c m → Yields s c m
  /-- A client has described it. -/
  | described {parent : Id} {name : String} {content : Content} {draft : Bool}
    {properties : Properties} {user : String} : s.hasNode (c.fresh 0) = false →
    (content.kind = .snapshot → properties = .empty) →
    Yields s c (s.newNode c parent name content draft properties user)
  /-- It is a copy. -/
  | copied {n m : Node} : n ∈ s.nodes → s.hasNode m.id = false → m.content = n.content →
    m.properties = n.properties → Yields s c m

namespace Store

variable {s : Store} {c : Context}

/-- Each node is what a function has made of one. -/
theorem Yields.of_map {f : Node → Node} {m : Node} (hf : ∀ n ∈ s.nodes, n.Revision c (f n))
    (hm : m ∈ s.nodes.map f) : s.Yields c m := by
  obtain ⟨n, hn, rfl⟩ := List.mem_map.1 hm
  exact .revision hn (hf n hn)

/-- A node in the place of one that it is a revision of. -/
theorem Yields.of_replaceNode (hs : s.IsTree) {n k m : Node} (hn : n ∈ s.nodes)
    (hk : n.Revision c k) (hm : m ∈ (s.replaceNode k).nodes) : s.Yields c m := by
  refine .of_map (fun o ho => ?_) hm
  by_cases hid : o.id = k.id
  · obtain rfl := eq_of_id_eq hs.nodup ho hn (hid.trans hk.id_eq)
    rw [if_pos hid]
    exact hk
  · rw [if_neg hid]
    exact .kept

/-- A node after a stamp is a revision of one from before. -/
theorem Yields.of_stamp {id : Id} {user : String} {m : Node}
    (hm : m ∈ (s.stamp c id user).nodes) : s.Yields c m := by
  refine .of_map (fun n _ => ?_) hm
  split
  · exact .stamped
  · exact .kept

/-- So is a node after snapshots were marked. -/
theorem Yields.of_mark {n m : Node} {golden : Bool} {others : List Node}
    (hm : m ∈ (s.mark c n golden others).nodes) : s.Yields c m := by
  refine .of_map (fun o _ => ?_) hm
  split
  · exact .marked
  · split
    · exact .marked
    · exact .kept

/-- Moved nodes are not the one that they are moved into. -/
theorem Yields.of_move_stamp {target : Id} {user : String} {ids : List Id} {m : Node}
    (htarget : target ∉ ids) (hmovable : ∀ n ∈ s.nodes, n.id ∈ ids → n.kind.isMovable)
    (hm : m ∈ ((s.move c target user ids).stamp c target user).nodes) : s.Yields c m := by
  simp only [stamp, mapNode, move, List.map_map] at hm
  refine .of_map (fun n hn => ?_) hm
  rw [Function.comp_apply]
  by_cases hid : n.id ∈ ids
  · have hne : n.id ≠ target := fun he => htarget (he ▸ hid)
    simp only [if_pos hid, Node.movedTo, if_neg hne]
    exact .moved (hmovable n hn hid)
  · rw [if_neg hid]
    split
    · exact .stamped
    · exact .kept

/-- A node among the copies is the copy of one from before. -/
theorem Yields.of_copies {user : String} {target : Id} {d : Id → Duplicate} {nodes : List Node}
    {m : Node} (hbeside : s.IsBeside target (copies c user target s d nodes))
    (hm : m ∈ (copies c user target s d nodes).nodes) : s.Yields c m := by
  have hnew := hbeside.own.nodes m hm
  obtain ⟨source, -, n, hn, rfl⟩ := mem_nodes_copies_iff.1 hm
  refine .copied (mem_nodes_of_mem_subtree hn) hnew ?_ ?_
  · unfold Duplicate.copyOf
    split <;> rfl
  · unfold Duplicate.copyOf
    split <;> rfl

end Store

namespace Operation.Effect

variable {c : Context} {p : Policy} {o : Operation} {s s' : Store}

/-- The nodes that an operation leaves are revisions of those that were there, or new. -/
theorem yields (h : o.Effect c p s s') (hs : s.IsSound) {m : Node} (hm : m ∈ s'.nodes) :
    s.Yields c m := by
  have htree := hs.tree
  cases h with
  | createNode hq hholds hk hname hwriter hnew =>
    rcases List.mem_append.1 hm with hm | hm
    · exact .revision hm .kept
    · obtain rfl := List.mem_singleton.1 hm
      exact .described hnew fun hsnapshot => absurd hsnapshot hk
  | updateNode hn hid hversion hkind hname hsnapshot =>
    exact .of_replaceNode htree hn (.updated hsnapshot) hm
  | deleteNode => exact .revision (mem_nodes_removeNodes_iff.1 hm).1 .kept
  | deleteNodes => exact .revision (mem_nodes_removeNodes_iff.1 hm).1 .kept
  | @moveNodes ids target nodes t user hmoves helse =>
    refine .of_move_stamp (hmoves.target_not_mem htree) (fun n hn hid => ?_) hm
    exact hmoves.movable n (hmoves.selection.mem_of_id_mem htree hn hid)
  | keepNodes => exact .of_stamp hm
  | copyNodes hcopies hbeside =>
    rcases List.mem_append.1 hm with hm | hm
    · exact .of_stamp hm
    · exact .of_copies hbeside hm
  | @createConfiguration q form user name writer pvs hq hholds hname hwriter hnew hpvs =>
    rcases List.mem_append.1 hm with hm | hm
    · exact .revision hm .kept
    · obtain rfl := List.mem_singleton.1 hm
      refine .described hnew fun hsnapshot => ?_
      have hk : form.node.content.kind = .configuration := form.isConfiguration
      rw [hk] at hsnapshot
      cases hsnapshot
  | updateConfiguration hn hk => exact .of_replaceNode htree hn (.configured hk) hm
  | renamePv => exact .of_stamp hm
  | newSnapshot hq hk hnone hnew =>
    rcases List.mem_append.1 hm with hm | hm
    · exact .revision hm .kept
    · obtain rfl := List.mem_singleton.1 hm
      exact .described hnew fun _ => rfl
  | overwriteDraft hdraft =>
    obtain ⟨hn, -, hk, hd⟩ := draft?_eq_some hdraft
    exact .of_replaceNode htree hn (.revised hk hd) hm
  | commitSnapshot hn hk hdraft =>
    exact .of_replaceNode htree hn (.revised hk (hs.named.drafts _ hn ▸ hdraft)) hm
  | markGolden => exact .of_mark hm
  | addTag => exact .revision hm .kept
  | removeTag => exact .revision hm .kept
  | initialise => exact .revision hm .kept

/-- What becomes of a node that stays. -/
theorem revision (h : o.Effect c p s s') (hs : s.IsSound) {n m : Node} (hn : n ∈ s.nodes)
    (hm : m ∈ s'.nodes) (hid : m.id = n.id) : n.Revision c m := by
  cases h.yields hs hm with
  | revision hn' hrevision =>
    obtain rfl := eq_of_id_eq hs.tree.nodup hn hn' (hid.symm.trans hrevision.id_eq)
    exact hrevision
  | described hnew => exact absurd hid.symm (not_mem_of_hasNode_eq_false hnew hn)
  | copied _ hnew => exact absurd hid.symm (not_mem_of_hasNode_eq_false hnew hn)

end Operation.Effect

/-! ### Variables and items -/

namespace Operation

/-- The configurations whose variables an operation changes. -/
def ChangesPvs (id : Id) : Operation → Prop
  | .updateConfiguration form _ => id = form.node.id
  | .renamePv config _ _ _ => id = config
  | _ => False

/-- The snapshots whose items an operation changes. -/
def ChangesItems (s : Store) (id : Id) : Operation → Prop
  | .saveSnapshot config _ _ _ _ => ∃ draft, s.draft? config = some draft ∧ id = draft.id
  | _ => False

end Operation

namespace Store

variable {s : Store}

/-- A node that is not deleted keeps its variables. -/
theorem pvsOf_removeNodes {gone : List Id} {id : Id} (hid : id ∉ gone) :
    (s.removeNodes gone).pvsOf id = s.pvsOf id := by
  have hfilter : (s.pvs.filter (·.config ∉ gone)).filter (·.config = id) =
      s.pvs.filter (·.config = id) := by
    rw [List.filter_filter]
    refine List.filter_congr fun pv _ => ?_
    by_cases hc : pv.config = id
    · simp [hc, hid]
    · simp [hc]
  rw [pvsOf, removeNodes, hfilter]
  rfl

/-- The items that are deleted are those of the snapshots that are: the variables of all others
belong to the configuration that their snapshot lies in, and with it the snapshot would be gone. -/
theorem items_removeNodes (hs : s.IsSound) {roots gone : List Id}
    (hgone : s.IsAllBelow roots gone) :
    (s.removeNodes gone).items = s.items.filter (·.snapshot ∉ gone) := by
  rw [removeNodes]
  refine List.filter_congr fun i hi => ?_
  by_cases hsnapshot : i.snapshot ∈ gone
  · simp [hsnapshot]
  · obtain ⟨n, hn, hid, -, owner, howner, he, hparent⟩ := hs.owned.itemOwner i hi
    have hkept : (s.pvs.any fun pv => pv.id = i.pv && pv.config ∈ gone) = false := by
      rw [List.any_eq_false]
      intro pv hpv
      simp only [Bool.and_eq_true, decide_eq_true_eq, not_and]
      intro hpvid hconfig
      obtain rfl := pv_eq_of_id_eq hs.owned.pvIds hpv howner (hpvid.trans he.symm)
      exact hsnapshot (hid ▸ hgone.closed hn hparent hconfig)
    rw [hkept, Bool.not_false, Bool.and_true]

/-- A snapshot that is not deleted keeps its items. -/
theorem itemsOf_removeNodes (hs : s.IsSound) {roots gone : List Id}
    (hgone : s.IsAllBelow roots gone) {id : Id} (hid : id ∉ gone) :
    (s.removeNodes gone).itemsOf id = s.itemsOf id := by
  have hfilter : (s.items.filter (·.snapshot ∉ gone)).filter (·.snapshot = id) =
      s.items.filter (·.snapshot = id) := by
    rw [List.filter_filter]
    refine List.filter_congr fun i _ => ?_
    by_cases hi : i.snapshot = id
    · simp [hi, hid]
    · simp [hi]
  rw [itemsOf, items_removeNodes hs hgone, hfilter]
  rfl

/-- A change of a variable does not show at other configurations than its own. -/
theorem pvsOf_replacePv (hs : s.IsOwned) {pv q : Pv} (hpv : pv ∈ s.pvs) (hid : q.id = pv.id)
    (hconfig : q.config = pv.config) {id : Id} (hne : id ≠ pv.config) :
    (s.replacePv q).pvsOf id = s.pvsOf id := by
  have hmap : ∀ o ∈ s.pvs, decide ((if o.id = q.id then q else o).config = id) =
      decide (o.config = id) := by
    intro o ho
    split
    · rename_i he
      rw [pv_eq_of_id_eq hs.pvIds ho hpv (he.trans hid), hconfig]
    · rfl
  have hfilter : (s.replacePv q).pvs.filter (·.config = id) = s.pvs.filter (·.config = id) := by
    rw [replacePv, List.filter_map, List.filter_congr (q := fun o => decide (o.config = id)) hmap]
    refine (List.map_congr_left fun o ho => ?_).trans (List.map_id _)
    obtain ⟨ho, hoc⟩ := List.mem_filter.1 ho
    refine if_neg fun he => hne ?_
    rw [← pv_eq_of_id_eq hs.pvIds ho hpv (he.trans hid)]
    exact (of_decide_eq_true hoc).symm
  rw [pvsOf, hfilter]
  rfl

end Store

namespace Operation.Effect

variable {c : Context} {p : Policy} {o : Operation} {s s' : Store}

/-- A node that stays has the variables that it had, unless the operation is about them. -/
theorem pvsOf_eq (h : o.Effect c p s s') (hs : s.IsSound) {n m : Node} (hn : n ∈ s.nodes)
    (hm : m ∈ s'.nodes) (hid : m.id = n.id) (hnot : ¬o.ChangesPvs n.id) :
    s'.pvsOf n.id = s.pvsOf n.id := by
  cases h with
  | deleteNode => exact pvsOf_removeNodes (hid ▸ (mem_nodes_removeNodes_iff.1 hm).2)
  | deleteNodes => exact pvsOf_removeNodes (hid ▸ (mem_nodes_removeNodes_iff.1 hm).2)
  | copyNodes _ hbeside => exact (hbeside.contents (hasNode_of_mem hn)).1
  | @createConfiguration q form user name writer pvs _ _ _ _ hnew hpvs =>
    refine pvsOf_append (t := ⟨[], pvs, [], []⟩) fun pv hpv hc => ?_
    exact not_mem_of_hasNode_eq_false hnew hn (hc.symm.trans (hpvs pv hpv))
  | @updateConfiguration k form user name pvs hk _ hkid _ _ hothers =>
    rw [pvsOf, hothers n.id fun he => hnot (he.trans hkid)]
    rfl
  | @renamePv k pv new user _ _ hpv hconfig =>
    refine pvsOf_replacePv (q := { pv with name := strip (new.getD "") }) hs.owned hpv rfl rfl ?_
    rw [hconfig]
    exact hnot
  | _ => rfl

/-- A snapshot that stays has the items that it had, unless it is a draft that is written again. -/
theorem itemsOf_eq_of_not (h : o.Effect c p s s') (hs : s.IsSound) {n m : Node}
    (hn : n ∈ s.nodes) (hm : m ∈ s'.nodes) (hid : m.id = n.id) (hnot : ¬o.ChangesItems s n.id) :
    s'.itemsOf n.id = s.itemsOf n.id := by
  cases h with
  | deleteNode _ _ hgone =>
    exact itemsOf_removeNodes hs hgone (hid ▸ (mem_nodes_removeNodes_iff.1 hm).2)
  | deleteNodes _ hgone =>
    exact itemsOf_removeNodes hs hgone (hid ▸ (mem_nodes_removeNodes_iff.1 hm).2)
  | copyNodes _ hbeside => exact (hbeside.contents (hasNode_of_mem hn)).2.1
  | @newSnapshot q items name comment title user status added _ _ _ hnew hadded =>
    refine itemsOf_append (t := ⟨[], [], added, []⟩) fun i hi hsnapshot => ?_
    exact not_mem_of_hasNode_eq_false hnew hn (hsnapshot.symm.trans (hadded i hi))
  | @overwriteDraft config k items name comment title user status added hk hadded =>
    have hne : n.id ≠ k.id := fun he => hnot ⟨k, hk, he⟩
    have hfilter : (s.items.filter (·.snapshot ≠ k.id) ++ added).filter (·.snapshot = n.id) =
        s.items.filter (·.snapshot = n.id) := by
      rw [filter_append_of_forall_not fun i hi => ?_, List.filter_filter]
      · refine List.filter_congr fun i _ => ?_
        by_cases he : i.snapshot = n.id
        · simp [he, hne]
        · simp [he]
      · simpa [hadded i hi] using hne.symm
    rw [itemsOf, hfilter]
    rfl
  | _ => rfl

/-- A node that stays has the variables that it had, or a higher version. -/
theorem pvsOf_eq_or (h : o.Effect c p s s') (hs : s.IsSound) {n m : Node} (hn : n ∈ s.nodes)
    (hm : m ∈ s'.nodes) (hid : m.id = n.id) :
    s'.pvsOf n.id = s.pvsOf n.id ∨ n.version < m.version := by
  by_cases hchanges : o.ChangesPvs n.id
  · refine .inr ?_
    cases h with
    | @updateConfiguration k form user name pvs hk _ hkid =>
      obtain rfl := eq_of_id_eq hs.tree.nodup hn hk (hchanges.trans hkid.symm)
      rcases mem_replaceNode_iff.1 hm with ⟨rfl, -⟩ | ⟨-, hne⟩
      · exact Nat.lt_succ_self _
      · exact absurd hid hne
    | @renamePv k pv new user hk =>
      obtain ⟨o, ho, rfl⟩ := List.mem_map.1 hm
      have hok : o.id = k.id := by
        by_cases hok : o.id = k.id
        · exact hok
        · rw [if_neg hok] at hid
          exact hid.trans hchanges
      rw [if_pos hok]
      obtain rfl := eq_of_id_eq hs.tree.nodup hn ho (hchanges.trans hok.symm)
      exact Nat.lt_succ_self _
    | _ => exact hchanges.elim
  · exact .inl (h.pvsOf_eq hs hn hm hid hchanges)

/-- A committed snapshot that stays has the items that it had: a draft that is written again is
another snapshot. -/
theorem itemsOf_eq (h : o.Effect c p s s') (hs : s.IsSound) {n : Node} (hn : n ∈ s.nodes)
    (hdraft : n.draft = false) (hstays : s'.hasNode n.id) : s'.itemsOf n.id = s.itemsOf n.id := by
  obtain ⟨m, hm, hid⟩ := hasNode_iff.1 hstays
  refine h.itemsOf_eq_of_not hs hn hm hid fun hchanges => ?_
  cases o with
  | saveSnapshot =>
    obtain ⟨draft, hfound, he⟩ := hchanges
    obtain ⟨hmem, -, -, hd⟩ := draft?_eq_some hfound
    rw [eq_of_id_eq hs.tree.nodup hn hmem he, hd] at hdraft
    cases hdraft
  | _ => exact hchanges.elim

end Operation.Effect

end SnapshotArchive
