import SnapshotArchive.Proofs.DeepCopy
import SnapshotArchive.Proofs.Listings
import SnapshotArchive.Proofs.Locality.Requests
import SnapshotArchive.Proofs.Relocation

/-!
# Adding and removing a tag

A tag is added under its name without blanks around it, and comes into the list of the snapshot
behind the newer tags and before all others. A tag is removed by its name as it is given. So a tag
can be removed with the description that it was added with, and the archive is then what it was, if
there are no blanks around the name in the description. If there are, no tag has that name, and the
tag stays.

* `Store.exists_tagsOf_append` : where a new tag is listed.
* `addTag_eq_ok_iff` : when a tag is added, and what that leaves.
* `removeTag_of_mem`, `removeTag_of_forall_ne` : when a tag is removed.
* `Service.Reachable.hasCleanTags` : the names of tags have no blanks around them.
-/

namespace SnapshotArchive

open Text Store Archive Sample

/-- The tag that a description becomes. -/
def TagForm.tag (form : TagForm) (c : Context) (id : Id) : Tag where
  snapshot := id
  name := strip (form.name.getD "")
  comment := form.comment.getD ""
  user := form.user.getD ""
  created := (form.created.filter (· ≠ 0)).getD c.now

namespace Store

/-- A committed snapshot can carry a tag beside those that it has. -/
structure MayTag (s : Store) (n : Node) (tag : Tag) : Prop where
  found : s.node? tag.snapshot = some n
  kind : n.kind = .snapshot
  committed : n.content.isDraft = false
  named : tag.name ≠ ""
  free : ∀ t ∈ s.tags, t.snapshot = tag.snapshot → t.name ≠ tag.name
  fits : fitsRecord tag.created

/-- No tag has blanks around its name. -/
def HasCleanTags (s : Store) : Prop :=
  ∀ t ∈ s.tags, strip t.name = t.name

/-- The store with a tag behind all others. -/
def putTag (s : Store) (tag : Tag) : Store :=
  { s with tags := s.tags ++ [tag] }

variable {s : Store} {tag : Tag}

/-! ### The list of a snapshot -/

/-- A new tag is listed behind those that are newer, and before those that are as old or older. -/
theorem exists_tagsOf_append (s : Store) (tag : Tag) : ∃ before after,
    (s.putTag tag).tagsOf tag.snapshot = before ++ tag :: after ∧
      s.tagsOf tag.snapshot = before ++ after ∧ (∀ t ∈ before, tag.created < t.created) ∧
      ∀ t ∈ after, t.created ≤ tag.created := by
  have hfilter : ((s.tags ++ [tag]).filter (·.snapshot = tag.snapshot)).reverse =
      tag :: (s.tags.filter (·.snapshot = tag.snapshot)).reverse := by
    simp
  obtain ⟨before, after, hcons, hold, hbefore⟩ := List.mergeSort_cons Tag.precedes_trans
    Tag.precedes_total tag (s.tags.filter (·.snapshot = tag.snapshot)).reverse
  have hsorted := List.pairwise_mergeSort Tag.precedes_trans Tag.precedes_total
    (tag :: (s.tags.filter (·.snapshot = tag.snapshot)).reverse)
  rw [hcons] at hsorted
  refine ⟨before, after, ?_, hold, fun t ht => ?_, fun t ht => ?_⟩
  · rw [tagsOf, putTag, hfilter, hcons]
  · simpa [Tag.precedes] using hbefore t ht
  · have hnext := (List.pairwise_cons.1 (List.pairwise_append.1 hsorted).2.1).1 t ht
    simpa [Tag.precedes] using hnext

/-- A tag whose name is new on its snapshot leaves no trace when it is removed. -/
theorem removeTag_putTag (hfree : ∀ t ∈ s.tags, t.snapshot = tag.snapshot → t.name ≠ tag.name) :
    (s.putTag tag).removeTag tag.snapshot tag.name = s := by
  have hkept : s.tags.filter (fun t => t.snapshot ≠ tag.snapshot || t.name ≠ tag.name) =
      s.tags := by
    refine List.filter_eq_self.2 fun t ht => ?_
    by_cases hsnapshot : t.snapshot = tag.snapshot
    · simp [hfree t ht hsnapshot]
    · simp [hsnapshot]
  rw [removeTag, putTag, List.filter_append, hkept]
  simp

end Store

/-! ### The operations -/

section

variable {c : Context} {p : Policy} {id : Id} {form : TagForm} {s s₀ s' : Store} {tag : Tag}
  {tags : List Tag}

/-- When a tag is added, and what that leaves. -/
theorem addTag_eq_ok_iff (s₀ : Store) :
    (∃ t, addTag c id form s₀ = .ok t ∧ t s = .ok (tags, s')) ↔
      (∃ n, s.MayTag n (form.tag c id)) ∧ s' = s.putTag (form.tag c id) ∧
        tags = s'.tagsOf id := by
  have hfree : (s.tags.all fun t => t.snapshot ≠ id || t.name ≠ (form.tag c id).name) ↔
      ∀ t ∈ s.tags, t.snapshot = id → t.name ≠ (form.tag c id).name := by
    simp only [List.all_eq_true, Bool.or_eq_true, decide_eq_true_eq, ← imp_iff_not_or]
  constructor
  · rintro ⟨t, hplan, ht⟩
    obtain ⟨hname, hplan⟩ := demand_bind_eq_ok_iff.1 hplan
    obtain rfl := Except.ok.inj hplan
    obtain ⟨n, hn, ht⟩ := bind_eq_ok_iff.1 ht
    obtain ⟨hdraft, ht⟩ := demand_bind_eq_ok_iff.1 ht
    obtain ⟨hnew, ht⟩ := demand_bind_eq_ok_iff.1 ht
    obtain ⟨hfits, ht⟩ := demand_bind_eq_ok_iff.1 ht
    obtain ⟨s₁, hinsert, ht⟩ := bind_eq_ok_iff.1 ht
    obtain ⟨rfl, rfl⟩ := Prod.mk.inj (Except.ok.inj ht)
    obtain ⟨hfind, hk⟩ := requireToWrite_eq_ok_iff.1 hn
    obtain ⟨-, rfl⟩ := node?_eq_some hfind
    obtain ⟨-, -, rfl⟩ := insertTag_eq_ok_iff.1 hinsert
    exact ⟨⟨n, hfind, hk, hdraft, hname, hfree.1 hnew, hfits⟩, rfl, rfl⟩
  · rintro ⟨⟨n, hmay⟩, rfl, rfl⟩
    obtain ⟨hmem, hid⟩ := node?_eq_some hmay.found
    obtain rfl : n.id = id := hid
    have hnew := hfree.2 hmay.free
    refine ⟨_, demand_bind_eq_ok_iff.2 ⟨hmay.named, rfl⟩, bind_eq_ok_iff.2 ⟨n,
      requireToWrite_eq_ok_iff.2 ⟨hmay.found, hmay.kind⟩,
      demand_bind_eq_ok_iff.2 ⟨hmay.committed, demand_bind_eq_ok_iff.2 ⟨hnew,
        demand_bind_eq_ok_iff.2 ⟨hmay.fits, bind_eq_ok_iff.2 ⟨s.putTag (form.tag c n.id),
          insertTag_eq_ok_iff.2 ⟨hnew, hasNode_of_mem hmem, rfl⟩, rfl⟩⟩⟩⟩⟩⟩

/-- A tag that is stored under the name given is removed. -/
theorem removeTag_of_mem (hs : s.IsTree) {n : Node} (hn : n ∈ s.ofKind .snapshot)
    (howner : ∀ owner ∈ form.snapshot, owner = "" ∨ owner = n.id) {t : Tag} (ht : t ∈ s.tags)
    (hsnapshot : t.snapshot = n.id) (hname : form.name = some t.name) :
    ∃ u, (Operation.removeTag n.id form).write c p s₀ = .ok u ∧
      u s = .ok (.tags ((s.removeTag n.id t.name).tagsOf n.id), s.removeTag n.id t.name) := by
  have hany : s.tags.any fun t => t.snapshot = n.id && some t.name = form.name :=
    List.any_eq_true.2 ⟨t, ht, by simp [hsnapshot, hname]⟩
  refine Write.exists_map_eq_ok_iff.2 ⟨_, rfl, _, demand_bind_eq_ok_iff.2 ⟨howner, rfl⟩,
    bind_eq_ok_iff.2 ⟨n, requireToRead_of_mem hs hn, demand_bind_eq_ok_iff.2 ⟨hany, ?_⟩⟩⟩
  rw [hname]
  rfl

/-- A tag that was just added is removed with the description that has its name, and all is as it
was. -/
theorem removeTag_of_putTag (hs : (s.putTag tag).IsTree) {n : Node} (hn : n ∈ s.ofKind .snapshot)
    (howner : ∀ owner ∈ form.snapshot, owner = "" ∨ owner = n.id) (hsnapshot : tag.snapshot = n.id)
    (hfree : ∀ t ∈ s.tags, t.snapshot = tag.snapshot → t.name ≠ tag.name)
    (hname : form.name = some tag.name) :
    ∃ u, (Operation.removeTag n.id form).write c p s₀ = .ok u ∧
      u (s.putTag tag) = .ok (.tags (s.tagsOf n.id), s) := by
  have hremoved := removeTag_putTag hfree
  rw [hsnapshot] at hremoved
  have hmem : tag ∈ (s.putTag tag).tags := List.mem_append_right _ List.mem_cons_self
  obtain ⟨u, hplan, hu⟩ : ∃ u, (Operation.removeTag n.id form).write c p s₀ = .ok u ∧
      u (s.putTag tag) = _ := removeTag_of_mem hs hn howner hmem hsnapshot hname
  rw [hremoved] at hu
  exact ⟨u, hplan, hu⟩

/-- If none is stored under that name, the removal is refused. -/
theorem removeTag_of_forall_ne (hs : s.IsTree) {n : Node} (hn : n ∈ s.ofKind .snapshot)
    (howner : ∀ owner ∈ form.snapshot, owner = "" ∨ owner = n.id)
    (hnone : ∀ t ∈ s.tags, t.snapshot = n.id → form.name ≠ some t.name) :
    ∃ u, (Operation.removeTag n.id form).write c p s₀ = .ok u ∧
      u s = .error (.refused (.noTag n.id form.name)) := by
  have hplan : ∃ u, removeTag n.id form s₀ = .ok u ∧
      u s = .error (.refused (.noTag n.id form.name)) := by
    refine ⟨_, demand_bind_eq_ok_iff.2 ⟨howner, rfl⟩, bind_eq_error_iff.2 (.inr ⟨n,
      requireToRead_of_mem hs hn, bind_eq_error_iff.2 (.inl (demand_eq_error_iff.2 ⟨?_, rfl⟩))⟩)⟩
    simp only [List.any_eq_true, Bool.and_eq_true, decide_eq_true_eq, not_exists, not_and]
    exact fun t ht hsnapshot he => hnone t ht hsnapshot he.symm
  obtain ⟨u, hu, hfails⟩ := hplan
  exact ⟨_, map_eq_ok_iff.2 ⟨u, hu, rfl⟩, map_eq_error_iff.2 hfails⟩

end

/-- With nobody else about, a transaction that fails leaves the archive as it is. -/
theorem Archive.run_alone_of_error {a : Archive} {s : Store} (hs : a.store = some s) {c : Context}
    {p : Policy} {o : Operation} {f : Failure}
    (h : ∃ t, o.write c p s = .ok t ∧ t s = .error f) :
    a.run .nothing id (o.call c p) = (.error f, a) := by
  obtain ⟨t, hplan, ht⟩ := h
  have halone : (o.write c p).alone s = .error f := by
    rw [Write.alone, hplan]
    exact ht
  rw [run_alone hs, halone]

/-! ### The names of tags -/

/-- A tag is one that was there, perhaps copied, unless it was just added. -/
theorem Operation.Effect.exists_tag {c : Context} {p : Policy} {o : Operation} {s s' : Store}
    (h : o.Effect c p s s') (ho : ∀ id form, o ≠ .addTag id form) {t : Tag} (ht : t ∈ s'.tags) :
    ∃ u ∈ s.tags, t.name = u.name := by
  cases h with
  | addTag => exact absurd rfl (ho _ _)
  | copyNodes =>
    rcases List.mem_append.1 ht with ht | ht
    · exact ⟨t, ht, rfl⟩
    · obtain ⟨source, -, ht⟩ := List.mem_flatMap.1 ht
      obtain ⟨n, -, ht⟩ := List.mem_flatMap.1 ht
      obtain ⟨u, hu, rfl⟩ := List.mem_map.1 ht
      exact ⟨u, (mem_namedTags_iff.1 hu).1, rfl⟩
  | deleteNode => exact ⟨t, List.mem_of_mem_filter ht, rfl⟩
  | deleteNodes => exact ⟨t, List.mem_of_mem_filter ht, rfl⟩
  | removeTag => exact ⟨t, List.mem_of_mem_filter ht, rfl⟩
  | _ => exact ⟨t, ht, rfl⟩

/-- An operation that succeeds stores names of tags without blanks around them. -/
theorem Operation.Succeeds.hasCleanTags {c : Context} {p : Policy} {o : Operation} {s s' : Store}
    {answer : Answer} (h : o.Succeeds c p s answer s') (hs : s.IsSound) (hclean : s.HasCleanTags) :
    s'.HasCleanTags := by
  intro t ht
  by_cases ho : ∃ id form, o = .addTag id form
  · obtain ⟨id, form, rfl⟩ := ho
    obtain ⟨s₀, hadd⟩ := h
    obtain ⟨tags, -, hadd⟩ := Write.exists_map_eq_ok_iff.1 hadd
    obtain ⟨-, rfl, -⟩ := (addTag_eq_ok_iff s₀).1 hadd
    rcases List.mem_append.1 ht with ht | ht
    · exact hclean t ht
    · rw [List.mem_singleton.1 ht]
      exact strip_strip _
  · obtain ⟨u, hu, hname⟩ := (h.effect hs).exists_tag (fun id form he => ho ⟨id, form, he⟩) ht
    rw [hname]
    exact hclean u hu

/-- So the names of the tags in every reachable store are. -/
theorem Service.Reachable.hasCleanTags {sv : Service} (h : sv.Reachable) {s : Store}
    (hs : sv.archive.store = some s) : s.HasCleanTags :=
  h.invariant (fun _ _ ht => nomatch ht) (fun hsound hok hclean => hok.hasCleanTags hsound hclean)
    hs

/-! ### Adding and removing in turn -/

/-- A tag came to a snapshot that can carry it, with an answer that lists the tags. -/
structure Archive.Gains (a b : Archive) (s : Store) (n : Node) (tag : Tag) (answer : Answer) :
    Prop where
  allowed : s.MayTag n tag
  after : b = { a with store := some (s.putTag tag) }
  sound : s.IsSound
  sound' : (s.putTag tag).IsSound
  clean : (s.putTag tag).HasCleanTags
  answered : answer = .tags ((s.putTag tag).tagsOf tag.snapshot)

/-- Tagging a snapshot that succeeds adds the stripped tag, and the store stays sound. -/
theorem Service.Reachable.gains {a b : Archive} {between : Archive → Archive}
    {ts us : List (Transaction Answer)} {s : Store} {hold : Hold} {c : Context} {p : Policy}
    {snapshot : Id} {form : TagForm} {answer : Answer} (h : Service.Reachable ⟨a, ts⟩)
    (hothers : Service.Run ⟨a, ts⟩ ⟨between a, us⟩) (hs : (between a).store = some s)
    (hcall : a.run hold between ((Operation.addTag snapshot form).call c p) = (.ok answer, b)) :
    ∃ n, (between a).Gains b s n (form.tag c snapshot) answer := by
  have hclean := (h.run hothers).hasCleanTags hs
  obtain ⟨s', rfl, hsound, hsound', hok⟩ := h.call_eq_ok hothers hs hcall
  have hclean' := hok.hasCleanTags hsound hclean
  obtain ⟨s₀, hok⟩ := hok
  obtain ⟨tags, rfl, hadd⟩ := Write.exists_map_eq_ok_iff.1 hok
  obtain ⟨⟨n, hmay⟩, rfl, rfl⟩ := (addTag_eq_ok_iff s₀).1 hadd
  exact ⟨n, hmay, rfl, hsound, hsound', hclean', rfl⟩

namespace Archive.Gains

variable {a b : Archive} {s : Store} {n : Node} {tag : Tag} {answer : Answer} {form : TagForm}
  {snapshot : Id} {c c₁ : Context} {p : Policy}

/-- The tag belongs to the snapshot. -/
theorem id_eq (h : a.Gains b s n tag answer) : n.id = tag.snapshot :=
  (node?_eq_some h.allowed.found).2

/-- What was tagged is a snapshot. -/
theorem mem_ofKind (h : a.Gains b s n tag answer) : n ∈ s.ofKind .snapshot :=
  mem_ofKind_iff.2 ⟨(node?_eq_some h.allowed.found).1, h.allowed.kind⟩

/-- The answer has the new tag behind the newer ones of the former list, and before all others. -/
theorem exists_listed (h : a.Gains b s n tag answer) (hs : a.store = some s) : ∃ before after,
    answer = .tags (before ++ tag :: after) ∧ s.tagsOf tag.snapshot = before ++ after ∧
      (Query.tags tag.snapshot).ask a = .ok (.tags (before ++ after)) ∧
      (∀ t ∈ before, tag.created < t.created) ∧ ∀ t ∈ after, t.created ≤ tag.created := by
  obtain ⟨before, after, hlisted, hold, hbefore, hafter⟩ := s.exists_tagsOf_append tag
  refine ⟨before, after, h.answered.trans (congrArg Answer.tags hlisted), hold, ?_, hbefore,
    hafter⟩
  have hask := (answers_listings h.sound.tree hs).tagsOf n h.mem_ofKind
  rw [h.id_eq] at hask
  exact hask.trans (congrArg (fun tags => Except.ok (Answer.tags tags)) hold)

/-- A description with the name of the new tag takes it away again. -/
theorem run_removeTag (h : a.Gains b s n tag answer) (hs : a.store = some s)
    (howner : ∀ owner ∈ form.snapshot, owner = "" ∨ owner = tag.snapshot)
    (hname : form.name = some tag.name) :
    b.run .nothing id ((Operation.removeTag tag.snapshot form).call c p) =
      (.ok (.tags (s.tagsOf tag.snapshot)), a) := by
  obtain ⟨-, hb, -, hsound', -, -⟩ := id h
  subst hb
  refine (run_alone_eq_ok_iff rfl).2 ⟨s, ?_, by rw [← hs]⟩
  rw [← h.id_eq] at howner ⊢
  exact removeTag_of_putTag hsound'.tree h.mem_ofKind howner h.id_eq.symm h.allowed.free hname

/-- A description with blanks around the name takes no tag away. -/
theorem run_removeTag_of_ne (h : a.Gains b s n (form.tag c snapshot) answer)
    (howner : ∀ owner ∈ form.snapshot, owner = "" ∨ owner = snapshot)
    (hname : form.name ≠ some (form.tag c snapshot).name) :
    b.run .nothing id ((Operation.removeTag snapshot form).call c₁ p) =
      (.error (.refused (.noTag snapshot form.name)), b) := by
  have hstore : b.store = some (s.putTag (form.tag c snapshot)) := congrArg Archive.store h.after
  refine run_alone_of_error hstore ?_
  obtain rfl : n.id = snapshot := h.id_eq
  refine removeTag_of_forall_ne h.sound'.tree h.mem_ofKind howner fun t ht _ he => ?_
  -- A tag with that name has no blanks around it.
  refine hname (he.trans (congrArg some ?_))
  rw [TagForm.tag, he, Option.getD_some, h.clean t ht]

end Archive.Gains

namespace Service

/-- A tag that is added is listed behind the newer ones and before all others. Removed with the same
description, it is gone and the archive is what it was, if the description has the name without
blanks around it. If not, the removal is refused, and the tag stays. -/
theorem Reachable.tag_added_removed {a b : Archive} {between : Archive → Archive}
    {ts us : List (Transaction Answer)} {s : Store} {hold : Hold} {c : Context} {p : Policy}
    {snapshot : Id} {form : TagForm} {answer : Answer} (h : Reachable ⟨a, ts⟩)
    (hothers : Run ⟨a, ts⟩ ⟨between a, us⟩) (hs : (between a).store = some s)
    (howner : ∀ owner ∈ form.snapshot, owner = "" ∨ owner = snapshot)
    (hcall : a.run hold between ((Operation.addTag snapshot form).call c p) = (.ok answer, b)) :
    ∃ before after tag, tag = form.tag c snapshot ∧ answer = .tags (before ++ tag :: after) ∧
      (Query.tags snapshot).ask (between a) = .ok (.tags (before ++ after)) ∧
      (∀ t ∈ before, tag.created < t.created) ∧ (∀ t ∈ after, t.created ≤ tag.created) ∧
      b = { between a with store := some (s.putTag tag) } ∧
      ∀ c₁ p₁, b.run .nothing id ((Operation.removeTag snapshot form).call c₁ p₁) =
        if form.name = some tag.name then (.ok (.tags (before ++ after)), between a)
        else (.error (.refused (.noTag snapshot form.name)), b) := by
  obtain ⟨n, hgains⟩ := h.gains hothers hs hcall
  obtain ⟨before, after, hanswer, hold, hask, hbefore, hafter⟩ := hgains.exists_listed hs
  refine ⟨before, after, _, rfl, hanswer, hask, hbefore, hafter, hgains.after, fun c₁ p₁ => ?_⟩
  rw [← hold]
  by_cases hname : form.name = some (form.tag c snapshot).name
  · rw [if_pos hname]
    exact hgains.run_removeTag hs howner hname
  · rw [if_neg hname]
    exact hgains.run_removeTag_of_ne howner hname

/-- The snapshot of a sample archive has one tag. -/
theorem exists_tag_tagged {ts : List (Transaction Answer)} (h : Reachable ⟨tagged, ts⟩) {s : Store}
    (hs : tagged.store = some s) :
    ∃ t, (Query.tags "s0").ask tagged = .ok (.tags [t]) ∧ t.created = 0 := by
  have hlisted : ∀ s ∈ tagged.store, (∃ n ∈ s.ofKind .snapshot, n.id = "s0") ∧
      (s.tagsOf "s0").map (·.created) = [0] := by
    decide +kernel
  obtain ⟨⟨n, hn, hid⟩, hcreated⟩ := hlisted s hs
  obtain ⟨t, ht, htime⟩ := List.map_eq_singleton_iff.1 hcreated
  have hask := (answers_listings (h.isSound_store hs).tree hs).tagsOf n hn
  rw [hid, show s.listings.tagsOf "s0" = [t] from ht] at hask
  exact ⟨t, hask, htime⟩

/-- An older tag is added beside another one, and removed again. -/
theorem tag_added_removed_tagged :
    let form : TagForm := ⟨some "n", none, none, some (-5), some "s0"⟩
    ∃ ts t u b, Reachable ⟨tagged, ts⟩ ∧ (Query.tags "s0").ask tagged = .ok (.tags [t]) ∧
      tagged.run .nothing id ((Operation.addTag "s0" form).call (supply "e") policy) =
        (.ok (.tags [t, u]), b) ∧ u.name = "n" ∧ u.created = -5 ∧
      b.run .nothing id ((Operation.removeTag "s0" form).call (supply "f") policy) =
        (.ok (.tags [t]), tagged) := by
  intro form
  obtain ⟨ts, h⟩ := reachable_tagged
  obtain ⟨⟨s, hs, -⟩, -⟩ := h.isSound
  obtain ⟨answer, hanswer⟩ := exists_answer tagged "e" (.addTag "s0" form) (by decide +kernel)
  have hidle : Run ⟨tagged, ts⟩ ⟨id tagged, ts⟩ := .refl
  have howner : ∀ owner ∈ form.snapshot, owner = "" ∨ owner = "s0" := by decide
  obtain ⟨before, after, u, rfl, rfl, hask, -, hafter, -, hremove⟩ :=
    h.tag_added_removed hidle hs howner hanswer
  obtain ⟨t, htags, htime⟩ := exists_tag_tagged h hs
  have hold : before ++ after = [t] := Answer.tags.inj (Except.ok.inj (hask.symm.trans htags))
  rcases List.append_eq_singleton_iff.1 hold with ⟨rfl, rfl⟩ | ⟨rfl, rfl⟩
  · -- The tag that is there is not older.
    have holder : t.created ≤ -5 := hafter t List.mem_cons_self
    omega
  have hremoved := hremove (supply "f") policy
  have hname : form.name = some (form.tag (supply "e") "s0").name := by decide +kernel
  rw [if_pos hname] at hremoved
  exact ⟨ts, t, _, _, h, htags, hanswer, by decide +kernel, rfl, hremoved⟩

/-! ### Names with blanks around them -/

/-- A tag is added under the name of a description with blanks around it. With the same description
it is not removed. -/
theorem tag_stays_blank :
    let form : TagForm := ⟨some " n ", none, none, none, none⟩
    ∃ ts t u b, Reachable ⟨tagged, ts⟩ ∧ (Query.tags "s0").ask tagged = .ok (.tags [t]) ∧
      tagged.run .nothing id ((Operation.addTag "s0" form).call (supply "e") policy) =
        (.ok (.tags [u, t]), b) ∧ u.name = "n" ∧
      b.run .nothing id ((Operation.removeTag "s0" form).call (supply "f") policy) =
        (.error (.refused (.noTag "s0" (some " n "))), b) := by
  intro form
  obtain ⟨ts, h⟩ := reachable_tagged
  obtain ⟨⟨s, hs, -⟩, -⟩ := h.isSound
  obtain ⟨answer, hanswer⟩ := exists_answer tagged "e" (.addTag "s0" form) (by decide +kernel)
  have hidle : Run ⟨tagged, ts⟩ ⟨id tagged, ts⟩ := .refl
  obtain ⟨n, hgains⟩ := h.gains hidle hs hanswer
  obtain ⟨before, after, rfl, -, hask, hbefore, -⟩ := hgains.exists_listed hs
  obtain ⟨t, htags, htime⟩ := exists_tag_tagged h hs
  have hold : before ++ after = [t] := Answer.tags.inj (Except.ok.inj (hask.symm.trans htags))
  rcases List.append_eq_singleton_iff.1 hold with ⟨rfl, rfl⟩ | ⟨rfl, rfl⟩
  swap
  · -- The tag that is there is not newer.
    have hnewer : 0 < t.created := hbefore t List.mem_cons_self
    omega
  have howner : ∀ owner ∈ form.snapshot, owner = "" ∨ owner = "s0" := by decide
  have hname : form.name ≠ some (form.tag (supply "e") "s0").name := by decide +kernel
  exact ⟨ts, t, _, _, h, htags, hanswer, by decide +kernel,
    hgains.run_removeTag_of_ne howner hname⟩

end Service

end SnapshotArchive
