import SnapshotArchive.Proofs.Captures
import SnapshotArchive.Proofs.Locality.Requests
import SnapshotArchive.Proofs.Paths
import SnapshotArchive.Proofs.Variables

/-!
# What updating a configuration leaves

An update is answered exactly if its checks pass in the store as it is then (`Store.MayUpdate`), and
leaves the configuration as it was given, with its variables made those of the list
(`Store.relist`). So a second update with the same list finds the variables as it would make them.

* `updateConfiguration_eq_ok_iff` : when an update succeeds, and what it leaves.
* `Service.Reachable.list_applied` : what clients find when they have updated a configuration.
-/

namespace SnapshotArchive

open Text Store Archive

/-- The name that a configuration is given, without blanks around it. -/
@[irreducible] def ConfigurationForm.title (form : ConfigurationForm) : String :=
  strip (form.node.name.getD "")

/-- The check of the name passes if the stripped name is proper, and gives that. -/
theorem ConfigurationForm.checkName_eq_ok_iff {form : ConfigurationForm} {what name : String} :
    checkName what form.node.name = .ok name ↔ name = form.title ∧ IsName name := by
  rw [title]
  exact SnapshotArchive.checkName_eq_ok_iff

/-- The list that a configuration is given, with its names stripped. -/
def ConfigurationForm.list (form : ConfigurationForm) : List PvForm :=
  form.pvs.map PvForm.cleaned

/-- What an update of a configuration asks for: the list passes its check, and so do the version and
the name, which no other configuration beside it has. -/
structure Store.MayUpdate (s : Store) (form : ConfigurationForm) (n : Node) : Prop where
  found : s.node? form.node.id = some n
  kind : n.kind = .configuration
  accepted : cleanPvs form.pvs = .ok form.list
  version : form.node.version = 0 ∨ form.node.version = n.version
  named : IsName form.title
  free : ∀ o ∈ s.nodes, holdsName n.parent .configuration form.title o → o.id = n.id

/-- The store with a configuration and its variables as they are given. -/
def Store.configure (s : Store) (c : Context) (form : ConfigurationForm) (user : Option String)
    (n : Node) : Store :=
  (s.replaceNode (n.configured c form form.title user)).relist c n.id form.list

/-! ### The list -/

/-- The check of the list passes if it can be cleaned, and gives the cleaned list. -/
theorem checkPvs_eq_ok_iff {form : ConfigurationForm} {forms : List PvForm} :
    checkPvs form.pvs = .ok forms ↔ cleanPvs form.pvs = .ok form.list ∧ forms = form.list := by
  rw [checkPvs_ok_iff]
  constructor
  · intro hclean
    obtain ⟨-, rfl⟩ := cleanPvs_eq_ok_iff.1 hclean
    exact ⟨hclean, rfl⟩
  · rintro ⟨hclean, rfl⟩
    exact hclean

/-- The entries of the cleaned list have clean names. -/
theorem ConfigurationForm.name_of_mem_list {form : ConfigurationForm} :
    ∀ pv ∈ form.list, pv.name = some pv.cleanName := by
  intro pv hpv
  obtain ⟨q, -, rfl⟩ := List.mem_map.1 hpv
  rw [q.cleanName_cleaned]
  rfl

namespace Store

variable {s : Store} {c : Context} {n : Node} {form : ConfigurationForm}

/-- A list whose names differ is brought in, and what is not in it is taken off. -/
theorem IsOwned.replacePvs_eq (hs : s.IsOwned) (hinj : Function.Injective c.fresh)
    (hfresh : ∀ j, (s.pv? (c.fresh j)).isNone) {config : Id} {forms : List PvForm}
    (hnodup : (forms.map PvForm.cleanName).Nodup) (hconfig : s.hasNode config) :
    s.replacePvs c config forms = .ok (s.relist c config forms) := by
  obtain ⟨listed, hlisted⟩ : ∃ listed, s.listPvs c config 0 0 forms s = .ok listed :=
    listPvs_ok hs hinj hfresh hnodup (fun _ _ => List.not_mem_nil) (.start hs.pvIds hconfig)
  have hreplace : s.replacePvs c config forms = .ok _ := bind_eq_ok_iff.2 ⟨listed, hlisted, rfl⟩
  rw [hreplace, replacePvs_eq_ok hs.pvIds hreplace]

/-- A node is read if it is stored and of the kind. -/
theorem requireToRead_eq_ok_iff {id : Id} {kind : Kind} :
    s.requireToRead id kind = .ok n ↔ s.node? id = some n ∧ n.kind = kind := by
  rw [requireToRead, bind_eq_ok_iff]
  simp only [require_eq_ok_iff, demand_bind_eq_ok_iff, pure, Except.pure, Except.ok.injEq]
  constructor
  · rintro ⟨m, hm, hk, rfl⟩
    exact ⟨hm, hk⟩
  · rintro ⟨hn, hk⟩
    exact ⟨n, hn, hk, rfl⟩

/-- The name of a configuration is checked unless it stays, and passes if no other one beside it has
the name. -/
theorem checkTitle_eq_ok_iff (hs : s.IsSound) (hn : n ∈ s.nodes) (hk : n.kind = .configuration)
    {title : String} :
    (if title = n.name then .ok () else s.checkNameFree n.parent .configuration title n.id) =
        .ok () ↔ ∀ o ∈ s.nodes, holdsName n.parent .configuration title o → o.id = n.id := by
  split
  · rename_i hname
    refine iff_of_true rfl fun o ho hholds => ?_
    obtain ⟨-, hop, hok, honame, hod⟩ := holdsName_iff.1 hholds
    have hd : n.draft = false :=
      hs.named.draft_eq_false_of_kind hn fun he => by cases hk.symm.trans he
    exact congrArg Node.id (hs.named.siblings o ho n hn hod hd hop (hok.trans hk.symm)
      (honame.trans hname))
  · constructor
    · intro hfree o ho hholds
      exact (Option.some.inj (eq_of_checkNameFree hs.named hfree ho hholds)).symm
    · intro hfree
      refine checkNameFree_eq_ok_iff.2 fun holder hholder => congrArg some (Eq.symm ?_)
      exact hfree holder (List.mem_of_find?_eq_some hholder) (List.find?_some hholder)

end Store

/-! ### What an update does -/

section

variable {c : Context} {p : Policy} {s₀ s s' : Store} {form : ConfigurationForm}
  {user : Option String} {found : Configuration} {answer : Answer} {n : Node}

/-- An updated configuration is one. -/
theorem kind_configured {title : String} :
    (n.configured c form title user).kind = .configuration :=
  form.isConfiguration

/-- What an update makes of a configuration belongs where that was. -/
theorem isOwned_replaceNode_configured (hs : s.IsSound) (hn : n ∈ s.nodes)
    (hk : n.kind = .configuration) (title : String) :
    (s.replaceNode (n.configured c form title user)).IsOwned :=
  hs.owned.changeNode hs.tree hn rfl (kind_configured.trans hk.symm) id (.inl rfl)

/-- The row of the configuration can be changed if its name is free. -/
theorem changeNode_configured (hs : s.IsSound) (hn : n ∈ s.nodes) {title : String}
    (hfree : ∀ o ∈ s.nodes, holdsName n.parent .configuration title o → o.id = n.id) :
    s.changeNode n.id (·.configured c form title user) =
      .ok (s.replaceNode (n.configured c form title user)) := by
  have hk : (n.configured c form title user).kind = .configuration := kind_configured
  refine changeNode_ok hs.tree hn rfl (.inl rfl) fun _ o ho hne hholds => hne (hfree o ho ?_)
  exact hk ▸ hholds

namespace Store.MayUpdate

variable (h : s.MayUpdate form n)

include h

/-- The clean names of the list differ. -/
theorem nodup : (form.list.map PvForm.cleanName).Nodup :=
  checkPvs_nodup (checkPvs_eq_ok_iff.2 ⟨h.accepted, rfl⟩)

variable (hs : s.IsSound)

include hs

/-- With the row changed, everything still has its owner. -/
theorem isOwned_replaceNode : (s.replaceNode (n.configured c form form.title user)).IsOwned :=
  isOwned_replaceNode_configured hs (node?_eq_some h.found).1 h.kind form.title

variable (hfresh : c.IsFreshFor s)

include hfresh

/-- The list then takes the place of the old one. -/
theorem replacePvs_eq : (s.replaceNode (n.configured c form form.title user)).replacePvs c n.id
    form.list = .ok (s.configure c form user n) := by
  refine (h.isOwned_replaceNode hs).replacePvs_eq hfresh.injective hfresh.pvs h.nodup ?_
  exact hasNode_iff.2 ⟨_, mem_replaceNode_self (node?_eq_some h.found).1 rfl, rfl⟩

/-- What belongs to others is kept meanwhile. -/
theorem keepsOthers : (s.replaceNode (n.configured c form form.title user)).KeepsOthers n.id
    (s.configure c form user n) :=
  replacePvs_keepsOthers hs.owned.pvIds (h.replacePvs_eq hs hfresh)

/-- After the update the changed row is found. -/
theorem node?_configure : (s.configure c form user n).node? n.id =
    some (n.configured c form form.title user) := by
  have hids : ((s.replaceNode (n.configured c form form.title user)).nodes.map (·.id)).Nodup := by
    rw [map_id_replaceNode]
    exact hs.tree.nodup
  rw [node?, (h.keepsOthers hs hfresh).nodes]
  exact node?_of_mem hids (mem_replaceNode_self (node?_eq_some h.found).1 rfl)

/-- It can be read as a configuration. -/
theorem requireToRead_configure : (s.configure c form user n).requireToRead n.id .configuration =
    .ok (n.configured c form form.title user) :=
  requireToRead_eq_ok_iff.2 ⟨h.node?_configure hs hfresh, kind_configured⟩

/-- What an update leaves when its checks have passed, and what it answers. -/
theorem configure_eq :
    (do
      let s₁ ← s.changeNode n.id (·.configured c form form.title user)
      let s₂ ← s₁.replacePvs c n.id form.list
      return (← s₂.configuration n.id, s₂)) =
      .ok (⟨n.configured c form form.title user, (s.configure c form user n).activePvs n.id⟩,
        s.configure c form user n) := by
  have hchange : s.changeNode n.id (·.configured c form form.title user) = .ok _ :=
    changeNode_configured hs (node?_eq_some h.found).1 h.free
  have hread : (s.configure c form user n).configuration n.id = .ok _ :=
    bind_eq_ok_iff.2 ⟨_, h.requireToRead_configure hs hfresh, rfl⟩
  exact bind_eq_ok_iff.2 ⟨_, hchange, bind_eq_ok_iff.2 ⟨_, h.replacePvs_eq hs hfresh,
    bind_eq_ok_iff.2 ⟨_, hread, rfl⟩⟩⟩

/-- The variables are made those of the list. -/
theorem appliesList (ht : (s.configure c form user n).IsOwned) :
    AppliesList c n.id form.list s (s.configure c form user n) := by
  have happlied := (h.isOwned_replaceNode hs).appliesList_relist hfresh.injective hfresh.pvs h.nodup
    form.name_of_mem_list ht (h.keepsOthers hs hfresh)
  exact { happlied with }

/-- The form passes again with the version that was answered, or with none. -/
theorem again {form₁ : ConfigurationForm} (hid : form₁.node.id = form.node.id)
    (hpvs : form₁.pvs = form.pvs) (hname : form₁.node.name = form.node.name)
    (hversion : form₁.node.version = 0 ∨
      form₁.node.version = (n.configured c form form.title user).version) :
    (s.configure c form user n).MayUpdate form₁ (n.configured c form form.title user) := by
  have htitle : form₁.title = form.title := by
    rw [ConfigurationForm.title, hname, ConfigurationForm.title]
  have hlist : form₁.list = form.list := by rw [ConfigurationForm.list, hpvs]; rfl
  obtain ⟨-, hnid⟩ := node?_eq_some h.found
  refine ⟨?_, kind_configured, ?_, hversion, htitle ▸ h.named, fun o ho hholds => ?_⟩
  · rw [hid, ← hnid]
    exact h.node?_configure hs hfresh
  · rw [hpvs, hlist]
    exact h.accepted
  · rw [(h.keepsOthers hs hfresh).nodes] at ho
    rcases mem_replaceNode_iff.1 ho with ⟨rfl, -⟩ | ⟨ho, -⟩
    · rfl
    · exact h.free o ho (htitle ▸ hholds)

/-- Another update with the same list finds the variables as it would make them. -/
theorem pvs_configure_again {c₁ : Context} {form₁ : ConfigurationForm} {user₁ : Option String}
    {n₁ : Node} (ht : (s.configure c form user n).IsSound)
    (h₁ : (s.configure c form user n).MayUpdate form₁ n₁) (hid : form₁.node.id = form.node.id)
    (hpvs : form₁.pvs = form.pvs) :
    ((s.configure c form user n).configure c₁ form₁ user₁ n₁).pvs =
      (s.configure c form user n).pvs := by
  have hlist : form₁.list = form.list := by rw [ConfigurationForm.list, hpvs]; rfl
  have hn : n₁.id = n.id := by
    rw [(node?_eq_some h₁.found).2, (node?_eq_some h.found).2, hid]
  have hlisted : (s.configure c form user n).activePvs n.id =
      (s.replaceNode (n.configured c form form.title user)).listedFor c n.id 0 0 form.list :=
    activePvs_relist (h.isOwned_replaceNode hs)
      (listsApart (h.isOwned_replaceNode hs).pvIds hfresh.injective hfresh.pvs h.nodup)
  have howned : ((s.configure c form user n).replaceNode
      (n₁.configured c₁ form₁ form₁.title user₁)).IsOwned := h₁.isOwned_replaceNode ht
  rw [configure, hlist, hn, howned.relist_of_listed hlisted]
  rfl

end Store.MayUpdate

/-! ### The operation -/

/-- When an update succeeds, and what it leaves. -/
theorem updateConfiguration_eq_ok_iff (hs : s.IsSound) (hfresh : c.IsFreshFor s) (s₀ : Store) :
    (∃ t, updateConfiguration c form user s₀ = .ok t ∧ t s = .ok (found, s')) ↔
      ∃ n, s.MayUpdate form n ∧
        s' = s.configure c form user n ∧
        found = ⟨n.configured c form form.title user, s'.activePvs n.id⟩ := by
  constructor
  · rintro ⟨t, hplan, ht⟩
    obtain ⟨name, hname, hplan⟩ := bind_eq_ok_iff.1 hplan
    obtain ⟨pvs, hpvs, hplan⟩ := bind_eq_ok_iff.1 hplan
    obtain rfl := Except.ok.inj hplan
    obtain ⟨n, hn, ht⟩ := bind_eq_ok_iff.1 ht
    obtain ⟨hversion, ht⟩ := demand_bind_eq_ok_iff.1 ht
    obtain ⟨_, hfree, ht⟩ := ite_bind_eq_ok ht
    obtain ⟨rfl, hname⟩ := form.checkName_eq_ok_iff.1 hname
    obtain ⟨haccepted, rfl⟩ := checkPvs_eq_ok_iff.1 hpvs
    obtain ⟨hfind, hk⟩ := requireToWrite_eq_ok_iff.1 hn
    have hmay : s.MayUpdate form n := ⟨hfind, hk, haccepted, hversion, hname,
      (checkTitle_eq_ok_iff hs (node?_eq_some hfind).1 hk).1 hfree⟩
    obtain ⟨rfl, rfl⟩ := Prod.mk.inj (Except.ok.inj (ht.symm.trans (hmay.configure_eq hs hfresh)))
    exact ⟨n, hmay, rfl, rfl⟩
  · rintro ⟨n, hmay, rfl, rfl⟩
    refine ⟨_, bind_eq_ok_iff.2 ⟨_, form.checkName_eq_ok_iff.2 ⟨rfl, hmay.named⟩,
      bind_eq_ok_iff.2 ⟨_, checkPvs_eq_ok_iff.2 ⟨hmay.accepted, rfl⟩, rfl⟩⟩, ?_⟩
    have hfree := (checkTitle_eq_ok_iff hs (node?_eq_some hmay.found).1 hmay.kind).2 hmay.free
    exact bind_eq_ok_iff.2 ⟨n, requireToWrite_eq_ok_iff.2 ⟨hmay.found, hmay.kind⟩,
      demand_bind_eq_ok_iff.2 ⟨hmay.version, ite_bind_eq_ok_iff.2 ⟨(), hfree,
        hmay.configure_eq hs hfresh⟩⟩⟩

/-- When the operation succeeds, wherever it was planned, and what it leaves. -/
theorem Operation.write_updateConfiguration_iff (hs : s.IsSound) (hfresh : c.IsFreshFor s) :
    (∃ t, (updateConfiguration form user).write c p s₀ = .ok t ∧ t s = .ok (answer, s')) ↔
      ∃ n, s.MayUpdate form n ∧ s' = s.configure c form user n ∧
        answer = .configuration ⟨n.configured c form form.title user, s'.activePvs n.id⟩ := by
  refine Iff.trans (Write.exists_map_eq_ok_iff (f := Answer.configuration)) ?_
  simp only [updateConfiguration_eq_ok_iff hs hfresh s₀]
  constructor
  · rintro ⟨found, rfl, n, hmay, hs', rfl⟩
    exact ⟨n, hmay, hs', rfl⟩
  · rintro ⟨n, hmay, hs', rfl⟩
    exact ⟨_, rfl, n, hmay, hs', rfl⟩

/-- The identifiers in the list of an update do not matter. -/
theorem updateConfiguration_anonymous :
    SnapshotArchive.updateConfiguration c { form with pvs := form.pvs.map PvForm.anonymous } user =
      SnapshotArchive.updateConfiguration c form user := by
  funext s₀
  unfold SnapshotArchive.updateConfiguration
  simp only [checkPvs_map_anonymous]
  refine bind_congr fun name => ?_
  cases checkPvs form.pvs with
  | error f => rfl
  | ok forms =>
    refine congrArg Except.ok (funext fun s => ?_)
    simp only [replacePvs_map_anonymous]

/-- The identifiers in a list make no difference to an update. -/
theorem Operation.call_updateConfiguration_anonymous :
    (updateConfiguration { form with pvs := form.pvs.map PvForm.anonymous } user).call c p =
      (updateConfiguration form user).call c p := by
  have hwrite : (updateConfiguration { form with pvs := form.pvs.map PvForm.anonymous } user).write
      c p = (updateConfiguration form user).write c p :=
    congrArg (Write.map Answer.configuration) updateConfiguration_anonymous
  exact congrArg Call.write hwrite

end

namespace Sample

/-- The configuration is to list another variable; the identifier in the list is not that one's. -/
def relisted : ConfigurationForm :=
  { configuration with
    node := { configuration.node with id := "c0" }
    pvs := [⟨some " w ", none, false, some "c1"⟩] }

/-- The list that names another variable may be given. -/
theorem mayUpdate_relisted {s : Store} (hs : committed.store = some s) (hsound : s.IsSound) :
    ∃ n, s.MayUpdate relisted n := by
  have hconfig : ∀ s ∈ committed.store, ∃ n ∈ s.nodes, n.id = "c0" ∧ n.kind = .configuration ∧
      ∀ o ∈ s.nodes, holdsName n.parent .configuration "c" o → o.id = n.id := by
    decide +kernel
  obtain ⟨n, hn, hid, hk, hfree⟩ := hconfig s hs
  have hfind : s.node? "c0" = some n := hid ▸ node?_of_mem hsound.tree.nodup hn
  have hname : checkName "Configuration" relisted.node.name = .ok "c" := rfl
  obtain ⟨htitle, hnamed⟩ := relisted.checkName_eq_ok_iff.1 hname
  exact ⟨n, hfind, hk, rfl, .inl rfl, htitle ▸ hnamed, htitle ▸ hfree⟩

end Sample

namespace Service

open Sample

/-- An update of a configuration is answered if its checks pass, whatever identifiers its list has.
From then on the configuration lists just the list, and a name keeps the identifier that it had;
what becomes of the other variables is in `Store.AppliesList`. The same list can be given again, and
changes no variable then. -/
theorem Reachable.list_applied {a : Archive} {between : Archive → Archive}
    {ts us : List (Transaction Answer)} {s : Store} {c : Context} (h : Reachable ⟨a, ts⟩)
    (hothers : Run ⟨a, ts⟩ ⟨between a, us⟩) (hs : (between a).store = some s)
    (hfresh : c.IsFreshFor s) (hold : Hold) (p : Policy) (form : ConfigurationForm)
    (user : Option String) :
    let update (form : ConfigurationForm) := a.run hold between
      ((Operation.updateConfiguration form user).call c p)
    (hold = .nothing → ∀ n, s.MayUpdate form n →
      ∃ found b, update form = (.ok (.configuration found), b)) ∧
    (∀ pvs, pvs.map PvForm.anonymous = form.pvs.map PvForm.anonymous →
      update { form with pvs } = update form) ∧
    ∀ answer b, update form = (.ok answer, b) → ∃ n found s', s.MayUpdate form n ∧
      answer = .configuration found ∧ b = { between a with store := some s' } ∧
      (Query.listedPvs n.id).ask b = .ok (.pvs found.pvs) ∧ found.pvs = s'.activePvs n.id ∧
      AppliesList c n.id form.list s s' ∧
      ∀ c₁ p₁ form₁ user₁, c₁.IsFreshFor s' → form₁.node.id = form.node.id →
        form₁.pvs = form.pvs →
        let again := b.run .nothing id ((Operation.updateConfiguration form₁ user₁).call c₁ p₁)
        (form₁.node.name = form.node.name →
          form₁.node.version = 0 ∨ form₁.node.version = found.node.version →
          ∃ answer₁ b₁, again = (.ok answer₁, b₁)) ∧
        ∀ answer₁ b₁, again = (.ok answer₁, b₁) →
          ∃ s₁, b₁.store = some s₁ ∧ s₁.pvs = s'.pvs := by
  intro update
  obtain ⟨⟨s₀, hs₀, -⟩, -⟩ := h.isSound
  have hsound := (h.run hothers).isSound_store hs
  refine ⟨fun hhold n hmay => ?_, fun pvs hpvs => ?_, fun answer b hcall => ?_⟩
  · subst hhold
    obtain ⟨t, hplan, ht⟩ : ∃ t, (Operation.updateConfiguration form user).write c p s₀ = .ok t ∧
        t s = .ok (_, s.configure c form user n) :=
      (Operation.write_updateConfiguration_iff hsound hfresh).2 ⟨n, hmay, rfl, rfl⟩
    have hrun : update form = (between a).finish .nothing t :=
      run_of_plan_ok hs₀ (fun _ => rfl) hplan
    rw [hrun, finish_nothing_of_ok hs ht]
    exact ⟨_, _, rfl⟩
  · have hcall (form : ConfigurationForm) :
        update { form with pvs := form.pvs.map PvForm.anonymous } = update form :=
      congrArg (a.run hold between) Operation.call_updateConfiguration_anonymous
    calc update { form with pvs }
      _ = update { form with pvs := pvs.map PvForm.anonymous } := (hcall { form with pvs }).symm
      _ = update { form with pvs := form.pvs.map PvForm.anonymous } := by rw [hpvs]
      _ = update form := hcall form
  · obtain ⟨s', rfl, -, hsound', hok⟩ := h.call_eq_ok hothers hs hcall
    obtain ⟨s₁, t, hplan, ht⟩ := hok
    obtain ⟨n, hmay, rfl, rfl⟩ :=
      (Operation.write_updateConfiguration_iff hsound hfresh).1 ⟨t, hplan, ht⟩
    refine ⟨n, _, _, hmay, rfl, rfl, ?_, rfl, hmay.appliesList hsound hfresh hsound'.owned, ?_⟩
    · refine (read_of_store rfl _).trans ?_
      rw [Query.answer, listedPvs, hmay.requireToRead_configure hsound hfresh]
      rfl
    · intro c₁ p₁ form₁ user₁ hfresh₁ hid hpvs again
      refine ⟨fun hname hversion => ?_, fun answer₁ b₁ hagain => ?_⟩
      · exact ⟨_, _, (run_alone_eq_ok_iff rfl).2 ⟨_, (Operation.write_updateConfiguration_iff
          hsound' hfresh₁).2 ⟨_, hmay.again hsound hfresh hid hpvs hname hversion, rfl, rfl⟩, rfl⟩⟩
      · obtain ⟨s₂, hok, rfl⟩ := (run_alone_eq_ok_iff rfl).1 hagain
        obtain ⟨n₁, hmay₁, rfl, -⟩ :=
          (Operation.write_updateConfiguration_iff hsound' hfresh₁).1 hok
        exact ⟨_, rfl, hmay.pvs_configure_again hsound hfresh hsound' hmay₁ hid hpvs⟩

/-- A variable that a snapshot refers to is no longer listed, and another one is, not under the
identifier that was given for it. The list is given again. -/
theorem list_applied_committed :
    let update (a : Archive) (stem : String) := a.run .nothing id
      ((Operation.updateConfiguration relisted (some "u")).call (supply stem) policy)
    ∃ b found s s' q, update committed "e" = (.ok (.configuration found), b) ∧
      committed.store = some s ∧ b.store = some s' ∧ found.pvs = [q] ∧
      (Query.listedPvs "c0").ask b = .ok (.pvs [q]) ∧ q.name = "w" ∧ s.pv? q.id = none ∧
      (s'.pv? "c1").map (fun pv => (pv.name, pv.active)) = some ("v", false) ∧
      s'.items = s.items ∧ ∃ answer₁ b₁ s₁, update b "f" = (.ok answer₁, b₁) ∧
        b₁.store = some s₁ ∧ s₁.pvs = s'.pvs := by
  intro update
  obtain ⟨ts, h⟩ := reachable_committed
  obtain ⟨⟨s, hs, -⟩, -⟩ := h.isSound
  have hids : ∀ s ∈ committed.store, (∀ n ∈ s.nodes, ¬ "e".toList <+: n.id.toList) ∧
      ∀ pv ∈ s.pvs, ¬ "e".toList <+: pv.id.toList := by
    decide +kernel
  have hids₁ : ∀ s ∈ (perform "e" (.updateConfiguration relisted (some "u")) committed).store,
      (∀ n ∈ s.nodes, ¬ "f".toList <+: n.id.toList) ∧
      ∀ pv ∈ s.pvs, ¬ "f".toList <+: pv.id.toList := by
    decide +kernel
  have hbefore : ∀ s ∈ committed.store, ∃ o ∈ s.pvs, o.id = "c1" ∧ o.config = "c0" ∧ o.active ∧
      o.name = "v" ∧ s.isReferenced "c1" ∧ ∀ o ∈ s.pvs, o.name ≠ "w" := by
    decide +kernel
  have hidle : Run ⟨committed, ts⟩ ⟨id committed, ts⟩ := .refl
  obtain ⟨n, hmay⟩ := mayUpdate_relisted hs (h.isSound_store hs)
  obtain ⟨hanswered, -, heffect⟩ := h.list_applied hidle hs
    (isFreshFor_supply (hids s hs).1 (hids s hs).2) .nothing policy relisted (some "u")
  obtain ⟨found, b, hupdate⟩ := hanswered rfl n hmay
  obtain ⟨m, found', s', hmay', hfound, hb, hask, hlisted, happlied, hagain⟩ :=
    heffect _ _ hupdate
  obtain rfl := Answer.configuration.inj hfound
  obtain rfl := Option.some.inj (hmay.found.symm.trans hmay'.found)
  have hid : n.id = "c0" := (node?_eq_some hmay.found).2
  have hs' : b.store = some s' := by rw [hb]
  have hafter : (perform "e" (.updateConfiguration relisted (some "u")) committed).store =
      some s' := (congrArg (fun r => r.2.store) hupdate).trans hs'
  obtain ⟨o, ho, hoid, hoc, hactive, hname, href, hnew⟩ := hbefore s hs
  -- The list has one entry, and no variable had its name.
  have hsingle := happlied.listed
  rw [← hlisted] at hsingle
  obtain ⟨q, hq, hform⟩ := List.map_eq_singleton_iff.1 hsingle
  have hqname : q.name = "w" := Option.some.inj (congrArg PvForm.name hform)
  have hmem : q ∈ s'.activePvs n.id := hlisted ▸ hq ▸ List.mem_singleton_self q
  obtain ⟨-, hqnew⟩ := happlied.new q hmem fun r hr _ => hqname ▸ hnew r hr
  have hdropped := happlied.dropped o ho (hoc.trans hid.symm) hactive (by rw [hname]; decide)
  rw [hoid, if_pos href] at hdropped
  obtain ⟨hsame, hpvs⟩ := hagain (supply "f") policy relisted (some "u")
    (isFreshFor_supply (hids₁ s' hafter).1 (hids₁ s' hafter).2) rfl rfl
  obtain ⟨answer₁, b₁, hanswered₁⟩ := hsame rfl (.inl rfl)
  obtain ⟨s₁, hs₁, hsame₁⟩ := hpvs answer₁ b₁ hanswered₁
  refine ⟨b, found, s, s', q, hupdate, hs, hs', hq, ?_, hqname, hqnew, ?_, happlied.items,
    answer₁, b₁, s₁, hanswered₁, hs₁, hsame₁⟩
  · rw [← hid, ← hq]
    exact hask
  · rw [hdropped, Option.map_some, hname]

end Service

end SnapshotArchive
