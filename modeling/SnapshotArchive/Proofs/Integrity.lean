import SnapshotArchive.Proofs.Clients

/-!
# The integrity of an archive

What holds of the tables of an archive whatever its clients have done since it was initialised: any
operations, succeeding or failing, in any interleaving of their phases, with any identifiers that
are generated for them. Nothing is assumed of these: an operation that is given an identifier in use
fails.

* `Service.Reachable.one_tree` : the nodes form one tree.
* `Service.Reachable.names_apart` : names are names, and siblings of a kind differ in them.
* `Service.Reachable.payload_owned` : variables, items and tags have their owners.
-/

namespace SnapshotArchive

open Text Archive

/-! ### A sample of work -/

namespace Sample

/-- Identifiers that start with a stem. -/
def supply (stem : String) : Context := ⟨0, fun j => stem ++ toString j⟩

/-- The policy under which a copy gets a suffix. -/
def policy : Policy := ⟨.suffix, true⟩

/-- What a client does without interruption. -/
def perform (stem : String) (o : Operation) (a : Archive) : Archive :=
  (a.run .nothing id (o.call (supply stem) policy)).2

/-- A node as a client describes it. -/
def form (name : String) (content : Content) : NodeForm where
  id := ""
  parent := none
  name := some name
  content
  properties := .empty
  created := 0
  modified := 0
  user := none
  version := 0

/-- A folder in the root. -/
def folder : Archive :=
  perform "a" (.createNode rootId (form "a" .folder) (some "u")) (initialised false 0)

/-- What a client does is a run. -/
theorem run_perform {a : Archive} {s : Store} (hs : a.store = some s)
    (ts : List (Transaction Answer)) (stem : String) (o : Operation) :
    ∃ us, Service.Run ⟨a, ts⟩ ⟨perform stem o a, us⟩ := by
  have hidle : Service.Run ⟨a, ts⟩ ⟨id a, ts⟩ := .refl
  exact hidle.run hs .nothing (supply stem) policy o

/-- What a client makes of a reachable archive without interruption is reachable. -/
theorem reachable_perform {a : Archive} {ts : List (Transaction Answer)}
    (h : Service.Reachable ⟨a, ts⟩) (stem : String) (o : Operation) :
    ∃ us, Service.Reachable ⟨perform stem o a, us⟩ := by
  obtain ⟨⟨s, hs, -⟩, -⟩ := h.isSound
  obtain ⟨writeAhead, now, hrun⟩ := h
  obtain ⟨us, hperform⟩ := run_perform hs ts stem o
  exact ⟨us, writeAhead, now, hrun.trans hperform⟩

/-- The archive with a folder can be reached. -/
theorem reachable_folder : ∃ ts, Service.Reachable ⟨folder, ts⟩ :=
  reachable_perform ⟨false, 0, .refl⟩ "a" (.createNode rootId (form "a" .folder) (some "u"))

/-- Two folders in the root. -/
def folders : Archive :=
  perform "b" (.createNode rootId (form "b" .folder) (some "u")) folder

/-- So can the one with two folders. -/
theorem reachable_folders : ∃ ts, Service.Reachable ⟨folders, ts⟩ := by
  obtain ⟨ts, h⟩ := reachable_folder
  exact reachable_perform h "b" (.createNode rootId (form "b" .folder) (some "u"))

/-- One folder is to be moved into the other, and meanwhile another client moves that into it. -/
def crossed : Archive :=
  (folders.run .nothing (perform "d" (.moveNodes ["b0"] "a0" (some "u")))
    ((Operation.moveNodes ["a0"] "b0" (some "u")).call (supply "c") policy)).2

/-- So can the one in which two moves crossed. -/
theorem reachable_crossed : ∃ ts, Service.Reachable ⟨crossed, ts⟩ := by
  obtain ⟨ts, h⟩ := reachable_folders
  obtain ⟨⟨s, hs, -⟩, -⟩ := h.isSound
  obtain ⟨writeAhead, now, hrun⟩ := h
  obtain ⟨us, hother⟩ := run_perform hs ts "d" (.moveNodes ["b0"] "a0" (some "u"))
  obtain ⟨vs, hcrossed⟩ := Service.Run.run hs hother .nothing (supply "c") policy
    (.moveNodes ["a0"] "b0" (some "u"))
  exact ⟨vs, writeAhead, now, hrun.trans hcrossed⟩

/-- A folder is copied beside itself. -/
def copied : Archive :=
  perform "c" (.copyNodes ["a0"] rootId (some "u")) folder

/-- A configuration with one variable. -/
def configuration : ConfigurationForm where
  node := form "c" (.configuration "")
  pvs := [⟨some "v", none, false, none⟩]
  isConfiguration := rfl

/-- What was captured of the variable. -/
def item : ItemForm where
  pv := ⟨some "v", none, false, none⟩
  value := .whole 1
  readback := .null
  timestamp := some 0
  severity := some "NONE"
  status := some "NONE"

/-- A committed and tagged snapshot, which is copied with its configuration. -/
def captured : Archive :=
  perform "e" (.copyNodes ["c0"] rootId (some "u")) <|
    perform "t" (.addTag "s0" ⟨some "t", none, none, none, none⟩) <|
      perform "s" (.saveSnapshot "c0" [item] (some "s") (some "first") (some "u")) <|
        perform "c" (.createConfiguration "a0" configuration (some "u")) folder

/-- So can the one with a committed snapshot and its copy. -/
theorem reachable_captured : ∃ ts, Service.Reachable ⟨captured, ts⟩ := by
  obtain ⟨ts, h⟩ := reachable_folder
  obtain ⟨ts, h⟩ := reachable_perform h "c" (.createConfiguration "a0" configuration (some "u"))
  obtain ⟨ts, h⟩ := reachable_perform h "s"
    (.saveSnapshot "c0" [item] (some "s") (some "first") (some "u"))
  obtain ⟨ts, h⟩ := reachable_perform h "t" (.addTag "s0" ⟨some "t", none, none, none, none⟩)
  exact reachable_perform h "e" (.copyNodes ["c0"] rootId (some "u"))

end Sample

open Sample

namespace Service

/-! ### One tree -/

/-- The nodes form one tree: the root, a folder, is the one node without a parent, every other node
has one that exists and may hold it, and following the parents leads to the root. -/
theorem Reachable.one_tree {sv : Service} (h : sv.Reachable) :
    ∃ s, sv.archive.store = some s ∧ (s.nodes.map (·.id)).Nodup ∧
      (∃ r ∈ s.nodes, r.id = rootId ∧ r.kind = .folder ∧ ∀ n ∈ s.nodes, n.parent = none ↔ n = r) ∧
      (∀ n ∈ s.nodes, n.id ≠ rootId → ∃ m ∈ s.nodes, n.parent = some m.id) ∧
      (∀ n ∈ s.nodes, s.LeadsTo n.id rootId) ∧
      ∀ m ∈ s.nodes, ∀ n ∈ s.nodes, n.parent = some m.id →
        (m.kind = .folder → n.kind = .folder ∨ n.kind = .configuration) ∧
          (m.kind = .configuration → n.kind = .snapshot) ∧ m.kind ≠ .snapshot := by
  obtain ⟨⟨s, hs, hsound⟩, -⟩ := h.isSound
  have htree := hsound.tree
  obtain ⟨r, hr, hid, hnone, hfolder⟩ := htree.root
  refine ⟨s, hs, htree.nodup, ⟨r, hr, hid, hfolder, fun n hn => ⟨fun hnp => ?_, ?_⟩⟩,
    fun n hn hne => ?_, htree.rooted, fun m hm n hn hp => ?_⟩
  · exact Store.eq_of_id_eq htree.nodup hn hr ((htree.onlyRoot n hn hnp).trans hid.symm)
  · rintro rfl
    exact hnone
  · obtain ⟨p, hp⟩ := Option.ne_none_iff_exists'.1 fun hnp => hne (htree.onlyRoot n hn hnp)
    obtain ⟨m, hm, rfl, -⟩ := htree.contained n hn p hp
    exact ⟨m, hm, hp⟩
  · obtain ⟨q, hq, hqid, hholds⟩ := htree.contained n hn m.id hp
    obtain rfl := Store.eq_of_id_eq htree.nodup hq hm hqid
    rcases Kind.mayHold_iff.1 hholds with ⟨hk, hn⟩ | ⟨hk, hn⟩
    · simp [hk, hn]
    · simp [hk, hn]

/-- Of two moves that would make a cycle, one is refused. -/
theorem one_tree_crossed :
    ∃ s, crossed.store = some s ∧
      s.nodes.map (fun n => (n.id, n.parent)) =
        [(rootId, none), ("a0", some rootId), ("b0", some "a0")] ∧
      ∀ n ∈ s.nodes, s.LeadsTo n.id rootId := by
  obtain ⟨ts, h⟩ := reachable_crossed
  obtain ⟨s, hs, -, -, -, hrooted, -⟩ := h.one_tree
  have hlinks : crossed.store.map (fun s => s.nodes.map fun n => (n.id, n.parent)) =
      some [(rootId, none), ("a0", some rootId), ("b0", some "a0")] := by decide
  refine ⟨s, hs, ?_, hrooted⟩
  simpa [show crossed.store = some s from hs] using hlinks

/-! ### Names -/

/-- The name of every node that is no draft is a name, and of two such nodes with one parent and of
one kind no two have the same. -/
theorem Reachable.names_apart {sv : Service} (h : sv.Reachable) :
    ∃ s, sv.archive.store = some s ∧
      (∀ n ∈ s.nodes, n.draft = false →
        n.name ≠ "" ∧ strip n.name = n.name ∧ '/' ∉ n.name.toList) ∧
      s.nodes.Pairwise fun n m => n.draft = false → m.draft = false → n.parent = m.parent →
        n.kind = m.kind → n.name ≠ m.name := by
  obtain ⟨⟨s, hs, hsound⟩, -⟩ := h.isSound
  refine ⟨s, hs, hsound.named.names, ?_⟩
  have hne : s.nodes.Pairwise (· ≠ ·) := hsound.tree.nodup.of_map
  refine hne.imp_of_mem fun {n m} hn hm hne hnd hmd hp hk hname => hne ?_
  exact hsound.named.siblings n hn m hm hnd hmd hp hk hname

/-- A copy beside its original has a name that differs. -/
theorem names_apart_copied :
    ∃ s, copied.store = some s ∧
      s.nodes.map (·.name) = [rootName, "a", "a (copy)"] ∧
      s.nodes.Pairwise fun n m => n.draft = false → m.draft = false → n.parent = m.parent →
        n.kind = m.kind → n.name ≠ m.name := by
  obtain ⟨ts, h⟩ := reachable_folder
  obtain ⟨us, h⟩ := reachable_perform h "c" (.copyNodes ["a0"] rootId (some "u"))
  obtain ⟨s, hs, -, hapart⟩ := h.names_apart
  have hnames : copied.store.map (fun s => s.nodes.map (·.name)) =
      some [rootName, "a", "a (copy)"] := by decide +kernel
  refine ⟨s, hs, ?_, hapart⟩
  simpa [show copied.store = some s from hs] using hnames

/-! ### Owners -/

/-- Variables belong to configurations, items to snapshots and to variables of the configurations
that hold these, and tags to committed snapshots; the records of one owner differ. -/
theorem Reachable.payload_owned {sv : Service} (h : sv.Reachable) :
    ∃ s, sv.archive.store = some s ∧
      (∀ pv ∈ s.pvs, pv.name ≠ "" ∧ strip pv.name = pv.name ∧
        ∃ c ∈ s.nodes, c.id = pv.config ∧ c.kind = .configuration) ∧
      (s.pvs.Pairwise fun p q => p.active → q.active → p.config = q.config → p.name ≠ q.name) ∧
      (∀ item ∈ s.items, ∃ n ∈ s.nodes, n.id = item.snapshot ∧ n.kind = .snapshot ∧
        ∃ pv ∈ s.pvs, pv.id = item.pv ∧ n.parent = some pv.config) ∧
      (s.items.Pairwise fun i j => i.snapshot = j.snapshot → i.pv ≠ j.pv) ∧
      (∀ tag ∈ s.tags, ∃ n ∈ s.nodes, n.id = tag.snapshot ∧ n.draft = false ∧
        ∃ comment, n.content = .snapshot .committed comment) ∧
      s.tags.Pairwise fun t u => t.snapshot = u.snapshot → t.name ≠ u.name := by
  obtain ⟨⟨s, hs, hsound⟩, -⟩ := h.isSound
  have howned := hsound.owned
  refine ⟨s, hs, fun pv hpv => ?_, ?_, howned.itemOwner, ?_, fun tag htag => ?_, ?_⟩
  · obtain ⟨hname, hstrip⟩ := howned.pvName pv hpv
    exact ⟨hname, hstrip, howned.pvOwner pv hpv⟩
  · have hne : s.pvs.Pairwise (· ≠ ·) := howned.pvIds.of_map
    refine hne.imp_of_mem fun {p q} hp hq hne hpa hqa hc hname => hne ?_
    exact howned.activePvs p hp q hq hpa hqa hc hname
  · exact howned.itemOnce.imp fun hne hsame => hne.resolve_left fun h => h hsame
  · obtain ⟨n, hn, hid, hk, hd⟩ := howned.tagOwner tag htag
    refine ⟨n, hn, hid, hd, ?_⟩
    have hdraft : n.content.isDraft = false := hsound.named.drafts n hn ▸ hd
    unfold Node.kind at hk
    match hcontent : n.content with
    | .snapshot .committed comment => exact ⟨comment, rfl⟩
    | .snapshot .draft _ => simp [hcontent, Content.isDraft] at hdraft
    | .folder => simp [hcontent, Content.kind] at hk
    | .configuration _ => simp [hcontent, Content.kind] at hk
  · exact howned.tagOnce.imp fun hne hsame => hne.resolve_left fun h => h hsame

/-- The item of a copied snapshot is one of the copied variable. -/
theorem payload_owned_captured :
    ∃ s, captured.store = some s ∧ s.items.map (fun i => (i.snapshot, i.pv)) =
        [("s0", "c1"), ("e2", "e1")] ∧
      ∀ item ∈ s.items, ∃ n ∈ s.nodes, n.id = item.snapshot ∧ n.kind = .snapshot ∧
        ∃ pv ∈ s.pvs, pv.id = item.pv ∧ n.parent = some pv.config := by
  obtain ⟨ts, h⟩ := reachable_captured
  obtain ⟨s, hs, -, -, howner, -⟩ := h.payload_owned
  have hitems : captured.store.map (fun s => s.items.map fun i => (i.snapshot, i.pv)) =
      some [("s0", "c1"), ("e2", "e1")] := by decide +kernel
  refine ⟨s, hs, ?_, howner⟩
  simpa [show captured.store = some s from hs] using hitems

end Service

end SnapshotArchive
