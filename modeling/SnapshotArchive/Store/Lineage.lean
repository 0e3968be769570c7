import SnapshotArchive.Store.Basic

/-!
# Lineage

Two walks over the parent links: down from a node to all its descendants, level by level, and up
from a node to the root. Each ends because it takes as many steps as there are nodes, at most.

* `Store.subtree` : a node and its descendants, every parent before its children.
* `Store.ancestorIds` : a node and its ancestors, the node first.
-/

namespace SnapshotArchive

namespace Store

/-- The nodes of a level and of the `depth` levels below it. -/
def levels (s : Store) : (depth : Nat) → List Node → List Node
  | 0, level => level
  | depth + 1, level => level ++ s.levels depth (level.flatMap fun n => s.children n.id)

/-- A node and its descendants, level by level. -/
def subtree (s : Store) (id : Id) : List Node :=
  match s.node? id with
  | some n => s.levels s.nodes.length [n]
  | none => []

/-- The identifiers of a node and its descendants, level by level. -/
def subtreeIds (s : Store) (id : Id) : List Id :=
  (s.subtree id).map (·.id)

/-- The identifiers on the way up from `next?`, up to the first that is in `seen` or unknown. -/
def climb (s : Store) : (steps : Nat) → (seen : List Id) → (next? : Option Id) → List Id
  | 0, _, _ => []
  | _, _, none => []
  | steps + 1, seen, some id =>
    if id ∈ seen then []
    else
      match s.node? id with
      | some n => id :: s.climb steps (id :: seen) n.parent
      | none => []

/-- The identifiers of a node and its ancestors, the node first. -/
def ancestorIds (s : Store) (id : Id) : List Id :=
  s.climb (s.nodes.length + 1) [] (some id)

/-! ### The first steps -/

/-- Below a level come the children of its nodes. -/
theorem levels_succ (s : Store) (depth : Nat) (level : List Node) :
    s.levels (depth + 1) level =
      level ++ s.levels depth (level.flatMap fun n => s.children n.id) := rfl

/-- Below an empty level there is nothing. -/
@[simp] theorem levels_nil (s : Store) (depth : Nat) : s.levels depth [] = [] := by
  induction depth with
  | zero => rfl
  | succ depth ih => simp [levels, ih]

/-- The walk down meets the level that it starts with. -/
theorem mem_levels {s : Store} {depth : Nat} {level : List Node} {n : Node} (h : n ∈ level) :
    n ∈ s.levels depth level := by
  cases depth with
  | zero => exact h
  | succ depth => exact List.mem_append_left _ h

/-- From stored nodes the walk down meets stored ones only. -/
theorem mem_nodes_of_mem_levels {s : Store} {depth : Nat} {level : List Node}
    (hl : ∀ n ∈ level, n ∈ s.nodes) {n : Node} (h : n ∈ s.levels depth level) : n ∈ s.nodes := by
  induction depth generalizing level with
  | zero => exact hl n h
  | succ depth ih =>
    rcases List.mem_append.1 h with h | h
    · exact hl n h
    · refine ih (fun m hm => ?_) h
      obtain ⟨p, _, hm⟩ := List.mem_flatMap.1 hm
      exact (mem_children_iff.1 hm).1

/-- A subtree consists of stored nodes. -/
theorem mem_nodes_of_mem_subtree {s : Store} {id : Id} {n : Node} (h : n ∈ s.subtree id) :
    n ∈ s.nodes := by
  unfold subtree at h
  split at h
  · rename_i m hm
    exact mem_nodes_of_mem_levels (by simp [(node?_eq_some hm).1]) h
  · cases h

end Store

end SnapshotArchive
