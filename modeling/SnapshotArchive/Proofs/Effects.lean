import SnapshotArchive.Proofs.Effects.Contents
import SnapshotArchive.Proofs.History

/-!
# Effects of all operations

Wherever an operation was planned, what it makes of the tables depends on the store in which its
transaction runs, and `Operation.Effect` says what that is. What holds of all operations is proved
by cases on the effect, and no proof looks at the operations again.

* `Operation.Succeeds.effect` : an operation that succeeds has its effect.
-/

namespace SnapshotArchive

open Store

/-- With another answer a write leaves the same store, and what follows of its run follows of that
with the other answer. -/
theorem Write.of_map_eq_ok {α β : Type} {f : α → β} {w : Write α} {s₀ s s' : Store}
    {t : Transaction β} {b : β} {q : Prop} (hplan : w.map f s₀ = .ok t) (ht : t s = .ok (b, s'))
    (h : ∀ {u : Transaction α} {a : α}, w s₀ = .ok u → u s = .ok (a, s') → q) : q := by
  obtain ⟨u, hu, rfl⟩ := map_eq_ok_iff.1 hplan
  obtain ⟨⟨a, s₁⟩, ha, he⟩ := map_eq_ok_iff.1 ht
  obtain ⟨-, rfl⟩ := Prod.mk.inj he
  exact h hu ha

/-- An operation that succeeds has its effect. -/
theorem Operation.Succeeds.effect {c : Context} {p : Policy} {o : Operation} {s s' : Store}
    {answer : Answer} (h : o.Succeeds c p s answer s') (hs : s.IsSound) : o.Effect c p s s' := by
  obtain ⟨s₀, t, hplan, ht⟩ := h
  cases o with
  | createNode => exact Write.of_map_eq_ok hplan ht createNode_effect
  | updateNode => exact Write.of_map_eq_ok hplan ht (updateNode_effect hs)
  | deleteNode => exact Write.of_map_eq_ok hplan ht (deleteNode_effect hs)
  | deleteNodes => exact Write.of_map_eq_ok hplan ht (deleteNodes_effect hs)
  | moveNodes => exact Write.of_map_eq_ok hplan ht (moveNodes_effect hs)
  | copyNodes => exact Write.of_map_eq_ok hplan ht (copyNodes_effect hs)
  | createConfiguration => exact Write.of_map_eq_ok hplan ht createConfiguration_effect
  | updateConfiguration => exact Write.of_map_eq_ok hplan ht (updateConfiguration_effect hs)
  | renamePv => exact Write.of_map_eq_ok hplan ht (renamePv_effect hs)
  | saveSnapshot => exact Write.of_map_eq_ok hplan ht (saveSnapshot_effect hs)
  | commitSnapshot => exact Write.of_map_eq_ok hplan ht (commitSnapshot_effect hs)
  | markGolden => exact Write.of_map_eq_ok hplan ht (markGolden_effect hs)
  | addTag => exact Write.of_map_eq_ok hplan ht addTag_effect
  | removeTag => exact Write.of_map_eq_ok hplan ht removeTag_effect
  | initialise =>
    rw [write] at hplan
    refine Write.of_map_eq_ok hplan ht fun hu hmade => ?_
    obtain rfl := Except.ok.inj hu
    -- In a sound store the root is there and is not made again.
    obtain ⟨r, hr, hid, -⟩ := hs.tree.root
    have hroot : s.hasNode rootId := hid ▸ hasNode_of_mem hr
    rw [Archive.makeRoot, if_pos hroot] at hmade
    obtain ⟨-, rfl⟩ := Prod.mk.inj (Except.ok.inj hmade)
    exact .initialise

end SnapshotArchive
