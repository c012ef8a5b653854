import CppCoroutines.Machine
import Mathlib.Data.List.Perm.Basic
import Mathlib.Tactic.Common

/-!
# Allocators

What an allocator is for: it hands out blocks of memory, each as large as was asked
for, and no two of them that are in use at a time overlap. An empty block has an
address of its own as well. The machine below leaves open where the blocks come from.
-/

/-- A block of memory. -/
structure Extent where
  start : ℕ
  size : ℕ
deriving DecidableEq, Repr

namespace Extent

/-- The two blocks have no address in common; an empty one takes up one address. -/
def Apart (a b : Extent) : Prop := a.start + max a.size 1 ≤ b.start ∨ b.start + max b.size 1 ≤ a.start

instance (a b : Extent) : Decidable (a.Apart b) :=
  inferInstanceAs (Decidable (_ ∨ _))

variable {a b : Extent}

theorem Apart.symm (h : a.Apart b) : b.Apart a := Or.symm h

/-- Blocks that start together are not apart. -/
theorem not_apart_of_start_eq (h : a.start = b.start) : ¬ a.Apart b := by
  unfold Apart
  omega

/-- A block at the start of another is apart from what that is apart from. -/
theorem Apart.of_start_eq {c : Extent} (h : a.Apart b) (hstart : c.start = a.start)
    (hsize : c.size ≤ a.size) : c.Apart b := by
  unfold Apart at h ⊢
  omega

end Extent

namespace Allocator

/-- A block is handed out on a request for so many bytes, or given back. -/
inductive Event where
  | acquire (block : Extent) (requested : ℕ)
  | release (i : ℕ)
deriving DecidableEq, Repr

/-- A new block is large enough and apart from those in use. -/
def step (live : List Extent) : Event → Option (List Extent)
  | .acquire block requested =>
      if requested ≤ block.size ∧ ∀ b ∈ live, b.Apart block then some (block :: live) else none
  | .release i => if i < live.length then some (live.eraseIdx i) else none

/-- An allocator, by the blocks that are in use. -/
def machine : Machine (List Extent) Event where
  init live := live = []
  step := step

variable {live : List Extent}

/-- Blocks in use do not overlap. -/
theorem pairwise_apart (h : machine.Reachable live) : live.Pairwise Extent.Apart := by
  induction h with
  | init hinit =>
      obtain rfl : _ = [] := hinit
      exact List.Pairwise.nil
  | step e _ hstep ih =>
      cases e with
      | acquire block requested =>
          rcases Option.ite_none_right_eq_some.mp hstep with ⟨⟨-, hfresh⟩, heq⟩
          rw [← Option.some.inj heq]
          exact List.pairwise_cons.mpr ⟨fun b hb => (hfresh b hb).symm, ih⟩
      | release i =>
          rcases Option.ite_none_right_eq_some.mp hstep with ⟨-, heq⟩
          rw [← Option.some.inj heq]
          exact ih.sublist (List.eraseIdx_sublist _ i)

end Allocator
