import Mathlib.Order.Lattice
import Mathlib.Data.List.Basic

/-!
The least elements of a list under a key, and the last of them. A scan of the list
keeps the element it has chosen so far: an element that is not above it takes its
place (`LastLeast.replaced`), one that is above it does not (`LastLeast.kept`).
-/
namespace Least
universe u v
variable {α : Type u} {β : Type v} [LinearOrder β] {f : α → β} {l : List α} {a b : α}

/-- The last of the elements whose key is least. -/
structure LastLeast (f : α → β) (l : List α) (a : α) : Prop where
  least : ∀ b ∈ l, f a ≤ f b
  last : ∃ before later, l = before ++ a :: later ∧ ∀ b ∈ later, f a < f b

theorem lastLeast_singleton (f : α → β) (a : α) : LastLeast f [a] a := by
  refine ⟨fun b member => ?_,[],[],rfl,fun b member => ?_⟩
  · rw [List.mem_singleton.mp member]
  · cases member

theorem LastLeast.mem (chosen : LastLeast f l a) : a ∈ l := by
  obtain ⟨before,later,rfl,-⟩ := chosen.last
  exact List.mem_append_right _ List.mem_cons_self

theorem LastLeast.replaced (chosen : LastLeast f l a) (least : f b ≤ f a) : LastLeast f (l ++ [b]) b := by
  refine ⟨fun c member => ?_,l,[],rfl,fun c member => ?_⟩
  · rcases List.mem_append.mp member with earlier | new
    · exact le_trans least (chosen.least c earlier)
    · rw [List.mem_singleton.mp new]
  · cases member

theorem LastLeast.kept (chosen : LastLeast f l a) (above : f a < f b) : LastLeast f (l ++ [b]) a := by
  obtain ⟨before,later,rfl,last⟩ := chosen.last
  refine ⟨fun c member => ?_,before,later ++ [b],by simp,fun c member => ?_⟩
  · rcases List.mem_append.mp member with earlier | new
    · exact chosen.least c earlier
    · rw [List.mem_singleton.mp new]
      exact le_of_lt above
  · rcases List.mem_append.mp member with earlier | new
    · exact last c earlier
    · rw [List.mem_singleton.mp new]
      exact above

end Least
