import Mathlib.Data.List.Pairwise
import Mathlib.Data.Set.Basic

/-! Things that are each in exactly one of many places. -/

/-- Every member of `pool` is in exactly one place, and nothing else is in a place. -/
structure Placement {ι α : Type} (holds : ι → α → Prop) (pool : Set α) : Prop where
  distinct : ∀ i j x, holds i x → holds j x → i = j
  total : ∀ x, x ∈ pool ↔ ∃ i, holds i x

namespace Placement
variable {ι α : Type} {holds holds' : ι → α → Prop} {pool : Set α}

lemma move (part : Placement holds pool) (mine : List ι) (others : ∀ i ∉ mine, ∀ x,
    holds' i x ↔ holds i x) (total : ∀ x, (∃ i ∈ mine, holds' i x) ↔ ∃ i ∈ mine, holds i x)
    (apart : mine.Pairwise fun i j => ∀ x, holds' i x → ¬ holds' j x) : Placement holds' pool := by
  have own : ∀ i ∈ mine, ∀ j ∈ mine, ∀ x, holds' i x → holds' j x → i = j := by
    intro i inside j inside' x here there
    by_contra other
    have : Std.Symm fun i j => ∀ x, holds' i x → ¬ holds' j x :=
      ⟨fun i j apart x here there => apart x there here⟩
    exact apart.forall inside inside' other x here there
  -- a thing in a place outside `mine` has not moved
  have mixed : ∀ i ∈ mine, ∀ j ∉ mine, ∀ x, holds' i x → ¬ holds' j x := by
    intro i inside j outside x here there
    obtain ⟨i', inside', here'⟩ := (total x).mp ⟨i, inside, here⟩
    rw [others j outside] at there
    exact outside (part.distinct i' j x here' there ▸ inside')
  refine ⟨fun i j x here there => ?_, fun x => (part.total x).trans ⟨?_, ?_⟩⟩
  · by_cases first : i ∈ mine <;> by_cases second : j ∈ mine
    · exact own i first j second x here there
    · exact absurd there (mixed i first j second x here)
    · exact absurd here (mixed j second i first x there)
    rw [others i first] at here
    rw [others j second] at there
    exact part.distinct i j x here there
  · rintro ⟨i, here⟩
    by_cases inside : i ∈ mine
    · obtain ⟨j, -, there⟩ := (total x).mpr ⟨i, inside, here⟩
      exact ⟨j, there⟩
    exact ⟨i, (others i inside x).mpr here⟩
  rintro ⟨i, here⟩
  by_cases inside : i ∈ mine
  · obtain ⟨j, -, there⟩ := (total x).mp ⟨i, inside, here⟩
    exact ⟨j, there⟩
  exact ⟨i, (others i inside x).mp here⟩

end Placement
