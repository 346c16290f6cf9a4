import Mathlib.Data.Set.Insert

/-! Places that hold resources: every resource in use is held by exactly one place, and a place
that holds nothing holds `null`. -/
namespace Ownership
open Function (update update_of_ne update_self)

variable {ι β : Type} {null : β} {held : ι → β} {live : Set β} {i j : ι} {b : β}

/-- The places `held` hold exactly the resources `live`, each of them once. -/
structure Exact (null : β) (held : ι → β) (live : Set β) : Prop where
  used : ∀ i, held i ≠ null → held i ∈ live
  distinct : ∀ i j, held i ≠ null → held i = held j → i = j
  owned : ∀ b ∈ live, ∃ i, held i = b
  real : null ∉ live

variable [DecidableEq ι]

lemma Exact.give (e : Exact null held live) (empty : held i = null) (new : b ∉ live)
    (real : b ≠ null) : Exact null (update held i b) (insert b live) := by
  have elsewhere : ∀ j, held j ≠ null → held j ≠ b := fun j some eq => new (eq ▸ e.used j some)
  refine ⟨fun j some => ?_, fun j k some same => ?_, fun c mem => ?_, ?_⟩
  · by_cases eq : j = i
    · rw [eq, update_self]
      exact Set.mem_insert b live
    rw [update_of_ne eq] at some ⊢
    exact Set.mem_insert_of_mem b (e.used j some)
  · by_cases first : j = i <;> by_cases second : k = i
    · exact first.trans second.symm
    · rw [first, update_self, update_of_ne second] at same
      exact absurd same.symm (elsewhere k (same ▸ real))
    · rw [second, update_self, update_of_ne first] at same
      rw [update_of_ne first] at some
      exact absurd same (elsewhere j some)
    rw [update_of_ne first] at some same
    rw [update_of_ne second] at same
    exact e.distinct j k some same
  · rcases Set.mem_insert_iff.mp mem with rfl | mem
    · exact ⟨i, update_self ..⟩
    obtain ⟨j, here⟩ := e.owned c mem
    refine ⟨j, ?_⟩
    rw [update_of_ne, here]
    rintro rfl
    exact e.real (empty ▸ here ▸ mem)
  intro mem
  rcases Set.mem_insert_iff.mp mem with eq | mem
  · exact real eq.symm
  exact e.real mem

lemma Exact.take (e : Exact null held live) (some : held i ≠ null) :
    Exact null (update held i null) (live \ {held i}) := by
  refine ⟨fun j some' => ?_, fun j k some' same => ?_, fun c mem => ?_, fun mem => e.real mem.1⟩
  · have other : j ≠ i := by
      rintro rfl
      exact some' (update_self ..)
    rw [update_of_ne other] at some' ⊢
    exact ⟨e.used j some', fun eq => other (e.distinct j i some' eq)⟩
  · have first : j ≠ i := by
      rintro rfl
      exact some' (update_self ..)
    rw [update_of_ne first] at some' same
    have second : k ≠ i := by
      rintro rfl
      rw [update_self] at same
      exact some' same
    rw [update_of_ne second] at same
    exact e.distinct j k some' same
  obtain ⟨j, here⟩ := e.owned c mem.1
  refine ⟨j, ?_⟩
  rw [update_of_ne, here]
  rintro rfl
  exact mem.2 here.symm

end Ownership
