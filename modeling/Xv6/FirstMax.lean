import Mathlib.Data.List.Basic
import Mathlib.Order.Lattice

/-! A scan over a list that keeps the best candidate so far: an eligible element replaces it when
its key is strictly above the bound, which then becomes that key. The scan ends with the first
eligible element of maximal key, or with none if no eligible key is above the first bound. -/
namespace FirstMax
open List

universe u v w
variable {α : Type u} {β : Type v} [LinearOrder β] {elig : α → Prop} {key : α → β}
  {l : List α} {x y : α}

/-- The first eligible element of the list with a maximal key. -/
structure IsFirstMax (elig : α → Prop) (key : α → β) (l : List α) (x : α) : Prop where
  chosen : elig x
  split : ∃ before after, l = before ++ x :: after ∧ (∀ a ∈ before, elig a → key a < key x) ∧
    ∀ a ∈ after, elig a → key a ≤ key x

lemma IsFirstMax.cons (h : IsFirstMax elig key l x) (below : elig y → key y < key x) :
    IsFirstMax elig key (y :: l) x := by
  obtain ⟨before, after, rfl, early, late⟩ := h.split
  refine ⟨h.chosen, y :: before, after, rfl, fun a mem => ?_, late⟩
  rcases mem_cons.mp mem with rfl | mem
  · exact below
  exact early a mem

lemma IsFirstMax.mem (h : IsFirstMax elig key l x) : x ∈ l := by
  obtain ⟨before, after, rfl, -, -⟩ := h.split
  exact mem_append_right before mem_cons_self

lemma IsFirstMax.le (h : IsFirstMax elig key l x) (mem : y ∈ l) (chosen : elig y) :
    key y ≤ key x := by
  obtain ⟨before, after, rfl, early, late⟩ := h.split
  rcases mem_append.mp mem with mem | mem
  · exact (early y mem chosen).le
  rcases mem_cons.mp mem with rfl | mem
  · exact le_rfl
  exact late y mem chosen

lemma IsFirstMax.lt_of_head (h : IsFirstMax elig key (y :: l) x) (other : x ≠ y)
    (chosen : elig y) : key y < key x := by
  obtain ⟨before, after, split, early, -⟩ := h.split
  cases before with
  | nil => exact absurd (cons.inj split).1.symm other
  | cons z before => exact early y ((cons.inj split).1 ▸ mem_cons_self) chosen

lemma IsFirstMax.unique (hx : IsFirstMax elig key l x) (hy : IsFirstMax elig key l y) :
    x = y := by
  -- of two positions the earlier one is below the later one and not below it
  have order : ∀ {x y : α} {b m a : List α}, elig x → elig y →
      (∀ c ∈ b ++ x :: m, elig c → key c < key y) → (∀ c ∈ m ++ y :: a, elig c → key c ≤ key x) →
      False := by
    intro x y b m a ex ey early late
    have below := early x (by simp) ex
    have above := late y (by simp) ey
    exact absurd below (not_lt.mpr above)
  obtain ⟨b₁, a₁, first, early₁, late₁⟩ := hx.split
  obtain ⟨b₂, a₂, second, early₂, late₂⟩ := hy.split
  rcases append_eq_append_iff.mp (first.symm.trans second) with
    ⟨m, rfl, tail⟩ | ⟨m, rfl, tail⟩
  · cases m with
    | nil => exact (cons.inj tail).1
    | cons z m =>
      obtain ⟨rfl, rfl⟩ := cons.inj tail
      exact (order hx.chosen hy.chosen early₂ late₁).elim
  cases m with
  | nil => exact (cons.inj tail).1.symm
  | cons z m =>
    obtain ⟨rfl, rfl⟩ := cons.inj tail
    exact (order hy.chosen hx.chosen early₁ late₂).elim

lemma IsFirstMax.of_map {γ : Type w} {f : γ → α}
    {l : List γ} (h : IsFirstMax elig key (l.map f) x) :
    ∃ y, f y = x ∧ IsFirstMax (fun y => elig (f y)) (fun y => key (f y)) l y := by
  obtain ⟨before, after, split, early, late⟩ := h.split
  obtain ⟨before, rest, rfl, rfl, second⟩ := map_eq_append_iff.mp split
  obtain ⟨y, after, rfl, rfl, rfl⟩ := map_eq_cons_iff.mp second
  exact ⟨y, rfl, h.chosen, before, after, rfl, fun a mem => early (f a) (mem_map_of_mem mem), fun a
    mem => late (f a) (mem_map_of_mem mem)⟩

def better (elig : α → Prop) [DecidablePred elig] (key : α → β) (best : Option α × β) (x : α) :
    Option α × β :=
  if elig x ∧ best.2 < key x then (some x, key x) else best

lemma better_congr {elig elig' : α → Prop} [DecidablePred elig] [DecidablePred elig']
    {key key' : α → β} (same : ∀ x, (elig x ↔ elig' x) ∧ key x = key' x) :
    better elig key = better elig' key' := by
  funext best x
  simp only [better, (same x).1, (same x).2]

/-- The scan returns the candidate it started with, or the first maximal element above the
bound. -/
lemma foldl_better (elig : α → Prop) [DecidablePred elig] (key : α → β) (l : List α) (o :
    Option α) (b : β) : ((l.foldl (better elig key) (o, b)).1 = o ∧ ∀ a ∈ l, elig a → key a ≤ b) ∨
    ∃ x, (l.foldl (better elig key) (o, b)).1 = some x ∧ b < key x ∧ IsFirstMax elig key l x := by
  induction l generalizing o b with
  | nil => exact .inl ⟨rfl, fun _ mem => absurd mem not_mem_nil⟩
  | cons y l ih =>
    rw [foldl_cons, better]
    split_ifs with above
    · right
      rcases ih (some y) (key y) with ⟨kept, rest⟩ | ⟨x, found, higher, first⟩
      · exact ⟨y, kept, above.2, above.1, [], l, rfl, fun _ mem => absurd mem not_mem_nil, rest⟩
      exact ⟨x, found, above.2.trans higher, first.cons fun _ => higher⟩
    have low : elig y → key y ≤ b := fun ey => not_lt.mp fun lt => above ⟨ey, lt⟩
    rcases ih o b with ⟨kept, rest⟩ | ⟨x, found, higher, first⟩
    · refine .inl ⟨kept, fun a mem => ?_⟩
      rcases mem_cons.mp mem with rfl | mem
      · exact low
      exact rest a mem
    exact .inr ⟨x, found, higher, first.cons fun ey => (low ey).trans_lt higher⟩

end FirstMax
