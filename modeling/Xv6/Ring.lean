import Mathlib.Data.List.Induction
import Mathlib.Data.List.Nodup

/-! Circular doubly linked lists with a head node, as pointer fields of the nodes: unlinking a
node, linking one behind the head, and the loops that follow the pointers. -/
namespace Ring
open List
open Function (update update_of_ne update_self)

universe u
variable {ν : Type u}

structure Links (ν : Type u) where
  next : ν → ν
  prev : ν → ν

/-- The nodes `xs` lie between `a` and `b`, in this order and in both directions. -/
def Path (k : Links ν) : ν → List ν → ν → Prop
  | a, [], b => k.next a = b ∧ k.prev b = a
  | a, x :: xs, b => k.next a = x ∧ k.prev x = a ∧ Path k x xs b

/-- The list of the head `h` contains the nodes `xs`, each of them once. -/
structure IsRing (k : Links ν) (h : ν) (xs : List ν) : Prop where
  path : Path k h xs h
  nodup : xs.Nodup
  head : h ∉ xs

variable {k k' : Links ν} {a b c h : ν} {xs ys : List ν}

lemma path_append : Path k a (xs ++ b :: ys) c ↔ Path k a xs b ∧ Path k b ys c := by
  induction xs generalizing a with
  | nil => simp only [nil_append, Path, and_assoc]
  | cons x xs ih => simp only [cons_append, Path, ih, and_assoc]

/-- A path depends on the next pointers of its nodes but the last, and on the previous pointers
of its nodes but the first. -/
lemma Path.congr (p : Path k a xs b) (next : ∀ x ∈ a :: xs, k'.next x = k.next x)
    (prev : ∀ x ∈ xs ++ [b], k'.prev x = k.prev x) : Path k' a xs b := by
  induction xs generalizing a with
  | nil =>
    refine ⟨?_, ?_⟩
    · rw [next a mem_cons_self]
      exact p.1
    rw [prev b (by simp)]
    exact p.2
  | cons x xs ih =>
    obtain ⟨first, back, rest⟩ := p
    refine ⟨?_, ?_, ih rest (fun y mem => next y (mem_cons_of_mem _ mem)) fun y mem => ?_⟩
    · rw [next a mem_cons_self]
      exact first
    · rw [prev x (by simp)]
      exact back
    exact prev y (mem_cons_of_mem _ mem)

lemma Path.prev_mem (p : Path k a xs b) : k.prev b ∈ a :: xs := by
  induction xs generalizing a with
  | nil =>
    rw [p.2]
    exact mem_cons_self
  | cons x xs ih => exact mem_cons_of_mem _ (ih p.2.2)

lemma Path.next_mem (p : Path k a xs b) : k.next a ∈ xs ++ [b] := by
  cases xs with
  | nil =>
    rw [p.1]
    simp
  | cons x xs =>
    rw [p.1]
    simp

section
variable [DecidableEq ν]

/-- `b->next->prev = b->prev; b->prev->next = b->next`. -/
def unlink (k : Links ν) (b : ν) : Links ν :=
  let prev := update k.prev (k.next b) (k.prev b)
  ⟨update k.next (prev b) (k.next b), prev⟩

/-- `b->next = h.next; b->prev = &h; h.next->prev = b; h.next = b`. -/
def linkFirst (k : Links ν) (h b : ν) : Links ν :=
  let next := update k.next b (k.next h)
  let prev := update k.prev b h
  ⟨update next h b, update prev (next h) b⟩

lemma Path.skip (first : Path k a xs b) (second : Path k b ys c)
    {n : Links ν} (next : n.next = update k.next (k.prev b) (k.next b))
    (prev : n.prev = update k.prev (k.next b) (k.prev b)) (apart : (xs ++ b :: ys).Nodup)
    (ha : a ∉ xs ++ b :: ys) (hc : c ∉ xs ++ b :: ys) : Path n a (xs ++ ys) c := by
  induction xs generalizing a with
  | nil =>
    obtain ⟨-, back⟩ := first
    rw [back] at next prev
    cases ys with
    | nil =>
      rw [second.1] at next prev
      refine ⟨?_, ?_⟩
      · rw [next, update_self]
      rw [prev, update_self]
    | cons y ys =>
      obtain ⟨after, -, rest⟩ := second
      rw [after] at next prev
      simp only [nil_append, mem_cons, not_or, nodup_cons] at apart ha hc
      refine ⟨?_, ?_, rest.congr (fun x mem => ?_) fun x mem => ?_⟩
      · rw [next, update_self]
      · rw [prev, update_self]
      · rw [next, update_of_ne]
        rintro rfl
        rcases mem_cons.mp mem with rfl | mem
        · exact ha.2.1 rfl
        exact ha.2.2 mem
      rw [prev, update_of_ne]
      rintro rfl
      rcases mem_append.mp mem with mem | mem
      · exact apart.2.1 mem
      exact hc.2.1 (mem_singleton.mp mem).symm
  | cons x xs ih =>
    obtain ⟨forward, back, rest⟩ := first
    simp only [cons_append, nodup_cons, mem_cons, not_or] at apart ha hc
    have before := rest.prev_mem
    have after := second.next_mem
    refine ⟨?_, ?_, ih rest apart.2 apart.1 hc.2⟩
    · rw [next, update_of_ne, forward]
      rintro rfl
      rcases mem_cons.mp before with eq | mem
      · exact ha.1 eq
      exact ha.2 (mem_append_left _ mem)
    rw [prev, update_of_ne, back]
    rintro rfl
    rcases mem_append.mp after with mem | mem
    · exact apart.1 (mem_append_right _ (mem_cons_of_mem _ mem))
    exact hc.1 (mem_singleton.mp mem).symm

lemma IsRing.unlink (r : IsRing k h xs) (mem : b ∈ xs) :
    IsRing (Ring.unlink k b) h (xs.erase b) := by
  obtain ⟨ys, zs, rfl⟩ := append_of_mem mem
  have apart := nodup_append.mp r.nodup
  have fresh : b ∉ ys := fun early => apart.2.2 b early b mem_cons_self rfl
  have gone : (ys ++ b :: zs).erase b = ys ++ zs := by
    rw [erase_append_right _ fresh, erase_cons_head]
  obtain ⟨first, second⟩ := path_append.mp r.path
  have own : k.next b ≠ b := by
    intro loop
    have after := second.next_mem
    rw [loop] at after
    rcases mem_append.mp after with late | late
    · exact (nodup_cons.mp apart.2.1).1 late
    exact r.head (mem_singleton.mp late ▸ mem)
  refine ⟨?_, r.nodup.erase b, fun inside => r.head (mem_of_mem_erase inside)⟩
  rw [gone]
  refine first.skip second ?_ rfl r.nodup r.head r.head
  change update k.next (update k.prev (k.next b) (k.prev b) b) (k.next b) = _
  rw [update_of_ne own.symm]

lemma IsRing.linkFirst (r : IsRing k h xs) (new : b ∉ h :: xs) :
    IsRing (Ring.linkFirst k h b) h (b :: xs) := by
  rw [mem_cons, not_or] at new
  have nextHead : update k.next b (k.next h) h = k.next h := update_of_ne (Ne.symm new.1) _ _
  have next : (Ring.linkFirst k h b).next = update (update k.next b (k.next h)) h b := rfl
  have prev : (Ring.linkFirst k h b).prev =
      update (update k.prev b h) (k.next h) b := by
    rw [← nextHead]
    rfl
  have after := r.path.next_mem
  have other : k.next h ≠ b := by
    intro eq
    rw [eq] at after
    rcases mem_append.mp after with mem | mem
    · exact new.2 mem
    exact new.1 (mem_singleton.mp mem)
  refine ⟨⟨?_, ?_, ?_⟩, nodup_cons.mpr ⟨new.2, r.nodup⟩, ?_⟩
  · rw [next, update_self]
  · rw [prev, update_of_ne (Ne.symm other), update_self]
  · -- from the new node on, the list is the old one
    have path := r.path
    have nodup := r.nodup
    have head := r.head
    cases xs with
    | nil =>
      rw [path.1] at prev
      refine ⟨?_, ?_⟩
      · rw [next, update_of_ne new.1, update_self, path.1]
      rw [prev, update_self]
    | cons x xs =>
      obtain ⟨first, -, rest⟩ := path
      rw [first] at prev
      simp only [mem_cons, not_or, nodup_cons] at new nodup head
      refine ⟨?_, ?_, rest.congr (fun y mem => ?_) fun y mem => ?_⟩
      · rw [next, update_of_ne new.1, update_self, first]
      · rw [prev, update_self]
      · rw [next, update_of_ne, update_of_ne]
        · rintro rfl
          rcases mem_cons.mp mem with eq | mem
          · exact new.2.1 eq
          exact new.2.2 mem
        rintro rfl
        rcases mem_cons.mp mem with eq | mem
        · exact head.1 eq
        exact head.2 mem
      rw [prev, update_of_ne, update_of_ne]
      · rintro rfl
        rcases mem_append.mp mem with mem | mem
        · exact new.2.2 mem
        exact new.1 (mem_singleton.mp mem)
      rintro rfl
      rcases mem_append.mp mem with mem | mem
      · exact nodup.1 mem
      exact head.1 (mem_singleton.mp mem).symm
  rw [mem_cons, not_or]
  exact ⟨Ne.symm new.1, r.head⟩

lemma IsRing.moveFirst (r : IsRing k h xs) (mem : b ∈ xs) :
    ∃ ys, IsRing (Ring.linkFirst (Ring.unlink k b) h b) h ys ∧ ∀ c, c ∈ ys ↔ c ∈ xs := by
  have gone : b ∉ h :: xs.erase b := by
    rw [mem_cons, not_or]
    exact ⟨fun eq => r.head (eq ▸ mem), r.nodup.not_mem_erase⟩
  refine ⟨_, (r.unlink mem).linkFirst gone, fun c => ?_⟩
  by_cases same : c = b
  · rw [same]
    exact iff_of_true mem_cons_self mem
  rw [mem_cons, mem_erase_of_ne same, or_iff_right same]

/-- `for(b = start; b != &h; b = step(b)) if(p(b)) return b;` -/
def search (step : ν → ν) (h : ν) (p : ν → Bool) : Nat → ν → Option ν
  | 0, _ => none
  | fuel + 1, b => if b = h then none else if p b then some b else search step h p fuel (step b)

lemma search_next {p : ν → Bool} {fuel : Nat} (path : Path k a xs h) (out : h ∉ xs)
    (enough : xs.length < fuel) : search k.next h p fuel (k.next a) = xs.find? p := by
  induction xs generalizing a fuel with
  | nil =>
    obtain ⟨fuel, rfl⟩ := Nat.exists_eq_succ_of_ne_zero (Nat.ne_of_gt enough)
    rw [path.1, search, if_pos rfl]
    rfl
  | cons x xs ih =>
    obtain ⟨first, -, rest⟩ := path
    obtain ⟨fuel, rfl⟩ := Nat.exists_eq_succ_of_ne_zero (Nat.ne_of_gt (Nat.zero_lt_of_lt enough))
    rw [mem_cons, not_or] at out
    rw [first, search, if_neg (Ne.symm out.1), find?_cons]
    cases found : p x with
    | true => simp
    | false =>
      simp only [Bool.false_eq_true, if_false]
      exact ih rest out.2 (Nat.lt_of_succ_lt_succ enough)

lemma search_prev {p : ν → Bool} {fuel : Nat} (path : Path k h xs b) (out : h ∉ xs)
    (enough : xs.length < fuel) : search k.prev h p fuel (k.prev b) = xs.reverse.find? p := by
  induction xs using reverseRecOn generalizing b fuel with
  | nil =>
    obtain ⟨fuel, rfl⟩ := Nat.exists_eq_succ_of_ne_zero (Nat.ne_of_gt enough)
    rw [path.2, search, if_pos rfl]
    rfl
  | append_singleton xs x ih =>
    obtain ⟨rest, -, last⟩ := path_append.mp path
    obtain ⟨fuel, rfl⟩ := Nat.exists_eq_succ_of_ne_zero (Nat.ne_of_gt (Nat.zero_lt_of_lt enough))
    rw [mem_append, not_or, mem_singleton] at out
    rw [last, search, if_neg (Ne.symm out.2), reverse_append, reverse_singleton,
      singleton_append, find?_cons]
    cases found : p x with
    | true => simp
    | false =>
      simp only [Bool.false_eq_true, if_false]
      refine ih rest out.1 ?_
      rw [length_append, length_singleton] at enough
      omega

end
end Ring
