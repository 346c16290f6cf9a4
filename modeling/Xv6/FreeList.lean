import Mathlib.Algebra.BigOperators.Group.List.Basic
import Mathlib.Algebra.Order.Ring.Int
import Mathlib.Data.List.Induction
import Mathlib.Data.List.Nodup

/-! Circular lists of blocks in the order of their addresses, with a header word pair (next block,
size) at the start of each block and a sentinel below them all. Sizes are in units of 16 bytes. -/
namespace FreeList
open List Function

structure Block where
  start : Nat
  units : Nat
  deriving DecidableEq

def Block.stop (b : Block) : Nat := b.start + 16 * b.units

def Block.Has (b : Block) (u : Nat) : Prop := b.start ≤ u ∧ u < b.stop

def Covered (bs : List Block) (u : Nat) : Prop := ∃ b ∈ bs, b.Has u

instance (b : Block) (u : Nat) : Decidable (b.Has u) := inferInstanceAs (Decidable (_ ∧ _))

instance (bs : List Block) (u : Nat) : Decidable (Covered bs u) :=
  inferInstanceAs (Decidable (∃ b ∈ bs, b.Has u))

def Apart (a b : Block) : Prop := a.stop ≤ b.start ∨ b.stop ≤ a.start

def starts (bs : List Block) : List Nat := bs.map Block.start

def units (bs : List Block) : Nat := (bs.map Block.units).sum

/-- From the header `a` on, the pointers lead through the blocks to the header `z`. -/
def Linked (ptr size : Nat → Nat) : Nat → List Block → Nat → Prop
  | a, [], z => ptr a = z
  | a, b :: bs, z => ptr a = b.start ∧ size b.start = b.units ∧ Linked ptr size b.start bs z

/-- Increasing addresses from above `lo` on, with a gap before each block. -/
def Ordered : Nat → List Block → Prop
  | _, [] => True
  | lo, b :: bs => lo < b.start ∧ 0 < b.units ∧ Ordered b.stop bs

def last : Nat → List Block → Nat
  | a, [] => a
  | _, b :: bs => last b.start bs

variable {ptr size ptr' size' : Nat → Nat} {a a' z lo p u : Nat} {b c : Block} {A B L : List Block}

/-! ### Covered addresses and units -/

lemma covered_cons : Covered (b :: B) u ↔ b.Has u ∨ Covered B u := by simp [Covered]

lemma covered_append : Covered (A ++ B) u ↔ Covered A u ∨ Covered B u := by
  simp only [Covered, mem_append, or_and_right, exists_or]

lemma covered_singleton : Covered [b] u ↔ b.Has u := by simp [Covered]

lemma units_cons : units (b :: B) = b.units + units B := rfl

lemma units_singleton : units [b] = b.units := Nat.add_zero _

lemma units_append : units (A ++ B) = units A + units B := by
  rw [units, map_append, sum_append]
  rfl

lemma has_join {s m n : Nat} :
    Block.Has ⟨s, m + n⟩ u ↔ Block.Has ⟨s, m⟩ u ∨ Block.Has ⟨s + 16 * m, n⟩ u := by
  simp only [Block.Has, Block.stop]
  omega

/-! ### Blocks that do not meet -/

lemma Apart.symm (h : Apart b c) : Apart c b := Or.symm h

lemma Apart.not_both (h : Apart b c) (has : b.Has u) (has' : c.Has u) : False := by
  simp only [Apart, Block.Has] at *
  omega

lemma Apart.start_ne (h : Apart b c) (pos : 0 < b.units) (pos' : 0 < c.units) :
    b.start ≠ c.start := by
  simp only [Apart, Block.stop] at h
  omega

lemma apart_of_disjoint (pos : 0 < b.units) (pos' : 0 < c.units)
    (disjoint : ∀ u, b.Has u → c.Has u → False) : Apart b c := by
  by_contra meet
  simp only [Apart, Block.stop, not_or, not_le] at meet
  rcases Nat.le_total b.start c.start with le | le
  · exact disjoint c.start ⟨le, meet.1⟩ ⟨le_rfl, by simp only [Block.stop]; omega⟩
  exact disjoint b.start ⟨le_rfl, by simp only [Block.stop]; omega⟩ ⟨le, meet.2⟩

/-! ### Paths -/

lemma linked_append : Linked ptr size a (A ++ b :: B) z ↔ Linked ptr size a A b.start ∧
    size b.start = b.units ∧ Linked ptr size b.start B z := by
  induction A generalizing a with
  | nil => exact Iff.rfl
  | cons c A ih => simp only [cons_append, Linked, ih, and_assoc]

lemma Linked.congr (h : Linked ptr size a B z) (head : ptr' a' = ptr a)
    (same : ∀ x ∈ starts B, ptr' x = ptr x ∧ size' x = size x) : Linked ptr' size' a' B z := by
  induction B generalizing a a' with
  | nil => exact head.trans h
  | cons b B ih =>
    obtain ⟨first, units, rest⟩ := h
    have here := same b.start mem_cons_self
    exact ⟨head.trans first, here.2.trans units,
      ih rest here.1 fun x mem => same x (mem_cons_of_mem _ mem)⟩

lemma Linked.ptr_last (h : Linked ptr size a B z) : ptr (last a B) = z := by
  induction B generalizing a with
  | nil => exact h
  | cons b B ih => exact ih h.2.2

lemma Linked.size_eq (h : Linked ptr size a B z) (mem : b ∈ B) : size b.start = b.units := by
  induction B generalizing a with
  | nil => cases mem
  | cons c B ih =>
    rcases mem_cons.mp mem with rfl | mem
    · exact h.2.1
    exact ih h.2.2 mem

lemma last_append_singleton : last a (A ++ [b]) = b.start := by
  induction A generalizing a with
  | nil => rfl
  | cons c A ih => exact ih

lemma last_mem : last a B ∈ a :: starts B := by
  induction B generalizing a with
  | nil => exact mem_cons_self
  | cons b B ih => exact mem_cons_of_mem _ ih

lemma last_lt (low : ∀ b ∈ A, b.start < p) (above : a < p) : last a A < p := by
  rcases mem_cons.mp (last_mem (a := a) (B := A)) with eq | mem
  · rwa [eq]
  obtain ⟨b, inA, eq⟩ := mem_map.mp mem
  exact eq ▸ low b inA

lemma linked_append_path : Linked ptr size a (A ++ B) z ↔ Linked ptr size a A (ptr (last a A)) ∧
    Linked ptr size (last a A) B z := by
  induction A generalizing a with
  | nil => exact ⟨fun h => ⟨rfl, h⟩, And.right⟩
  | cons c A ih => simp only [cons_append, Linked, last, ih, and_assoc]

lemma Linked.relink (h : Linked ptr size a A z) (nodup : (a :: starts A).Nodup) (w : Nat) :
    Linked (update ptr (last a A) w) size a A w := by
  induction A generalizing a with
  | nil => exact update_self _ _ _
  | cons b A ih =>
    obtain ⟨first, sized, rest⟩ := h
    obtain ⟨out, nodup⟩ := nodup_cons.mp nodup
    have ne : a ≠ last b.start A := fun eq => out (eq ▸ last_mem)
    exact ⟨(update_of_ne ne _ _).trans first, sized, ih rest nodup⟩

/-! ### Order -/

lemma Ordered.mono (h : Ordered lo B) {lo' : Nat} (le : lo' ≤ lo) : Ordered lo' B := by
  cases B with
  | nil => exact h
  | cons b B => exact ⟨le.trans_lt h.1, h.2⟩

lemma Ordered.above (h : Ordered lo B) (mem : b ∈ B) : lo < b.start ∧ 0 < b.units := by
  induction B generalizing lo with
  | nil => cases mem
  | cons c B ih =>
    rcases mem_cons.mp mem with rfl | mem
    · exact ⟨h.1, h.2.1⟩
    have := ih h.2.2 mem
    have := h.1
    simp only [Block.stop] at *
    exact ⟨by omega, by omega⟩

lemma Ordered.split (h : Ordered lo (A ++ b :: B)) :
    Ordered lo A ∧ lo < b.start ∧ 0 < b.units ∧ Ordered b.stop B ∧ ∀ x ∈ A, x.stop < b.start := by
  induction A generalizing lo with
  | nil => exact ⟨trivial, h.1, h.2.1, h.2.2, nofun⟩
  | cons c A ih =>
    obtain ⟨first, rest⟩ := h
    obtain ⟨before, gap, pos, after, all⟩ := ih rest.2
    have := rest.1
    refine ⟨⟨first, rest.1, before⟩, ?_, pos, after, ?_⟩
    · simp only [Block.stop] at gap
      omega
    intro x mem
    rcases mem_cons.mp mem with rfl | mem
    · exact gap
    exact all x mem

lemma Ordered.join (before : Ordered lo A) (gap : lo < b.start) (pos : 0 < b.units)
    (after : Ordered b.stop B) (all : ∀ x ∈ A, x.stop < b.start) : Ordered lo (A ++ b :: B) := by
  induction A generalizing lo with
  | nil => exact ⟨gap, pos, after⟩
  | cons c A ih =>
    exact ⟨before.1, before.2.1, ih before.2.2 (all c mem_cons_self)
      fun x mem => all x (mem_cons_of_mem _ mem)⟩

lemma ordered_append (h : Ordered lo (A ++ B)) : Ordered lo A ∧ Ordered lo B := by
  induction A generalizing lo with
  | nil => exact ⟨trivial, h⟩
  | cons c A ih =>
    obtain ⟨before, after⟩ := ih h.2.2
    refine ⟨⟨h.1, h.2.1, before⟩, after.mono ?_⟩
    have := h.1
    simp only [Block.stop]
    omega

lemma Ordered.length_le (h : Ordered lo B) : B.length ≤ units B := by
  induction B generalizing lo with
  | nil => exact Nat.zero_le _
  | cons b B ih =>
    have := ih h.2.2
    have := h.2.1
    rw [length_cons, units_cons]
    omega

lemma Ordered.nodup (h : Ordered lo B) : (lo :: starts B).Nodup := by
  induction B generalizing lo with
  | nil => exact nodup_singleton lo
  | cons b B ih =>
    refine nodup_cons.mpr ⟨fun mem => ?_, ?_⟩
    · obtain ⟨c, mem, eq⟩ := mem_map.mp mem
      have := (h.above mem).1
      omega
    refine nodup_cons.mpr ⟨fun mem => ?_, (nodup_cons.mp (ih h.2.2)).2⟩
    obtain ⟨c, mem, eq⟩ := mem_map.mp mem
    have := (h.2.2.above mem).1
    have := h.2.1
    simp only [Block.stop] at *
    omega

lemma Ordered.place (h : Ordered lo L) (x : Nat) (out : x ∉ starts L) :
    ∃ A B, L = A ++ B ∧ (∀ b ∈ A, b.start < x) ∧ ∀ b ∈ B, x < b.start := by
  induction L generalizing lo with
  | nil => exact ⟨[], [], rfl, fun b mem => absurd mem not_mem_nil,
      fun b mem => absurd mem not_mem_nil⟩
  | cons c L ih =>
    obtain ⟨ne, out⟩ := not_or.mp (fun mem => out (mem_cons.mpr mem))
    by_cases before : c.start < x
    · obtain ⟨A, B, rfl, low, high⟩ := ih h.2.2 out
      refine ⟨c :: A, B, rfl, fun b mem => ?_, high⟩
      rcases mem_cons.mp mem with rfl | mem
      · exact before
      exact low b mem
    refine ⟨[], c :: L, rfl, fun b mem => absurd mem not_mem_nil, fun b mem => ?_⟩
    rcases mem_cons.mp mem with rfl | mem
    · omega
    have := (h.2.2.above mem).1
    simp only [Block.stop] at this
    omega

/-! ### Walks -/

lemma Linked.next (h : Linked ptr size a B z) (order : Ordered a B) (mem : p ∈ a :: starts B) :
    p = last a B ∨ (ptr p ∈ starts B ∧ p < ptr p) := by
  induction B generalizing a with
  | nil => exact .inl (mem_singleton.mp mem)
  | cons b B ih =>
    rcases mem_cons.mp mem with rfl | mem
    · rw [h.1]
      exact .inr ⟨mem_cons_self, order.1⟩
    have order' : Ordered b.start B := order.2.2.mono (Nat.le_add_right _ _)
    rcases ih h.2.2 order' mem with eq | ⟨mem, lt⟩
    · exact .inl eq
    exact .inr ⟨mem_cons_of_mem _ mem, lt⟩

lemma Linked.reach_end (h : Linked ptr size a B z) (mem : p ∈ a :: starts B) :
    ∃ k, k ≤ B.length + 1 ∧ ptr^[k] p = z := by
  induction B generalizing a p with
  | nil => exact ⟨1, le_rfl, by rw [mem_singleton.mp mem]; exact h⟩
  | cons b B ih =>
    rcases mem_cons.mp mem with rfl | mem
    · obtain ⟨k, le, eq⟩ := ih h.2.2 mem_cons_self
      refine ⟨k + 1, Nat.succ_le_succ le, ?_⟩
      rw [iterate_succ_apply, h.1, eq]
    obtain ⟨k, le, eq⟩ := ih h.2.2 mem
    exact ⟨k, le.trans (Nat.le_succ _), eq⟩

lemma Linked.reach (h : Linked ptr size a B z) (mem : p ∈ a :: starts B) :
    ∃ k, k ≤ B.length ∧ ptr^[k] a = p := by
  induction B generalizing a with
  | nil => exact ⟨0, le_rfl, (mem_singleton.mp mem).symm⟩
  | cons b B ih =>
    rcases mem_cons.mp mem with rfl | mem
    · exact ⟨0, Nat.zero_le _, rfl⟩
    obtain ⟨k, le, eq⟩ := ih h.2.2 mem
    refine ⟨k + 1, Nat.succ_le_succ le, ?_⟩
    rw [iterate_succ_apply, h.1, eq]

lemma Linked.around {q : Nat} (h : Linked ptr size a L a) (mem : p ∈ a :: starts L)
    (mem' : q ∈ a :: starts L) : ∃ k, k ≤ 2 * L.length + 1 ∧ ptr^[k] p = q := by
  obtain ⟨j, le, eq⟩ := h.reach_end mem
  obtain ⟨k, le', eq'⟩ := h.reach mem'
  refine ⟨k + j, by omega, ?_⟩
  rw [iterate_add_apply, eq, eq']

lemma Linked.ptr_mem (h : Linked ptr size a B z) (mem : p ∈ a :: starts B) :
    ptr p ∈ z :: starts B := by
  induction B generalizing a with
  | nil =>
    rw [mem_singleton.mp mem]
    exact mem_cons.mpr (.inl h)
  | cons b B ih =>
    rcases mem_cons.mp mem with rfl | mem
    · rw [h.1]
      exact mem_cons_of_mem _ mem_cons_self
    rcases mem_cons.mp (ih h.2.2 mem) with eq | mem
    · exact mem_cons.mpr (.inl eq)
    exact mem_cons_of_mem _ (mem_cons_of_mem _ mem)

end FreeList
