import Mathlib.Algebra.BigOperators.Group.List.Basic
import Mathlib.Algebra.Order.Ring.Int

/-! Pieces of a sequence laid one behind the other, and the sequence that they are written to. -/
namespace Tiling
open List

variable {ι α : Type}

/-- The pieces of a list, with the start and the length of each, cover the positions from `a` to
`b` in order. -/
def Tiled (start len : ι → Nat) : Nat → List ι → Nat → Prop
  | a, [], b => a = b
  | a, c :: cs, b => start c = a ∧ Tiled start len (a + len c) cs b

variable {start len : ι → Nat} {a b : Nat} {c : ι} {cs : List ι}

lemma Tiled.snoc (t : Tiled start len a cs b) (at' : start c = b) :
    Tiled start len a (cs ++ [c]) (b + len c) := by
  induction cs generalizing a with
  | nil =>
    obtain rfl : a = b := t
    exact ⟨at', rfl⟩
  | cons d cs ih => exact ⟨t.1, ih t.2⟩

lemma Tiled.sum (t : Tiled start len a cs b) : b = a + (cs.map len).sum := by
  induction cs generalizing a with
  | nil => exact Eq.symm t
  | cons d cs ih => rw [ih t.2, map_cons, sum_cons, Nat.add_assoc]

lemma Tiled.mem (t : Tiled start len a cs b) (mem : c ∈ cs) :
    a ≤ start c ∧ start c + len c ≤ b := by
  induction cs generalizing a with
  | nil => exact absurd mem not_mem_nil
  | cons d cs ih =>
    have rest := t.2.sum
    rcases mem_cons.mp mem with rfl | mem
    · have first := t.1
      omega
    have inside := ih t.2 mem
    omega

lemma Tiled.pairwise (t : Tiled start len a cs b) :
    cs.Pairwise fun c d => start c + len c ≤ start d := by
  induction cs generalizing a with
  | nil => exact List.Pairwise.nil
  | cons d cs ih =>
    refine List.Pairwise.cons (fun e mem => ?_) (ih t.2)
    rw [t.1]
    exact (t.2.mem mem).1

def slice (xs : List α) (i n : Nat) : List α := (xs.drop i).take n

/-- Elements are written at position `i`, over the old ones and behind the end. -/
def writeAt (xs : List α) (i : Nat) (ys : List α) : List α :=
  xs.take i ++ ys ++ xs.drop (i + ys.length)

variable {xs ys : List α} {i j n : Nat}

lemma length_writeAt (inside : i ≤ xs.length) :
    (writeAt xs i ys).length = max xs.length (i + ys.length) := by
  rw [writeAt, length_append, length_append, length_take, length_drop]
  omega

lemma slice_writeAt_self (inside : i ≤ xs.length) : slice (writeAt xs i ys) i ys.length = ys := by
  have front : (xs.take i).length = i := by
    rw [length_take]
    omega
  rw [slice, writeAt, append_assoc, drop_append_of_le_length (Nat.le_of_eq front.symm)]
  rw [drop_of_length_le (Nat.le_of_eq front), nil_append, take_left]

lemma slice_writeAt_before (inside : i ≤ xs.length) (before : j + n ≤ i) :
    slice (writeAt xs i ys) j n = slice xs j n := by
  have front : (xs.take i).length = i := by
    rw [length_take]
    omega
  have part : ((xs.take i).drop j).length = i - j := by rw [length_drop, front]
  rw [slice, slice, writeAt, append_assoc, drop_append_of_le_length (by omega),
    take_append_of_le_length (by omega), drop_take, take_take, Nat.min_eq_left (by omega)]

end Tiling
