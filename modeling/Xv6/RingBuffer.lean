import Mathlib.Algebra.Order.Ring.Int
import Mathlib.Data.List.Basic

/-! A ring buffer whose indices are free-running counters of `w` bits, used modulo a size that
divides `2 ^ w`. The items are those that were ever put in; the buffer holds them from a first
index on, as long as there are no more of them than it has slots. -/
namespace RingBuffer
open List Function

universe u
variable {α : Type u} {w : Nat} {a b N : Nat}

/-! Counters that may wrap, for numbers that do not. -/

lemma counter_eq_iff (le : a ≤ b) (near : b - a < 2 ^ w) :
    BitVec.ofNat w a = BitVec.ofNat w b ↔ a = b := by
  constructor
  · intro eq
    have same := congrArg BitVec.toNat eq
    rw [BitVec.toNat_ofNat, BitVec.toNat_ofNat] at same
    have zero : (b - a) % 2 ^ w = 0 := Nat.sub_mod_eq_zero_of_mod_eq same.symm
    rw [Nat.mod_eq_of_lt near] at zero
    omega
  rintro rfl
  rfl

lemma counter_succ (a : Nat) : BitVec.ofNat w a + 1 = BitVec.ofNat w (a + 1) :=
  (BitVec.ofNat_add a 1).symm

lemma counter_add (a k : Nat) : BitVec.ofNat w a + BitVec.ofNat w k = BitVec.ofNat w (a + k) :=
  (BitVec.ofNat_add a k).symm

lemma counter_pred (a : Nat) : BitVec.ofNat w (a + 1) - 1 = BitVec.ofNat w a := by
  rw [← counter_succ, BitVec.add_sub_cancel]

lemma counter_sub (le : a ≤ b) (near : b - a < 2 ^ w) :
    (BitVec.ofNat w b - BitVec.ofNat w a).toNat = b - a := by
  have split : BitVec.ofNat w b = BitVec.ofNat w (b - a) + BitVec.ofNat w a := by
    rw [counter_add, Nat.sub_add_cancel le]
  rw [split, BitVec.add_sub_cancel, BitVec.toNat_ofNat, Nat.mod_eq_of_lt near]

lemma counter_mod (divides : N ∣ 2 ^ w) (a : Nat) : (BitVec.ofNat w a).toNat % N = a % N := by
  rw [BitVec.toNat_ofNat, Nat.mod_mod_of_dvd a divides]

def Holds (N : Nat) (data : Nat → α) (items : List α) (lo : Nat) : Prop :=
  ∀ k x, lo ≤ k → items[k]? = some x → data (k % N) = x

namespace Holds
variable {data : Nat → α} {items : List α} {lo : Nat}

lemma nil (data : Nat → α) (lo : Nat) : Holds N data [] lo := fun k x _ here => by
  rw [getElem?_nil] at here
  cases here

section
variable (h : Holds N data items lo)
include h

lemma get {x : α} (here : items[lo]? = some x) : data (lo % N) = x := h lo x (Nat.le_refl lo) here

lemma mono {lo' : Nat} (le : lo ≤ lo') : Holds N data items lo' :=
  fun k x from_lo here => h k x (le_trans le from_lo) here

lemma push (room : items.length < lo + N) (x : α) :
    Holds N (update data (items.length % N) x) (items ++ [x]) lo := by
  intro k y from_lo here
  rcases Nat.lt_trichotomy k items.length with before | rfl | after
  · rw [getElem?_append_left before] at here
    have other : k % N ≠ items.length % N := by
      intro same
      have zero : (items.length - k) % N = 0 := Nat.sub_mod_eq_zero_of_mod_eq same.symm
      rw [Nat.mod_eq_of_lt (by omega)] at zero
      omega
    rw [update_of_ne other]
    exact h k y from_lo here
  · rw [getElem?_concat_length] at here
    rw [update_self]
    exact Option.some.inj here
  rw [getElem?_eq_none (by simp; omega)] at here
  cases here

lemma snoc {x : α} (here : data (items.length % N) = x) : Holds N data (items ++ [x]) lo := by
  intro k y from_lo there
  rcases Nat.lt_trichotomy k items.length with before | rfl | after
  · rw [getElem?_append_left before] at there
    exact h k y from_lo there
  · rw [getElem?_concat_length] at there
    exact here.trans (Option.some.inj there)
  rw [getElem?_eq_none (by simp; omega)] at there
  cases there

lemma take (n : Nat) : Holds N data (items.take n) lo := by
  intro k x from_lo here
  rw [getElem?_take] at here
  split_ifs at here with before
  exact h k x from_lo here

end

end Holds
end RingBuffer
