import Mathlib.Algebra.Order.Group.Nat

/-! The two functions `memmove`, of string.c in the kernel and of ulib.c for user programs. They
return `dst`, and write the memory that is the result here. -/
namespace Xv6.Memmove
open Function (update update_apply)

variable {α : Type} {d s n : Nat} {m : Nat → α}

/-- `p + n` for a pointer `p`. -/
def add (p n : Nat) : Nat := (p + n) % 2 ^ 64

/-- `p - 1` for a pointer `p`. -/
def pred (p : Nat) : Nat := (p + 2 ^ 64 - 1) % 2 ^ 64

/-- `while(n-- > 0) *d++ = *s++;` -/
def ascending : Nat → Nat → Nat → (Nat → α) → Nat → α
  | 0, _, _, m => m
  | n + 1, d, s, m => ascending n (add d 1) (add s 1) (update m d (m s))

/-- `while(n-- > 0) *--d = *--s;` -/
def descending : Nat → Nat → Nat → (Nat → α) → Nat → α
  | 0, _, _, m => m
  | n + 1, d, s, m => descending n (pred d) (pred s) (update m (pred d) (m (pred s)))

def kernelMemmove (dst src n : Nat) (m : Nat → α) : Nat → α :=
  if n = 0 then m
  else if src < dst ∧ dst < add src n then descending n (add dst n) (add src n) m
  else ascending n dst src m

def userMemmove (dst src n : Nat) (m : Nat → α) : Nat → α :=
  if dst < src then ascending n dst src m else descending n (add dst n) (add src n) m

/-- All bytes at once. -/
def moved (dst src n : Nat) (m : Nat → α) (a : Nat) : α :=
  if dst ≤ a ∧ a < dst + n then m (src + (a - dst)) else m a

lemma add_eq {p n : Nat} (lt : p + n < 2 ^ 64) : add p n = p + n := Nat.mod_eq_of_lt lt

lemma pred_add {p : Nat} (le : p + (n + 1) ≤ 2 ^ 64) : pred (add p (n + 1)) = p + n := by
  rw [pred, add]
  omega

lemma moved_zero : moved d s 0 m = m := by
  funext a
  exact if_neg (by omega)

lemma moved_first (clear : d ≤ s ∨ s + (n + 1) ≤ d) :
    moved (d + 1) (s + 1) n (update m d (m s)) = moved d s (n + 1) m := by
  funext a
  rw [moved, moved]
  by_cases first : a = d
  · subst first
    rw [if_neg (by omega), if_pos (by omega), update_apply, if_pos rfl, Nat.sub_self, Nat.add_zero]
  by_cases inside : d + 1 ≤ a ∧ a < d + 1 + n
  · rw [if_pos inside, if_pos (by omega), update_apply, if_neg (by omega)]
    congr 1
    omega
  rw [if_neg inside, if_neg (by omega), update_apply, if_neg first]

lemma moved_last (clear : s ≤ d ∨ d + (n + 1) ≤ s) :
    moved d s n (update m (d + n) (m (s + n))) = moved d s (n + 1) m := by
  funext a
  rw [moved, moved]
  by_cases last : a = d + n
  · subst last
    rw [if_neg (by omega), if_pos (by omega), update_apply, if_pos rfl, Nat.add_sub_cancel_left]
  by_cases inside : d ≤ a ∧ a < d + n
  · rw [if_pos inside, if_pos (by omega), update_apply, if_neg (by omega)]
  rw [if_neg inside, if_neg (by omega), update_apply, if_neg last]

lemma ascending_eq (n d s : Nat) (m : Nat → α) (dst : d + n ≤ 2 ^ 64) (src : s + n ≤ 2 ^ 64)
    (clear : d ≤ s ∨ s + n ≤ d) : ascending n d s m = moved d s n m := by
  induction n generalizing d s m with
  | zero => exact moved_zero.symm
  | succ n ih =>
    rw [ascending, ← moved_first clear]
    cases n with
    | zero => exact moved_zero.symm
    | succ n =>
      rw [add_eq (by omega), add_eq (by omega)]
      exact ih (d + 1) (s + 1) _ (by omega) (by omega) (by omega)

lemma descending_eq (n d s : Nat) (m : Nat → α) (dst : d + n ≤ 2 ^ 64) (src : s + n ≤ 2 ^ 64)
    (clear : s ≤ d ∨ d + n ≤ s) : descending n (add d n) (add s n) m = moved d s n m := by
  induction n generalizing m with
  | zero => exact moved_zero.symm
  | succ n ih =>
    rw [descending, pred_add dst, pred_add src, ← moved_last clear, ← add_eq (by omega),
      ← add_eq (by omega)]
    rw [ih _ (by omega) (by omega) (by omega)]

lemma kernelMemmove_eq (dst src n : Nat) (m : Nat → α) (room : dst + n ≤ 2 ^ 64)
    (room' : src + n ≤ 2 ^ 64) : kernelMemmove dst src n m = moved dst src n m := by
  unfold kernelMemmove
  split_ifs with none down
  · rw [none, moved_zero]
  · exact descending_eq n dst src m room room' (.inl (Nat.le_of_lt down.1))
  refine ascending_eq n dst src m room room' ?_
  -- a source that ends at 2 ^ 64 does not begin below the destination
  by_cases before : src < dst
  · rw [add_eq (by omega)] at down
    omega
  exact .inl (Nat.le_of_not_lt before)

lemma userMemmove_eq (dst src n : Nat) (m : Nat → α) (room : dst + n ≤ 2 ^ 64)
    (room' : src + n ≤ 2 ^ 64) : userMemmove dst src n m = moved dst src n m := by
  unfold userMemmove
  split_ifs with up
  · exact ascending_eq n dst src m room room' (.inl (Nat.le_of_lt up))
  exact descending_eq n dst src m room room' (.inl (Nat.le_of_not_lt up))

/-- Both leave the bytes that were at the source at the destination and change no other byte. -/
theorem memmoves_are_simultaneous (dst src n : Nat) (m : Nat → UInt8) (room : dst + n ≤ 2 ^ 64)
    (room' : src + n ≤ 2 ^ 64) :
    (∀ i < n, kernelMemmove dst src n m (dst + i) = m (src + i) ∧
      userMemmove dst src n m (dst + i) = m (src + i)) ∧
    (∀ a, ¬ (dst ≤ a ∧ a < dst + n) → kernelMemmove dst src n m a = m a ∧
      userMemmove dst src n m a = m a) ∧
    kernelMemmove dst src n m = userMemmove dst src n m := by
  rw [kernelMemmove_eq dst src n m room room', userMemmove_eq dst src n m room room']
  refine ⟨fun i less => ?_, fun a out => ⟨if_neg out, if_neg out⟩, rfl⟩
  have here : moved dst src n m (dst + i) = m (src + i) := by
    rw [moved, if_pos (by omega), Nat.add_sub_cancel_left]
  exact ⟨here, here⟩

/-- Two bytes are moved by one, to the end of the address space. -/
theorem overlapping_move :
    kernelMemmove (2 ^ 64 - 2) (2 ^ 64 - 3) 2 (fun a => if a = 2 ^ 64 - 3 then 5 else 7)
      (2 ^ 64 - 2) = (5 : UInt8) :=
  ((memmoves_are_simultaneous (2 ^ 64 - 2) (2 ^ 64 - 3) 2 _ (by decide) (by decide)).1 0
    (by decide)).1

end Xv6.Memmove
