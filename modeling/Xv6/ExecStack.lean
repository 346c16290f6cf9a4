import Xv6.UserCopy

/-! The argument stack of `exec` (exec.c): the strings of `argv` and the array of their addresses,
pushed to the last page of the new image. -/
namespace Xv6.Exec
open PageTable UserCopy List Option

abbrev maxarg : Nat := 32

/-- `sp - n` in 64 bits. -/
@[irreducible] def sub64 (sp n : Nat) : Nat := (sp + 2 ^ 64 - n) % 2 ^ 64

def text (s : List UInt8) : Bytes := fun i => s.getD i 0

def wordBytes (ustack : List Nat) : Bytes := fun i =>
  UInt8.ofNat (ustack.getD (i / 8) 0 / 256 ^ (i % 8))

section
variable (w : Words) (root : Nat)

/-- The loop over `argv`, with `ustack` and `sp`; `none` is `goto bad`. -/
def pushStrings (stackbase : Nat) :
    List (List UInt8) → List Nat → Nat → Bytes → Option (List Nat × Nat) × Bytes
  | [], ustack, sp, m => (some (ustack, sp), m)
  | s :: argv, ustack, sp, m =>
    if maxarg ≤ ustack.length then (none, m)
    else
      let sp := sub64 sp (s.length + 1)
      let sp := sp - sp % 16
      if sp < stackbase then (none, m)
      else
        let r := copyout w root sp (text s) (s.length + 1) m
        if r.1 < 0 then (none, r.2) else pushStrings stackbase argv (ustack ++ [sp]) sp r.2

def pushWords (stackbase : Nat) (ustack : List Nat) (sp : Nat) (m : Bytes) :
    Option (Nat × Nat) × Bytes :=
  let argc := ustack.length
  let sp := sub64 sp ((argc + 1) * 8)
  let sp := sp - sp % 16
  if sp < stackbase then (none, m)
  else
    let r := copyout w root sp (wordBytes (ustack ++ [0])) ((argc + 1) * 8) m
    if r.1 < 0 then (none, r.2) else (some (argc, sp), r.2)

/-- The strings and the array, from the end `sz` of the image down. -/
def pushArgs (sz : Nat) (argv : List (List UInt8)) (m : Bytes) : Option (Nat × Nat) × Bytes :=
  let stackbase := sub64 sz pgsize
  let r := pushStrings w root stackbase argv [] sz m
  match r.1 with
  | none => (none, r.2)
  | some u => pushWords w root stackbase u.1 u.2 r.2

end

/-! ### The layout -/

def roundup (n : Nat) : Nat := (n + 15) / 16 * 16

def needed (argv : List (List UInt8)) : Nat := (argv.map fun s => roundup (s.length + 1)).sum

def stackSize (argv : List (List UInt8)) : Nat :=
  needed argv + roundup ((argv.length + 1) * 8)

/-- Where the strings are, from the top `sp` of the free part of the stack on. -/
def addrs : Nat → List (List UInt8) → List Nat
  | _, [] => []
  | sp, s :: argv => (sp - roundup (s.length + 1)) :: addrs (sp - roundup (s.length + 1)) argv

def regions (sp : Nat) (argv : List (List UInt8)) : List (Nat × Nat) :=
  (addrs sp argv).zip (argv.map fun s => s.length + 1)

def Apart (r r' : Nat × Nat) : Prop := r.1 + r.2 ≤ r'.1 ∨ r'.1 + r'.2 ≤ r.1

lemma needed_cons (s : List UInt8) (argv : List (List UInt8)) :
    needed (s :: argv) = roundup (s.length + 1) + needed argv := by
  rw [needed, map_cons, sum_cons]
  rfl

lemma roundup_mod (n : Nat) : roundup n % 16 = 0 := Nat.mul_mod_left ..

lemma needed_mod (argv : List (List UInt8)) : needed argv % 16 = 0 := by
  induction argv with
  | nil => rfl
  | cons s argv ih =>
    have := roundup_mod (s.length + 1)
    rw [needed_cons]
    omega

lemma length_addrs (sp : Nat) (argv : List (List UInt8)) :
    (addrs sp argv).length = argv.length := by
  induction argv generalizing sp with
  | nil => rfl
  | cons s argv ih => rw [addrs, length_cons, length_cons, ih]

lemma sub_align {sp n : Nat} (aligned : sp % 16 = 0) (le : n ≤ sp) (small : sp < 2 ^ 64) :
    sub64 sp n - sub64 sp n % 16 = sp - roundup n := by
  rw [sub64, roundup]
  omega

lemma regions_apart (sp : Nat) (argv : List (List UInt8)) (fits : needed argv ≤ sp) :
    (∀ r ∈ regions sp argv, sp - needed argv ≤ r.1 ∧ r.1 + r.2 ≤ sp) ∧
    (regions sp argv).Pairwise Apart := by
  induction argv generalizing sp with
  | nil => exact ⟨fun r mem => absurd mem not_mem_nil, .nil⟩
  | cons s argv ih =>
    rw [needed_cons] at fits ⊢
    obtain ⟨inside, apart⟩ := ih (sp - roundup (s.length + 1)) (by omega)
    have room : s.length + 1 ≤ roundup (s.length + 1) := by
      rw [roundup]
      omega
    rw [regions, addrs, map_cons, zip_cons_cons]
    refine ⟨fun r mem => ?_, .cons (fun r mem => .inr ?_) apart⟩
    · rcases mem_cons.mp mem with rfl | mem
      · dsimp only
        omega
      have := inside r mem
      omega
    exact (inside r mem).2

/-! ### The bytes on the stack -/

def peek (w : Words) (root : Nat) (m : Bytes) (a : Nat) : Option UInt8 := (paddr w root a).map m

def word (w : Words) (root : Nat) (m : Bytes) (a : Nat) : Nat :=
  ((List.range 8).map fun j => ((peek w root m (a + j)).getD 0).toNat * 256 ^ j).sum

structure Stack (w : Words) (root base : Nat) : Prop where
  backed : Backed w root
  apart : UserCopy.Apart w root
  mapped : ∀ a, base ≤ a → a < base + pgsize → paddr w root a ≠ none
  aligned : base % pgsize = 0
  guard : pgsize ≤ base

section
variable {w : Words} {root base : Nat}

section
variable (h : Stack w root base)
include h

lemma Stack.below : base + pgsize ≤ maxva := by
  obtain ⟨x, here⟩ := ne_none_iff_exists'.mp
    (h.mapped (base + (pgsize - 1)) (by omega) (by simp only [pgsize]; omega))
  have := paddr_lt here
  simp only [pgsize] at *
  omega

lemma Stack.small : base + pgsize < 2 ^ 64 := by
  have := h.below
  have : maxva = 2 ^ 38 := by decide
  omega

lemma Stack.base_eq : sub64 (base + pgsize) pgsize = base := by
  have := h.small
  rw [sub64]
  omega

lemma Stack.copyout (va len : Nat) (low : base ≤ va) (high : va + len ≤ base + pgsize)
    (src m : Bytes) : ∃ m', UserCopy.copyout w root va src len m = (0, m') ∧
    (∀ i < len, peek w root m' (va + i) = some (src i)) ∧ ∀ a, a < va ∨ va + len ≤ a →
    peek w root m' a = peek w root m a := by
  obtain ⟨done, -, -, bytes, frame, result⟩ := copyout_spec w root va src len m
  have all : (UserCopy.copyout w root va src len m).1 = 0 ∧ done = len := by
    rcases result with ok | ⟨-, less, stop⟩
    · exact ok
    exact absurd (stop h.backed) (h.mapped _ (by omega) (by omega))
  obtain ⟨ok, rfl⟩ := all
  refine ⟨_, Prod.ext ok rfl, fun i less => ?_, fun a out => ?_⟩
  · obtain ⟨x, here, byte⟩ := bytes h.apart i less
    rw [peek, here, map_some]
    exact congrArg some byte
  rw [peek, peek]
  cases here : paddr w root a with
  | none => rfl
  | some x =>
    rw [map_some, map_some]
    refine congrArg some (frame x fun i less there => ?_)
    have := paddr_inj h.apart here there
    omega

lemma Stack.pushStrings (argv : List (List UInt8)) (ustack : List Nat) (sp : Nat) (m : Bytes)
    (few : ustack.length + argv.length < maxarg) (short : ∀ s ∈ argv, s.length < pgsize)
    (aligned : sp % 16 = 0) (low : base ≤ sp) (high : sp ≤ base + pgsize) :
    (sp < base + needed argv → (Exec.pushStrings w root base argv ustack sp m).1 = none) ∧
    (base + needed argv ≤ sp → ∃ m', Exec.pushStrings w root base argv ustack sp m =
    (some (ustack ++ addrs sp argv, sp - needed argv), m') ∧ (∀ a, a < sp - needed argv ∨ sp ≤ a →
    peek w root m' a = peek w root m a) ∧ List.Forall₂ (fun a s => a % 16 = 0 ∧ sp - needed argv ≤
    a ∧ ∀ j ≤ s.length, peek w root m' (a + j) = some (text s j)) (addrs sp argv) argv) := by
  induction argv generalizing ustack sp m with
  | nil =>
    refine ⟨fun less => absurd less (Nat.not_lt.mpr low), fun _ => ⟨m, ?_, fun _ _ => rfl, .nil⟩⟩
    rw [addrs, append_nil]
    rfl
  | cons s argv ih =>
    have guard := h.guard
    have length := short s mem_cons_self
    have small := h.small
    rw [length_cons] at few
    rw [Exec.pushStrings, if_neg (Nat.not_le.mpr (by omega)), needed_cons, addrs]
    simp only
    rw [sub_align aligned (by omega) (by omega)]
    have room : s.length + 1 ≤ roundup (s.length + 1) := by
      rw [roundup]
      omega
    have next : (sp - roundup (s.length + 1)) % 16 = 0 := by
      simp only [roundup, pgsize] at *
      omega
    by_cases past : sp - roundup (s.length + 1) < base
    · rw [if_pos past]
      exact ⟨fun _ => rfl, fun fits => absurd past (by omega)⟩
    rw [if_neg past]
    obtain ⟨m₁, copied, bytes, kept⟩ := h.copyout (sp - roundup (s.length + 1))
      (s.length + 1) (by omega) (by omega) (text s) m
    rw [copied, if_neg (show ¬ (0 : Int) < 0 by decide)]
    obtain ⟨bad, good⟩ := ih (ustack ++ [sp - roundup (s.length + 1)]) (sp - roundup (s.length + 1))
      m₁ (by rw [length_append, length_singleton]; omega) (fun t mem => short t (mem_cons_of_mem s
      mem)) next (by omega) (by omega)
    refine ⟨fun less => bad (by omega), fun fits => ?_⟩
    obtain ⟨m', run, kept', stored⟩ := good (by omega)
    rw [Nat.sub_sub] at stored
    refine ⟨m', ?_, fun a out => ?_, .cons ⟨next, by omega, fun j le => ?_⟩ stored⟩
    · rw [run, append_assoc, singleton_append, Nat.sub_sub]
    · rw [kept' a (by omega), kept a (by omega)]
    rw [kept' _ (.inr (Nat.le_add_right ..)), bytes j (by omega)]

end

lemma word_wordBytes {ustack : List Nat} {m : Bytes} {a i : Nat}
    (stored : ∀ j < 8, peek w root m (a + j) = some (wordBytes ustack (8 * i + j)))
    (small : ustack.getD i 0 < 2 ^ 64) : word w root m a = ustack.getD i 0 := by
  have byte : ∀ j < 8, ((peek w root m (a + j)).getD 0).toNat * 256 ^ j =
      ustack.getD i 0 / 256 ^ j % 256 * 256 ^ j := by
    intro j less
    rw [stored j less, getD_some, wordBytes, show (8 * i + j) / 8 = i by omega,
      show (8 * i + j) % 8 = j by omega, UInt8.toNat_ofNat']
  rw [word, map_congr_left fun j mem => byte j (mem_range.mp mem)]
  generalize ustack.getD i 0 = v at small
  simp only [range_succ, range_zero, nil_append, map_append, map_cons,
    map_nil, sum_append, sum_cons, sum_nil]
  omega

/-- What `exec` leaves on the stack: the addresses of the strings at `sp`, and the strings. -/
structure Arguments (w : Words) (root : Nat) (m : Bytes) (base sp : Nat)
    (argv : List (List UInt8)) : Prop where
  aligned : sp % 16 = 0
  above : base ≤ sp
  words : ∀ i ≤ argv.length,
    word w root m (sp + 8 * i) = (addrs (base + pgsize) argv ++ [0]).getD i 0
  strings : List.Forall₂ (fun a s => a % 16 = 0 ∧
    ∀ j ≤ s.length, peek w root m (a + j) = some (text s j)) (addrs (base + pgsize) argv) argv
  apart : ((sp, (argv.length + 1) * 8) :: regions (base + pgsize) argv).Pairwise Apart
  inside : ∀ r ∈ (sp, (argv.length + 1) * 8) :: regions (base + pgsize) argv,
    base ≤ r.1 ∧ r.1 + r.2 ≤ base + pgsize

lemma addrs_le (sp : Nat) (argv : List (List UInt8)) : ∀ a ∈ addrs sp argv, a ≤ sp := by
  induction argv generalizing sp with
  | nil => exact fun a mem => absurd mem not_mem_nil
  | cons s argv ih =>
    intro a mem
    rcases mem_cons.mp mem with rfl | mem
    · exact Nat.sub_le ..
    exact (ih _ a mem).trans (Nat.sub_le ..)

lemma getD_addrs_lt {sp : Nat} (argv : List (List UInt8)) (small : sp < 2 ^ 64) (i : Nat) :
    (addrs sp argv ++ [0]).getD i 0 < 2 ^ 64 := by
  by_cases inside : i < (addrs sp argv ++ [0]).length
  · have mem : (addrs sp argv ++ [0]).getD i 0 ∈ addrs sp argv ++ [0] := by
      rw [getD_eq_getElem _ _ inside]
      exact getElem_mem inside
    rcases mem_append.mp mem with here | zero
    · exact (addrs_le sp argv _ here).trans_lt small
    rw [mem_singleton.mp zero]
    exact Nat.two_pow_pos 64
  rw [getD_eq_default _ _ (Nat.not_lt.mp inside)]
  exact Nat.two_pow_pos 64

lemma Stack.pushArgs (h : Stack w root base) (argv : List (List UInt8))
    (few : argv.length < maxarg) (short : ∀ s ∈ argv, s.length < pgsize) (m : Bytes) :
    (pgsize < stackSize argv → (Exec.pushArgs w root (base + pgsize) argv m).1 = none) ∧
    (stackSize argv ≤ pgsize → ∃ m', Exec.pushArgs w root (base + pgsize) argv m =
    (some (argv.length, base + pgsize - stackSize argv), m') ∧
    Arguments w root m' base (base + pgsize - stackSize argv) argv) := by
  have small := h.small
  have guard := h.guard
  have aligned : (base + pgsize) % 16 = 0 := by
    have := h.aligned
    simp only [pgsize] at *
    omega
  obtain ⟨bad, good⟩ := h.pushStrings argv [] (base + pgsize) m
    (by rwa [length_nil, Nat.zero_add]) short aligned (Nat.le_add_right ..) le_rfl
  rw [Exec.pushArgs, h.base_eq, stackSize]
  by_cases strings : base + needed argv ≤ base + pgsize
  · obtain ⟨m₁, run, kept, stored⟩ := good strings
    rw [run, nil_append]
    dsimp only
    rw [pushWords, length_addrs]
    dsimp only
    have few' : (argv.length + 1) * 8 ≤ 256 := by
      simp only [maxarg] at few
      omega
    have whole := needed_mod argv
    have even : (base + pgsize - needed argv) % 16 = 0 := by omega
    have page : 272 ≤ pgsize := by decide
    rw [sub_align even (by omega) (by omega)]
    have room : (argv.length + 1) * 8 ≤ roundup ((argv.length + 1) * 8) ∧
        roundup ((argv.length + 1) * 8) ≤ 272 := by
      rw [roundup]
      omega
    have whole' := roundup_mod ((argv.length + 1) * 8)
    have next : (base + pgsize - needed argv - roundup ((argv.length + 1) * 8)) % 16 = 0 := by omega
    rw [← Nat.sub_sub]
    by_cases past : base + pgsize - needed argv - roundup ((argv.length + 1) * 8) < base
    · rw [if_pos past]
      exact ⟨fun _ => rfl, fun fits => absurd past (by omega)⟩
    rw [if_neg past]
    obtain ⟨m', copied, bytes, kept'⟩ := h.copyout
      (base + pgsize - needed argv - roundup ((argv.length + 1) * 8)) ((argv.length + 1) * 8)
      (by omega) (by omega) (wordBytes (addrs (base + pgsize) argv ++ [0])) m₁
    rw [copied, if_neg (show ¬ (0 : Int) < 0 by decide)]
    obtain ⟨inside, apart⟩ := regions_apart (base + pgsize) argv (by omega)
    refine ⟨fun over' => absurd over' (by omega), fun fits => ⟨m', rfl, next, by omega,
      fun i le => ?_, stored.imp ?_, .cons (fun r mem => .inl ?_) apart, fun r mem => ?_⟩⟩
    · refine word_wordBytes (fun j less => ?_) (getD_addrs_lt argv small i)
      rw [Nat.add_assoc, bytes (8 * i + j) (by omega)]
    · grind
    · have := inside r mem
      dsimp only
      omega
    rcases mem_cons.mp mem with rfl | mem
    · dsimp only
      omega
    have := inside r mem
    omega
  have none := bad (by omega)
  refine ⟨fun _ => ?_, fun fits => absurd strings (by omega)⟩
  rw [none]

end

/-! ### What the stack does not touch -/

section
variable {w : Words} {root y : Nat}

section
variable (none : ∀ a, paddr w root a ≠ some y)
include none

lemma copyout_frame (va : Nat) (src : Bytes) (len : Nat) (m : Bytes) :
    (copyout w root va src len m).2 y = m y := by
  obtain ⟨done, -, -, -, frame, -⟩ := copyout_spec w root va src len m
  exact frame y fun i _ => none (va + i)

lemma pushStrings_frame (base : Nat) (argv : List (List UInt8)) (ustack : List Nat) (sp : Nat)
    (m : Bytes) : (pushStrings w root base argv ustack sp m).2 y = m y := by
  induction argv generalizing ustack sp m with
  | nil => rfl
  | cons s argv ih =>
    rw [pushStrings]
    simp only
    split_ifs
    · rfl
    · rfl
    · exact copyout_frame none ..
    rw [ih, copyout_frame none]

lemma pushWords_frame (base : Nat) (ustack : List Nat) (sp : Nat) (m : Bytes) :
    (pushWords w root base ustack sp m).2 y = m y := by
  rw [pushWords]
  simp only
  split_ifs
  · rfl
  · exact copyout_frame none ..
  exact copyout_frame none ..

lemma pushArgs_frame (sz : Nat) (argv : List (List UInt8)) (m : Bytes) :
    (pushArgs w root sz argv m).2 y = m y := by
  have strings := pushStrings_frame none (sub64 sz pgsize) argv [] sz m
  cases pushed : (pushStrings w root (sub64 sz pgsize) argv [] sz m).1 with
  | none =>
    rw [pushArgs, pushed]
    exact strings
  | some u =>
    have eq : pushArgs w root sz argv m = pushWords w root (sub64 sz pgsize) u.1 u.2
        (pushStrings w root (sub64 sz pgsize) argv [] sz m).2 := by rw [pushArgs, pushed]
    rw [eq, pushWords_frame none, strings]

end

end

end Xv6.Exec
