import Mathlib.Order.Interval.Finset.Nat

/-! The user part of an address space in `kernel/vm.c`: which pages are mapped, and how
`uvmalloc` and `uvmdealloc` change that. A page is its number. The walk of the page table
and the physical pages are not modelled; an allocation, of the page itself or of a page
of the page table, may fail at any time. -/
namespace Xv6
open Finset

def PGSIZE : Nat := 4096
def MAXVA : Nat := 2 ^ 38

/-- The pages of `TRAMPOLINE` and `TRAPFRAME`, which are always mapped. -/
def topPages : List Nat := [MAXVA / PGSIZE - 1, MAXVA / PGSIZE - 2]

def PHYSPAGES : Nat := 128 * 1024 * 1024 / PGSIZE

def pages (sz : Nat) : Nat := (sz + PGSIZE - 1) / PGSIZE

inductive VmPanic where
  | walk
  | remap
  | notMapped
  deriving DecidableEq, Repr

/-- `mappages` for one page, given that no allocation fails. -/
def mappages (mapped : Finset Nat) (page : Nat) : Except VmPanic (Finset Nat) :=
  if MAXVA ≤ page * PGSIZE then .error .walk
  else if page ∈ mapped ∨ page ∈ topPages then .error .remap
  else .ok (insert page mapped)

def uvmunmap : (npages page : Nat) → Finset Nat → Except VmPanic (Finset Nat)
  | 0, _, mapped => .ok mapped
  | npages + 1, page, mapped =>
    if page ∈ mapped then uvmunmap npages (page + 1) (mapped.erase page) else .error .notMapped

def uvmdealloc (mapped : Finset Nat) (oldsz newsz : Nat) : Except VmPanic (Nat × Finset Nat) :=
  if oldsz ≤ newsz then .ok (oldsz, mapped)
  else if pages newsz < pages oldsz then
    (uvmunmap (pages oldsz - pages newsz) (pages newsz) mapped).map fun m => (newsz, m)
  else .ok (newsz, mapped)

/-- The loop of `uvmalloc`, in which the allocations for `avail` pages succeed. It ends
with the page for which one has failed, if any. -/
def uvmallocLoop (newsz : Nat) :
    (avail page : Nat) → Finset Nat → Except VmPanic (Option Nat × Finset Nat)
  | 0, page, mapped => .ok (if page * PGSIZE < newsz then some page else none, mapped)
  | avail + 1, page, mapped =>
    if page * PGSIZE < newsz then
      match mappages mapped page with
      | .ok mapped => uvmallocLoop newsz avail (page + 1) mapped
      | .error why => .error why
    else .ok (none, mapped)

/-- The new size, or 0 if an allocation has failed. -/
def uvmalloc (mapped : Finset Nat) (avail oldsz newsz : Nat) : Except VmPanic (Nat × Finset Nat) :=
  if newsz < oldsz then .ok (oldsz, mapped)
  else match uvmallocLoop newsz avail (pages oldsz) mapped with
    | .ok (none, mapped) => .ok (newsz, mapped)
    | .ok (some page, mapped) =>
      (uvmdealloc mapped (page * PGSIZE) (pages oldsz * PGSIZE)).map fun r => (0, r.2)
    | .error why => .error why

variable {page : Nat}

lemma lt_pages {sz : Nat} : page < pages sz ↔ page * PGSIZE < sz := by
  unfold pages PGSIZE
  omega

lemma pages_mul (page : Nat) : pages (page * PGSIZE) = page := by
  unfold pages PGSIZE
  omega

lemma pages_mono {a b : Nat} (h : a ≤ b) : pages a ≤ pages b := by
  unfold pages PGSIZE
  omega

lemma mappages_range (fits : page < PHYSPAGES) :
    mappages (range page) page = .ok (range (page + 1)) := by
  have low : ¬ MAXVA ≤ page * PGSIZE := by
    unfold PHYSPAGES PGSIZE at fits
    unfold MAXVA PGSIZE
    omega
  have new : ¬ (page ∈ range page ∨ page ∈ topPages) := by
    unfold PHYSPAGES PGSIZE at fits
    simp only [topPages, MAXVA, PGSIZE, mem_range, lt_irrefl, false_or, List.mem_cons,
      List.not_mem_nil, or_false]
    omega
  rw [mappages, if_neg low, if_neg new, range_add_one]

lemma uvmunmap_eq {npages : Nat} {mapped : Finset Nat} (all : ∀ i < npages, page + i ∈ mapped) :
    uvmunmap npages page mapped = .ok (mapped \ Finset.Ico page (page + npages)) := by
  induction npages generalizing page mapped with
  | zero => simp [uvmunmap]
  | succ k ih =>
    have first : page ∈ mapped := all 0 k.succ_pos
    have rest : ∀ i < k, page + 1 + i ∈ mapped.erase page := by
      intro i below
      refine mem_erase.mpr ⟨by omega, ?_⟩
      rw [Nat.add_assoc, Nat.add_comm 1 i]
      exact all (i + 1) (Nat.succ_lt_succ below)
    rw [uvmunmap, if_pos first, ih rest]
    congr 1
    ext j
    simp only [mem_sdiff, mem_erase, mem_Ico]
    by_cases old : j ∈ mapped
    · simp only [old, and_true, true_and]
      omega
    simp only [old, and_false, false_and]

lemma uvmallocLoop_range {newsz avail : Nat} (fits : page + avail ≤ PHYSPAGES) (grows : page ≤
    pages newsz) : uvmallocLoop newsz avail page (range page) = .ok (if pages newsz ≤ page +
    avail then (none, range (pages newsz)) else (some (page + avail), range (page +
    avail))) := by
  induction avail generalizing page with
  | zero =>
    by_cases more : page * PGSIZE < newsz
    · have above := lt_pages.mpr more
      rw [uvmallocLoop, if_pos more, if_neg (by omega), Nat.add_zero]
    have here : pages newsz = page := le_antisymm (not_lt.mp fun h => more (lt_pages.mp h)) grows
    rw [uvmallocLoop, if_neg more, if_pos (by omega), here]
  | succ k ih =>
    by_cases more : page * PGSIZE < newsz
    · have above := lt_pages.mpr more
      have room : page + 1 + k ≤ PHYSPAGES := by omega
      rw [uvmallocLoop, if_pos more, mappages_range (by omega)]
      simp only [ih room above, Nat.add_assoc, Nat.add_comm 1 k]
    have here : pages newsz = page := le_antisymm (not_lt.mp fun h => more (lt_pages.mp h)) grows
    rw [uvmallocLoop, if_neg more, if_pos (by omega), here]

/-- On an address space whose pages are those below `sz`, `uvmalloc` succeeds if there is
memory, changes nothing otherwise, and does not panic. -/
lemma uvmalloc_range {avail sz newsz : Nat} (grows : sz ≤ newsz) (fits : pages sz + avail ≤
    PHYSPAGES) : uvmalloc (range (pages sz)) avail sz newsz = .ok (if pages newsz ≤ pages sz +
    avail then (newsz, range (pages newsz)) else (0, range (pages sz))) := by
  rw [uvmalloc, if_neg (not_lt.mpr grows), uvmallocLoop_range fits (pages_mono grows)]
  split_ifs with enough
  · rfl
  dsimp only
  unfold uvmdealloc
  rw [pages_mul, pages_mul]
  by_cases none : avail = 0
  · rw [none, Nat.add_zero, if_pos le_rfl]
    rfl
  have below : ¬ (pages sz + avail) * PGSIZE ≤ pages sz * PGSIZE := by
    unfold PGSIZE
    omega
  have back : range (pages sz + avail) \ Finset.Ico (pages sz) (pages sz + avail) =
      range (pages sz) := by
    ext j
    simp only [mem_sdiff, mem_range, mem_Ico]
    omega
  rw [if_neg below, if_pos (by omega), Nat.add_sub_cancel_left,
    uvmunmap_eq fun i h => mem_range.mpr (by omega), back]
  rfl

end Xv6
