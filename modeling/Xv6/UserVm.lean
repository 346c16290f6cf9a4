import Xv6.PageTable

/-! Physical pages and user memory: `kalloc.c`, the user part of `vm.c`, and the calls of `proc.c`,
`exec.c` and `pipe.c` that allocate and free pages. A page is its number; `none` is a panic of the
functions of `vm.c`. -/
namespace Xv6.Vm
open Interleaving PageTable

/-- The contents of the physical pages, and `kmem.freelist`. -/
structure Mem where
  words : Words
  free : List Nat

abbrev trampoline : Nat := maxva / pgsize - 1
abbrev trapframe : Nat := maxva / pgsize - 2

def pages (sz : Nat) : Nat := (sz + pgsize - 1) / pgsize

def fresh : Nat := 0x0505050505050505

def Mem.fill (k : Mem) (page : Nat) (contents : Index → Nat) : Mem :=
  { k with words := Function.update k.words page contents }

def Mem.setWord (k : Mem) (page : Nat) (i : Index) (v : Nat) : Mem :=
  { k with words := PageTable.setWord k.words page i v }

def kalloc (k : Mem) : Option (Nat × Mem) :=
  match k.free with
  | [] => none
  | page :: free => some (page, { k with free := free }.fill page fun _ => fresh)

def kfree (k : Mem) (page : Nat) : Mem :=
  { k with free := page :: k.free }.fill page fun _ => junk

/-- The loop of `walk` with `alloc`. A page that the first round has added stays when the second
one fails. -/
def walkFill (k : Mem) (root va : Nat) : Option (Nat × Index) × Mem :=
  match descend k.words root (px 2 va) k.free with
  | none => (none, k)
  | some (pt, w, free) =>
    match descend w pt (px 1 va) free with
    | none => (none, ⟨w, free⟩)
    | some (pt, w, free) => (some (pt, px 0 va), ⟨w, free⟩)

/-- `mappages` for one page; `false` is the result -1. -/
def mappages (k : Mem) (root v page perm : Nat) : Option (Bool × Mem) :=
  if v * pgsize < maxva then
    match walkFill k root (v * pgsize) with
    | (none, k) => some (false, k)
    | (some (pt, i), k) =>
      if valid (k.words pt i) then none
      else some (true, k.setWord pt i (pa2pte page ||| perm ||| pteV))
  else none

def uvmunmap (root : Nat) (doFree : Bool) : Nat → Nat → Mem → Option Mem
  | 0, _, k => some k
  | n + 1, v, k =>
    match walk k.words root (v * pgsize) with
    | none => none
    | some (pt, i) =>
      let pte := k.words pt i
      if valid pte && pteFlags pte != pteV then
        uvmunmap root doFree n (v + 1)
          ((if doFree then kfree k (pte2pa pte) else k).setWord pt i 0)
      else none

def uvmdealloc (k : Mem) (root oldsz newsz : Nat) : Option (Nat × Mem) :=
  if oldsz ≤ newsz then some (oldsz, k)
  else if pages newsz < pages oldsz then
    (uvmunmap root true (pages oldsz - pages newsz) (pages newsz) k).map fun k => (newsz, k)
  else some (newsz, k)

/-- The body of the loops of `uvmalloc` and `uvmcopy`: a new page with the given contents. -/
def mapNew (k : Mem) (root v : Nat) (contents : Index → Nat) (perm : Nat) : Option (Bool × Mem) :=
  match kalloc k with
  | none => some (false, k)
  | some (page, k) =>
    match mappages (k.fill page contents) root v page perm with
    | none => none
    | some (false, k) => some (false, kfree k page)
    | some (true, k) => some (true, k)

/-- The loop of `uvmalloc` over `n` pages; it ends with the page for which an allocation failed. -/
def uvmallocLoop (root xperm : Nat) : Nat → Nat → Mem → Option (Option Nat × Mem)
  | 0, _, k => some (none, k)
  | n + 1, v, k =>
    match mapNew k root v (fun _ => 0) (pteR ||| pteU ||| xperm) with
    | none => none
    | some (false, k) => some (some v, k)
    | some (true, k) => uvmallocLoop root xperm n (v + 1) k

def uvmalloc (k : Mem) (root oldsz newsz xperm : Nat) : Option (Nat × Mem) :=
  if newsz < oldsz then some (oldsz, k)
  else
    match uvmallocLoop root xperm (pages newsz - pages oldsz) (pages oldsz) k with
    | none => none
    | some (none, k) => some (newsz, k)
    | some (some v, k) =>
      (uvmdealloc k root (v * pgsize) (pages oldsz * pgsize)).map fun r => (0, r.2)

def uvmcopyLoop (old new : Nat) : Nat → Nat → Mem → Option (Option Nat × Mem)
  | 0, _, k => some (none, k)
  | n + 1, v, k =>
    match walk k.words old (v * pgsize) with
    | none => none
    | some (pt, i) =>
      let pte := k.words pt i
      if valid pte then
        match mapNew k new v (k.words (pte2pa pte)) (pteFlags pte) with
        | none => none
        | some (false, k) => some (some v, k)
        | some (true, k) => uvmcopyLoop old new n (v + 1) k
      else none

def uvmcopy (k : Mem) (old new sz : Nat) : Option (Bool × Mem) :=
  match uvmcopyLoop old new (pages sz) 0 k with
  | none => none
  | some (none, k) => some (true, k)
  | some (some v, k) => (uvmunmap new true v 0 k).map fun k => (false, k)

def uvmclear (k : Mem) (root va : Nat) : Option Mem :=
  (PageTable.uvmclear k.words root va).map fun w => { k with words := w }

def uvmfree (k : Mem) (root sz : Nat) : Option Mem :=
  (uvmunmap root true (pages sz) 0 k).bind fun k =>
    (freewalk 3 k.words root).map fun r => ⟨r.1, r.2.reverse ++ k.free⟩

/-- `proc_pagetable`, with the pages of the trampoline and of the trapframe. The inner `none` is
the result 0. -/
def procPagetable (k : Mem) (code frame : Nat) : Option (Option Nat × Mem) :=
  match kalloc k with
  | none => some (none, k)
  | some (root, k) =>
    match mappages (k.fill root fun _ => 0) root trampoline code (pteR ||| pteX) with
    | none => none
    | some (false, k) => (uvmfree k root 0).map fun k => (none, k)
    | some (true, k) =>
      match mappages k root trapframe frame (pteR ||| pteW) with
      | none => none
      | some (false, k) =>
        (uvmunmap root false 1 trampoline k).bind fun k =>
          (uvmfree k root 0).map fun k => (none, k)
      | some (true, k) => some (some root, k)

def procFreepagetable (k : Mem) (root sz : Nat) : Option Mem :=
  (uvmunmap root false 1 trampoline k).bind fun k =>
    (uvmunmap root false 1 trapframe k).bind fun k => uvmfree k root sz

/-- `growproc`: the new `p->sz`, `none` inside for the result -1. -/
def growproc (k : Mem) (root sz : Nat) (n : Int) : Option (Option Nat × Mem) :=
  if 0 < n then
    (uvmalloc k root sz ((sz + n) % 2 ^ 64).toNat pteW).map fun r =>
      (if r.1 = 0 then none else some r.1, r.2)
  else if n < 0 then
    (uvmdealloc k root sz ((sz + n) % 2 ^ 64).toNat).map fun r => (some r.1, r.2)
  else some (some sz, k)

/-- A program header as the loop of `exec` sees it: one that cannot be read or is skipped, or a
segment. -/
inductive Header
  | unreadable
  | other
  | load (vaddr memsz filesz flags : Nat) (loaded : Bool)

def flags2perm (flags : Nat) : Nat :=
  (if flags &&& 1 != 0 then pteX else 0) ||| (if flags &&& 2 != 0 then pteW else 0)

/-- The loop of `exec`: the size, and whether it has ended without `goto bad`. -/
def loadLoop (root : Nat) : List Header → Nat → Mem → Option (Bool × Nat × Mem)
  | [], sz, k => some (true, sz, k)
  | .unreadable :: _, sz, k => some (false, sz, k)
  | .other :: hs, sz, k => loadLoop root hs sz k
  | .load vaddr memsz filesz flags loaded :: hs, sz, k =>
    if memsz < filesz ∨ 2 ^ 64 ≤ vaddr + memsz ∨ vaddr % pgsize ≠ 0 then some (false, sz, k)
    else
      match uvmalloc k root sz (vaddr + memsz) (flags2perm flags) with
      | none => none
      | some (sz1, k) =>
        if sz1 = 0 then some (false, sz, k)
        else if loaded then loadLoop root hs sz1 k
        else some (false, sz1, k)

/-- The new address space of `exec`: its root and size, `none` inside where `exec` goes to `bad`
and has freed it. `fits` is whether the arguments fit the stack. -/
def execImage (k : Mem) (code frame : Nat) (hs : List Header) (fits : Bool) :
    Option (Option (Nat × Nat) × Mem) :=
  match procPagetable k code frame with
  | none => none
  | some (none, k) => some (none, k)
  | some (some root, k) =>
    match loadLoop root hs 0 k with
    | none => none
    | some (false, sz, k) => (procFreepagetable k root sz).map fun k => (none, k)
    | some (true, sz, k) =>
      let sz := pages sz * pgsize
      match uvmalloc k root sz (sz + 2 * pgsize) pteW with
      | none => none
      | some (sz1, k) =>
        if sz1 = 0 then (procFreepagetable k root sz).map fun k => (none, k)
        else
          (uvmclear k root (sz1 - 2 * pgsize)).bind fun k =>
            if fits then some (some (root, sz1), k)
            else (procFreepagetable k root sz1).map fun k => (none, k)

end Xv6.Vm
