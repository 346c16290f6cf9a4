import Mathlib.Data.Nat.Bitwise
import Mathlib.Data.List.FinRange
import Xv6.Interleaving
import Xv6.Ownership

/-! The page tables of vm.c: `walk`, `mappages`, `uvmunmap`, `uvmclear`, `walkaddr` and `freewalk`
over the words of the page-table pages. Pages are named by their numbers, addresses shifted right
by 12; what `kalloc` returns is chosen by the environment. -/
namespace Xv6.PageTable
abbrev pgsize : Nat := 4096
abbrev maxva : Nat := 1 <<< (9 + 9 + 9 + 12 - 1)
abbrev pteV : Nat := 1
abbrev pteR : Nat := 1 <<< 1
abbrev pteW : Nat := 1 <<< 2
abbrev pteX : Nat := 1 <<< 3
abbrev pteU : Nat := 1 <<< 4

abbrev Index := Fin 512

abbrev Words := Nat → Index → Nat

def px (level va : Nat) : Index := ⟨(va >>> (12 + 9 * level)) &&& 0x1FF, by
  rw [show 0x1FF = 2 ^ 9 - 1 from rfl, Nat.and_two_pow_sub_one_eq_mod]
  exact Nat.mod_lt _ (by decide)⟩

def pa2pte (page : Nat) : Nat := page <<< 10

def pte2pa (pte : Nat) : Nat := pte >>> 10

def pteFlags (pte : Nat) : Nat := pte &&& 0x3FF

def valid (pte : Nat) : Bool := pte &&& pteV != 0

def setWord (w : Words) (page : Nat) (i : Index) (v : Nat) : Words :=
  Function.update w page (Function.update (w page) i v)

def zeroPage (w : Words) (page : Nat) : Words :=
  Function.update w page fun _ => 0

def descend (w : Words) (pt : Nat) (i : Index) (supply : List Nat) :
    Option (Nat × Words × List Nat) :=
  if valid (w pt i) then some (pte2pa (w pt i), w, supply)
  else
    match supply with
    | [] => none
    | page :: supply =>
      some (page, setWord (zeroPage w page) pt i (pa2pte page ||| pteV), supply)

/-- `walk(pagetable, va, 1)`: the place of the entry, `none` for the result 0 and for the panic. -/
def walkAlloc (w : Words) (root va : Nat) (supply : List Nat) :
    Option ((Nat × Index) × Words × List Nat) :=
  if va < maxva then
    (descend w root (px 2 va) supply).bind fun r =>
      (descend r.2.1 r.1 (px 1 va) r.2.2).map fun r => ((r.1, px 0 va), r.2)
  else none

def lookup (w : Words) (pt : Nat) (i : Index) : Option Nat :=
  if valid (w pt i) then some (pte2pa (w pt i)) else none

/-- `walk(pagetable, va, 0)` -/
def walk (w : Words) (root va : Nat) : Option (Nat × Index) :=
  if va < maxva then
    (lookup w root (px 2 va)).bind fun pt => (lookup w pt (px 1 va)).map fun pt => (pt, px 0 va)
  else none

/-- `walkaddr`: a physical address, 0 if there is none. -/
def walkaddr (w : Words) (root va : Nat) : Nat :=
  match walk w root va with
  | none => 0
  | some (pt, i) =>
    if valid (w pt i) then
      if w pt i &&& pteU != 0 then pte2pa (w pt i) <<< 12 else 0
    else 0

/-- The loop of `mappages` over `n` pages from the page number `a`. -/
def mapLoop (w : Words) (root perm : Nat) : Nat → Nat → Nat → List Nat → Option Words
  | 0, _, _, _ => some w
  | n + 1, a, page, supply =>
    match walkAlloc w root (a * pgsize) supply with
    | none => none
    | some ((pt, i), w, supply) =>
      if valid (w pt i) then none
      else
        mapLoop (setWord w pt i (pa2pte page ||| perm ||| pteV)) root perm n (a + 1) (page + 1)
          supply

/-- `mappages`; `none` for a failure. -/
def mappages (w : Words) (root va size pa perm : Nat) (supply : List Nat) : Option Words :=
  if size = 0 then none
  else
    mapLoop w root perm ((va + size - 1) / pgsize - va / pgsize + 1) (va / pgsize) (pa / pgsize)
      supply

/-- The loop of `uvmunmap`. The pages that it frees with `do_free` are no page-table pages. -/
def unmapLoop (w : Words) (root : Nat) : Nat → Nat → Option Words
  | 0, _ => some w
  | n + 1, a =>
    match walk w root (a * pgsize) with
    | none => none
    | some (pt, i) =>
      if valid (w pt i) && pteFlags (w pt i) != pteV then
        unmapLoop (setWord w pt i 0) root n (a + 1)
      else none

def uvmunmap (w : Words) (root va npages : Nat) : Option Words :=
  if va % pgsize = 0 then unmapLoop w root npages (va / pgsize) else none

def uvmclear (w : Words) (root va : Nat) : Option Words :=
  (walk w root va).map fun r => setWord w r.1 r.2 (w r.1 r.2 - (w r.1 r.2 &&& pteU))

def junk : Nat := 0x0101010101010101

/-- `freewalk`: the pages in the order of their `kfree`. The recursion of the source ends at the
lowest level; the argument bounds it. -/
def freewalk : Nat → Words → Nat → Option (Words × List Nat)
  | 0, _, _ => none
  | depth + 1, w, pt =>
    let round := fun (r : Words × List Nat) (i : Index) =>
      let pte := r.1 pt i
      if valid pte && pte &&& (pteR ||| pteW ||| pteX) == 0 then
        (freewalk depth r.1 (pte2pa pte)).map fun q => (setWord q.1 pt i 0, r.2 ++ q.2)
      else if valid pte then none
      else some r
    ((List.finRange 512).foldlM round (w, [])).map fun r =>
      (Function.update r.1 pt fun _ => junk, r.2 ++ [pt])

inductive Act
  | mappages (va size pa perm : Nat) (supply : List Nat)
  | uvmunmap (va npages : Nat)
  | uvmclear (va : Nat)

structure Table where
  root : Nat
  words : Words

def uvmcreate (page : Nat) (w : Words) : Table := ⟨page, zeroPage w page⟩

def step (t : Table) (a : Act) : Option Table :=
  let w := match a with
    | .mappages va size pa perm supply => mappages t.words t.root va size pa perm supply
    | .uvmunmap va npages => uvmunmap t.words t.root va npages
    | .uvmclear va => uvmclear t.words t.root va
  w.map fun w => ⟨t.root, w⟩

/-! Bits as arithmetic. -/

lemma px_val (level va : Nat) : (px level va : Nat) = va / 2 ^ (12 + 9 * level) % 512 := by
  change va >>> (12 + 9 * level) &&& 0x1FF = _
  rw [Nat.shiftRight_eq_div_pow, show 0x1FF = 2 ^ 9 - 1 from rfl, Nat.and_two_pow_sub_one_eq_mod]

lemma valid_iff (pte : Nat) : valid pte = true ↔ pte % 2 = 1 := by
  rw [valid, show pteV = 2 ^ 1 - 1 from rfl, Nat.and_two_pow_sub_one_eq_mod]
  simp only [bne_iff_ne, ne_eq, pow_one]
  omega

lemma pteFlags_eq (pte : Nat) : pteFlags pte = pte % 1024 := by
  rw [pteFlags, show 0x3FF = 2 ^ 10 - 1 from rfl, Nat.and_two_pow_sub_one_eq_mod]

lemma pa2pte_or (page : Nat) {flags : Nat} (small : flags < 1024) :
    pa2pte page ||| flags = page * 1024 + flags := by
  rw [pa2pte, ← Nat.shiftLeft_add_eq_or_of_lt (show flags < 2 ^ 10 from small), Nat.shiftLeft_eq]

lemma pte2pa_eq (pte : Nat) : pte2pa pte = pte / 1024 := by rw [pte2pa, Nat.shiftRight_eq_div_pow]

def leafFlags (perm : Nat) : Nat := perm ||| pteV

lemma leafFlags_lt {perm : Nat} (small : perm < 1024) : leafFlags perm < 1024 :=
  Nat.or_lt_two_pow (n := 10) small (by decide)

lemma leafFlags_odd (perm : Nat) : leafFlags perm % 2 = 1 := by
  rw [leafFlags, Nat.or_mod_two_eq_one]
  exact Or.inr rfl

end Xv6.PageTable
