import Xv6.PageTable

/-! The page table as a finite map: the page-table pages form a tree, and the words of its lowest
level are the entries of a map from virtual page numbers to pages and flags. -/
namespace Xv6.PageTable
open Interleaving Option List
open Function (update update_of_ne update_self)

/-- Where a page-table page is recorded: the root pointer, an entry of the root, or an entry of a
page of the middle level. -/
inductive Place
  | root
  | mid (i : Index)
  | low (i j : Index)
  deriving DecidableEq

def held (w : Words) (root : Nat) : Place → Option Nat
  | .root => some root
  | .mid i => lookup w root i
  | .low i j => (lookup w root i).bind fun pt => lookup w pt j

/-- The entry of the lowest level, 0 where the tree ends before. -/
def pteAt (w : Words) (root : Nat) (i j k : Index) : Nat :=
  (held w root (.low i j)).elim 0 fun pt => w pt k

abbrev Map := Nat → Option (Nat × Nat)

def encode : Option (Nat × Nat) → Nat
  | none => 0
  | some (page, flags) => page * 1024 + flags

def vpn (i j k : Index) : Nat := i * 2 ^ 18 + j * 2 ^ 9 + k

/-- The entries of a page above the lowest level have no flag but `PTE_V`. -/
def Plain (w : Words) (pt : Nat) : Prop := ∀ i, valid (w pt i) = true → w pt i % 1024 = 1

/-- The words of the pages `pages` are the tree of the map `m`. -/
structure Refines (w : Words) (root : Nat) (pages : Set Nat) (m : Map) : Prop where
  exact : Ownership.Exact none (held w root) (some '' pages)
  leaf : ∀ i j k, pteAt w root i j k = encode (m (vpn i j k))
  flags : ∀ v page flags, m v = some (page, flags) → flags % 2 = 1 ∧ flags < 1024
  top : Plain w root
  middle : ∀ i pt, lookup w root i = some pt → Plain w pt

section
variable {w : Words} {root page : Nat} {i j k i' j' k' : Index} {v : Nat}

lemma setWord_self : setWord w page i v page i = v := by rw [setWord, update_self, update_self]

lemma setWord_index (other : i' ≠ i) : setWord w page i v page i' = w page i' := by
  rw [setWord, update_self, update_of_ne other]

lemma setWord_page {p : Nat} (other : p ≠ page) : setWord w page i v p = w p :=
  update_of_ne other ..

lemma zeroPage_page {p : Nat} (other : p ≠ page) : zeroPage w page p = w p :=
  update_of_ne other ..

variable {pt : Nat}

lemma lookup_congr {w' : Words} (same : w' pt i = w pt i) :
    lookup w' pt i = lookup w pt i := by rw [lookup, lookup, same]

lemma lookup_zero (zero : w pt i = 0) : lookup w pt i = none := by
  rw [lookup, zero]
  rfl

lemma lookup_interior (here : w pt i = pa2pte page ||| pteV) :
    lookup w pt i = some page := by
  change w pt i = pa2pte page ||| 1 at here
  rw [pa2pte_or page (by decide)] at here
  rw [lookup, here, if_pos ((valid_iff _).mpr (by omega)), pte2pa_eq]
  congr 1
  omega

lemma Plain.congr {w' : Words} (plain : Plain w pt) (same : w' pt = w pt) :
    Plain w' pt := by
  rw [Plain, same]
  exact plain

lemma plain_zeroPage : Plain (zeroPage w page) page := by
  intro i here
  rw [zeroPage, update_self] at here
  exact absurd here (by decide)

lemma Plain.setInterior (plain : Plain w pt) :
    Plain (setWord w pt i (pa2pte page ||| pteV)) pt := by
  intro i' here
  by_cases same : i' = i
  · rw [same, setWord_self]
    change (pa2pte page ||| 1) % 1024 = 1
    rw [pa2pte_or page (by decide)]
    omega
  rw [setWord_index same] at here ⊢
  exact plain i' here

lemma held_low :
    held w root (.low i j) = (held w root (.mid i)).bind fun pt => lookup w pt j := rfl

end

variable {supply : List Nat} {va : Nat}

section
variable {w : Words} {root page pt : Nat} {pages : Set Nat} {m : Map} {i j k : Index} {v : Nat}

lemma Refines.distinct (r : Refines w root pages m) {p q : Place}
    (first : held w root p = some pt) (second : held w root q = some pt) : p = q :=
  r.exact.distinct p q (first ▸ some_ne_none pt) (first.trans second.symm)

lemma Refines.mem (r : Refines w root pages m) {p : Place} (here : held w root p = some pt) :
    pt ∈ pages := by
  obtain ⟨q, mem, eq⟩ := r.exact.used p (here ▸ some_ne_none pt)
  rw [here] at eq
  exact some.inj eq ▸ mem

lemma Refines.held_leaf (r : Refines w root pages m) (here : held w root (.low i j) = some pt) :
    held (setWord w pt k v) root = held w root := by
  have other : ∀ p q, held w root p = some q → p ≠ .low i j → q ≠ pt := by
    rintro p q there ne rfl
    exact ne (r.distinct there here)
  have top : ∀ i', lookup (setWord w pt k v) root i' = lookup w root i' := fun i' =>
    lookup_congr (congrFun (setWord_page (other .root root rfl (by simp))) i')
  funext p
  cases p with
  | root => rfl
  | mid i' => exact top i'
  | low i' j' =>
    rw [held_low, held_low]
    change (lookup _ root i').bind _ = (lookup _ root i').bind _
    rw [top]
    cases mid : lookup w root i' with
    | none => rfl
    | some q => exact lookup_congr (congrFun (setWord_page (other (.mid i') q mid (by simp))) j')

lemma Refines.pteAt_leaf (r : Refines w root pages m) (here : held w root (.low i j) = some pt)
    (i' j' k' : Index) : pteAt (setWord w pt k v) root i' j' k' = if i' = i ∧ j' = j ∧
    k' = k then v else pteAt w root i' j' k' := by
  rw [pteAt, pteAt, r.held_leaf here]
  by_cases same : i' = i ∧ j' = j
  · obtain ⟨rfl, rfl⟩ := same
    rw [here]
    by_cases eq : k' = k
    · subst eq
      rw [if_pos ⟨rfl, rfl, rfl⟩]
      exact setWord_self
    rw [if_neg fun h => eq h.2.2]
    exact setWord_index eq
  rw [if_neg fun h => same ⟨h.1, h.2.1⟩]
  cases there : held w root (.low i' j') with
  | none => rfl
  | some q =>
    have other : q ≠ pt := by
      rintro rfl
      have eq := r.distinct there here
      cases eq
      exact same ⟨rfl, rfl⟩
    exact congrFun (setWord_page other) k'

lemma vpn_inj {i j k i' j' k' : Index} (eq : vpn i j k = vpn i' j' k') :
    i = i' ∧ j = j' ∧ k = k' := by
  have hi := i.isLt
  have hj := j.isLt
  have hk := k.isLt
  have hi' := i'.isLt
  have hj' := j'.isLt
  have hk' := k'.isLt
  simp only [vpn] at eq
  refine ⟨Fin.ext ?_, Fin.ext ?_, Fin.ext ?_⟩ <;> omega

lemma Refines.setLeaf (r : Refines w root pages m)
    (here : held w root (.low i j) = some pt) {e : Option (Nat × Nat)} (value : v = encode e)
    (proper : ∀ page flags, e = some (page, flags) → flags % 2 = 1 ∧ flags < 1024) :
    Refines (setWord w pt k v) root pages (update m (vpn i j k) e) := by
  have other : ∀ p q, held w root p = some q → p ≠ .low i j → q ≠ pt := by
    rintro p q there ne rfl
    exact ne (r.distinct there here)
  have kept := r.held_leaf (k := k) (v := v) here
  refine ⟨?_, fun i' j' k' => ?_, fun u page flags here => ?_,
    r.top.congr (setWord_page (other .root root rfl (by simp))), fun i' q mid => ?_⟩
  · rw [kept]
    exact r.exact
  · rw [r.pteAt_leaf here]
    by_cases same : i' = i ∧ j' = j ∧ k' = k
    · obtain ⟨rfl, rfl, rfl⟩ := same
      rw [if_pos ⟨rfl, rfl, rfl⟩, update_self, value]
    rw [if_neg same, update_of_ne fun eq => same (vpn_inj eq)]
    exact r.leaf i' j' k'
  · by_cases same : u = vpn i j k
    · rw [same, update_self] at here
      exact proper page flags here
    rw [update_of_ne same] at here
    exact r.flags u page flags here
  have mid' : held w root (.mid i') = some q := (congrFun kept (.mid i')).symm.trans mid
  exact (r.middle i' q mid').congr (setWord_page (other (.mid i') q mid' (by simp)))

lemma Refines.insertMid (r : Refines w root pages m)
    (fresh : page ∉ pages) (none : lookup w root i = none) :
    Refines (setWord (zeroPage w page) root i (pa2pte page ||| pteV)) root (insert page pages) m ∧
    held (setWord (zeroPage w page) root i (pa2pte page ||| pteV)) root (.mid i) = some page := by
  have other : ∀ p q, held w root p = some q → q ≠ page := by
    rintro p q there rfl
    exact fresh (r.mem there)
  have rootOther : root ≠ page := other .root root rfl
  have keep : ∀ q, q ≠ root → q ≠ page →
      setWord (zeroPage w page) root i (pa2pte page ||| pteV) q = w q := by
    intro q ne ne'
    rw [setWord_page ne, zeroPage_page ne']
  have here : lookup (setWord (zeroPage w page) root i (pa2pte page ||| pteV)) root i =
      some page := lookup_interior setWord_self
  have top : ∀ i', i' ≠ i → lookup (setWord (zeroPage w page) root i (pa2pte page ||| pteV)) root i'
    = lookup w root i' := fun i' ne => lookup_congr ((setWord_index ne).trans (congrFun
    (zeroPage_page rootOther) i'))
  have empty : ∀ j', lookup (setWord (zeroPage w page) root i (pa2pte page ||| pteV)) page j' =
      Option.none := fun j' => lookup_zero (by
    rw [setWord_page rootOther.symm, zeroPage, update_self])
  have below : ∀ i' q, lookup w root i' = some q → q ≠ root := by
    rintro i' q there rfl
    have eq := r.distinct (p := .mid i') (q := .root) there rfl
    cases eq
  have changed : held (setWord (zeroPage w page) root i (pa2pte page ||| pteV)) root =
      update (held w root) (.mid i) (some page) := by
    funext p
    cases p with
    | root => rfl
    | mid i' =>
      by_cases same : i' = i
      · subst same
        rw [update_self]
        exact here
      rw [update_of_ne fun eq => same (Place.mid.inj eq)]
      exact top i' same
    | low i' j' =>
      rw [update_of_ne fun eq => Place.noConfusion eq]
      by_cases same : i' = i
      · subst same
        change (lookup _ root i').bind _ = (lookup w root i').bind _
        rw [here, none]
        exact empty j'
      change (lookup _ root i').bind _ = (lookup w root i').bind _
      rw [top i' same]
      cases mid : lookup w root i' with
      | none => rfl
      | some q => exact lookup_congr (congrFun (keep q (below i' q mid) (other (.mid i') q mid)) j')
  refine ⟨⟨?_, fun i' j' k' => ?_, r.flags,
    (r.top.congr (zeroPage_page rootOther)).setInterior, fun i' q mid => ?_⟩, here⟩
  · rw [changed, Set.image_insert_eq]
    refine r.exact.give none ?_ (some_ne_none page)
    rintro ⟨q, mem, eq⟩
    exact fresh (some.inj eq ▸ mem)
  · rw [← r.leaf i' j' k', pteAt, pteAt, changed, update_of_ne fun eq => Place.noConfusion eq]
    cases there : held w root (.low i' j') with
    | none => rfl
    | some q =>
      have ne : q ≠ root := by
        rintro rfl
        have eq := r.distinct (q := .root) there rfl
        cases eq
      exact congrFun (keep q ne (other _ q there)) k'
  by_cases same : i' = i
  · subst same
    rw [here] at mid
    cases mid
    exact plain_zeroPage.congr (setWord_page rootOther.symm)
  rw [top i' same] at mid
  exact (r.middle i' q mid).congr (keep q (below i' q mid) (other (.mid i') q mid))

lemma Refines.insertLow (r : Refines w root pages m) (fresh : page ∉ pages)
    (mid : held w root (.mid i) = some pt) (none : lookup w pt j = none) :
    Refines (setWord (zeroPage w page) pt j (pa2pte page ||| pteV)) root (insert page pages) m ∧
    held (setWord (zeroPage w page) pt j (pa2pte page ||| pteV)) root (.low i j) = some page := by
  have other : ∀ p q, held w root p = some q → q ≠ page := by
    rintro p q there rfl
    exact fresh (r.mem there)
  have ptOther : pt ≠ page := other (.mid i) pt mid
  have rootPt : root ≠ pt := by
    rintro rfl
    have eq := r.distinct (q := .root) mid rfl
    cases eq
  have keep : ∀ q, q ≠ pt → q ≠ page →
      setWord (zeroPage w page) pt j (pa2pte page ||| pteV) q = w q := by
    intro q ne ne'
    rw [setWord_page ne, zeroPage_page ne']
  have top : ∀ i', lookup (setWord (zeroPage w page) pt j (pa2pte page ||| pteV)) root i' = lookup w
    root i' := fun i' => lookup_congr (congrFun (keep root rootPt (other .root root rfl)) i')
  have changed : held (setWord (zeroPage w page) pt j (pa2pte page ||| pteV)) root =
      update (held w root) (.low i j) (some page) := by
    funext p
    cases p with
    | root => rfl
    | mid i' =>
      rw [update_of_ne fun eq => Place.noConfusion eq]
      exact top i'
    | low i' j' =>
      by_cases same : i' = i ∧ j' = j
      · obtain ⟨rfl, rfl⟩ := same
        rw [update_self]
        change (lookup _ root i').bind _ = _
        rw [top]
        change (held w root (.mid i')).bind _ = _
        rw [mid]
        exact lookup_interior setWord_self
      rw [update_of_ne fun eq => same ⟨(Place.low.inj eq).1, (Place.low.inj eq).2⟩]
      change (lookup _ root i').bind _ = (lookup w root i').bind _
      rw [top]
      cases there : lookup w root i' with
      | none => rfl
      | some q =>
        by_cases own : q = pt
        · subst own
          have eq := Place.mid.inj (r.distinct (p := .mid i') there mid)
          have ne : j' ≠ j := fun h => same ⟨eq, h⟩
          exact lookup_congr ((setWord_index ne).trans (congrFun (zeroPage_page ptOther) j'))
        exact lookup_congr (congrFun (keep q own (other (.mid i') q there)) j')
  refine ⟨⟨?_, fun i' j' k' => ?_, r.flags, r.top.congr (keep root rootPt (other .root root rfl)),
    fun i' q there => ?_⟩, by rw [changed, update_self]⟩
  · rw [changed, Set.image_insert_eq]
    refine r.exact.give ?_ ?_ (some_ne_none page)
    · rw [held_low, mid]
      exact none
    rintro ⟨q, mem, eq⟩
    exact fresh (some.inj eq ▸ mem)
  · rw [← r.leaf i' j' k', pteAt, pteAt, changed]
    by_cases same : i' = i ∧ j' = j
    · obtain ⟨rfl, rfl⟩ := same
      rw [update_self, held_low, mid]
      change setWord (zeroPage w page) pt j' (pa2pte page ||| pteV) page k' = _
      rw [setWord_page ptOther.symm, zeroPage, update_self]
      change 0 = (lookup w pt j').elim 0 _
      rw [none]
      rfl
    rw [update_of_ne fun eq => same ⟨(Place.low.inj eq).1, (Place.low.inj eq).2⟩]
    cases there : held w root (.low i' j') with
    | none => rfl
    | some q =>
      have ne : q ≠ pt := by
        rintro rfl
        have eq := r.distinct there mid
        cases eq
      exact congrFun (keep q ne (other _ q there)) k'
  rw [top] at there
  by_cases own : q = pt
  · subst own
    exact ((r.middle i' q there).congr (zeroPage_page ptOther)).setInterior
  exact (r.middle i' q there).congr (keep q own (other (.mid i') q there))

/-- Pages that `kalloc` may return: no page of the table, and no page twice. -/
def Fresh (pages : Set Nat) (supply : List Nat) : Prop :=
  supply.Nodup ∧ ∀ p ∈ supply, p ∉ pages

lemma Fresh.tail (f : Fresh pages (page :: supply)) : Fresh (insert page pages) supply := by
  obtain ⟨nodup, new⟩ := f
  refine ⟨(nodup_cons.mp nodup).2, fun p mem inside => ?_⟩
  rcases Set.mem_insert_iff.mp inside with rfl | inside
  · exact (nodup_cons.mp nodup).1 mem
  exact new p (mem_cons_of_mem _ mem) inside

lemma Refines.walkAlloc (r : Refines w root pages m) {supply' : List Nat} {w' : Words}
    (fresh : Fresh pages supply) (found : PageTable.walkAlloc w root va supply =
    some ((pt, i), w', supply')) : va < maxva ∧ i = px 0 va ∧ ∃ pages', Refines w' root pages' m ∧
    Fresh pages' supply' ∧ held w' root (.low (px 2 va) (px 1 va)) = some pt := by
  rw [PageTable.walkAlloc] at found
  obtain ⟨below, found⟩ := ite_none_right_eq_some.mp found
  obtain ⟨⟨pt₁, w₁, supply₁⟩, first, found⟩ := bind_eq_some_iff.mp found
  obtain ⟨⟨pt₂, w₂, supply₂⟩, second, eq⟩ := map_eq_some_iff.mp found
  cases eq
  -- the first round ends in the page of the middle level
  have mid : ∃ pages₁, Refines w₁ root pages₁ m ∧ Fresh pages₁ supply₁ ∧
      held w₁ root (.mid (px 2 va)) = some pt₁ := by
    unfold descend at first
    split_ifs at first with here
    · cases first
      exact ⟨pages, r, fresh, if_pos here⟩
    cases supply with
    | nil => cases first
    | cons page supply =>
      cases first
      obtain ⟨refines, at'⟩ := r.insertMid (i := px 2 va)
        (fresh.2 _ mem_cons_self) (if_neg here)
      exact ⟨_, refines, fresh.tail, at'⟩
  obtain ⟨pages₁, r₁, fresh₁, mid⟩ := mid
  refine ⟨below, rfl, ?_⟩
  dsimp only at second
  unfold descend at second
  split_ifs at second with here
  · cases second
    refine ⟨pages₁, r₁, fresh₁, ?_⟩
    rw [held_low, mid]
    exact if_pos here
  cases supply₁ with
  | nil => cases second
  | cons page supply₁ =>
    cases second
    obtain ⟨refines, at'⟩ := r₁.insertLow (fresh₁.2 _ mem_cons_self) mid (if_neg here)
    exact ⟨_, refines, fresh₁.tail, at'⟩

lemma vpn_px (below : va < maxva) : vpn (px 2 va) (px 1 va) (px 0 va) = va / 4096 := by
  rw [vpn, px_val, px_val, px_val]
  have bound : va < 2 ^ 38 := below
  simp only [Nat.reduceMul, Nat.reduceAdd, Nat.reducePow] at bound ⊢
  omega

lemma walk_eq (below : va < maxva) :
    walk w root va = (held w root (.low (px 2 va) (px 1 va))).map fun pt => (pt, px 0 va) := by
  rw [walk, if_pos below]
  change _ = ((lookup w root _).bind _).map _
  rw [map_bind]
  rfl

lemma Refines.walk (r : Refines w root pages m) (below : va < maxva) :
    ((walk w root va).elim 0 fun e => w e.1 e.2) = encode (m (va / 4096)) := by
  rw [walk_eq below, ← vpn_px below, ← r.leaf, pteAt]
  cases held w root (.low (px 2 va) (px 1 va)) <;> rfl

lemma Refines.found (r : Refines w root pages m)
    (found : PageTable.walk w root va = some (pt, i)) : va < maxva ∧ i = px 0 va ∧
    held w root (.low (px 2 va) (px 1 va)) = some pt ∧ w pt i = encode (m (va / 4096)) := by
  have below : va < maxva := by
    rw [PageTable.walk] at found
    exact (ite_none_right_eq_some.mp found).1
  have value := r.walk below
  rw [found] at value
  rw [walk_eq below] at found
  obtain ⟨q, here, eq⟩ := map_eq_some_iff.mp found
  cases eq
  exact ⟨below, rfl, here, value⟩

end

/-! The calls on the map. -/

def Map.mapRange (m : Map) (a n page flags : Nat) : Map :=
  fun v => if a ≤ v ∧ v < a + n then some (page + (v - a), flags) else m v

def Map.unmapRange (m : Map) (a n : Nat) : Map :=
  fun v => if a ≤ v ∧ v < a + n then none else m v

def clearU (e : Nat × Nat) : Nat × Nat := (e.1, e.2 - (e.2 &&& pteU))

def Map.step (m : Map) : Act → Map
  | .mappages va size pa perm _ =>
    m.mapRange (va / pgsize) ((va + size - 1) / pgsize - va / pgsize + 1) (pa / pgsize)
      (leafFlags perm)
  | .uvmunmap va npages => m.unmapRange (va / pgsize) npages
  | .uvmclear va => update m (va / pgsize) ((m (va / pgsize)).map clearU)

/-- A call as its callers make it: addresses below `MAXVA`, an aligned physical address below
`2^56`, flags of ten bits, and pages from `kalloc` that are not in use. -/
def Proper (t : Table) : Act → Prop
  | .mappages va size pa perm supply =>
    va + size ≤ maxva ∧ pa % pgsize = 0 ∧ pa < 2 ^ 56 ∧ perm < 1024 ∧ supply.Nodup ∧
      ∀ p ∈ supply, ∀ place, held t.words t.root place ≠ some p
  | .uvmunmap va npages => va + npages * pgsize ≤ maxva
  | .uvmclear va => va < maxva

section
variable {w w' : Words} {root : Nat} {pages : Set Nat} {m : Map}

lemma mapRange_zero (m : Map) (a page flags : Nat) : m.mapRange a 0 page flags = m := by
  funext v
  rw [Map.mapRange, if_neg (by omega)]

lemma mapRange_succ (m : Map) (a n page flags : Nat) : m.mapRange a (n + 1) page flags =
    Map.mapRange (update m a (some (page, flags))) (a + 1) n (page + 1) flags := by
  funext v
  rw [Map.mapRange, Map.mapRange]
  by_cases first : v = a
  · subst first
    rw [if_pos (by omega), if_neg (by omega), update_self, Nat.sub_self, Nat.add_zero]
  by_cases inside : a + 1 ≤ v ∧ v < a + 1 + n
  · rw [if_pos (by omega), if_pos inside, show page + (v - a) = page + 1 + (v - (a + 1)) by omega]
  rw [if_neg (by omega), if_neg inside, update_of_ne first]

lemma unmapRange_zero (m : Map) (a : Nat) : m.unmapRange a 0 = m := by
  funext v
  rw [Map.unmapRange, if_neg (by omega)]

lemma unmapRange_succ (m : Map) (a n : Nat) :
    m.unmapRange a (n + 1) = Map.unmapRange (update m a none) (a + 1) n := by
  funext v
  rw [Map.unmapRange, Map.unmapRange]
  by_cases first : v = a
  · subst first
    rw [if_pos (by omega), if_neg (by omega), update_self]
  by_cases inside : a + 1 ≤ v ∧ v < a + 1 + n
  · rw [if_pos (by omega), if_pos inside]
  rw [if_neg (by omega), if_neg inside, update_of_ne first]

lemma Refines.mapLoop {perm n a page : Nat} (r : Refines w root pages m) (small : perm < 1024)
    (fresh : Fresh pages supply) (done : PageTable.mapLoop w root perm n a page supply = some w') :
    ∃ pages', Refines w' root pages' (m.mapRange a n page (leafFlags perm)) := by
  induction n generalizing w pages m a page supply with
  | zero =>
    cases done
    rw [mapRange_zero]
    exact ⟨pages, r⟩
  | succ n ih =>
    rw [PageTable.mapLoop] at done
    cases found : PageTable.walkAlloc w root (a * pgsize) supply with
    | none =>
      rw [found] at done
      cases done
    | some e =>
      obtain ⟨⟨pt, i⟩, w₁, supply₁⟩ := e
      rw [found] at done
      obtain ⟨-, done⟩ := ite_none_left_eq_some.mp done
      obtain ⟨below, rfl, pages₁, r₁, fresh₁, here⟩ := r.walkAlloc fresh found
      have value : pa2pte page ||| perm ||| pteV = encode (some (page, leafFlags perm)) := by
        rw [Nat.or_assoc]
        exact pa2pte_or page (leafFlags_lt small)
      have r₂ := r₁.setLeaf (k := px 0 (a * pgsize)) here value (by
        rintro page flags eq
        cases eq
        exact ⟨leafFlags_odd perm, leafFlags_lt small⟩)
      rw [vpn_px below, Nat.mul_div_cancel _ (by decide)] at r₂
      rw [mapRange_succ]
      exact ih r₂ fresh₁ done

lemma Refines.unmapLoop {n a : Nat} (r : Refines w root pages m) (done :
    PageTable.unmapLoop w root n a = some w') : Refines w' root pages (m.unmapRange a n) := by
  induction n generalizing w m a with
  | zero =>
    cases done
    rw [unmapRange_zero]
    exact r
  | succ n ih =>
    rw [PageTable.unmapLoop] at done
    cases found : PageTable.walk w root (a * pgsize) with
    | none =>
      rw [found] at done
      cases done
    | some e =>
      obtain ⟨pt, i⟩ := e
      rw [found] at done
      obtain ⟨-, done⟩ := ite_none_right_eq_some.mp done
      obtain ⟨below, rfl, here, -⟩ := r.found found
      have r₁ := r.setLeaf (k := px 0 (a * pgsize)) (v := 0) (e := none) here rfl
        fun page flags eq => absurd eq.symm (some_ne_none _)
      rw [vpn_px below, Nat.mul_div_cancel _ (by decide)] at r₁
      rw [unmapRange_succ]
      exact ih r₁ done

lemma and_pteU (x : Nat) : x &&& pteU = x / 16 % 2 * 16 := by
  rw [show pteU = 2 ^ 4 from rfl, Nat.and_two_pow, Nat.testBit_eq_decide_div_mod_eq]
  by_cases bit : x / 2 ^ 4 % 2 = 1
  · rw [decide_eq_true bit]
    change 1 * 16 = _
    omega
  rw [decide_eq_false bit]
  change 0 * 16 = _
  omega

lemma Refines.uvmclear (r : Refines w root pages m) (done : PageTable.uvmclear w root va =
    some w') : Refines w' root pages (update m (va / pgsize) ((m (va / pgsize)).map clearU)) := by
  obtain ⟨⟨pt, i⟩, found, rfl⟩ := map_eq_some_iff.mp done
  obtain ⟨below, rfl, here, value⟩ := r.found found
  have cleared : w pt (px 0 va) - (w pt (px 0 va) &&& pteU) =
      encode ((m (va / pgsize)).map clearU) := by
    rw [value, and_pteU]
    cases entry : m (va / 4096) with
    | none => rfl
    | some e =>
      obtain ⟨page, flags⟩ := e
      change page * 1024 + flags - (page * 1024 + flags) / 16 % 2 * 16 =
        page * 1024 + (flags - (flags &&& pteU))
      rw [and_pteU]
      omega
  have r₁ := r.setLeaf (k := px 0 va) here cleared (by
    intro page flags eq
    obtain ⟨⟨page', flags'⟩, entry, eq⟩ := map_eq_some_iff.mp eq
    cases eq
    have proper := r.flags _ _ _ entry
    rw [and_pteU]
    omega)
  rw [vpn_px below] at r₁
  exact r₁

lemma Refines.step {t t' : Table} {a : Act} (r : Refines t.words t.root pages m)
    (proper : Proper t a) (next : step t a = some t') :
    ∃ pages', Refines t'.words t'.root pages' (m.step a) := by
  obtain ⟨w', done, rfl⟩ := map_eq_some_iff.mp next
  cases a with
  | mappages va size pa perm supply =>
    obtain ⟨-, -, -, small, nodup, fresh⟩ := proper
    obtain ⟨-, done⟩ := ite_none_left_eq_some.mp done
    refine r.mapLoop small ⟨nodup, fun p mem inside => ?_⟩ done
    obtain ⟨place, here⟩ := r.exact.owned (some p) ⟨p, inside, rfl⟩
    exact fresh p mem place here
  | uvmunmap va npages =>
    obtain ⟨-, done⟩ := ite_none_right_eq_some.mp done
    exact ⟨pages, r.unmapLoop done⟩
  | uvmclear va => exact ⟨pages, r.uvmclear done⟩

lemma uvmcreate_refines (page : Nat) (w : Words) :
    Refines (uvmcreate page w).words (uvmcreate page w).root {page} fun _ => none := by
  have zero : ∀ i, (uvmcreate page w).words page i = 0 := by
    intro i
    change zeroPage w page page i = 0
    rw [zeroPage, update_self]
  have empty : ∀ i, lookup (uvmcreate page w).words page i = none := fun i => lookup_zero (zero i)
  have only : ∀ p q, held (uvmcreate page w).words page p = some q → p = .root ∧ q = page := by
    intro p q here
    cases p with
    | root => exact ⟨rfl, (some.inj here).symm⟩
    | mid i => exact absurd ((empty i).symm.trans here).symm (some_ne_none q)
    | low i j =>
      rw [held_low] at here
      change (lookup _ page i).bind _ = _ at here
      rw [empty] at here
      exact absurd here.symm (some_ne_none q)
  refine ⟨⟨fun p some => ?_, fun p q some same => ?_, fun b mem => ?_, fun mem => ?_⟩,
    fun i j k => ?_, fun _ _ _ eq => absurd eq.symm (some_ne_none _), plain_zeroPage,
    fun i pt there => absurd ((empty i).symm.trans there).symm (some_ne_none pt)⟩
  · obtain ⟨q, here⟩ := ne_none_iff_exists'.mp some
    obtain ⟨-, rfl⟩ := only p q here
    exact ⟨q, rfl, here.symm⟩
  · obtain ⟨x, here⟩ := ne_none_iff_exists'.mp some
    exact (only p x here).1.trans (only q x (same.symm.trans here)).1.symm
  · obtain ⟨q, rfl, rfl⟩ := mem
    exact ⟨.root, rfl⟩
  · obtain ⟨q, -, eq⟩ := mem
    exact some_ne_none q eq
  change ((lookup _ page i).bind _).elim 0 _ = 0
  rw [empty]
  rfl

end
end Xv6.PageTable
