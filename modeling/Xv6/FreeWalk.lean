import Xv6.PageMap

/-! `freewalk` frees the pages of a page table without leaves, each of them once, and the page
table as a whole refines the map built by the same calls. -/
namespace Xv6.PageTable
open Interleaving List Option Function

/-- The pages of the tree below a page, in the order in which `freewalk` frees them. -/
def pagesBelow : Nat → Words → Nat → List Nat
  | 0, _, p => [p]
  | level + 1, w, p =>
    (List.finRange 512).flatMap (fun i => (lookup w p i).elim [] (pagesBelow level w)) ++ [p]

/-- A tree without leaves. -/
def Bare : Nat → Words → Nat → Prop
  | 0, w, p => ∀ i, valid (w p i) = false
  | level + 1, w, p => Plain w p ∧ ∀ i q, lookup w p i = some q → Bare level w q

variable {x : Nat}

section
variable {w w' : Words} {p level : Nat}

lemma self_mem_pagesBelow (level : Nat) (w : Words) (p : Nat) : p ∈ pagesBelow level w p := by
  cases level with
  | zero => exact mem_singleton_self p
  | succ level => exact mem_append_right _ (mem_singleton_self p)

lemma child_mem_pagesBelow {i : Index} {q : Nat} (here : lookup w p i = some q)
    (mem : x ∈ pagesBelow level w q) : x ∈ pagesBelow (level + 1) w p := by
  refine mem_append_left _ (mem_flatMap.mpr ⟨i, mem_finRange i, ?_⟩)
  rw [here]
  exact mem

lemma pagesBelow_congr (same : ∀ q ∈ pagesBelow level w p, w' q = w q) :
    pagesBelow level w' p = pagesBelow level w p := by
  induction level generalizing p with
  | zero => rfl
  | succ level ih =>
    have own := same p (self_mem_pagesBelow _ w p)
    rw [pagesBelow, pagesBelow]
    refine congrArg (· ++ [p]) (flatMap_congr fun i _ => ?_)
    rw [lookup_congr (congrFun own i)]
    cases here : lookup w p i with
    | none => rfl
    | some q => exact ih fun x mem => same x (child_mem_pagesBelow here mem)

lemma Bare.congr (bare : Bare level w p) (same : ∀ q ∈ pagesBelow level w p, w' q = w q) :
    Bare level w' p := by
  induction level generalizing p with
  | zero =>
    intro i
    rw [same p (self_mem_pagesBelow 0 w p)]
    exact bare i
  | succ level ih =>
    have own := same p (self_mem_pagesBelow _ w p)
    refine ⟨bare.1.congr own, fun i q here => ?_⟩
    rw [lookup_congr (congrFun own i)] at here
    exact ih (bare.2 i q here) fun x mem => same x (child_mem_pagesBelow here mem)

def freeRound (depth pt : Nat) (r : Words × List Nat) (i : Index) : Option (Words × List Nat) :=
  let pte := r.1 pt i
  if valid pte && pte &&& (pteR ||| pteW ||| pteX) == 0 then
    (freewalk depth r.1 (pte2pa pte)).map fun q => (setWord q.1 pt i 0, r.2 ++ q.2)
  else if valid pte then none
  else some r

lemma freewalk_succ (depth : Nat) (w : Words) (pt : Nat) :
    freewalk (depth + 1) w pt =
      ((List.finRange 512).foldlM (freeRound depth pt) (w, [])).map fun r =>
        (update r.1 pt fun _ => junk, r.2 ++ [pt]) := rfl

lemma interior_flags {pte : Nat} (plain : pte % 1024 = 1) :
    (pte &&& (pteR ||| pteW ||| pteX) == 0) = true := by
  have mask : pteR ||| pteW ||| pteX = 14 := rfl
  rw [mask, beq_iff_eq]
  refine Nat.eq_of_testBit_eq fun k => ?_
  rw [Nat.testBit_and, Nat.zero_testBit]
  by_cases small : k < 4
  · have bit : pte.testBit k = decide (k = 0) := by
      rw [Nat.testBit_eq_decide_div_mod_eq]
      have cases : k = 0 ∨ k = 1 ∨ k = 2 ∨ k = 3 := by omega
      rw [decide_eq_decide]
      rcases cases with rfl | rfl | rfl | rfl
      · exact iff_of_true (by omega) rfl
      all_goals exact iff_of_false (by omega) (by decide)
    rw [bit]
    by_cases zero : k = 0
    · rw [zero]
      rfl
    rw [decide_eq_false zero, Bool.false_and]
  have high : (14 : Nat).testBit k = false := Nat.testBit_lt_two_pow
    (Nat.lt_of_lt_of_le (show 14 < 2 ^ 4 by decide) (Nat.pow_le_pow_right (by decide) (by omega)))
  rw [high, Bool.and_false]

lemma freeLoop_spec {is : List Index} (acc : List Nat)
    (child : ∀ w q, Bare level w q → (pagesBelow level w q).Nodup → ∃ w', freewalk (level + 1) w q =
    some (w', pagesBelow level w q) ∧ ∀ x ∉ pagesBelow level w q, w' x = w x) (plain : Plain w p)
    (bare : ∀ i ∈ is, ∀ q, lookup w p i = some q → Bare level w q) (distinct : is.Nodup)
    (nodup : (is.flatMap (fun i => (lookup w p i).elim [] (pagesBelow level w)) ++ [p]).Nodup) :
    ∃ w', is.foldlM (freeRound (level + 1) p) (w, acc) =
    some (w', acc ++ is.flatMap fun i => (lookup w p i).elim [] (pagesBelow level w)) ∧ ∀ x ∉
    is.flatMap (fun i => (lookup w p i).elim [] (pagesBelow level w)), x ≠ p → w' x = w x := by
  induction is generalizing w acc with
  | nil => exact ⟨w, by rw [flatMap_nil, append_nil]; rfl, fun _ _ _ => rfl⟩
  | cons i is ih =>
    obtain ⟨later, distinct⟩ := nodup_cons.mp distinct
    rw [flatMap_cons, append_assoc] at nodup
    rw [foldlM_cons, flatMap_cons]
    cases here : lookup w p i with
    | none =>
      have invalid : valid (w p i) = false := by
        refine Bool.eq_false_iff.mpr fun ok => ?_
        rw [lookup, if_pos ok] at here
        exact some_ne_none _ here
      rw [here] at nodup
      have first : freeRound (level + 1) p (w, acc) i = some (w, acc) := by
        simp [freeRound, invalid]
      rw [first]
      exact ih acc plain (fun k mem => bare k (mem_cons_of_mem _ mem)) distinct nodup
    | some q =>
      have ok : valid (w p i) = true := by
        refine of_not_not fun bad => ?_
        rw [lookup, if_neg bad] at here
        exact some_ne_none _ here.symm
      have target : pte2pa (w p i) = q := by
        rw [lookup, if_pos ok] at here
        exact some.inj here
      rw [here] at nodup
      obtain ⟨own, rest, apart⟩ := nodup_append.mp nodup
      obtain ⟨w₁, freed, frame⟩ := child w q (bare i mem_cons_self q here) own
      have outside : p ∉ pagesBelow level w q := fun mem =>
        apart p mem p (mem_append_right _ (mem_singleton_self p)) rfl
      have first : freeRound (level + 1) p (w, acc) i =
          some (setWord w₁ p i 0, acc ++ pagesBelow level w q) := by
        simp only [freeRound, ok, interior_flags (plain i ok), Bool.and_self, if_true, target,
          freed, map_some]
      -- the trees below the later entries are untouched
      have entry : ∀ k ∈ is, lookup (setWord w₁ p i 0) p k = lookup w p k := by
        intro k mem
        refine lookup_congr ((setWord_index ?_).trans (congrFun (frame p outside) k))
        rintro rfl
        exact later mem
      have tree : ∀ k ∈ is, ∀ q', lookup w p k = some q' →
          ∀ x ∈ pagesBelow level w q', setWord w₁ p i 0 x = w x := by
        intro k mem q' there x inside
        have below : x ∈ is.flatMap fun i => (lookup w p i).elim [] (pagesBelow level w) := by
          refine mem_flatMap.mpr ⟨k, mem, ?_⟩
          rw [there]
          exact inside
        have ne : x ≠ p := by
          rintro rfl
          exact (nodup_append.mp rest).2.2 x below x (mem_singleton_self x) rfl
        rw [setWord_page ne]
        exact frame x fun mem' => apart x mem' x (mem_append_left _ below) rfl
      have same : (is.flatMap fun k =>
          (lookup (setWord w₁ p i 0) p k).elim [] (pagesBelow level (setWord w₁ p i 0))) =
          is.flatMap fun k => (lookup w p k).elim [] (pagesBelow level w) := by
        refine flatMap_congr fun k mem => ?_
        rw [entry k mem]
        cases there : lookup w p k with
        | none => rfl
        | some q' => exact pagesBelow_congr (tree k mem q' there)
      have plain' : Plain (setWord w₁ p i 0) p := by
        intro k good
        by_cases eq : k = i
        · rw [eq, setWord_self] at good
          exact absurd good (by decide)
        rw [setWord_index eq, frame p outside] at good ⊢
        exact plain k good
      obtain ⟨w₂, run, frame'⟩ := ih (w := setWord w₁ p i 0)
        (acc ++ pagesBelow level w q) plain'
        (fun k mem q' there => by
          rw [entry k mem] at there
          exact (bare k (mem_cons_of_mem _ mem) q' there).congr (tree k mem q' there))
        distinct (same ▸ rest)
      rw [same] at run frame'
      refine ⟨w₂, ?_, fun x out ne => ?_⟩
      · grind
      rw [mem_append, not_or] at out
      rw [frame' x out.2 ne, setWord_page ne]
      exact frame x out.1

lemma freewalk_spec (bare : Bare level w p) (nodup : (pagesBelow level w p).Nodup) :
    ∃ w', freewalk (level + 1) w p = some (w', pagesBelow level w p) ∧ ∀ x ∉ pagesBelow level w p,
    w' x = w x := by
  induction level generalizing w p with
  | zero =>
    have rounds : ∀ is : List Index, is.foldlM (freeRound 0 p) (w, []) = some (w, []) := by
      intro is
      induction is with
      | nil => rfl
      | cons i is ih =>
        rw [foldlM_cons]
        have first : freeRound 0 p (w, []) i = some (w, []) := by simp [freeRound, bare i]
        rw [first]
        exact ih
    refine ⟨update w p fun _ => junk, ?_, fun x out => ?_⟩
    · rw [freewalk_succ, rounds, map_some, nil_append, pagesBelow]
    exact update_of_ne (fun eq => out (mem_singleton.mpr eq)) _ _
  | succ level ih =>
    obtain ⟨w', run, frame⟩ := freeLoop_spec (w := w) (p := p) []
      (fun _ _ => ih) bare.1 (fun i _ => bare.2 i) (nodup_finRange 512) nodup
    refine ⟨update w' p fun _ => junk, ?_, fun x out => ?_⟩
    · rw [freewalk_succ, run, map_some, nil_append, pagesBelow]
    rw [pagesBelow, mem_append, not_or, mem_singleton] at out
    rw [update_of_ne out.2]
    exact frame x out.1 out.2

end

section
variable {w : Words} {root p level : Nat} {pages : Set Nat} {m : Map}

lemma mem_pagesBelow_succ : x ∈ pagesBelow (level + 1) w p ↔
    (∃ i q, lookup w p i = some q ∧ x ∈ pagesBelow level w q) ∨ x = p := by
  rw [pagesBelow, mem_append, mem_singleton, mem_flatMap]
  refine or_congr_left ⟨?_, ?_⟩
  · rintro ⟨i, -, mem⟩
    cases here : lookup w p i with
    | none =>
      rw [here] at mem
      exact absurd mem not_mem_nil
    | some q =>
      rw [here] at mem
      exact ⟨i, q, here, mem⟩
  rintro ⟨i, q, here, mem⟩
  refine ⟨i, mem_finRange i, ?_⟩
  rw [here]
  exact mem

lemma nodup_pagesBelow_succ (each : ∀ i q, lookup w p i = some q → (pagesBelow level w q).Nodup)
    (apart : ∀ i j q r, i ≠ j → lookup w p i = some q → lookup w p j = some r →
    ∀ x ∈ pagesBelow level w q, x ∉ pagesBelow level w r) (above : ∀ i q, lookup w p i = some q →
    p ∉ pagesBelow level w q) : (pagesBelow (level + 1) w p).Nodup := by
  have elim : ∀ i x, x ∈ (lookup w p i).elim [] (pagesBelow level w) →
      ∃ q, lookup w p i = some q ∧ x ∈ pagesBelow level w q := by
    intro i x mem
    cases here : lookup w p i with
    | none =>
      rw [here] at mem
      exact absurd mem not_mem_nil
    | some q =>
      rw [here] at mem
      exact ⟨q, rfl, mem⟩
  rw [pagesBelow]
  refine nodup_append.mpr ⟨nodup_flatMap.mpr ⟨fun i _ => ?_, ?_⟩,
    nodup_singleton p, fun x mem y mem' => ?_⟩
  · cases here : lookup w p i with
    | none => exact nodup_nil
    | some q => exact each i q here
  · refine (nodup_finRange 512).imp fun {i j} ne x mem mem' => ?_
    obtain ⟨q, here, inside⟩ := elim i x mem
    obtain ⟨r, there, inside'⟩ := elim j x mem'
    exact apart i j q r ne here there x inside inside'
  obtain ⟨i, -, mem⟩ := mem_flatMap.mp mem
  obtain ⟨q, here, inside⟩ := elim i x mem
  rintro rfl
  exact above i q here (mem_singleton.mp mem' ▸ inside)

lemma mem_middle {i : Index} (mid : held w root (.mid i) = some p) : x ∈ pagesBelow 1 w p ↔
    held w root (.mid i) = some x ∨ ∃ j, held w root (.low i j) = some x := by
  rw [mem_pagesBelow_succ, or_comm]
  refine or_congr ?_ ⟨?_, ?_⟩
  · rw [mid, some_inj, eq_comm]
  · rintro ⟨j, q, here, mem⟩
    refine ⟨j, ?_⟩
    rw [held_low, mid]
    exact mem_singleton.mp mem ▸ here
  rintro ⟨j, here⟩
  rw [held_low, mid] at here
  exact ⟨j, x, here, mem_singleton_self x⟩

lemma mem_pages : x ∈ pagesBelow 2 w root ↔ ∃ place, held w root place = some x := by
  rw [mem_pagesBelow_succ]
  constructor
  · rintro (⟨i, q, mid, mem⟩ | rfl)
    · rcases (mem_middle (i := i) mid).mp mem with here | ⟨j, here⟩
      · exact ⟨_, here⟩
      exact ⟨_, here⟩
    exact ⟨.root, rfl⟩
  rintro ⟨place, here⟩
  cases place with
  | root => exact .inr (some.inj here).symm
  | mid i => exact .inl ⟨i, x, here, self_mem_pagesBelow 1 w x⟩
  | low i j =>
    rw [held_low] at here
    obtain ⟨q, mid, low⟩ := bind_eq_some_iff.mp here
    refine .inl ⟨i, q, mid, (mem_middle (i := i) mid).mpr (.inr ⟨j, ?_⟩)⟩
    rw [held_low, mid]
    exact low

lemma Refines.nodup_pages (r : Refines w root pages m) : (pagesBelow 2 w root).Nodup := by
  have low : ∀ {i j : Index} {q x : Nat}, held w root (.mid i) = some q → lookup w q j = some x →
      held w root (.low i j) = some x := by
    intro i j q x mid here
    rw [held_low, mid]
    exact here
  refine nodup_pagesBelow_succ (fun i q mid => ?_) (fun i j q q' ne mid mid' x mem mem' => ?_)
    fun i q mid mem => ?_
  · refine nodup_pagesBelow_succ (fun _ _ _ => nodup_singleton _)
      (fun j k x y ne here there z mem mem' => ?_) fun j x here mem => ?_
    · obtain rfl := mem_singleton.mp mem
      obtain rfl := mem_singleton.mp mem'
      exact ne (Place.low.inj (r.distinct (low mid here) (low mid there))).2
    obtain rfl := mem_singleton.mp mem
    have eq := r.distinct (q := .mid i) (low mid here) mid
    cases eq
  · rcases (mem_middle (i := i) mid).mp mem with here | ⟨k, here⟩ <;>
      rcases (mem_middle (i := j) mid').mp mem' with there | ⟨l, there⟩
    · exact ne (Place.mid.inj (r.distinct here there))
    · exact Place.noConfusion (r.distinct here there)
    · exact Place.noConfusion (r.distinct here there)
    exact ne (Place.low.inj (r.distinct here there)).1
  rcases (mem_middle (i := i) mid).mp mem with here | ⟨k, here⟩
  · exact Place.noConfusion (r.distinct (q := .root) here rfl)
  exact Place.noConfusion (r.distinct (q := .root) here rfl)

lemma Refines.bare (r : Refines w root pages m) (unmapped : ∀ v, m v = none) : Bare 2 w root := by
  refine ⟨r.top, fun i q mid => ⟨r.middle i q mid, fun j x here k => ?_⟩⟩
  have value := r.leaf i j k
  have low : held w root (.low i j) = some x := by
    change (lookup w root i).bind _ = _
    rw [mid]
    exact here
  rw [unmapped, pteAt, low] at value
  have zero : w x k = 0 := value
  rw [zero]
  rfl

def userAddress : Option (Nat × Nat) → Nat
  | some (page, flags) => if flags &&& pteU != 0 then page <<< 12 else 0
  | none => 0

lemma Refines.walkaddr (r : Refines w root pages m) {va : Nat} (below : va < maxva) :
    PageTable.walkaddr w root va = userAddress (m (va / pgsize)) := by
  have value := r.walk below
  rw [PageTable.walkaddr]
  cases entry : m (va / 4096) with
  | none =>
    rw [entry] at value
    cases found : PageTable.walk w root va with
    | none => rfl
    | some e =>
      rw [found] at value
      have zero : w e.1 e.2 = 0 := value
      simp only [zero]
      rfl
  | some e =>
    obtain ⟨page, flags⟩ := e
    obtain ⟨odd, small⟩ := r.flags _ _ _ entry
    rw [entry] at value
    cases found : PageTable.walk w root va with
    | none =>
      rw [found] at value
      have zero : 0 = page * 1024 + flags := value
      omega
    | some e =>
      rw [found] at value
      have word : w e.1 e.2 = page * 1024 + flags := value
      have ok : valid (w e.1 e.2) = true := (valid_iff _).mpr (by rw [word]; omega)
      have user : w e.1 e.2 &&& pteU = flags &&& pteU := by
        rw [word, and_pteU, and_pteU]
        omega
      have target : pte2pa (w e.1 e.2) = page := by
        rw [word, pte2pa_eq]
        omega
      simp only [ok, if_true, user, target, userAddress]

end

def touches : Act → Nat → Prop
  | .mappages va size _ _ _, v =>
    va / pgsize ≤ v ∧ v ≤ va / pgsize + ((va + size - 1) / pgsize - va / pgsize)
  | .uvmunmap va npages, v => va / pgsize ≤ v ∧ v < va / pgsize + npages
  | .uvmclear va, v => v = va / pgsize

lemma Map.step_of_not_touches {m : Map} {a : Act} {v : Nat} (other : ¬ touches a v) :
    m.step a v = m v := by
  cases a with
  | mappages va size pa perm supply =>
    exact if_neg fun inside => other ⟨inside.1, by have ub := inside.2; omega⟩
  | uvmunmap va npages => exact if_neg other
  | uvmclear va => exact update_of_ne other ..

/-- The entry of a virtual address, 0 if `walk` finds none. -/
def entryOf (t : Table) (va : Nat) : Nat :=
  (walk t.words t.root va).elim 0 fun e => t.words e.1 e.2

/-- A page table built by successful calls is the map built by the same calls: `walk` finds the
page and the flags of each address and `walkaddr` its physical address, a further call changes no
entry that it is not about, and `freewalk` after the last leaf is unmapped frees every page-table
page once. -/
theorem page_table_is_a_map {page : Nat} {w : Words} {as : List Act} {t : Table}
    (run : Run step Proper (uvmcreate page w) as t) :
    let m := as.foldl Map.step fun _ => none
    (∀ va < maxva, entryOf t va = encode (m (va / pgsize))) ∧
    (∀ va < maxva, walkaddr t.words t.root va = userAddress (m (va / pgsize))) ∧
    (∀ a t', Proper t a → step t a = some t' → ∀ va < maxva,
      ¬ touches a (va / pgsize) → entryOf t' va = entryOf t va) ∧
    ((∀ v, m v = none) → ∃ w' freed, freewalk 3 t.words t.root = some (w', freed) ∧
      freed.Nodup ∧ ∀ p, p ∈ freed ↔ ∃ place, held t.words t.root place = some p) := by
  have refines : ∀ {as t}, Run step Proper (uvmcreate page w) as t →
      ∃ pages, Refines t.words t.root pages (as.foldl Map.step fun _ => none) := by
    intro as t run
    refine run.history (P := fun as t =>
      ∃ pages, Refines t.words t.root pages (as.foldl Map.step fun _ => none))
      ⟨_, uvmcreate_refines page w⟩ fun bs x a y _ before proper next => ?_
    obtain ⟨pages, r⟩ := before
    rw [foldl_append]
    exact r.step proper next
  obtain ⟨pages, r⟩ := refines run
  refine ⟨fun va below => r.walk below, fun va below => r.walkaddr below,
    fun a t' proper next va below other => ?_, fun unmapped => ?_⟩
  · obtain ⟨pages', r'⟩ := r.step proper next
    rw [entryOf, entryOf, r'.walk below, r.walk below]
    exact congrArg encode (Map.step_of_not_touches other)
  obtain ⟨w', freed, -⟩ := freewalk_spec (r.bare unmapped) r.nodup_pages
  exact ⟨w', _, freed, r.nodup_pages, fun p => mem_pages⟩

/-- A readable user page is mapped at address 0. -/
def mapFirst : Act := .mappages 0 pgsize (20 * pgsize) (pteR ||| pteU) [11, 12]

theorem first_page_is_mapped :
    ∃ t u w freed, Run step Proper (uvmcreate 10 fun _ _ => 0) [mapFirst] t ∧
      walkaddr t.words t.root 100 = 20 * pgsize ∧
      Run step Proper t [.uvmclear 0, .uvmunmap 0 1] u ∧
      freewalk 3 u.words u.root = some (w, freed) ∧ freed.Nodup := by
  have proper : Proper (uvmcreate 10 fun _ _ => 0) mapFirst := by
    refine ⟨by decide, by decide, by decide, by decide, by decide, fun p mem place here => ?_⟩
    have own := (uvmcreate_refines 10 fun _ _ => 0).mem here
    rw [Set.mem_singleton_iff.mp own] at mem
    exact absurd mem (by decide)
  have enabled : ((step (uvmcreate 10 fun _ _ => 0) mapFirst).bind fun t =>
      (step t (.uvmclear 0)).bind (step · (.uvmunmap 0 1))).isSome = true := by
    decide +kernel
  obtain ⟨u, done⟩ := isSome_iff_exists.mp enabled
  obtain ⟨t, map, done⟩ := bind_eq_some_iff.mp done
  obtain ⟨x, clear, unmap⟩ := bind_eq_some_iff.mp done
  have first : Run step Proper _ [mapFirst] t := .cons proper map (.nil t)
  have second : Run step Proper t [.uvmclear 0, .uvmunmap 0 1] u :=
    .cons (by decide : 0 < maxva) clear (.cons (by decide : 0 + 1 * pgsize ≤ maxva) unmap (.nil u))
  obtain ⟨-, address, -⟩ := page_table_is_a_map first
  obtain ⟨-, -, -, frees⟩ := page_table_is_a_map (first.append second)
  obtain ⟨w, freed, free, nodup, -⟩ := frees fun v => by
    by_cases h : v = 0 <;> simp [Map.step, Map.unmapRange, Map.mapRange, mapFirst, pgsize, h]
  exact ⟨t, u, w, freed, first, (address 100 (by decide)).trans (by decide), second, free, nodup⟩

end Xv6.PageTable
