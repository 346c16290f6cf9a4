import Mathlib.Data.Finset.Card
import Xv6.UserVmSpace

/-! The address space of a process: the first pages, the trapframe and the trampoline are mapped.
`uvmalloc`, `uvmdealloc` and `uvmcopy` keep that shape and do not panic. -/
namespace Xv6.Vm
open PageTable Option Finset
open Function (update update_of_ne update_self)

structure Image (m : Map) (n code frame : Nat) : Prop where
  user : ∀ v < trapframe, (m v ≠ none ↔ v < n)
  code : m trampoline = some (code, leafFlags (pteR ||| pteX))
  frame : m trapframe = some (frame, leafFlags (pteR ||| pteW))
  above : ∀ v, trampoline < v → m v = none
  fits : n ≤ trapframe

/-- The maps differ only in user memory from the page `v` on. -/
def Extends (v : Nat) (m m' : Map) : Prop := ∀ u, ¬ (v ≤ u ∧ u < trapframe) → m' u = m u

section
variable {k : Mem} {root n v code frame sz : Nat} {tables : Set Nat} {m m' : Map}

lemma Space.fits (h : Space k root tables m) (mapped : ∀ v < n, m v ≠ none)
    (low : n ≤ trapframe) : n ≤ phystop := by
  have entry : ∀ v < n, ∃ e, m v = some e := fun v below => ne_none_iff_exists'.mp (mapped v below)
  have pageOf : ∀ v < n, ∃ f, m v = some (((m v).map Prod.fst).getD 0, f) := by grind
  have card := card_le_card_of_injOn (s := range n) (t := range phystop)
    (fun v => ((m v).map Prod.fst).getD 0) (fun v mem => ?_) fun v mem v' mem' same => ?_
  · rwa [card_range, card_range] at card
  · have below := mem_range.mp mem
    obtain ⟨f, here⟩ := pageOf v below
    exact mem_coe.mpr (mem_range.mpr
      (h.small _ (.inr (.inr ⟨v, f, by omega, here⟩))))
  have below := mem_range.mp (mem_coe.mp mem)
  have below' := mem_range.mp (mem_coe.mp mem')
  obtain ⟨f, here⟩ := pageOf v below
  obtain ⟨f', here'⟩ := pageOf v' below'
  dsimp only at same
  rw [same] at here
  exact h.inj v v' _ f f' (by omega) (by omega) here here'

section
variable (img : Image m n code frame)
include img

lemma Image.small (h : Space k root tables m) : n ≤ phystop :=
  h.fits (fun v below => (img.user v (lt_of_lt_of_le below img.fits)).mpr below) img.fits

lemma Image.below (h : Space k root tables m) : n < trapframe := by
  have small := img.small h
  rw [phystop] at small
  rw [trapframe_eq]
  omega

lemma Image.empty (low : v < trapframe) (out : n ≤ v) : m v = none :=
  of_not_not fun some => absurd ((img.user v low).mp some) (Nat.not_lt.mpr out)

lemma Image.grow {e : Nat × Nat} (low : n < trapframe) :
    Image (update m n (some e)) (n + 1) code frame := by
  have top := trampoline_eq
  rw [trapframe_eq] at low
  refine ⟨fun v below => ?_, ?_, ?_, fun v above => ?_, ?_⟩
  · by_cases eq : v = n
    · rw [eq, update_self]
      exact iff_of_true (some_ne_none e) (Nat.lt_succ_self n)
    rw [update_of_ne eq, img.user v below]
    omega
  · rw [update_of_ne (by omega)]
    exact img.code
  · rw [update_of_ne (by rw [trapframe_eq]; omega)]
    exact img.frame
  · rw [update_of_ne (by omega)]
    exact img.above v above
  rw [trapframe_eq]
  omega

lemma Image.shrink (less : v ≤ n) : Image (m.unmapRange v (n - v)) v code frame := by
  have fits := img.fits
  have top := trampoline_eq
  have frameAt := trapframe_eq
  refine ⟨fun u below => ?_, ?_, ?_, fun u above => ?_, by omega⟩
  · rw [Map.unmapRange]
    split_ifs with inside
    · exact iff_of_false (fun ne => ne rfl) (by omega)
    rw [img.user u below]
    omega
  · rw [Map.unmapRange, if_neg (by omega)]
    exact img.code
  · rw [Map.unmapRange, if_neg (by omega)]
    exact img.frame
  rw [Map.unmapRange, if_neg (by omega)]
  exact img.above u above

end

lemma Extends.trans {m'' : Map} {v' : Nat} (a : Extends v m m') (b : Extends v' m' m'')
    (le : v ≤ v') : Extends v m m'' := fun u out =>
  (b u fun inside => out ⟨Nat.le_trans le inside.1, inside.2⟩).trans (a u out)

lemma extends_update {e : Option (Nat × Nat)} (low : v < trapframe) :
    Extends v m (update m v e) := by
  intro u out
  rw [update_of_ne]
  rintro rfl
  exact out ⟨le_rfl, low⟩

lemma Image.leaves_subset (img : Image m n code frame) (grown : Extends n m m') :
    ∀ x ∈ leaves m, x ∈ leaves m' := by
  rintro x ⟨u, f, low, here⟩
  refine ⟨u, f, low, ?_⟩
  rw [grown u, here]
  rintro ⟨out, -⟩
  exact absurd ((img.empty low out).symm.trans here).symm (some_ne_none _)

lemma Image.restore (img : Image m n code frame) (img' : Image m' v code frame)
    (grown : Extends n m m') (le : n ≤ v) : m'.unmapRange n (v - n) = m := by
  funext u
  rw [Map.unmapRange]
  split_ifs with inside
  · exact (img.empty (by have := img'.fits; omega) inside.1).symm
  by_cases out : n ≤ u ∧ u < trapframe
  · rw [img'.empty out.2 (by omega), img.empty out.2 out.1]
  exact grown u out

lemma Space.shrink (h : Space k root tables m) (img : Image m n code frame) (less : v ≤ n) : ∃ k',
    Vm.uvmunmap root true (n - v) v k = some k' ∧ Space k' root tables (m.unmapRange v (n - v)) ∧
    Keeps k tables m k' tables (m.unmapRange v (n - v)) := by
  have fits := img.fits
  exact h.uvmunmap (by omega) fun j _ last => (img.user j (by omega)).mpr (by omega)

lemma pages_mul (v : Nat) : pages (v * pgsize) = v := by
  unfold pages
  change (v * 4096 + 4096 - 1) / 4096 = v
  omega

lemma pages_mono {a b : Nat} (le : a ≤ b) : pages a ≤ pages b := by
  unfold pages
  change (a + 4096 - 1) / 4096 ≤ (b + 4096 - 1) / 4096
  omega

lemma Space.uvmdealloc {oldsz : Nat} (h : Space k root tables m)
    (img : Image m (pages oldsz) code frame) (newsz : Nat) : ∃ k', Vm.uvmdealloc k
    root oldsz newsz = some (min oldsz newsz, k') ∧ Space k' root tables (m.unmapRange
    (pages (min oldsz newsz)) (pages oldsz - pages (min oldsz newsz))) ∧ Keeps k tables m k' tables
    (m.unmapRange (pages (min oldsz newsz)) (pages oldsz - pages (min oldsz newsz))) := by
  rw [Vm.uvmdealloc]
  by_cases le : oldsz ≤ newsz
  · rw [if_pos le, Nat.min_eq_left le, Nat.sub_self, unmapRange_zero]
    exact ⟨k, rfl, h, .refl⟩
  have le' : newsz ≤ oldsz := by omega
  rw [if_neg le, Nat.min_eq_right le']
  split_ifs with less
  · obtain ⟨k', run, space, keeps⟩ := h.shrink img (pages_mono le')
    exact ⟨k', by rw [run]; rfl, space, keeps⟩
  rw [show pages oldsz - pages newsz = 0 by omega, unmapRange_zero]
  exact ⟨k, rfl, h, .refl⟩

lemma or_readable (p : Nat) : leafFlags (pteR ||| p) / 2 % 2 = 1 := by
  have bit : (leafFlags (pteR ||| p)).testBit 1 = true := by simp [leafFlags, Nat.testBit_or]
  rw [Nat.testBit_eq_decide_div_mod_eq] at bit
  exact of_decide_eq_true bit

lemma or_small {p q : Nat} (first : p < 1024) (second : q < 1024) : p ||| q < 1024 :=
  Nat.or_lt_two_pow (n := 10) first second

/-- The loops of `uvmalloc` and `uvmcopy` end with a larger image. -/
def Grown (k : Mem) (root : Nat) (tables : Set Nat) (m : Map) (v n code frame : Nat) :
    Option Nat × Mem → Prop
  | (r, k') => ∃ tables' m', Space k' root tables' m' ∧ Keeps k tables m k' tables' m' ∧
      Extends v m m' ∧ v ≤ r.getD (v + n) ∧ Image m' (r.getD (v + n)) code frame

lemma Grown.cons {k₁ : Mem} {tables₁ : Set Nat} {page f : Nat}
    {r : Option Nat × Mem} (img : Image m v code frame) (low : v < trapframe)
    (keeps : Keeps k tables m k₁ tables₁ (update m v (some (page, f))))
    (grown : Grown k₁ root tables₁ (update m v (some (page, f))) (v + 1) n code frame r) :
    Grown k root tables m v (n + 1) code frame r := by
  obtain ⟨r, k'⟩ := r
  obtain ⟨tables', m', space, keeps', ext, le, img'⟩ := grown
  have all : Extends v m m' := (extends_update low).trans ext (Nat.le_succ v)
  have first := img.leaves_subset (extends_update (e := some (page, f)) low)
  rw [show v + 1 + n = v + (n + 1) by omega] at le img'
  exact ⟨tables', m', space, keeps.trans keeps' fun x mem _ => first x mem, all, by omega, img'⟩

lemma Grown.fail {k₁ : Mem} {tables₁ : Set Nat} (img : Image m v code frame)
    (space : Space k₁ root tables₁ m) (keeps : Keeps k tables m k₁ tables₁ m) :
    Grown k root tables m v n code frame (some v, k₁) :=
  ⟨tables₁, m, space, keeps, fun _ _ => rfl, le_rfl, img⟩

lemma Space.uvmallocLoop {xperm : Nat} (h : Space k root tables m)
    (img : Image m v code frame) (small : xperm < 1024) :
    ∃ r, Vm.uvmallocLoop root xperm n v k = some r ∧ Grown k root tables m v n code frame r := by
  induction n generalizing k tables m v with
  | zero => exact ⟨_, rfl, tables, m, h, .refl, fun _ _ => rfl, le_rfl, img⟩
  | succ n ih =>
    have low := img.below h
    have perm : pteR ||| pteU ||| xperm < 1024 := or_small (by decide) small
    have bit : leafFlags (pteR ||| pteU ||| xperm) / 2 % 2 = 1 := by
      rw [Nat.or_assoc]
      exact or_readable _
    rcases h.mapNew low (img.empty low le_rfl) perm bit (fun _ => 0) with
      ⟨k₁, tables₁, run, space, keeps⟩ | ⟨k₁, tables₁, page, run, space, keeps, -⟩
    · exact ⟨(some v, k₁), by simp only [Vm.uvmallocLoop, run], .fail img space keeps⟩
    obtain ⟨r, rest, grown⟩ := ih space (img.grow low)
    exact ⟨r, by simp only [Vm.uvmallocLoop, run]; exact rest, grown.cons img low keeps⟩

lemma Space.uvmalloc {oldsz xperm : Nat} (newsz : Nat) (h : Space k root tables m)
    (img : Image m (pages oldsz) code frame) (small : xperm < 1024) :
    ∃ sz' k' tables' m', Vm.uvmalloc k root oldsz newsz xperm = some (sz', k') ∧
    Space k' root tables' m' ∧ Keeps k tables m k' tables' m' ∧
    (sz' = 0 ∧ m' = m ∨ sz' = max oldsz newsz ∧ Image m' (pages sz') code frame) := by
  rw [Vm.uvmalloc]
  split_ifs with less
  · exact ⟨oldsz, k, tables, m, rfl, h, .refl, .inr ⟨by omega, img⟩⟩
  have le := pages_mono (Nat.not_lt.mp less)
  obtain ⟨⟨r, k₁⟩, run, tables₁, m₁, space, keeps, ext, more, img₁⟩ :=
    h.uvmallocLoop (n := pages newsz - pages oldsz) img small
  rw [run]
  cases r with
  | none => grind
  | some v =>
    rw [getD_some] at more img₁
    obtain ⟨k₂, run', space', keeps'⟩ := space.uvmdealloc (show Image m₁ (pages (v * pgsize)) code
      frame from (pages_mul v).symm ▸ img₁) (pages oldsz * pgsize)
    rw [Nat.min_eq_right (Nat.mul_le_mul_right pgsize more), pages_mul, pages_mul,
      img.restore img₁ ext more] at space' keeps'
    refine ⟨0, k₂, tables₁, m, ?_, space',
      keeps.trans keeps' fun x mem _ => img.leaves_subset ext x mem, .inl ⟨rfl, rfl⟩⟩
    dsimp only
    rw [run']
    rfl

lemma Space.growproc {n : Int} (h : Space k root tables m) (img : Image m (pages sz) code frame)
    (int : n < 2 ^ 31) : ∃ r k' tables' m', Vm.growproc k root sz n = some (r, k') ∧
    Space k' root tables' m' ∧ Keeps k tables m k' tables' m' ∧ (r = none → m' = m) ∧ ∀ sz',
    r = some sz' → Image m' (pages sz') code frame := by
  rw [Vm.growproc]
  split_ifs with pos neg
  · obtain ⟨sz', k', tables', m', run, space, keeps, done⟩ :=
      h.uvmalloc ((sz + n) % 2 ^ 64).toNat img (show pteW < 1024 by decide)
    rw [run]
    rcases done with ⟨rfl, rfl⟩ | ⟨eq, img'⟩
    · exact ⟨none, k', tables', m', rfl, space, keeps, fun _ => rfl,
        fun _ eq => absurd eq.symm (some_ne_none _)⟩
    -- the sum of the size and an `int` does not wrap
    have fits : sz ≤ phystop * 4096 := by
      have small := img.small h
      unfold pages at small
      change (sz + 4096 - 1) / 4096 ≤ phystop at small
      omega
    have positive : sz' ≠ 0 := by
      rw [phystop] at fits
      omega
    refine ⟨some sz', k', tables', m', ?_, space, keeps,
      fun eq => absurd eq (some_ne_none _), fun _ eq => some.inj eq ▸ img'⟩
    rw [map_some, if_neg positive]
  · obtain ⟨k', run, space, keeps⟩ := h.uvmdealloc img ((sz + n) % 2 ^ 64).toNat
    rw [run]
    exact ⟨_, k', tables, _, rfl, space, keeps, fun eq => absurd eq (some_ne_none _),
      fun _ eq => some.inj eq ▸ img.shrink (pages_mono (Nat.min_le_left ..))⟩
  exact ⟨some sz, k, tables, m, rfl, h, .refl, fun _ => rfl, fun _ eq => some.inj eq ▸ img⟩

end

section
variable {k : Mem} {old root n v code frame : Nat} {tables source : Set Nat} {m parent : Map}

lemma leafFlags_of_odd {flags : Nat} (odd : flags % 2 = 1) : leafFlags flags = flags := by
  refine Nat.eq_of_testBit_eq fun i => ?_
  rw [leafFlags, Nat.testBit_or]
  cases i with
  | zero => simp [Nat.testBit_zero, odd]
  | succ i =>
    have zero : (2 ^ 0).testBit (i + 1) = false := by
      rw [Nat.testBit_two_pow]
      exact decide_eq_false (by omega)
    exact (congrArg (flags.testBit (i + 1) || ·) zero).trans (Bool.or_false _)

/-- One round of `uvmcopy`: the page of the parent is copied to a free page, which the child gets
with the same flags, or an allocation fails. -/
lemma Space.uvmcopyRound {page flags : Nat} (h : Space k root tables m) (img : Image m v code frame)
    (r : Refines k.words old source parent) (here : parent v = some (page, flags))
    (readable : flags / 2 % 2 = 1) (n : Nat) :
    (∃ k₁ tables₁, Vm.uvmcopyLoop old root (n + 1) v k = some (some v, k₁) ∧
      Space k₁ root tables₁ m ∧ Keeps k tables m k₁ tables₁ m) ∨
    ∃ k₁ tables₁ page', Vm.uvmcopyLoop old root (n + 1) v k = Vm.uvmcopyLoop old root n (v + 1) k₁ ∧
    Space k₁ root tables₁ (update m v (some (page', flags))) ∧
    Keeps k tables m k₁ tables₁ (update m v (some (page', flags))) ∧ page' ∈ k.free ∧
    k₁.words page' = k.words page := by
  have low := img.below h
  have below : v < 67108864 := by
    rw [trapframe_eq] at low
    omega
  obtain ⟨pt, found, -, value⟩ := find_entry r below here
  obtain ⟨ok, bits, address⟩ := entry_bits r here
  obtain ⟨odd, small⟩ := r.flags v page flags here
  have same := leafFlags_of_odd odd
  have step := h.mapNew low (img.empty low le_rfl) small (same.symm ▸ readable)
    (k.words page)
  rw [same] at step
  rcases step with ⟨k₁, tables₁, run, space, keeps⟩ |
    ⟨k₁, tables₁, page', run, space, keeps, free, contents⟩
  · refine .inl ⟨k₁, tables₁, ?_, space, keeps⟩
    simp only [Vm.uvmcopyLoop, found, value, ok, bits, address, if_true, run]
  refine .inr ⟨k₁, tables₁, page', ?_, space, keeps, free, contents⟩
  simp only [Vm.uvmcopyLoop, found, value, ok, bits, address, if_true, run]

lemma Space.uvmcopyLoop (h : Space k root tables m) (img : Image m v code frame)
    (r : Refines k.words old source parent) (apart : ∀ x ∈ source, ¬ Own k tables m x) (mapped :
    ∀ j < v + n, parent j ≠ none) (readable : ∀ j x f, parent j = some (x, f) → f / 2 % 2 = 1) :
    ∃ r, Vm.uvmcopyLoop old root n v k = some r ∧ Grown k root tables m v n code frame r := by
  induction n generalizing k tables m v with
  | zero => exact ⟨_, rfl, tables, m, h, .refl, fun _ _ => rfl, le_rfl, img⟩
  | succ n ih =>
    have low := img.below h
    obtain ⟨⟨page, flags⟩, here⟩ := ne_none_iff_exists'.mp (mapped v (by omega))
    rcases h.uvmcopyRound img r here (readable v page flags here) n with
      ⟨k₁, tables₁, run, space, keeps⟩ | ⟨k₁, tables₁, page', run, space, keeps, -⟩
    · exact ⟨(some v, k₁), run, .fail img space keeps⟩
    obtain ⟨res, rest, grown⟩ := ih space (img.grow low) (refines_congr r fun x mem => keeps.frame x
      (apart x mem)) (fun x mem own => apart x mem ((keeps.own x).mp own)) fun j less => mapped j
      (by omega)
    exact ⟨res, run.trans rest, grown.cons img low keeps⟩

lemma Space.uvmcopy (sz : Nat) (h : Space k root tables m) (img : Image m 0 code frame)
    (r : Refines k.words old source parent) (apart : ∀ x ∈ source, ¬ Own k tables m x)
    (mapped : ∀ j < pages sz, parent j ≠ none)
    (readable : ∀ j x f, parent j = some (x, f) → f / 2 % 2 = 1) :
    ∃ b k' tables' m', Vm.uvmcopy k old root sz = some (b, k') ∧ Space k' root tables' m' ∧
    Keeps k tables m k' tables' m' ∧ (b = true → Image m' (pages sz) code frame) ∧
    (b = false → m' = m) := by
  obtain ⟨⟨res, k₁⟩, run, tables₁, m₁, space, keeps, ext, more, img₁⟩ :=
    h.uvmcopyLoop (n := pages sz) img r apart (fun j less => mapped j (by omega)) readable
  rw [Vm.uvmcopy, run]
  cases res with
  | none => grind
  | some v =>
    rw [getD_some] at img₁
    obtain ⟨k₂, run', space', keeps'⟩ := space.shrink img₁ (Nat.zero_le v)
    rw [img.restore img₁ ext (Nat.zero_le v)] at space' keeps'
    refine ⟨false, k₂, tables₁, m, ?_, space', keeps.trans keeps' fun x mem _ => img.leaves_subset
      ext x mem, nofun, fun _ => rfl⟩
    rw [Nat.sub_zero] at run'
    dsimp only
    rw [run']
    rfl

end
end Xv6.Vm
