import Mathlib.Dynamics.PeriodicPts.Defs
import Xv6.Umalloc

/-! The searches of `malloc` and `free` end, and each call keeps the free list in order and the
blocks a tiling of the memory obtained. -/
namespace Xv6.Umalloc
open FreeList Interleaving List State
open Function (update update_of_ne update_self)
variable {ptr size ptr' size' : Nat → Nat} {base bp n p q f lo u nu : Nat} {A B L : List Block}
  {b c : Block} {s s' : State}

/-! ### The search of `free` -/

def Ends (ptr : Nat → Nat) (bp p : Nat) : Prop :=
  (p < bp ∧ bp < ptr p) ∨ (ptr p ≤ p ∧ (p < bp ∨ bp < ptr p))

lemma le_last (order : Ordered base A) : base ≤ last base A := by
  rcases mem_cons.mp (last_mem (a := base) (B := A)) with eq | mem
  · exact eq.ge
  obtain ⟨b, inA, eq⟩ := mem_map.mp mem
  rw [← eq]
  exact (order.above inA).1.le

lemma ends_iff (linked : Linked ptr size base (A ++ B) base) (order : Ordered base (A ++ B))
    (above : base < bp) (low : ∀ b ∈ A, b.start < bp) (high : ∀ b ∈ B, bp < b.start)
    (mem : p ∈ base :: starts (A ++ B)) : Ends ptr bp p ↔ p = last base A := by
  have lt := last_lt low above
  have orderA := (ordered_append order).1
  have inner {x : Nat} (next : ptr x ∈ starts A) (up : x < ptr x) : ¬ Ends ptr bp x := by
    obtain ⟨b, inA, eq⟩ := mem_map.mp next
    have := low b inA
    rintro (⟨_, _⟩ | ⟨_, _⟩) <;> omega
  cases B with
  | nil =>
    rw [append_nil] at linked mem
    have stop := linked.ptr_last
    have ends : Ends ptr bp (last base A) := .inr ⟨stop.trans_le (le_last orderA), .inl lt⟩
    refine ⟨fun here => ?_, fun eq => eq ▸ ends⟩
    rcases linked.next orderA mem with eq | ⟨next, up⟩
    · exact eq
    exact absurd here (inner next up)
  | cons y B =>
    obtain ⟨toY, -, rest⟩ := linked_append.mp linked
    have stop := toY.ptr_last
    have ends : Ends ptr bp (last base A) := .inl ⟨lt, stop.symm ▸ high y mem_cons_self⟩
    refine ⟨fun here => ?_, fun eq => eq ▸ ends⟩
    rw [starts, map_append, ← cons_append] at mem
    rcases mem_append.mp mem with mem | mem
    · rcases toY.next orderA mem with eq | ⟨next, up⟩
      · exact eq
      exact absurd here (inner next up)
    obtain ⟨b, inB, rfl⟩ := mem_map.mp mem
    have far := high b inB
    have orderB : Ordered y.start B := order.split.2.2.2.1.mono (Nat.le_add_right _ _)
    exfalso
    rcases rest.next orderB mem with eq | ⟨-, up⟩
    · have back := rest.ptr_last
      rw [← eq] at back
      rcases here with ⟨_, _⟩ | ⟨_, _⟩ <;> omega
    rcases here with ⟨_, _⟩ | ⟨_, _⟩ <;> omega

lemma freeSearch_spec {k : Nat} (lt : k < n) (ends : Ends ptr bp (ptr^[k] p)) :
    ∃ j, Ends ptr bp (ptr^[j] p) ∧ freeSearch ptr bp n p = some (ptr^[j] p) := by
  induction n generalizing k p with
  | zero => cases lt
  | succ n ih =>
    rw [freeSearch]
    by_cases here : Ends ptr bp p
    · exact ⟨0, here, if_pos here⟩
    cases k with
    | zero => exact absurd ends here
    | succ k =>
      obtain ⟨j, found, eq⟩ := ih (Nat.lt_of_succ_lt_succ lt) ends
      exact ⟨j + 1, found, (if_neg here).trans eq⟩

lemma iterate_mem (linked : Linked ptr size base L base) (mem : p ∈ base :: starts L) (k : Nat) :
    ptr^[k] p ∈ base :: starts L := by
  induction k with
  | zero => exact mem
  | succ k ih =>
    rw [Function.iterate_succ_apply']
    exact linked.ptr_mem ih

lemma insert_spec (linked : Linked ptr size base L base) (zero : size base = 0)
    (order : Ordered base L) (start : f ∈ base :: starts L) (sized : size bp = n)
    (pos : 0 < n) (above : base < bp) (apart : ∀ a ∈ L, Apart a ⟨bp, n⟩)
    (small : units L + n < 2 ^ 32) (rounds : Nat) (enough : 2 * units L + 2 ≤ rounds) :
    ∃ p L', freeSearch ptr bp rounds f = some p ∧ Inserted size (joinPrev
    (joinNext ptr size bp (ptr p)).1 (joinNext ptr size bp (ptr p)).2 p bp) base bp n p L L' := by
  have out : bp ∉ starts L := by
    intro mem
    obtain ⟨a, inL, eq⟩ := mem_map.mp mem
    have := (order.above inL).2
    have := apart a inL
    simp only [Apart, Block.stop] at this
    omega
  obtain ⟨A, B, rfl, low, high⟩ := order.place bp out
  have short := order.length_le
  have here : last base A ∈ base :: starts (A ++ B) := by
    rw [starts, map_append, ← cons_append]
    exact mem_append_left _ last_mem
  obtain ⟨k, le, eq⟩ := linked.around start here
  obtain ⟨j, ends, found⟩ := freeSearch_spec (n := rounds) (k := k) (by omega)
    (eq ▸ (ends_iff linked order above low high here).mpr rfl)
  rw [(ends_iff linked order above low high (iterate_mem linked start j)).mp ends] at found
  obtain ⟨orderA, orderB⟩ := ordered_append order
  have near : ∀ x ∈ A, x.stop ≤ bp := by
    intro x inA
    have := low x inA
    have := apart x (mem_append_left _ inA)
    simp only [Apart, Block.stop] at *
    omega
  have far : ∀ y ∈ B, bp + 16 * n ≤ y.start := by
    intro y inB
    have := high y inB
    have := apart y (mem_append_right _ inB)
    simp only [Apart, Block.stop] at *
    omega
  rw [units_append] at small
  have paths := linked_append_path.mp linked
  obtain ⟨c, C, next⟩ := joinNext_spec paths.2 orderB sized above far pos (by omega)
  obtain ⟨L', inserted⟩ := joinPrev_spec paths.1 zero orderA near above pos next high (by omega)
  exact ⟨_, L', found, inserted⟩

/-! ### The search of `malloc` -/

variable {prevp : Nat} {L' : List Block}

lemma mallocSearch_spec (size : Nat → Nat) (f nu : Nat) {k fuel : Nat} {N : List Nat}
    (lt : k < fuel) (stops : nu ≤ size (ptr^[k] p) ∨ ptr^[k] p = f) (closed : ∀ x ∈ N, ptr x ∈ N)
    (mem : prevp ∈ N) (next : ptr prevp = p) : ∃ prevp' p', prevp' ∈ N ∧ ptr prevp' = p' ∧
    ((nu ≤ size p' ∧ mallocSearch ptr size f nu fuel prevp p = some (prevp', p', true)) ∨
    ∃ m, ptr^[m] p = f ∧ (∀ j, j ≤ m → size (ptr^[j] p) < nu) ∧
    mallocSearch ptr size f nu fuel prevp p = some (prevp', p', false)) := by
  induction fuel generalizing k p prevp with
  | zero => cases lt
  | succ fuel ih =>
    rw [mallocSearch]
    by_cases large : nu ≤ size p
    · exact ⟨prevp, p, mem, next, .inl ⟨large, if_pos large⟩⟩
    rw [if_neg large]
    by_cases around : p = f
    · refine ⟨prevp, p, mem, next, .inr ⟨0, around, ?_, if_pos around⟩⟩
      intro j le
      obtain rfl := Nat.le_zero.mp le
      exact Nat.lt_of_not_le large
    rw [if_neg around]
    cases k with
    | zero =>
      rcases stops with large' | around'
      · exact absurd large' large
      exact absurd around' around
    | succ k =>
      have inN : p ∈ N := next ▸ closed prevp mem
      obtain ⟨prevp', p', mem', next', found | ⟨m, back, all, full⟩⟩ :=
        ih (Nat.lt_of_succ_lt_succ lt) stops inN rfl
      · exact ⟨prevp', p', mem', next', .inl found⟩
      refine ⟨prevp', p', mem', next', .inr ⟨m + 1, back, ?_, full⟩⟩
      intro j le
      cases j with
      | zero => exact Nat.lt_of_not_le large
      | succ j => exact all j (Nat.le_of_succ_le_succ le)

lemma all_small (linked : Linked ptr size base L base) (start : f ∈ base :: starts L)
    {m : Nat} (back : ptr^[m] (ptr f) = f) (all : ∀ j, j ≤ m → size (ptr^[j] (ptr f)) < nu)
    (mem : p ∈ base :: starts L) : size p < nu := by
  obtain ⟨k, -, eq⟩ := linked.around start mem
  have periodic : Function.IsPeriodicPt ptr (m + 1) f := back
  rw [← periodic.iterate_mod_apply] at eq
  have le : k % (m + 1) ≤ m := Nat.le_of_lt_succ (Nat.mod_lt _ (Nat.succ_pos _))
  rw [← eq]
  cases rest : k % (m + 1) with
  | zero =>
    have := all m le_rfl
    rwa [back] at this
  | succ r => exact all r (by omega)

/-! ### The free list of a state -/

structure Listed (base : Nat) (s : State) (L : List Block) : Prop where
  linked : Linked s.ptr s.size base L base
  zero : s.size base = 0
  ordered : Ordered base L
  freep : ∃ f, s.freep = some f ∧ f ∈ base :: starts L

structure InsertedBlock (base bp n : Nat) (s s' : State) (L L' : List Block) : Prop where
  listed : Listed base s' L'
  brk : s'.brk = s.brk
  live : s'.live = s.live
  arenas : s'.arenas = s.arenas
  covers : ∀ u, Covered L' u ↔ Covered L u ∨ Block.Has ⟨bp, n⟩ u
  units : units L' = units L + n
  large : ∃ d ∈ L', n ≤ d.units
  starts : ∀ d ∈ L', d.start ∈ starts L ∨ d.start = bp
  frame : ∀ x, x ≠ bp → x ∉ FreeList.starts L → x ≠ base → s'.size x = s.size x

lemma Listed.insert (h : Listed base s L) {bp n : Nat} (sized : s.size bp = n) (pos : 0 < n)
    (above : base < bp) (apart : ∀ a ∈ L, Apart a ⟨bp, n⟩) (small : units L + n < 2 ^ 32) (le :
    units L ≤ s.obtained) : ∃ s' L', s.insert bp = some s' ∧ InsertedBlock base bp n s s' L L' := by
  obtain ⟨f, freep, start⟩ := h.freep
  obtain ⟨p, L', found, inserted⟩ := insert_spec h.linked h.zero h.ordered start sized pos above apart
    small s.rounds (by rw [State.rounds]; omega)
  refine ⟨s.link bp p, L', ?_, ⟨inserted.linked, inserted.zero, inserted.ordered, p, rfl,
    inserted.freep⟩, rfl, rfl, rfl, inserted.covers, inserted.units, inserted.large, inserted.starts,
    inserted.frame⟩
  rw [State.insert, freep]
  show (freeSearch s.ptr bp s.rounds f).map (s.link bp) = _
  rw [found]
  rfl

lemma InsertedBlock.apart {bp n : Nat} {a d : Block} (made : InsertedBlock base bp n s s' L L')
    (posD : 0 < d.units) (old : ∀ a ∈ L, Apart a d) (new : Apart ⟨bp, n⟩ d) (inL' : a ∈ L') :
    Apart a d := by
  refine apart_of_disjoint (made.listed.ordered.above inL').2 posD fun u has has' => ?_
  rcases (made.covers u).mp ⟨a, inL', has⟩ with ⟨c, inL, was⟩ | here
  · exact (old c inL).not_both was has'
  exact new.not_both here has'

lemma InsertedBlock.aligned {bp n : Nat} {a : Block} (made : InsertedBlock base bp n s s' L L')
    (old : ∀ a ∈ L, 16 ∣ a.start) (new : 16 ∣ bp) (inL' : a ∈ L') : 16 ∣ a.start := by
  rcases made.starts a inL' with was | here
  · obtain ⟨c, inL, same⟩ := mem_map.mp was
    rw [← same]
    exact old c inL
  rwa [here]

/-- What `malloc` does to the state when it takes a block. -/
structure Taken (base nu : Nat) (s s' : State) (L L' : List Block) (b : Block) : Prop where
  listed : Listed base s' L'
  brk : s'.brk = s.brk
  live : s'.live = b :: s.live
  arenas : s'.arenas = s.arenas
  block : b.units = nu
  sized : s'.size b.start = nu
  covers : ∀ u, Covered L u ↔ Covered L' u ∨ b.Has u
  units : units L = units L' + nu
  apart : ∀ a ∈ L', Apart a b
  inside : ∃ c ∈ L, c.start ≤ b.start ∧ b.stop ≤ c.stop ∧ 16 ∣ b.start - c.start
  starts : ∀ d ∈ L', d.start ∈ starts L
  frame : ∀ x, x ≠ b.start → x ∉ FreeList.starts L → s'.size x = s.size x

lemma prev_eq (linked : Linked ptr size base (A ++ b :: B) base)
    (order : Ordered base (A ++ b :: B)) (mem : p ∈ base :: starts (A ++ b :: B))
    (next : ptr p = b.start) : p = last base A := by
  obtain ⟨orderA, gap, pos, orderB, all⟩ := order.split
  obtain ⟨toB, -, rest⟩ := linked_append.mp linked
  rw [starts, map_append, ← cons_append] at mem
  rcases mem_append.mp mem with mem | mem
  · rcases toB.next orderA mem with eq | ⟨inA, -⟩
    · exact eq
    obtain ⟨x, inA, eq⟩ := mem_map.mp inA
    have := all x inA
    simp only [Block.stop] at this
    omega
  exfalso
  rcases rest.next (orderB.mono (Nat.le_add_right _ _)) mem with eq | ⟨inB, up⟩
  · have back := rest.ptr_last
    rw [← eq, next] at back
    omega
  obtain ⟨y, inB, eq⟩ := mem_map.mp inB
  have := (orderB.above inB).1
  simp only [Block.stop] at this
  omega

lemma unlink_spec (linked : Linked ptr size base (A ++ b :: B) base)
    (order : Ordered base (A ++ b :: B)) :
    Linked (update ptr (last base A) (ptr b.start)) size base (A ++ B) base := by
  obtain ⟨orderA, gap, pos, orderB, all⟩ := order.split
  obtain ⟨toB, -, rest⟩ := linked_append.mp linked
  have before : last base A < b.start := last_lt (fun x inA => by
    have := all x inA
    simp only [Block.stop] at this
    omega) gap
  have relinked := toB.relink orderA.nodup (ptr b.start)
  refine linked_append_path.mpr ⟨by rw [relinked.ptr_last]; exact relinked, ?_⟩
  refine rest.congr (update_self _ _ _) fun x mem => ⟨update_of_ne ?_ _ _, rfl⟩
  obtain ⟨y, inB, rfl⟩ := mem_map.mp mem
  have := (orderB.above inB).1
  simp only [Block.stop] at this
  omega

lemma Listed.take (h : Listed base s L) (mem : prevp ∈ base :: starts L) (next : s.ptr prevp = p)
    (fits : nu ≤ s.size p) (pos : 0 < nu) : ∃ L' b, (s.take nu prevp p).2 = b.start + 16 ∧
    Taken base nu s (s.take nu prevp p).1 L L' b := by
  have here : p ∈ base :: starts L := next ▸ h.linked.ptr_mem mem
  have notBase : p ≠ base := by
    rintro rfl
    rw [h.zero] at fits
    omega
  obtain ⟨c, inL, eq⟩ := mem_map.mp ((mem_cons.mp here).resolve_left notBase)
  subst eq
  obtain ⟨A, B, rfl⟩ := append_of_mem inL
  have linked := h.linked
  have order := h.ordered
  obtain ⟨orderA, gap, posC, orderB, all⟩ := order.split
  obtain ⟨toC, sized, rest⟩ := linked_append.mp linked
  have prev := prev_eq linked order mem next
  rw [sized] at fits
  have below {x : Nat} (mem : x ∈ starts A) : x < c.start := by
    obtain ⟨y, inA, rfl⟩ := mem_map.mp mem
    have := all y inA
    simp only [Block.stop] at this
    omega
  have beyond {x : Nat} (mem : x ∈ starts B) : c.stop < x := by
    obtain ⟨y, inB, rfl⟩ := mem_map.mp mem
    exact (orderB.above inB).1
  have apart {a b : Block} (low : c.start ≤ b.start) (high : b.stop ≤ c.stop)
      (other : a ∈ A ∨ a ∈ B) : Apart a b := by
    rcases other with inA | inB
    · exact .inl ((all a inA).le.trans low)
    exact .inr (high.trans (orderB.above inB).1.le)
  have inList : last base A ∈ base :: starts A := last_mem
  by_cases exact_ : c.units = nu
  · have eq : s.take nu prevp c.start = ({ s with
        ptr := update s.ptr (last base A) (s.ptr c.start)
        freep := some (last base A)
        live := ⟨c.start, nu⟩ :: s.live }, c.start + 16) := by
      rw [State.take, sized, if_pos exact_, prev]
    rw [eq]
    have stop : Block.stop ⟨c.start, nu⟩ = c.stop := by rw [← exact_]
    refine ⟨A ++ B, ⟨c.start, nu⟩, rfl, ⟨unlink_spec linked order, h.zero, ?_, last base A, rfl, ?_⟩, rfl,
      rfl, rfl, rfl, sized.trans exact_, ?_, ?_, ?_, ?_, ?_, fun x _ _ => rfl⟩
    · cases B with
      | nil => rw [append_nil]; exact orderA
      | cons y B =>
        have lt := orderB.1
        simp only [Block.stop] at lt
        refine Ordered.join orderA (by omega) orderB.2.1 orderB.2.2 fun x inA => ?_
        have := all x inA
        omega
    · rw [starts, map_append, ← cons_append]
      exact mem_append_left _ inList
    · intro u
      have same : Block.Has ⟨c.start, nu⟩ u ↔ c.Has u := by rw [← exact_]
      rw [same, covered_append, covered_append, covered_cons, or_right_comm, or_assoc]
    · rw [units_append, units_append, units_cons]
      omega
    · intro a mem
      exact apart le_rfl stop.le (mem_append.mp mem)
    · exact ⟨c, inL, le_rfl, stop.le, by simp⟩
    intro d mem
    refine mem_map_of_mem ?_
    rcases mem_append.mp mem with inA | inB
    · exact mem_append_left _ inA
    exact mem_append_right _ (mem_cons_of_mem _ inB)
  have more : nu < c.units := Nat.lt_of_le_of_ne fits (Ne.symm exact_)
  have eq : s.take nu prevp c.start = ({ s with
      size := update (update s.size c.start (c.units - nu))
        (c.start + 16 * (c.units - nu)) nu
      freep := some (last base A)
      live := ⟨c.start + 16 * (c.units - nu), nu⟩ :: s.live }, c.start + 16 * (c.units - nu) + 16) := by
    rw [State.take, sized, if_neg exact_, prev]
  rw [eq]
  have low : c.start ≤ c.start + 16 * (c.units - nu) := Nat.le_add_right _ _
  have high : Block.stop ⟨c.start + 16 * (c.units - nu), nu⟩ ≤ c.stop := by
    simp only [Block.stop]
    omega
  have keep {x : Nat} (out : x < c.start ∨ c.stop < x) :
      update (update s.size c.start (c.units - nu))
        (c.start + 16 * (c.units - nu)) nu x = s.size x := by
    simp only [Block.stop] at out
    rw [update_of_ne (by omega), update_of_ne (by omega)]
  refine ⟨A ++ ⟨c.start, c.units - nu⟩ :: B, ⟨c.start + 16 * (c.units - nu), nu⟩, rfl,
    ⟨linked_append.mpr ⟨?_, ?_, ?_⟩, (keep (.inl gap)).trans h.zero, ?_, last base A, rfl, ?_⟩, rfl, rfl, rfl,
    rfl, update_self _ _ _, ?_, ?_, ?_, ?_, ?_, ?_⟩
  · exact toC.congr rfl fun x mem => ⟨rfl, keep (.inl (below mem))⟩
  · dsimp only
    rw [update_of_ne (by omega), update_self]
  · exact rest.congr rfl fun x mem => ⟨rfl, keep (.inr (beyond mem))⟩
  · refine Ordered.join orderA gap (by simp only; omega) (orderB.mono ?_) all
    simp only [Block.stop]
    omega
  · rw [starts, map_append, ← cons_append]
    exact mem_append_left _ inList
  · intro u
    have split : c.Has u ↔ Block.Has ⟨c.start, c.units - nu⟩ u ∨
        Block.Has ⟨c.start + 16 * (c.units - nu), nu⟩ u := by
      rw [← has_join, Nat.sub_add_cancel fits]
    rw [covered_append, covered_append, covered_cons, covered_cons, split, or_assoc, or_assoc,
      or_assoc]
    exact or_congr_right (or_congr_right or_comm)
  · rw [units_append, units_append, units_cons, units_cons]
    dsimp only
    omega
  · intro a mem
    rcases mem_append.mp mem with inA | mem
    · exact apart low high (.inl inA)
    rcases mem_cons.mp mem with rfl | inB
    · exact .inl le_rfl
    exact apart low high (.inr inB)
  · grind
  · intro d mem
    rcases mem_append.mp mem with inA | mem
    · exact mem_map_of_mem (mem_append_left _ inA)
    rcases mem_cons.mp mem with rfl | inB
    · exact mem_map.mpr ⟨c, inL, rfl⟩
    exact mem_map_of_mem (mem_append_right _ (mem_cons_of_mem _ inB))
  intro x ne out
  have other : x ≠ c.start := by
    rintro rfl
    exact out (mem_map_of_mem inL)
  dsimp only
  rw [update_of_ne ne, update_of_ne other]

/-! ### The heap -/

/-- The free blocks and the live ones, and the memory they tile. -/
structure Heap (base : Nat) (s : State) (L : List Block) : Prop where
  listed : Listed base s L
  sizes : ∀ b ∈ s.live, s.size b.start = b.units ∧ 0 < b.units ∧ base < b.start
  pairwise : s.live.Pairwise Apart
  apart : ∀ a ∈ L, ∀ b ∈ s.live, Apart a b
  tiles : ∀ u, Covered L u ∨ Covered s.live u ↔ Covered s.arenas u
  aligned : ∀ b, b ∈ L ∨ b ∈ s.live → 16 ∣ b.start
  units : units L + units s.live = s.obtained
  below : ∀ a ∈ s.arenas, a.stop ≤ s.brk
  brk : 16 ∣ s.brk ∧ base < s.brk

lemma Heap.stop_le (h : Heap base s L) (mem : b ∈ L ∨ b ∈ s.live) : b.stop ≤ s.brk := by
  have pos : 0 < b.units := by
    rcases mem with mem | mem
    · exact (h.listed.ordered.above mem).2
    exact (h.sizes b mem).2.1
  have has : b.Has (b.stop - 1) := by
    simp only [Block.Has, Block.stop]
    omega
  obtain ⟨a, inArenas, -, lt⟩ := (h.tiles (b.stop - 1)).mp
    (mem.imp (fun mem => ⟨b, mem, has⟩) fun mem => ⟨b, mem, has⟩)
  have := h.below a inArenas
  omega

lemma Heap.start_not_mem (h : Heap base s L) (mem : b ∈ s.live) : b.start ∉ starts L := by
  intro inL
  obtain ⟨a, inL, eq⟩ := mem_map.mp inL
  exact (h.apart a inL b mem).start_ne (h.listed.ordered.above inL).2 (h.sizes b mem).2.1 eq

lemma Heap.morecore (h : Heap base s L) (g : Nat) (room : s.obtained + max nu 4096 < 2 ^ 32) :
    ∃ s' L', s.morecore nu g = some s' ∧ Heap base s' L' ∧ s'.live = s.live ∧
    s'.obtained = s.obtained + max nu 4096 ∧ ∃ d ∈ L', nu ≤ d.units := by
  obtain ⟨aligned, above⟩ := h.brk
  have conserved := h.units
  have pos : 0 < max nu 4096 := by omega
  have fresh {x : Nat} (lt : x < s.brk) (v : Nat) : update s.size (s.brk + 16 * g) v x = s.size x :=
    update_of_ne (by omega) _ _
  have low {d : Block} (mem : d ∈ L) : d.start < s.brk := by
    have := h.stop_le (.inl mem)
    have := (h.listed.ordered.above mem).2
    simp only [Block.stop] at *
    omega
  let s₁ : State := { s with
    brk := s.brk + 16 * g + 16 * max nu 4096
    size := update s.size (s.brk + 16 * g) (max nu 4096 % 2 ^ 32)
    arenas := ⟨s.brk + 16 * g, max nu 4096⟩ :: s.arenas }
  have obtained : s₁.obtained = max nu 4096 + s.obtained := rfl
  have listed : Listed base s₁ L := by
    refine ⟨h.listed.linked.congr rfl fun x mem => ⟨rfl, ?_⟩, (fresh above _).trans h.listed.zero,
      h.listed.ordered, h.listed.freep⟩
    obtain ⟨d, inL, rfl⟩ := mem_map.mp mem
    exact fresh (low inL) _
  have sized : s₁.size (s.brk + 16 * g) = max nu 4096 :=
    (update_self _ _ _).trans (Nat.mod_eq_of_lt (by omega))
  obtain ⟨s', L', eq, made⟩ := listed.insert sized pos (by omega) (by
      intro a inL
      have := h.stop_le (.inl inL)
      exact .inl (by show a.stop ≤ s.brk + 16 * g; omega)) (by omega) (by omega)
  have live : s'.live = s.live := made.live
  obtain ⟨d, inL', large⟩ := made.large
  refine ⟨s', L', eq, ⟨made.listed, ?_, ?_, ?_, ?_, ?_, ?_, ?_, ?_⟩, live, ?_, d, inL', by omega⟩
  · rw [live]
    intro b mem
    obtain ⟨sized, posB, aboveB⟩ := h.sizes b mem
    have lt : b.start < s.brk := by
      have := h.stop_le (.inr mem)
      simp only [Block.stop] at this
      omega
    refine ⟨?_, posB, aboveB⟩
    rw [made.frame b.start (by omega) (h.start_not_mem mem) (by omega)]
    exact (fresh lt _).trans sized
  · rw [live]
    exact h.pairwise
  · rw [live]
    intro d inL' b mem
    exact made.apart (h.sizes b mem).2.1 (fun a inL => h.apart a inL b mem)
      (.inr ((h.stop_le (.inr mem)).trans (Nat.le_add_right _ _))) inL'
  · intro u
    rw [made.covers, live, made.arenas]
    show _ ↔ Covered (_ :: s.arenas) u
    rw [covered_cons, ← h.tiles u, or_assoc, or_left_comm]
  · intro b mem
    rw [live] at mem
    rcases mem with inL' | mem
    · exact made.aligned (fun a inL => h.aligned a (.inl inL))
        (Nat.dvd_add aligned (Nat.dvd_mul_right _ _)) inL'
    exact h.aligned b (.inr mem)
  · rw [made.units, live, State.obtained, made.arenas]
    show _ = s₁.obtained
    omega
  · rw [made.arenas, made.brk]
    intro a mem
    rcases mem_cons.mp mem with rfl | old
    · exact le_rfl
    have := h.below a old
    show a.stop ≤ s.brk + 16 * g + 16 * max nu 4096
    omega
  · rw [made.brk]
    exact ⟨Nat.dvd_add (Nat.dvd_add aligned (Nat.dvd_mul_right _ _)) (Nat.dvd_mul_right _ _),
      by show base < s.brk + 16 * g + 16 * max nu 4096; omega⟩
  rw [State.obtained, made.arenas]
  exact Nat.add_comm _ _

lemma Heap.free (h : Heap base s L) (mem : b ∈ s.live) (small : s.obtained < 2 ^ 32) :
    ∃ s' L', { s with live := s.live.erase b }.insert b.start = some s' ∧ Heap base s' L' ∧
      s'.obtained = s.obtained := by
  obtain ⟨sized, pos, above⟩ := h.sizes b mem
  have perm := perm_cons_erase mem
  have conserved := h.units
  have split : FreeList.units s.live = b.units + FreeList.units (s.live.erase b) :=
    (perm.map _).sum_eq
  obtain ⟨others, pairwise⟩ := pairwise_cons.mp
    ((perm.pairwise_iff fun {_ _} apart => Apart.symm apart).mp h.pairwise)
  have old {d : Block} (inErase : d ∈ s.live.erase b) : d ∈ s.live := mem_of_mem_erase inErase
  have listed : Listed base { s with live := s.live.erase b } L :=
    ⟨h.listed.linked, h.listed.zero, h.listed.ordered, h.listed.freep⟩
  obtain ⟨s', L', eq, made⟩ := listed.insert sized pos above (fun a inL => h.apart a inL b mem)
    (by omega) (by show FreeList.units L ≤ s.obtained; omega)
  have live : s'.live = s.live.erase b := made.live
  refine ⟨s', L', eq, ⟨made.listed, ?_, ?_, ?_, ?_, ?_, ?_, ?_, ?_⟩, congrArg FreeList.units made.arenas⟩
  · rw [live]
    intro d inErase
    obtain ⟨sizedD, posD, aboveD⟩ := h.sizes d (old inErase)
    refine ⟨?_, posD, aboveD⟩
    rw [made.frame d.start ((others d inErase).start_ne pos posD).symm (h.start_not_mem (old inErase))
      (by omega)]
    exact sizedD
  · rw [live]
    exact pairwise
  · rw [live]
    intro a inL' d inErase
    exact made.apart (h.sizes d (old inErase)).2.1 (fun c inL => h.apart c inL d (old inErase))
      (others d inErase) inL'
  · intro u
    have here : Covered s.live u ↔ b.Has u ∨ Covered (s.live.erase b) u := by
      rw [← covered_cons]
      exact exists_congr fun d => and_congr_left fun _ => perm.mem_iff
    rw [made.covers, live, made.arenas, or_assoc, ← here]
    exact h.tiles u
  · intro d inside
    rw [live] at inside
    rcases inside with inL' | inErase
    · exact made.aligned (fun a inL => h.aligned a (.inl inL)) (h.aligned b (.inr mem)) inL'
    exact h.aligned d (.inr (old inErase))
  · rw [made.units, live, obtained, made.arenas]
    show _ = s.obtained
    omega
  · rw [made.arenas, made.brk]
    exact h.below
  rw [made.brk]
  exact h.brk

lemma Heap.taken (h : Heap base s L) (made : Taken base nu s s' L L' b) (pos : 0 < nu) :
    Heap base s' L' ∧ ∀ d ∈ s.live, Apart b d := by
  obtain ⟨c, inL, low, high, offset⟩ := made.inside
  have conserved := h.units
  have apart : ∀ d ∈ s.live, Apart b d := by
    intro d mem
    have := h.apart c inL d mem
    simp only [Apart] at *
    omega
  have aboveC := (h.listed.ordered.above inL).1
  refine ⟨⟨made.listed, ?_, ?_, ?_, ?_, ?_, ?_, ?_, ?_⟩, apart⟩
  · rw [made.live]
    intro d mem
    rcases mem_cons.mp mem with rfl | mem
    · exact ⟨made.sized.trans made.block.symm, made.block.symm ▸ pos, by omega⟩
    obtain ⟨sized, posD, aboveD⟩ := h.sizes d mem
    have ne := (apart d mem).start_ne (made.block.symm ▸ pos) posD
    exact ⟨(made.frame d.start ne.symm (h.start_not_mem mem)).trans sized, posD, aboveD⟩
  · rw [made.live]
    exact pairwise_cons.mpr ⟨apart, h.pairwise⟩
  · rw [made.live]
    intro a inL' d mem
    rcases mem_cons.mp mem with rfl | mem
    · exact made.apart a inL'
    refine apart_of_disjoint (made.listed.ordered.above inL').2 (h.sizes d mem).2.1 ?_
    intro u has has'
    obtain ⟨e, inOld, was⟩ := (made.covers u).mpr (.inl ⟨a, inL', has⟩)
    exact (h.apart e inOld d mem).not_both was has'
  · intro u
    rw [made.live, made.arenas, covered_cons, ← or_assoc, ← made.covers u]
    exact h.tiles u
  · intro d mem
    rw [made.live] at mem
    rcases mem with inL' | mem
    · obtain ⟨a, inOld, same⟩ := mem_map.mp (made.starts d inL')
      rw [← same]
      exact h.aligned a (.inl inOld)
    rcases mem_cons.mp mem with rfl | mem
    · have := Nat.dvd_add (h.aligned c (.inl inL)) offset
      rwa [Nat.add_sub_cancel' low] at this
    exact h.aligned d (.inr mem)
  · rw [made.live, units_cons, made.block, obtained, made.arenas]
    have := made.units
    show _ = s.obtained
    omega
  · rw [made.arenas, made.brk]
    exact h.below
  rw [made.brk]
  exact h.brk

/-! ### The calls -/

def Allocated (base nu : Nat) (s s' : State) (r : Option Nat) : Prop :=
  ∃ L', Heap base s' L' ∧ ((r = none ∧ s'.live = s.live) ∨
    ∃ b, r = some (b.start + 16) ∧ b.units = nu ∧ s'.live = b :: s.live ∧ ∀ d ∈ s.live, Apart b d)

lemma Heap.search (h : Heap base s L) (freep : s.freep = some f) (pos : 0 < nu) :
    (∃ prevp p, mallocSearch s.ptr s.size f nu s.rounds f (s.ptr f) = some (prevp, p, true) ∧
    ∃ L' b, (s.take nu prevp p).2 = b.start + 16 ∧ Taken base nu s (s.take nu prevp p).1 L L' b) ∨
    ∃ prevp p, mallocSearch s.ptr s.size f nu s.rounds f (s.ptr f) = some (prevp, p, false) ∧
    ∀ d ∈ L, d.units < nu := by
  obtain ⟨f', freep', start⟩ := h.listed.freep
  obtain rfl : f' = f := Option.some.inj (freep'.symm.trans freep)
  have linked := h.listed.linked
  obtain ⟨k, le, back⟩ := linked.around (linked.ptr_mem start) start
  have short := h.listed.ordered.length_le
  have conserved := h.units
  obtain ⟨prevp, p, mem, next, ⟨large, found⟩ | ⟨m, around, all, full⟩⟩ := mallocSearch_spec s.size
    f' nu (by rw [rounds]; omega : k < s.rounds) (.inr back) (fun x mem => linked.ptr_mem mem)
    start rfl
  · exact .inl ⟨prevp, p, found, h.listed.take mem next large pos⟩
  refine .inr ⟨prevp, p, full, fun d inL => ?_⟩
  have := all_small linked start around all (mem_cons_of_mem _ (mem_map_of_mem inL))
  rwa [linked.size_eq inL] at this

/-- What `malloc` relies on and keeps: the break bounds the headers that can be stored, and a block
that is taken changes neither the break nor the memory obtained. -/
structure Keeps {σ : Type} (m : Source σ) (P : σ → Prop) : Prop where
  heap : ∀ x s, m.heap (m.setHeap x s) = s
  set : ∀ x s, P x → s.brk = (m.heap x).brk → s.obtained = (m.heap x).obtained → P (m.setHeap x s)
  holds : ∀ x a, P x → a < (m.heap x).brk → m.holds x a = true

variable {σ : Type} {m : Source σ} {P : σ → Prop} {x : σ}

/-- The two ways on from a position of the loop: with a block that is large enough, or with
`morecore`. -/
lemma Heap.round (keeps : Keeps m P) (h : Heap base (m.heap x) L) (start : P x)
    (freep : (m.heap x).freep = some f) (pos : 0 < nu) (n : Nat) :
    (∃ x' r, mallocLoop m nu (n + 1) x f = some (x', r) ∧
      Allocated base nu (m.heap x) (m.heap x') r ∧ P x') ∨
    (∀ d ∈ L, d.units < nu) ∧ mallocLoop m nu (n + 1) x f = (m.morecore x).bind fun y =>
      if y.1 then (m.heap y.2).freep.bind (mallocLoop m nu n y.2) else some (y.2, none) := by
  rw [mallocLoop, freep, Option.getD_some]
  rcases h.search freep pos with ⟨prevp, p, found, L', b, address, made⟩ | ⟨prevp, p, full, few⟩
  · obtain ⟨heap, apart⟩ := h.taken made pos
    have inside := heap.stop_le (.inr (made.live ▸ mem_cons_self : b ∈ _))
    rw [Block.stop, made.block, made.brk] at inside
    have held := keeps.holds x b.start start (by omega)
    rw [found, Option.bind_some, if_pos rfl]
    dsimp only
    rw [address, Nat.add_sub_cancel, if_pos held]
    refine .inl ⟨_, _, rfl, ?_, keeps.set x _ start made.brk (by rw [obtained, made.arenas]; rfl)⟩
    rw [keeps.heap]
    exact ⟨L', heap, .inr ⟨b, rfl, made.block, made.live, apart⟩⟩
  · rw [full, Option.bind_some]
    exact .inr ⟨few, if_neg Bool.false_ne_true⟩

/-- `malloc` returns if `morecore` either gets nothing or a block that is large enough. -/
lemma Heap.mallocLoop (keeps : Keeps m P) (h : Heap base (m.heap x) L) (start : P x)
    (freep : (m.heap x).freep = some f) (pos : 0 < nu) (n : Nat)
    (more : (∃ y, m.morecore x = some (false, y) ∧ m.heap y = m.heap x ∧ P y) ∨
      ∃ y L', m.morecore x = some (true, y) ∧ Heap base (m.heap y) L' ∧
        (m.heap y).live = (m.heap x).live ∧ (∃ d ∈ L', nu ≤ d.units) ∧ P y) :
    ∃ x' r, mallocLoop m nu (n + 2) x f = some (x', r) ∧
      Allocated base nu (m.heap x) (m.heap x') r ∧ P x' := by
  rcases h.round keeps start freep pos (n + 1) with found | ⟨-, run⟩
  · exact found
  rw [run]
  rcases more with ⟨y, failed, same, kept⟩ | ⟨y, L', got, heap, live, ⟨d, inL, le⟩, kept⟩
  · rw [failed]
    exact ⟨y, none, rfl, ⟨L, same ▸ h, .inl ⟨rfl, by rw [same]⟩⟩, kept⟩
  · obtain ⟨f', freep', -⟩ := heap.listed.freep
    rw [got, Option.bind_some, if_pos rfl, freep']
    rcases heap.round keeps kept freep' pos n with ⟨x', r, run', post, kept'⟩ | ⟨few, -⟩
    · exact ⟨x', r, run', ⟨post.choose, post.choose_spec.1, live ▸ post.choose_spec.2⟩, kept'⟩
    · have := few d inL
      omega

lemma source_keeps (nu : Nat) (gap : Option Nat) :
    Keeps (State.source nu gap) fun s => s.obtained < 2 ^ 32 :=
  ⟨fun _ _ => rfl, fun _ _ small _ same => same.trans_lt small, fun _ _ _ _ => rfl⟩

structure Fresh (base : Nat) (s : State) : Prop where
  freep : s.freep = none
  live : s.live = []
  arenas : s.arenas = []
  brk : 16 ∣ s.brk ∧ base < s.brk

lemma Fresh.start (h : Fresh base s) : Heap base (s.start base) [] := by
  have eq : s.start base = { s with
      ptr := update s.ptr base base
      size := update s.size base 0
      freep := some base } := by rw [State.start, h.freep]
  rw [eq]
  refine ⟨⟨update_self _ _ _, update_self _ _ _, trivial, base, rfl,
    mem_cons_self⟩, ?_, ?_, ?_, ?_, ?_, ?_, ?_, h.brk⟩
  · rw [h.live]
    intro b mem
    cases mem
  · rw [h.live]
    exact .nil
  · intro a mem
    cases mem
  · intro u
    rw [h.live, h.arenas, or_self]
  · rw [h.live]
    intro b mem
    rcases mem with mem | mem <;> cases mem
  · rw [obtained, h.live, h.arenas]
    rfl
  rw [h.arenas]
  intro a mem
  cases mem

def Inv (base : Nat) (s : State) : Prop :=
  s.obtained < 2 ^ 32 ∧ (Fresh base s ∨ ∃ L, Heap base s L)

/-- The request is below 2 ^ 31 bytes, as `sbrk` takes an `int`, and the memory obtained stays below
2 ^ 32 units. -/
def Fits (s : State) : Label → Prop
  | .malloc nbytes _ =>
    16 * nunits nbytes < 2 ^ 31 ∧ s.obtained + max (nunits nbytes) 4096 < 2 ^ 32
  | .free _ => True

instance (s : State) : ∀ l, Decidable (Fits s l)
  | .malloc _ _ => inferInstanceAs (Decidable (_ ∧ _))
  | .free _ => inferInstanceAs (Decidable True)

lemma start_of_freep (freep : s.freep = some f) : s.start base = s := by rw [start, freep]

lemma Inv.start (h : Inv base s) : ∃ L, Heap base (s.start base) L ∧ (s.start base).live =
    s.live ∧ (s.start base).obtained = s.obtained ∧ (s.start base).brk = s.brk := by
  rcases h.2 with fresh | ⟨L, heap⟩
  · refine ⟨[], fresh.start, ?_, ?_, ?_⟩ <;> rw [State.start, fresh.freep]
    rfl
  obtain ⟨f, freep, -⟩ := heap.listed.freep
  rw [start_of_freep freep]
  exact ⟨L, heap, rfl, rfl, rfl⟩

lemma Inv.malloc {nbytes : Nat} {gap : Option Nat} (h : Inv base s)
    (fits : Fits s (.malloc nbytes gap)) : ∃ s' r, malloc base s nbytes gap = some (s', r) ∧
    Allocated base (nunits nbytes) s s' r ∧ s'.obtained < 2 ^ 32 := by
  obtain ⟨L, heap, live, obtained, -⟩ := h.start
  obtain ⟨f, freep, -⟩ := heap.listed.freep
  obtain ⟨s', r, eq, post, small⟩ := heap.mallocLoop (source_keeps (nunits nbytes) gap)
    (obtained.trans_lt h.1) freep (Nat.succ_pos _) (s.start base).obtained (by
      cases gap with
      | none => exact .inl ⟨_, rfl, rfl, obtained.trans_lt h.1⟩
      | some g =>
        obtain ⟨s₁, L₁, more, heap₁, live₁, grown, large⟩ := heap.morecore g (obtained.symm ▸ fits.2)
        have room := fits.2
        exact .inr ⟨s₁, L₁, congrArg (Option.map fun s => (true, s)) more, heap₁, live₁, large,
          by omega⟩)
  refine ⟨s', r, ?_, ?_, small⟩
  · rw [Umalloc.malloc]
    show (s.start base).freep.bind _ = _
    rw [freep]
    exact eq
  obtain ⟨L', heap', post⟩ := post
  exact ⟨L', heap', live ▸ post⟩

lemma Inv.free (h : Inv base s) (mem : b ∈ s.live) :
    ∃ s', { s with live := s.live.erase b }.insert b.start = some s' ∧ Inv base s' := by
  rcases h.2 with fresh | ⟨L, heap⟩
  · rw [fresh.live] at mem
    cases mem
  obtain ⟨s', L', eq, heap', same⟩ := heap.free mem h.1
  exact ⟨s', eq, same.trans_lt h.1, .inr ⟨L', heap'⟩⟩

lemma Inv.step {l : Label} (h : Inv base s) (fits : Fits s l) (next : step base s l = some s') :
    Inv base s' := by
  cases l with
  | malloc nbytes gap =>
    obtain ⟨s₁, r, eq, ⟨L', heap, -⟩, small⟩ := h.malloc fits
    rw [Umalloc.step, eq] at next
    cases next
    exact ⟨small, .inr ⟨L', heap⟩⟩
  | free b =>
    obtain ⟨mem, next⟩ := Option.ite_none_right_eq_some.mp next
    obtain ⟨s₁, eq, inv⟩ := h.free mem
    cases eq.symm.trans next
    exact inv

/-- In every run in which the memory obtained stays below 2 ^ 32 units: the free list is circular
and in increasing order with gaps between its blocks, the free and the live blocks are disjoint and
tile the memory obtained, every `malloc` returns 0 or an aligned block that is large enough and
disjoint from the live ones, and every `free` of a live block returns. -/
theorem heap_stays_tiled {brk : Nat} {as : List Label} (above : base < brk) (aligned : 16 ∣ brk)
    (run : Run (step base) Fits (init brk) as s) :
    ((s.freep = none ∧ s.live = [] ∧ s.arenas = []) ∨ ∃ L, Heap base s L) ∧
    (∀ nbytes gap, Fits s (.malloc nbytes gap) →
      ∃ s' r, malloc base s nbytes gap = some (s', r) ∧
        ((r = none ∧ s'.live = s.live) ∨
          ∃ b, r = some (b.start + 16) ∧ 16 ∣ b.start + 16 ∧ nbytes ≤ 16 * (b.units - 1) ∧
            s'.live = b :: s.live ∧ ∀ d ∈ s.live, Apart b d)) ∧
    ∀ b ∈ s.live, ∃ s', step base s (.free b) = some s' := by
  have h : Inv base s := run.invariant (I := Inv base) (fun _ _ _ h fits next => h.step fits next)
    ⟨Nat.zero_lt_succ _, .inl ⟨rfl, rfl, rfl, aligned, above⟩⟩
  refine ⟨?_, ?_, ?_⟩
  · rcases h.2 with fresh | heap
    · exact .inl ⟨fresh.freep, fresh.live, fresh.arenas⟩
    · exact .inr heap
  · intro nbytes gap fits
    obtain ⟨s', r, eq, ⟨L', heap, post⟩, -⟩ := h.malloc fits
    refine ⟨s', r, eq, post.imp_right ?_⟩
    rintro ⟨b, address, units, live, apart⟩
    have start : 16 ∣ b.start := heap.aligned b (.inr (live ▸ List.mem_cons_self))
    refine ⟨b, address, Nat.dvd_add start (dvd_refl 16), ?_, live, apart⟩
    rw [units, nunits]
    omega
  intro b mem
  obtain ⟨s', eq, -⟩ := h.free mem
  exact ⟨s', (if_pos mem).trans eq⟩

/-- Three blocks of a page are split off one arena and freed, the one in the middle last. -/
def threeBlocks : List Label :=
  [.malloc 4080 (some 0), .malloc 4080 (some 0), .malloc 4080 (some 0), .free ⟨65536 + 4096 - 4096, 256⟩,
    .free ⟨65536 + 4096 - 3 * 4096, 256⟩, .free ⟨65536 + 4096 - 2 * 4096, 256⟩]

theorem three_blocks_are_joined :
    ∃ s, Run (step 64) Fits (init 4096) threeBlocks s ∧ s.live = [] ∧ s.size 4096 = 4096 ∧
      s.ptr 4096 = 64 ∧ s.ptr 64 = 4096 ∧
      ((s.freep = none ∧ s.live = [] ∧ s.arenas = []) ∨ ∃ L, Heap 64 s L) := by
  refine Run.exists_with (P := fun s => s.live = [] ∧ s.size 4096 = 4096 ∧ s.ptr 4096 = 64 ∧
      s.ptr 64 = 4096)
    (by decide +kernel) fun s run ⟨live, size, last, first⟩ => ?_
  exact ⟨live, size, last, first, (heap_stays_tiled (by decide) (by decide) run).1⟩

def Requested (_ : State) : Label → Prop
  | .malloc nbytes _ => 16 * nunits nbytes < 2 ^ 31
  | .free _ => True

instance (s : State) : ∀ l, Decidable (Requested s l)
  | .malloc _ _ => inferInstanceAs (Decidable (_ < _))
  | .free _ => inferInstanceAs (Decidable True)

def manyBlocks (k : Nat) : List Label :=
  List.replicate k (.malloc (2 ^ 31 - 32) (some 0)) ++
    (List.range k).map fun i => .free ⟨4096 + 16 * (2 ^ 27 - 1) * i, 2 ^ 27 - 1⟩

/-- When 33 of them have been joined, the 32-bit size of the free block is too small by 64 GB, and
the rest of the memory is in no block. -/
theorem joined_size_overflows :
    ∃ s, Run (step 64) Requested (init 4096) (manyBlocks 33) s ∧ s.live = [] ∧
      Linked s.ptr s.size 64 [⟨4096, 2 ^ 27 - 33⟩] 64 ∧ Covered s.arenas (s.brk - 1) ∧
      ¬ Covered [⟨4096, 2 ^ 27 - 33⟩] (s.brk - 1) := by
  refine Run.exists_with (P := fun s => s.live = [] ∧ s.ptr 64 = 4096 ∧ s.size 4096 = 2 ^ 27 - 33 ∧
      s.ptr 4096 = 64 ∧ Covered s.arenas (s.brk - 1) ∧
      ¬ Covered [⟨4096, 2 ^ 27 - 33⟩] (s.brk - 1))
    (by decide +kernel) fun s run ⟨live, first, size, last, got, lost⟩ => ?_
  exact ⟨live, ⟨first, size, last⟩, got, lost⟩

end Xv6.Umalloc
