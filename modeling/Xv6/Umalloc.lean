import Xv6.FreeList
import Xv6.Interleaving

/-! The memory allocator of user programs (umalloc.c). Addresses are numbers of bytes, a header has
16 bytes, and sizes are 32-bit numbers of headers. The loops have a bound on their rounds. -/
namespace Xv6.Umalloc
open FreeList Interleaving List Block
open Function (update update_of_ne update_self)

/-- The headers in memory, `freep` (`none` for 0) and the break; then the blocks that are handed
out, by the address of their header, and the memory that `morecore` got from `sbrk`. -/
structure State where
  ptr : Nat → Nat
  size : Nat → Nat
  freep : Option Nat
  brk : Nat
  live : List Block
  arenas : List Block

def State.obtained (s : State) : Nat := units s.arenas

/-- There are no more headers in a circular list than units in all memory that was obtained. -/
def State.rounds (s : State) : Nat := 2 * s.obtained + 2

def init (brk : Nat) : State := ⟨fun _ => 0, fun _ => 0, none, brk, [], []⟩

def freeSearch (ptr : Nat → Nat) (bp : Nat) : Nat → Nat → Option Nat
  | 0, _ => none
  | n + 1, p =>
    if (p < bp ∧ bp < ptr p) ∨ (ptr p ≤ p ∧ (p < bp ∨ bp < ptr p)) then some p
    else freeSearch ptr bp n (ptr p)

/-- `bp` is joined with the block `q` after it, or points to it. -/
def joinNext (ptr size : Nat → Nat) (bp q : Nat) : (Nat → Nat) × (Nat → Nat) :=
  if bp + 16 * size bp = q then
    (update ptr bp (ptr q), update size bp ((size bp + size q) % 2 ^ 32))
  else (update ptr bp q, size)

/-- The block `p` before `bp` is joined with it, or points to it. -/
def joinPrev (ptr size : Nat → Nat) (p bp : Nat) : (Nat → Nat) × (Nat → Nat) :=
  if p + 16 * size p = bp then
    (update ptr p (ptr bp), update size p ((size p + size bp) % 2 ^ 32))
  else (update ptr p bp, size)

namespace State
def link (s : State) (bp p : Nat) : State :=
  let h := joinNext s.ptr s.size bp (s.ptr p)
  let h := joinPrev h.1 h.2 p bp
  { s with ptr := h.1, size := h.2, freep := some p }

def insert (s : State) (bp : Nat) : Option State :=
  s.freep.bind fun f => (freeSearch s.ptr bp s.rounds f).map (s.link bp)

/-- `morecore`, when the break has moved by `gap` headers since it was last moved here. -/
def morecore (s : State) (nu gap : Nat) : Option State :=
  let nu := max nu 4096
  let p := s.brk + 16 * gap
  { s with
    brk := p + 16 * nu
    size := update s.size p (nu % 2 ^ 32)
    arenas := ⟨p, nu⟩ :: s.arenas }.insert p

def start (base : Nat) (s : State) : State :=
  match s.freep with
  | some _ => s
  | none =>
    { s with
      ptr := update s.ptr base base
      size := update s.size base 0
      freep := some base }

/-- The block that `malloc` returns is taken from `p`, after `prevp`. -/
def take (s : State) (nunits prevp p : Nat) : State × Nat :=
  if s.size p = nunits then
    ({ s with
      ptr := update s.ptr prevp (s.ptr p)
      freep := some prevp
      live := ⟨p, nunits⟩ :: s.live }, p + 16)
  else
    let left := s.size p - nunits
    let q := p + 16 * left
    ({ s with
      size := update (update s.size p left) q nunits
      freep := some prevp
      live := ⟨q, nunits⟩ :: s.live }, q + 16)

end State

/-- The rounds of the loop of `malloc` up to the first block that is large enough, or up to
`freep`. -/
def mallocSearch (ptr size : Nat → Nat) (freep nunits : Nat) :
    Nat → Nat → Nat → Option (Nat × Nat × Bool)
  | 0, _, _ => none
  | n + 1, prevp, p =>
    if nunits ≤ size p then some (prevp, p, true)
    else if p = freep then some (prevp, p, false)
    else mallocSearch ptr size freep nunits n p (ptr p)

/-- What `malloc` needs of the program it is part of: its heap, the pages that a header can be
stored on, and `morecore`, with whether it has got memory. -/
structure Source (σ : Type) where
  heap : σ → State
  setHeap : σ → State → σ
  holds : σ → Nat → Bool
  morecore : σ → Option (Bool × σ)

/-- The loop of `malloc` from behind `prevp` on. -/
def mallocLoop {σ : Type} (m : Source σ) (nunits : Nat) : Nat → σ → Nat → Option (σ × Option Nat)
  | 0, _, _ => none
  | n + 1, x, prevp =>
    let s := m.heap x
    (mallocSearch s.ptr s.size (s.freep.getD 0) nunits s.rounds prevp (s.ptr prevp)).bind fun r =>
      if r.2.2 then
        let t := s.take nunits r.1 r.2.1
        if m.holds x (t.2 - 16) then some (m.setHeap x t.1, some t.2) else none
      else
        (m.morecore x).bind fun y =>
          if y.1 then (m.heap y.2).freep.bind (mallocLoop m nunits n y.2) else some (y.2, none)

/-- `sbrk` fails when `gap` is `none`, and all memory it has given stays there. -/
def State.source (nunits : Nat) (gap : Option Nat) : Source State where
  heap s := s
  setHeap _ s := s
  holds _ _ := true
  morecore s :=
    match gap with
    | none => some (false, s)
    | some g => (s.morecore nunits g).map fun s => (true, s)

def nunits (nbytes : Nat) : Nat := (nbytes + 16 - 1) / 16 + 1

/-- `malloc`: the new state and the address returned, `none` for 0. -/
def malloc (base : Nat) (s : State) (nbytes : Nat) (gap : Option Nat) :
    Option (State × Option Nat) :=
  let s := s.start base
  s.freep.bind (mallocLoop (State.source (nunits nbytes) gap) (nunits nbytes) (s.obtained + 2) s)

inductive Label where
  | malloc (nbytes : Nat) (gap : Option Nat)
  | free (b : Block)
  deriving DecidableEq

def step (base : Nat) (s : State) : Label → Option State
  | .malloc nbytes gap => (malloc base s nbytes gap).map Prod.fst
  | .free b => if b ∈ s.live then { s with live := s.live.erase b }.insert b.start else none

/-! ### One insertion -/

variable {ptr size ptr' size' : Nat → Nat} {base bp n p q lo u : Nat} {A B L : List Block}
  {c : Block} {s s' : State}

/-- What `free` has made of the block and those after it, before the block is linked. -/
structure Next (ptr size : Nat → Nat) (h : (Nat → Nat) × (Nat → Nat)) (base bp n : Nat)
    (B : List Block) (c : Block) (C : List Block) : Prop where
  start : c.start = bp
  large : n ≤ c.units
  sized : h.2 bp = c.units
  linked : Linked h.1 h.2 bp C base
  ordered : Ordered c.stop C
  covers : ∀ u, c.Has u ∨ Covered C u ↔ Block.Has ⟨bp, n⟩ u ∨ Covered B u
  units : c.units + units C = n + units B
  sub : ∀ y ∈ C, y ∈ B
  frame : ∀ x, x ≠ bp → h.1 x = ptr x ∧ h.2 x = size x

lemma joinNext_spec (linked : Linked ptr size p B base)
    (order : Ordered lo B) (sized : size bp = n) (above : base < bp)
    (far : ∀ y ∈ B, bp + 16 * n ≤ y.start) (pos : 0 < n) (small : n + units B < 2 ^ 32) :
    ∃ c C, Next ptr size (joinNext ptr size bp (ptr p)) base bp n B c C := by
  have frame {f : Nat → Nat} {v x : Nat} (ne : x ≠ bp) : update f bp v x = f x :=
    update_of_ne ne _ _
  cases B with
  | nil =>
    have eq : joinNext ptr size bp (ptr p) = (update ptr bp base, size) := by
      rw [joinNext, show ptr p = base from linked, if_neg (by omega)]
    rw [eq]
    exact ⟨⟨bp, n⟩, [], rfl, le_rfl, sized, update_self _ _ _, trivial, fun u => Iff.rfl,
      rfl, fun y mem => mem, fun x ne => ⟨frame ne, rfl⟩⟩
  | cons y B =>
    obtain ⟨first, sized', rest⟩ := linked
    have fary := far y mem_cons_self
    have out {x : Nat} (mem : x ∈ starts B) : x ≠ bp := by
      obtain ⟨z, inB, rfl⟩ := mem_map.mp mem
      have := far z (mem_cons_of_mem _ inB)
      omega
    by_cases meet : bp + 16 * n = y.start
    · have eq : joinNext ptr size bp (ptr p) =
          (update ptr bp (ptr y.start), update size bp (n + y.units)) := by
        rw [units_cons] at small
        rw [joinNext, first, sized, if_pos meet, sized', Nat.mod_eq_of_lt (by omega)]
      rw [eq]
      refine ⟨⟨bp, n + y.units⟩, B, rfl, Nat.le_add_right _ _, update_self _ _ _, ?_, ?_,
        fun u => ?_, ?_, fun z mem => mem_cons_of_mem _ mem, fun x ne => ⟨frame ne, frame ne⟩⟩
      · exact rest.congr (update_self _ _ _) fun x mem => ⟨frame (out mem), frame (out mem)⟩
      · have stop : stop ⟨bp, n + y.units⟩ = y.stop := by
          simp only [stop]
          omega
        rw [stop]
        exact order.2.2
      · rw [covered_cons, has_join, meet, or_assoc]
      rw [units_cons]
      exact Nat.add_assoc _ _ _
    have eq : joinNext ptr size bp (ptr p) = (update ptr bp y.start, size) := by
      rw [joinNext, first, sized, if_neg meet]
    have ney : y.start ≠ bp := by omega
    rw [eq]
    refine ⟨⟨bp, n⟩, y :: B, rfl, le_rfl, sized, ?_, ?_, fun u => Iff.rfl, rfl,
      fun z mem => mem, fun x ne => ⟨frame ne, rfl⟩⟩
    · exact ⟨update_self _ _ _, sized', rest.congr (frame ney) fun x mem => ⟨frame (out mem), rfl⟩⟩
    exact ⟨by simp only [stop]; omega, order.2⟩

lemma or_regroup {P X C D H B : Prop} (two : C ∨ D ↔ H ∨ B) :
    P ∨ X ∨ C ∨ D ↔ ((P ∨ X) ∨ B) ∨ H := by rw [two, or_comm (a := H), or_assoc, or_assoc]

/-- The list after an insertion of a block of `n` units at `bp`. -/
structure Inserted (size : Nat → Nat) (h : (Nat → Nat) × (Nat → Nat)) (base bp n p : Nat)
    (L L' : List Block) : Prop where
  linked : Linked h.1 h.2 base L' base
  zero : h.2 base = 0
  ordered : Ordered base L'
  freep : p ∈ base :: starts L'
  covers : ∀ u, Covered L' u ↔ Covered L u ∨ Block.Has ⟨bp, n⟩ u
  units : units L' = units L + n
  large : ∃ d ∈ L', n ≤ d.units
  starts : ∀ d ∈ L', d.start ∈ starts L ∨ d.start = bp
  frame : ∀ x, x ≠ bp → x ∉ FreeList.starts L → x ≠ base → h.2 x = size x

section
variable {h : (Nat → Nat) × (Nat → Nat)} {C : List Block} {x : Block}

section
variable (next : Next ptr size h base bp n B c C)
include next

lemma Next.beyond (far : ∀ y ∈ B, bp < y.start) (mem : u ∈ starts C) : bp < u := by
  obtain ⟨y, inC, rfl⟩ := mem_map.mp mem
  exact far y (next.sub y inC)

lemma Next.path (linked : Linked ptr size base A q) (above : base < bp)
    (low : ∀ y ∈ A, y.start < bp) : Linked h.1 h.2 base A q := by
  refine linked.congr (next.frame base (Nat.ne_of_lt above)).1 fun x mem => ?_
  obtain ⟨y, inA, rfl⟩ := mem_map.mp mem
  exact next.frame y.start (Nat.ne_of_lt (low y inA))

lemma Next.link (linked : Linked ptr size base A q) (zero : size base = 0) (order : Ordered base A)
    (gap : ∀ x ∈ A, x.stop < bp) (above : base < bp) (pos : 0 < n) (far : ∀ y ∈ B, bp < y.start) :
    Inserted size (update h.1 (last base A) bp, h.2) base bp n (last base A) (A ++ B)
    (A ++ c :: C) := by
  have low : ∀ y ∈ A, y.start < bp := by
    intro y inA
    have := gap y inA
    simp only [stop] at this
    omega
  have lt := last_lt low above
  have keep {y : Nat} (le : bp ≤ y) : update h.1 (last base A) bp y = h.1 y :=
    update_of_ne (by omega) _ _
  have total := next.units
  refine ⟨linked_append.mpr ⟨?_, ?_, ?_⟩, ?_, ?_, ?_, fun u => ?_, ?_, ?_, fun d mem => ?_, ?_⟩
  · rw [next.start]
    exact (next.path linked above low).relink order.nodup bp
  · rw [next.start]
    exact next.sized
  · rw [next.start]
    exact next.linked.congr (keep le_rfl) fun y mem => ⟨keep (next.beyond far mem).le, rfl⟩
  · exact ((next.frame base (Nat.ne_of_lt above)).2).trans zero
  · exact Ordered.join order (next.start ▸ above) (pos.trans_le next.large) next.ordered
      (next.start ▸ gap)
  · rw [starts, map_append, ← cons_append]
    exact mem_append_left _ last_mem
  · rw [covered_append, covered_cons, next.covers, covered_append, or_assoc]
    exact or_congr_right or_comm
  · rw [units_append, units_cons, units_append]
    omega
  · exact ⟨c, mem_append_right _ mem_cons_self, next.large⟩
  · rcases mem_append.mp mem with inA | mem
    · exact .inl (mem_map_of_mem (mem_append_left _ inA))
    rcases mem_cons.mp mem with rfl | inC
    · exact .inr next.start
    exact .inl (mem_map_of_mem (mem_append_right _ (next.sub d inC)))
  intro y ne _ _
  exact (next.frame y ne).2

lemma Next.join (linked : Linked ptr size base (A ++ [x]) q) (zero : size base = 0)
    (order : Ordered base (A ++ [x])) (meet : x.stop = bp) (above : base < bp) (far : ∀ y ∈ B, bp <
    y.start) : Inserted size (update h.1 x.start (h.1 bp), update h.2 x.start (x.units + c.units))
    base bp n x.start (A ++ [x] ++ B) (A ++ ⟨x.start, x.units + c.units⟩ :: C) := by
  obtain ⟨toX, -, -⟩ := linked_append.mp linked
  obtain ⟨before, gap, posx, -, all⟩ := order.split
  have low : ∀ y ∈ A, y.start < x.start := by
    intro y inA
    have := all y inA
    simp only [stop] at this
    omega
  have lt : x.start < bp := by
    simp only [stop] at meet
    omega
  have keep {f : Nat → Nat} {v y : Nat} (ne : y ≠ x.start) : update f x.start v y = f y :=
    update_of_ne ne _ _
  have path := next.path toX above fun y mem => (low y mem).trans lt
  have startX : x.start ∈ starts (A ++ [x] ++ B) :=
    mem_map_of_mem (mem_append_left _ (mem_append_right _ mem_cons_self))
  have total := next.units
  refine ⟨linked_append.mpr ⟨?_, ?_, ?_⟩, ?_, ?_, ?_, fun u => ?_, ?_, ?_, fun d mem => ?_, ?_⟩
  · refine path.congr (keep (by omega)) fun z mem => ?_
    obtain ⟨y, inA, rfl⟩ := mem_map.mp mem
    have ne := Nat.ne_of_lt (low y inA)
    exact ⟨keep ne, keep ne⟩
  · exact update_self _ _ _
  · refine next.linked.congr (update_self _ _ _) fun y mem => ?_
    have ne : y ≠ x.start := by
      have := next.beyond far mem
      omega
    exact ⟨keep ne, keep ne⟩
  · exact (keep (by omega)).trans (((next.frame base (Nat.ne_of_lt above)).2).trans zero)
  · have stop : stop ⟨x.start, x.units + c.units⟩ = c.stop := by
      simp only [stop, next.start] at *
      omega
    refine Ordered.join before gap (by simp only; omega) ?_ all
    rw [stop]
    exact next.ordered
  · refine mem_cons_of_mem _ (mem_map.mpr ⟨⟨x.start, x.units + c.units⟩, ?_, rfl⟩)
    exact mem_append_right _ mem_cons_self
  · have here : c.Has u ↔ Block.Has ⟨x.start + 16 * x.units, c.units⟩ u := by
      rw [show x.start + 16 * x.units = c.start from meet.trans next.start.symm]
    rw [covered_append, covered_cons, has_join, ← here, covered_append, covered_append,
      covered_singleton, or_assoc]
    exact or_regroup (next.covers u)
  · rw [units_append, units_cons, units_append, units_append, units_singleton]
    dsimp only
    omega
  · exact ⟨_, mem_append_right _ mem_cons_self, next.large.trans (Nat.le_add_left _ _)⟩
  · rcases mem_append.mp mem with inA | mem
    · exact .inl (mem_map_of_mem (mem_append_left _ (mem_append_left _ inA)))
    rcases mem_cons.mp mem with rfl | inC
    · exact .inl startX
    exact .inl (mem_map_of_mem (mem_append_right _ (next.sub d inC)))
  intro y ne out _
  have other : y ≠ x.start := by
    rintro rfl
    exact out startX
  exact (keep other).trans (next.frame y ne).2

end

lemma joinPrev_spec (linked : Linked ptr size base A q) (zero : size base = 0)
    (order : Ordered base A) (near : ∀ x ∈ A, x.stop ≤ bp)
    (above : base < bp) (pos : 0 < n) (next : Next ptr size h base bp n B c C)
    (far : ∀ y ∈ B, bp < y.start) (small : units A + n + units B < 2 ^ 32) : ∃ L',
    Inserted size (joinPrev h.1 h.2 (last base A) bp) base bp n (last base A) (A ++ B) L' := by
  rcases eq_nil_or_concat A with rfl | ⟨A, x, rfl⟩
  · have zero' : h.2 base = 0 := ((next.frame base (Nat.ne_of_lt above)).2).trans zero
    have eq : joinPrev h.1 h.2 base bp = (update h.1 base bp, h.2) := by
      rw [joinPrev, zero', if_neg (by omega)]
    exact ⟨_, eq ▸ next.link linked zero order (fun _ mem => absurd mem not_mem_nil) above pos far⟩
  rw [concat_eq_append] at *
  have total := next.units
  have nearx := near x (mem_append_right _ mem_cons_self)
  obtain ⟨-, -, posx, -, all⟩ := order.split
  have ne : x.start ≠ bp := by
    simp only [stop] at nearx
    omega
  have sized : h.2 x.start = x.units := ((next.frame _ ne).2).trans (linked_append.mp linked).2.1
  by_cases meet : x.start + 16 * x.units = bp
  · have eq : joinPrev h.1 h.2 x.start bp =
        (update h.1 x.start (h.1 bp), update h.2 x.start (x.units + c.units)) := by
      rw [units_append, units_singleton] at small
      rw [joinPrev, sized, if_pos meet, next.sized, Nat.mod_eq_of_lt (by omega)]
    rw [last_append_singleton, eq]
    exact ⟨_, next.join linked zero order meet above far⟩
  have eq : joinPrev h.1 h.2 (last base (A ++ [x])) bp =
      (update h.1 (last base (A ++ [x])) bp, h.2) := by
    rw [last_append_singleton, joinPrev, sized, if_neg meet]
  rw [eq]
  refine ⟨_, next.link linked zero order (fun y mem => ?_) above pos far⟩
  rcases mem_append.mp mem with inA | last
  · have := all y inA
    simp only [stop] at *
    omega
  rw [mem_singleton.mp last]
  exact Nat.lt_of_le_of_ne nearx meet

end

end Xv6.Umalloc
