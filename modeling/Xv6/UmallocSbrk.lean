import Xv6.Sbrk
import Xv6.UmallocHeap

/-! `malloc` on a process that grows by `sbrk`. `sbrk` takes an `int`, so that the size `morecore`
asks for is cut to 32 bits with a sign. -/
namespace Xv6.Umalloc
open FreeList Interleaving Sbrk Option Finset

/-- The allocator, `p->sz` and the user pages that are mapped. -/
structure Proc where
  heap : State
  sz : Nat
  mapped : Finset Nat

namespace Proc
/-- `sys_sbrk` with `growproc`, with memory for `avail` more pages: what it returns, `none` for -1.
The outer `none` is a panic. -/
def sbrk (x : Proc) (n : Int) (avail : Nat) : Option (Option Nat × Proc) :=
  if 0 < n then
    match uvmalloc x.mapped avail x.sz (addSize x.sz n) with
    | .error _ => none
    | .ok (0, m) => some (none, { x with mapped := m })
    | .ok (z, m) => some (some x.sz, { x with sz := z, mapped := m })
  else if n < 0 then
    match uvmdealloc x.mapped x.sz (addSize x.sz n) with
    | .error _ => none
    | .ok (z, m) => some (some x.sz, { x with sz := z, mapped := m })
  else some (some x.sz, x)

/-- `morecore`, and whether it has got memory. The store to the new header faults, which kills the
process, if the page is not mapped: this is a `none`, too. -/
def morecore (x : Proc) (nu avail : Nat) : Option (Bool × Proc) :=
  (x.sbrk (((16 * max nu 4096 : Nat) : Int).bmod (2 ^ 32)) avail).bind fun r =>
    match r.1 with
    | none => some (false, r.2)
    | some p =>
      if p / PGSIZE ∈ r.2.mapped then
        ({ x.heap with brk := p }.morecore nu 0).map fun s => (true, { r.2 with heap := s })
      else none

def source (nu avail : Nat) : Source Proc where
  heap := heap
  setHeap x s := { x with heap := s }
  holds x a := a / PGSIZE ∈ x.mapped
  morecore x := x.morecore nu avail

def malloc (base : Nat) (x : Proc) (nbytes avail : Nat) : Option (Proc × Option Nat) :=
  let x := { x with heap := x.heap.start base }
  x.heap.freep.bind
    (mallocLoop (source (nunits nbytes) avail) (nunits nbytes) (x.heap.obtained + 2) x)

end Proc

/-- Each call of `malloc` comes with the memory there is. -/
inductive Call where
  | malloc (nbytes avail : Nat)
  | free (b : Block)
  deriving DecidableEq

def callStep (base : Nat) (x : Proc) : Call → Option Proc
  | .malloc nbytes avail =>
    if x.mapped.card + avail ≤ PHYSPAGES then (x.malloc base nbytes avail).map Prod.fst else none
  | .free b => (step base x.heap (.free b)).map fun s => { x with heap := s }

/-- A process that has not called `malloc` yet. -/
def started (sz : Nat) : Proc := ⟨init sz, sz, Finset.range (pages sz)⟩

/-- The request is below 2 ^ 31 bytes, with its header. -/
def Small (_ : Proc) : Call → Prop
  | .malloc nbytes _ => 16 * nunits nbytes < 2 ^ 31
  | .free _ => True

instance (x : Proc) : ∀ c, Decidable (Small x c)
  | .malloc _ _ => inferInstanceAs (Decidable (_ < _))
  | .free _ => inferInstanceAs (Decidable True)

/-- The heap ends where the process does. -/
structure Joined (sz : Nat) (x : Proc) : Prop where
  brk : x.heap.brk = x.sz
  size : x.sz = sz + 16 * x.heap.obtained
  mapped : x.mapped = Finset.range (pages x.sz)
  fits : pages x.sz ≤ PHYSPAGES

variable {base sz nu avail n f : Nat} {x x' : Proc} {s s' : State} {L : List Block}

lemma Joined.bound (h : Joined sz x) : x.sz ≤ 2 ^ 27 ∧ x.heap.obtained ≤ 2 ^ 23 := by
  have fits := h.fits
  have size := h.size
  unfold pages PHYSPAGES PGSIZE at fits
  omega

lemma Joined.sbrk (h : Joined sz x) {k : Nat} (pos : 0 < k)
    (small : k < 2 ^ 31) (memory : pages x.sz + avail ≤ PHYSPAGES) :
    x.sbrk k avail = some (none, x) ∨ pages (x.sz + k) ≤ PHYSPAGES ∧ x.sbrk k avail =
    some (some x.sz, { x with sz := x.sz + k, mapped := range (pages (x.sz + k)) }) := by
  have bound := h.bound.1
  have size : addSize x.sz k = x.sz + k := by
    rw [addSize]
    omega
  have nonzero : x.sz + k ≠ 0 := by omega
  unfold Proc.sbrk
  rw [if_pos (by omega), size, h.mapped, uvmalloc_range (Nat.le_add_right _ _) memory]
  split_ifs with enough
  · grind
  rw [← h.mapped]
  exact .inl rfl

lemma morecore_brk {g : Nat} (more : s.morecore nu g = some s') :
    s'.brk = s.brk + 16 * g + 16 * max nu 4096 := by
  unfold State.morecore State.insert at more
  obtain ⟨f, -, more⟩ := bind_eq_some_iff.mp more
  obtain ⟨p, -, rfl⟩ := map_eq_some_iff.mp more
  rfl

lemma Joined.holds (h : Joined sz x) {a : Nat} (less : a < x.sz) : a / PGSIZE ∈ x.mapped := by
  rw [h.mapped, mem_range, pages, PGSIZE]
  omega

lemma proc_keeps (nu avail sz sz' : Nat) :
    Keeps (Proc.source nu avail) fun x => Joined sz x ∧ sz' ≤ x.sz where
  heap _ _ := rfl
  set x s h brk obtained := ⟨⟨brk.trans h.1.brk, by
    show x.sz = sz + 16 * s.obtained
    rw [obtained]
    exact h.1.size, h.1.mapped, h.1.fits⟩, h.2⟩
  holds x a h less := decide_eq_true (h.1.holds (h.1.brk ▸ less))

lemma Heap.morecoreProc (h : Heap base x.heap L) (joined : Joined sz x)
    (small : 16 * nu < 2 ^ 31) (memory : pages x.sz + avail ≤ PHYSPAGES) :
    (∃ y, (Proc.source nu avail).morecore x = some (false, y) ∧ y.heap = x.heap ∧ Joined sz y ∧
      x.sz ≤ y.sz) ∨
    ∃ y L', (Proc.source nu avail).morecore x = some (true, y) ∧
      Heap base y.heap L' ∧ y.heap.live = x.heap.live ∧ (∃ d ∈ L', nu ≤ d.units) ∧
      Joined sz y ∧ x.sz ≤ y.sz := by
  have bound := joined.bound
  have cast : (((16 * max nu 4096 : Nat) : Int)).bmod (2 ^ 32) = (16 * max nu 4096 : Nat) := by
    rw [Int.bmod_eq_of_le] <;> omega
  rw [Proc.source]
  dsimp only
  rw [Proc.morecore, cast]
  rcases joined.sbrk (k := 16 * max nu 4096) (by omega) (by omega) memory with failed | ⟨fits, grown⟩
  · rw [failed]
    exact .inl ⟨x, rfl, rfl, joined, le_rfl⟩
  have same : { x.heap with brk := x.sz } = x.heap := by rw [← joined.brk]
  obtain ⟨s₁, L₁, more, heap, live, obtained, large⟩ := h.morecore 0
    (show x.heap.obtained + max nu 4096 < 2 ^ 32 by omega)
  have brk := morecore_brk more
  have joined₁ : Joined sz ⟨s₁, x.sz + 16 * max nu 4096,
      range (pages (x.sz + 16 * max nu 4096))⟩ := by
    refine ⟨brk.trans (by rw [joined.brk]; rfl), ?_, rfl, fits⟩
    show x.sz + 16 * max nu 4096 = sz + 16 * s₁.obtained
    rw [joined.size, obtained]
    omega
  refine .inr ⟨_, L₁, ?_, heap, live, large, joined₁, Nat.le_add_right _ _⟩
  rw [grown, bind_some]
  dsimp only
  rw [if_pos (joined₁.holds (Nat.lt_add_of_pos_right (by omega))), same, more, map_some]

/-- The invariant of a process that calls `malloc` and `free`. -/
def Grown (base sz : Nat) (x : Proc) : Prop := Inv base x.heap ∧ Joined sz x

lemma Grown.malloc {nbytes : Nat} (h : Grown base sz x) (small : 16 * nunits nbytes < 2 ^ 31)
    (memory : pages x.sz + avail ≤ PHYSPAGES) : ∃ x' r, x.malloc base nbytes avail = some (x', r) ∧
    Allocated base (nunits nbytes) x.heap x'.heap r ∧ Joined sz x' ∧ x.sz ≤ x'.sz := by
  obtain ⟨L, heap, live, obtained, brk⟩ := h.1.start
  obtain ⟨f, freep, -⟩ := heap.listed.freep
  have joined : Joined sz { x with heap := x.heap.start base } :=
    ⟨brk.trans h.2.brk, by rw [obtained]; exact h.2.size, h.2.mapped, h.2.fits⟩
  have pos : 0 < nunits nbytes := Nat.succ_pos _
  have more := Heap.morecoreProc heap joined small memory
  obtain ⟨x', r, run, ⟨L', heap', post⟩, joined', le⟩ := Heap.mallocLoop
    (proc_keeps (nunits nbytes) avail sz x.sz) heap ⟨joined, le_rfl⟩ freep pos
    (x.heap.start base).obtained more
  refine ⟨x', r, ?_, ⟨L', heap', live ▸ post⟩, joined', le⟩
  rw [Proc.malloc]
  simp only
  rw [freep]
  exact run

lemma Grown.of_allocated {r : Option Nat} (joined : Joined sz x')
    (post : Allocated base nu s x'.heap r) : Grown base sz x' := by
  obtain ⟨L', heap, -⟩ := post
  have := joined.bound
  exact ⟨⟨by omega, .inr ⟨L', heap⟩⟩, joined⟩

lemma insert_brk {b : Nat} (next : s.insert b = some s') :
    s'.brk = s.brk ∧ s'.obtained = s.obtained := by
  obtain ⟨f, -, next⟩ := bind_eq_some_iff.mp next
  obtain ⟨p, -, rfl⟩ := map_eq_some_iff.mp next
  exact ⟨rfl, rfl⟩

lemma Grown.step {c : Call} (h : Grown base sz x) (small : Small x c)
    (next : callStep base x c = some x') : Grown base sz x' := by
  cases c with
  | malloc nbytes avail =>
    obtain ⟨memory, next⟩ := ite_none_right_eq_some.mp next
    rw [h.2.mapped, card_range] at memory
    obtain ⟨x₁, r, run, post, joined, -⟩ := h.malloc small memory
    rw [run] at next
    cases next
    exact .of_allocated joined post
  | free b =>
    obtain ⟨s₁, freed, rfl⟩ := map_eq_some_iff.mp next
    have inv := h.1.step (l := .free b) trivial freed
    obtain ⟨-, linked⟩ := ite_none_right_eq_some.mp freed
    obtain ⟨brk, obtained⟩ := insert_brk linked
    exact ⟨inv, brk.trans h.2.brk, h.2.size.trans (by rw [obtained]; rfl), h.2.mapped, h.2.fits⟩

/-- In every run of calls below 2 ^ 31 bytes, `malloc` returns 0 or a block that lies in the process
with all its bytes, and the process does not shrink. -/
theorem malloc_stays_in_process {calls : List Call} {x : Proc} (base sz : Nat) (above : base < sz)
    (aligned : 16 ∣ sz) (fits : pages sz ≤ PHYSPAGES)
    (run : Run (callStep base) Small (started sz) calls x) (nbytes avail : Nat)
    (small : 16 * nunits nbytes < 2 ^ 31) (memory : x.mapped.card + avail ≤ PHYSPAGES) :
    ∃ x' r, x.malloc base nbytes avail = some (x', r) ∧ x.sz ≤ x'.sz ∧
      (r = none ∨ ∃ p, r = some p ∧ p + nbytes ≤ x'.sz) := by
  have start : Grown base sz (started sz) :=
    ⟨⟨Nat.zero_lt_succ _, .inl ⟨rfl, rfl, rfl, aligned, above⟩⟩, rfl, rfl, rfl, fits⟩
  have h : Grown base sz x := run.invariant (I := Grown base sz)
    (fun _ _ _ h small next => h.step small next) start
  rw [h.2.mapped, Finset.card_range] at memory
  obtain ⟨x', r, run, ⟨L, heap, post⟩, joined, le⟩ := h.malloc small memory
  refine ⟨x', r, run, le, ?_⟩
  rcases post with ⟨none, -⟩ | ⟨b, address, units, live, -⟩
  · exact .inl none
  have stop := heap.stop_le (.inr (live ▸ List.mem_cons_self : b ∈ x'.heap.live))
  rw [joined.brk, Block.stop, units, nunits] at stop
  exact .inr ⟨_, address, by omega⟩

/-- A block of a page is freed and its memory used again. -/
theorem page_is_allocated : ∃ x x' r,
    Run (callStep 64) Small (started 8192) [.malloc 4080 100, .free ⟨69632, 256⟩, .malloc 100 80] x ∧
    x.malloc 64 4080 80 = some (x', r) ∧ 73728 ≤ x'.sz ∧
    (r = none ∨ ∃ p, r = some p ∧ p + 4080 ≤ x'.sz) := by
  obtain ⟨x, run, size, memory⟩ : ∃ x, Run (callStep 64) Small (started 8192)
      [.malloc 4080 100, .free ⟨69632, 256⟩, .malloc 100 80] x ∧ x.sz = 73728 ∧
      x.mapped.card + 80 ≤ PHYSPAGES := Run.exists_of_execute (by decide +kernel)
  obtain ⟨x', r, eq, le, post⟩ := malloc_stays_in_process 64 8192 (by decide) (by decide) (by decide)
    run 4080 80 (by decide) memory
  exact ⟨x, x', r, run, eq, size ▸ le, post⟩

/-- For 2 GB `sbrk` gets a negative number, `growproc` keeps the size, and the block is outside of
the process. Its header is not, when an earlier call has moved the break into a page. -/
theorem large_block_is_outside : ∃ x x' p,
    Run (callStep 64) Small (started 8192) [.malloc 70000 100] x ∧
    x.malloc 64 (2 ^ 31) 50 = some (x', some p) ∧ x'.sz = 78208 ∧ p = 78224 := by
  obtain ⟨x, run, facts⟩ : ∃ x, Run (callStep 64) Small (started 8192) [.malloc 70000 100] x ∧
      (x.malloc 64 (2 ^ 31) 50).map (fun r => (r.1.sz, r.2)) = some (78208, some 78224) :=
    Run.exists_of_execute (by decide +kernel)
  obtain ⟨⟨x', r⟩, eq, facts⟩ := map_eq_some_iff.mp facts
  obtain ⟨size, rfl⟩ := Prod.mk.inj facts
  exact ⟨x, x', 78224, run, eq, size, rfl⟩

end Xv6.Umalloc
