import Xv6.PageCalls

/-! What the invariant says about the words of the page tables: every page has one home, and the
address space of a process is the pages below `p->sz`, the trapframe and the trampoline. -/
namespace Xv6.Vm
open Interleaving PageTable Kernel Option

/-- The entry for a virtual page, 0 where `walk` finds none. -/
def entry (w : Words) (root v : Nat) : Nat :=
  (walk w root (v * pgsize)).elim 0 fun e => w e.1 e.2

/-- Where a page can be: on the free list, at a place of a page table, mapped at a user address,
or as a trapframe, a pipe or a page of the kernel. -/
inductive Home
  | free
  | table (p : Nat) (place : Place)
  | user (p v : Nat)
  | frame (p : Nat)
  | pipe (id : Nat)
  | kernel

def At (own : Set Nat) (s : Kernel) : Home → Nat → Prop
  | .free, x => x ∈ s.mem.free
  | .table p place, x => ∃ q, s.proc p = some q ∧ held s.mem.words q.root place = some x
  | .user p v, x => ∃ q, s.proc p = some q ∧ v < trapframe ∧
      valid (entry s.mem.words q.root v) = true ∧ pte2pa (entry s.mem.words q.root v) = x
  | .frame p, x => (s.proc p).map Proc.frame = some x
  | .pipe id, x => (s.pipe id).map Pipe.page = some x
  | .kernel, x => x ∈ own

def Home.owner : Home → Owner
  | .free => .free
  | .table p _ => .table p
  | .user p _ => .user p
  | .frame p => .frame p
  | .pipe id => .pipe id
  | .kernel => .kernel

/-- The process whose page it is. -/
def Home.process : Home → Option Nat
  | .table p _ | .user p _ | .frame p => some p
  | .free | .pipe _ | .kernel => none

variable {w : Words} {root : Nat} {t : Set Nat} {m : Map}

section
variable {code : Nat} {own pool : Set Nat} {s s' : Kernel} {tables : Nat → Set Nat}
  {maps : Nat → Map} {p v x : Nat} {q : Proc} {home home' : Home}

lemma entry_eq (r : Refines w root t m) (below : v < 67108864) :
    entry w root v = encode (m v) := by
  have value := r.walk (address_lt below)
  rwa [Nat.mul_div_cancel _ (by decide)] at value

lemma valid_entry (r : Refines w root t m) (below : v < 67108864) :
    valid (entry w root v) = true ↔ m v ≠ none := by
  rw [entry_eq r below]
  cases here : m v with
  | none => exact iff_of_false (by decide) fun ne => ne rfl
  | some e => exact iff_of_true (entry_bits r here).1 (some_ne_none e)

lemma low_lt (low : v < trapframe) : v < 67108864 := by
  rw [trapframe_eq] at low
  omega

lemma map_of_entry (r : Refines w root t m) (below : v < 67108864) (ok : valid (entry w root v) =
    true) : ∃ flags, m v = some (pte2pa (entry w root v), flags) := by
  obtain ⟨⟨page, flags⟩, here⟩ := ne_none_iff_exists'.mp ((valid_entry r below).mp ok)
  refine ⟨flags, ?_⟩
  rw [entry_eq r below, here]
  exact congrArg (fun page => some (page, flags)) (entry_bits r here).2.2.symm

section
variable (h : Inv code own pool s tables maps)
include h

lemma Inv.holds (here : At own s home x) : Holds own s tables maps home.owner x := by
  cases home with
  | free | frame p | pipe id | kernel => exact here
  | table p place =>
    obtain ⟨q, at', there⟩ := here
    exact ⟨at' ▸ some_ne_none q, (h.core p q at').refines.mem there⟩
  | user p v =>
    obtain ⟨q, at', low, ok, rfl⟩ := here
    obtain ⟨flags, there⟩ := map_of_entry (h.core p q at').refines (low_lt low) ok
    exact ⟨at' ▸ some_ne_none q, v, flags, low, there⟩

lemma Inv.home_unique (here : At own s home x) (here' : At own s home' x) : home = home' := by
  have same := h.part.distinct _ _ x (h.holds here) (h.holds here')
  cases home with
  | free | frame p | pipe id | kernel =>
    cases home' <;> cases same
    rfl
  | table p place =>
    cases home' <;> cases same
    obtain ⟨q, at', there⟩ := here
    obtain ⟨q', at'', there'⟩ := here'
    cases at'.symm.trans at''
    rw [(h.core p q at').refines.distinct there there']
  | user p v =>
    cases home' <;> cases same
    obtain ⟨q, at', low, ok, page⟩ := here
    obtain ⟨q', at'', low', ok', page'⟩ := here'
    cases at'.symm.trans at''
    obtain ⟨flags, there⟩ := map_of_entry (h.core p q at').refines (low_lt low) ok
    obtain ⟨flags', there'⟩ := map_of_entry (h.core p q at').refines (low_lt low') ok'
    rw [page] at there
    rw [page'] at there'
    rw [(h.core p q at').inj _ _ x flags flags' low low' there there']

lemma Inv.home_exists (mem : x ∈ pool) : ∃ home, At own s home x := by
  obtain ⟨i, here⟩ := (h.part.total x).mp mem
  cases i with
  | free => exact ⟨.free, here⟩
  | table p =>
    obtain ⟨q, at'⟩ := ne_none_iff_exists'.mp here.1
    obtain ⟨place, there⟩ := (h.core p q at').refines.exact.owned (some x) ⟨x, here.2, rfl⟩
    exact ⟨.table p place, q, at', there⟩
  | user p =>
    obtain ⟨live, v, flags, low, there⟩ := here
    obtain ⟨q, at'⟩ := ne_none_iff_exists'.mp live
    have r := (h.core p q at').refines
    refine ⟨.user p v, q, at', low, (valid_entry r (low_lt low)).mpr ?_, ?_⟩
    · rw [there]
      exact some_ne_none _
    rw [entry_eq r (low_lt low), there]
    exact (entry_bits r there).2.2
  | frame p => exact ⟨.frame p, here⟩
  | pipe id => exact ⟨.pipe id, here⟩
  | kernel => exact ⟨.kernel, here⟩

lemma Inv.mapped (here : s.proc p = some q) (below : v < 67108864) :
    valid (entry s.mem.words q.root v) = true ↔ v < pages q.sz ∨ v = trapframe ∨
    v = trampoline := by
  have top := trampoline_eq
  have frameAt := trapframe_eq
  have img := h.image here
  have fits := img.fits
  rw [valid_entry (h.core p q here).refines below]
  by_cases low : v < trapframe
  · rw [img.user v low]
    omega
  refine iff_of_true ?_ (by omega)
  by_cases eq : v = trapframe
  · rw [eq, img.frame]
    exact some_ne_none _
  rw [show v = trampoline by omega, img.code]
  exact some_ne_none _

lemma Inv.page_of_entry (here : s.proc p = some q) (below : v < 67108864)
    (ok : valid (entry s.mem.words q.root v) = true) : v < trapframe ∧ At own s (.user p v)
    (pte2pa (entry s.mem.words q.root v)) ∨ v = trapframe ∧ pte2pa (entry s.mem.words q.root v) =
    q.frame ∨ v = trampoline ∧ pte2pa (entry s.mem.words q.root v) = code := by
  have r := (h.core p q here).refines
  have img := h.image here
  have fits := img.fits
  rcases (h.mapped here below).mp ok with user | rfl | rfl
  · have low : v < trapframe := lt_of_lt_of_le user fits
    exact .inl ⟨low, q, here, low, ok, rfl⟩
  · refine .inr (.inl ⟨rfl, ?_⟩)
    rw [entry_eq r below, img.frame]
    exact (entry_bits r img.frame).2.2
  refine .inr (.inr ⟨rfl, ?_⟩)
  rw [entry_eq r below, img.code]
  exact (entry_bits r img.code).2.2

end

lemma Inv.frame_at (here : s.proc p = some q) : At own s (.frame p) q.frame := by
  rw [At, here]
  rfl

lemma Inv.entries_distinct {v' : Nat} (h : Inv code own pool s tables maps) (text : code ∉ pool)
    (here : s.proc p = some q) (below : v < 67108864) (below' : v' < 67108864) (ok :
    valid (entry s.mem.words q.root v) = true) (ok' : valid (entry s.mem.words q.root v') = true)
    (same : pte2pa (entry s.mem.words q.root v) = pte2pa (entry s.mem.words q.root v')) :
    v = v' := by
  have member : ∀ {home x}, At own s home x → x ≠ code := by
    rintro home x at' rfl
    exact text ((h.part.total x).mpr ⟨_, h.holds at'⟩)
  have frame : At own s (.frame p) q.frame := Inv.frame_at here
  rcases h.page_of_entry here below ok with ⟨-, one⟩ | ⟨rfl, one⟩ | ⟨rfl, one⟩ <;>
    rcases h.page_of_entry here below' ok' with ⟨-, two⟩ | ⟨rfl, two⟩ | ⟨rfl, two⟩
  · rw [← same] at two
    cases h.home_unique one two
    rfl
  · rw [same, two] at one
    cases h.home_unique one frame
  · exact absurd (same.trans two) (member one)
  · rw [← same, one] at two
    cases h.home_unique two frame
  · rfl
  · exact absurd (one.symm.trans (same.trans two)) (member frame)
  · exact absurd (same.symm.trans one) (member two)
  · exact absurd (two.symm.trans (same.symm.trans one)) (member frame)
  rfl

end

lemma Inv.wait_frees (h : Inv code own pool s tables maps) (small : ∀ x ∈ pool, x < phystop)
    (runs : s.halted = none) {c : Nat} (next : Vm.step code s (.wait p c) = some s') :
    s'.proc c = none ∧ ∀ home x, home.process = some c → At own s home x → x ∈ s'.mem.free := by
  rw [Vm.step, if_pos runs] at next
  obtain ⟨q, at', next⟩ := bind_eq_some_iff.mp next
  obtain ⟨-, rfl⟩ := guarded.mp next
  obtain ⟨-, gone, free⟩ := freeproc_sound small h runs at'
  refine ⟨gone, fun home x mine here => (free x).mpr ?_⟩
  have held := h.holds here
  cases home <;> cases mine
  · exact .inr (.inr (.inl held.2))
  · exact .inr (.inr (.inr held.2))
  · rw [At, at'] at here
    exact .inl (some.inj here).symm

/-- In every state in which the kernel has not panicked, every page has exactly one home, the free
list has no page twice, `kalloc` hands out a page that has no other home, and `wait` puts every page
of the process that it reaps on the free list. -/
theorem page_has_one_home {code : Nat} {own : Set Nat} {words : Words} {free : List Nat}
    (nodup : free.Nodup) (apart : ∀ x ∈ free, x ∉ own)
    (small : ∀ x, x ∈ free ∨ x ∈ own → x < phystop) {as : List Act} {s : Kernel}
    (run : Run (Vm.step code) Free (boot words free) as s) (runs : s.halted = none) :
    (∀ x, x ∈ free ∨ x ∈ own → ∃! home, At own s home x) ∧
    (∀ home x, At own s home x → x ∈ free ∨ x ∈ own) ∧
    s.mem.free.Nodup ∧
    (∀ page k home, kalloc s.mem = some (page, k) → At own s home page → home = .free) ∧
    ∀ p c s', Vm.step code s (.wait p c) = some s' → s'.proc c = none ∧
      ∀ home x, home.process = some c → At own s home x → At own s' .free x := by
  obtain ⟨tables, maps, inv⟩ := (run_sound nodup apart small run).inv runs
  refine ⟨fun x mem => ?_, fun home x here => ?_, inv.nodup, fun page k home got here => ?_,
    fun p c s' next => inv.wait_frees small runs next⟩
  · obtain ⟨home, here⟩ := inv.home_exists mem
    exact ⟨home, here, fun other there => inv.home_unique there here⟩
  · exact (inv.part.total x).mpr ⟨_, inv.holds here⟩
  refine inv.home_unique here (show At own s .free page from ?_)
  rw [kalloc] at got
  split at got
  · cases got
  rename_i listed
  cases got
  change page ∈ s.mem.free
  rw [listed]
  exact List.mem_cons_self

def smallMemory : List Nat := List.range' 100 40

lemma smallMemory_apart : ∀ x ∈ smallMemory, x ∉ ({99} : Set Nat) := by decide

lemma smallMemory_below : ∀ x, x ∈ smallMemory ∨ x ∈ ({99} : Set Nat) → x < phystop := by
  rintro x (mem | rfl)
  · have bounds := List.mem_range'_1.mp mem
    rw [phystop]
    omega
  decide

/-- A child runs another program, exits and is waited for. -/
theorem small_memory_has_homes : ∃ s s',
    Run (Vm.step 50) Free (boot (fun _ _ => 0) smallMemory) [.userinit fun _ => 7, .sbrk 1 5000,
      .pipe 1 0 true, .fork 1 2, .exec 2 1 true [.load 0 4096 4096 5 true] true, .exit 2] s ∧
    Vm.step 50 s (.wait 1 2) = some s' ∧ s.mem.free.length = 21 ∧ s'.mem.free.length = 30 ∧
    s'.proc 2 = none ∧ ∃! home, At {99} s home 104 := by
  refine Run.exists_two_with (P := fun s => s.halted = none ∧ s.mem.free.length = 21 ∧
      (Vm.step 50 s (.wait 1 2)).map (fun s => s.mem.free.length) = some 30)
    (by decide +kernel) fun s run ⟨runs, length, waits⟩ => ?_
  obtain ⟨s', next, length'⟩ := map_eq_some_iff.mp waits
  obtain ⟨homes, -, -, -, reaped⟩ := page_has_one_home (by decide) smallMemory_apart
    smallMemory_below run runs
  exact ⟨s', next, length, length', (reaped 1 2 s' next).1, homes 104 (.inl (by decide))⟩

/-- No panic of `vm.c` is reachable. While the kernel runs, a process has mapped the pages below
`p->sz`, the trapframe and the trampoline, all distinct, and shares no page of user memory with
another; and a `growproc` that fails leaves the size, the mappings and the contents. -/
theorem user_memory_is_below_size {code : Nat} {own : Set Nat} {words : Words} {free : List Nat}
    (nodup : free.Nodup) (apart : ∀ x ∈ free, x ∉ own)
    (small : ∀ x, x ∈ free ∨ x ∈ own → x < phystop) (text : ¬ (code ∈ free ∨ code ∈ own))
    {as : List Act} {s : Kernel} (run : Run (Vm.step code) Free (boot words free) as s) :
    s.halted ≠ some .vm ∧ (s.halted = none →
      (∀ p q v, s.proc p = some q → v * pgsize < maxva →
        (valid (entry s.mem.words q.root v) = true ↔
          v < pages q.sz ∨ v = trapframe ∨ v = trampoline)) ∧
      (∀ p q v v', s.proc p = some q → v * pgsize < maxva → v' * pgsize < maxva →
        valid (entry s.mem.words q.root v) = true → valid (entry s.mem.words q.root v') = true →
        pte2pa (entry s.mem.words q.root v) = pte2pa (entry s.mem.words q.root v') → v = v') ∧
      (∀ p q p' q' v v', s.proc p = some q → s.proc p' = some q' → v < pages q.sz →
        v' < pages q'.sz →
        pte2pa (entry s.mem.words q.root v) = pte2pa (entry s.mem.words q'.root v') → p = p') ∧
      ∀ p q n k, live s p = some q → -2 ^ 31 ≤ n → n < 2 ^ 31 →
        growproc s.mem q.root q.sz n = some (none, k) →
        Vm.step code s (.sbrk p n) = some (s.setMem k) ∧
        (∀ v, v * pgsize < maxva → entry k.words q.root v = entry s.mem.words q.root v) ∧
        ∀ v < pages q.sz, k.words (pte2pa (entry s.mem.words q.root v)) =
          s.mem.words (pte2pa (entry s.mem.words q.root v))) := by
  have sound := run_sound nodup apart small run
  have page : ∀ v, v * pgsize < maxva → v < 67108864 := by
    intro v less
    change v * 4096 < 274877906944 at less
    omega
  refine ⟨sound.vm, fun runs => ?_⟩
  obtain ⟨tables, maps, inv⟩ := sound.inv runs
  have user : ∀ {p q v}, s.proc p = some q → v < pages q.sz →
      v < trapframe ∧ valid (entry s.mem.words q.root v) = true := by
    intro p q v here less
    have low := lt_of_lt_of_le less (inv.image here).fits
    exact ⟨low, (inv.mapped here (low_lt low)).mpr (.inl less)⟩
  refine ⟨fun p q v here less => inv.mapped here (page v less),
    fun p q v v' here less less' ok ok' same =>
      inv.entries_distinct text here (page v less) (page v' less') ok ok' same,
    fun p q p' q' v v' here here' less less' same => ?_, fun p q n k at' low high failed => ?_⟩
  · obtain ⟨low, ok⟩ := user here less
    obtain ⟨low', ok'⟩ := user here' less'
    have one : At own s (.user p v) (pte2pa (entry s.mem.words q'.root v')) :=
      ⟨q, here, low, ok, same⟩
    have two : At own s (.user p' v') (pte2pa (entry s.mem.words q'.root v')) :=
      ⟨q', here', low', ok', rfl⟩
    cases inv.home_unique one two
    rfl
  have here := proc_of_live at'
  obtain ⟨r, k', t, m, done, space, keeps, unchanged, -⟩ :=
    (inv.space small here).growproc (inv.image here) high
  cases done.symm.trans failed
  have map := unchanged rfl
  refine ⟨?_, fun v less => ?_, fun v less => ?_⟩
  · rw [Vm.step, if_pos runs]
    rw [if_pos ⟨low, high⟩, at', map_some, sbrk, failed]
    rfl
  · rw [entry_eq space.refines (page v less), map,
      entry_eq (inv.core p q here).refines (page v less)]
  obtain ⟨below, ok⟩ := user here less
  obtain ⟨flags, there⟩ := map_of_entry (inv.core p q here).refines (low_lt below) ok
  have leaf : pte2pa (entry s.mem.words q.root v) ∈ leaves (maps p) := ⟨v, flags, below, there⟩
  exact keeps.kept _ leaf (map ▸ leaf)

theorem first_process_grows :
    ∃ s, Run (Vm.step 50) Free (boot (fun _ _ => 0) smallMemory)
        [.userinit fun _ => 7, .sbrk 1 5000, .sbrk 1 (-6000)] s ∧
      ∃ q, s.proc 1 = some q ∧ q.sz = 3096 ∧ valid (entry s.mem.words q.root 0) = true ∧
        ¬ valid (entry s.mem.words q.root 1) = true := by
  refine Run.exists_with (P := fun s => (s.proc 1).map Proc.sz = some 3096 ∧ s.halted = none)
    (by decide +kernel) fun s run ⟨size, runs⟩ => ?_
  obtain ⟨q, here, sz⟩ := map_eq_some_iff.mp size
  obtain ⟨-, image⟩ := user_memory_is_below_size (by decide) smallMemory_apart smallMemory_below
    (by simp [smallMemory]) run
  obtain ⟨mapped, -⟩ := image runs
  have count : pages q.sz = 1 := by
    rw [sz]
    decide
  refine ⟨q, here, sz, (mapped 1 q 0 here (by decide)).mpr (.inl (by omega)), fun ok => ?_⟩
  have bounds := (mapped 1 q 1 here (by decide)).mp ok
  rw [count] at bounds
  exact absurd bounds (by decide)

end Xv6.Vm
