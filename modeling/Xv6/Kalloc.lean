import Xv6.UserVmSpace

/-! `kalloc.c` as the code has it: the free list runs through the first words of the free pages, and
a page is filled while the lock is not held. In any interleaving of the calls this is the list of
pages that user memory is built on. -/
namespace Xv6.Kalloc
open Interleaving PageTable Vm List
open Function (update update_apply update_of_ne)

abbrev PHYSTOP : Nat := phystop * pgsize

lemma link_lt : 0 < 512 := by decide

/-- `r->next`, in a free page. -/
def link : Index := ⟨0, link_lt⟩

/-- A page that is not free is held by one caller, who may be in `kfree` behind its `memset` or in
`kalloc` before it. -/
inductive Status where
  | outside
  | held
  | freeing
  | free
  | filling
  deriving DecidableEq

/-- The words of the pages and `kmem.freelist`, an address, with the memory that the same calls
leave when each is one step on a list. -/
structure State where
  words : Words
  freelist : Nat
  status : Nat → Status
  panicked : Bool
  mem : Mem

inductive Act where
  | kfree (pa : Nat)
  | push (page : Nat)
  | kalloc
  | memset (page : Nat)
  | write (page : Nat) (i : Index) (v : Nat)

/-- Only the holder of a page frees or writes it. -/
def Holder (s : State) : Act → Prop
  | .kfree pa => pa % pgsize = 0 ∧ s.status (pa / pgsize) = .held
  | .write page _ _ => s.status page = .held
  | _ => True

section
variable (kernelEnd : Nat)

def InRange (page : Nat) : Prop := kernelEnd ≤ page * pgsize ∧ page * pgsize < PHYSTOP

instance : DecidablePred (InRange kernelEnd) := fun _ => inferInstanceAs (Decidable (_ ∧ _))

/-- Before `kinit`, which holds all pages; `freerange` is its calls of `kfree`. -/
def init (words : Words) : State where
  words := words
  freelist := 0
  status page := if InRange kernelEnd page then .held else .outside
  panicked := false
  mem := ⟨words, []⟩

def step (s : State) : Act → Option State
  | .kfree pa =>
    if pa % pgsize ≠ 0 ∨ pa < kernelEnd ∨ PHYSTOP ≤ pa then some { s with panicked := true }
    else some { s with
      words := update s.words (pa / pgsize) fun _ => junk
      status := update s.status (pa / pgsize) .freeing }
  | .push page =>
    if s.status page = .freeing then some { s with
      words := setWord s.words page link s.freelist
      freelist := page * pgsize
      status := update s.status page .free
      mem := Vm.kfree s.mem page }
    else none
  | .kalloc =>
    if s.freelist = 0 then some s
    else some { s with
      freelist := s.words (s.freelist / pgsize) link
      status := update s.status (s.freelist / pgsize) .filling
      mem := (Vm.kalloc s.mem).elim s.mem Prod.snd }
  | .memset page =>
    if s.status page = .filling then some { s with
      words := update s.words page fun _ => fresh
      status := update s.status page .held }
    else none
  | .write page i v => some { s with
      words := setWord s.words page i v
      mem := s.mem.setWord page i v }

def Chain (w : Words) : Nat → List Nat → Prop
  | a, [] => a = 0
  | a, page :: rest => a = page * pgsize ∧ Chain w (w page link) rest

/-- The list in the pages is the list of the memory, and a page has the contents it has there while
somebody holds it. -/
structure Refines (s : State) : Prop where
  chain : Chain s.words s.freelist s.mem.free
  nodup : s.mem.free.Nodup
  range : ∀ page, s.status page ≠ .outside → InRange kernelEnd page
  free : ∀ page, page ∈ s.mem.free ↔ s.status page = .free
  held : ∀ page, s.status page = .held → s.words page = s.mem.words page
  filled : ∀ page, s.status page = .filling → s.mem.words page = fun _ => fresh
  calm : s.panicked = false

end

variable {kernelEnd a q : Nat} {w : Words} {ps : List Nat} {s s' : State}

lemma Chain.update (h : Chain w a ps) (out : q ∉ ps) (f : Index → Nat) :
    Chain (update w q f) a ps := by
  induction ps generalizing a with
  | nil => exact h
  | cons p ps ih =>
    obtain ⟨ne, out⟩ := not_or.mp (mem_cons.not.mp out)
    refine ⟨h.1, ?_⟩
    rw [update_of_ne (Ne.symm ne)]
    exact ih h.2 out

namespace Refines
/-- The head of the list is what `kalloc` returns. -/
lemma head (h : Refines kernelEnd s) (pos : 0 < kernelEnd) :
    s.mem.free = [] ∧ s.freelist = 0 ∨ s.freelist ≠ 0 ∧ ∃ rest,
      s.mem.free = s.freelist / pgsize :: rest ∧
        Chain s.words (s.words (s.freelist / pgsize) link) rest := by
  have chain := h.chain
  cases list : s.mem.free with
  | nil =>
    rw [list] at chain
    exact .inl ⟨rfl, chain⟩
  | cons page rest =>
    rw [list] at chain
    have here := (h.free page).mp (list ▸ mem_cons_self)
    have low := (h.range page (here.trans_ne (by decide))).1
    have eq := chain.1
    refine .inr ⟨by omega, rest, ?_⟩
    rw [eq, Nat.mul_div_cancel _ (by decide)]
    exact ⟨rfl, chain.2⟩

lemma step (h : Refines kernelEnd s) (pos : 0 < kernelEnd) {a : Act} (holder : Holder s a)
    (next : Kalloc.step kernelEnd s a = some s') : Refines kernelEnd s' := by
  have head := h.head pos
  obtain ⟨chain, nodup, range, free, held, filled, calm⟩ := h
  have out {q : Nat} (taken : s.status q ≠ .free) : q ∉ s.mem.free := mt (free q).mp taken
  cases a with
  | kfree pa =>
    obtain ⟨aligned, here⟩ := holder
    have inside := range _ (here.trans_ne (by decide))
    rw [InRange, Nat.div_mul_cancel (Nat.dvd_of_mod_eq_zero aligned)] at inside
    simp only [Kalloc.step] at next
    split_ifs at next with bad
    · omega
    cases next
    refine ⟨chain.update (out (here.trans_ne (by decide))) _, nodup, ?_, ?_, ?_, ?_, calm⟩
    all_goals grind [update_apply]
  | push q =>
    obtain ⟨here, rfl⟩ := guarded.mp next
    have out := out (here.trans_ne (by decide))
    refine ⟨⟨rfl, ?_⟩, nodup_cons.mpr ⟨out, nodup⟩, ?_, ?_, ?_, ?_, calm⟩
    · simpa [setWord] using chain.update out _
    all_goals simp only [Vm.kfree, Mem.fill, setWord]
    all_goals grind [update_apply]
  | kalloc =>
    rcases head with ⟨-, empty⟩ | ⟨some, rest, list, chain⟩
    · cases (if_pos empty).symm.trans next
      exact ⟨‹_›, nodup, range, free, held, filled, calm⟩
    cases (if_neg some).symm.trans next
    rw [list] at nodup
    refine ⟨?_, ?_, ?_, ?_, ?_, ?_, calm⟩
    all_goals simp only [Vm.kalloc, list, Option.elim, Mem.fill]
    · exact chain
    · exact nodup.of_cons
    all_goals grind [update_apply]
  | memset q =>
    obtain ⟨here, rfl⟩ := guarded.mp next
    refine ⟨chain.update (out (here.trans_ne (by decide))) _, nodup, ?_, ?_, ?_, ?_, calm⟩
    all_goals grind [update_apply]
  | write q i v =>
    cases next
    have here : s.status q = .held := holder
    refine ⟨chain.update (out (here.trans_ne (by decide))) _, nodup, range, free, ?_, ?_, calm⟩
    all_goals simp only [Mem.setWord, setWord]
    all_goals grind [update_apply]

end Refines

theorem kmem_refines_page_list {words : Words} {as : List Act} (pos : 0 < kernelEnd)
    (run : Run (step kernelEnd) Holder (init kernelEnd words) as s) : Refines kernelEnd s ∧
      (Vm.kalloc s.mem).map Prod.fst =
        if s.freelist = 0 then none else some (s.freelist / pgsize) := by
  have h : Refines kernelEnd s := by
    refine run.invariant (fun s a s' h => h.step pos) ⟨rfl, nodup_nil, ?_, ?_, ?_, ?_, rfl⟩
    all_goals grind [init]
  refine ⟨h, ?_⟩
  rcases h.head pos with ⟨list, empty⟩ | ⟨some, rest, list, -⟩
  · simp [Vm.kalloc, list, empty]
  · simp [Vm.kalloc, list, some]

instance (s : State) (a : Act) : Decidable (Holder s a) := by
  unfold Holder
  split <;> infer_instance

/-- The first page is allocated while the second is being freed. -/
theorem freed_page_is_listed : 0 < pgsize ∧ ∃ s, Run (step pgsize) Holder
    (init pgsize fun _ _ => 0)
    [.kfree pgsize, .push 1, .kfree (2 * pgsize), .kalloc, .push 2, .memset 1] s ∧
      s.mem.free = [2] ∧ Refines pgsize s := by
  refine ⟨by decide, Run.exists_with (P := fun s => s.mem.free = [2]) (by decide +kernel)
    fun s run free => ?_⟩
  exact ⟨free, (kmem_refines_page_list (by decide) run).1⟩

end Xv6.Kalloc
