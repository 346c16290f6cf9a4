import Xv6.UserMemory
import Xv6.Interleaving
import Mathlib.Data.UInt

/-! `sys_sbrk` and `growproc` for any number of threads of one process. The read of `p->sz`
in `sys_sbrk`, the one in `growproc`, the call of `uvmalloc` or `uvmdealloc` and the store
to `p->sz` are one step each; no lock protects them. -/
namespace Xv6.Sbrk
open Interleaving List
open Function (update update_of_ne update_self)

/-- The next step of a thread, with what it has read: the argument, the result of
`sys_sbrk` if it succeeds, and the local `sz` of `growproc`. -/
inductive Pc where
  | user
  | read (n : Int) (addr : Nat)
  | grow (n : Int) (addr sz : Nat)
  | store (n : Int) (addr sz : Nat)
  deriving DecidableEq, Repr

/-- `log` are the calls that have succeeded: what they returned, and their argument. -/
structure State (k : Nat) where
  sz : Nat
  mapped : Finset Nat
  pc : Fin k → Pc
  a0 : Fin k → Int
  log : List (Nat × Int)
  panicked : Option VmPanic

/-- `grow avail` is the step of `uvmalloc`, with memory for `avail` more pages. -/
inductive Act where
  | call (arg : UInt64)
  | go
  | grow (avail : Nat)
  deriving DecidableEq, Repr

structure Label (k : Nat) where
  thread : Fin k
  act : Act
  deriving DecidableEq

/-- The register as an `int`. -/
def argint (arg : UInt64) : Int := (arg.toNat : Int).bmod (2 ^ 32)

/-- `sz + n` as a `uint64`. -/
def addSize (sz : Nat) (n : Int) : Nat := ((sz + n) % 2 ^ 64).toNat

namespace State
variable {k : Nat}

@[simps] def goto (s : State k) (t : Fin k) (pc : Pc) : State k :=
  { s with pc := update s.pc t pc }

@[simps] def setMapped (s : State k) (m : Finset Nat) : State k := { s with mapped := m }

@[simps] def panic (s : State k) (why : VmPanic) : State k := { s with panicked := some why }

@[simps] def fail (s : State k) (t : Fin k) : State k :=
  { s with pc := update s.pc t .user, a0 := update s.a0 t (-1) }

@[simps] def succeed (s : State k) (t : Fin k) (n : Int) (addr sz : Nat) : State k :=
  { s with
    sz
    log := (addr, n) :: s.log
    pc := update s.pc t .user
    a0 := update s.a0 t addr }

end State

variable {k : Nat}

def grow (s : State k) (t : Fin k) (n : Int) (addr sz avail : Nat) : State k :=
  if 0 < n then
    match uvmalloc s.mapped avail sz (addSize sz n) with
    | .error why => s.panic why
    | .ok (0, m) => (s.setMapped m).fail t
    | .ok (z, m) => (s.setMapped m).goto t (.store n addr z)
  else if n < 0 then
    match uvmdealloc s.mapped sz (addSize sz n) with
    | .error why => s.panic why
    | .ok (z, m) => (s.setMapped m).goto t (.store n addr z)
  else s.goto t (.store n addr sz)

def threadStep (s : State k) (t : Fin k) : Pc → Act → Option (State k)
  | .user, .call arg => some (s.goto t (.read (argint arg) s.sz))
  | .read n addr, .go => some (s.goto t (.grow n addr s.sz))
  | .grow n addr sz, .grow avail =>
    if s.mapped.card + avail ≤ PHYSPAGES then some (grow s t n addr sz avail) else none
  | .store n addr sz, .go => some (s.succeed t n addr sz)
  | _, _ => none

def step (s : State k) (l : Label k) : Option (State k) :=
  if s.panicked = none then threadStep s l.thread (s.pc l.thread) l.act else none

def init (k sz : Nat) : State k where
  sz
  mapped := Finset.range (pages sz)
  pc _ := .user
  a0 _ := 0
  log := []
  panicked := none

def Grows (_ : State k) (l : Label k) : Prop :=
  match l.act with
  | .call arg => 0 < argint arg
  | _ => True

/-- All calls ask for more memory, and no call starts while another thread is inside one. -/
def Alone (s : State k) (l : Label k) : Prop :=
  match l.act with
  | .call arg => 0 < argint arg ∧ ∀ u, u ≠ l.thread → s.pc u = .user
  | _ => True

instance (s : State k) (l : Label k) : Decidable (Grows s l) := by
  unfold Grows
  split <;> infer_instance

instance (s : State k) (l : Label k) : Decidable (Alone s l) := by
  unfold Alone
  split <;> infer_instance

lemma argint_lt (arg : UInt64) : argint arg < 2 ^ 31 := by
  have below : argint arg < ((2 ^ 32 : Nat) + 1) / 2 := Int.bmod_lt (Nat.two_pow_pos 32)
  omega

/-- What the thread that is inside `sbrk` has read and done. -/
def Fresh (s : State k) : Pc → Prop
  | .user => False
  | .read n addr => 0 < n ∧ n < 2 ^ 31 ∧ addr = s.sz ∧ s.mapped = Finset.range (pages s.sz)
  | .grow n addr sz => 0 < n ∧ n < 2 ^ 31 ∧ addr = s.sz ∧ sz = s.sz ∧
      s.mapped = Finset.range (pages s.sz)
  | .store n addr sz => 0 < n ∧ addr = s.sz ∧ (sz : Int) = s.sz + n ∧
      s.mapped = Finset.range (pages sz)

inductive Phase (s : State k) : Prop
  | idle (user : ∀ t, s.pc t = .user) (mapped : s.mapped = Finset.range (pages s.sz))
  | inside (t : Fin k) (others : ∀ u, u ≠ t → s.pc u = .user) (fresh : Fresh s (s.pc t))

def Disjoint (x y : Nat × Int) : Prop := x.1 + x.2 ≤ y.1 ∨ y.1 + y.2 ≤ (x.1 : Int)

structure Grown (sz : Nat) (s : State k) : Prop where
  phase : Phase s
  fits : s.mapped.card ≤ PHYSPAGES
  sum : (s.sz : Int) = sz + (s.log.map Prod.snd).sum
  below : ∀ x ∈ s.log, x.1 + x.2 ≤ (s.sz : Int)
  disjoint : s.log.Pairwise Disjoint
  fine : s.panicked = none

variable {sz : Nat} {s s' : State k} {t : Fin k}

lemma Phase.fresh (h : Phase s) (inside : s.pc t ≠ .user) :
    (∀ u, u ≠ t → s.pc u = .user) ∧ Fresh s (s.pc t) := by
  cases h with
  | idle user mapped => exact absurd (user t) inside
  | inside u others fresh => grind

lemma Phase.mapped (h : Phase s) (user : ∀ t, s.pc t = .user) :
    s.mapped = Finset.range (pages s.sz) := by
  cases h with
  | idle _ mapped => exact mapped
  | inside t _ fresh =>
    rw [user t] at fresh
    exact fresh.elim

lemma Phase.goto {pc : Pc} (others : ∀ u, u ≠ t → s.pc u = .user) (fresh : Fresh s pc) :
    Phase (s.goto t pc) := by
  refine .inside t (fun u other => ?_) ?_
  · rw [State.goto_pc, update_of_ne other]
    exact others u other
  rw [State.goto_pc, update_self]
  cases pc <;> exact fresh

variable {n : Int}

lemma addSize_eq {sz : Nat} (pos : 0 < n) (small : n < 2 ^ 31) (fits : pages sz ≤ PHYSPAGES) :
    (addSize sz n : Int) = sz + n := by
  unfold pages PHYSPAGES PGSIZE at fits
  unfold addSize
  omega

/-- The middle of `growproc` on fresh data: it succeeds if there is memory, and otherwise
has no effect. -/
lemma grow_eq {avail : Nat} (pos : 0 < n) (small : n < 2 ^ 31)
    (mapped : s.mapped = Finset.range (pages s.sz)) (fits : s.mapped.card + avail ≤ PHYSPAGES) :
    grow s t n s.sz s.sz avail = if pages (addSize s.sz n) ≤ pages s.sz +
    avail then (s.setMapped (Finset.range (pages (addSize s.sz n)))).goto t
    (.store n s.sz (addSize s.sz n)) else s.fail t := by
  rw [mapped, Finset.card_range] at fits
  have size := addSize_eq pos small (by omega : pages s.sz ≤ PHYSPAGES)
  obtain ⟨m, new⟩ : ∃ m, addSize s.sz n = m + 1 := ⟨addSize s.sz n - 1, by omega⟩
  rw [grow, if_pos pos, mapped, uvmalloc_range (by omega) fits]
  split_ifs with enough
  · rw [new]
    rfl
  have same : s.setMapped (Finset.range (pages s.sz)) = s := by
    rw [← mapped]
    rfl
  exact congrArg (State.fail · t) same

lemma Grown.goto (h : Grown sz s) {pc : Pc} (phase : Phase (s.goto t pc)) :
    Grown sz (s.goto t pc) := ⟨phase, h.fits, h.sum, h.below, h.disjoint, h.fine⟩

lemma Grown.read (h : Grown sz s) {addr : Nat} (pc : s.pc t = .read n addr) :
    Grown sz (s.goto t (.grow n addr s.sz)) := by
  obtain ⟨others, fresh⟩ := h.phase.fresh (t := t) (pc ▸ Pc.noConfusion)
  rw [pc] at fresh
  obtain ⟨pos, small, rfl, mapped⟩ := fresh
  exact h.goto (.goto others ⟨pos, small, rfl, rfl, mapped⟩)

lemma Grown.grow (h : Grown sz s) {addr z avail : Nat} (pc : s.pc t = .grow n addr z)
    (fits : s.mapped.card + avail ≤ PHYSPAGES) : Grown sz (grow s t n addr z avail) := by
  obtain ⟨others, fresh⟩ := h.phase.fresh (t := t) (pc ▸ Pc.noConfusion)
  rw [pc] at fresh
  obtain ⟨pos, small, rfl, rfl, mapped⟩ := fresh
  rw [grow_eq pos small mapped fits]
  have pagesFit : pages s.sz + avail ≤ PHYSPAGES := by
    rw [mapped, Finset.card_range] at fits
    exact fits
  split_ifs with enough
  · refine ⟨.goto others ⟨pos, rfl, addSize_eq pos small (by omega), rfl⟩, ?_, h.sum, h.below,
      h.disjoint, h.fine⟩
    rw [State.goto_mapped, State.setMapped_mapped, Finset.card_range]
    omega
  refine ⟨.idle (fun u => ?_) mapped, h.fits, h.sum, h.below, h.disjoint, h.fine⟩
  by_cases own : u = t
  · rw [own, State.fail_pc, update_self]
  rw [State.fail_pc, update_of_ne own]
  exact others u own

lemma Grown.store (h : Grown sz s) {addr z : Nat} (pc : s.pc t = .store n addr z) :
    Grown sz (s.succeed t n addr z) := by
  obtain ⟨others, fresh⟩ := h.phase.fresh (t := t) (pc ▸ Pc.noConfusion)
  rw [pc] at fresh
  obtain ⟨pos, rfl, size, mapped⟩ := fresh
  have sum := h.sum
  refine ⟨.idle (fun u => ?_) mapped, h.fits, ?_, ?_, ?_, h.fine⟩
  · by_cases own : u = t
    · rw [own, State.succeed_pc, update_self]
    rw [State.succeed_pc, update_of_ne own]
    exact others u own
  · simp only [State.succeed_sz, State.succeed_log, map_cons, sum_cons]
    omega
  · intro x mem
    rw [State.succeed_sz]
    rcases mem_cons.mp mem with rfl | old
    · exact size.ge
    have := h.below x old
    omega
  exact pairwise_cons.mpr ⟨fun x mem => .inr (h.below x mem), h.disjoint⟩

lemma Grown.threadStep (h : Grown sz s) {a : Act} (guard : Alone s ⟨t, a⟩)
    (next : threadStep s t (s.pc t) a = some s') : Grown sz s' := by
  generalize pc : s.pc t = pos at next
  cases pos with
  | user =>
    cases a with
    | call arg =>
      cases next
      have user : ∀ u, s.pc u = .user := fun u => by
        by_cases own : u = t
        · rw [own, pc]
        exact guard.2 u own
      exact h.goto (.goto guard.2 ⟨guard.1, argint_lt arg, rfl, h.phase.mapped user⟩)
    | _ => exact nomatch next
  | read n addr =>
    cases a with
    | go =>
      cases next
      exact h.read pc
    | _ => exact nomatch next
  | grow n addr z =>
    cases a with
    | grow avail =>
      obtain ⟨fits, rfl⟩ := guarded.mp next
      exact h.grow pc fits
    | _ => exact nomatch next
  | store n addr z =>
    cases a with
    | go =>
      cases next
      exact h.store pc
    | _ => exact nomatch next

lemma grown_init (fits : pages sz ≤ PHYSPAGES) : Grown sz (init k sz) where
  phase := .idle (fun _ => rfl) rfl
  fits := (Finset.card_range _).trans_le fits
  sum := (add_zero _).symm
  below := nofun
  disjoint := .nil
  fine := rfl

/-- As long as no two calls overlap in time, `sbrk` does not panic, the size is the sum of
the calls that succeeded, and the memory they returned is disjoint. -/
theorem sbrk_adds_up (k sz : Nat) (fits : pages sz ≤ PHYSPAGES) (as : List (Label k)) (s : State k)
    (run : Run step Alone (init k sz) as s) :
    s.panicked = none ∧
    ((∀ t, s.pc t = .user) → (s.sz : Int) = sz + (s.log.map Prod.snd).sum) ∧
    s.log.Pairwise Disjoint := by
  have grown : Grown sz s := by
    refine Run.invariant (I := Grown sz) (fun x l y h guard next => ?_) run (grown_init fits)
    obtain ⟨-, next⟩ := Option.ite_none_right_eq_some.mp next
    exact h.threadStep guard next
  exact ⟨grown.fine, fun _ => grown.sum, grown.disjoint⟩

/-- The thread calls `sbrk` and is left alone. -/
def sbrk (t : Fin 2) (n : UInt64) (avail : Nat) : List (Label 2) :=
  [⟨t, .call n⟩, ⟨t, .go⟩, ⟨t, .grow avail⟩, ⟨t, .go⟩]

theorem sbrk_twice_adds_up : ∃ s, Run step Alone (init 2 4000) (sbrk 0 10 1 ++ sbrk 1 4096 1) s ∧
    s.sz = 8106 ∧ s.log.Pairwise Disjoint := by
  refine Run.exists_with (P := fun s => (∀ t, s.pc t = .user) ∧ s.log = [(4010, 4096), (4000, 10)])
    (by decide +kernel) fun s run ⟨user, log⟩ => ?_
  obtain ⟨-, sum, disjoint⟩ := sbrk_adds_up 2 4000 (by decide) _ s run
  have size := sum user
  simp only [log, map_cons, map_nil, sum_cons, sum_nil] at size
  exact ⟨by omega, disjoint⟩

def bothRead (n : UInt64) : List (Label 2) :=
  [⟨0, .call n⟩, ⟨1, .call n⟩, ⟨0, .go⟩, ⟨1, .go⟩, ⟨0, .grow 1⟩, ⟨1, .grow 1⟩]

/-- With a page each, the second call maps the page once more and panics. With a few bytes
each, both return the same address and the size grows once. -/
theorem bothRead_remaps_or_overlaps :
    (∃ s, Run step Grows (init 2 4096) (bothRead 4096) s ∧ s.panicked = some .remap) ∧
    ∃ s, Run step Grows (init 2 4000) (bothRead 10 ++ [⟨0, .go⟩, ⟨1, .go⟩]) s ∧
      (∀ t, s.pc t = .user) ∧ s.log = [(4000, 10), (4000, 10)] ∧ s.sz = 4010 :=
  ⟨Run.exists_of_execute (by decide +kernel), Run.exists_of_execute (by decide +kernel)⟩

end Xv6.Sbrk
