import Mathlib.Data.Int.Order.Basic
import Mathlib.Logic.Function.Basic

/-! The spin locks of `kernel/spinlock.c` and the interrupt state they keep on
every CPU, over any type of locks. `acquire` is one step: it has the lock as soon
as the swap finds it free, and a call that would go on spinning has no result. -/
namespace Xv6
/-- Why a function of the kernel does not return. `spin` is no error: the lock is
held by another CPU. `fault` is a load or store through a null pointer, all
others are the panics of `acquire`, `release`, `pop_off` and `sched`. -/
inductive Stop where
  | spin
  | fault
  | acquire
  | release
  | popOffInterruptible
  | popOff
  | schedLock
  | schedLocks
  | schedRunning
  | schedInterruptible
  deriving DecidableEq, Repr

/-- `noff` and `intena` of `struct cpu`, and the interrupt enable bit of the CPU. -/
structure Hart where
  noff : Int
  intena : Bool
  intr : Bool
  deriving DecidableEq, Repr

namespace Hart
def pushOff (h : Hart) : Hart where
  noff := h.noff + 1
  intena := if h.noff = 0 then h.intr else h.intena
  intr := false

def popOff (h : Hart) : Except Stop Hart :=
  if h.intr then .error .popOffInterruptible
  else if h.noff < 1 then .error .popOff
  else .ok { h with noff := h.noff - 1, intr := h.noff - 1 = 0 ∧ h.intena }

structure Balanced (h : Hart) : Prop where
  nonneg : 0 ≤ h.noff
  off : h.intr = true → h.noff = 0

/-- The interrupt state after `push_off` and the matching `pop_off`: the old one, but
for the copy of the enable bit. -/
def settle (h : Hart) : Hart :=
  { h with intena := if h.noff = 0 then h.intr else h.intena }

lemma balanced_settle {h : Hart} (b : h.Balanced) : h.settle.Balanced := ⟨b.nonneg, b.off⟩

lemma popOff_pushOff {h : Hart} (b : h.Balanced) : h.pushOff.popOff = .ok h.settle := by
  have nonneg := b.nonneg
  have bit : decide (h.noff = 0 ∧ (if h.noff = 0 then h.intr else h.intena) = true) = h.intr := by
    by_cases zero : h.noff = 0
    · simp only [zero, if_true, true_and, Bool.decide_eq_true]
    have off : h.intr = false := Bool.eq_false_iff.mpr fun on => zero (b.off on)
    simp only [zero, false_and, decide_false, off]
  simp only [popOff, pushOff, settle, Bool.false_eq_true, if_false, Int.add_sub_cancel, bit]
  exact if_neg (by omega)

end Hart

structure Spinlock (n : Nat) where
  locked : Bool
  cpu : Option (Fin n)
  deriving DecidableEq, Repr

structure Locks (L : Type) (n : Nat) where
  hart : Fin n → Hart
  lock : L → Spinlock n

namespace Locks
variable {L : Type} {n : Nat}

@[simps] def setHart (s : Locks L n) (c : Fin n) (h : Hart) : Locks L n :=
  { s with hart := Function.update s.hart c h }

def pushOff (s : Locks L n) (c : Fin n) : Locks L n := s.setHart c (s.hart c).pushOff

def popOff (s : Locks L n) (c : Fin n) : Except Stop (Locks L n) :=
  (s.hart c).popOff.map (s.setHart c)

def holding (s : Locks L n) (c : Fin n) (l : L) : Bool :=
  (s.lock l).locked ∧ (s.lock l).cpu = some c

lemma popOff_pushOff {s : Locks L n} {c : Fin n} (b : (s.hart c).Balanced) :
    (s.pushOff c).popOff c = .ok (s.setHart c (s.hart c).settle) := by
  simp only [popOff, pushOff, setHart, Function.update_self, Hart.popOff_pushOff b, Except.map,
    Function.update_idem]

variable [DecidableEq L] {s s' : Locks L n} {c : Fin n} {k l : L}

@[simps] def setLock (s : Locks L n) (l : L) (x : Spinlock n) : Locks L n :=
  { s with lock := Function.update s.lock l x }

def acquire (s : Locks L n) (c : Fin n) (l : L) : Except Stop (Locks L n) :=
  let s := s.pushOff c
  if s.holding c l then .error .acquire
  else if (s.lock l).locked then .error .spin
  else .ok (s.setLock l ⟨true, some c⟩)

def release (s : Locks L n) (c : Fin n) (l : L) : Except Stop (Locks L n) :=
  if s.holding c l then (s.setLock l ⟨false, none⟩).popOff c else .error .release

lemma holding_setLock (s : Locks L n) (x : Spinlock n) : (s.setLock l x).holding c k = if k =
    l then decide (x.locked ∧ x.cpu = some c) else s.holding c k := by
  simp only [holding, setLock, Function.update_apply]
  split_ifs <;> rfl

lemma acquire_eq_ok : s.acquire c l = .ok s' ↔ (s.lock l).locked = false ∧
    s' = (s.pushOff c).setLock l ⟨true, some c⟩ := by
  have same : (s.pushOff c).lock = s.lock := rfl
  simp only [acquire, holding, same]
  cases (s.lock l).locked with
  | false => simp [eq_comm]
  | true => split_ifs <;> simp_all

lemma free_of_not_spin (held : s.holding c l = false) (got : s.acquire c l ≠ .error .spin) :
    (s.lock l).locked = false := by
  have held' : (s.pushOff c).holding c l = false := held
  by_contra locked
  refine got ?_
  simp only [acquire, held', Bool.false_eq_true, if_false]
  exact if_pos (Bool.not_eq_false _ ▸ locked)

lemma release_acquire (b : (s.hart c).Balanced) (got : s.acquire c l = .ok s') :
    s'.release c l = .ok ((s.setHart c (s.hart c).settle).setLock l ⟨false, none⟩) := by
  obtain ⟨-, rfl⟩ := acquire_eq_ok.mp got
  have mine : ((s.pushOff c).setLock l ⟨true, some c⟩).holding c l = true := by
    simp only [holding_setLock, if_true, and_self, decide_true]
  have drop : ((s.pushOff c).setLock l ⟨true, some c⟩).setLock l ⟨false, none⟩ =
      (s.setLock l ⟨false, none⟩).pushOff c := by
    simp only [setLock, pushOff, setHart, Function.update_idem]
  rw [release, mine, if_pos rfl, drop, popOff_pushOff (s := s.setLock l ⟨false, none⟩) b]
  rfl

end Locks
end Xv6
