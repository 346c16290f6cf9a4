import Mathlib.Data.Fintype.Prod
import Mathlib.Data.UInt

/-! The thread table of `kernel/kthread.h` and `kernel/proc.h`, and what the
functions of `kernel/kthread.c` write into one entry of it. Every machine below
moves entries by these functions only. The C `int`s that are counters or ids are
integers: signed overflow is undefined in C and is not given a meaning here. -/
namespace Xv6
def NPROC : Nat := 64
def NKT : Nat := 10

abbrev ProcId := Fin NPROC

/-- A `struct kthread *`: the process owning the table and the index in it. -/
abbrev KtId := ProcId × Fin NKT

/-- The entry that the scans over the whole process table reach after `m` others. -/
def ktAt (m : Nat) (h : m < NPROC * NKT) : KtId :=
  (⟨m / NKT, Nat.div_lt_of_lt_mul (by rw [Nat.mul_comm]; exact h)⟩,
    ⟨m % NKT, Nat.mod_lt m (by decide)⟩)

inductive ThreadState where
  | unused
  | used
  | sleeping
  | runnable
  | running
  | zombie
  deriving DecidableEq, Repr

inductive ProcState where
  | unused
  | used
  | zombie
  deriving DecidableEq, Repr

/-- The kernel addresses that threads sleep on: a `struct kthread` in
`kthread_join`, a `struct proc` in `wait`, and any other object of the kernel. -/
inductive Chan where
  | kthread (k : KtId)
  | proc (p : ProcId)
  | other (addr : Nat)
  deriving DecidableEq, Repr

/-- `struct kthread` less its lock, its kernel stack and its saved context. -/
structure Kthread where
  tState : ThreadState
  chan : Option Chan
  tKilled : Bool
  tXstate : Int
  tid : Int
  process : Option ProcId
  trapframe : Option KtId
  deriving DecidableEq, Repr

/-- The registers of a trapframe that `kthread_create` writes. -/
structure Trapframe where
  epc : UInt64
  sp : UInt64
  deriving DecidableEq

namespace Kthread
def Live (t : Kthread) : Prop := t.tState ≠ .unused ∧ t.tState ≠ .zombie

instance (t : Kthread) : Decidable t.Live := inferInstanceAs (Decidable (_ ∧ _))

def Dead (t : Kthread) : Prop := ¬ t.Live

instance (t : Kthread) : Decidable t.Dead := inferInstanceAs (Decidable (¬ _))

/-- An entry after `kthreadinit`; the table is zero-initialised memory. -/
def kthreadinit (k : KtId) : Kthread where
  tState := .unused
  chan := none
  tKilled := false
  tXstate := 0
  tid := 0
  process := some k.1
  trapframe := none

/-- What `allockthread` writes into the free entry it takes. The kill flag, the
channel and the exit status are left as they are. -/
def allockthread (t : Kthread) (k : KtId) (tid : Int) : Kthread :=
  { t with tid, tState := .used, process := some k.1, trapframe := some k }

def freethread (t : Kthread) : Kthread :=
  { t with
    chan := none
    tKilled := false
    tXstate := 0
    tState := .unused
    tid := 0
    process := none
    trapframe := none }

/-- The body of the loop of `wakeup` for an entry other than the caller's. -/
def wakeup (t : Kthread) (chan : Chan) : Kthread :=
  if t.tState = .sleeping ∧ t.chan = some chan then { t with tState := .runnable } else t

/-- The body of `kthread_kill` for the entry with the given id. -/
def kthreadKill (t : Kthread) : Kthread :=
  { t with tKilled := true, tState := if t.tState = .sleeping then .runnable else t.tState }

def sleep (t : Kthread) (chan : Chan) : Kthread :=
  { t with chan := some chan, tState := .sleeping }

/-- The stores of `kthread_exit`, and those of the last loop of `exit`. -/
def exit (t : Kthread) (status : Int) : Kthread :=
  { t with tState := .zombie, tXstate := status }

lemma dead_iff {t : Kthread} : t.Dead ↔ t.tState = .unused ∨ t.tState = .zombie := by
  unfold Dead Live
  cases t.tState <;> simp

lemma live_of_running {t : Kthread} (h : t.tState = .running) : t.Live := by
  unfold Live
  rw [h]
  exact ⟨ThreadState.noConfusion, ThreadState.noConfusion⟩

lemma dead_freethread (t : Kthread) : t.freethread.Dead := dead_iff.mpr (.inl rfl)

lemma dead_exit (t : Kthread) (status : Int) : (t.exit status).Dead := dead_iff.mpr (.inr rfl)

lemma wakeup_eq_or (t : Kthread) (chan : Chan) : t.wakeup chan = t ∨ (t.tState = .sleeping ∧
    t.chan = some chan) ∧ t.wakeup chan = { t with tState := .runnable } := by
  unfold wakeup
  split_ifs with h
  · exact .inr ⟨h, rfl⟩
  exact .inl rfl

end Kthread
end Xv6
