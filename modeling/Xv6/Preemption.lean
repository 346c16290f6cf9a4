import Xv6.Spinlock
import Xv6.KthreadMachine

/-! Preemption: `usertrap` and `kerneltrap` of `kernel/trap.c` after `devintr`, and
`yield` and `sched` of `kernel/proc.c` up to the `swtch`. `yield` locks and moves
the first entry of the thread table of the process, `sched` looks at the current
thread, and the guard of `kerneltrap` at the first entry again. -/
namespace Xv6
open Interleaving Locks
open Function (update update_self)

/-- The spin locks: `p->lock`, `kt->t_lock`, and all others of the kernel. -/
inductive LockId where
  | proc (p : ProcId)
  | thread (k : KtId)
  | other (addr : Nat)
  deriving DecidableEq, Repr

/-- The state that the trap handlers read: `kthread` is `c->kthread`. -/
structure Kernel (n : Nat) where
  locks : Locks LockId n
  kthread : Fin n → Option KtId
  kt : KtId → Kthread
  killed : ProcId → Bool

namespace Kernel
variable {n : Nat}

@[simps] def setLocks (s : Kernel n) (locks : Locks LockId n) : Kernel n := { s with locks }

def acquire (s : Kernel n) (c : Fin n) (l : LockId) : Except Stop (Kernel n) :=
  (s.locks.acquire c l).map s.setLocks

def release (s : Kernel n) (c : Fin n) (l : LockId) : Except Stop (Kernel n) :=
  (s.locks.release c l).map s.setLocks

@[simps] def setState (s : Kernel n) (k : KtId) (state : ThreadState) : Kernel n :=
  { s with kt := update s.kt k { s.kt k with tState := state } }

/-- The frame of `myproc` and `mykthread`: a value read with interrupts off. -/
def readOff {α : Type} (s : Kernel n) (c : Fin n) (x : α) : Except Stop (α × Kernel n) :=
  ((s.locks.pushOff c).popOff c).map fun locks => (x, s.setLocks locks)

def mykthread (s : Kernel n) (c : Fin n) : Except Stop (Option KtId × Kernel n) :=
  s.readOff c (s.kthread c)

def myproc (s : Kernel n) (c : Fin n) : Except Stop (Option ProcId × Kernel n) :=
  s.readOff c ((s.kthread c).bind fun k => (s.kt k).process)

/-- The frame of `killed` and `t_killed`: a flag read under a lock. -/
def readLocked (s : Kernel n) (c : Fin n) (l : LockId) (x : Bool) :
    Except Stop (Bool × Kernel n) := do
  let s ← s.acquire c l
  let s ← s.release c l
  return (x, s)

def isKilled (s : Kernel n) (c : Fin n) (p : ProcId) : Except Stop (Bool × Kernel n) :=
  s.readLocked c (.proc p) (s.killed p)

def tKilled (s : Kernel n) (c : Fin n) (k : KtId) : Except Stop (Bool × Kernel n) :=
  s.readLocked c (.thread k) (s.kt k).tKilled

/-- A pointer that the C code follows without a test. -/
def deref {α : Type} : Option α → Except Stop α
  | some x => .ok x
  | none => .error .fault

def sched (s : Kernel n) (c : Fin n) : Except Stop (Kernel n) := do
  let (t, s) ← s.mykthread c
  let t ← deref t
  if !s.locks.holding c (.thread t) then throw .schedLock
  else if (s.locks.hart c).noff ≠ 1 then throw .schedLocks
  else if (s.kt t).tState = .running then throw .schedRunning
  else if (s.locks.hart c).intr then throw .schedInterruptible
  else return s

def yield (s : Kernel n) (c : Fin n) : Except Stop (Kernel n) := do
  let (p, s) ← s.myproc c
  let p ← deref p
  let s ← s.acquire c (.thread (p, slot0))
  (s.setState (p, slot0) .runnable).sched c

end Kernel

inductive Then where
  | exit
  | kthreadExit
  | yield
  | ret
  deriving DecidableEq, Repr

inductive TrapMode where
  | user
  | kernel
  deriving DecidableEq, Repr

namespace Kernel
variable {n : Nat}

/-- `usertrap` from the first test of the kill flags after `devintr` on. -/
def usertrap (s : Kernel n) (c : Fin n) (whichDev : Int) : Except Stop (Then × Kernel n) := do
  let (p, s) ← s.myproc c
  let (kt, s) ← s.mykthread c
  let p ← deref p
  let (killed, s) ← s.isKilled c p
  if killed then return (.exit, s)
  let kt ← deref kt
  let (tKilled, s) ← s.tKilled c kt
  if tKilled then return (.kthreadExit, s)
  if whichDev = 2 then return (.yield, s)
  return (.ret, s)

def kerneltrap (s : Kernel n) (c : Fin n) (whichDev : Int) : Except Stop (Then × Kernel n) := do
  if whichDev ≠ 2 then return (.ret, s)
  let (p, s) ← s.myproc c
  if p = none then return (.ret, s)
  let (p, s) ← s.myproc c
  let p ← deref p
  if (s.kt (p, slot0)).tState = .running then return (.yield, s)
  return (.ret, s)

def trap (s : Kernel n) (c : Fin n) (whichDev : Int) : TrapMode → Except Stop (Then × Kernel n)
  | .user => s.usertrap c whichDev
  | .kernel => s.kerneltrap c whichDev

/-- A trap is taken with interrupts on, so outside of every section under a spin
lock, and turns them off. The thread `kt` is current. -/
structure AtTrap (s : Kernel n) (c : Fin n) (kt : KtId) : Prop where
  current : s.kthread c = some kt
  process : (s.kt kt).process = some kt.1
  noff : (s.locks.hart c).noff = 0
  intr : (s.locks.hart c).intr = false
  free : ∀ l, s.locks.holding c l = false

/-- The thread `kt` goes from `RUNNING_t` to `RUNNABLE_t` under its own lock, all
others stay, and `sched` comes to its `swtch`. -/
def Preempts (s : Kernel n) (c : Fin n) (kt : KtId) : Prop :=
  ∃ s', s.yield c = .ok s' ∧ (s.kt kt).tState = .running ∧
    s'.kt = update s.kt kt { s.kt kt with tState := .runnable } ∧
      s'.locks.holding c (.thread kt) = true

def settle (s : Kernel n) (c : Fin n) : Kernel n :=
  s.setLocks (s.locks.setHart c (s.locks.hart c).settle)

variable {s s' : Kernel n} {c : Fin n} {kt : KtId} {l : LockId}

lemma AtTrap.balanced (h : s.AtTrap c kt) : (s.locks.hart c).Balanced :=
  ⟨h.noff.ge, fun on => absurd (h.intr.symm.trans on) Bool.false_ne_true⟩

lemma AtTrap.settle (h : s.AtTrap c kt) : (s.settle c).AtTrap c kt where
  current := h.current
  process := h.process
  noff := by
    simp only [Kernel.settle, setLocks, setHart, update_self, Hart.settle, h.noff]
  intr := by
    simp only [Kernel.settle, setLocks, setHart, update_self, Hart.settle, h.intr]
  free := h.free

lemma AtTrap.setLock (h : s.AtTrap c kt) :
    (s.setLocks (s.locks.setLock l ⟨false, none⟩)).AtTrap c kt where
  current := h.current
  process := h.process
  noff := h.noff
  intr := h.intr
  free k := by
    rw [setLocks_locks, holding_setLock]
    split_ifs with same
    · rfl
    exact h.free k

lemma readOff_eq {α : Type} (b : (s.locks.hart c).Balanced) (x : α) :
    s.readOff c x = .ok (x, s.settle c) := by
  rw [readOff, popOff_pushOff b]
  rfl

lemma AtTrap.myproc (h : s.AtTrap c kt) : s.myproc c = .ok (some kt.1, s.settle c) := by
  rw [Kernel.myproc, readOff_eq h.balanced, h.current, Option.bind_some, h.process]

lemma AtTrap.mykthread (h : s.AtTrap c kt) : s.mykthread c = .ok (some kt, s.settle c) := by
  rw [Kernel.mykthread, readOff_eq h.balanced, h.current]

lemma AtTrap.readLocked (h : s.AtTrap c kt) {x y : Bool} (ok : s.readLocked c l x = .ok (y, s')) :
    s'.kt = s.kt ∧ s'.AtTrap c kt := by
  simp only [Kernel.readLocked, acquire, bind, Except.bind] at ok
  cases got : s.locks.acquire c l with
  | error stop =>
    rw [got] at ok
    exact nomatch ok
  | ok locks =>
    simp only [got, Except.map, release, setLocks_locks, release_acquire h.balanced got] at ok
    cases ok
    exact ⟨rfl, h.settle.setLock⟩

lemma AtTrap.yield_called (h : s.AtTrap c kt) {mode : TrapMode} {whichDev : Int}
    (ok : s.trap c whichDev mode = .ok (.yield, s')) : s'.kt = s.kt ∧ s'.AtTrap c kt := by
  cases mode with
  | user =>
    simp only [trap, usertrap, h.myproc, h.settle.mykthread, deref, bind, Except.bind] at ok
    cases first : ((s.settle c).settle c).isKilled c kt.1 with
    | error stop =>
      rw [first] at ok
      exact nomatch ok
    | ok v =>
      obtain ⟨kt₁, h₁⟩ := h.settle.settle.readLocked first
      cases second : v.2.tKilled c kt with
      | error stop =>
        simp only [first, second] at ok
        split_ifs at ok
        exact nomatch ok
      | ok w =>
        obtain ⟨kt₂, h₂⟩ := h₁.readLocked second
        simp only [first, second] at ok
        split_ifs at ok <;> cases ok
        exact ⟨kt₂.trans kt₁, h₂⟩
  | kernel =>
    simp only [trap, kerneltrap, h.myproc, h.settle.myproc, deref, bind, Except.bind] at ok
    split_ifs at ok <;> cases ok
    exact ⟨rfl, h.settle.settle⟩

def yielding (s : Kernel n) (c : Fin n) (k : KtId) : Kernel n :=
  (s.setLocks ((s.locks.pushOff c).setLock (.thread k) ⟨true, some c⟩)).setState k .runnable

lemma AtTrap.yield_eq (h : s.AtTrap c kt) (free : (s.locks.lock (.thread (kt.1, slot0))).locked =
    false) : s.yield c = ((s.settle c).yielding c (kt.1, slot0)).sched c := by
  have got : (s.settle c).locks.acquire c (.thread (kt.1, slot0)) = .ok _ :=
    acquire_eq_ok.mpr ⟨free, rfl⟩
  simp only [yield, h.myproc, deref, bind, Except.bind, acquire, got, Except.map]
  rfl

lemma AtTrap.yielding_hart (h : s.AtTrap c kt) (k : KtId) :
    (s.yielding c k).locks.hart c = ⟨1, false, false⟩ := by
  simp only [yielding, setState, setLocks, Locks.setLock, Locks.pushOff, Locks.setHart,
    update_self, Hart.pushOff, h.noff, h.intr, if_true, Int.zero_add]

lemma AtTrap.yielding_holding (h : s.AtTrap c kt) (k : KtId) :
    (s.yielding c k).locks.holding c (.thread kt) = decide (kt = k) := by
  simp only [yielding, setState_locks, setLocks_locks, holding_setLock, LockId.thread.injEq]
  by_cases same : kt = k
  · simp only [same, if_true, and_self, decide_true]
  simp only [same, if_false, decide_false]
  exact h.free _

lemma AtTrap.sched_yielding (h : s.AtTrap c kt) (k : KtId) : (s.yielding c k).sched c = if kt =
    k then .ok ((s.yielding c k).settle c) else .error .schedLock := by
  have hart := h.yielding_hart k
  have balanced : ((s.yielding c k).locks.hart c).Balanced := by
    rw [hart]
    exact ⟨by decide, by decide⟩
  have mine : (s.yielding c k).kthread c = some kt := h.current
  have hart' : ((s.yielding c k).settle c).locks.hart c = ⟨1, false, false⟩ := by
    simp only [Kernel.settle, setLocks, setHart, update_self, hart, Hart.settle]
    rfl
  have held : ((s.yielding c k).settle c).locks.holding c (.thread kt) = decide (kt = k) :=
    h.yielding_holding k
  simp only [sched, Kernel.mykthread, readOff_eq balanced, mine, deref, bind, Except.bind, held, hart']
  by_cases same : kt = k
  · subst same
    have moved : (((s.yielding c kt).settle c).kt kt).tState = .runnable := by
      simp only [Kernel.settle, setLocks_kt, yielding, setState_kt, update_self]
    simp [moved]
    rfl
  simp only [same, decide_false, Bool.not_false, if_true, if_false]
  rfl

/-- A timer interrupt that calls `yield`, and gets the lock it asks for, preempts the
current thread exactly if that is the running first thread of its process. -/
theorem preemption_iff_first_thread (h : s.AtTrap c kt) {mode : TrapMode} {whichDev : Int}
    (called : s.trap c whichDev mode = .ok (.yield, s')) (got : s'.yield c ≠ .error .spin) :
    s'.Preempts c kt ↔ kt.2 = slot0 ∧ (s.kt kt).tState = .running := by
  obtain ⟨table, h'⟩ := h.yield_called called
  have free : (s'.locks.lock (.thread (kt.1, slot0))).locked = false := by
    refine Locks.free_of_not_spin (s := (s'.settle c).locks) (h'.settle.free _) fun spin => got ?_
    simp only [yield, h'.myproc, deref, bind, Except.bind, acquire, spin, Except.map]
  have result := (h'.yield_eq free).trans (h'.settle.sched_yielding _)
  constructor
  · rintro ⟨s₂, ok, running, -, -⟩
    refine ⟨?_, table ▸ running⟩
    by_contra other
    rw [result, if_neg fun same => other (congrArg Prod.snd same)] at ok
    exact nomatch ok
  rintro ⟨first, running⟩
  have same : kt = (kt.1, slot0) := Prod.ext rfl first
  rw [if_pos same] at result
  refine ⟨_, result, table ▸ running, ?_, ?_⟩
  · rw [← same]
    rfl
  · exact (h'.settle.yielding_holding _).trans (decide_eq_true same)

/-- The kernel between two steps of the thread machine, at a trap on some CPU. No
`t_lock` is held there. -/
def ofState (s : State n) : Kernel n where
  locks :=
    { hart := fun _ => ⟨0, false, false⟩
      lock := fun
        | .proc p => ⟨(s.pLock p).isSome, s.pLock p⟩
        | _ => ⟨false, none⟩ }
  kthread c := (s.cpu c).kthread
  kt := s.kt
  killed _ := false

lemma atTrap_ofState {s : State n} (current : (s.cpu c).kthread = some kt)
    (process : (s.kt kt).process = some kt.1) (free : ∀ p, s.pLock p ≠ some c) :
    (ofState s).AtTrap c kt where
  current := current
  process := process
  noff := rfl
  intr := rfl
  free
    | .proc p => decide_eq_false fun held => free p held.2
    | .thread _ => rfl
    | .other _ => rfl

def yieldResult (s : Kernel n) (c : Fin n) (mode : TrapMode) : Option (Except Stop Unit) :=
  match s.trap c 2 mode with
  | .ok (.yield, s') => some ((s'.yield c).map fun _ => ())
  | _ => none

lemma exists_of_yieldResult {mode : TrapMode} {r : Except Stop Unit} (h : s.yieldResult c mode =
    some r) : ∃ s', s.trap c 2 mode = .ok (.yield, s') ∧ (s'.yield c).map (fun _ => ()) = r := by
  unfold yieldResult at h
  split at h
  · next s' eq => exact ⟨s', eq, Option.some.inj h⟩
  exact nomatch h

end Kernel

def bothRunning : List (Label 2) :=
  goes 0 3 ++ [⟨0, .call (.kthreadCreate 0 0 0)⟩] ++ goes 0 3 ++ goes 1 4

theorem bothRunning_preempts_first : ∃ s s', Run step Free (init 2 onlyChild) bothRunning s ∧
    (Kernel.ofState s).trap 0 2 .user = .ok (.yield, s') ∧ s'.Preempts 0 (child, slot0) := by
  refine Run.exists_two_with (P := fun s => (s.cpu 0).kthread = some (child, slot0) ∧
      (s.kt (child, slot0)).process = some child ∧ (∀ p, s.pLock p ≠ some 0) ∧
      (s.kt (child, slot0)).tState = .running ∧
      (Kernel.ofState s).yieldResult 0 .user = some (.ok ()))
    (by decide +kernel) fun s run ⟨here, process, locks, running, result⟩ => ?_
  obtain ⟨s', called, ok⟩ := Kernel.exists_of_yieldResult result
  have got : s'.yield 0 ≠ .error .spin := by
    intro spin
    rw [spin] at ok
    exact nomatch ok
  exact ⟨s', called, (Kernel.preemption_iff_first_thread
    (Kernel.atTrap_ofState here process locks) called got).mpr ⟨rfl, running⟩⟩

/-- The second thread is interrupted in user mode: `yield` has taken the lock of the
first thread and stops in the first check of `sched`. -/
theorem second_thread_panics_in_sched : ∃ s, Run step Free (init 2 onlyChild) bothRunning s ∧
    (s.cpu 1).kthread = some (child, slot1) ∧ (s.kt (child, slot1)).tState = .running ∧
      (Kernel.ofState s).yieldResult 1 .user = some (.error .schedLock) :=
  Run.exists_of_execute (by decide +kernel)

end Xv6
