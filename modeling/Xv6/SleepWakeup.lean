import Xv6.KernelLocks

/-! `sleep` and `wakeup` of `kernel/proc.c` under the scheduler, on any number of CPUs.
Every statement is a step, and so is every call of `acquire`, `release`, `sched` and
`mykthread`. A CPU runs the scheduler or a thread. Threads outside of `sleep` and `wakeup`
take and release spin locks as they like, and turn interrupts on and off while they hold
none. `sched` goes back to the scheduler of the CPU, which then releases the `t_lock` that
the thread has taken. -/
namespace Xv6.SleepWakeup
open Interleaving Kernel
open Function (update update_of_ne update_self)

/-- The next step of `scheduler`. At `back` it returns from the `swtch` to the thread. -/
inductive SchedPc where
  | intrOn
  | proc (p : Nat)
  | slot (p : ProcId) (i : Nat)
  | test (k : KtId)
  | back (k : KtId)
  | release (k : KtId)
  deriving DecidableEq

/-- The next step of a thread: outside of all functions modelled, in `forkret`, in `sleep`
and in `wakeup`. `sleepResume` is the end of `sched`, and `wakeScan` the head of the loop. -/
inductive Pc where
  | user
  | forkret
  | sleepAcquire (chan : Chan) (lk : LockId)
  | sleepRelease (chan : Chan) (lk : LockId)
  | sleepChan (chan : Chan) (lk : LockId)
  | sleepState (chan : Chan) (lk : LockId)
  | sleepSched (chan : Chan) (lk : LockId)
  | sleepResume (lk : LockId) (intena : Bool)
  | sleepTidy (lk : LockId)
  | sleepUnlock (lk : LockId)
  | sleepReacquire (lk : LockId)
  | wakeScan (chan : Chan) (m : Nat)
  | wakeAcquire (chan : Chan) (m : Fin (NPROC * NKT))
  | wakeTest (chan : Chan) (m : Fin (NPROC * NKT))
  | wakeRelease (chan : Chan) (m : Fin (NPROC * NKT))
  deriving DecidableEq

/-- What a CPU executes. A thread is named by the `struct kthread` whose kernel stack is in
use. -/
inductive Cpu where
  | sched (pc : SchedPc)
  | thread (me : KtId) (pc : Pc)
  | stopped (why : Stop)
  deriving DecidableEq

/-- `kt->context`: where the thread goes on, and what `sched` keeps on its stack. -/
inductive Context where
  | forkret
  | sleep (lk : LockId) (intena : Bool)
  deriving DecidableEq

def Context.resume : Context → Pc
  | .forkret => .forkret
  | .sleep lk intena => .sleepResume lk intena

structure State (n : Nat) extends Kernel n where
  procState : ProcId → ProcState
  context : KtId → Context
  cpu : Fin n → Cpu

inductive Call where
  | acquire (l : LockId)
  | release (l : LockId)
  | sleep (chan : Chan) (lk : LockId)
  | wakeup (chan : Chan)
  | intr (on : Bool)
  deriving DecidableEq

inductive Act where
  | go
  | call (k : Call)
  deriving DecidableEq

structure Label (n : Nat) where
  cpu : Fin n
  act : Act
  deriving DecidableEq

variable {n : Nat}

namespace State
def goto (s : State n) (c : Fin n) (x : Cpu) : State n :=
  { s with cpu := update s.cpu c x }

def setKt (s : State n) (k : KtId) (t : Kthread) : State n :=
  { s with kt := update s.kt k t }

def setHart (s : State n) (c : Fin n) (h : Hart) : State n :=
  { s with locks := s.locks.setHart c h }

def setCurrent (s : State n) (c : Fin n) (k : Option KtId) : State n :=
  { s with kthread := update s.kthread c k }

/-- A function of the kernel returns, panics, or goes on spinning. -/
def attempt (s : State n) (c : Fin n) (r : Except Stop (Kernel n)) (x : Cpu) : Option (State n) :=
  match r with
  | .ok k => some ({ s with toKernel := k }.goto c x)
  | .error .spin => none
  | .error why => some (s.goto c (.stopped why))

end State

def dispatch (s : State n) (c : Fin n) (k : KtId) : State n :=
  ((s.setKt k { s.kt k with tState := .running }).setCurrent c (some k)).goto c
    (.thread k (s.context k).resume)

def schedStep (s : State n) (c : Fin n) : SchedPc → Option (State n)
  | .intrOn =>
    some ((s.setHart c { s.locks.hart c with intr := true }).goto c (.sched (.proc 0)))
  | .proc p =>
    if h : p < NPROC then
      some (s.goto c (.sched (if s.procState ⟨p, h⟩ = .used then .slot ⟨p, h⟩ 0
        else .proc (p + 1))))
    else some (s.goto c (.sched .intrOn))
  | .slot p i =>
    if h : i < NKT then
      s.attempt c (s.acquire c (.thread (p, ⟨i, h⟩))) (.sched (.test (p, ⟨i, h⟩)))
    else some (s.goto c (.sched (.proc (p + 1))))
  | .test k =>
    some (if (s.kt k).tState = .runnable then dispatch s c k else s.goto c (.sched (.release k)))
  | .back k => some ((s.setCurrent c none).goto c (.sched (.release k)))
  | .release k => s.attempt c (s.release c (.thread k)) (.sched (.slot k.1 (k.2 + 1)))

def threadStep (s : State n) (c : Fin n) (me : KtId) : Pc → Option (State n)
  | .user => none
  | .forkret => s.attempt c (s.release c (.thread me)) (.thread me .user)
  | .sleepAcquire chan lk =>
    s.attempt c (s.acquire c (.thread me)) (.thread me (.sleepRelease chan lk))
  | .sleepRelease chan lk => s.attempt c (s.release c lk) (.thread me (.sleepChan chan lk))
  | .sleepChan chan lk =>
    some ((s.setKt me { s.kt me with chan := some chan }).goto c
      (.thread me (.sleepState chan lk)))
  | .sleepState chan lk =>
    some ((s.setKt me { s.kt me with tState := .sleeping }).goto c
      (.thread me (.sleepSched chan lk)))
  | .sleepSched _ lk =>
    match s.sched c with
    | .ok k => some { s with
      toKernel := k
      context := update s.context me (.sleep lk (k.locks.hart c).intena)
      cpu := update s.cpu c (.sched (.back me)) }
    | .error why => some (s.goto c (.stopped why))
  | .sleepResume lk intena =>
    some ((s.setHart c { s.locks.hart c with intena }).goto c (.thread me (.sleepTidy lk)))
  | .sleepTidy lk =>
    some ((s.setKt me { s.kt me with chan := none }).goto c (.thread me (.sleepUnlock lk)))
  | .sleepUnlock lk => s.attempt c (s.release c (.thread me)) (.thread me (.sleepReacquire lk))
  | .sleepReacquire lk => s.attempt c (s.acquire c lk) (.thread me .user)
  | .wakeScan chan m =>
    if h : m < NPROC * NKT then
      match s.mykthread c with
      | .ok (t, k) => some ({ s with toKernel := k }.goto c (.thread me
          (if t = some (ktAt m h) then .wakeScan chan (m + 1) else .wakeAcquire chan ⟨m, h⟩)))
      | .error why => some (s.goto c (.stopped why))
    else some (s.goto c (.thread me .user))
  | .wakeAcquire chan m =>
    s.attempt c (s.acquire c (.thread (ktAt m m.isLt))) (.thread me (.wakeTest chan m))
  | .wakeTest chan m =>
    some ((s.setKt (ktAt m m.isLt) ((s.kt (ktAt m m.isLt)).wakeup chan)).goto c
      (.thread me (.wakeRelease chan m)))
  | .wakeRelease chan m =>
    s.attempt c (s.release c (.thread (ktAt m m.isLt))) (.thread me (.wakeScan chan (m + 1)))

def call (s : State n) (c : Fin n) (me : KtId) : Call → Option (State n)
  | .acquire l => s.attempt c (s.acquire c l) (.thread me .user)
  | .release l => s.attempt c (s.release c l) (.thread me .user)
  | .sleep chan lk => some (s.goto c (.thread me (.sleepAcquire chan lk)))
  | .wakeup chan => some (s.goto c (.thread me (.wakeScan chan 0)))
  | .intr on =>
    if (s.locks.hart c).noff = 0 then
      some ((s.setHart c { s.locks.hart c with intr := on }).goto c (.thread me .user))
    else none

def goStep (s : State n) (c : Fin n) : Cpu → Option (State n)
  | .sched pc => schedStep s c pc
  | .thread me pc => threadStep s c me pc
  | .stopped _ => none

def callStep (s : State n) (c : Fin n) (k : Call) : Cpu → Option (State n)
  | .thread me .user => call s c me k
  | _ => none

def step (s : State n) (x : Label n) : Option (State n) :=
  match x.act with
  | .go => goStep s x.cpu (s.cpu x.cpu)
  | .call k => callStep s x.cpu k (s.cpu x.cpu)

/-- All CPUs enter `scheduler`. The threads of `ready` have been created and not yet run. -/
def init (n : Nat) (used : ProcId → Bool) (ready : KtId → Bool) : State n where
  locks := ⟨fun _ => ⟨0, false, false⟩, fun _ => ⟨false, none⟩⟩
  kthread _ := none
  kt k := { Kthread.kthreadinit k with tState := if ready k then .runnable else .unused }
  killed _ := false
  procState p := if used p then .used else .unused
  context _ := .forkret
  cpu _ := .sched .intrOn

variable {s s' : State n} {c : Fin n}

def Pc.atSched : Pc → Bool
  | .sleepSched _ _ => true
  | _ => false

def Pc.tests : Pc → Option KtId
  | .wakeTest _ m => some (ktAt m m.isLt)
  | _ => none

def Pc.wakes : Pc → Option Chan
  | .wakeScan chan _ | .wakeAcquire chan _ | .wakeTest chan _ | .wakeRelease chan _ => some chan
  | _ => none

structure Frame (s : State n) (c : Fin n) (s' : State n) : Prop where
  cpu : ∀ d, d ≠ c → s'.cpu d = s.cpu d
  kthread : ∀ d, d ≠ c → s'.kthread d = s.kthread d
  held : ∀ d l, d ≠ c → (s'.Held d l ↔ s.Held d l)

/-- What a step of the CPU `c` does to the thread table and to the position of the CPU. -/
inductive Moves (s : State n) (c : Fin n) (s' : State n) : Prop
  | quiet (kt : s'.kt = s.kt)
      (stays : ∀ me pc, s'.cpu c = .thread me pc → pc.atSched = false ∧
        s'.kthread c = s.kthread c ∧
        (∃ old, s.cpu c = .thread me old ∧ old.atSched = false) ∧
        ∀ k, pc.tests = some k → s'.Held c (.thread k))
  | dispatch (k : KtId) (here : s.cpu c = .sched (.test k)) (ready : (s.kt k).tState = .runnable)
      (kt : s'.kt = update s.kt k { s.kt k with tState := .running })
      (kthread : s'.kthread c = some k) (cpu : s'.cpu c = .thread k (s.context k).resume)
  | write (me : KtId) (old pc : Pc) (t : Kthread) (here : s.cpu c = .thread me old)
      (before : old.atSched = false) (out : old.wakes = none)
      (kt : s'.kt = update s.kt me t)
      (kthread : s'.kthread c = s.kthread c) (cpu : s'.cpu c = .thread me pc)
      (state : t.tState = if pc.atSched then .sleeping else (s.kt me).tState)
      (plain : pc.tests = none)
  | wake (me : KtId) (chan : Chan) (m : Fin (NPROC * NKT))
      (here : s.cpu c = .thread me (.wakeTest chan m))
      (kt : s'.kt = update s.kt (ktAt m m.isLt) ((s.kt (ktAt m m.isLt)).wakeup chan))
      (kthread : s'.kthread c = s.kthread c) (cpu : s'.cpu c = .thread me (.wakeRelease chan m))

variable {r : Except Stop (Kernel n)} {x : Cpu} {me : KtId}

lemma attempt_eq_some (h : s.attempt c r x = some s') :
    (∃ k, r = .ok k ∧ s' = { s with toKernel := k }.goto c x) ∨
      ∃ why, s' = s.goto c (.stopped why) := by
  unfold State.attempt at h
  split at h
  · exact .inl ⟨_, rfl, (Option.some.inj h).symm⟩
  · exact nomatch h
  exact .inr ⟨_, (Option.some.inj h).symm⟩

lemma of_goto {k : Kernel n} {context : KtId → Context} (touches : s.toKernel.Touches c k)
    (stays : ∀ me pc, x = .thread me pc → pc.atSched = false ∧ (∃ old, s.cpu c = .thread me old ∧
      old.atSched = false) ∧ ∀ j, pc.tests = some j → k.Held c (.thread j)) :
    Frame s c ({ s with toKernel := k, context := context }.goto c x) ∧
      Moves s c ({ s with toKernel := k, context := context }.goto c x) := by
  refine ⟨⟨fun d other => update_of_ne other .., fun d _ => congrFun touches.kthread d,
    touches.held⟩, .quiet touches.kt fun me pc here => ?_⟩
  have eq : x = .thread me pc := (update_self ..).symm.trans here
  obtain ⟨free, old, test⟩ := stays me pc eq
  exact ⟨free, congrFun touches.kthread c, old, test⟩

lemma of_stopped (why : Stop) :
    Frame s c (s.goto c (.stopped why)) ∧ Moves s c (s.goto c (.stopped why)) :=
  of_goto (.refl s.toKernel) nofun

lemma of_attempt (next : s.attempt c r x = some s')
    (touches : ∀ k, r = .ok k → s.toKernel.Touches c k) (stays : ∀ k me pc, r = .ok k → x =
    .thread me pc → pc.atSched = false ∧ (∃ old, s.cpu c = .thread me old ∧ old.atSched = false) ∧
    ∀ j, pc.tests = some j → k.Held c (.thread j)) : Frame s c s' ∧ Moves s c s' := by
  rcases attempt_eq_some next with ⟨k, ok, rfl⟩ | ⟨why, rfl⟩
  · exact of_goto (touches k ok) fun me pc => stays k me pc ok
  exact of_stopped why

lemma moves_of_schedStep {pc : SchedPc} (here : s.cpu c = .sched pc)
    (next : schedStep s c pc = some s') : Frame s c s' ∧ Moves s c s' := by
  cases pc with
  | intrOn =>
    cases next
    exact of_goto (.of_lock rfl rfl rfl) nofun
  | proc p =>
    rw [schedStep] at next
    split_ifs at next <;> cases next <;> exact of_goto (.refl s.toKernel) nofun
  | slot p i =>
    rw [schedStep] at next
    split_ifs at next
    · exact of_attempt next (fun k ok => (acquire_ok ok).2.2) nofun
    cases next
    exact of_goto (.refl s.toKernel) nofun
  | test k =>
    cases next
    split_ifs with ready
    · refine ⟨⟨fun d other => update_of_ne other .., fun d other =>
        update_of_ne other .., fun _ _ _ => Iff.rfl⟩, ?_⟩
      exact .dispatch k here ready rfl (update_self ..) (update_self ..)
    exact of_goto (.refl s.toKernel) nofun
  | back k =>
    cases next
    refine ⟨⟨fun d other => update_of_ne other .., fun d other =>
      update_of_ne other .., fun _ _ _ => Iff.rfl⟩, .quiet rfl fun me pc eq => ?_⟩
    exact nomatch (update_self ..).symm.trans eq
  | release k => exact of_attempt next (fun k ok => (release_ok ok).2.2) nofun

lemma of_thread {old pc : Pc} (here : s.cpu c = .thread me old)
    (before : old.atSched = false) (after : pc.atSched = false)
    (plain : pc.tests = none) (touches : ∀ k, r = .ok k → s.toKernel.Touches c k)
    (next : s.attempt c r (.thread me pc) = some s') : Frame s c s' ∧ Moves s c s' := by
  refine of_attempt next touches fun k me' pc' _ eq => ?_
  cases eq
  exact ⟨after, ⟨old, here, before⟩, fun j eq => nomatch eq.symm.trans plain⟩

lemma of_write {old pc : Pc} {t : Kthread} (here : s.cpu c = .thread me old)
    (before : old.atSched = false) (out : old.wakes = none) (plain : pc.tests = none)
    (state : t.tState = if pc.atSched then .sleeping else (s.kt me).tState) :
    Frame s c ((s.setKt me t).goto c (.thread me pc)) ∧
    Moves s c ((s.setKt me t).goto c (.thread me pc)) :=
  ⟨⟨fun _ other => update_of_ne other .., fun _ _ => rfl, fun _ _ _ => Iff.rfl⟩,
    .write me old pc t here before out rfl rfl (update_self ..) state plain⟩

lemma moves_of_threadStep {pc : Pc} (here : s.cpu c = .thread me pc)
    (next : threadStep s c me pc = some s') : Frame s c s' ∧ Moves s c s' := by
  cases pc with
  | user => exact nomatch next
  | forkret | sleepRelease | sleepUnlock | wakeRelease =>
    rw [threadStep] at next
    exact of_thread here rfl rfl rfl (fun k ok => (release_ok ok).2.2) next
  | sleepAcquire | sleepReacquire =>
    rw [threadStep] at next
    exact of_thread here rfl rfl rfl (fun k ok => (acquire_ok ok).2.2) next
  | sleepChan chan lk =>
    cases next
    exact of_write here rfl rfl rfl rfl
  | sleepState chan lk =>
    cases next
    exact of_write here rfl rfl rfl rfl
  | sleepTidy lk =>
    cases next
    exact of_write here rfl rfl rfl rfl
  | sleepSched chan lk =>
    rw [threadStep] at next
    split at next
    · next k ok =>
      cases next
      exact of_goto (sched_ok ok).2.1 nofun
    cases next
    exact of_stopped _
  | sleepResume lk intena =>
    cases next
    refine of_goto (.of_lock rfl rfl rfl) fun me' pc' eq => ?_
    cases eq
    exact ⟨rfl, ⟨_, here, rfl⟩, nofun⟩
  | wakeScan chan m =>
    rw [threadStep] at next
    split_ifs at next with h
    · split at next
      · next t k ok =>
        cases next
        refine of_goto (mykthread_ok ok).2.2 fun me' pc' eq => ?_
        cases eq
        split_ifs
        · exact ⟨rfl, ⟨_, here, rfl⟩, nofun⟩
        exact ⟨rfl, ⟨_, here, rfl⟩, nofun⟩
      cases next
      exact of_stopped _
    cases next
    refine of_goto (.refl s.toKernel) fun me' pc' eq => ?_
    cases eq
    exact ⟨rfl, ⟨_, here, rfl⟩, nofun⟩
  | wakeAcquire chan m =>
    rw [threadStep] at next
    refine of_attempt next (fun k ok => (acquire_ok ok).2.2) fun k me' pc' ok eq => ?_
    cases eq
    refine ⟨rfl, ⟨_, here, rfl⟩, fun j eq => ?_⟩
    cases eq
    rw [Kernel.Held, (acquire_ok ok).2.1, update_self]
  | wakeTest chan m =>
    cases next
    refine ⟨⟨fun _ other => update_of_ne other .., fun _ _ => rfl, fun _ _ _ => Iff.rfl⟩, ?_⟩
    exact .wake me chan m here rfl rfl (update_self ..)

lemma moves_of_call {k : Call} (here : s.cpu c = .thread me .user)
    (next : call s c me k = some s') : Frame s c s' ∧ Moves s c s' := by
  cases k with
  | acquire l => exact of_thread here rfl rfl rfl (fun k ok => (acquire_ok ok).2.2) next
  | release l => exact of_thread here rfl rfl rfl (fun k ok => (release_ok ok).2.2) next
  | sleep chan lk =>
    cases next
    refine of_goto (.refl s.toKernel) fun me' pc' eq => ?_
    cases eq
    exact ⟨rfl, ⟨_, here, rfl⟩, nofun⟩
  | wakeup chan =>
    cases next
    refine of_goto (.refl s.toKernel) fun me' pc' eq => ?_
    cases eq
    exact ⟨rfl, ⟨_, here, rfl⟩, nofun⟩
  | intr on =>
    obtain ⟨-, rfl⟩ := guarded.mp next
    refine of_goto (.of_lock rfl rfl rfl) fun me' pc' eq => ?_
    cases eq
    exact ⟨rfl, ⟨_, here, rfl⟩, nofun⟩

lemma moves_of_step {x : Label n} (next : step s x = some s') :
    Frame s x.cpu s' ∧ Moves s x.cpu s' := by
  obtain ⟨c, act⟩ := x
  cases act with
  | go =>
    cases cpu : s.cpu c with
    | sched pc =>
      rw [step, cpu] at next
      exact moves_of_schedStep cpu next
    | thread me pc =>
      rw [step, cpu] at next
      exact moves_of_threadStep cpu next
    | stopped why =>
      rw [step, cpu] at next
      exact nomatch next
  | call k =>
    have next : callStep s c k (s.cpu c) = some s' := next
    unfold callStep at next
    split at next
    · next me cpu => exact moves_of_call cpu next
    exact nomatch next

end Xv6.SleepWakeup
