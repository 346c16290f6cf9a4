import Xv6.ProcTable

/-! The life of processes and threads: `allocproc`, `freeproc`, `fork`, `exit`, `wait` of
`kernel/proc.c` and `kthread_create`, `kthread_exit`, `kthread_join` of `kernel/kthread.c`,
interleaved. Every section under a `p->lock` or a `t_lock` is one step, `wait_lock` is held
across steps, and loops over a table take one step for each entry. A thread that is not on a
CPU goes on when the scheduler has picked it. `wakeup` is one step, and so is `sleep` up to
its `sched`. A step that ends in `panic` stops the machine. An entry of a thread table has one
thread: a new one in the entry of a thread that is still on its way out takes its place. Not
modelled: the timer, user memory, files, names; a run goes on where the code would fault on
one of these. -/
namespace Xv6.Lifecycle
open Interleaving
open Function (update)

/-- Where a call of `kthread_join` returns to: the caller, or the sibling loop of `exit`,
which then releases the lock of the sibling once more. -/
inductive Back where
  | user
  | exit
  deriving DecidableEq, Repr

/-- The next step of a thread. Loops are at their index. `store` says that there is an
address to store a status at. An entry without a thread is `idle`, and a thread that has
switched away for the last time is at `zombieExit`. -/
inductive Pc where
  | idle
  | zombieExit
  | user
  | forkScan (j : Nat)
  | forkLock (np : ProcId) (pid : Int)
  | forkLink (np : ProcId) (pid : Int)
  | forkRun (np : ProcId) (pid : Int)
  | exitScan (i : Nat) (status : Int)
  | exitLock (status : Int)
  | reparent (j : Nat) (status : Int)
  | exitWake (status : Int)
  | setZombie (status : Int)
  | exitThreads (i : Nat) (status : Int)
  | exitSched
  | waitLock (store : Bool)
  | waitScan (store : Bool) (j : Nat) (havekids : Bool)
  | waitTest (store : Bool) (havekids : Bool)
  | waitWoken (store : Bool)
  | createScan (i : Nat)
  | lastScan (i : Nat) (status : Int)
  | threadZombie (status : Int)
  | threadWake
  | threadSched
  | joinScan (i : Nat) (ktid : Int) (found : Option (Fin NKT)) (store : Bool) (back : Back)
  | joinLoop (t : Fin NKT) (store : Bool) (back : Back)
  | joinWoken (t : Fin NKT) (store : Bool) (back : Back)
  deriving DecidableEq

/-- `a0` is what the last call of a thread has returned and `stored` the status word it has
stored. `allocs` counts the calls of `allocpid` and `alloctid`. -/
structure State where
  proc : ProcId → ProcEntry
  kt : KtId → Kthread
  nextpid : Int
  allocs : Nat
  waitLock : Option KtId
  pc : KtId → Pc
  onCpu : KtId → Bool
  a0 : KtId → Int
  stored : KtId → Option Int
  panicked : Bool

inductive Call where
  | fork
  | exit (status : Int)
  | wait (store : Bool)
  | kthreadCreate
  | kthreadExit (status : Int)
  | kthreadJoin (ktid : Int) (store : Bool)
  deriving DecidableEq

/-- A thread goes on or makes a system call, the scheduler picks a thread, and `kill` comes
to the process it looks for. `mem` and `fault` say which allocation of `fork` and whether
`copyout` fails. -/
inductive Label where
  | go (me : KtId) (mem : Memory) (fault : Bool)
  | call (me : KtId) (c : Call)
  | dispatch (k : KtId)
  | kill (p : ProcId)
  deriving DecidableEq

/-- `n + 1` for an `int`. -/
def succInt (n : Int) : Int := (n + 1).bmod (2 ^ 32)

namespace State
@[simps] def goto (s : State) (me : KtId) (pc : Pc) : State :=
  { s with pc := update s.pc me pc }

@[simps] def setProc (s : State) (p : ProcId) (e : ProcEntry) : State :=
  { s with proc := update s.proc p e }

@[simps] def setKt (s : State) (k : KtId) (t : Kthread) : State :=
  { s with kt := update s.kt k t }

@[simps] def setWaitLock (s : State) (l : Option KtId) : State := { s with waitLock := l }

@[simps] def ret (s : State) (me : KtId) (r : Int) : State :=
  { s with pc := update s.pc me .user, a0 := update s.a0 me r }

@[simps] def panic (s : State) : State := { s with panicked := true }

@[simps] def leave (s : State) (me : KtId) (pc : Pc) : State :=
  { s with pc := update s.pc me pc, onCpu := update s.onCpu me false }

@[simps] def wakeup (s : State) (me : KtId) (chan : Chan) : State :=
  { s with kt := fun k => if k = me then s.kt k else (s.kt k).wakeup chan }

def sleep (s : State) (me : KtId) (chan : Chan) (pc : Pc) : State :=
  (s.setKt me ((s.kt me).sleep chan)).leave me pc

/-- The entry of the process after `freeproc`, and its threads after `freethread`. -/
@[simps] def freeproc (s : State) (p : ProcId) : State :=
  { s with
    proc := update s.proc p
      { state := .unused, killed := false, xstate := 0, pid := 0, parent := none, pCounter := 0 }
    kt := fun k => if k.1 = p then (s.kt k).freethread else s.kt k
    pc := fun k => if k.1 = p then (if s.onCpu k then s.pc k else .idle) else s.pc k }

/-- `allockthread` on the free entry it has found. The new thread starts in user space. An old
thread of the entry that has not come to `sched` yet is not followed further. -/
@[simps] def take (s : State) (k : KtId) : State :=
  { s with
    kt := update s.kt k ((s.kt k).allockthread k (s.proc k.1).pCounter)
    proc := update s.proc k.1
      { s.proc k.1 with pCounter := succInt (s.proc k.1).pCounter }
    allocs := s.allocs + 1
    pc := update s.pc k .user
    onCpu := update s.onCpu k false }

/-- The free entry after `found:` in `allocproc`. The kill flag is left as it is. -/
@[simps] def allocpid (s : State) (p : ProcId) : State :=
  { s with
    proc := update s.proc p
      { s.proc p with pCounter := 1, pid := s.nextpid, state := .used }
    nextpid := succInt s.nextpid
    allocs := s.allocs + 1 }

def freeKt (s : State) (p : ProcId) : Option (Fin NKT) :=
  (List.finRange NKT).find? fun i => (s.kt (p, i)).tState = .unused

end State

/-- `fork` on the free process `p`, up to the release of its lock. It panics if the lock of
the first thread is not the one that `allockthread` has taken, and in `freeproc` after
`uvmcopy` has failed, where it takes that lock once more. -/
def forkAlloc (s : State) (me : KtId) (p : ProcId) (mem : Memory) : State :=
  let s := s.allocpid p
  if mem = .noTrapframe then (s.freeproc p).ret me (-1)
  else match s.freeKt p with
    | none => s.panic
    | some i =>
      let s := s.take (p, i)
      if mem = .noPagetable then (s.freeproc p).ret me (-1)
      else if mem = .noCopy ∨ i ≠ slot0 then s.panic
      else s.goto me (.forkLock p (s.proc p).pid)

def exitCall (s : State) (me : KtId) (status : Int) : State :=
  if me.1 = initproc then s.panic else s.goto me (.exitScan 0 status)

def joinRet (s : State) (me : KtId) (r : Int) : Back → State
  | .user => s.ret me r
  | .exit => s.panic

def lockWait (s : State) (me : KtId) (pc : Pc) : Option State :=
  if s.waitLock = none then some ((s.setWaitLock (some me)).goto me pc) else none

def forkStep (s : State) (me : KtId) (mem : Memory) : Pc → Option State
  | .forkScan j =>
    if h : j < NPROC then
      some (if (s.proc ⟨j, h⟩).state = .unused then forkAlloc s me ⟨j, h⟩ mem
        else s.goto me (.forkScan (j + 1)))
    else some (s.ret me (-1))
  | .forkLock np pid => lockWait s me (.forkLink np pid)
  | .forkLink np pid =>
    some (((s.setProc np { s.proc np with parent := some me.1 }).setWaitLock none).goto me
      (.forkRun np pid))
  | .forkRun np pid =>
    some ((s.setKt (np, slot0) { s.kt (np, slot0) with tState := .runnable }).ret me pid)
  | _ => none

def exitStep (s : State) (me : KtId) : Pc → Option State
  | .exitScan i status =>
    if h : i < NKT then
      some (if (i : Nat) = me.2 then s.goto me (.exitScan (i + 1) status)
        else if (s.kt (me.1, ⟨i, h⟩)).Live then
          (s.setKt (me.1, ⟨i, h⟩) { s.kt (me.1, ⟨i, h⟩) with tKilled := true }).goto me
            (.joinScan 0 (s.kt me).tid none false .exit)
        else s.goto me (.exitScan (i + 1) status))
    else some (s.goto me (.exitLock status))
  | .exitLock status => lockWait s me (.reparent 0 status)
  | .reparent j status =>
    if h : j < NPROC then
      some ((if (s.proc ⟨j, h⟩).parent = some me.1 then
          (s.setProc ⟨j, h⟩ { s.proc ⟨j, h⟩ with parent := some initproc }).wakeup me
            (.proc initproc)
        else s).goto me (.reparent (j + 1) status))
    else some (s.goto me (.exitWake status))
  | .exitWake status =>
    some ((match (s.proc me.1).parent with
      | some q => s.wakeup me (.proc q)
      | none => s).goto me (.setZombie status))
  | .setZombie status =>
    some ((s.setProc me.1 { s.proc me.1 with xstate := status, state := .zombie }).goto me
      (.exitThreads 0 status))
  | .exitThreads i status =>
    if h : i < NKT then
      some ((s.setKt (me.1, ⟨i, h⟩) ((s.kt (me.1, ⟨i, h⟩)).exit status)).goto me
        (.exitThreads (i + 1) status))
    else some (s.goto me .exitSched)
  | .exitSched => some ((s.setWaitLock none).leave me .zombieExit)
  | _ => none

def waitStep (s : State) (me : KtId) (fault : Bool) : Pc → Option State
  | .waitLock store => lockWait s me (.waitScan store 0 false)
  | .waitScan store j havekids =>
    if h : j < NPROC then
      some (if (s.proc ⟨j, h⟩).parent = some me.1 then
        if (s.proc ⟨j, h⟩).state = .zombie then
          if store ∧ fault then (s.setWaitLock none).ret me (-1)
          else
            { (((s.freeproc ⟨j, h⟩).setWaitLock none).ret me (s.proc ⟨j, h⟩).pid) with
              stored := update s.stored me
                (if store then some (s.proc ⟨j, h⟩).xstate else none) }
        else s.goto me (.waitScan store (j + 1) true)
      else s.goto me (.waitScan store (j + 1) havekids))
    else some (s.goto me (.waitTest store havekids))
  | .waitTest store havekids =>
    some (if !havekids ∨ (s.proc me.1).killed then (s.setWaitLock none).ret me (-1)
      else (s.setWaitLock none).sleep me (.proc me.1) (.waitWoken store))
  | .waitWoken store =>
    some ((s.setKt me { s.kt me with chan := none }).goto me (.waitLock store))
  | _ => none

def threadStep (s : State) (me : KtId) (fault : Bool) : Pc → Option State
  | .createScan i =>
    if h : i < NKT then
      some (if (s.kt (me.1, ⟨i, h⟩)).tState = .unused then
        let s := s.take (me.1, ⟨i, h⟩)
        (s.setKt (me.1, ⟨i, h⟩) { s.kt (me.1, ⟨i, h⟩) with tState := .runnable }).ret me
          (s.kt (me.1, ⟨i, h⟩)).tid
      else s.goto me (.createScan (i + 1)))
    else some (s.ret me (-1))
  | .lastScan i status =>
    if h : i < NKT then
      some (s.goto me (if (i : Nat) ≠ me.2 ∧ (s.kt (me.1, ⟨i, h⟩)).Live then .threadZombie status
        else .lastScan (i + 1) status))
    else some (exitCall s me status)
  | .threadZombie status => some ((s.setKt me ((s.kt me).exit status)).goto me .threadWake)
  | .threadWake => some ((s.wakeup me (.kthread me)).goto me .threadSched)
  | .threadSched => some (if (s.kt me).tState = .running then s.panic else s.leave me .zombieExit)
  | .joinScan i ktid found store back =>
    if h : i < NKT then
      some (s.goto me (.joinScan (i + 1) ktid
        (if (s.kt (me.1, ⟨i, h⟩)).tid = ktid then some ⟨i, h⟩ else found) store back))
    else match found with
      | none => some (joinRet s me (-1) back)
      | some t => some (s.goto me (.joinLoop t store back))
  | .joinLoop t store back =>
    some (if (s.kt (me.1, t)).tState = .zombie then
      if store ∧ fault then joinRet s me (-1) back
      else joinRet
        { (s.setKt (me.1, t) (s.kt (me.1, t)).freethread) with
          stored := update s.stored me
            (if store then some (s.kt (me.1, t)).tXstate else none) } me 0 back
    else s.sleep me (.kthread (me.1, t)) (.joinWoken t store back))
  | .joinWoken t store back =>
    some ((s.setKt me { s.kt me with chan := none }).goto me (.joinLoop t store back))
  | .zombieExit => some s.panic
  | _ => none

inductive Part where
  | fork
  | exit
  | wait
  | thread
  deriving DecidableEq

def Pc.part : Pc → Option Part
  | .idle | .user => none
  | .forkScan _ | .forkLock _ _ | .forkLink _ _ | .forkRun _ _ => some .fork
  | .exitScan _ _ | .exitLock _ | .reparent _ _ | .exitWake _ | .setZombie _ | .exitThreads _ _
  | .exitSched => some .exit
  | .waitLock _ | .waitScan _ _ _ | .waitTest _ _ | .waitWoken _ => some .wait
  | .zombieExit | .createScan _ | .lastScan _ _ | .threadZombie _ | .threadWake | .threadSched
  | .joinScan _ _ _ _ _ | .joinLoop _ _ _ | .joinWoken _ _ _ => some .thread

def goStep (s : State) (me : KtId) (mem : Memory) (fault : Bool) : Option State :=
  match (s.pc me).part with
  | none => none
  | some .fork => forkStep s me mem (s.pc me)
  | some .exit => exitStep s me (s.pc me)
  | some .wait => waitStep s me fault (s.pc me)
  | some .thread => threadStep s me fault (s.pc me)

def callStep (s : State) (me : KtId) : Call → State
  | .fork => s.goto me (.forkScan 0)
  | .exit status => exitCall s me status
  | .wait store => s.goto me (.waitLock store)
  | .kthreadCreate => s.goto me (.createScan 0)
  | .kthreadExit status => s.goto me (.lastScan 0 status)
  | .kthreadJoin ktid store => s.goto me (.joinScan 0 ktid none store .user)

/-- A system call starts with `myproc()`, which is null in a thread that has been freed. The
scheduler reads the state of the process before it takes the lock of the thread, so what it
has read may be out of date when it picks the thread. -/
def step (s : State) (x : Label) : Option State :=
  if s.panicked then none
  else match x with
    | .go me mem fault => if s.onCpu me then goStep s me mem fault else none
    | .call me c =>
      if s.onCpu me ∧ s.pc me = .user then
        some (if (s.kt me).process = some me.1 then callStep s me c else s.panic)
      else none
    | .dispatch k =>
      if (s.kt k).tState = .runnable then
        some { (s.setKt k { s.kt k with tState := .running }) with
          onCpu := update s.onCpu k true }
      else none
    | .kill p =>
      some { (s.setProc p { s.proc p with killed := true }) with
        kt := fun k => if k.1 = p ∧ (s.kt k).tState = .sleeping then
          { s.kt k with tState := .runnable } else s.kt k }

/-- The state that `userinit` leaves: `initproc` with one thread, and free entries. -/
def init : State where
  proc p := if p = initproc then
      { state := .used, killed := false, xstate := 0, pid := 1, parent := none, pCounter := 2 }
    else { state := .unused, killed := false, xstate := 0, pid := 0, parent := none, pCounter := 0 }
  kt k := if k = (initproc, slot0) then
      { (Kthread.kthreadinit k).allockthread k 1 with tState := .runnable }
    else Kthread.kthreadinit k
  nextpid := 2
  allocs := 2
  waitLock := none
  pc k := if k = (initproc, slot0) then .user else .idle
  onCpu _ := false
  a0 _ := 0
  stored _ := none
  panicked := false

lemma freeKt_allocpid {s : State} {p : ProcId} (free : (s.kt (p, slot0)).tState = .unused) :
    (s.allocpid p).freeKt p = some slot0 := by
  rw [State.freeKt, List.find?_eq_some_iff_append]
  exact ⟨decide_eq_true free, [], (List.finRange NKT).tail, rfl, nofun⟩

end Xv6.Lifecycle
