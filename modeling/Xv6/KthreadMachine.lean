import Xv6.Kthread
import Xv6.Interleaving

/-! The kernel-thread machine: `scheduler`, `sched`, `sleep` and `wakeup` of
`kernel/proc.c`, all of `kernel/kthread.c`, `exit`, and the sibling loop of
`exec`, on any number of CPUs. Every section under a `t_lock` is one step, so no
`t_lock` is held between steps; `p->lock` is held across steps and is part of
the state. Not modelled: the file-system part of `exit`, and the parent. -/
namespace Xv6
open Function (update)

inductive Ret where
  | user
  | exit (i : Nat) (status : Int)
  | exec (i : Nat)
  deriving DecidableEq, Repr

/-- The locals of `kthread_join` that its two loops share. -/
structure Join where
  ktid : Int
  status : UInt64
  ret : Ret
  deriving DecidableEq

/-- The next step of a thread that is on a CPU. A loop over the thread table is at
its index; `wakeup` is at its position in the whole process table. -/
inductive Pc where
  | user (a0 : Int)
  | createScan (i : Nat) (frame : Trapframe)
  | createRet (j : Fin NKT)
  | lastScan (i : Nat) (status : Int)
  | setZombie (status : Int)
  | wakeLock
  | wakeScan (m : Nat)
  | exitSched
  | killScan (i : Nat) (ktid : Int)
  | joinScan (i : Nat) (j : Join) (found : Option (Fin NKT))
  | joinLock (j : Join) (t : Fin NKT)
  | joinTest (j : Join) (t : Fin NKT)
  | joinReap (j : Join) (t : Fin NKT)
  | joinSleep (j : Join) (t : Fin NKT)
  | exitStart (status : Int)
  | exitLoop (i : Nat) (status : Int)
  | exitRelease (i : Nat) (status : Int)
  | exitZombie (status : Int)
  | exitMark (i : Nat) (status : Int)
  | execLoop (i : Nat)
  | execRelease (i : Nat)
  | sleepOn (chan : Nat)
  | wakeupScan (chan : Nat) (m : Nat)
  deriving DecidableEq

/-- What `swtch` resumes when it loads the saved context of a thread. -/
inductive Context where
  | forkret
  | join (j : Join) (t : Fin NKT)
  | sleep
  | zombie
  deriving DecidableEq

inductive Panic where
  | release
  | schedRunning
  | zombieExit
  | initExiting
  | kerneltrap
  deriving DecidableEq, Repr

/-- A CPU in the outer or the inner loop of `scheduler`, executing a thread, or
stopped in `panic` at some point of a thread. `c->kthread` is set exactly in the
last two cases. -/
inductive Cpu where
  | scanProc (p : ProcId)
  | scanKt (p : ProcId) (i : Nat)
  | thread (me : KtId) (pc : Pc)
  | panicked (me : KtId) (pc : Pc) (why : Panic)
  deriving DecidableEq

def Cpu.pos : Cpu → Option (KtId × Pc)
  | .thread me pc => some (me, pc)
  | .panicked me pc _ => some (me, pc)
  | _ => none

def Cpu.kthread (c : Cpu) : Option KtId := c.pos.map Prod.fst

structure Proc where
  state : ProcState
  xstate : Int
  pCounter : Int
  deriving DecidableEq, Repr

/-- `word` holds the status words that `kthread_join` has stored in user memory. -/
structure State (n : Nat) where
  proc : ProcId → Proc
  kt : KtId → Kthread
  context : KtId → Context
  frame : KtId → Trapframe
  pLock : ProcId → Option (Fin n)
  word : ProcId → UInt64 → Option Int
  cpu : Fin n → Cpu

def initproc : ProcId := ⟨0, by decide⟩

/-- System calls of a thread in user space, and the other uses of `sleep` and
`wakeup` in the kernel, which name an object that is neither thread nor process. -/
inductive Call where
  | kthreadCreate (startFunc stack : UInt64) (stackSize : UInt32)
  | kthreadExit (status : Int)
  | kthreadKill (ktid : Int)
  | kthreadJoin (ktid : Int) (status : UInt64)
  | exit (status : Int)
  | exec
  | sleep (chan : Nat)
  | wakeup (chan : Nat)
  deriving DecidableEq

/-- `fault` is the step of `kthread_join` in which `copyout` fails. -/
inductive Act where
  | go
  | fault
  | call (k : Call)
  deriving DecidableEq

structure Label (n : Nat) where
  cpu : Fin n
  act : Act
  deriving DecidableEq

def goes {n : Nat} (c : Fin n) (k : Nat) : List (Label n) := List.replicate k ⟨c, .go⟩

/-- A process other than init; the runs on fixed schedules have no other. -/
def child : ProcId := ⟨1, by decide⟩

def onlyChild (p : ProcId) : Bool := p = child

def slot0 : Fin NKT := ⟨0, by decide⟩

def slot1 : Fin NKT := ⟨1, by decide⟩

def slot9 : Fin NKT := ⟨9, by decide⟩

def Call.entry : Call → Pc
  | .kthreadCreate f stack size => .createScan 0 ⟨f, stack + size.toUInt64⟩
  | .kthreadExit status => .lastScan 0 status
  | .kthreadKill ktid => .killScan 0 ktid
  | .kthreadJoin ktid status => .joinScan 0 ⟨ktid, status, .user⟩ none
  | .exit status => .exitStart status
  | .exec => .execLoop 0
  | .sleep chan => .sleepOn chan
  | .wakeup chan => .wakeupScan chan 0

def Join.back (j : Join) (r : Int) : Pc :=
  match j.ret with
  | .user => .user r
  | .exit i status => .exitRelease i status
  | .exec i => .execRelease i

namespace State
variable {n : Nat}

@[simps] def setCpu (s : State n) (c : Fin n) (x : Cpu) : State n :=
  { s with cpu := update s.cpu c x }

@[simps] def setKt (s : State n) (k : KtId) (t : Kthread) : State n :=
  { s with kt := update s.kt k t }

@[simps] def setPLock (s : State n) (p : ProcId) (h : Option (Fin n)) : State n :=
  { s with pLock := update s.pLock p h }

/-- The critical section of `kthread_create` once a free entry is found. -/
@[simps] def create (s : State n) (k : KtId) (f : Trapframe) : State n :=
  { s with
    kt := update s.kt k
      { (s.kt k).allockthread k (s.proc k.1).pCounter with tState := .runnable }
    context := update s.context k .forkret
    frame := update s.frame k f
    proc := update s.proc k.1 { s.proc k.1 with pCounter := (s.proc k.1).pCounter + 1 } }

/-- `sched` switches to the scheduler of the CPU, which clears `c->kthread`,
releases the `t_lock` and goes on with the next entry. -/
@[simps] def sched (s : State n) (c : Fin n) (me : KtId) (ctx : Context) : State n :=
  { s with
    context := update s.context me ctx
    cpu := update s.cpu c (.scanKt me.1 (me.2 + 1)) }

@[simps] def setZombie (s : State n) (p : ProcId) (status : Int) : State n :=
  { s with proc := update s.proc p { s.proc p with state := .zombie, xstate := status } }

/-- The rest of the last loop of `exit` from the caller's own entry on. -/
@[simps] def markFrom (s : State n) (me : KtId) (status : Int) : State n :=
  { s with kt := fun k =>
    if k.1 = me.1 ∧ me.2 ≤ k.2 then (s.kt k).exit status else s.kt k }

@[simps] def store (s : State n) (p : ProcId) (addr : UInt64) (v : Int) : State n :=
  { s with word := update s.word p (update (s.word p) addr (some v)) }

def goto (s : State n) (c : Fin n) (me : KtId) (pc : Pc) : State n := s.setCpu c (.thread me pc)

end State

open State
variable {n : Nat}

/-- The reaping section of `kthread_join`, with `p->lock` and the lock of the target. -/
def reap (s : State n) (c : Fin n) (me : KtId) (j : Join) (t : Fin NKT) : Act → Option (State n)
  | .go =>
    let free := (s.setKt (me.1, t) (s.kt (me.1, t)).freethread).setPLock me.1 none
    if j.status = 0 then some (free.goto c me (j.back 0))
    else match (s.kt (me.1, t)).process with
      | none => some (s.setCpu c (.panicked me (.joinReap j t) .kerneltrap))
      | some _ =>
        some ((free.store me.1 j.status (s.kt (me.1, t)).tXstate).goto c me (j.back 0))
  | .fault =>
    if j.status = 0 then none
    else match (s.kt (me.1, t)).process with
      | none => some (s.setCpu c (.panicked me (.joinReap j t) .kerneltrap))
      | some _ => some ((s.setPLock me.1 none).goto c me (j.back (-1)))
  | .call _ => none

/-- The body of the sibling loop that `exit` and `exec` share. -/
def doomSibling (s : State n) (c : Fin n) (me : KtId) (i : Fin NKT) (next : Pc) (ret : Ret) :
    State n :=
  if i = me.2 then s.goto c me next
  else if (s.kt (me.1, i)).Live then
    (s.setKt (me.1, i) { s.kt (me.1, i) with tKilled := true }).goto c me
      (.joinScan 0 ⟨(s.kt me).tid, 0, ret⟩ none)
  else s.goto c me next

/-- One iteration of `wakeup`, at position `m` of the process table. -/
def wakeupAt (s : State n) (me : KtId) (chan : Chan) (k : KtId) : State n :=
  if k = me then s else s.setKt k ((s.kt k).wakeup chan)

def threadStep (s : State n) (c : Fin n) (me : KtId) : Pc → Act → Option (State n)
  | .user _, .call k => some (s.goto c me k.entry)
  | .createScan i f, .go =>
    if h : i < NKT then
      if (s.kt (me.1, ⟨i, h⟩)).tState = .unused then
        some ((s.create (me.1, ⟨i, h⟩) f).goto c me (.createRet ⟨i, h⟩))
      else some (s.goto c me (.createScan (i + 1) f))
    else some (s.goto c me (.user (-1)))
  | .createRet j, .go => some (s.goto c me (.user (s.kt (me.1, j)).tid))
  | .lastScan i status, .go =>
    if h : i < NKT then
      if (⟨i, h⟩ : Fin NKT) ≠ me.2 ∧ (s.kt (me.1, ⟨i, h⟩)).Live then
        some (s.goto c me (.setZombie status))
      else some (s.goto c me (.lastScan (i + 1) status))
    else some (s.goto c me (.exitStart status))
  | .setZombie status, .go => some ((s.setKt me ((s.kt me).exit status)).goto c me .wakeLock)
  | .wakeLock, .go =>
    if s.pLock me.1 = none then some ((s.setPLock me.1 (some c)).goto c me (.wakeScan 0)) else none
  | .wakeScan m, .go =>
    if h : m < NPROC * NKT then
      some ((wakeupAt s me (.kthread me) (ktAt m h)).goto c me (.wakeScan (m + 1)))
    else some ((s.setPLock me.1 none).goto c me .exitSched)
  | .exitSched, .go =>
    if (s.kt me).tState = .running then some (s.setCpu c (.panicked me .exitSched .schedRunning))
    else some (s.sched c me .zombie)
  | .killScan i ktid, .go =>
    if h : i < NKT then
      if (s.kt (me.1, ⟨i, h⟩)).tid = ktid then
        some ((s.setKt (me.1, ⟨i, h⟩) (s.kt (me.1, ⟨i, h⟩)).kthreadKill).goto c me (.user 0))
      else some (s.goto c me (.killScan (i + 1) ktid))
    else some (s.goto c me (.user (-1)))
  | .joinScan i j found, .go =>
    if h : i < NKT then
      if (s.kt (me.1, ⟨i, h⟩)).tid = j.ktid then
        some (s.goto c me (.joinScan (i + 1) j (some ⟨i, h⟩)))
      else some (s.goto c me (.joinScan (i + 1) j found))
    else match found with
      | none => some (s.goto c me (j.back (-1)))
      | some t => some (s.goto c me (.joinLock j t))
  | .joinLock j t, .go =>
    if s.pLock me.1 = none then some ((s.setPLock me.1 (some c)).goto c me (.joinTest j t)) else none
  | .joinTest j t, .go =>
    if (s.kt (me.1, t)).tState = .zombie then some (s.goto c me (.joinReap j t))
    else some (s.goto c me (.joinSleep j t))
  | .joinReap j t, a => reap s c me j t a
  | .joinSleep j t, .go =>
    some (((s.setPLock me.1 none).setKt me ((s.kt me).sleep (.kthread (me.1, t)))).sched c me
      (.join j t))
  | .exitStart status, .go =>
    if me.1 = initproc then some (s.setCpu c (.panicked me (.exitStart status) .initExiting))
    else some (s.goto c me (.exitLoop 0 status))
  | .exitLoop i status, .go =>
    if h : i < NKT then
      some (doomSibling s c me ⟨i, h⟩ (.exitLoop (i + 1) status) (.exit i status))
    else some (s.goto c me (.exitZombie status))
  | .exitRelease i status, .go =>
    some (s.setCpu c (.panicked me (.exitRelease i status) .release))
  | .exitZombie status, .go =>
    if s.pLock me.1 = none then some ((s.setZombie me.1 status).goto c me (.exitMark 0 status))
    else none
  | .exitMark i status, .go =>
    if h : i < me.2 then
      some ((s.setKt (me.1, ⟨i, h.trans me.2.isLt⟩)
        ((s.kt (me.1, ⟨i, h.trans me.2.isLt⟩)).exit status)).goto c me (.exitMark (i + 1) status))
    else some ((s.markFrom me status).sched c me .zombie)
  | .execLoop i, .go =>
    if h : i < NKT then some (doomSibling s c me ⟨i, h⟩ (.execLoop (i + 1)) (.exec i))
    else some (s.goto c me (.user 0))
  | .execRelease i, .go => some (s.setCpu c (.panicked me (.execRelease i) .release))
  | .sleepOn chan, .go => some ((s.setKt me ((s.kt me).sleep (.other chan))).sched c me .sleep)
  | .wakeupScan chan m, .go =>
    if h : m < NPROC * NKT then
      some ((wakeupAt s me (.other chan) (ktAt m h)).goto c me (.wakeupScan chan (m + 1)))
    else some (s.goto c me (.user 0))
  | _, _ => none

/-- The section of `scheduler` that runs a thread, up to the point where the
thread releases its own `t_lock` again. -/
def dispatch (s : State n) (c : Fin n) (k : KtId) : State n :=
  let run := { s.kt k with tState := .running }
  match s.context k with
  | .forkret => (s.setKt k run).setCpu c (.thread k (.user 0))
  | .join j t => (s.setKt k { run with chan := none }).setCpu c (.thread k (.joinLock j t))
  | .sleep => (s.setKt k { run with chan := none }).setCpu c (.thread k (.user 0))
  | .zombie => (s.setKt k run).setCpu c (.panicked k .exitSched .zombieExit)

def nextProc (p : ProcId) : ProcId := ⟨(p + 1) % NPROC, Nat.mod_lt _ (by decide)⟩

def step (s : State n) (l : Label n) : Option (State n) :=
  match s.cpu l.cpu, l.act with
  | .scanProc p, .go =>
    if (s.proc p).state = .used then some (s.setCpu l.cpu (.scanKt p 0))
    else some (s.setCpu l.cpu (.scanProc (nextProc p)))
  | .scanKt p i, .go =>
    if h : i < NKT then
      if (s.kt (p, ⟨i, h⟩)).tState = .runnable then some (dispatch s l.cpu (p, ⟨i, h⟩))
      else some (s.setCpu l.cpu (.scanKt p (i + 1)))
    else some (s.setCpu l.cpu (.scanProc (nextProc p)))
  | .thread me pc, a => threadStep s l.cpu me pc a
  | _, _ => none

/-- Every process of `live` has been started with its first thread; no CPU has
entered its scheduler loop yet. -/
def init (n : Nat) (live : ProcId → Bool) : State n where
  proc p := if live p then ⟨.used, 0, 2⟩ else ⟨.unused, 0, 0⟩
  kt k := if live k.1 ∧ k.2 = ⟨0, by decide⟩ then
      { (Kthread.kthreadinit k).allockthread k 1 with tState := .runnable }
    else Kthread.kthreadinit k
  context _ := .forkret
  frame _ := ⟨0, 0⟩
  pLock _ := none
  word _ _ := none
  cpu _ := .scanProc initproc

end Xv6
