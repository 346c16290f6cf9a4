import Xv6.ProcTable

/-! The loops of the kernel in which a thread waits for an event: `piperead` and `pipewrite` of
`kernel/pipe.c`, `consoleread` of `kernel/console.c`, `sys_sleep`, `wait` and `kthread_join`,
with `kill`, `kthread_kill` and what ends the waits: `pipeclose`, the console and the clock
interrupt, and the ends of processes and threads. A step of a loop is the test of one condition,
the lock of the loop is held across steps, and `sleep` is one step up to its `sched`. `exit`,
`kthread_exit`, `fork` and `kthread_create` are one step each, and `exit` does not see whether
another thread of its process is still there. Not modelled: user memory and the bytes in pipes. -/
namespace Xv6.WaitLoop
open Interleaving
open Function (update)

def PIPESIZE : UInt32 := 512
def INPUT_BUF_SIZE : UInt32 := 128

structure Pipe where
  nread : UInt32
  nwrite : UInt32
  readopen : Bool
  writeopen : Bool
  deriving DecidableEq

/-- The input buffer of the console, with the read, write and edit index. -/
structure Cons where
  buf : Nat → UInt8
  r : UInt32
  w : UInt32
  e : UInt32

def Cons.at (c : Cons) (i : UInt32) : UInt8 := c.buf (i % INPUT_BUF_SIZE).toNat

def ctrlD : UInt8 := 4
def ctrlU : UInt8 := 21
def ctrlP : UInt8 := 16
def backspace : UInt8 := 8
def delete : UInt8 := 127
def newline : UInt8 := 10
def carriageReturn : UInt8 := 13

/-- The loop of `consoleintr` that erases a line, for the `n` characters up to `cons.w`. -/
def Cons.eraseLine (c : Cons) : Nat → UInt32 → UInt32
  | 0, e => e
  | n + 1, e => if c.at (e - 1) ≠ newline then c.eraseLine n (e - 1) else e

inductive Lock where
  | pipe (pi : Nat)
  | cons
  | tickslock
  | waitLock
  | proc (p : ProcId)
  deriving DecidableEq

def readChan (pi : Nat) : Chan := .other (2 * pi + 2)
def writeChan (pi : Nat) : Chan := .other (2 * pi + 3)
def consChan : Chan := .other 0
def ticksChan : Chan := .other 1

/-- A waiting loop with the variables that live across its `sleep`. -/
inductive Loop where
  | piperead (pi : Nat) (n : Int)
  | pipewrite (pi : Nat) (n i : Int)
  | consoleread (target n : Int)
  | sysSleep (n ticks0 : UInt32)
  | wait (store : Bool)
  | kthreadJoin (t : Fin NKT) (store : Bool)
  deriving DecidableEq

def Loop.lock (me : KtId) : Loop → Lock
  | .piperead pi _ | .pipewrite pi _ _ => .pipe pi
  | .consoleread _ _ => .cons
  | .sysSleep _ _ => .tickslock
  | .wait _ => .waitLock
  | .kthreadJoin _ _ => .proc me.1

def Loop.chan (me : KtId) : Loop → Chan
  | .piperead pi _ => readChan pi
  | .pipewrite pi _ _ => writeChan pi
  | .consoleread _ _ => consChan
  | .sysSleep _ _ => ticksChan
  | .wait _ => .proc me.1
  | .kthreadJoin t _ => .kthread (me.1, t)

/-- The next step of a thread: take the lock of the loop, test its condition, test the kill
flag, call `sleep`, or go on in `sleep` after its `sched`. -/
inductive Pc where
  | idle
  | user
  | enter (l : Loop)
  | test (l : Loop)
  | check (l : Loop)
  | full (pi : Nat) (n i : Int)
  | sleeps (l : Loop)
  | woken (l : Loop)
  | relock (l : Loop)
  | copy (pi : Nat) (n i : Int)
  | scan (store : Bool) (j : Nat) (havekids : Bool)
  | find (i : Nat) (ktid : Int) (found : Option (Fin NKT)) (store : Bool)
  deriving DecidableEq

structure State where
  proc : ProcId → ProcEntry
  kt : KtId → Kthread
  pipe : Nat → Pipe
  cons : Cons
  ticks : UInt32
  holder : Lock → Option KtId
  pc : KtId → Pc
  onCpu : KtId → Bool
  a0 : KtId → Int

inductive Call where
  | piperead (pi : Nat) (n : Int)
  | pipewrite (pi : Nat) (n : Int)
  | consoleread (n : Int)
  | sleep (n : UInt32)
  | wait (store : Bool)
  | kthreadJoin (ktid : Int) (store : Bool)
  deriving DecidableEq

/-- A thread goes on or makes a call, the scheduler picks a thread, or something else in the
kernel happens. `fault` says whether `copyin` or `copyout` fails. -/
inductive Label where
  | go (me : KtId) (fault : Bool)
  | call (me : KtId) (c : Call)
  | dispatch (k : KtId)
  | kill (p : ProcId)
  | kthreadKill (k : KtId)
  | pipeclose (pi : Nat) (writable : Bool)
  | consoleintr (c : UInt8)
  | clockintr
  | exit (me : KtId) (status : Int)
  | kthreadExit (me : KtId) (status : Int)
  | fork (me : KtId) (np : ProcId) (pid : Int)
  | kthreadCreate (me : KtId) (i : Fin NKT) (tid : Int)
  deriving DecidableEq

namespace State
@[simps] def goto (s : State) (me : KtId) (pc : Pc) : State :=
  { s with pc := update s.pc me pc }

@[simps] def acquire (s : State) (me : KtId) (l : Lock) : State :=
  { s with holder := update s.holder l (some me) }

@[simps] def release (s : State) (l : Lock) : State :=
  { s with holder := update s.holder l none }

@[simps] def ret (s : State) (me : KtId) (r : Int) : State :=
  { s with pc := update s.pc me .user, a0 := update s.a0 me r }

@[simps] def wakeup (s : State) (me : Option KtId) (chan : Chan) : State :=
  { s with kt := fun k => if some k = me then s.kt k else (s.kt k).wakeup chan }

@[simps] def setKt (s : State) (k : KtId) (t : Kthread) : State :=
  { s with kt := update s.kt k t }

@[simps] def setPipe (s : State) (pi : Nat) (p : Pipe) : State :=
  { s with pipe := update s.pipe pi p }

@[simps] def setCons (s : State) (c : Cons) : State := { s with cons := c }

@[simps] def leave (s : State) (me : KtId) (pc : Pc) : State :=
  { s with pc := update s.pc me pc, onCpu := update s.onCpu me false }

@[simps] def freeproc (s : State) (p : ProcId) : State :=
  { s with
    proc := update s.proc p
      { state := .unused, killed := false, xstate := 0, pid := 0, parent := none, pCounter := 0 }
    kt := fun k => if k.1 = p then (s.kt k).freethread else s.kt k
    pc := fun k => if k.1 = p then (if s.onCpu k then s.pc k else .idle) else s.pc k }

@[simps] def start (s : State) (k : KtId) (tid : Int) : State :=
  { s with
    kt := update s.kt k { (s.kt k).allockthread k tid with tState := .runnable }
    pc := update s.pc k .user
    onCpu := update s.onCpu k false }

end State

def readDone (s : State) (me : KtId) (pi : Nat) (i : Int) : State :=
  ((s.wakeup (some me) (writeChan pi)).release (.pipe pi)).ret me i

def writeDone (s : State) (me : KtId) (pi : Nat) (i : Int) : State :=
  ((s.wakeup (some me) (readChan pi)).release (.pipe pi)).ret me i

/-- The body of the outer loop of `consoleread` after the wait for input. -/
def consume (s : State) (me : KtId) (target n : Int) (fault : Bool) : State :=
  let c := s.cons.at s.cons.r
  let s := s.setCons { s.cons with r := s.cons.r + 1 }
  if c = ctrlD then
    ((if n < target then s.setCons { s.cons with r := s.cons.r - 1 } else s).release .cons).ret me
      (target - n)
  else if fault then (s.release .cons).ret me (target - n)
  else if c = newline then (s.release .cons).ret me (target - (n - 1))
  else s.goto me (.test (.consoleread target (n - 1)))

def testStep (s : State) (me : KtId) (fault : Bool) : Loop → State
  | .piperead pi n =>
    if (s.pipe pi).nread = (s.pipe pi).nwrite ∧ (s.pipe pi).writeopen then
      s.goto me (.check (.piperead pi n))
    else s.goto me (.copy pi n 0)
  | .pipewrite pi n i =>
    if i < n then
      if !(s.pipe pi).readopen then (s.release (.pipe pi)).ret me (-1)
      else s.goto me (.check (.pipewrite pi n i))
    else writeDone s me pi i
  | .consoleread target n =>
    if 0 < n then
      if s.cons.r = s.cons.w then s.goto me (.check (.consoleread target n))
      else consume s me target n fault
    else (s.release .cons).ret me (target - n)
  | .sysSleep n ticks0 =>
    if s.ticks - ticks0 < n then s.goto me (.check (.sysSleep n ticks0))
    else (s.release .tickslock).ret me 0
  | .wait store => s.goto me (.scan store 0 false)
  | .kthreadJoin t store =>
    if (s.kt (me.1, t)).tState = .zombie then
      if store ∧ fault then (s.release (.proc me.1)).ret me (-1)
      else ((s.setKt (me.1, t) (s.kt (me.1, t)).freethread).release (.proc me.1)).ret me 0
    else s.goto me (.sleeps (.kthreadJoin t store))

def checkStep (s : State) (me : KtId) (l : Loop) : Option State :=
  if s.holder (.proc me.1) = none then
    some (if (s.proc me.1).killed then (s.release (l.lock me)).ret me (-1)
      else match l with
        | .pipewrite pi n i => s.goto me (.full pi n i)
        | l => s.goto me (.sleeps l))
  else none

/-- `pipewrite` after the tests for a closed pipe and the kill flag. -/
def fullStep (s : State) (me : KtId) (pi : Nat) (n i : Int) (fault : Bool) : State :=
  if (s.pipe pi).nwrite = (s.pipe pi).nread + PIPESIZE then
    (s.wakeup (some me) (readChan pi)).goto me (.sleeps (.pipewrite pi n i))
  else if fault then writeDone s me pi i
  else (s.setPipe pi { s.pipe pi with nwrite := (s.pipe pi).nwrite + 1 }).goto me
    (.test (.pipewrite pi n (i + 1)))

def copyStep (s : State) (me : KtId) (pi : Nat) (n i : Int) (fault : Bool) : State :=
  if i < n ∧ (s.pipe pi).nread ≠ (s.pipe pi).nwrite then
    let s := s.setPipe pi { s.pipe pi with nread := (s.pipe pi).nread + 1 }
    if fault then readDone s me pi i else s.goto me (.copy pi n (i + 1))
  else readDone s me pi i

/-- The loop of `wait` over the process table, with the lock of each child. -/
def scanStep (s : State) (me : KtId) (store : Bool) (j : Nat) (havekids fault : Bool) :
    Option State :=
  if h : j < NPROC then
    if (s.proc ⟨j, h⟩).parent = some me.1 then
      if s.holder (.proc ⟨j, h⟩) = none then
        some (if (s.proc ⟨j, h⟩).state = .zombie then
          if store ∧ fault then (s.release .waitLock).ret me (-1)
          else ((s.freeproc ⟨j, h⟩).release .waitLock).ret me (s.proc ⟨j, h⟩).pid
        else s.goto me (.scan store (j + 1) true))
      else none
    else some (s.goto me (.scan store (j + 1) havekids))
  else some (if havekids then s.goto me (.check (.wait store))
    else (s.release .waitLock).ret me (-1))

def findStep (s : State) (me : KtId) (i : Nat) (ktid : Int) (found : Option (Fin NKT))
    (store : Bool) : State :=
  if h : i < NKT then
    s.goto me (.find (i + 1) ktid (if (s.kt (me.1, ⟨i, h⟩)).tid = ktid then some ⟨i, h⟩ else found)
      store)
  else match found with
    | none => s.ret me (-1)
    | some t => s.goto me (.enter (.kthreadJoin t store))

def lockStep (s : State) (me : KtId) (l : Loop) : Option State :=
  if s.holder (l.lock me) = none then some ((s.acquire me (l.lock me)).goto me (.test l)) else none

/-- `sys_sleep` reads the clock after it has taken the lock. -/
def Loop.begin (s : State) : Loop → Loop
  | .sysSleep n _ => .sysSleep n s.ticks
  | l => l

def goStep (s : State) (me : KtId) (fault : Bool) : Pc → Option State
  | .idle | .user => none
  | .enter l => lockStep s me (l.begin s)
  | .test l => some (testStep s me fault l)
  | .check l => checkStep s me l
  | .full pi n i => some (fullStep s me pi n i fault)
  | .sleeps l =>
    some (((s.setKt me ((s.kt me).sleep (l.chan me))).release (l.lock me)).leave me (.woken l))
  | .woken l => some ((s.setKt me { s.kt me with chan := none }).goto me (.relock l))
  | .relock l => lockStep s me l
  | .copy pi n i => some (copyStep s me pi n i fault)
  | .scan store j havekids => scanStep s me store j havekids fault
  | .find i ktid found store => some (findStep s me i ktid found store)

def Call.pc : Call → Pc
  | .piperead pi n => .enter (.piperead pi n)
  | .pipewrite pi n => .enter (.pipewrite pi n 0)
  | .consoleread n => .enter (.consoleread n n)
  | .sleep n => .enter (.sysSleep n 0)
  | .wait store => .enter (.wait store)
  | .kthreadJoin ktid store => .find 0 ktid none store

/-- What `consoleintr` does with a character, and whether it wakes readers. -/
def Cons.intr (c : Cons) (ch : UInt8) : Cons × Bool :=
  if ch = ctrlP then (c, false)
  else if ch = ctrlU then ({ c with e := c.eraseLine (c.e - c.w).toNat c.e }, false)
  else if ch = backspace ∨ ch = delete then (if c.e ≠ c.w then { c with e := c.e - 1 } else c, false)
  else if ch ≠ 0 ∧ c.e - c.r < INPUT_BUF_SIZE then
    let ch := if ch = carriageReturn then newline else ch
    let c := { c with
      buf := update c.buf (c.e % INPUT_BUF_SIZE).toNat ch
      e := c.e + 1 }
    if ch = newline ∨ ch = ctrlD ∨ c.e - c.r = INPUT_BUF_SIZE then ({ c with w := c.e }, true)
    else (c, false)
  else (c, false)

/-- `exit` after its loop over the other threads: children go to `initproc`, the parent is
woken, and the process and all its threads become zombies. -/
def exitStep (s : State) (me : KtId) (status : Int) : State :=
  let children := (List.finRange NPROC).any fun q => (s.proc q).parent = some me.1
  let parent := (s.proc me.1).parent
  let s := { s with proc := fun q => if (s.proc q).parent = some me.1 then
    { s.proc q with parent := some initproc } else s.proc q }
  let s := if children then s.wakeup (some me) (.proc initproc) else s
  let s := match parent with
    | some q => s.wakeup (some me) (.proc q)
    | none => s
  { s with
    proc := update s.proc me.1 { s.proc me.1 with xstate := status, state := .zombie }
    kt := fun k => if k.1 = me.1 then (s.kt k).exit status else s.kt k
    pc := update s.pc me .idle
    onCpu := update s.onCpu me false }

def step (s : State) : Label → Option State
  | .go me fault => if s.onCpu me then goStep s me fault (s.pc me) else none
  | .call me c => if s.onCpu me ∧ s.pc me = .user then some (s.goto me c.pc) else none
  | .dispatch k =>
    if (s.kt k).tState = .runnable then
      some { (s.setKt k { s.kt k with tState := .running }) with
        onCpu := update s.onCpu k true }
    else none
  | .kill p =>
    if s.holder (.proc p) = none then
      some { s with
        proc := update s.proc p { s.proc p with killed := true }
        kt := fun k => if k.1 = p ∧ (s.kt k).tState = .sleeping then
          { s.kt k with tState := .runnable } else s.kt k }
    else none
  | .kthreadKill k => some (s.setKt k (s.kt k).kthreadKill)
  | .pipeclose pi writable =>
    if s.holder (.pipe pi) = none then
      some (if writable then
        (s.setPipe pi { s.pipe pi with writeopen := false }).wakeup none (readChan pi)
      else (s.setPipe pi { s.pipe pi with readopen := false }).wakeup none (writeChan pi))
    else none
  | .consoleintr c =>
    if s.holder .cons = none then
      some (if (s.cons.intr c).2 then (s.setCons (s.cons.intr c).1).wakeup none consChan
        else s.setCons (s.cons.intr c).1)
    else none
  | .clockintr =>
    if s.holder .tickslock = none then
      some ({ s with ticks := s.ticks + 1 }.wakeup none ticksChan)
    else none
  | .exit me status =>
    if s.onCpu me ∧ s.pc me = .user ∧ me.1 ≠ initproc ∧ s.holder .waitLock = none ∧
        s.holder (.proc me.1) = none then
      some (exitStep s me status)
    else none
  | .kthreadExit me status =>
    if s.onCpu me ∧ s.pc me = .user ∧ s.holder (.proc me.1) = none ∧
        ∃ i, i ≠ me.2 ∧ (s.kt (me.1, i)).Live then
      some (((s.setKt me ((s.kt me).exit status)).wakeup (some me) (.kthread me)).leave me .idle)
    else none
  | .fork me np pid =>
    if s.onCpu me ∧ s.pc me = .user ∧ (s.proc np).state = .unused ∧
        (s.kt (np, slot0)).tState = .unused then
      some ({ s with proc := update s.proc np { s.proc np with
        state := .used, pid, parent := some me.1, pCounter := 2 } }.start (np, slot0) 1)
    else none
  | .kthreadCreate me i tid =>
    if s.onCpu me ∧ s.pc me = .user ∧ (s.kt (me.1, i)).tState = .unused then
      some (s.start (me.1, i) tid)
    else none

end Xv6.WaitLoop
