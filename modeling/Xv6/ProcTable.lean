import Xv6.KthreadMachine

/-! The process table: `allocproc`, `freeproc`, `fork`, `exit`, `wait` and `kill` of
`kernel/proc.c` and the system calls of `kernel/kthread.c`, one call after the other.
A call runs up to its return or to its next `sleep`, and a sleeper that has been woken
goes on from there when it is scheduled. The tests of the kill flags in `usertrap` only
turn a call into `exit` or `kthread_exit`, which are calls themselves. Not modelled:
user memory, files, names. -/
namespace Xv6
open Function (update)

/-- `struct proc` less its locks, its memory and its files. -/
structure ProcEntry where
  state : ProcState
  killed : Bool
  xstate : Int
  pid : Int
  parent : Option ProcId
  pCounter : Int
  deriving DecidableEq, Repr

/-- The sleep that a thread has not returned from: in `kthread_join`, in the call of
`kthread_join` by `exit`, or in `wait`. -/
inductive Asleep where
  | join (t : Fin NKT)
  | exit (t : Fin NKT)
  | wait
  deriving DecidableEq, Repr

/-- `a0` is the value that the last call of a thread has returned. -/
structure Table where
  proc : ProcId → ProcEntry
  kt : KtId → Kthread
  nextpid : Int
  pending : KtId → Option Asleep
  a0 : KtId → Int
  panicked : Bool

inductive Memory where
  | enough
  | noTrapframe
  | noPagetable
  | noCopy
  deriving DecidableEq, Repr

namespace Table
@[simps] def setProc (s : Table) (p : ProcId) (e : ProcEntry) : Table :=
  { s with proc := update s.proc p e }

@[simps] def setKt (s : Table) (k : KtId) (t : Kthread) : Table :=
  { s with kt := update s.kt k t }

@[simps] def ret (s : Table) (me : KtId) (r : Int) : Table :=
  { s with a0 := update s.a0 me r }

@[simps] def panic (s : Table) : Table := { s with panicked := true }

def findProc (s : Table) (f : ProcEntry → Bool) : Option ProcId :=
  (List.finRange NPROC).find? fun p => f (s.proc p)

def findKt (s : Table) (p : ProcId) (f : Kthread → Bool) : Option (Fin NKT) :=
  (List.finRange NKT).find? fun i => f (s.kt (p, i))

@[simps] def wakeup (s : Table) (me : KtId) (chan : Chan) : Table :=
  { s with kt := fun k => if k = me then s.kt k else (s.kt k).wakeup chan }

@[simps] def sleep (s : Table) (me : KtId) (chan : Chan) (why : Asleep) : Table :=
  { s with
    kt := update s.kt me ((s.kt me).sleep chan)
    pending := update s.pending me (some why) }

/-- What `allockthread` does to the free entry it has found. -/
@[simps] def take (s : Table) (k : KtId) : Table :=
  { s with
    kt := update s.kt k ((s.kt k).allockthread k (s.proc k.1).pCounter)
    proc := update s.proc k.1 { s.proc k.1 with pCounter := (s.proc k.1).pCounter + 1 }
    pending := update s.pending k none }

def allockthread (s : Table) (p : ProcId) : Option (Fin NKT × Table) :=
  (s.findKt p fun t => t.tState = .unused).map fun i => (i, s.take (p, i))

@[simps] def freeproc (s : Table) (p : ProcId) : Table :=
  { s with
    kt := fun k => if k.1 = p then (s.kt k).freethread else s.kt k
    proc := update s.proc p
      { state := .unused, killed := false, xstate := 0, pid := 0, parent := none, pCounter := 0 } }

/-- The result of `allocproc`. It panics where it releases the lock of a null pointer. -/
inductive Alloc where
  | made (p : ProcId) (s : Table)
  | failed (s : Table)
  | panic

/-- The free entry after `found:`. The kill flag is left as it is. -/
@[simps] def allocpid (s : Table) (p : ProcId) : Table :=
  { s with
    proc := update s.proc p
      { s.proc p with pCounter := 1, pid := s.nextpid, state := .used }
    nextpid := s.nextpid + 1 }

def allocproc (s : Table) (mem : Memory) : Alloc :=
  match s.findProc fun e => e.state = .unused with
  | none => .failed s
  | some p =>
    let s := s.allocpid p
    if mem = .noTrapframe then .failed (s.freeproc p)
    else match s.allockthread p with
      | none => .panic
      | some (_, s) => if mem = .noPagetable then .failed (s.freeproc p) else .made p s

/-- If `uvmcopy` fails, `freeproc` acquires the lock of the first thread once more. -/
def fork (s : Table) (me : KtId) (mem : Memory) : Table :=
  match s.allocproc mem with
  | .failed s => s.ret me (-1)
  | .panic => s.panic
  | .made np s =>
    if mem = .noCopy then s.panic
    else
      let s := s.setProc np { s.proc np with parent := some me.1 }
      (s.setKt (np, slot0) { s.kt (np, slot0) with tState := .runnable }).ret me (s.proc np).pid

def kthreadCreate (s : Table) (me : KtId) : Table :=
  match s.allockthread me.1 with
  | none => s.ret me (-1)
  | some (i, s) =>
    (s.setKt (me.1, i) { s.kt (me.1, i) with tState := .runnable }).ret me (s.kt (me.1, i)).tid

/-- The first loop of `kthread_join`, which goes on after it has found an entry. -/
def joinSearch (s : Table) (p : ProcId) (ktid : Int) : Option (Fin NKT) :=
  (List.finRange NKT).foldl (fun found i => if (s.kt (p, i)).tid = ktid then some i else found) none

/-- The second loop of `kthread_join` up to its return or its `sleep`. -/
def joinLoop (s : Table) (me : KtId) (t : Fin NKT) (fault : Bool) : Table :=
  if (s.kt (me.1, t)).tState = .zombie then
    if fault then s.ret me (-1) else (s.setKt (me.1, t) (s.kt (me.1, t)).freethread).ret me 0
  else s.sleep me (.kthread (me.1, t)) (.join t)

def kthreadJoin (s : Table) (me : KtId) (ktid : Int) (fault : Bool) : Table :=
  match s.joinSearch me.1 ktid with
  | none => s.ret me (-1)
  | some t => s.joinLoop me t fault

/-- The join that the sibling loop of `exit` calls, and the second release of the
sibling's lock after it. -/
def exitJoin (s : Table) (me : KtId) (t : Fin NKT) : Table :=
  if (s.kt (me.1, t)).tState = .zombie then
    (s.setKt (me.1, t) (s.kt (me.1, t)).freethread).panic
  else s.sleep me (.kthread (me.1, t)) (.exit t)

def liveSibling (s : Table) (me : KtId) : Option (Fin NKT) :=
  (List.finRange NKT).find? fun i => i ≠ me.2 ∧ (s.kt (me.1, i)).Live

@[simps] def setParents (s : Table) (p : ProcId) : Table :=
  { s with proc := fun q =>
    if (s.proc q).parent = some p then { s.proc q with parent := some initproc } else s.proc q }

def reparent (s : Table) (me : KtId) : Table :=
  if (s.findProc fun e => e.parent = some me.1).isSome then
    (s.setParents me.1).wakeup me (.proc initproc)
  else s

def wakeParent (s : Table) (me : KtId) : Table :=
  match (s.proc me.1).parent with
  | some q => s.wakeup me (.proc q)
  | none => s

/-- The end of `exit`: the process and all its threads become zombies. -/
@[simps] def setZombie (s : Table) (p : ProcId) (status : Int) : Table :=
  { s with
    proc := update s.proc p { s.proc p with xstate := status, state := .zombie }
    kt := fun k => if k.1 = p then (s.kt k).exit status else s.kt k }

def exit (s : Table) (me : KtId) (status : Int) : Table :=
  if me.1 = initproc then s.panic
  else match s.liveSibling me with
    | none => ((s.reparent me).wakeParent me).setZombie me.1 status
    | some i =>
      let s := s.setKt (me.1, i) { s.kt (me.1, i) with tKilled := true }
      match s.joinSearch me.1 (s.kt me).tid with
      | none => s.panic
      | some t => s.exitJoin me t

def kthreadExit (s : Table) (me : KtId) (status : Int) : Table :=
  if (s.liveSibling me).isNone then s.exit me status
  else (s.setKt me ((s.kt me).exit status)).wakeup me (.kthread me)

def waitLoop (s : Table) (me : KtId) (fault : Bool) : Table :=
  match s.findProc fun e => e.parent = some me.1 ∧ e.state = .zombie with
  | some p => if fault then s.ret me (-1) else (s.freeproc p).ret me (s.proc p).pid
  | none =>
    if (s.findProc fun e => e.parent = some me.1).isNone ∨ (s.proc me.1).killed then s.ret me (-1)
    else s.sleep me (.proc me.1) .wait

@[simps] def setKilled (s : Table) (p : ProcId) : Table :=
  { s with
    proc := update s.proc p { s.proc p with killed := true }
    kt := fun k => if k.1 = p ∧ (s.kt k).tState = .sleeping then
      { s.kt k with tState := .runnable } else s.kt k }

def kill (s : Table) (pid : Int) : Int × Table :=
  match s.findProc fun e => e.pid = pid with
  | none => (-1, s)
  | some p => (0, s.setKilled p)

def kthreadKill (s : Table) (p : ProcId) (ktid : Int) : Int × Table :=
  match s.findKt p fun t => t.tid = ktid with
  | none => (-1, s)
  | some i => (0, s.setKt (p, i) (s.kt (p, i)).kthreadKill)

@[simps] def awaken (s : Table) (me : KtId) : Table :=
  { s with
    kt := update s.kt me { s.kt me with chan := none }
    pending := update s.pending me none }

/-- A thread goes on after `swtch`: in its last call, or in user space. -/
def resume (s : Table) (me : KtId) (fault : Bool) : Table :=
  match s.pending me with
  | none => s
  | some (.join t) => (s.awaken me).joinLoop me t fault
  | some (.exit t) => (s.awaken me).exitJoin me t
  | some .wait => (s.awaken me).waitLoop me fault

end Table

/-- The system calls. `fault` says that a status is to be stored and `copyout` fails. -/
inductive Sys where
  | fork (mem : Memory)
  | exit (status : Int)
  | wait (fault : Bool)
  | kthreadCreate
  | kthreadExit (status : Int)
  | kthreadJoin (ktid : Int) (fault : Bool)
  | kill (pid : Int)
  | kthreadKill (ktid : Int)
  deriving DecidableEq, Repr

/-- A running thread makes a call, or the scheduler takes a runnable thread. -/
inductive Op where
  | call (me : KtId) (sys : Sys)
  | run (k : KtId) (fault : Bool)
  deriving DecidableEq, Repr

namespace Table
def call (s : Table) (me : KtId) : Sys → Table
  | .fork mem => s.fork me mem
  | .exit status => s.exit me status
  | .wait fault => s.waitLoop me fault
  | .kthreadCreate => s.kthreadCreate me
  | .kthreadExit status => s.kthreadExit me status
  | .kthreadJoin ktid fault => s.kthreadJoin me ktid fault
  | .kill pid => (s.kill pid).2.ret me (s.kill pid).1
  | .kthreadKill ktid => (s.kthreadKill me.1 ktid).2.ret me (s.kthreadKill me.1 ktid).1

def step (s : Table) : Op → Option Table
  | .call me sys =>
    if !s.panicked ∧ (s.kt me).tState = .running then some (s.call me sys) else none
  | .run k fault =>
    if !s.panicked ∧ (s.proc k.1).state = .used ∧ (s.kt k).tState = .runnable then
      some ((s.setKt k { s.kt k with tState := .running }).resume k fault)
    else none

def zero : Table where
  proc _ := { state := .unused, killed := false, xstate := 0, pid := 0, parent := none, pCounter := 0 }
  kt k := Kthread.kthreadinit k
  nextpid := 1
  pending _ := none
  a0 _ := 0
  panicked := false

def userinit (s : Table) : Table :=
  match s.allocproc .enough with
  | .made p s => s.setKt (p, slot0) { s.kt (p, slot0) with tState := .runnable }
  | _ => s.panic

end Table
end Xv6
