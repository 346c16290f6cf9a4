import Xv6.Interleaving
import Mathlib.Data.List.FinRange

/-! The open files of `kernel/file.c` and the system calls of `kernel/sysfile.c` that
take or return descriptors, for any number of threads of one process. The threads share
`p->ofile`, which no lock protects. `argfd`, `fdalloc`, `filealloc`, `filedup`, each store
to `p->ofile`, the section of `fileclose` under `ftable.lock` and the bodies of `fileread`,
`filewrite` and `filestat` are one step each. Not modelled: path lookup and the
transactions of `open`, and what pipes, inodes and devices do with the data. -/
namespace Xv6.FileTable
def NOFILE : Nat := 16
def NFILE : Nat := 100

abbrev Fd := Fin NOFILE

abbrev FileId := Fin NFILE

inductive FileType where
  | none
  | pipe
  | inode
  | device
  deriving DecidableEq, Repr

/-- `struct file` less what it points to. -/
structure File where
  type : FileType
  ref : Int
  readable : Bool
  writable : Bool
  deriving DecidableEq, Repr

/-- What `open` stores into the file once it has the inode. -/
structure Mode where
  device : Bool
  readable : Bool
  writable : Bool
  deriving DecidableEq, Repr

inductive Body where
  | fileread
  | filewrite
  | filestat
  deriving DecidableEq, Repr

/-- The next step of a thread. `undo` is a list of stores of 0 to `p->ofile`, then of calls
of `fileclose`, and the result of the system call; `put` is the rest of `fileclose` for a
file that it has freed. -/
inductive Pc where
  | user
  | openAlloc (m : Mode)
  | openFd (m : Mode) (f : FileId)
  | openInit (m : Mode) (f : FileId) (fd : Fd)
  | dupFd (fd : Fd) (f : FileId)
  | dupRef (fd : Fd) (f : FileId) (new : Fd)
  | body (b : Body) (fd : Fd) (f : FileId)
  | pipeAlloc0
  | pipeAlloc1 (rf : FileId)
  | pipeInit (rf wf : FileId)
  | pipeFd0 (rf wf : FileId)
  | pipeFd1 (rf : FileId) (fd0 : Fd) (wf : FileId)
  | pipeCopy (rf : FileId) (fd0 : Fd) (wf : FileId) (fd1 : Fd)
  | undo (slots : List (Fd × FileId)) (files : List FileId) (r : Int)
  | put (type : FileType) (files : List FileId) (r : Int)
  deriving DecidableEq

inductive FilePanic where
  | filedup
  | fileclose
  | fileread
  | filewrite
  deriving DecidableEq, Repr

/-- `a0` is the result of the last system call of a thread. -/
structure State (n : Nat) where
  ofile : Fd → Option FileId
  file : FileId → File
  pc : Fin n → Pc
  a0 : Fin n → Int
  panicked : Option FilePanic

inductive Call where
  | open (m : Mode)
  | dup (fd : Int)
  | close (fd : Int)
  | pipe
  | body (b : Body) (fd : Int)
  deriving DecidableEq

/-- `fail` is a step in which `kalloc` or `copyout` fails, `done` the end of a body. -/
inductive Act where
  | call (c : Call)
  | go
  | fail
  | done (r : Int)
  deriving DecidableEq

structure Label (n : Nat) where
  thread : Fin n
  act : Act
  deriving DecidableEq

namespace State
variable {n : Nat}

@[simps] def goto (s : State n) (t : Fin n) (pc : Pc) : State n :=
  { s with pc := Function.update s.pc t pc }

@[simps] def ret (s : State n) (t : Fin n) (r : Int) : State n :=
  { s with pc := Function.update s.pc t .user, a0 := Function.update s.a0 t r }

@[simps] def setFd (s : State n) (fd : Fd) (f : Option FileId) : State n :=
  { s with ofile := Function.update s.ofile fd f }

@[simps] def setFile (s : State n) (f : FileId) (x : File) : State n :=
  { s with file := Function.update s.file f x }

@[simps] def panic (s : State n) (why : FilePanic) : State n := { s with panicked := some why }

/-- The file of a descriptor; no reference is taken. -/
def argfd (s : State n) (fd : Int) : Option (Fd × FileId) :=
  if h : 0 ≤ fd ∧ fd < NOFILE then
    (s.ofile ⟨fd.toNat, by omega⟩).map fun f => (⟨fd.toNat, by omega⟩, f)
  else none

def fdalloc (s : State n) : Option Fd := (List.finRange NOFILE).find? fun fd => s.ofile fd = none

def filealloc (s : State n) : Option FileId :=
  (List.finRange NFILE).find? fun f => (s.file f).ref = 0

def initFile (s : State n) (f : FileId) (m : Mode) : State n :=
  s.setFile f { s.file f with
    type := if m.device then .device else .inode, readable := m.readable, writable := m.writable }

def initPipe (s : State n) (f : FileId) (writable : Bool) : State n :=
  s.setFile f { s.file f with type := .pipe, readable := !writable, writable }

def addRef (s : State n) (f : FileId) (d : Int) : State n :=
  s.setFile f { s.file f with ref := (s.file f).ref + d }

end State

open FileTable.State
variable {n : Nat}

/-- The first step of a system call, with `argfd` if it takes a descriptor. -/
def enter (s : State n) (t : Fin n) : Call → State n
  | .open m => s.goto t (.openAlloc m)
  | .pipe => s.goto t .pipeAlloc0
  | .dup fd => match s.argfd fd with
    | some (fd, f) => s.goto t (.dupFd fd f)
    | none => s.ret t (-1)
  | .close fd => match s.argfd fd with
    | some (fd, f) => s.goto t (.undo [(fd, f)] [f] 0)
    | none => s.ret t (-1)
  | .body b fd => match s.argfd fd with
    | some (fd, f) => s.goto t (.body b fd f)
    | none => s.ret t (-1)

/-- The section of `fileclose` under `ftable.lock`. -/
def fileclose (s : State n) (t : Fin n) (f : FileId) (files : List FileId) (r : Int) : State n :=
  if (s.file f).ref < 1 then s.panic .fileclose
  else if (s.file f).ref - 1 > 0 then (s.addRef f (-1)).goto t (.undo [] files r)
  else (s.setFile f { s.file f with ref := 0, type := .none }).goto t
    (.put (s.file f).type files r)

def body (s : State n) (t : Fin n) (f : FileId) (r : Int) : Body → State n
  | .fileread =>
    if !(s.file f).readable then s.ret t (-1)
    else if (s.file f).type = .none then s.panic .fileread else s.ret t r
  | .filewrite =>
    if !(s.file f).writable then s.ret t (-1)
    else if (s.file f).type = .none then s.panic .filewrite else s.ret t r
  | .filestat =>
    if (s.file f).type = .inode ∨ (s.file f).type = .device then s.ret t r else s.ret t (-1)

def goStep (s : State n) (t : Fin n) : Pc → Option (State n)
  | .openAlloc m => match s.filealloc with
    | some f => some ((s.addRef f 1).goto t (.openFd m f))
    | none => some (s.ret t (-1))
  | .openFd m f => match s.fdalloc with
    | some fd => some ((s.setFd fd (some f)).goto t (.openInit m f fd))
    | none => some (s.goto t (.undo [] [f] (-1)))
  | .openInit m f fd => some ((s.initFile f m).ret t fd)
  | .dupFd fd f => match s.fdalloc with
    | some new => some ((s.setFd new (some f)).goto t (.dupRef fd f new))
    | none => some (s.ret t (-1))
  | .dupRef _ f new =>
    if (s.file f).ref < 1 then some (s.panic .filedup) else some ((s.addRef f 1).ret t new)
  | .pipeAlloc0 => match s.filealloc with
    | some rf => some ((s.addRef rf 1).goto t (.pipeAlloc1 rf))
    | none => some (s.ret t (-1))
  | .pipeAlloc1 rf => match s.filealloc with
    | some wf => some ((s.addRef wf 1).goto t (.pipeInit rf wf))
    | none => some (s.goto t (.undo [] [rf] (-1)))
  | .pipeInit rf wf => some (((s.initPipe rf false).initPipe wf true).goto t (.pipeFd0 rf wf))
  | .pipeFd0 rf wf => match s.fdalloc with
    | some fd0 => some ((s.setFd fd0 (some rf)).goto t (.pipeFd1 rf fd0 wf))
    | none => some (s.goto t (.undo [] [rf, wf] (-1)))
  | .pipeFd1 rf fd0 wf => match s.fdalloc with
    | some fd1 => some ((s.setFd fd1 (some wf)).goto t (.pipeCopy rf fd0 wf fd1))
    | none => some (s.goto t (.undo [(fd0, rf)] [rf, wf] (-1)))
  | .pipeCopy _ _ _ _ => some (s.ret t 0)
  | .undo ((fd, _) :: slots) files r => some ((s.setFd fd none).goto t (.undo slots files r))
  | .undo [] (f :: files) r => some (fileclose s t f files r)
  | .undo [] [] r => some (s.ret t r)
  | .put _ files r => some (s.goto t (.undo [] files r))
  | .user | .body _ _ _ => none

def failStep (s : State n) (t : Fin n) : Pc → Option (State n)
  | .pipeInit rf wf => some (s.goto t (.undo [] [rf, wf] (-1)))
  | .pipeCopy rf fd0 wf fd1 => some (s.goto t (.undo [(fd0, rf), (fd1, wf)] [rf, wf] (-1)))
  | _ => none

def threadStep (s : State n) (t : Fin n) (pc : Pc) : Act → Option (State n)
  | .call c => if pc = .user then some (enter s t c) else none
  | .go => goStep s t pc
  | .fail => failStep s t pc
  | .done r => match pc with
    | .body b _ f => some (body s t f r b)
    | _ => none

/-- A panic stops all threads. -/
def step (s : State n) (l : Label n) : Option (State n) :=
  if s.panicked = none then threadStep s l.thread (s.pc l.thread) l.act else none

end Xv6.FileTable
