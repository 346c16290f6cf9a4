import Xv6.UserVm

/-! The calls of single-threaded processes that allocate and free pages, one after the other. -/
namespace Xv6.Vm
open Interleaving PageTable

abbrev End := Nat × Bool

/-- `frame` is `base_trapframes`, and `ofile` has the descriptors that are ends of pipes. -/
structure Proc where
  root : Nat
  sz : Nat
  frame : Nat
  parent : Nat
  zombie : Bool
  ofile : List End

structure Pipe where
  page : Nat
  readopen : Bool
  writeopen : Bool

/-- `vm` are the panics of `vm.c`, `acquire` is the one of a lock that its holder acquires,
`file` those of `filedup` and `fileclose`, and `pipe` is a call of `pipeclose` for a pipe that has
been freed. -/
inductive Panic
  | vm
  | acquire
  | file
  | pipe
  deriving DecidableEq

/-- `ref` has the reference counts of the open files that are ends of pipes. -/
structure Kernel where
  mem : Mem
  proc : Nat → Option Proc
  pipe : Nat → Option Pipe
  ref : End → Nat
  halted : Option Panic

/-- The calls, with what depends on the rest of the system: the file that `exec` reads and its
arguments, and whether the copies to user memory and the allocations of files and descriptors
succeed. `store` is a write to user memory. -/
inductive Act
  | userinit (initcode : Index → Nat)
  | sbrk (p : Nat) (n : Int)
  | exec (p args : Nat) (fetched : Bool) (hs : List Header) (fits : Bool)
  | fork (p c : Nat)
  | exit (p : Nat)
  | wait (p c : Nat)
  | pipe (p id : Nat) (installed : Bool)
  | close (p : Nat) (e : End)
  | store (p v : Nat) (i : Index) (value : Nat)

namespace Kernel
def panic (s : Kernel) (why : Panic) : Kernel := { s with halted := some why }

def setMem (s : Kernel) (k : Mem) : Kernel := { s with mem := k }

def setProc (s : Kernel) (p : Nat) (q : Option Proc) : Kernel :=
  { s with proc := Function.update s.proc p q }

def setPipe (s : Kernel) (id : Nat) (q : Option Pipe) : Kernel :=
  { s with pipe := Function.update s.pipe id q }

def setRef (s : Kernel) (e : End) (n : Nat) : Kernel :=
  { s with ref := Function.update s.ref e n }

def after {α : Type} (s : Kernel) (r : Option α) (f : α → Kernel) : Kernel :=
  r.elim (s.panic .vm) f

def setOpen (q : Pipe) (writable : Bool) : Pipe :=
  if writable then { q with writeopen := false } else { q with readopen := false }

def pipeclose (s : Kernel) (e : End) : Kernel :=
  match s.pipe e.1 with
  | none => s.panic .pipe
  | some q =>
    let q := setOpen q e.2
    if q.readopen = false ∧ q.writeopen = false then
      (s.setMem (kfree s.mem q.page)).setPipe e.1 none
    else s.setPipe e.1 (some q)

def fileclose (s : Kernel) (e : End) : Kernel :=
  if s.ref e < 1 then s.panic .file
  else
    let t := s.setRef e (s.ref e - 1)
    if 0 < s.ref e - 1 then t else t.pipeclose e

def closeAll : List End → Kernel → Kernel
  | [], s => s
  | e :: es, s => if s.halted = none then closeAll es (s.fileclose e) else s

def dupAll : List End → Kernel → Kernel
  | [], s => s
  | e :: es, s =>
    if s.ref e < 1 then s.panic .file else dupAll es (s.setRef e (s.ref e + 1))

def reparent (s : Kernel) (p : Nat) : Kernel :=
  { s with proc := fun c => (s.proc c).map fun q => if q.parent = p then { q with parent := 1 } else q }

end Kernel

open Kernel

/-- The loop of `sys_exec`: a page for each argument, as far as there are pages. -/
def takePages : Nat → Mem → List Nat × Mem
  | 0, k => ([], k)
  | n + 1, k =>
    match kalloc k with
    | none => ([], k)
    | some (page, k) => (page :: (takePages n k).1, (takePages n k).2)

def freePages (pages : List Nat) (k : Mem) : Mem := pages.foldl kfree k

/-- `fork`; `allocproc` has found the slot `c`. -/
def fork (s : Kernel) (code p c : Nat) (q : Proc) : Kernel :=
  match kalloc s.mem with
  | none => s
  | some (frame, k) =>
    s.after (procPagetable k code frame) fun r =>
      match r.1 with
      | none => s.setMem (kfree r.2 frame)
      | some root =>
        s.after (uvmcopy r.2 q.root root q.sz) fun r =>
          if r.1 then
            dupAll q.ofile
              ((s.setMem r.2).setProc c (some ⟨root, q.sz, frame, p, false, q.ofile⟩))
          -- `freeproc` acquires the lock of the thread, which `allockthread` has acquired
          else (s.setMem r.2).panic .acquire

def exec (s : Kernel) (code p args : Nat) (fetched : Bool) (hs : List Header) (fits : Bool)
    (q : Proc) : Kernel :=
  let taken := takePages args s.mem
  if taken.1.length = args ∧ fetched = true then
    s.after (execImage taken.2 code q.frame hs fits) fun r =>
      match r.1 with
      | none => s.setMem (freePages taken.1 r.2)
      | some (root, sz) =>
        s.after (procFreepagetable r.2 q.root q.sz) fun k =>
          (s.setMem (freePages taken.1 k)).setProc p (some { q with root := root, sz := sz })
  else s.setMem (freePages taken.1 taken.2)

def sbrk (s : Kernel) (p : Nat) (n : Int) (q : Proc) : Kernel :=
  s.after (growproc s.mem q.root q.sz n) fun r =>
    match r.1 with
    | none => s.setMem r.2
    | some sz => (s.setMem r.2).setProc p (some { q with sz := sz })

def userinit (s : Kernel) (code : Nat) (initcode : Index → Nat) : Option Kernel :=
  match kalloc s.mem with
  | none => none
  | some (frame, k) =>
    match procPagetable k code frame with
    | some (some root, k) =>
      match mapNew k root 0 initcode (pteW ||| pteR ||| pteX ||| pteU) with
      | some (true, k) =>
        some ((s.setMem k).setProc 1 (some ⟨root, pgsize, frame, 1, false, []⟩))
      | _ => none
    | _ => none

def sysPipe (s : Kernel) (p id : Nat) (installed : Bool) (q : Proc) : Kernel :=
  match kalloc s.mem with
  | none => s
  | some (page, k) =>
    let t := (((s.setMem k).setPipe id (some ⟨page, true, true⟩)).setRef (id, false) 1).setRef
      (id, true) 1
    if installed then t.setProc p (some { q with ofile := (id, false) :: (id, true) :: q.ofile })
    else (t.fileclose (id, false)).fileclose (id, true)

def freeproc (s : Kernel) (c : Nat) (q : Proc) : Kernel :=
  s.after (procFreepagetable (kfree s.mem q.frame) q.root q.sz) fun k =>
    (s.setMem k).setProc c none

def store (s : Kernel) (v : Nat) (i : Index) (value : Nat) (q : Proc) : Kernel :=
  match walk s.mem.words q.root (v * pgsize) with
  | none => s
  | some (pt, j) =>
    let pte := s.mem.words pt j
    if v < trapframe ∧ valid pte = true then
      s.setMem (s.mem.setWord (pte2pa pte) i value)
    else s

/-- A process that is not a zombie. -/
def live (s : Kernel) (p : Nat) : Option Proc := (s.proc p).filter fun q => !q.zombie

def step (code : Nat) (s : Kernel) (a : Act) : Option Kernel :=
  if s.halted = none then
    match a with
    | .userinit initcode => if s.proc 1 = none then userinit s code initcode else none
    | .sbrk p n => if -2 ^ 31 ≤ n ∧ n < 2 ^ 31 then (live s p).map (sbrk s p n) else none
    | .exec p args fetched hs fits => (live s p).map (exec s code p args fetched hs fits)
    | .fork p c => if s.proc c = none then (live s p).map (fork s code p c) else none
    | .exit p =>
      if p = 1 then none
      else (live s p).map fun q =>
        (closeAll q.ofile (s.setProc p (some { q with zombie := true, ofile := [] }))).reparent p
    | .wait p c =>
      (s.proc c).bind fun q =>
        if q.zombie = true ∧ q.parent = p then some (freeproc s c q) else none
    | .pipe p id installed =>
      if s.pipe id = none then (live s p).map (sysPipe s p id installed) else none
    | .close p e =>
      (live s p).bind fun q =>
        if e ∈ q.ofile then
          some ((s.setProc p (some { q with ofile := q.ofile.erase e })).fileclose e)
        else none
    | .store p v i value => (live s p).map (store s v i value)
  else none

def boot (words : Words) (free : List Nat) : Kernel where
  mem := ⟨words, free⟩
  proc _ := none
  pipe _ := none
  ref _ := 0
  halted := none

end Xv6.Vm
