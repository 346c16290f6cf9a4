import Xv6.FileTable
import Xv6.UserCopy

/-! `sys_pipe` with `pipealloc` and `pipeclose` of pipe.c, `filealloc` and `fileclose` of file.c and
`fdalloc`, while no other thread changes the tables. Not modelled: the contents of the page of a
pipe, and the wakeups of `pipeclose`. -/
namespace Xv6.SysPipe
open List Option

open FileTable (Fd FileId FileType NFILE NOFILE)
open PageTable (Words)
open UserCopy (Bytes copyout)
open Function (update update_self update_of_ne update_idem update_eq_self update_comm)

/-- `struct file` with its `pipe` and `ip`. -/
structure File extends FileTable.File where
  pipe : Nat
  ip : Nat

/-- What `fileclose` leaves of an entry. -/
def File.freed (x : File) : File := { x with ref := 0, type := .none }

structure Pipe where
  readopen : Bool
  writeopen : Bool
  nread : Nat
  nwrite : Nat

/-- `pipe` is indexed by pages, `free` are the pages of `kmem.freelist`, and `puts` the inodes that
`fileclose` has given to `iput`. -/
structure State where
  file : FileId → File
  ofile : Fd → Option FileId
  free : List Nat
  pipe : Nat → Pipe
  puts : List Nat
  bytes : Bytes

@[simps] def State.setFile (s : State) (f : FileId) (x : File) : State :=
  { s with file := update s.file f x }

@[simps] def State.setFd (s : State) (fd : Fd) (f : Option FileId) : State :=
  { s with ofile := update s.ofile fd f }

def kalloc (s : State) : Option (Nat × State) :=
  match s.free with
  | [] => none
  | pi :: free => some (pi, { s with free })

def kfree (s : State) (pi : Nat) : State := { s with free := pi :: s.free }

def filealloc (s : State) : Option FileId × State :=
  match (List.finRange NFILE).find? fun f => (s.file f).ref = 0 with
  | some f => (some f, s.setFile f { s.file f with ref := 1 })
  | none => (none, s)

def pipeclose (s : State) (pi : Nat) (writable : Bool) : State :=
  let x := if writable then { s.pipe pi with writeopen := false }
    else { s.pipe pi with readopen := false }
  let s := { s with pipe := update s.pipe pi x }
  if x.readopen = false ∧ x.writeopen = false then kfree s pi else s

/-- `none` is the panic. -/
def fileclose (s : State) (f : FileId) : Option State :=
  let ff := s.file f
  if ff.ref < 1 then none
  else if ff.ref - 1 > 0 then some (s.setFile f { ff with ref := ff.ref - 1 })
  else
    let s := s.setFile f ff.freed
    match ff.type with
    | .pipe => some (pipeclose s ff.pipe ff.writable)
    | .inode | .device => some { s with puts := ff.ip :: s.puts }
    | .none => some s

/-- The label `bad` of `pipealloc`. -/
def bad (s : State) (pi : Option Nat) (f0 f1 : Option FileId) : Option State :=
  (f0.toList ++ f1.toList).foldlM fileclose (pi.elim s (kfree s))

/-- The stores of `pipealloc` into one of its files. -/
def initEnd (s : State) (f : FileId) (writable : Bool) (pi : Nat) : State :=
  s.setFile f { s.file f with type := .pipe, readable := !writable, writable, pipe := pi }

/-- The files are `none` when it returns -1. -/
def pipealloc (s : State) : Option (Option (FileId × FileId) × State) :=
  match filealloc s with
  | (none, s) => (bad s none none none).map (none, ·)
  | (some f0, s) =>
    match filealloc s with
    | (none, s) => (bad s none (some f0) none).map (none, ·)
    | (some f1, s) =>
      match kalloc s with
      | none => (bad s none (some f0) (some f1)).map (none, ·)
      | some (pi, s) =>
        let s := { s with pipe := update s.pipe pi ⟨true, true, 0, 0⟩ }
        some (some (f0, f1), initEnd (initEnd s f0 false pi) f1 true pi)

def fdalloc (s : State) (f : FileId) : Option Fd × State :=
  match (List.finRange NOFILE).find? fun fd => s.ofile fd = none with
  | some fd => (some fd, s.setFd fd (some f))
  | none => (none, s)

/-- The bytes of an `int` that holds a descriptor. -/
def number (fd : Fd) : Bytes := fun i => if i = 0 then fd.val.toUInt8 else 0

/-- The two calls of `copyout`; `false` is a failure. -/
def copyNumbers (w : Words) (root fdarray : Nat) (fd0 fd1 : Fd) (m : Bytes) : Bool × Bytes :=
  let r := copyout w root fdarray (number fd0) 4 m
  if r.1 < 0 then (false, r.2)
  else
    let r := copyout w root ((fdarray + 4) % 2 ^ 64) (number fd1) 4 r.2
    (decide (0 ≤ r.1), r.2)

def sysPipe (w : Words) (root fdarray : Nat) (s : State) : Option (Int × State) :=
  match pipealloc s with
  | none => none
  | some (none, s) => some (-1, s)
  | some (some (rf, wf), s) =>
    match fdalloc s rf with
    | (none, s) => ([rf, wf].foldlM fileclose s).map (-1, ·)
    | (some fd0, s) =>
      match fdalloc s wf with
      | (none, s) => ([rf, wf].foldlM fileclose (s.setFd fd0 none)).map (-1, ·)
      | (some fd1, s) =>
        match copyNumbers w root fdarray fd0 fd1 s.bytes with
        | (false, bytes) =>
          ([rf, wf].foldlM fileclose
            ((State.setFd { s with bytes } fd0 none).setFd fd1 none)).map (-1, ·)
        | (true, bytes) => some (0, { s with bytes })

/-- No free entry has a type: so `fileinit` leaves the table, and `fileclose` frees an entry only
together with its type. -/
def Clean (s : State) : Prop := ∀ f, (s.file f).ref = 0 → (s.file f).type = .none

/-- What a failing call leaves. -/
structure Released (s t : State) : Prop where
  ofile : t.ofile = s.ofile
  entry : ∀ f, (t.file f).ref = (s.file f).ref ∧ (t.file f).type = (s.file f).type
  free : t.free = s.free
  puts : t.puts = s.puts

/-- `rf` and `wf` have become the ends of a pipe in the page `pi`. -/
structure Taken (s t : State) (rf wf : FileId) (pi : Nat) : Prop where
  apart : rf ≠ wf
  unused : (s.file rf).ref = 0 ∧ (s.file wf).ref = 0
  reads : (t.file rf).toFile = ⟨.pipe, 1, true, false⟩ ∧ (t.file rf).pipe = pi
  writes : (t.file wf).toFile = ⟨.pipe, 1, false, true⟩ ∧ (t.file wf).pipe = pi
  other : ∀ f, f ≠ rf → f ≠ wf → t.file f = s.file f
  page : s.free = pi :: t.free
  pipe : t.pipe pi = ⟨true, true, 0, 0⟩
  puts : t.puts = s.puts

def Opened (s t : State) : Prop :=
  ∃ fd0 fd1 rf wf pi, fd0 ≠ fd1 ∧ s.ofile fd0 = none ∧ s.ofile fd1 = none ∧
    t.ofile = update (update s.ofile fd0 (some rf)) fd1 (some wf) ∧ Taken s t rf wf pi

variable {s t u : State} {f rf wf : FileId} {pi : Nat}

lemma filealloc_eq (s : State) : filealloc s = (none, s) ∨ ∃ f, (s.file f).ref = 0 ∧
    filealloc s = (some f, s.setFile f { s.file f with ref := 1 }) := by
  unfold filealloc
  split
  · next f found => exact .inr ⟨f, by simpa using List.find?_some found, rfl⟩
  exact .inl rfl

lemma kalloc_eq (s : State) : kalloc s = none ∨ ∃ pi rest, s.free = pi :: rest ∧
    kalloc s = some (pi, { s with free := rest }) := by
  unfold kalloc
  split
  · exact .inl rfl
  next pi rest free => exact .inr ⟨pi, rest, free, rfl⟩

lemma fdalloc_eq (s : State) (f : FileId) : fdalloc s f = (none, s) ∨ ∃ fd, s.ofile fd = none ∧
    fdalloc s f = (some fd, s.setFd fd (some f)) := by
  unfold fdalloc
  split
  · next fd found => exact .inr ⟨fd, by simpa using List.find?_some found, rfl⟩
  exact .inl rfl

lemma fileclose_new (ref : (s.file f).ref = 1) (type : (s.file f).type = .none) :
    fileclose s f = some (s.setFile f (s.file f).freed) := by
  simp only [fileclose, ref, type]
  rfl

lemma fileclose_end {r w : Bool} (is : (s.file f).toFile = ⟨.pipe, 1, r, w⟩)
    (page : (s.file f).pipe = pi) :
    fileclose s f = some (pipeclose (s.setFile f (s.file f).freed) pi w) := by
  simp only [fileclose, is, page]
  rfl

lemma pipeclose_read (both : s.pipe pi = ⟨true, true, 0, 0⟩) :
    pipeclose s pi false = { s with pipe := update s.pipe pi ⟨false, true, 0, 0⟩ } := by
  simp [pipeclose, both]

lemma pipeclose_write (one : s.pipe pi = ⟨false, true, 0, 0⟩) :
    pipeclose s pi true = kfree { s with pipe := update s.pipe pi ⟨false, false, 0, 0⟩ } pi := by
  simp [pipeclose, one]

/-- The tables agree in counts and types but at `fs`. -/
def AgreeBut (a b : FileId → File) (fs : List FileId) : Prop :=
  ∀ f ∉ fs, (b f).ref = (a f).ref ∧ (b f).type = (a f).type

lemma AgreeBut.set {a b : FileId → File} {fs : List FileId} (h : AgreeBut a b fs) (x : File) :
    AgreeBut a (update b f x) (f :: fs) := by
  intro g out
  have ne : g ≠ f := fun eq => out (eq ▸ mem_cons_self)
  rw [update_of_ne ne]
  exact h g fun mem => out (mem_cons_of_mem f mem)

lemma AgreeBut.freed {b : FileId → File} {fs : List FileId} (h : AgreeBut s.file b (f :: fs))
    (clean : Clean s) (unused : (s.file f).ref = 0) (x : File) :
    AgreeBut s.file (update b f x.freed) fs := by
  intro g out
  by_cases same : g = f
  · rw [same, update_self]
    exact ⟨unused.symm, (clean f unused).symm⟩
  rw [update_of_ne same]
  exact h g fun mem => (mem_cons.mp mem).elim same out

lemma closes_two (first : fileclose s rf = some t) (second : fileclose t wf = some u) :
    [rf, wf].foldlM fileclose s = some u := by
  rw [foldlM_cons, first]
  simp only [bind_eq_bind, bind_some, foldlM_cons, second, foldlM_nil]
  rfl

lemma Taken.close (h : Taken s t rf wf pi) (clean : Clean s) (ofile : t.ofile = s.ofile) :
    ∃ v, [rf, wf].foldlM fileclose t = some v ∧ Released s v := by
  have start : AgreeBut s.file t.file [rf, wf] := by
    intro f out
    rw [h.other f (fun eq => out (by simp [eq])) fun eq => out (by simp [eq])]
    exact ⟨rfl, rfl⟩
  have first := fileclose_end h.reads.1 h.reads.2
  rw [pipeclose_read (s := t.setFile rf _) h.pipe] at first
  have kept : update t.file rf (t.file rf).freed wf = t.file wf := update_of_ne h.apart.symm _ _
  have second := fileclose_end (f := wf)
    (s := { t.setFile rf (t.file rf).freed with pipe := update t.pipe pi ⟨false, true, 0, 0⟩ })
    ((congrArg (·.toFile) kept).trans h.writes.1) ((congrArg (·.pipe) kept).trans h.writes.2)
  rw [pipeclose_write (update_self ..)] at second
  refine ⟨_, closes_two first second, ofile, fun f => ?_, h.page.symm, h.puts⟩
  exact ((start.freed clean h.unused.1 _).freed clean h.unused.2 _) f not_mem_nil

lemma Released.of_agree (h : AgreeBut s.file t.file []) (ofile : t.ofile = s.ofile)
    (free : t.free = s.free) (puts : t.puts = s.puts) : Released s t :=
  ⟨ofile, fun f => h f not_mem_nil, free, puts⟩

/-- The state after the two calls of `filealloc`. -/
structure Reserved (s t : State) (rf wf : FileId) : Prop where
  apart : rf ≠ wf
  unused : (s.file rf).ref = 0 ∧ (s.file wf).ref = 0
  file : t.file =
    update (update s.file rf { s.file rf with ref := 1 }) wf { s.file wf with ref := 1 }
  ofile : t.ofile = s.ofile
  free : t.free = s.free
  puts : t.puts = s.puts

lemma Reserved.file0 (h : Reserved s t rf wf) : t.file rf = { s.file rf with ref := 1 } := by
  rw [h.file, update_of_ne h.apart, update_self]

lemma Reserved.file1 (h : Reserved s t rf wf) : t.file wf = { s.file wf with ref := 1 } := by
  rw [h.file, update_self]

lemma Reserved.close (h : Reserved s t rf wf) (clean : Clean s) :
    ∃ v, [rf, wf].foldlM fileclose t = some v ∧ Released s v := by
  have first := fileclose_new (s := t) (f := rf) (by rw [h.file0])
    (by rw [h.file0]; exact clean rf h.unused.1)
  have kept : (t.setFile rf (t.file rf).freed).file wf = { s.file wf with ref := 1 } := by
    rw [State.setFile_file, update_of_ne h.apart.symm, h.file1]
  have second := fileclose_new (f := wf) (by rw [kept]) (by rw [kept]; exact clean wf h.unused.2)
  have start : AgreeBut s.file t.file [rf, wf] := by
    intro f out
    rw [h.file, update_of_ne fun eq => out (by simp [eq]), update_of_ne fun eq => out (by simp [eq])]
    exact ⟨rfl, rfl⟩
  refine ⟨_, closes_two first second, .of_agree ?_ h.ofile h.free h.puts⟩
  exact (start.freed clean h.unused.1 _).freed clean h.unused.2 _

lemma Reserved.init (h : Reserved s t rf wf) {rest : List Nat} (free : t.free = pi :: rest) :
    Taken s (initEnd (initEnd { t with
      free := rest, pipe := update t.pipe pi ⟨true, true, 0, 0⟩ } rf false pi) wf true pi) rf wf pi where
  apart := h.apart
  unused := h.unused
  reads := by simp [initEnd, h.apart, h.file0]
  writes := by simp [initEnd, h.apart.symm, h.file1]
  other f ne0 ne1 := by simp [initEnd, ne0, ne1, h.file]
  page := h.free.symm.trans free
  pipe := update_self ..
  puts := h.puts

lemma pipealloc_spec (clean : Clean s) : ∃ r t, pipealloc s = some (r, t) ∧ t.ofile = s.ofile ∧
    (r = none ∧ Released s t ∨ ∃ rf wf pi, r = some (rf, wf) ∧ Taken s t rf wf pi) := by
  have none : AgreeBut s.file s.file [] := fun f _ => ⟨rfl, rfl⟩
  unfold pipealloc
  rcases filealloc_eq s with no | ⟨f0, unused0, took0⟩
  · rw [no]
    exact ⟨_, _, rfl, rfl, .inl ⟨rfl, .of_agree none rfl rfl rfl⟩⟩
  rw [took0]
  dsimp only
  rcases filealloc_eq (s.setFile f0 { s.file f0 with ref := 1 }) with no | ⟨f1, unused1, took1⟩
  · have close := fileclose_new (s := s.setFile f0 { s.file f0 with ref := 1 }) (f := f0)
      (by simp) (by simpa using clean f0 unused0)
    rw [no]
    dsimp only
    rw [bad, toList_some, toList_none, append_nil, foldlM_cons, elim_none, close]
    exact ⟨_, _, rfl, rfl, .inl ⟨rfl, .of_agree ((none.set _).freed clean unused0 _) rfl rfl rfl⟩⟩
  have ne : f0 ≠ f1 := by
    rintro rfl
    simp at unused1
  rw [State.setFile_file, update_of_ne ne.symm] at took1 unused1
  obtain ⟨m, took, reserved⟩ : ∃ m, filealloc _ = (some f1, m) ∧ Reserved s m f0 f1 :=
    ⟨_, took1, ne, ⟨unused0, unused1⟩, rfl, rfl, rfl, rfl⟩
  rw [took]
  dsimp only
  rcases kalloc_eq m with no | ⟨pi, rest, free, took⟩
  · obtain ⟨v, closed, released⟩ := reserved.close clean
    rw [no]
    exact ⟨_, v, congrArg (Option.map _) closed, released.ofile, .inl ⟨rfl, released⟩⟩
  rw [took]
  exact ⟨_, _, rfl, reserved.ofile, .inr ⟨f0, f1, pi, rfl, reserved.init free⟩⟩

lemma Released.clean (h : Released s t) (clean : Clean s) : Clean t := fun f ref =>
  (h.entry f).2.trans (clean f ((h.entry f).1.symm.trans ref))

lemma Taken.clean (h : Taken s t rf wf pi) (clean : Clean s) : Clean t := by
  intro f ref
  by_cases read : f = rf
  · rw [read, h.reads.1] at ref
    exact nomatch ref
  by_cases write : f = wf
  · rw [write, h.writes.1] at ref
    exact nomatch ref
  rw [h.other f read write] at ref ⊢
  exact clean f ref

lemma update_restore {o : Fd → Option FileId} {fd : Fd} {f : Option FileId}
    (unused : o fd = none) : update (update o fd f) fd none = o := by
  rw [update_idem, ← unused, update_eq_self]

/-- A call that fails gives back the files, the page and the descriptors; one that succeeds has
made the two ends of a new pipe. -/
theorem sys_pipe_all_or_nothing (w : Words) (root fdarray : Nat) (s : State) (clean : Clean s) :
    ∃ r t, sysPipe w root fdarray s = some (r, t) ∧ Clean t ∧
      (r = -1 ∧ Released s t ∨ r = 0 ∧ Opened s t) := by
  have failed {u : State} {rf wf : FileId} {pi : Nat} (taken : Taken s u rf wf pi)
      (ofile : u.ofile = s.ofile) : ∃ r t, ([rf, wf].foldlM fileclose u).map (-1, ·) = some (r, t) ∧
        Clean t ∧ (r = (-1 : Int) ∧ Released s t ∨ r = 0 ∧ Opened s t) := by
    obtain ⟨v, closed, released⟩ := taken.close clean ofile
    exact ⟨-1, v, by rw [closed]; rfl, released.clean clean, .inl ⟨rfl, released⟩⟩
  obtain ⟨r, t, alloc, ofile, ⟨rfl, released⟩ | ⟨rf, wf, pi, rfl, taken⟩⟩ := pipealloc_spec clean
  · exact ⟨-1, t, by rw [sysPipe, alloc], released.clean clean, .inl ⟨rfl, released⟩⟩
  rw [sysPipe, alloc]
  dsimp only
  rcases fdalloc_eq t rf with no | ⟨fd0, unused0, took0⟩
  · rw [no]
    exact failed taken ofile
  rw [took0]
  dsimp only
  rcases fdalloc_eq (t.setFd fd0 (some rf)) wf with no | ⟨fd1, unused1, took1⟩
  · rw [no]
    exact failed { taken with } ((update_restore unused0).trans ofile)
  have ne : fd0 ≠ fd1 := by
    rintro rfl
    simp at unused1
  rw [State.setFd_ofile, update_of_ne ne.symm] at unused1
  rw [took1]
  dsimp only
  split
  · refine failed { taken with } (Eq.trans ?_ ofile)
    change update (update (update (update t.ofile fd0 _) fd1 _) fd0 none) fd1 none = t.ofile
    rw [update_comm ne.symm, update_restore unused0, update_restore unused1]
  next bytes _ =>
  have ends : Taken s { (t.setFd fd0 (some rf)).setFd fd1 (some wf) with bytes } rf wf pi :=
    { taken with }
  refine ⟨0, _, rfl, ends.clean clean, .inr ⟨rfl, fd0, fd1, rf, wf, pi, ne, ?_, ?_, ?_, ends⟩⟩
  · exact ofile ▸ unused0
  · exact ofile ▸ unused1
  rw [← ofile]
  rfl

/-- The tables as `fileinit` and `allocproc` leave them, and one free page. -/
def onePage : State where
  file _ := ⟨⟨.none, 0, false, false⟩, 0, 0⟩
  ofile _ := none
  free := [7]
  pipe _ := ⟨false, false, 0, 0⟩
  puts := []
  bytes _ := 0

/-- The array of descriptors is not mapped, or it is. -/
theorem onePage_pipe : Clean onePage ∧
    (∃ t, sysPipe (fun _ _ => 0) 1 0 onePage = some (-1, t) ∧ Released onePage t) ∧
    ∃ t, sysPipe UserCopy.onePage 1 0 onePage = some (0, t) ∧ Opened onePage t := by
  have clean : Clean onePage := fun _ _ => rfl
  have fails : (sysPipe (fun _ _ => 0) 1 0 onePage).map Prod.fst = some (-1) := by decide +kernel
  have opens : (sysPipe UserCopy.onePage 1 0 onePage).map Prod.fst = some 0 := by decide +kernel
  obtain ⟨r, t, run, -, done⟩ := sys_pipe_all_or_nothing (fun _ _ => 0) 1 0 onePage clean
  obtain ⟨r', t', run', -, done'⟩ := sys_pipe_all_or_nothing UserCopy.onePage 1 0 onePage clean
  rw [run] at fails
  rw [run'] at opens
  cases fails
  cases opens
  exact ⟨clean, ⟨t, run, (done.resolve_right fun h => nomatch h.1).2⟩, t', run',
    (done'.resolve_left fun h => nomatch h.1).2⟩

end Xv6.SysPipe
