import Mathlib.Data.BitVec
import Xv6.FsImage

/-! `open`, `link`, `unlink`, `mkdir` and `mknod` (sysfile.c) with the path lookup and the
directories of fs.c, for one process at a time. A path is its elements, as `skipelem` leaves them;
a directory is its entries that are in use. The limit of the inode table, which is a panic, and
the blocks of the disk are left out: whether an entry can still be written to a directory is an
argument of the call. `none` is a panic. -/
namespace Xv6.Sysfile
open Fs (Kind)

abbrev Name := List UInt8

abbrev dot : Name := [46]
abbrev dotdot : Name := [46, 46]

structure Path where
  absolute : Bool
  elems : List Name

/-- An inode; `nlink` is a `short`. -/
structure Inode where
  type : Kind
  major : Int
  nlink : BitVec 16
  entries : List (Name × Nat)
  data : List UInt8
  deriving DecidableEq

def Inode.empty : Inode := ⟨.none, 0, 0, [], []⟩

abbrev nfile : Nat := 100
abbrev nofile : Nat := 16
abbrev ndev : Nat := 10
abbrev ninodes : Nat := 200
abbrev rootino : Nat := 1

abbrev oWronly : Nat := 0x001
abbrev oRdwr : Nat := 0x002
abbrev oCreate : Nat := 0x200
abbrev oTrunc : Nat := 0x400

structure File where
  ref : Nat
  ip : Nat
  readable : Bool
  writable : Bool
  deriving DecidableEq

/-- The inodes with their reference counts, the file table, and the descriptors and the current
directory of the calling process. -/
structure State where
  inode : Nat → Inode
  ref : Nat → Nat
  file : Fin nfile → File
  ofile : Fin nofile → Option (Fin nfile)
  cwd : Nat

namespace State
def setInode (s : State) (n : Nat) (i : Inode) : State :=
  { s with inode := Function.update s.inode n i }

def setRef (s : State) (n r : Nat) : State := { s with ref := Function.update s.ref n r }

def setNlink (s : State) (n : Nat) (l : BitVec 16) : State :=
  s.setInode n { s.inode n with nlink := l }

def setFile (s : State) (f : Fin nfile) (e : File) : State :=
  { s with file := Function.update s.file f e }

def setFd (s : State) (fd : Fin nofile) (f : Fin nfile) : State :=
  { s with ofile := Function.update s.ofile fd (some f) }

def iget (s : State) (n : Nat) : State := s.setRef n (s.ref n + 1)

/-- `iput`, which frees an inode without links at the last reference. -/
def iput (s : State) (n : Nat) : State :=
  (if s.ref n = 1 ∧ (s.inode n).nlink = 0 then s.setInode n .empty else s).setRef n (s.ref n - 1)

/-- `dirlookup`, without the `iget`. -/
def dirlookup (s : State) (d : Nat) (name : Name) : Option Nat :=
  ((s.inode d).entries.find? fun e => e.1 == name).map Prod.snd

def filealloc (s : State) : Option (Fin nfile) :=
  (List.finRange nfile).find? fun f => (s.file f).ref == 0

def fdalloc (s : State) : Option (Fin nofile) :=
  (List.finRange nofile).find? fun fd => (s.ofile fd).isNone

/-- `ialloc`, without the `iget`. -/
def ialloc (s : State) : Option Nat :=
  (List.range' 1 (ninodes - 1)).find? fun n => (s.inode n).type == .none

end State

/-- The loop of `namex` from the inode `ip`, to which it has a reference. -/
def namexLoop (parent : Bool) : List Name → State → Nat → Option (Option (Nat × Name) × State)
  | [], s, ip => if parent then some (none, s.iput ip) else some (some (ip, []), s)
  | name :: rest, s, ip =>
    -- the panic "ilock: no type"
    if (s.inode ip).type = .none then none
    else if (s.inode ip).type ≠ .dir then some (none, s.iput ip)
    else if parent = true ∧ rest = [] then some (some (ip, name), s)
    else
      match s.dirlookup ip name with
      | none => some (none, s.iput ip)
      | some next => namexLoop parent rest ((s.iget next).iput ip) next

def namex (s : State) (path : Path) (parent : Bool) : Option (Option (Nat × Name) × State) :=
  let ip := if path.absolute then rootino else s.cwd
  namexLoop parent path.elems (s.iget ip) ip

/-- `dirlink`; `room` is whether an entry can be written to the directory. -/
def dirlink (room : Nat → Bool) (s : State) (d : Nat) (name : Name) (inum : Nat) : Bool × State :=
  match s.dirlookup d name with
  | some ip => (false, (s.iget ip).iput ip)
  | none =>
    if room d then
      (true, s.setInode d
        { s.inode d with entries := (s.inode d).entries ++ [(name, inum)] })
    else (false, s)

def linkDots (room : Nat → Bool) (s : State) (ip dp : Nat) : Bool × State :=
  let r := dirlink room s ip dot ip
  if r.1 then dirlink room r.2 ip dotdot dp else r

/-- The label `fail` of `create`. -/
def undo (s : State) (ip dp : Nat) : State := ((s.setNlink ip 0).iput ip).iput dp

/-- `create` for a name that the directory does not have. -/
def createNew (room : Nat → Bool) (s : State) (dp : Nat) (name : Name) (type : Kind) (major : Int) :
    Option Nat × State :=
  match s.ialloc with
  | none => (none, s.iput dp)
  | some ip =>
    let s := (s.iget ip).setInode ip ⟨type, major, 1, [], []⟩
    let dots := if type = .dir then linkDots room s ip dp else (true, s)
    if dots.1 then
      let linked := dirlink room dots.2 dp name ip
      if linked.1 then
        let s := linked.2
        let s := if type = .dir then s.setNlink dp ((s.inode dp).nlink + 1) else s
        (some ip, s.iput dp)
      else (none, undo linked.2 ip dp)
    else (none, undo dots.2 ip dp)

def create (room : Nat → Bool) (s : State) (path : Path) (type : Kind) (major : Int) :
    Option (Option Nat × State) :=
  match namex s path true with
  | none => none
  | some (none, s) => some (none, s)
  | some (some (dp, name), s) =>
    match s.dirlookup dp name with
    | some ip =>
      let s := (s.iget ip).iput dp
      if (s.inode ip).type = .none then none
      else if type = .file ∧ ((s.inode ip).type = .file ∨ (s.inode ip).type = .device) then
        some (some ip, s)
      else some (none, s.iput ip)
    | none => some (createNew room s dp name type major)

def openInode (s : State) (ip omode : Nat) : Bool × State :=
  if (s.inode ip).type = .device ∧ ((s.inode ip).major < 0 ∨ ndev ≤ (s.inode ip).major) then
    (false, s.iput ip)
  else
    match s.filealloc with
    | none => (false, s.iput ip)
    | some f =>
      let taken := s.setFile f { s.file f with ref := 1 }
      match taken.fdalloc with
      | none =>
        -- `fileclose(f)`
        (false, (taken.setFile f { taken.file f with ref := 0 }).iput ip)
      | some fd =>
        let opened := (taken.setFile f ⟨1, ip, omode &&& oWronly == 0,
          omode &&& oWronly != 0 || omode &&& oRdwr != 0⟩).setFd fd f
        (true, if omode &&& oTrunc != 0 ∧ (s.inode ip).type = .file then
          opened.setInode ip { s.inode ip with data := [] } else opened)

def sysOpen (room : Nat → Bool) (s : State) (path : Path) (omode : Nat) : Option (Bool × State) :=
  if omode &&& oCreate != 0 then
    match create room s path .file 0 with
    | none => none
    | some (none, s) => some (false, s)
    | some (some ip, s) => some (openInode s ip omode)
  else
    match namex s path false with
    | none => none
    | some (none, s) => some (false, s)
    | some (some (ip, _), s) =>
      if (s.inode ip).type = .none then none
      else if (s.inode ip).type = .dir ∧ omode ≠ 0 then some (false, s.iput ip)
      else some (openInode s ip omode)

def sysLink (room : Nat → Bool) (s : State) (old new : Path) : Option (Bool × State) :=
  match namex s old false with
  | none => none
  | some (none, s) => some (false, s)
  | some (some (ip, _), s) =>
    if (s.inode ip).type = .none then none
    else if (s.inode ip).type = .dir then some (false, s.iput ip)
    else
      let bad := fun s : State => (s.setNlink ip ((s.inode ip).nlink - 1)).iput ip
      match namex (s.setNlink ip ((s.inode ip).nlink + 1)) new true with
      | none => none
      | some (none, s) => some (false, bad s)
      | some (some (dp, name), s) =>
        let r := dirlink room s dp name ip
        if r.1 then some (true, (r.2.iput dp).iput ip)
        else some (false, bad (r.2.iput dp))

def sysUnlink (s : State) (path : Path) : Option (Bool × State) :=
  match namex s path true with
  | none => none
  | some (none, s) => some (false, s)
  | some (some (dp, name), s) =>
    if name = dot ∨ name = dotdot then some (false, s.iput dp)
    else
      match s.dirlookup dp name with
      | none => some (false, s.iput dp)
      | some ip =>
        let s := s.iget ip
        -- the panics "ilock: no type" and "unlink: nlink < 1"
        if (s.inode ip).type = .none ∨ (s.inode ip).nlink.toInt < 1 then none
        else if (s.inode ip).type = .dir ∧ (s.inode ip).entries.drop 2 ≠ [] then
          some (false, (s.iput ip).iput dp)
        else
          let s := s.setInode dp { s.inode dp with
            entries := (s.inode dp).entries.eraseP fun e => e.1 == name }
          let s := if (s.inode ip).type = .dir then
            s.setNlink dp ((s.inode dp).nlink - 1) else s
          let s := s.iput dp
          some (true, (s.setNlink ip ((s.inode ip).nlink - 1)).iput ip)

def sysMake (room : Nat → Bool) (s : State) (path : Path) (type : Kind) (major : Int) :
    Option (Bool × State) :=
  (create room s path type major).map fun r =>
    match r.1 with
    | none => (false, r.2)
    | some ip => (true, r.2.iput ip)

inductive Call
  | open (path : Path) (omode : Nat)
  | link (old new : Path)
  | unlink (path : Path)
  | mkdir (path : Path)
  | mknod (path : Path) (major : Int)

/-- A call; `false` is the result -1. -/
def call (room : Nat → Bool) (s : State) : Call → Option (Bool × State)
  | .open path omode => sysOpen room s path omode
  | .link old new => sysLink room s old new
  | .unlink path => sysUnlink s path
  | .mkdir path => sysMake room s path .dir 0
  | .mknod path major => sysMake room s path .device major

end Xv6.Sysfile
