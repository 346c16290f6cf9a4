import Xv6.FsImage

/-! mkfs.c: the image of a file system with the given files in its root directory. The host is
little endian like the target, so `xint` and `xshort` are the identity. -/
namespace Xv6.Mkfs
open Fs

abbrev dirsiz : Nat := 14

/-- The image file with the counters `freeinode` and `freeblock`. -/
structure State where
  img : Image
  freeinode : Nat
  freeblock : Nat

/-- `struct dirent`: the inode number and the name as `strncpy` stores it. -/
def dirent (inum : Nat) (name : List UInt8) : List UInt8 :=
  [UInt8.ofNat inum, UInt8.ofNat (inum / 256)] ++
    (name.take dirsiz ++ List.replicate (dirsiz - name.length) 0)

def copyAt (b : Block) (off : Nat) (p : List UInt8) : Block :=
  fun i => if off ≤ i then (p[i - off]?).getD (b i) else b i

def ialloc (s : State) (type : Kind) : State :=
  { s with
    img := s.img.setInode s.freeinode { zeroDinode with type := type, nlink := 1 }
    freeinode := s.freeinode + 1 }

def State.bump (s : State) : State :=
  { s with freeblock := s.freeblock + 1 }

def State.setBlock (s : State) (b : Nat) (v : Block) : State :=
  { s with img := s.img.setBlock b v }

/-- `addrs[k]` of the local inode, from the counter if it is zero. -/
def addr (s : State) (din : Dinode) (k : Nat) : Dinode × State :=
  if din.addrs k = 0 then (din.setAddr k s.freeblock, s.bump) else (din, s)

/-- The block `x` for file block `fbn` in `iappend`. Reading a sector behind the end of the image
ends mkfs. -/
def blockFor (s : State) (din : Dinode) (fbn : Nat) : Option (Nat × Dinode × State) :=
  if fbn < ndirect then
    let r := addr s din fbn
    some (r.1.addrs fbn, r.1, r.2)
  else
    let r := addr s din ndirect
    let x := r.1.addrs ndirect
    if x < fssize then
      let j := fbn - ndirect
      if word (r.2.img.block x) j = 0 then
        some (r.2.freeblock, r.1,
          (r.2.setBlock x (setWord (r.2.img.block x) j r.2.freeblock)).bump)
      else some (word (r.2.img.block x) j, r.1, r.2)
    else none

/-- The loop of `iappend`; each round consumes at least one byte. -/
def iappendLoop : Nat → State → Dinode → Nat → List UInt8 → Option (State × Dinode × Nat)
  | _, s, din, off, [] => some (s, din, off)
  | 0, _, _, _, _ :: _ => none
  | fuel + 1, s, din, off, c :: p =>
    let fbn := off / bsize
    if fbn < maxfile then
      match blockFor s din fbn with
      | none => none
      | some (x, din, s) =>
        if x < fssize then
          let n1 := min (c :: p).length ((fbn + 1) * bsize - off)
          iappendLoop fuel
            (s.setBlock x (copyAt (s.img.block x) (off - fbn * bsize) ((c :: p).take n1)))
            din (off + n1) ((c :: p).drop n1)
        else none
    else none

def iappend (s : State) (inum : Nat) (p : List UInt8) : Option State :=
  let din := s.img.dinode inum
  (iappendLoop p.length s din din.size p).map fun r =>
    { r.1 with img := r.1.img.setInode inum { r.2.1 with size := r.2.2 } }

/-- A command line argument and what the calls of `read` return for it. -/
structure Input where
  arg : List UInt8
  chunks : List (List UInt8)

def Input.bytes (f : Input) : List UInt8 := f.chunks.flatten

def userDir : List UInt8 := [117, 115, 101, 114, 47]

/-- The argument without "user/". -/
def Input.shortname (f : Input) : List UInt8 :=
  if userDir.isPrefixOf f.arg then f.arg.drop 5 else f.arg

/-- The name without a leading `_`. -/
def Input.name (f : Input) : List UInt8 :=
  if f.shortname.head? = some 95 then f.shortname.drop 1 else f.shortname

def addFile (s : State) (f : Input) : Option State :=
  if f.shortname.contains 47 then none
  else
    let inum := s.freeinode
    (iappend (ialloc s .file) rootino (dirent inum f.name)).bind fun s =>
      f.chunks.foldlM (fun s p => iappend s inum p) s

def start : State :=
  ialloc ⟨⟨fun _ => zeroDinode, fun _ => false, fun _ => zeroBlock⟩, 1, nmeta⟩ .dir

def fixRoot (m : Image) : Image :=
  let din := m.dinode rootino
  m.setInode rootino { din with size := (din.size / bsize + 1) * bsize }

def balloc (m : Image) (used : Nat) : Image :=
  { m with used := fun b => decide (b < used) }

def dot : List UInt8 := [46]
def dotdot : List UInt8 := [46, 46]

def body (files : List Input) : Option State :=
  (iappend start rootino (dirent rootino dot)).bind fun s =>
    (iappend s rootino (dirent rootino dotdot)).bind fun s => files.foldlM addFile s

/-- `main`; `none` is an exit with an error. -/
def main (files : List Input) : Option Image :=
  (body files).bind fun s =>
    if s.freeblock < bsize * 8 then some (balloc (fixRoot s.img) s.freeblock) else none

end Xv6.Mkfs
