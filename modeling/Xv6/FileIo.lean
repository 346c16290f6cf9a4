import Xv6.ConsoleLines
import Xv6.FileCopies

/-! `fileread` and `filewrite` (file.c) on every kind of file, with the copies to and from the
memory of the process. What a call finds when it has a lock is given to it: the ring buffers of
pipe.c and console.c, with the threads that share them, are in PipeFifo and ConsoleLines. -/
namespace Xv6.FileIo
open Fs PageTable UserCopy Option
open Console (ctrlD newline)

inductive Kind where
  | none
  | pipe
  | inode
  | device
  deriving DecidableEq

/-- `struct file`; the inode is given by its number. -/
structure File where
  type : Kind
  readable : Bool
  writable : Bool
  ip : Nat
  off : Nat
  major : Int

/-- The offset after a call of `readi` that has returned `r`. -/
def File.advance (f : File) (r : Int) : File :=
  if 0 < r then { f with off := (f.off + r.toNat) % 2 ^ 32 } else f

abbrev ndev : Int := 10
abbrev console : Int := 1

/-- The test of `devsw`, in which only the console has functions. -/
def noDevice (major : Int) : Bool := major < 0 || ndev ≤ major || major ≠ console

section
variable (w : Words) (root : Nat)

/-- The loop of `piperead`, on the bytes in the pipe; a byte that cannot be copied is lost. -/
def pipereadLoop (addr : Nat) (n : Int) : Nat → List UInt8 → Bytes → Int × List UInt8 × Bytes
  | i, [], m => (i, [], m)
  | i, ch :: data, m =>
    if i < n then
      let r := copyout w root ((addr + i) % 2 ^ 64) (fun _ => ch) 1 m
      if r.1 = -1 then (i, data, r.2) else pipereadLoop addr n (i + 1) data r.2
    else (i, ch :: data, m)

/-- `piperead`, when it has stopped waiting: a killed process finds no pipe. -/
def piperead (addr : Nat) (n : Int) (pipe : Option (List UInt8)) (m : Bytes) :
    Int × Option (List UInt8) × Bytes :=
  match pipe with
  | none => (-1, none, m)
  | some data =>
    let r := pipereadLoop w root addr n 0 data m
    (r.1, some r.2.1, r.2.2)

/-- The loop of `consoleread`. Each round waits for a byte of the input, or finds that the process
has been killed; at the end of the list it still waits. -/
def consolereadLoop (target : Int) :
    List (Option UInt8) → Int → Nat → Bytes → Option (Int × List (Option UInt8) × Bytes)
  | [], n, _, m => if 0 < n then none else some (target - n, [], m)
  | c :: input, n, dst, m =>
    if 0 < n then
      match c with
      | none => some (-1, input, m)
      | some c =>
        if c = ctrlD then
          some (target - n, if n < target then some c :: input else input, m)
        else
          let r := copyout w root dst (fun _ => c) 1 m
          if r.1 = -1 then some (target - n, input, r.2)
          else if c = newline then some (target - (n - 1), input, r.2)
          else consolereadLoop target input (n - 1) ((dst + 1) % 2 ^ 64) r.2
    else some (target - n, c :: input, m)

def consoleread (dst : Nat) (n : Int) (input : List (Option UInt8)) (m : Bytes) :
    Option (Int × List (Option UInt8) × Bytes) :=
  consolereadLoop w root n input n dst m

def readiLoop (sb : Superblock) (ip count tot off dst : Nat) (s : Fs.Op) (m : Bytes) :
    Option (Int × Fs.Op × Bytes) :=
  if tot < count then
    (bmap sb ip s (off / bsize)).bind fun b =>
      if b.2 = 0 then some (tot, b.1, m)
      else
        let k := min (count - tot) (bsize - off % bsize)
        let r := copyout w root dst (fun i => b.1.img.block b.2 (off % bsize + i)) k m
        if r.1 = -1 then some (-1, b.1, r.2)
        else readiLoop sb ip count (tot + k) (off + k) ((dst + k) % 2 ^ 64) b.1 r.2
  else some (tot, s, m)
termination_by count - tot
decreasing_by
  have inside := mod_bsize_lt off
  omega

def readi (sb : Superblock) (ip : Nat) (s : Fs.Op) (dst off count : Nat) (m : Bytes) :
    Option (Int × Fs.Op × Bytes) :=
  if (s.img.dinode ip).size < off ∨ (off + count) % 2 ^ 32 < off then some (0, s, m)
  else
    let count :=
      if (s.img.dinode ip).size < (off + count) % 2 ^ 32 then (s.img.dinode ip).size - off
      else count
    readiLoop w root sb ip count 0 off dst s m

structure World where
  pipe : Option (List UInt8)
  input : List (Option UInt8)
  disk : Fs.Op

structure Returned where
  r : Int
  file : File
  world : World
  mem : Bytes

/-- `fileread`; `none` is a panic, or a call that still waits. The `int` `n` becomes the `uint` of
`readi`. -/
def fileread (sb : Superblock) (f : File) (addr : Nat) (n : Int) (x : World) (m : Bytes) :
    Option Returned :=
  if !f.readable then some ⟨-1, f, x, m⟩
  else
    match f.type with
    | .pipe =>
      let r := piperead w root addr n x.pipe m
      some ⟨r.1, f, { x with pipe := r.2.1 }, r.2.2⟩
    | .device =>
      if noDevice f.major then some ⟨-1, f, x, m⟩
      else (consoleread w root addr n x.input m).map fun r =>
        ⟨r.1, f, { x with input := r.2.1 }, r.2.2⟩
    | .inode => (readi w root sb f.ip x.disk addr f.off (n % 2 ^ 32).toNat m).map fun r =>
      ⟨r.1, f.advance r.1, { x with disk := r.2.1 }, r.2.2⟩
    | .none => none

end

section
variable (w : Words) (root : Nat)

inductive Turn where
  | closed
  | full
  | room

/-- The loop of `pipewrite`, with the bytes it has stored; at the end of the list it still waits. -/
def pipewriteLoop (addr : Nat) (n : Int) (m : Bytes) :
    List Turn → Nat → List UInt8 → Option (Int × List UInt8)
  | [], i, sent => if i < n then none else some (i, sent)
  | turn :: turns, i, sent =>
    if i < n then
      match turn with
      | .closed => some (-1, sent)
      | .full => pipewriteLoop addr n m turns i sent
      | .room =>
        let r := copyin w root m 0 ((addr + i) % 2 ^ 64) 1 zeroBlock
        if r.1 = -1 then some (i, sent)
        else pipewriteLoop addr n m turns (i + 1) (sent ++ [r.2 0])
    else some (i, sent)

def pipewrite (addr : Nat) (n : Int) (m : Bytes) (turns : List Turn) : Option (Int × List UInt8) :=
  pipewriteLoop w root addr n m turns 0 []

/-- The loop of `consolewrite` for `left` more bytes, with those it gives to `uartputc`. -/
def consolewriteLoop (src : Nat) (m : Bytes) : Nat → Nat → Nat × List UInt8
  | 0, i => (i, [])
  | left + 1, i =>
    let r := copyin w root m 0 ((src + i) % 2 ^ 64) 1 zeroBlock
    if r.1 = -1 then (i, [])
    else
      let rest := consolewriteLoop src m left (i + 1)
      (rest.1, r.2 0 :: rest.2)

def consolewrite (src : Nat) (n : Int) (m : Bytes) : Nat × List UInt8 :=
  consolewriteLoop w root src m n.toNat 0

/-- The disk and the offset that a transaction of `filewrite` finds when it has the inode. -/
structure Moment where
  img : Image
  off : Nat

/-- The loop of `filewrite` on an inode, with the value of `i` at its end. -/
def filewriteLoop (sb : Superblock) (ip addr count : Nat) (m : Bytes) (moments : Nat → Moment)
    (k i : Nat) : Option Nat :=
  if i < count then
    let n1 := min (count - i) filewriteMax
    let off := (moments k).off
    (writei sb ip (userSource w root m ((addr + i) % 2 ^ 64) off n1) ⟨(moments k).img, []⟩ off
      n1).bind fun r =>
        if r.2 = n1 then filewriteLoop sb ip addr count m moments (k + 1) (i + n1) else some i
  else some i
termination_by count - i
decreasing_by
  have positive : 0 < filewriteMax := by decide
  omega

/-- `filewrite`, with the value it returns; `none` is a panic, or a call that still waits. -/
def filewrite (sb : Superblock) (f : File) (addr : Nat) (n : Int) (m : Bytes) (turns : List Turn)
    (moments : Nat → Moment) : Option Int :=
  if !f.writable then some (-1)
  else
    match f.type with
    | .pipe => (pipewrite w root addr n m turns).map Prod.fst
    | .device =>
      if noDevice f.major then some (-1) else some (consolewrite w root addr n m).1
    | .inode => (filewriteLoop w root sb f.ip addr n.toNat m moments 0 0).map fun i : Nat =>
      if (i : Int) = n then n else -1
    | .none => none

end

/-! ### Counts -/

/-- Only bytes of the user addresses from `low` to `high` have changed. -/
def Within (w : Words) (root low high : Nat) (m m' : Bytes) : Prop :=
  ∀ x, m' x ≠ m x → ∃ a, low ≤ a ∧ a < high ∧ paddr w root a = some x

variable {sb : Superblock} {f : File} {x : World} {moments : Nat → Moment}

lemma fileread_inode {w : Words} {root : Nat} (readable : f.readable = true)
    (type : f.type = .inode) (addr : Nat) (n : Int) (m : Bytes) : fileread w root sb f addr n x m =
    (readi w root sb f.ip x.disk addr f.off (n % 2 ^ 32).toNat m).map fun r =>
    ⟨r.1, f.advance r.1, { x with disk := r.2.1 }, r.2.2⟩ := by
  rw [fileread, readable, Bool.not_true, if_neg Bool.false_ne_true, type]

section
variable {w : Words} {root low high : Nat} {m m' : Bytes}

lemma Within.refl (m : Bytes) : Within w root low high m m := fun _ changed => absurd rfl changed

lemma Within.trans {mid high' : Nat} {m'' : Bytes} (one : Within w root low high' m m')
    (two : Within w root mid high m' m'') (le : high' ≤ high) (le' : low ≤ mid) :
    Within w root low high m m'' := by
  intro x changed
  by_cases same : m' x = m x
  · obtain ⟨a, from', below, here⟩ := two x (same ▸ changed)
    exact ⟨a, le'.trans from', below, here⟩
  obtain ⟨a, from', below, here⟩ := one x same
  exact ⟨a, from', below.trans_le le, here⟩

lemma Within.mono {high' : Nat} (h : Within w root low high' m m') (le : high' ≤ high) :
    Within w root low high m m' := h.trans (.refl m') le le_rfl

lemma copyout_within (w : Words) (root va : Nat) (src : Bytes) (len : Nat) (m : Bytes) :
    Within w root va (va + len) m (copyout w root va src len m).2 := by
  obtain ⟨done, le, -, -, frame, -⟩ := copyout_spec w root va src len m
  intro x changed
  by_contra none
  refine changed (frame x fun i less here => none ⟨va + i, ?_, ?_, here⟩) <;> omega

lemma copyout_end (va len : Nat) {src : Bytes} (copied : (copyout w root va src len m).1 ≠ -1)
    (some : 0 < len) : va + len < 2 ^ 64 := by
  obtain ⟨done, -, here, -, -, result⟩ := copyout_spec w root va src len m
  rcases result with ⟨-, rfl⟩ | ⟨bad, -⟩
  · obtain ⟨x, here⟩ := here (done - 1) (by omega)
    have := paddr_lt here
    have : maxva = 2 ^ 38 := by decide
    omega
  exact absurd bad copied

lemma copyout_unmapped {va len : Nat} (out : paddr w root va = none) (some : 0 < len)
    (src m : Bytes) : copyout w root va src len m = (-1, m) := by
  obtain ⟨done, -, here, -, frame, result⟩ := copyout_spec w root va src len m
  have nothing : done = 0 := by
    by_contra more
    obtain ⟨x, at'⟩ := here 0 (Nat.pos_of_ne_zero more)
    cases out.symm.trans at'
  subst nothing
  rcases result with ⟨-, all⟩ | ⟨bad, -⟩
  · omega
  · exact Prod.ext bad (funext fun x => frame x fun i less => absurd less (Nat.not_lt_zero i))

variable {addr : Nat}

lemma pipereadLoop_within (n : Int) (i : Nat) (data : List UInt8) (m : Bytes) (count : i ≤ n.toNat)
    (wrap : addr + i < 2 ^ 64) : (pipereadLoop w root addr n i data m).1 ≤ n.toNat ∧
    Within w root (addr + i) (addr + n.toNat) m (pipereadLoop w root addr n i data m).2.2 := by
  induction data generalizing i m with
  | nil => exact ⟨Int.ofNat_le.mpr count, .refl m⟩
  | cons ch data ih =>
    rw [pipereadLoop]
    by_cases more : (i : Int) < n
    · have copied := copyout_within w root (addr + i) (fun _ => ch) 1 m
      rw [if_pos more, Nat.mod_eq_of_lt wrap]
      by_cases bad : (copyout w root (addr + i) (fun _ => ch) 1 m).1 = -1
      · simp only [if_pos bad]
        exact ⟨Int.ofNat_le.mpr count, copied.mono (by omega)⟩
      simp only [if_neg bad]
      obtain ⟨le, rest⟩ := ih (i + 1) (copyout w root (addr + i) (fun _ => ch) 1 m).2 (by omega)
        (copyout_end (addr + i) 1 bad Nat.one_pos)
      exact ⟨le, copied.trans rest (by omega) (by omega)⟩
    rw [if_neg more]
    exact ⟨Int.ofNat_le.mpr count, .refl m⟩

lemma consolereadLoop_within {target : Int} (input : List (Option UInt8)) (n : Int)
    (dst : Nat) (m : Bytes) (count : n ≤ target) (start : 0 < n ∨ n = target ∨ n = 0)
    (wrap : dst < 2 ^ 64) {r : Int × List (Option UInt8) × Bytes}
    (returned : consolereadLoop w root target input n dst m = some r) :
    r.1 ≤ target.toNat ∧ Within w root dst (dst + n.toNat) m r.2.2 := by
  induction input generalizing n dst m with
  | nil =>
    rw [consolereadLoop] at returned
    split_ifs at returned with more
    cases returned
    exact ⟨by show target - n ≤ target.toNat; omega, .refl m⟩
  | cons c input ih =>
    rw [consolereadLoop.eq_def] at returned
    dsimp only at returned
    by_cases more : 0 < n
    · rw [if_pos more] at returned
      cases c with
      | none =>
        cases returned
        exact ⟨by show (-1 : Int) ≤ target.toNat; omega, .refl m⟩
      | some c =>
        have copied := copyout_within w root dst (fun _ => c) 1 m
        dsimp only at returned
        by_cases eof : c = ctrlD
        · rw [if_pos eof] at returned
          cases returned
          exact ⟨by show target - n ≤ target.toNat; omega, .refl m⟩
        rw [if_neg eof] at returned
        split_ifs at returned with bad line
        · cases returned
          exact ⟨by show target - n ≤ target.toNat; omega, copied.mono (by omega)⟩
        · cases returned
          exact ⟨by show target - (n - 1) ≤ target.toNat; omega, copied.mono (by omega)⟩
        have next := copyout_end dst 1 bad Nat.one_pos
        rw [Nat.mod_eq_of_lt next] at returned
        obtain ⟨le, rest⟩ := ih (n - 1) (dst + 1) _ (by omega) (by omega) next returned
        exact ⟨le, (copied.trans rest (by omega) (by omega)).mono (by omega)⟩
    rw [if_neg more] at returned
    cases returned
    exact ⟨by show target - n ≤ target.toNat; omega, .refl m⟩

variable {r : Int × Fs.Op × Bytes}

lemma readiLoop_within {ip count : Nat} (tot off dst : Nat)
    (s : Fs.Op) (m : Bytes) (le : tot ≤ count) (wrap : dst < 2 ^ 64)
    (returned : readiLoop w root sb ip count tot off dst s m = some r) :
    r.1 ≤ count ∧ Within w root dst (dst + (count - tot)) m r.2.2 := by
  induction gap : count - tot using Nat.strong_induction_on generalizing tot off dst s m with
  | _ gap ih =>
    rw [readiLoop.eq_def] at returned
    by_cases more : tot < count
    · rw [if_pos more] at returned
      obtain ⟨b, -, returned⟩ := bind_eq_some_iff.mp returned
      have part : min (count - tot) (bsize - off % bsize) ≤ count - tot := Nat.min_le_left ..
      have some : 0 < min (count - tot) (bsize - off % bsize) := by
        have inside := mod_bsize_lt off
        omega
      simp only at returned
      generalize min (count - tot) (bsize - off % bsize) = k at part some returned
      have copied := copyout_within w root dst (fun i => b.1.img.block b.2 (off % bsize + i)) k m
      split_ifs at returned with hole bad
      · cases returned
        exact ⟨Int.ofNat_le.mpr le, .refl m⟩
      · cases returned
        exact ⟨by show (-1 : Int) ≤ count; omega, copied.mono (by omega)⟩
      have next := copyout_end dst k bad some
      rw [Nat.mod_eq_of_lt next] at returned
      obtain ⟨le', rest⟩ := ih (count - (tot + k)) (by omega) (tot + k) (off + k) (dst + k) b.1 _
        (by omega) next returned rfl
      exact ⟨le', (copied.trans rest (by omega) (by omega)).mono (by omega)⟩
    rw [if_neg more] at returned
    cases returned
    exact ⟨Int.ofNat_le.mpr le, .refl m⟩

lemma readiLoop_unmapped {ip count off dst : Nat} {s : Fs.Op} (out : paddr w root dst = none)
    (returned : readiLoop w root sb ip count 0 off dst s m = some r) : r.1 ≤ 0 ∧ r.2.2 = m := by
  rw [readiLoop.eq_def] at returned
  by_cases more : 0 < count
  · rw [if_pos more] at returned
    obtain ⟨b, -, returned⟩ := bind_eq_some_iff.mp returned
    have inside := mod_bsize_lt off
    simp only [copyout_unmapped out (show 0 < min (count - 0) (bsize - off % bsize) by omega)]
      at returned
    split_ifs at returned <;> cases returned
    · exact ⟨le_rfl, rfl⟩
    · exact ⟨Int.neg_nonpos_of_nonneg Int.one_nonneg, rfl⟩
  · rw [if_neg more] at returned
    cases returned
    exact ⟨le_rfl, rfl⟩

/-- The first byte of a read that copies any is there at the end, whatever was there before. -/
lemma readiLoop_first (backed : Backed w root) (apart : Apart w root) {ip count off dst b : Nat}
    {s : Fs.Op} (h : Fs.Sound sb s.img) (here : paddr w root dst = some b) (more : 0 < count)
    (inside : off + count ≤ (s.img.dinode ip).size) : ∃ c : UInt8, ∀ m r,
      readiLoop w root sb ip count 0 off dst s m = some r → r.2.2 b = c := by
  obtain ⟨low, present, -⟩ := h.filled_contents ip off (by rw [length_contents]; omega)
  refine ⟨s.img.block (s.img.blockAt (ip, slot (off / bsize))) (off % bsize + 0),
    fun m r returned => ?_⟩
  rw [readiLoop.eq_def, if_pos more, bmap_found low present, bind_some, if_neg present] at returned
  have some : 0 < min (count - 0) (bsize - off % bsize) := by
    have inside := mod_bsize_lt off
    omega
  have few : min (count - 0) (bsize - off % bsize) ≤ count := by omega
  simp only at returned
  generalize min (count - 0) (bsize - off % bsize) = k at some few returned
  generalize data : (fun i => s.img.block _ (off % bsize + i)) = src at returned
  obtain ⟨done, le, -, bytes, -, result⟩ := copyout_spec w root dst src k m
  have first : (copyout w root dst src k m).2 b = src 0 := by
    have any : 0 < done := by
      rcases result with ⟨-, rfl⟩ | ⟨-, -, stop⟩
      · exact some
      · grind
    obtain ⟨x, at', byte⟩ := bytes apart 0 any
    cases here.symm.trans at'
    exact byte
  rw [congrFun data 0, ← first]
  split_ifs at returned with bad
  · cases returned
    rfl
  · have next := copyout_end dst k bad some
    rw [Nat.mod_eq_of_lt next] at returned
    by_contra changed
    obtain ⟨a, from', -, at'⟩ := (readiLoop_within _ _ _ s _ (by omega) next returned).2 b changed
    have := paddr_inj apart here at'
    omega

/-- A negative count is a large `uint`, which `readi` cuts to the rest of the file. It reads nothing
if the end of the range wraps, the offset is not inside the file or the first byte cannot be
copied. -/
def Bounded (w : Words) (root : Nat) (s : Fs.Op) (f : File) (addr : Nat) (n : Int) : Prop :=
  f.readable = true → f.type = .inode → n < 0 →
    -n ≤ f.off ∨ (s.img.dinode f.ip).size ≤ f.off ∨ paddr w root addr = none

variable {n : Int}

lemma readi_within {s : Fs.Op} (int : -2 ^ 31 ≤ n ∧ n < 2 ^ 31) (uint : f.off < 2 ^ 32)
    (wrap : addr < 2 ^ 64)
    (bounded : n < 0 → -n ≤ f.off ∨ (s.img.dinode f.ip).size ≤ f.off ∨ paddr w root addr = none)
    (returned : readi w root sb f.ip s addr f.off (n % 2 ^ 32).toNat m = some r) :
    r.1 ≤ n.toNat ∧ Within w root addr (addr + n.toNat) m r.2.2 := by
  rw [readi] at returned
  split at returned
  · cases returned
    exact ⟨Int.natCast_nonneg _, .refl m⟩
  rename_i inside
  by_cases out : paddr w root addr = none
  · obtain ⟨le, same⟩ := readiLoop_unmapped out returned
    exact ⟨le.trans (Int.natCast_nonneg _), by rw [same]; exact .refl m⟩
  have few : (if (s.img.dinode f.ip).size < (f.off + (n % 2 ^ 32).toNat) % 2 ^ 32
      then (s.img.dinode f.ip).size - f.off else (n % 2 ^ 32).toNat) ≤ n.toNat := by
    simp only [out, or_false] at bounded
    split <;> omega
  obtain ⟨le, within⟩ := readiLoop_within 0 f.off addr s m (Nat.zero_le _) wrap returned
  exact ⟨le.trans (Int.ofNat_le.mpr few), within.mono (by omega)⟩

lemma fileread_within (int : -2 ^ 31 ≤ n ∧ n < 2 ^ 31)
    (uint : f.off < 2 ^ 32) (wrap : addr < 2 ^ 64) (bounded : Bounded w root x.disk f addr n)
    {r : Returned}
    (returned : fileread w root sb f addr n x m = some r) :
    r.r ≤ n.toNat ∧ Within w root addr (addr + n.toNat) m r.mem := by
  have failed : (-1 : Int) ≤ n.toNat := by omega
  unfold fileread at returned
  by_cases readable : f.readable
  · rw [readable, Bool.not_true, if_neg Bool.false_ne_true] at returned
    generalize type : f.type = pos at returned
    cases pos with
    | none => cases returned
    | pipe =>
      cases returned
      cases pipe : x.pipe with
      | none => exact ⟨failed, .refl m⟩
      | some data => exact pipereadLoop_within n 0 data m (Nat.zero_le _) wrap
    | device =>
      simp only at returned
      split_ifs at returned with missing
      · cases returned
        exact ⟨failed, .refl m⟩
      obtain ⟨r', read, rfl⟩ := map_eq_some_iff.mp returned
      exact consolereadLoop_within x.input n addr m le_rfl (.inr (.inl rfl)) wrap read
    | inode =>
      obtain ⟨r', read, rfl⟩ := map_eq_some_iff.mp returned
      exact readi_within int uint wrap (bounded readable type) read
  rw [Bool.not_eq_true] at readable
  rw [readable, Bool.not_false, if_pos rfl] at returned
  cases returned
  exact ⟨failed, .refl m⟩

lemma pipewriteLoop_le (turns : List Turn) (i : Nat) (sent : List UInt8) (le : i ≤ n.toNat)
    {r : Int × List UInt8} (returned : pipewriteLoop w root addr n m turns i sent = some r) :
    r.1 ≤ n.toNat := by
  induction turns generalizing i sent with
  | nil =>
    rw [pipewriteLoop] at returned
    split_ifs at returned
    cases returned
    exact Int.ofNat_le.mpr le
  | cons turn turns ih =>
    rw [pipewriteLoop.eq_def] at returned
    dsimp only at returned
    by_cases more : (i : Int) < n
    · rw [if_pos more] at returned
      cases turn with
      | closed =>
        cases returned
        show (-1 : Int) ≤ n.toNat
        omega
      | full => exact ih i sent le returned
      | room =>
        simp only at returned
        split_ifs at returned
        · cases returned
          exact Int.ofNat_le.mpr le
        exact ih (i + 1) _ (by omega) returned
    rw [if_neg more] at returned
    cases returned
    exact Int.ofNat_le.mpr le

lemma consolewriteLoop_le (w : Words) (root : Nat) (m : Bytes) (src left i : Nat) :
    (consolewriteLoop w root src m left i).1 ≤ i + left := by
  induction left generalizing i with
  | zero => exact le_rfl
  | succ left ih =>
    rw [consolewriteLoop]
    simp only
    split_ifs
    · exact Nat.le_add_right ..
    have := ih (i + 1)
    show (consolewriteLoop w root src m left (i + 1)).1 ≤ i + (left + 1)
    omega

lemma filewrite_le {turns : List Turn} {r : Int}
    (returned : filewrite w root sb f addr n m turns moments = some r) : r ≤ n.toNat := by
  have failed : (-1 : Int) ≤ n.toNat := by omega
  unfold filewrite at returned
  by_cases writable : f.writable
  · rw [writable, Bool.not_true, if_neg Bool.false_ne_true] at returned
    generalize type : f.type = pos at returned
    cases pos with
    | none => cases returned
    | pipe =>
      obtain ⟨r', wrote, rfl⟩ := map_eq_some_iff.mp returned
      exact pipewriteLoop_le turns 0 [] (Nat.zero_le _) wrote
    | device =>
      simp only at returned
      split_ifs at returned
      · cases returned
        exact failed
      cases returned
      have := consolewriteLoop_le w root m addr n.toNat 0
      rw [Nat.zero_add] at this
      exact Int.ofNat_le.mpr this
    | inode =>
      obtain ⟨i, -, rfl⟩ := map_eq_some_iff.mp returned
      split_ifs
      · exact Int.self_le_toNat n
      exact failed
  rw [Bool.not_eq_true] at writable
  rw [writable, Bool.not_false, if_pos rfl] at returned
  cases returned
  exact failed

/-! ### Calls on inodes return -/

lemma readiLoop_returns (w : Words) (root ip count : Nat) {s : Fs.Op} (h : Fs.Sound sb s.img)
    (tot off dst : Nat) (m : Bytes) (inside : off + (count - tot) ≤ (s.img.dinode ip).size) :
    ∃ r, readiLoop w root sb ip count tot off dst s m = some r := by
  induction gap : count - tot using Nat.strong_induction_on generalizing tot off dst m with
  | _ gap ih =>
    rw [readiLoop.eq_def]
    by_cases more : tot < count
    · have some : 0 < min (count - tot) (bsize - off % bsize) := by
        have inside := mod_bsize_lt off
        omega
      obtain ⟨low, present, -⟩ := h.filled_contents ip off (by rw [length_contents]; omega)
      rw [if_pos more, bmap_found low present, bind_some, if_neg present]
      simp only
      split_ifs
      · exact ⟨_, rfl⟩
      exact ih _ (by omega) _ _ _ _ (by omega) rfl
    rw [if_neg more]
    exact ⟨_, rfl⟩

lemma fileread_returns (h : Fs.Sound sb x.disk.img) (type : f.type = .inode) (addr : Nat)
    (n : Int) (m : Bytes) : ∃ r, fileread w root sb f addr n x m = some r := by
  unfold fileread
  split
  · exact ⟨_, rfl⟩
  rw [type]
  suffices ∃ r, readi w root sb f.ip x.disk addr f.off (n % 2 ^ 32).toNat m = some r by
    obtain ⟨r, read⟩ := this
    exact ⟨_, congrArg (Option.map _) read⟩
  rw [readi]
  split
  · exact ⟨_, rfl⟩
  refine readiLoop_returns _ _ _ _ h 0 f.off addr m ?_
  split <;> omega

lemma filewriteLoop_returns {ip : Nat} (fits : sb.size ≤ 2 ^ 32)
    (sound : ∀ k, Fs.Sound sb (moments k).img)
    (type : ∀ k, ((moments k).img.dinode ip).type ≠ .none) (w : Words) (root : Nat) (m : Bytes)
    (count addr k i : Nat) : ∃ r, filewriteLoop w root sb ip addr count m moments k i = some r := by
  induction gap : count - i using Nat.strong_induction_on generalizing k i with
  | _ gap ih =>
    rw [filewriteLoop.eq_def]
    by_cases more : i < count
    · have chunk : min (count - i) filewriteMax < 2 ^ 32 := by
        rw [filewriteMax_eq]
        simp only [bsize]
        omega
      have some : 0 < min (count - i) filewriteMax := by
        have positive : 0 < filewriteMax := by decide
        omega
      obtain ⟨r, wrote, -⟩ := (sound k).writei (userSource w root m ((addr + i) % 2 ^ 64)
        (moments k).off (min (count - i) filewriteMax)) (moments k).off fits (type k) chunk
      rw [if_pos more]
      simp only
      rw [wrote, bind_some]
      split
      · exact ih _ (by omega) _ _ rfl
      exact ⟨_, rfl⟩
    rw [if_neg more]
    exact ⟨_, rfl⟩

lemma filewrite_returns (fits : sb.size ≤ 2 ^ 32) (sound : ∀ k, Fs.Sound sb (moments k).img)
    (allocated : ∀ k, ((moments k).img.dinode f.ip).type ≠ .none)
    (type : f.type = .inode) (addr : Nat) (n : Int) (m : Bytes) (turns : List Turn) :
    ∃ r, filewrite w root sb f addr n m turns moments = some r := by
  unfold filewrite
  split
  · exact ⟨_, rfl⟩
  rw [type]
  obtain ⟨i, wrote⟩ := filewriteLoop_returns fits sound allocated w root m n.toNat addr 0 0
  exact ⟨_, congrArg (Option.map _) wrote⟩

end

/-- The call returns at most the count, and changes user memory only in the range it is given. -/
def Respects (w : Words) (root addr : Nat) (n : Int) (m : Bytes) (r : Returned) : Prop :=
  r.r ≤ max n 0 ∧ ∀ b, r.mem b ≠ m b → ∃ a : Nat, addr ≤ a ∧ (a : Int) < addr + max n 0 ∧
    paddr w root a = some b

lemma fileread_exceeds {w : Words} {root addr : Nat} {n : Int} (backed : Backed w root)
    (apart : Apart w root) (h : Fs.Sound sb x.disk.img) (int : -2 ^ 31 ≤ n)
    (bad : ¬ Bounded w root x.disk f addr n) :
    ∃ m r, fileread w root sb f addr n x m = some r ∧ ¬ Respects w root addr n m r := by
  simp only [Bounded, Classical.not_imp, not_or, not_le] at bad
  obtain ⟨readable, type, negative, few, inside, mapped⟩ := bad
  obtain ⟨b, here⟩ := ne_none_iff_exists'.mp mapped
  obtain ⟨count, pos, le, eq⟩ : ∃ count, 0 < count ∧
      f.off + count ≤ (x.disk.img.dinode f.ip).size ∧ ∀ m,
        readi w root sb f.ip x.disk addr f.off (n % 2 ^ 32).toNat m =
          readiLoop w root sb f.ip count 0 f.off addr x.disk m := by
    refine ⟨if (x.disk.img.dinode f.ip).size < (f.off + (n % 2 ^ 32).toNat) % 2 ^ 32
      then (x.disk.img.dinode f.ip).size - f.off else (n % 2 ^ 32).toNat, ?_, ?_, fun m => ?_⟩
    · split <;> omega
    · split <;> omega
    · rw [readi, if_neg (by omega)]
  obtain ⟨c, first⟩ := readiLoop_first backed apart h here pos le
  obtain ⟨d, other⟩ := exists_byte_ne c
  obtain ⟨r, read⟩ := readiLoop_returns w root f.ip count h 0 f.off addr (fun _ => d) (by omega)
  refine ⟨fun _ => d, _, (fileread_inode readable type ..).trans
    (congrArg (Option.map _) ((eq _).trans read)), fun respects => ?_⟩
  obtain ⟨a, low, high, -⟩ := respects.2 b ((first _ r read).trans_ne other.symm)
  omega

/-- `fileread` respects the count whatever is in memory exactly if no negative count meets a file
that goes on behind the offset, and `filewrite` always does. On an inode they return. -/
theorem counts_are_respected_iff (w : Words) (root : Nat) (sb : Superblock) (f : File) (addr : Nat)
    (n : Int) (wrap : addr < 2 ^ 64) (int : -2 ^ 31 ≤ n ∧ n < 2 ^ 31) (uint : f.off < 2 ^ 32) :
    (∀ x, Bounded w root x.disk f addr n → ∀ m r, fileread w root sb f addr n x m = some r →
      Respects w root addr n m r) ∧
    (∀ x, Backed w root → Apart w root → Fs.Sound sb x.disk.img →
      ((∀ m r, fileread w root sb f addr n x m = some r → Respects w root addr n m r) ↔
        Bounded w root x.disk f addr n)) ∧
    (∀ m turns moments r, filewrite w root sb f addr n m turns moments = some r → r ≤ max n 0) ∧
    (f.type = .inode → ∀ m,
      (∀ x, Fs.Sound sb x.disk.img → ∃ r, fileread w root sb f addr n x m = some r) ∧
      ∀ turns moments, sb.size ≤ 2 ^ 32 → (∀ k, Fs.Sound sb (moments k).img) →
        (∀ k, ((moments k).img.dinode f.ip).type ≠ .none) →
        ∃ r, filewrite w root sb f addr n m turns moments = some r) := by
  have enough : ∀ x, Bounded w root x.disk f addr n → ∀ m r,
      fileread w root sb f addr n x m = some r → Respects w root addr n m r := by
    intro x bounded m r returned
    obtain ⟨le, within⟩ := fileread_within int uint wrap bounded returned
    rw [Respects, ← Int.toNat_eq_max]
    refine ⟨le, fun b changed => ?_⟩
    obtain ⟨a, low, high, here⟩ := within b changed
    exact ⟨a, low, by omega, here⟩
  refine ⟨enough, fun x backed apart h => ⟨fun all => ?_, enough x⟩, fun m turns moments r returned =>
    Int.toNat_eq_max n ▸ filewrite_le returned, fun type m => ⟨fun x h => fileread_returns h type
      addr n m, fun turns moments fits sound allocated =>
        filewrite_returns fits sound allocated type addr n m turns⟩⟩
  by_contra bad
  obtain ⟨m, r, returned, exceeds⟩ := fileread_exceeds backed apart h int.1 bad
  exact exceeds (all m r returned)

def openFile : File := ⟨.inode, true, false, 1, 0, 0⟩

def smallWorld : World := ⟨none, [], smallFile⟩

theorem openFile_counts : ∃ r,
    fileread onePage 1 fsSb openFile 0 5 smallWorld (fun _ => 7) = some r ∧
      r.r ≤ 5 := by
  obtain ⟨read, -, -, inode⟩ := counts_are_respected_iff onePage 1 fsSb openFile 0 5
    (by decide) (by decide) (by decide)
  obtain ⟨r, returned⟩ := (inode rfl fun _ => 7).1 smallWorld smallFile_sound
  exact ⟨r, returned, (read smallWorld (fun _ _ negative => absurd negative (by decide)) _ r
    returned).1⟩

/-- With the count -1 the 20 bytes of the file are read, to the 20 bytes behind the address. -/
theorem negative_count_reads : ∃ r,
    fileread onePage 1 fsSb openFile 0 (-1) smallWorld (fun _ => 7) = some r ∧
      r.r = 20 ∧ paddr onePage 1 0 = some 16384 ∧ r.mem 16384 = 0 := by
  have facts : (fileread onePage 1 fsSb openFile 0 (-1) smallWorld fun _ => 7).map
      (fun r => (r.r, r.mem 16384)) = some (20, 0) := by decide +kernel
  obtain ⟨r, run, facts⟩ := map_eq_some_iff.mp facts
  exact ⟨r, run, congrArg Prod.fst facts, by decide +kernel, congrArg Prod.snd facts⟩

/-! ### Bytes of a pipe that cannot be copied -/

section
variable {w : Words} {root addr : Nat} {n : Int}

lemma copyout_byte (backed : Backed w root) (apart : Apart w root)
    {va b : Nat} (here : paddr w root va = some b) (ch : UInt8) (m : Bytes) :
    ∃ m', copyout w root va (fun _ => ch) 1 m = (0, m') ∧ m' b = ch ∧ ∀ x, x ≠ b → m' x = m x := by
  obtain ⟨done, -, -, bytes, frame, result⟩ := copyout_spec w root va (fun _ => ch) 1 m
  rcases result with ⟨ok, rfl⟩ | ⟨-, less, stop⟩
  · grind
  rw [Nat.lt_one_iff.mp less, Nat.add_zero, here] at stop
  cases stop backed

lemma pipereadLoop_copies (backed : Backed w root)
    (apart : Apart w root) (i : Nat) (data : List UInt8) (m : Bytes)
    (mapped : ∀ j < data.length, ((i + j : Nat) : Int) < n → paddr w root (addr + i + j) ≠ none) :
    ∃ m', pipereadLoop w root addr n i data m = (((i + min data.length (n.toNat - i) : Nat) : Int),
    data.drop (min data.length (n.toNat - i)), m') ∧ (∀ j < min data.length (n.toNat - i),
    ∃ b, paddr w root (addr + i + j) = some b ∧ m' b = data.getD j 0) ∧ ∀ b,
    (∀ j < min data.length (n.toNat - i), paddr w root (addr + i + j) ≠ some b) → m' b = m b := by
  induction data generalizing i m with
  | nil =>
    rw [List.length_nil, Nat.zero_min]
    exact ⟨m, rfl, fun j less => absurd less (Nat.not_lt_zero j), fun _ _ => rfl⟩
  | cons ch data ih =>
    rw [pipereadLoop]
    by_cases more : (i : Int) < n
    · obtain ⟨b, here⟩ := ne_none_iff_exists'.mp (mapped 0 (Nat.succ_pos _) more)
      have low := paddr_lt here
      have : maxva = 2 ^ 38 := by decide
      obtain ⟨m₁, copied, byte, frame⟩ := copyout_byte backed apart here ch m
      obtain ⟨m', run, bytes, rest⟩ := ih (i + 1) m₁ fun j less count => by
        have := mapped (j + 1) (Nat.succ_lt_succ less) (by omega)
        rwa [Nat.add_assoc addr, Nat.add_assoc, Nat.add_comm 1, ← Nat.add_assoc]
      have count : min (ch :: data).length (n.toNat - i) =
          min data.length (n.toNat - (i + 1)) + 1 := by
        rw [List.length_cons]
        omega
      rw [if_pos more, Nat.mod_eq_of_lt (by omega), ← Nat.add_zero (addr + i), copied]
      simp only [if_neg (show (0 : Int) ≠ -1 by decide)]
      rw [run, count]
      refine ⟨m', ?_, fun j less => ?_, fun x out => ?_⟩
      · rw [List.drop_succ_cons, Nat.add_assoc, Nat.add_comm 1]
      · cases j with
        | zero =>
          refine ⟨b, here, (rest b fun j less at' => ?_).trans byte⟩
          have := paddr_inj apart here at'
          omega
        | succ j => grind
      refine (rest x fun j less at' => ?_).trans (frame x fun eq => ?_)
      · exact out (j + 1) (Nat.succ_lt_succ less)
          (by rwa [← Nat.add_assoc addr, Nat.add_right_comm] at at')
      exact out 0 (Nat.succ_pos _) (eq ▸ here)
    rw [if_neg more, show n.toNat - i = 0 by omega, Nat.min_zero]
    exact ⟨m, rfl, fun j less => absurd less (Nat.not_lt_zero j), fun _ _ => rfl⟩

/-- The byte that meets a page that is not mapped is taken and not counted. -/
lemma pipereadLoop_loses (i : Nat) (data : List UInt8) (m : Bytes) (wrap : addr + i < 2 ^ 64)
    (j : Nat) (less : j < data.length) (count : ((i + j : Nat) : Int) < n)
    (out : paddr w root (addr + i + j) = none) :
    (pipereadLoop w root addr n i data m).1 + (pipereadLoop w root addr n i data m).2.1.length + 1 =
    i + data.length := by
  induction data generalizing i m j with
  | nil => cases less
  | cons ch data ih =>
    rw [List.length_cons] at less ⊢
    rw [pipereadLoop, if_pos (by omega), Nat.mod_eq_of_lt wrap]
    by_cases bad : (copyout w root (addr + i) (fun _ => ch) 1 m).1 = -1
    · simp only [if_pos bad]
      omega
    · simp only [if_neg bad]
      cases j with
      | zero =>
        rw [Nat.add_zero] at out
        rw [copyout_unmapped out Nat.one_pos] at bad
        exact absurd rfl bad
      | succ j =>
        have := ih (i + 1) (copyout w root (addr + i) (fun _ => ch) 1 m).2
          (copyout_end (addr + i) 1 bad Nat.one_pos) j (by omega) (by omega)
          (by rwa [← Nat.add_assoc addr, Nat.add_right_comm (addr + i)])
        omega

end

end Xv6.FileIo
