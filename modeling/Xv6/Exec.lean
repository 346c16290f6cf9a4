import Xv6.ExecLoad
import Xv6.FileCopies

/-! `exec` (exec.c) and `sys_exec` (sysfile.c), for a process with one thread: the loop over the
other threads then only takes and releases their locks. -/
namespace Xv6.Exec
open PageTable UserCopy Vm List Function Fs
open Option hiding or_assoc

/-- `p->name`: what is behind the last slash, cut by `safestrcpy`. -/
def programName (path : List UInt8) : List UInt8 :=
  (path.reverse.takeWhile (· != 47)).reverse.take 15

/-- `exec`, with its result; `none` is a panic. -/
def exec (sb : Fs.Superblock) (code : Nat) (p : Proc) (path : List UInt8)
    (argv : List (List UInt8)) (name : List UInt8) (x : Machine) : Option (Int × Proc × Machine) :=
  (execLoad sb code p path name x).bind fun r =>
    let x := r.2
    match r.1 with
    | none => some (-1, p, x)
    | some l =>
      let pushed := pushArgs x.mem.words l.1 l.2.1 argv x.bytes
      match pushed.1 with
      | none =>
        (bad sb (some (l.1, l.2.1)) none { x with bytes := pushed.2 }).map fun x => (-1, p, x)
      | some a =>
        (procFreepagetable x.mem p.pagetable p.sz).map fun k =>
          (a.1, { p with
            pagetable := l.1
            sz := l.2.1
            name := programName path
            epc := l.2.2
            sp := a.2
            a1 := a.2 }, { x with mem := k, bytes := pushed.2 })

abbrev maxpath : Nat := 128

def fetchaddr (w : Words) (root sz : Nat) (m : Bytes) (addr : Nat) : Option Nat :=
  if sz ≤ addr ∨ sz < (addr + 8) % 2 ^ 64 then none
  else
    let r := copyin w root m 0 addr 8 fun _ => 0
    if r.1 ≠ 0 then none else some (field ((List.range 8).map r.2) 0 8)

/-- What the loop of `sys_exec` has: the pages in `argv`, the strings in them, and the memory. -/
structure Args where
  pages : List Nat
  argv : List (List UInt8)
  mem : Mem
  bytes : Bytes

/-- The string of a page that `kalloc` has given, with the result of `fetchstr`. -/
def Args.fetch (a : Args) (p : Proc) (uarg page : Nat) (k : Mem) : Option Int × Args :=
  let m := memmove a.bytes (page * pgsize) (fun _ => 5) pgsize
  let r := fetchstr k.words p.pagetable m uarg pgsize fun j => m (page * pgsize + j)
  (r.1, ⟨a.pages ++ [page], a.argv ++ [(List.range (r.1.getD 0).toNat).map r.2], k,
    memmove m (page * pgsize) r.2 pgsize⟩)

/-- The loop of `sys_exec` for `left` more entries, and whether it has ended without `goto bad`. -/
def fetchArgs (p : Proc) (uargv : Nat) : Nat → Nat → Args → Option (Bool × Args)
  | 0, _, a => some (false, a)
  | left + 1, i, a =>
    match fetchaddr a.mem.words p.pagetable p.sz a.bytes ((uargv + 8 * i) % 2 ^ 64) with
    | none => some (false, a)
    | some uarg =>
      if uarg = 0 then some (true, a)
      else
        match kalloc a.mem with
        | none => some (false, a)
        | some (page, k) =>
          let r := a.fetch p uarg page k
          r.1.bind fun n =>
            if n < 0 then some (false, r.2) else fetchArgs p uargv left (i + 1) r.2

def kfreeAll (k : Mem) (pages : List Nat) : Mem := pages.foldl kfree k

/-- `sys_exec`, with what is in its path buffer and in the name buffer of `namei`. -/
def sysExec (sb : Fs.Superblock) (code : Nat) (p : Proc) (upath uargv : Nat) (buf : Bytes)
    (name : List UInt8) (x : Machine) : Option (Int × Proc × Machine) :=
  let path := fetchstr x.mem.words p.pagetable x.bytes upath maxpath buf
  path.1.bind fun n =>
    if n < 0 then some (-1, p, x)
    else
      (fetchArgs p uargv maxarg 0 ⟨[], [], x.mem, x.bytes⟩).bind fun a =>
        let x := { x with mem := a.2.mem, bytes := a.2.bytes }
        if a.1 then
          (exec sb code p ((List.range n.toNat).map path.2) a.2.argv name x).map fun r =>
            (r.1, r.2.1, { r.2.2 with mem := kfreeAll r.2.2.mem a.2.pages })
        else some (-1, p, { x with mem := kfreeAll x.mem a.2.pages })

/-! ### Two address spaces -/

section
variable {k k₁ : Mem} {root oldroot n sz code frame y a : Nat} {tables tables' : Set Nat}
  {m m' : Map} {w w' : Words}

lemma space_move (h : Space k root tables m) (same : ∀ y ∈ tables, k₁.words y = k.words y)
    (nodup : k₁.free.Nodup) (sub : ∀ y ∈ k₁.free, y ∈ k.free) : Space k₁ root tables m :=
  ⟨refines_congr h.refines same, nodup, fun y own => h.small y (own.imp_left (sub y)),
    fun y mem => h.freeTables y (sub y mem), fun y mem => h.freeLeaves y (sub y mem), h.leafTables,
    h.inj, h.readable⟩

lemma built_paddr (built : Built k k₁ root tables m) (img : Vm.Image m n code frame)
    (here : paddr k₁.words root a = some y) : y / pgsize ∈ k.free := by
  rw [paddr, map_eq_some_iff] at here
  obtain ⟨page, user, rfl⟩ := here
  obtain ⟨less, f, there⟩ := leaf_of_userPage built.space.refines img user
  have inside := Nat.mod_lt a (show 0 < pgsize by decide)
  rw [div_page (Nat.le_add_right ..) (Nat.add_lt_add_left inside _)]
  exact (built.own page).mp (.inr (.inr ⟨_, f, less.trans_le img.fits, there⟩))

lemma commit_spec (old : Space k oldroot tables m) (img : Vm.Image m (Vm.pages sz) code frame)
    (built : Built k k₁ root tables' m') : ∃ k₂, procFreepagetable k₁ oldroot sz = some k₂ ∧
    Space k₂ root tables' m' ∧ ∀ y, Own k₂ tables' m' y ↔ Own k tables m y := by
  have sub : ∀ y ∈ k₁.free, y ∈ k.free := fun y mem => (built.own y).mp (.inl mem)
  have old₁ : Space k₁ oldroot tables m := space_move old
    (fun y mem => built.frame y fun free => old.freeTables y free mem) built.space.nodup sub
  obtain ⟨k₂, run, freed⟩ := old₁.procFreepagetable img
  have apart : ∀ y, y ∈ tables' ∨ y ∈ leaves m' → ¬ Own k₁ tables m y := by
    intro y mine own
    have free := (built.own y).mp (.inr mine)
    rcases own with mem | mem | mem
    · rcases mine with table | leaf
      · exact built.space.freeTables y mem table
      exact built.space.freeLeaves y mem leaf
    · exact old.freeTables y free mem
    exact old.freeLeaves y free mem
  refine ⟨k₂, run, ⟨refines_congr built.space.refines fun y mem => freed.frame y (apart y (.inl
    mem)), freed.nodup, fun y own => ?_, fun y mem table => apart y (.inl table) ((freed.mem y).mp
    mem), fun y mem leaf => apart y (.inr leaf) ((freed.mem y).mp mem), built.space.leafTables,
    built.space.inj, built.space.readable⟩, fun y => ?_⟩
  · rcases own with mem | mine
    · exact old₁.small y ((freed.mem y).mp mem)
    exact built.space.small y (.inr mine)
  have all := built.own y
  rw [Own, freed.mem, Own, Own, ← all, Own]
  simp only [or_assoc, or_left_comm, or_comm]

lemma paddr_congr (r : Refines w root tables m) (r' : Refines w' root tables' m) (a : Nat) :
    paddr w' root a = paddr w root a := by
  have same : userPage w' root (a / pgsize) = userPage w root (a / pgsize) := by
    by_cases below : a / pgsize < 67108864
    · rw [userPage_eq r below, userPage_eq r' below]
    have top : maxva = 67108864 * pgsize := by decide
    have none : ∀ w, userPage w root (a / pgsize) = none := by
      intro w
      rw [eq_none_iff_forall_ne_some]
      intro page here
      have := userPage_lt here
      rw [top] at this
      exact below (Nat.lt_of_mul_lt_mul_right this)
    rw [none, none]
  rw [paddr, paddr, same]

lemma Arguments.congr {b : Bytes} {base sp : Nat} {argv : List (List UInt8)}
    (h : Arguments w root b base sp argv) (same : ∀ a, paddr w' root a = paddr w root a) :
    Arguments w' root b base sp argv := by
  have bytes : peek w' root b = peek w root b := by
    funext a
    rw [peek, peek, same]
  have words : word w' root b = word w root b := by
    funext a
    rw [word, word, bytes]
  exact ⟨h.aligned, h.above, words ▸ h.words, bytes ▸ h.strings, h.apart, h.inside⟩

end

/-! ### A machine -/

/-- The headers of a program with one segment, of one page. -/
def header : Fs.Block := fun i =>
  ([(0, 0x7F), (1, 0x45), (2, 0x4C), (3, 0x46), (24, 4), (32, 64), (56, 1), (64, 1), (68, 5),
    (96, 64), (105, 16)].lookup i).getD 0

lemma sound_program {sb : Fs.Superblock} {m : Fs.Image} {n b : Nat} {v : Fs.Block}
    (h : Fs.Sound sb m) (here : m.blockAt (n, slot 0) = b) (some : b ≠ 0) :
    Fs.Sound sb ((m.setInode n { m.dinode n with nlink := 1, size := 120 }).setBlock b v) := by
  have first : ∀ f, f * bsize < 120 → f = 0 := by
    intro f low
    simp only [bsize] at low
    omega
  have sound : Fs.Sound sb (m.setInode n { m.dinode n with nlink := 1, size := 120 }) :=
    h.setInode rfl rfl (show 120 ≤ maxfile * bsize by decide) fun f low => by
      rw [first f low, here]
      exact some
  have same : (m.setInode n { m.dinode n with nlink := 1, size := 120 }).blockAt (n, slot 0) =
      b := by
    rw [blockAt_setInode (by rfl)]
    exact here
  exact (sound.write (by decide) same some v).1

def programDisk : Fs.Op :=
  ⟨(Fs.smallFile.img.setInode 1
    { Fs.smallFile.img.dinode 1 with nlink := 1, size := 120 }).setBlock 46 header, []⟩

lemma programDisk_sound : Fs.Sound fsSb programDisk.img :=
  sound_program smallFile_sound smallFile_block (by decide)

/-- The memory after `proc_pagetable` and `sbrk`, with `n` pages of which these have taken six. -/
def bootMem (n : Nat) : Mem :=
  (((procPagetable ⟨fun _ _ => 0, List.range' 1 n⟩ 33 34).bind fun r =>
    growproc r.2 1 0 4096).getD (none, ⟨fun _ _ => 0, []⟩)).2

lemma bootMem_space {n : Nat} (pages : n = 14 ∨ n = 20) : ∃ tables m,
    Space (bootMem n) 1 tables m ∧ Vm.Image m (Vm.pages 4096) 33 34 ∧
      ∀ y, Own (bootMem n) tables m y → y ≠ 0 := by
  have made : ((procPagetable ⟨fun _ _ => 0, range' 1 n⟩ 33 34).bind fun r =>
      (growproc r.2 1 0 4096).map fun g => (r.1, g.1)) = some (some 1, some 4096) := by
    rcases pages with rfl | rfl <;> decide +kernel
  have small : ∀ y ∈ range' 1 n, y < phystop := by
    rcases pages with rfl | rfl <;> decide
  rcases procPagetable_spec (k := ⟨fun _ _ => 0, range' 1 n⟩) nodup_range' small 33 34
    with ⟨k', run, -⟩ | ⟨root, k', tables, m, run, built, img⟩
  · rw [run] at made
    simp at made
  obtain ⟨r, k, tables', m', grown, space, keeps, -, image⟩ :=
    built.space.growproc (show Vm.Image m (Vm.pages 0) 33 34 from img)
      (show (4096 : Int) < 2 ^ 31 by decide)
  rw [run, bind_some] at made
  obtain ⟨⟨r', k₁⟩, grown', facts⟩ := map_eq_some_iff.mp made
  cases facts
  cases grown.symm.trans grown'
  have same : bootMem n = k := by
    rw [bootMem, run, bind_some, grown]
    rfl
  rw [same]
  refine ⟨tables', m', space, image 4096 rfl, fun y own => ?_⟩
  have mem := (built.own y).mp ((keeps.own y).mp own)
  rw [mem_range'_1] at mem
  omega

/-- A process of one page whose current directory is the file. In the page there is an empty path
at 0, and the argument `a` in an array at 16. -/
def starter : Proc := ⟨1, 4096, [], 0, 0, 0, 1, 34⟩

def boot (n : Nat) : Machine :=
  ⟨bootMem n, fun a => if a = 16400 then 32 else if a = 16416 then 97 else 0,
    ⟨programDisk, fun _ => 1, fun _ => true⟩, 0⟩

lemma boot_files (n : Nat) : Files fsSb starter (boot n) := by
  have file : (programDisk.img.dinode 1).type = .file ∧ (programDisk.img.dinode 1).nlink = 1 := by
    decide +kernel
  have type : (programDisk.img.dinode 1).type ≠ .none := by rw [file.1]; decide
  refine ⟨programDisk_sound, fun n dir => ?_, ⟨type, file.2.trans_ne Int.one_ne_zero⟩, type,
    Nat.one_pos⟩
  obtain ⟨-, grown, -⟩ := oneFile_sound.bmapAddr (n := 1) (k := 0) (by decide) (by decide)
  by_cases one : n = 1
  · rw [one] at dir
    cases file.1.symm.trans dir
  have free : (programDisk.img.dinode n).type = .none := by
    rw [programDisk, Fs.Image.setBlock_dinode, Fs.Image.setInode_dinode, update_of_ne one,
      smallFile, Fs.Image.setInode_dinode, update_of_ne one, grown.inodes n one,
      oneFile, Fs.Image.setInode_dinode, update_of_ne one]
    rfl
  cases free.symm.trans dir

section
variable {sb : Fs.Superblock} {code : Nat} {p : Proc} {x : Machine} {path name : List UInt8}
  {tables : Set Nat} {m : Map}

/-- The image `l` that `execLoad` has built on the machine `x`, giving `x₁`, with the arguments on
its stack, is that of the process, which returns their number. No page is lost since `x₀`. -/
structure Committed (sb : Fs.Superblock) (code : Nat) (p : Proc) (path : List UInt8)
    (argv : List (List UInt8)) (name : List UInt8) (x₀ x : Machine) (tables : Set Nat) (m : Map)
    (l : Nat × Nat × Nat) (x₁ : Machine) (tables' : Set Nat) (m' : Map) (r : Int) (p' : Proc)
    (x' : Machine) : Prop where
  loaded : execLoad sb code p path name x = some (some l, x₁)
  pushed : pushArgs x₁.mem.words l.1 l.2.1 argv x₁.bytes =
    (some (argv.length, p'.sp), x'.bytes)
  argc : r = argv.length
  proc : p' = { p with
    pagetable := l.1
    sz := l.2.1
    name := programName path
    epc := l.2.2
    sp := p'.sp
    a1 := p'.sp }
  fits : stackSize argv ≤ pgsize
  arguments : Arguments x'.mem.words l.1 x'.bytes (l.2.1 - pgsize) p'.sp argv
  space : Space x'.mem l.1 tables' m'
  image : Vm.Image m' (Vm.pages l.2.1) code p.frame
  own : ∀ y, Own x'.mem tables' m' y ↔ Own x₀.mem tables m y

/-- `exec` on a loaded image fails exactly if the arguments do not fit the page of the stack. -/
lemma exec_spec (files : Files sb p x) (old : Space x.mem p.pagetable tables m)
    (img : Vm.Image m (Vm.pages p.sz) code p.frame) (positive : 0 ∉ x.mem.free)
    (text : (0 : UInt8) ∉ path) (full : name.length = Mkfs.dirsiz) (argv : List (List UInt8))
    (few : argv.length < maxarg) (short : ∀ s ∈ argv, s.length < pgsize) :
    ∃ r p' x', exec sb code p path argv name x = some (r, p', x') ∧ Balanced x x' ∧ Kept x x' ∧
      (r = -1 ∧ p' = p ∧ Undone x.mem x'.mem ∧ (∀ l x₁,
          execLoad sb code p path name x = some (some l, x₁) → pgsize < stackSize argv) ∨
        ∃ l x₁ tables' m',
          Committed sb code p path argv name x x tables m l x₁ tables' m' r p' x') := by
  obtain ⟨r, x₁, run, balanced, kept, done⟩ := execLoad_spec files old.nodup
    (fun y mem => old.small y (.inl mem)) positive code text full
  rw [exec, run, bind_some]
  rcases done with ⟨rfl, undone⟩ | ⟨root, sz, entry, tables₁, m₁, rfl, built, image, base, rfl, stack⟩
  · exact ⟨-1, p, x₁, rfl, balanced, kept, .inl ⟨rfl, rfl, undone, fun l x₁ loaded => by
      cases loaded⟩⟩
  dsimp only
  have written : ∀ a, a / pgsize ∉ x.mem.free →
      (pushArgs x₁.mem.words root (base + pgsize) argv x₁.bytes).2 a = x.bytes a := by
    intro a out
    rw [pushArgs_frame (fun va here => out (built_paddr built image here)) _ argv, kept a out]
  obtain ⟨bad, good⟩ := stack.pushArgs argv few short x₁.bytes
  by_cases fits : stackSize argv ≤ pgsize
  · obtain ⟨b, pushed, arguments⟩ := good fits
    obtain ⟨k, freed, space, own⟩ := commit_spec old img built
    rw [pushed] at written ⊢
    dsimp only
    rw [freed]
    refine ⟨_, _, _, rfl, ⟨balanced.op, balanced.ref, balanced.ops⟩, written, .inr ⟨_, x₁, tables₁,
      m₁, run, pushed, rfl, rfl, fits, ?_, space, image, own⟩⟩
    rw [Nat.add_sub_cancel]
    exact arguments.congr (paddr_congr built.space.refines space.refines)
  · obtain ⟨k, freed, undone⟩ := built.space.procFreepagetable image
    rw [bad (Nat.lt_of_not_le fits)]
    dsimp only
    rw [bad_table (x := { x₁ with
      bytes := (pushArgs x₁.mem.words root (base + pgsize) argv x₁.bytes).2 }) freed]
    exact ⟨-1, p, _, rfl, ⟨balanced.op, balanced.ref, balanced.ops⟩, written,
      .inl ⟨rfl, rfl, built.freed undone, fun _ _ _ => Nat.lt_of_not_le fits⟩⟩

/-- The argument stack. When the image is loaded, `exec` fails exactly if the strings and the array
do not fit the page of the stack, and otherwise leaves them there. -/
theorem exec_builds_argument_stack (files : Files sb p x) (old : Space x.mem p.pagetable tables m)
    (img : Vm.Image m (Vm.pages p.sz) code p.frame) (positive : 0 ∉ x.mem.free)
    (text : (0 : UInt8) ∉ path) (full : name.length = Mkfs.dirsiz) (argv : List (List UInt8))
    (few : argv.length < maxarg) (short : ∀ s ∈ argv, s.length < pgsize)
    {l : Nat × Nat × Nat} {x₁ : Machine}
    (loaded : execLoad sb code p path name x = some (some l, x₁)) :
    ∃ r p' x', exec sb code p path argv name x = some (r, p', x') ∧
      (r = -1 ↔ pgsize < stackSize argv) ∧
      (stackSize argv ≤ pgsize → r = argv.length ∧ p'.pagetable = l.1 ∧ p'.sz = l.2.1 ∧
        p'.a1 = p'.sp ∧
        Arguments x'.mem.words p'.pagetable x'.bytes (p'.sz - pgsize) p'.sp argv) := by
  obtain ⟨r, p', x', run, -, -, ⟨rfl, -, -, why⟩ | ⟨l', x₂, _, _, done⟩⟩ :=
    exec_spec files old img positive text full argv few short
  · have large := why l x₁ loaded
    exact ⟨-1, p', x', run, iff_of_true rfl large, fun le => absurd large (Nat.not_lt.mpr le)⟩
  · cases some.inj (loaded.symm.trans done.loaded)
    refine ⟨r, p', x', run, iff_of_false ?_ (Nat.not_lt.mpr done.fits), fun _ => ⟨done.argc, ?_⟩⟩
    · rw [done.argc]
      omega
    rw [done.proc]
    exact ⟨rfl, rfl, rfl, done.arguments⟩

end

lemma boot_loads : ∃ l x₁,
    execLoad fsSb 33 starter [] (replicate 14 0) (boot 20) = some (some l, x₁) := by
  have found : (execLoad fsSb 33 starter [] (replicate 14 0) (boot 20)).map
      (fun r => r.1.isSome) = some true := by decide +kernel
  obtain ⟨⟨r, x₁⟩, run, some⟩ := map_eq_some_iff.mp found
  obtain ⟨l, rfl⟩ := isSome_iff_exists.mp some
  exact ⟨l, x₁, run⟩

theorem boot_pushes_arguments : ∃ p' x',
    exec fsSb 33 starter [] [[97], [98, 99]] (List.replicate 14 0) (boot 20) =
      some (2, p', x') ∧ p'.a1 = p'.sp ∧
    Arguments x'.mem.words p'.pagetable x'.bytes (p'.sz - pgsize) p'.sp [[97], [98, 99]] := by
  obtain ⟨tables, m, space, img, positive⟩ := bootMem_space (.inr rfl)
  obtain ⟨l, x₁, loaded⟩ := boot_loads
  obtain ⟨r, p', x', run, -, good⟩ := exec_builds_argument_stack (boot_files 20) space img
    (fun mem => positive 0 (.inl mem) rfl) (by decide) rfl [[97], [98, 99]] (by decide)
    (by decide) loaded
  obtain ⟨rfl, -, -, a1, arguments⟩ := good (by decide)
  exact ⟨p', x', run, a1, arguments⟩

/-! ### The pages of `argv` -/

/-- Pages have been taken from the free list of `k₀`, and only free pages have been written. -/
structure Taken (k₀ : Mem) (b₀ : Bytes) (a : Args) : Prop where
  nodup : (a.pages ++ a.mem.free).Nodup
  mem : ∀ y, y ∈ a.pages ++ a.mem.free ↔ y ∈ k₀.free
  words : ∀ y ∉ k₀.free, a.mem.words y = k₀.words y
  bytes : ∀ i, i / pgsize ∉ k₀.free → a.bytes i = b₀ i

section
variable {k₀ k : Mem} {b₀ : Bytes} {a : Args} {p : Proc} {tables : Set Nat} {m : Map} {code : Nat}

lemma kfreeAll_free (k : Mem) (pages : List Nat) :
    (kfreeAll k pages).free = pages.reverse ++ k.free := by
  induction pages generalizing k with
  | nil => rfl
  | cons page pages ih =>
    rw [kfreeAll, foldl_cons, ← kfreeAll, ih, reverse_cons, append_assoc]
    rfl

lemma kfreeAll_words {y : Nat} (k : Mem) (pages : List Nat) (other : y ∉ pages) :
    (kfreeAll k pages).words y = k.words y := by
  induction pages generalizing k with
  | nil => rfl
  | cons page pages ih =>
    rw [mem_cons, not_or] at other
    rw [kfreeAll, foldl_cons, ← kfreeAll, ih _ other.2]
    exact update_of_ne other.1 ..

lemma Taken.space (h : Taken k₀ b₀ a) (old : Space k₀ p.pagetable tables m) :
    Space a.mem p.pagetable tables m := by
  refine space_move old (fun y mem => h.words y fun free => old.freeTables y free mem)
    (nodup_append.mp h.nodup).2.1 fun y mem => ?_
  exact (h.mem y).mp (mem_append_right _ mem)

lemma backed_of_space (space : Space k p.pagetable tables m)
    (img : Vm.Image m (Vm.pages p.sz) code p.frame) (positive : 0 ∉ leaves m) :
    Backed k.words p.pagetable := by
  intro v zero
  obtain ⟨less, f, here⟩ := leaf_of_userPage space.refines img zero
  exact positive ⟨v, f, less.trans_le img.fits, here⟩

lemma Taken.fetch (h : Taken k₀ b₀ a) {page : Nat} (uarg : Nat)
    (taken : kalloc a.mem = some (page, k)) : Taken k₀ b₀ (a.fetch p uarg page k).2 := by
  obtain ⟨pages, argv, ⟨w, free⟩, b⟩ := a
  cases free with
  | nil => cases taken
  | cons first free =>
    cases taken
    have mine : page ∈ k₀.free := (h.mem page).mp (mem_append_right _ mem_cons_self)
    have same : (pages ++ [page]) ++ free = pages ++ page :: free := (append_cons ..).symm
    refine ⟨?_, fun y => ?_, fun y out => ?_, fun i out => ?_⟩
    · show ((pages ++ [page]) ++ free).Nodup
      rw [same]
      exact h.nodup
    · show y ∈ (pages ++ [page]) ++ free ↔ y ∈ k₀.free
      rw [same]
      exact h.mem y
    · have other : y ≠ page := fun eq => out (eq ▸ mine)
      exact (update_of_ne other ..).trans (h.words y out)
    show memmove (memmove b (page * pgsize) _ pgsize) (page * pgsize) _ pgsize i = b₀ i
    rw [memmove_page mine le_rfl out, memmove_page mine le_rfl out]
    exact h.bytes i out

lemma fetchArgs_spec (old : Space k₀ p.pagetable tables m)
    (img : Vm.Image m (Vm.pages p.sz) code p.frame) (positive : 0 ∉ leaves m) (uargv left i : Nat)
    (h : Taken k₀ b₀ a) (short : ∀ s ∈ a.argv, s.length < pgsize) :
    ∃ b a', fetchArgs p uargv left i a = some (b, a') ∧ Taken k₀ b₀ a' ∧
      (b = true → a'.argv.length < a.argv.length + left) ∧ ∀ s ∈ a'.argv, s.length < pgsize := by
  induction left generalizing i a with
  | zero => exact ⟨false, a, rfl, h, nofun, short⟩
  | succ left ih =>
    rw [fetchArgs]
    cases fetchaddr a.mem.words p.pagetable p.sz a.bytes ((uargv + 8 * i) % 2 ^ 64) with
    | none => exact ⟨false, a, rfl, h, nofun, short⟩
    | some uarg =>
      dsimp only
      split_ifs with last
      · exact ⟨true, a, rfl, h, fun _ => by omega, short⟩
      cases taken : kalloc a.mem with
      | none => exact ⟨false, a, rfl, h, nofun, short⟩
      | some r =>
        obtain ⟨page, k⟩ := r
        have next := h.fetch (p := p) uarg taken
        have backed := backed_of_space (next.space old) img positive
        obtain ⟨n, eq, less⟩ : ∃ n, (a.fetch p uarg page k).1 = some n ∧ n.toNat < pgsize := by
          rcases fetchstr_cases backed (memmove a.bytes (page * pgsize) (fun _ => 5) pgsize) uarg
            (show pgsize < 2 ^ 31 by decide)
            (fun j => memmove a.bytes (page * pgsize) (fun _ => 5) pgsize (page * pgsize + j)) with
            ⟨n, less, eq, -⟩ | eq
          · exact ⟨_, eq, by rwa [Int.toNat_natCast]⟩
          · exact ⟨_, eq, by decide⟩
        have short' : ∀ s ∈ (a.fetch p uarg page k).2.argv, s.length < pgsize := by
          intro s mem
          rcases mem_append.mp mem with old | new
          · exact short s old
          · rw [mem_singleton.mp new, length_map, length_range]
            exact (congrArg (fun r => (r.getD 0).toNat) eq).trans_lt less
        dsimp only
        rw [eq, bind_some]
        split_ifs
        · exact ⟨false, _, rfl, next, nofun, short'⟩
        obtain ⟨b, a', run, taken', count, short''⟩ := ih (i + 1) next short'
        refine ⟨b, a', run, taken', fun ok => (count ok).trans_eq ?_, short''⟩
        rw [Args.fetch, length_append]
        exact Nat.add_right_comm ..

lemma Taken.undone (h : Taken k₀ b₀ a) {k : Mem} (undone : Undone a.mem k) :
    Undone k₀ (kfreeAll k a.pages) := by
  obtain ⟨first, second, apart⟩ := nodup_append.mp h.nodup
  have mem : ∀ y, y ∈ (kfreeAll k a.pages).free ↔ y ∈ k₀.free := by
    intro y
    rw [kfreeAll_free, mem_append, mem_reverse, undone.mem, ← mem_append, h.mem]
  refine ⟨?_, mem, fun y out => ?_⟩
  · rw [kfreeAll_free]
    refine nodup_append.mpr ⟨nodup_reverse.mpr first, undone.nodup, ?_⟩
    intro y inside z free
    exact apart y (mem_reverse.mp inside) z ((undone.mem z).mp free)
  have none := mt (h.mem y).mp out
  rw [mem_append, not_or] at none
  rw [kfreeAll_words k a.pages none.1, undone.frame y none.2, h.words y out]

lemma Space.kfreeAll {root : Nat} (pages : List Nat) (h : Space k root tables m)
    (nodup : pages.Nodup) (mine : ∀ y ∈ pages, ¬ Own k tables m y)
    (small : ∀ y ∈ pages, y < phystop) : Space (Exec.kfreeAll k pages) root tables m := by
  induction pages generalizing k with
  | nil => exact h
  | cons page pages ih =>
    obtain ⟨out, rest⟩ := nodup_cons.mp nodup
    rw [Exec.kfreeAll, foldl_cons, ← Exec.kfreeAll]
    refine ih (h.kfree (mine page mem_cons_self) (small page mem_cons_self)) rest
      (fun y mem own => ?_) fun y mem => small y (mem_cons_of_mem page mem)
    rcases own with free | other
    · rcases mem_cons.mp free with rfl | free
      · exact out mem
      exact mine y (mem_cons_of_mem page mem) (.inl free)
    exact mine y (mem_cons_of_mem page mem) (.inr other)

end

/-- The path and the arguments that `sys_exec` has fetched when it calls `exec` on `x'`. -/
structure Fetched (p : Proc) (upath uargv : Nat) (buf : Bytes) (x : Machine) (path : List UInt8)
    (argv : List (List UInt8)) (x' : Machine) : Prop where
  path : ∃ n : Nat, (fetchstr x.mem.words p.pagetable x.bytes upath maxpath buf).1 = some (n : Int) ∧
    path = (List.range n).map (fetchstr x.mem.words p.pagetable x.bytes upath maxpath buf).2
  argv : ∃ a, fetchArgs p uargv maxarg 0 ⟨[], [], x.mem, x.bytes⟩ = some (true, a) ∧
    argv = a.argv ∧ x' = { x with mem := a.mem, bytes := a.bytes }

end Xv6.Exec
