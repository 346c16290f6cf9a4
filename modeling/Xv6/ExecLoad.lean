import Xv6.ExecStack
import Xv6.Paths
import Xv6.UserVmExec

/-! The first part of `exec` (exec.c), up to the stack of the new image: the ELF header and the
program headers are whatever bytes the file holds. The page tables and the free list are in `Mem`,
the contents of the other pages in `Bytes`. What `kfree` fills a page with is left out: `uvmalloc`
clears a page before it maps it. -/
namespace Xv6.Exec
open PageTable UserCopy Vm Option Function Exec Paths

/-- A field of a header, in little-endian order. -/
def field (bytes : List UInt8) (off n : Nat) : Nat :=
  ((bytes.drop off).take n).foldr (fun b v => b.toNat + 256 * v) 0

abbrev elfMagic : Nat := 0x464C457F
abbrev elfSize : Nat := 64
abbrev phSize : Nat := 56
abbrev progLoad : Nat := 1

/-- What `exec` reads and changes of a process and the trapframe of its thread. `frame` is the page
of the trapframes. -/
structure Proc where
  pagetable : Nat
  sz : Nat
  name : List UInt8
  epc : Nat
  sp : Nat
  a1 : Nat
  cwd : Nat
  frame : Nat

/-- The memory, the file system, and the number of operations in the log. -/
structure Machine where
  mem : Mem
  bytes : Bytes
  fs : Paths.Walk
  ops : Nat

def Machine.readi (x : Machine) (sb : Fs.Superblock) (ip off n : Nat) :
    Option (Machine × List UInt8) :=
  (Namei.readi sb ip x.fs.op off n).map fun r => ({ x with fs := { x.fs with op := r.1 } }, r.2)

/-- The `memset` of `uvmalloc` for `n` pages from the page `v` on. -/
def zeroPages (w : Words) (root : Nat) : Nat → Nat → Bytes → Bytes
  | 0, _, m => m
  | n + 1, v, m =>
    zeroPages w root n (v + 1) (memmove m (walkaddr w root (v * pgsize)) (fun _ => 0) pgsize)

/-- `loadseg` from the offset `i` on; `none` is its panic. -/
def loadseg (w : Words) (root : Nat) (sb : Fs.Superblock) (va ip offset sz i : Nat) (x : Machine) :
    Option (Bool × Machine) :=
  if i < sz then
    let pa := walkaddr w root ((va + i) % 2 ^ 64)
    if pa = 0 then none
    else
      let n := min (sz - i) pgsize
      (x.readi sb ip ((offset + i) % 2 ^ 32) n).bind fun r =>
        let x := { r.1 with bytes := memmove r.1.bytes pa (text r.2) r.2.length }
        if r.2.length ≠ n then some (false, x)
        else loadseg w root sb va ip offset sz (i + pgsize) x
  else some (true, x)
termination_by sz - i
decreasing_by exact Nat.sub_lt_sub_left ‹i < sz› (Nat.lt_add_of_pos_right (by decide))

/-- The loop over the program headers: the size, and whether it has ended without `goto bad`. -/
def loadLoop (sb : Fs.Superblock) (ip root : Nat) :
    Nat → Nat → Nat → Machine → Option (Bool × Nat × Machine)
  | 0, _, sz, x => some (true, sz, x)
  | left + 1, off, sz, x =>
    (x.readi sb ip off phSize).bind fun r =>
      let ph := r.2
      let vaddr := field ph 16 8
      let filesz := field ph 32 8
      let memsz := field ph 40 8
      if ph.length ≠ phSize then some (false, sz, r.1)
      else if field ph 0 4 ≠ progLoad then
        loadLoop sb ip root left ((off + phSize) % 2 ^ 32) sz r.1
      else if memsz < filesz ∨ 2 ^ 64 ≤ vaddr + memsz ∨ vaddr % pgsize ≠ 0 then
        some (false, sz, r.1)
      else
        match Vm.uvmalloc r.1.mem root sz (vaddr + memsz) (flags2perm (field ph 4 4)) with
        | none => none
        | some (sz1, k) =>
          if sz1 = 0 then some (false, sz, { r.1 with mem := k })
          else
            let m := zeroPages k.words root (Vm.pages sz1 - Vm.pages sz) (Vm.pages sz) r.1.bytes
            (loadseg k.words root sb vaddr ip (field ph 8 8 % 2 ^ 32) (filesz % 2 ^ 32) 0
              { r.1 with mem := k, bytes := m }).bind fun l =>
                if l.1 then loadLoop sb ip root left ((off + phSize) % 2 ^ 32) sz1 l.2
                else some (false, sz1, l.2)

def Machine.close (x : Machine) (sb : Fs.Superblock) (ip : Nat) : Option Machine :=
  (x.fs.iput sb ip).map fun fs => { x with fs := fs, ops := x.ops - 1 }

/-- `bad`, with the page table and the inode if there are any. -/
def bad (sb : Fs.Superblock) (table : Option (Nat × Nat)) (ip : Option Nat) (x : Machine) :
    Option Machine :=
  (match table with
    | none => some x
    | some (root, sz) => (procFreepagetable x.mem root sz).map fun k => { x with mem := k }).bind
  fun x =>
    match ip with
    | none => some x
    | some ip => x.close sb ip

/-- `exec` up to the stack: the root of the new page table, its size and the entry point; `none`
inside is the result -1, and `none` outside a panic. -/
def execLoad (sb : Fs.Superblock) (code : Nat) (p : Proc) (path name : List UInt8) (x : Machine) :
    Option (Option (Nat × Nat × Nat) × Machine) :=
  let x := { x with ops := x.ops + 1 }
  (Paths.namei sb p.cwd path name x.fs).bind fun r =>
    let x := { x with fs := r.1 }
    match r.2 with
    | none => some (none, { x with ops := x.ops - 1 })
    | some ip =>
      (x.fs.ilock ip).bind fun fs =>
        (Machine.readi { x with fs := fs } sb ip 0 elfSize).bind fun e =>
          let x := e.1
          let elf := e.2
          if elf.length ≠ elfSize ∨ field elf 0 4 ≠ elfMagic then
            (bad sb none (some ip) x).map fun x => (none, x)
          else
            match procPagetable x.mem code p.frame with
            | none => none
            | some (none, k) => (bad sb none (some ip) { x with mem := k }).map fun x => (none, x)
            | some (some root, k) =>
              (loadLoop sb ip root (field elf 56 2) (field elf 32 8 % 2 ^ 32) 0
                { x with mem := k }).bind fun l =>
                  let x := l.2.2
                  if !l.1 then
                    (bad sb (some (root, l.2.1)) (some ip) x).map fun x => (none, x)
                  else
                    (x.close sb ip).bind fun x =>
                      let sz := Vm.pages l.2.1 * pgsize
                      match Vm.uvmalloc x.mem root sz (sz + 2 * pgsize) pteW with
                      | none => none
                      | some (sz1, k) =>
                        if sz1 = 0 then
                          (bad sb (some (root, sz)) none { x with mem := k }).map fun x => (none, x)
                        else
                          let m := zeroPages k.words root 2 (Vm.pages sz) x.bytes
                          (Vm.uvmclear k root (sz1 - 2 * pgsize)).map fun k =>
                            (some (root, sz1, field elf 24 8), { x with mem := k, bytes := m })

/-! ### User pages of an address space -/

def userEntry : Option (Nat × Nat) → Option Nat
  | some (page, flags) => if flags / 16 % 2 = 1 then some page else none
  | none => none

def Users (m : Map) : Prop := ∀ v x f, v < trapframe → m v = some (x, f) → f / 16 % 2 = 1

section
variable {w : Words} {k k' : Mem} {root v page n code frame : Nat} {tables tables' : Set Nat}
  {m m' : Map}

lemma userPage_eq (r : Refines w root tables m) (below : v < 67108864) :
    userPage w root v = userEntry (m v) := by
  have value := r.walk (address_lt below)
  rw [Nat.mul_div_cancel _ (by decide)] at value
  rw [userPage, UserCopy.entry]
  cases here : m v with
  | none =>
    rw [here] at value
    cases found : walk w root (v * pgsize) with
    | none => rfl
    | some e =>
      rw [found] at value
      have zero : w e.1 e.2 = 0 := value
      rw [map_some, zero]
      rfl
  | some e =>
    obtain ⟨page, flags⟩ := e
    obtain ⟨odd, small⟩ := r.flags _ _ _ here
    rw [here] at value
    cases found : walk w root (v * pgsize) with
    | none =>
      rw [found] at value
      have zero : 0 = page * 1024 + flags := value
      omega
    | some e =>
      rw [found] at value
      have word : w e.1 e.2 = page * 1024 + flags := value
      have ok : valid (page * 1024 + flags) = true := (valid_iff _).mpr (by omega)
      rw [map_some, word, userEntry]
      dsimp only
      rw [ok, Bool.true_and, and_pteU, pte2pa_eq]
      by_cases bit : flags / 16 % 2 = 1
      · rw [if_pos bit, if_pos (by rw [bne_iff_ne]; omega),
          show (page * 1024 + flags) / 1024 = page by omega]
      rw [if_neg bit, if_neg (by rw [bne_iff_ne]; omega)]

lemma refines_map_eq (r : Refines w root tables m) (r' : Refines w root tables' m')
    (below : v < 67108864) : m' v = m v := by
  have value := r.walk (address_lt below)
  have value' := r'.walk (address_lt below)
  rw [value, Nat.mul_div_cancel _ (by decide)] at value'
  cases here : m v with
  | none =>
    cases here' : m' v with
    | none => rfl
    | some e' =>
      have := r'.flags _ _ _ here'
      rw [here, here'] at value'
      have zero : 0 = e'.1 * 1024 + e'.2 := value'
      omega
  | some e =>
    have := r.flags _ _ _ here
    cases here' : m' v with
    | none =>
      rw [here, here'] at value'
      have zero : e.1 * 1024 + e.2 = 0 := value'
      omega
    | some e' =>
      have := r'.flags _ _ _ here'
      rw [here, here'] at value'
      have same : e.1 * 1024 + e.2 = e'.1 * 1024 + e'.2 := value'
      exact congrArg some (Prod.ext (by omega) (by omega))

lemma leaf_of_userPage (r : Refines w root tables m) (img : Vm.Image m n code frame)
    (here : userPage w root v = some page) : v < n ∧ ∃ f, m v = some (page, f) := by
  have top := trampoline_eq
  have frameAt := trapframe_eq
  have below : v < 67108864 := by
    have := userPage_lt here
    have top : maxva = 67108864 * pgsize := by decide
    rw [top] at this
    exact Nat.lt_of_mul_lt_mul_right this
  rw [userPage_eq r below] at here
  by_cases low : v < trapframe
  · cases there : m v with
    | none =>
      rw [there] at here
      cases here
    | some e =>
      obtain ⟨page', f⟩ := e
      rw [there, userEntry] at here
      split_ifs at here
      cases here
      exact ⟨(img.user v low).mp (there ▸ some_ne_none _), f, rfl⟩
  rcases (show v = trapframe ∨ v = trampoline by omega) with rfl | rfl
  · rw [img.frame, userEntry, if_neg (by decide)] at here
    cases here
  rw [img.code, userEntry, if_neg (by decide)] at here
  cases here

lemma userPage_of (r : Refines w root tables m) (img : Vm.Image m n code frame)
    (less : v < n) (user : ∀ x f, m v = some (x, f) → f / 16 % 2 = 1) :
    ∃ page f, m v = some (page, f) ∧ userPage w root v = some page := by
  have low : v < trapframe := less.trans_le img.fits
  have frameAt := trapframe_eq
  obtain ⟨⟨page, f⟩, here⟩ := ne_none_iff_exists'.mp ((img.user v low).mpr less)
  refine ⟨page, f, here, ?_⟩
  rw [userPage_eq r (by omega), here, userEntry, if_pos (user page f here)]

lemma Users.update {e : Nat × Nat} (users : Users m) (bit : e.2 / 16 % 2 = 1) :
    Users (update m v (some e)) := by
  intro u x f low here
  by_cases eq : u = v
  · rw [eq, update_self] at here
    cases here
    exact bit
  rw [update_of_ne eq] at here
  exact users u x f low here

lemma Users.congr (users : Users m) (r : Refines w root tables m)
    (r' : Refines w root tables' m') : Users m' := by
  have frameAt := trapframe_eq
  intro v x f low here
  rw [refines_map_eq r r' (by omega)] at here
  exact users v x f low here

lemma or_user (p : Nat) : leafFlags (pteR ||| pteU ||| p) / 16 % 2 = 1 := by
  have bit : (leafFlags (pteR ||| pteU ||| p)).testBit 4 = true := by
    simp [leafFlags, Nat.testBit_or]
  rw [Nat.testBit_eq_decide_div_mod_eq] at bit
  exact of_decide_eq_true bit

lemma uvmallocLoop_users {xperm : Nat} (h : Space k root tables m)
    (img : Vm.Image m v code frame) (small : xperm < 1024) (users : Users m) {r : Option Nat × Mem}
    (run : Vm.uvmallocLoop root xperm n v k = some r) (r' : Refines r.2.words root tables' m') :
    Users m' := by
  induction n generalizing k tables m v with
  | zero =>
    cases run
    exact users.congr h.refines r'
  | succ n ih =>
    have low := img.below h
    have bit : leafFlags (pteR ||| pteU ||| xperm) / 2 % 2 = 1 := by
      rw [Nat.or_assoc]
      exact or_readable _
    rcases h.mapNew low (img.empty low le_rfl) (or_small (by decide) small) bit
      (fun _ => 0) with ⟨k₁, tables₁, map, space, -⟩ | ⟨k₁, tables₁, page, map, space, -⟩
    · simp only [Vm.uvmallocLoop, map] at run
      cases run
      exact users.congr space.refines r'
    simp only [Vm.uvmallocLoop, map] at run
    exact ih space (img.grow low) (users.update (or_user xperm)) run

lemma uvmalloc_users {oldsz xperm : Nat} (newsz : Nat) (h : Space k root tables m)
    (img : Vm.Image m (Vm.pages oldsz) code frame) (small : xperm < 1024) (users : Users m) :
    ∃ sz' k' tables' m', Vm.uvmalloc k root oldsz newsz xperm = some (sz', k') ∧
    Space k' root tables' m' ∧ Keeps k tables m k' tables' m' ∧ Users m' ∧
    (sz' = 0 ∧ m' = m ∨ sz' = max oldsz newsz ∧ Vm.Image m' (Vm.pages sz') code frame) := by
  obtain ⟨sz', k', tables', m', run, space, keeps, done⟩ := h.uvmalloc newsz img small
  refine ⟨sz', k', tables', m', run, space, keeps, ?_, done⟩
  rcases done with ⟨-, rfl⟩ | ⟨size, img'⟩
  · exact users
  by_cases zero : sz' = 0
  · intro v x f low here
    rw [zero] at img'
    exact absurd ((img'.user v low).mp (here ▸ some_ne_none _)) (Nat.not_lt_zero v)
  rw [Vm.uvmalloc] at run
  split_ifs at run with less
  · cases run
    exact users.congr h.refines space.refines
  cases loop : Vm.uvmallocLoop root xperm (Vm.pages newsz - Vm.pages oldsz) (Vm.pages oldsz) k with
  | none =>
    rw [loop] at run
    cases run
  | some r =>
    obtain ⟨stop, k₁⟩ := r
    rw [loop] at run
    cases stop with
    | none =>
      cases run
      exact uvmallocLoop_users h img small users loop space.refines
    | some v =>
      obtain ⟨r, -, eq⟩ := map_eq_some_iff.mp run
      exact absurd (congrArg Prod.fst eq).symm zero

end

/-! ### Loading -/

/-- What the loading of the file has built from the free pages of `x₀`. -/
structure Loaded (x₀ x : Machine) (root sz code frame : Nat) (tables : Set Nat) (m : Map) :
    Prop where
  built : Built x₀.mem x.mem root tables m
  image : Vm.Image m (Vm.pages sz) code frame
  users : Users m
  bytes : ∀ a, a / pgsize ∉ x₀.mem.free → x.bytes a = x₀.bytes a
  fs : x.fs = x₀.fs
  ops : x.ops = x₀.ops

section
variable {x₀ x : Machine} {root sz code frame v : Nat} {tables : Set Nat} {m : Map}
  {sb : Fs.Superblock}

lemma Loaded.leaf_free (h : Loaded x₀ x root sz code frame tables m) {page f : Nat}
    (less : v < Vm.pages sz) (here : m v = some (page, f)) : page ∈ x₀.mem.free :=
  (h.built.own page).mp (.inr (.inr ⟨v, f, less.trans_le h.image.fits, here⟩))

lemma Loaded.walkaddr (h : Loaded x₀ x root sz code frame tables m) (less : v < Vm.pages sz) :
    ∃ page ∈ x₀.mem.free, walkaddr x.mem.words root (v * pgsize) = page * pgsize := by
  have low : v < trapframe := less.trans_le h.image.fits
  obtain ⟨page, f, here, user⟩ := userPage_of h.built.space.refines h.image less
    fun y g there => h.users v y g low there
  refine ⟨page, h.leaf_free less here, ?_⟩
  rw [walkaddr_eq, user, getD_some]

lemma div_page {a v : Nat} (low : v * pgsize ≤ a) (high : a < v * pgsize + pgsize) :
    a / pgsize = v := by
  simp only [pgsize] at *
  omega

variable {free : List Nat}

lemma memmove_page {b src : Bytes} {page n a : Nat} (mem : page ∈ free) (le : n ≤ pgsize)
    (out : a / pgsize ∉ free) : memmove b (page * pgsize) src n a = b a := by
  rw [memmove, if_neg]
  rintro ⟨low, high⟩
  exact out (div_page low (by omega) ▸ mem)

lemma zeroPages_frame {w : Words} {a : Nat} (n v : Nat) (b : Bytes)
    (mapped : ∀ u, v ≤ u → u < v + n → ∃ page ∈ free, walkaddr w root (u * pgsize) = page * pgsize)
    (out : a / pgsize ∉ free) : zeroPages w root n v b a = b a := by
  induction n generalizing v b with
  | zero => rfl
  | succ n ih =>
    obtain ⟨page, mem, here⟩ := mapped v le_rfl (by omega)
    rw [zeroPages, ih (v + 1) _ fun u low high => mapped u (by omega) (by omega), here,
      memmove_page mem le_rfl out]

lemma Machine.readi_eq (sound : Fs.Sound sb x.fs.op.img) (ip : Nat) {off n : Nat}
    (large : off < 2 ^ 32) (uint : n < 2 ^ 32) : ∃ l, x.readi sb ip off n = some (x, l) ∧
    l.length ≤ n := by
  refine ⟨_, congrArg (Option.map _) (Fs.readi_bytes sound ip off large uint), ?_⟩
  split_ifs
  · rw [List.length_take]
    exact Nat.min_le_left ..
  exact Nat.zero_le _

section
variable (h : Loaded x₀ x root sz code frame tables m) (sound : Fs.Sound sb x₀.fs.op.img)
  (positive : 0 ∉ x₀.mem.free)
include h sound positive

lemma Loaded.loadseg (va size ip offset i : Nat) (fits : va + size ≤ sz) (uint : size < 2 ^ 32)
    (wrap : va + size < 2 ^ 64) (aligned : va % pgsize = 0) (step : i % pgsize = 0) :
    ∃ b x', loadseg x.mem.words root sb va ip offset size i x = some (b, x') ∧
    Loaded x₀ x' root sz code frame tables m := by
  induction gap : size - i using Nat.strong_induction_on generalizing i x with
  | _ gap ih =>
    rw [loadseg.eq_def]
    by_cases more : i < size
    · have page : va + i = (va + i) / pgsize * pgsize := by
        simp only [pgsize] at *
        omega
      have inside : (va + i) / pgsize < Vm.pages sz := by
        rw [Vm.pages]
        simp only [pgsize] at *
        omega
      obtain ⟨free, mem, here⟩ := h.walkaddr inside
      rw [← page] at here
      have some : free * pgsize ≠ 0 := by
        refine Nat.mul_ne_zero ?_ (by decide)
        rintro rfl
        exact positive mem
      obtain ⟨l, read, length⟩ := Machine.readi_eq (x := x) (h.fs ▸ sound) ip
        (Nat.mod_lt (offset + i) (show 0 < 2 ^ 32 by decide))
        (show min (size - i) pgsize < 2 ^ 32 by omega)
      rw [if_pos more, Nat.mod_eq_of_lt (show va + i < 2 ^ 64 by omega), here]
      simp only
      rw [if_neg some, read, bind_some]
      have next : Loaded x₀ { x with bytes := memmove x.bytes (free * pgsize) (text l) l.length }
        root sz code frame tables m := ⟨h.built, h.image, h.users, fun a out => (memmove_page mem
        (by omega) out).trans (h.bytes a out), h.fs, h.ops⟩
      split_ifs
      · exact ⟨_, _, rfl, next⟩
      exact ih (size - (i + pgsize)) (by simp only [pgsize] at *; omega) next (i + pgsize)
        (by simp only [pgsize] at *; omega) rfl
    rw [if_neg more]
    exact ⟨_, _, rfl, h⟩

lemma Loaded.loadLoop (ip left off : Nat) (large : off < 2 ^ 32) :
    ∃ b sz' x' tables' m', loadLoop sb ip root left off sz x = some (b, sz', x') ∧
    Loaded x₀ x' root sz' code frame tables' m' := by
  induction left generalizing off sz x tables m with
  | zero => exact ⟨true, sz, x, tables, m, rfl, h⟩
  | succ left ih =>
    obtain ⟨ph, read, -⟩ := Machine.readi_eq (x := x) (h.fs ▸ sound) ip large
      (show phSize < 2 ^ 32 by decide)
    have next := Nat.mod_lt (off + phSize) (show 0 < 2 ^ 32 by decide)
    rw [loadLoop, read, bind_some]
    simp only
    by_cases short : ph.length ≠ phSize
    · rw [if_pos short]
      exact ⟨false, sz, x, tables, m, rfl, h⟩
    rw [if_neg short]
    by_cases other : field ph 0 4 ≠ progLoad
    · rw [if_pos other]
      exact ih h _ next
    rw [if_neg other]
    split_ifs with refused
    · exact ⟨false, sz, x, tables, m, rfl, h⟩
    obtain ⟨sz₁, k₁, tables₁, m₁, run, space, keeps, users, done⟩ := uvmalloc_users
      (field ph 16 8 + field ph 40 8) h.built.space h.image (flags2perm_lt (field ph 4 4)) h.users
    have built := h.built.keeps space keeps
    rw [run]
    dsimp only
    split_ifs with zero
    · refine ⟨false, sz, _, tables₁, m₁, rfl, built, ?_, users, h.bytes, h.fs, h.ops⟩
      rcases done with ⟨-, rfl⟩ | ⟨eq, img⟩
      · exact h.image
      rwa [show sz₁ = sz by omega] at img
    rcases done with ⟨failed, -⟩ | ⟨size, img⟩
    · exact absurd failed zero
    have grown : Loaded x₀ { x with mem := k₁ } root sz₁ code frame tables₁ m₁ :=
      ⟨built, img, users, h.bytes, h.fs, h.ops⟩
    have zeroed : Loaded x₀ { x with
        mem := k₁
        bytes := zeroPages k₁.words root (Vm.pages sz₁ - Vm.pages sz) (Vm.pages sz) x.bytes }
        root sz₁ code frame tables₁ m₁ := by
      refine ⟨built, img, users, fun a out => ?_, h.fs, h.ops⟩
      refine (zeroPages_frame _ _ _ (fun u low high => grown.walkaddr ?_) out).trans (h.bytes a out)
      have := Vm.pages_mono (show sz ≤ sz₁ by omega)
      omega
    obtain ⟨b, x₂, loaded, h₂⟩ := zeroed.loadseg sound positive (field ph 16 8) (field ph 32 8 % 2 ^
      32) ip (field ph 8 8 % 2 ^ 32) 0 (by omega) (by omega) (by omega) (by omega) rfl
    rw [loaded, bind_some]
    cases b with
    | false => exact ⟨false, sz₁, x₂, tables₁, m₁, rfl, h₂⟩
    | true => exact ih h₂ _ next

end

end

/-! ### The file -/

/-- Where `exec` looks for the file: the directories are a tree, and the process holds its current
directory. -/
structure Files (sb : Fs.Superblock) (p : Proc) (x : Machine) : Prop where
  sound : Fs.Sound sb x.fs.op.img
  tree : Paths.Tree sb x.fs.op x.fs.ref
  root : (x.fs.op.img.dinode Fs.rootino).type ≠ .none ∧
    (x.fs.op.img.dinode Fs.rootino).nlink ≠ 0
  dir : (x.fs.op.img.dinode p.cwd).type ≠ .none
  held : 0 < x.fs.ref p.cwd

/-- The disk, the references to inodes and the operations of the log are as before. -/
structure Balanced (x x' : Machine) : Prop where
  op : x'.fs.op = x.fs.op
  ref : x'.fs.ref = x.fs.ref
  ops : x'.ops = x.ops

def Kept (x x' : Machine) : Prop := ∀ a, a / pgsize ∉ x.mem.free → x'.bytes a = x.bytes a

section
variable {sb : Fs.Superblock} {p : Proc} {x x₀ x₁ : Machine} {root sz code frame ip : Nat}
  {tables : Set Nat} {m : Map}

lemma close_balanced (op : x₁.fs.op = x.fs.op) (refs : x₁.fs.ref = credit x.fs.ref (some ip))
    (ops : x₁.ops = x.ops + 1) (kept : (x.fs.op.img.dinode ip).nlink ≠ 0 ∨ 0 < x.fs.ref ip) :
    ∃ x₂, x₁.close sb ip = some x₂ ∧ x₂.mem = x₁.mem ∧ x₂.bytes = x₁.bytes ∧ Balanced x x₂ := by
  obtain ⟨fs, put, op', refs'⟩ := iput_credit sb op refs kept
  refine ⟨{ x₁ with fs := fs, ops := x₁.ops - 1 }, ?_, rfl, rfl, op', refs', ?_⟩
  · rw [Machine.close, put]
    rfl
  show x₁.ops - 1 = x.ops
  rw [ops, Nat.add_sub_cancel]

lemma Loaded.free (h : Loaded x₀ x root sz code frame tables m) :
    ∃ k, procFreepagetable x.mem root sz = some k ∧ Undone x₀.mem k := by
  obtain ⟨k, run, freed⟩ := h.built.space.procFreepagetable h.image
  exact ⟨k, run, h.built.freed freed⟩

lemma bad_file (sb : Fs.Superblock) (ip : Nat) (x : Machine) :
    bad sb none (some ip) x = x.close sb ip := rfl

variable {k : Mem}

lemma bad_table (freed : procFreepagetable x.mem root sz = some k) :
    bad sb (some (root, sz)) none x = some { x with mem := k } := by
  rw [bad]
  dsimp only
  rw [freed]
  rfl

lemma bad_both (freed : procFreepagetable x.mem root sz = some k) (ip : Nat) :
    bad sb (some (root, sz)) (some ip) x = Machine.close { x with mem := k } sb ip := by
  rw [bad]
  dsimp only
  rw [freed]
  rfl

lemma undone_refl (nodup : k.free.Nodup) : Undone k k :=
  ⟨nodup, fun _ => Iff.rfl, fun _ _ => rfl⟩

lemma Loaded.stack {n : Nat} (h : Loaded x₀ x root ((n + 2) * pgsize) code frame tables m)
    (positive : 0 ∉ x₀.mem.free) : ∃ k m', uvmclear x.mem root (n * pgsize) = some k ∧
    Built x₀.mem k root tables m' ∧ Vm.Image m' (n + 2) code frame ∧
    Stack k.words root ((n + 1) * pgsize) := by
  have frameAt := trapframe_eq
  have image := h.image
  rw [Vm.pages_mul] at image
  have fits := image.fits
  obtain ⟨k, m', run, space, keeps, img⟩ := h.built.space.uvmclear (v := n) image (by omega)
  have built := h.built.keeps space keeps
  -- `uvmclear` changes the entry of the guard page only
  have same : m' (n + 1) = m (n + 1) := by
    obtain ⟨w, cleared, eq⟩ := map_eq_some_iff.mp run
    have refines := h.built.space.refines.uvmclear cleared
    rw [Nat.mul_div_cancel _ (by decide)] at refines
    rw [← eq] at space
    rw [refines_map_eq refines space.refines (by omega), update_of_ne (by omega)]
  obtain ⟨page, f, -, user⟩ := userPage_of space.refines img (v := n + 1) (by omega)
    fun y g there => h.users _ y g (by omega) (same ▸ there)
  refine ⟨k, m', run, built, img, fun v zero => ?_, fun v v' y one two => ?_, fun a low high => ?_,
    Nat.mul_mod_left .., ?_⟩
  · obtain ⟨less, g, here⟩ := leaf_of_userPage space.refines img zero
    exact positive ((built.own 0).mp (.inr (.inr ⟨v, g, by omega, here⟩)))
  · obtain ⟨less, g, here⟩ := leaf_of_userPage space.refines img one
    obtain ⟨less', g', here'⟩ := leaf_of_userPage space.refines img two
    exact space.inj v v' y g g' (by omega) (by omega) here here'
  · rw [paddr, div_page low high, user]
    exact some_ne_none _
  exact Nat.le_mul_of_pos_left pgsize (Nat.succ_pos n)

lemma Loaded.grow (h : Loaded x₀ x root sz code frame tables m) :
    ∃ sz' k tables' m', Vm.uvmalloc x.mem root (Vm.pages sz * pgsize)
        (Vm.pages sz * pgsize + 2 * pgsize) pteW = some (sz', k) ∧
      (sz' = 0 ∧ Loaded x₀ { x with mem := k } root (Vm.pages sz * pgsize) code frame tables' m' ∨
        sz' = (Vm.pages sz + 2) * pgsize ∧
          Loaded x₀ { x with mem := k } root ((Vm.pages sz + 2) * pgsize) code frame tables'
            m') := by
  have rounded : Vm.Image m (Vm.pages (Vm.pages sz * pgsize)) code frame :=
    (Vm.pages_mul _).symm ▸ h.image
  obtain ⟨sz', k, tables', m', run, space, keeps, users, done⟩ := uvmalloc_users
    (Vm.pages sz * pgsize + 2 * pgsize) h.built.space rounded (show pteW < 1024 by decide) h.users
  have built : Built x₀.mem k root tables' m' := h.built.keeps space keeps
  refine ⟨sz', k, tables', m', run, ?_⟩
  rcases done with ⟨zero, same⟩ | ⟨size, image⟩
  · exact .inl ⟨zero, built, same ▸ rounded, users, h.bytes, h.fs, h.ops⟩
  have total : sz' = (Vm.pages sz + 2) * pgsize := by
    rw [size, Nat.add_mul]
    omega
  exact .inr ⟨total, built, total ▸ image, users, h.bytes, h.fs, h.ops⟩

/-- `exec` up to the stack builds an address space with room for the arguments, or undoes all that
it has done. -/
lemma execLoad_spec (files : Files sb p x) (nodup : x.mem.free.Nodup)
    (small : ∀ y ∈ x.mem.free, y < phystop) (positive : 0 ∉ x.mem.free) (code : Nat)
    {path name : List UInt8} (text : (0 : UInt8) ∉ path) (full : name.length = Mkfs.dirsiz) :
    ∃ r x', execLoad sb code p path name x = some (r, x') ∧ Balanced x x' ∧ Kept x x' ∧
    (r = none ∧ Undone x.mem x'.mem ∨ ∃ root sz entry tables m, r = some (root, sz, entry) ∧
    Built x.mem x'.mem root tables m ∧ Vm.Image m (Vm.pages sz) code p.frame ∧ ∃ base,
    sz = base + pgsize ∧ Stack x'.mem.words root base) := by
  obtain ⟨fs₁, r, run, op₁, refs₁, found⟩ := namei_spec files.tree files.root files.dir
    files.held text full
  rw [execLoad]
  simp only
  rw [run, bind_some]
  simp only
  cases r with
  | none =>
    exact ⟨none, _, rfl, ⟨op₁, refs₁, Nat.add_sub_cancel ..⟩, fun _ _ => rfl,
      .inl ⟨rfl, undone_refl nodup⟩⟩
  | some ip =>
    dsimp only
    obtain ⟨typed, kept⟩ := found ip rfl
    obtain ⟨fs, locked, op, refs⟩ := ilock_keeps op₁ typed
    rw [refs₁] at refs
    rw [locked, bind_some]
    obtain ⟨elf, read, -⟩ := Machine.readi_eq
      (x := { x with fs := fs, ops := x.ops + 1 }) (op ▸ files.sound) ip
      (show 0 < 2 ^ 32 by decide) (show elfSize < 2 ^ 32 by decide)
    rw [read, bind_some]
    dsimp only
    -- all paths from here on put the inode and end the operation
    have closed : ∀ k b, ∃ x₂, Machine.close ⟨k, b, fs, x.ops + 1⟩ sb ip = some x₂ ∧ x₂.mem = k ∧
        x₂.bytes = b ∧ Balanced x x₂ := fun k b => close_balanced op refs rfl kept
    by_cases wrong : elf.length ≠ elfSize ∨ field elf 0 4 ≠ elfMagic
    · obtain ⟨x₂, close, mem, bytes, balanced⟩ := closed x.mem x.bytes
      rw [if_pos wrong, bad_file, close]
      exact ⟨none, x₂, rfl, balanced, fun a _ => by rw [bytes],
        .inl ⟨rfl, by rw [mem]; exact undone_refl nodup⟩⟩
    rw [if_neg wrong]
    rcases procPagetable_spec nodup small code p.frame with
      ⟨k₁, run₁, undone⟩ | ⟨root, k₁, tables₁, m₁, run₁, built₁, img₁⟩
    · obtain ⟨x₂, close, mem, bytes, balanced⟩ := closed k₁ x.bytes
      rw [run₁]
      dsimp only
      rw [bad_file, close]
      exact ⟨none, x₂, rfl, balanced, fun a _ => by rw [bytes], .inl ⟨rfl, mem ▸ undone⟩⟩
    rw [run₁]
    dsimp only
    have empty : Users m₁ := fun v y f low here =>
      absurd ((img₁.user v low).mp (here ▸ some_ne_none _)) (Nat.not_lt_zero v)
    have start : Loaded ⟨x.mem, x.bytes, fs, x.ops + 1⟩ ⟨k₁, x.bytes, fs, x.ops + 1⟩ root 0 code
        p.frame tables₁ m₁ :=
      ⟨built₁, (show Vm.pages 0 = 0 by decide).symm ▸ img₁, empty, fun _ _ => rfl, rfl, rfl⟩
    obtain ⟨b, sz, x₂, tables₂, m₂, run₂, h₂⟩ := start.loadLoop (op ▸ files.sound) positive ip
      (field elf 56 2) (field elf 32 8 % 2 ^ 32) (Nat.mod_lt _ (by decide))
    have opened : x₂ = ⟨x₂.mem, x₂.bytes, fs, x.ops + 1⟩ := by
      obtain ⟨k, b, fs', n⟩ := x₂
      rw [Machine.mk.injEq]
      exact ⟨rfl, rfl, h₂.fs, h₂.ops⟩
    rw [run₂, bind_some]
    simp only
    cases b with
    | false =>
      obtain ⟨k, freed, undone⟩ := h₂.free
      obtain ⟨x₃, close, mem, bytes, balanced⟩ := closed k x₂.bytes
      rw [Bool.not_false, if_pos rfl, bad_both freed, opened, close]
      exact ⟨none, x₃, rfl, balanced, fun a out => by rw [bytes, h₂.bytes a out],
        .inl ⟨rfl, mem ▸ undone⟩⟩
    | true =>
      obtain ⟨x₃, close, mem, bytes, balanced⟩ := closed x₂.mem x₂.bytes
      rw [Bool.not_true, if_neg Bool.false_ne_true, opened, close, bind_some]
      obtain ⟨sz₄, k₄, tables₄, m₄, run₄, done⟩ := h₂.grow
      have kept₂ : ∀ a, a / pgsize ∉ x.mem.free → x₃.bytes a = x.bytes a :=
        fun a out => bytes ▸ h₂.bytes a out
      rw [mem, run₄]
      dsimp only
      rcases done with ⟨rfl, h₄⟩ | ⟨rfl, grown⟩
      · obtain ⟨k, freed, undone⟩ := h₄.free
        rw [if_pos rfl, bad_table (x := { x₃ with mem := k₄ }) freed]
        exact ⟨none, _, rfl, ⟨balanced.op, balanced.ref, balanced.ops⟩, kept₂, .inl ⟨rfl, undone⟩⟩
      obtain ⟨k, m₅, cleared, built₅, img₅, stack⟩ := grown.stack positive
      rw [if_neg (Nat.mul_ne_zero (Nat.succ_ne_zero _) (by decide)), Nat.add_mul,
        Nat.add_sub_cancel, cleared]
      refine ⟨_, _, rfl, ⟨balanced.op, balanced.ref, balanced.ops⟩, fun a out => ?_,
        .inr ⟨root, _, _, tables₄, m₅, rfl, built₅, ?_, _, ?_, stack⟩⟩
      · refine (zeroPages_frame _ _ _ (fun u low high => grown.walkaddr ?_) out).trans (kept₂ a out)
        rw [Vm.pages_mul] at high ⊢
        omega
      · rwa [← Nat.add_mul, Vm.pages_mul]
      rw [Nat.add_mul, Nat.one_mul, Nat.two_mul, Nat.add_assoc]

end

end Xv6.Exec
