import Mathlib.Tactic.Ring
import Xv6.Ownership

/-! The on-disk format of fs.h: the inode table, the free map and the data blocks, and the places
of the inodes that hold block numbers. -/
namespace Xv6.Fs
open Function (update update_of_ne update_self)

abbrev bsize : Nat := 1024
abbrev ndirect : Nat := 12
abbrev nindirect : Nat := 256
abbrev maxfile : Nat := ndirect + nindirect
abbrev rootino : Nat := 1

abbrev fssize : Nat := 2000
abbrev ninodes : Nat := 200
abbrev nlog : Nat := 30
abbrev ninodeblocks : Nat := ninodes / 16 + 1
abbrev nbitmap : Nat := fssize / (bsize * 8) + 1
abbrev nmeta : Nat := 2 + nlog + ninodeblocks + nbitmap

lemma mod_bsize_lt (off : Nat) : off % bsize < bsize := Nat.mod_lt off (by decide)

abbrev Block := Nat → UInt8

def zeroBlock : Block := fun _ => 0

/-- `((uint*)data)[j]`, little endian. -/
def word (b : Block) (j : Nat) : Nat :=
  (b (4 * j)).toNat + 256 * (b (4 * j + 1)).toNat + 65536 * (b (4 * j + 2)).toNat +
    16777216 * (b (4 * j + 3)).toNat

/-- `((uint*)data)[j] = v` -/
def setWord (b : Block) (j v : Nat) : Block :=
  fun i => if i / 4 = j then UInt8.ofNat (v / 256 ^ (i % 4)) else b i

lemma word_zeroBlock (j : Nat) : word zeroBlock j = 0 := rfl

lemma word_setWord_self {b : Block} {j v : Nat} (fits : v < 2 ^ 32) :
    word (setWord b j v) j = v := by
  have at' : ∀ r < 4, setWord b j v (4 * j + r) = UInt8.ofNat (v / 256 ^ r) := by
    intro r small
    rw [setWord, if_pos (by omega), Nat.mul_add_mod, Nat.mod_eq_of_lt small]
  have first := at' 0 (by omega)
  rw [Nat.add_zero] at first
  rw [word, first, at' 1 (by omega), at' 2 (by omega), at' 3 (by omega)]
  simp only [UInt8.toNat_ofNat']
  omega

lemma word_setWord_of_ne {b : Block} {j k v : Nat} (other : k ≠ j) :
    word (setWord b j v) k = word b k := by
  have at' : ∀ r < 4, setWord b j v (4 * k + r) = b (4 * k + r) := by
    intro r small
    rw [setWord, if_neg (by omega)]
  have first := at' 0 (by omega)
  rw [Nat.add_zero] at first
  rw [word, word, first, at' 1 (by omega), at' 2 (by omega), at' 3 (by omega)]

/-- The type of an inode; a free one has none. -/
inductive Kind
  | none
  | dir
  | file
  | device
  deriving DecidableEq, Repr

structure Dinode where
  type : Kind
  major : Int
  minor : Int
  nlink : Int
  size : Nat
  addrs : Nat → Nat

def zeroDinode : Dinode := ⟨.none, 0, 0, 0, 0, fun _ => 0⟩

def Dinode.setAddr (d : Dinode) (k b : Nat) : Dinode :=
  { d with addrs := update d.addrs k b }

@[simp] lemma Dinode.setAddr_addrs (d : Dinode) (k b : Nat) :
    (d.setAddr k b).addrs = update d.addrs k b := rfl

/-- `dinode n` is entry `n % IPB` of block `IBLOCK(n)`, `used b` is bit `b % BPB` of block
`BBLOCK(b)`, and `block` holds the data blocks. -/
structure Image where
  dinode : Nat → Dinode
  used : Nat → Bool
  block : Nat → Block

def Image.setInode (m : Image) (n : Nat) (d : Dinode) : Image :=
  { m with dinode := update m.dinode n d }

def Image.setBlock (m : Image) (b : Nat) (v : Block) : Image :=
  { m with block := update m.block b v }

def Image.mark (m : Image) (b : Nat) (bit : Bool) : Image :=
  { m with used := update m.used b bit }

section
variable (m : Image) (n b : Nat) (d : Dinode) (v : Block) (bit : Bool)

@[simp] lemma Image.setInode_dinode :
    (m.setInode n d).dinode = update m.dinode n d := rfl
@[simp] lemma Image.setInode_used : (m.setInode n d).used = m.used := rfl
@[simp] lemma Image.setInode_block : (m.setInode n d).block = m.block := rfl
@[simp] lemma Image.setBlock_dinode : (m.setBlock b v).dinode = m.dinode := rfl
@[simp] lemma Image.setBlock_used : (m.setBlock b v).used = m.used := rfl
@[simp] lemma Image.setBlock_block : (m.setBlock b v).block = update m.block b v := rfl
@[simp] lemma Image.mark_dinode : (m.mark b bit).dinode = m.dinode := rfl
@[simp] lemma Image.mark_used : (m.mark b bit).used = update m.used b bit := rfl
@[simp] lemma Image.mark_block : (m.mark b bit).block = m.block := rfl

end

/-- Where an inode holds a block number: in `addrs[]` or in its indirect block. -/
inductive Loc
  | direct (k : Fin ndirect)
  | indirect
  | entry (j : Fin nindirect)
  deriving DecidableEq

abbrev Place := Nat × Loc

/-- The block number at a place, 0 if there is none. -/
def Image.blockAt (m : Image) (p : Place) : Nat :=
  match p.2 with
  | .direct k => (m.dinode p.1).addrs k
  | .indirect => (m.dinode p.1).addrs ndirect
  | .entry j =>
    if (m.dinode p.1).addrs ndirect = 0 then 0
    else word (m.block ((m.dinode p.1).addrs ndirect)) j

def slot (f : Nat) : Loc :=
  if small : f < ndirect then .direct ⟨f, small⟩
  else if large : f - ndirect < nindirect then .entry ⟨f - ndirect, large⟩
  else .indirect

variable {f : Nat}

lemma slot_direct (small : f < ndirect) : slot f = .direct ⟨f, small⟩ := dif_pos small

lemma entry_lt (fits : f < maxfile) : f - ndirect < nindirect := by
  simp only [maxfile, ndirect, nindirect] at *
  omega

lemma slot_entry (large : ¬ f < ndirect) (fits : f - ndirect < nindirect) :
    slot f = .entry ⟨f - ndirect, fits⟩ := by rw [slot, dif_neg large, dif_pos fits]

lemma slot_injective {g : Nat} (hf : f < maxfile) (hg : g < maxfile) (eq : slot f = slot g) :
    f = g := by
  by_cases a : f < ndirect <;> by_cases b : g < ndirect
  · rw [slot_direct a, slot_direct b] at eq
    cases eq
    rfl
  · rw [slot_direct a, slot_entry b (entry_lt hg)] at eq
    cases eq
  · rw [slot_entry a (entry_lt hf), slot_direct b] at eq
    cases eq
  rw [slot_entry a (entry_lt hf), slot_entry b (entry_lt hg)] at eq
  have same : f - ndirect = g - ndirect := congrArg Fin.val (Loc.entry.inj eq)
  simp only [ndirect] at *
  omega

lemma slot_ne_indirect (fits : f < maxfile) : slot f ≠ .indirect := by
  intro eq
  by_cases small : f < ndirect
  · rw [slot_direct small] at eq
    cases eq
  rw [slot_entry small (entry_lt fits)] at eq
  cases eq

section
variable {m : Image} {n : Nat} {b x : Nat}

lemma blockAt_congr {m' : Image} (addrs : ∀ n, (m'.dinode n).addrs = (m.dinode n).addrs)
    (block : ∀ n, (m.dinode n).addrs ndirect ≠ 0 → m'.block ((m.dinode n).addrs ndirect) =
    m.block ((m.dinode n).addrs ndirect)) : m'.blockAt = m.blockAt := by
  funext p
  obtain ⟨n, loc⟩ := p
  cases loc with
  | direct k => exact congrFun (addrs n) k
  | indirect => exact congrFun (addrs n) ndirect
  | entry j =>
    simp only [Image.blockAt, addrs n]
    split_ifs with zero
    · rfl
    rw [block n zero]

lemma blockAt_setBlock {v : Block} (leaf : ∀ n, m.blockAt (n, .indirect) ≠ x) :
    (m.setBlock x v).blockAt = m.blockAt :=
  blockAt_congr (fun _ => rfl) fun n _ => update_of_ne (leaf n) _ _

lemma blockAt_setInode {d : Dinode} (addrs : d.addrs = (m.dinode n).addrs) :
    (m.setInode n d).blockAt = m.blockAt := by
  refine blockAt_congr (fun n' => ?_) fun _ _ => rfl
  rw [Image.setInode_dinode]
  by_cases same : n' = n
  · rw [same, update_self, addrs]
  rw [update_of_ne same]

lemma blockAt_setDirect (k : Fin ndirect) :
    (m.setInode n ((m.dinode n).setAddr k b)).blockAt = update m.blockAt (n, .direct k) b := by
  have far : ndirect ≠ (k : Nat) := Nat.ne_of_gt k.isLt
  funext p
  obtain ⟨n', loc⟩ := p
  by_cases same : n' = n
  · subst same
    cases loc with
    | direct k' =>
      by_cases eq : k' = k
      · subst eq
        simp [Image.blockAt]
      have : (k' : Nat) ≠ k := fun h => eq (Fin.ext h)
      simp [Image.blockAt, update_of_ne this, eq]
    | indirect => simp [Image.blockAt, update_of_ne far]
    | entry j => simp [Image.blockAt, update_of_ne far]
  cases loc <;> simp [Image.blockAt, same]

lemma blockAt_setIndirect (none : (m.dinode n).addrs ndirect = 0)
    (zero : ∀ j, word (m.block b) j = 0) : (m.setInode n ((m.dinode n).setAddr ndirect b)).blockAt =
    update m.blockAt (n, .indirect) b := by
  funext p
  obtain ⟨n', loc⟩ := p
  by_cases same : n' = n
  · subst same
    cases loc with
    | direct k =>
      have far : (k : Nat) ≠ ndirect := Nat.ne_of_lt k.isLt
      simp [Image.blockAt, update_of_ne far]
    | indirect => simp [Image.blockAt]
    | entry j => simp [Image.blockAt, none, zero]
  cases loc <;> simp [Image.blockAt, same]

lemma blockAt_setWord (j : Fin nindirect) (here : (m.dinode n).addrs ndirect = x)
    (some : x ≠ 0) (only : ∀ n', (m.dinode n').addrs ndirect = x → n' = n) (fits : b < 2 ^ 32) :
    (m.setBlock x (setWord (m.block x) j b)).blockAt = update m.blockAt (n, .entry j) b := by
  funext p
  obtain ⟨n', loc⟩ := p
  by_cases same : n' = n
  · subst same
    cases loc with
    | direct k => simp [Image.blockAt]
    | indirect => simp [Image.blockAt]
    | entry j' =>
      by_cases eq : j' = j
      · subst eq
        simp [Image.blockAt, here, some, word_setWord_self fits]
      have : (j' : Nat) ≠ j := fun h => eq (Fin.ext h)
      simp [Image.blockAt, here, some, word_setWord_of_ne this, eq]
  have other : (m.dinode n').addrs ndirect ≠ x := fun eq => same (only n' eq)
  cases loc <;> simp [Image.blockAt, update_of_ne other, same]

end
/-- The block numbers held by the inodes are distinct data blocks, the free map marks exactly
these and the metadata blocks, and no slot below the size of an inode is empty. -/
structure Consistent (m : Image) : Prop where
  filled : ∀ n f, f * bsize < (m.dinode n).size → m.blockAt (n, slot f) ≠ 0
  distinct : ∀ p q, m.blockAt p ≠ 0 → m.blockAt p = m.blockAt q → p = q
  data : ∀ p, m.blockAt p ≠ 0 → nmeta ≤ m.blockAt p ∧ m.blockAt p < fssize
  marked : ∀ b, m.used b = true ↔ b < nmeta ∨ b ≠ 0 ∧ ∃ p, m.blockAt p = b

end Xv6.Fs
