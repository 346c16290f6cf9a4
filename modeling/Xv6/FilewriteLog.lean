import Mathlib.Tactic.Linarith
import Xv6.FsImage
import Xv6.Log

/-! The blocks that a transaction of `filewrite` (file.c) logs, through `writei`, `bmap` and
`balloc` of fs.c. The in-memory inode is the inode of the image, and a transaction is the image
with the blocks logged so far. -/
namespace Xv6.Fs
open List Option Function Image

structure Superblock where
  size : Nat
  bmapstart : Nat
  inodestart : Nat

/-- The disk of the examples below has the layout that mkfs gives it. -/
abbrev fsSb : Superblock := ⟨2000, 45, 32⟩

def Superblock.bblock (sb : Superblock) (b : Nat) : Nat := b / (bsize * 8) + sb.bmapstart

def Superblock.iblock (sb : Superblock) (n : Nat) : Nat := n / 16 + sb.inodestart

structure Op where
  img : Image
  log : List Nat

/-- `log_write`, which absorbs a block that is logged already. -/
def Op.logWrite (s : Op) (b : Nat) : Op := { s with log := List.insert b s.log }

def Op.setBlock (s : Op) (b : Nat) (v : Block) : Op := { s with img := s.img.setBlock b v }

def Op.setAddr (s : Op) (n k b : Nat) : Op :=
  { s with img := s.img.setInode n ((s.img.dinode n).setAddr k b) }

/-- `balloc` with the `bzero` of the block; 0 if there is none. -/
def balloc (sb : Superblock) (s : Op) : Op × Nat :=
  match (List.range sb.size).find? fun b => !s.img.used b with
  | none => (s, 0)
  | some b =>
    let s := Op.logWrite { s with img := s.img.mark b true } (sb.bblock b)
    ((s.setBlock b zeroBlock).logWrite b, b)

def bmapAddr (sb : Superblock) (n : Nat) (s : Op) (k : Nat) : Op × Nat :=
  if (s.img.dinode n).addrs k ≠ 0 then (s, (s.img.dinode n).addrs k)
  else
    let r := balloc sb s
    if r.2 = 0 then r else (r.1.setAddr n k r.2, r.2)

/-- The block number in entry `j` of the indirect block `x`, allocated if necessary. -/
def bmapEntry (sb : Superblock) (s : Op) (x j : Nat) : Op × Nat :=
  if word (s.img.block x) j ≠ 0 then (s, word (s.img.block x) j)
  else
    let r := balloc sb s
    if r.2 = 0 then r
    else ((r.1.setBlock x (setWord (r.1.img.block x) j r.2)).logWrite x, r.2)

/-- `bmap`; `none` is its panic. -/
def bmap (sb : Superblock) (n : Nat) (s : Op) (bn : Nat) : Option (Op × Nat) :=
  if bn < ndirect then some (bmapAddr sb n s bn)
  else if bn - ndirect < nindirect then
    let r := bmapAddr sb n s ndirect
    if r.2 = 0 then some r else some (bmapEntry sb r.1 r.2 (bn - ndirect))
  else none

/-- How the copies from user space end: which ones fail, by the number of bytes before them, and
what they leave in a block. -/
structure Copies where
  fault : Nat → Bool
  data : Nat → Block → Block

/-- The loop of `writei` over the blocks, with the final `tot` and `off`. -/
def writeiLoop (sb : Superblock) (n : Nat) (copies : Copies) (count tot off : Nat) (s : Op) :
    Option (Op × Nat × Nat) :=
  if tot < count then
    (bmap sb n s (off / bsize)).bind fun r =>
      if r.2 = 0 then some (r.1, tot, off)
      else
        let s := r.1.setBlock r.2 (copies.data tot (r.1.img.block r.2))
        let m := min (count - tot) (bsize - off % bsize)
        if copies.fault tot then some (s, tot, off)
        else writeiLoop sb n copies count (tot + m) (off + m) (s.logWrite r.2)
  else some (s, tot, off)
termination_by count - tot
decreasing_by
  have inside := mod_bsize_lt off
  omega

def Op.iupdate (sb : Superblock) (n : Nat) (s : Op) (size : Nat) : Op :=
  Op.logWrite { s with img := s.img.setInode n { s.img.dinode n with size } } (sb.iblock n)

/-- `writei`; `off + n` is computed in 32 bits. -/
def writei (sb : Superblock) (n : Nat) (copies : Copies) (s : Op) (off count : Nat) :
    Option (Op × Int) :=
  if (s.img.dinode n).size < off ∨ (off + count) % 2 ^ 32 < off then some (s, -1)
  else if maxfile * bsize < (off + count) % 2 ^ 32 then some (s, -1)
  else (writeiLoop sb n copies count 0 off s).map fun r =>
    (r.1.iupdate sb n (max (s.img.dinode n).size r.2.2), r.2.1)

/-- What a transaction of `filewrite` finds when it has locked the inode: other calls may have run
since the one before it. -/
structure Moment where
  img : Image
  off : Nat
  copies : Copies

def filewriteMax : Nat := ((Log.MAXOPBLOCKS - 1 - 1 - 2) / 2) * bsize

lemma filewriteMax_eq : filewriteMax = 3 * bsize := rfl

/-- The loop of `filewrite`, with the blocks that each of its transactions logs. -/
def filewriteLoop (sb : Superblock) (n : Nat) (moments : Nat → Moment) (count k i : Nat) :
    Option (List (List Nat)) :=
  if i < count then
    let n1 := min (count - i) filewriteMax
    (writei sb n (moments k).copies ⟨(moments k).img, []⟩ (moments k).off n1).bind fun r =>
      if r.2 = n1 then
        (filewriteLoop sb n moments count (k + 1) (i + n1)).map fun logs => r.1.log :: logs
      else some [r.1.log]
  else some []
termination_by count - i
decreasing_by
  have positive : 0 < filewriteMax := by decide
  omega

def filewrite (sb : Superblock) (n : Nat) (moments : Nat → Moment) (count : Int) :
    Option (List (List Nat)) :=
  filewriteLoop sb n moments count.toNat 0 0

def NoHole (m : Image) (n : Nat) : Prop :=
  ∀ f, f * bsize < (m.dinode n).size → m.blockAt (n, slot f) ≠ 0

variable {sb : Superblock} {n c q k x a tot off count : Nat} {s s' : Op} {copies : Copies}

lemma mem_logWrite {b : Nat} : b ∈ (s.logWrite x).log ↔ b = x ∨ b ∈ s.log := mem_insert_iff

lemma balloc_spec (sb : Superblock) (s : Op) : (balloc sb s).1.img.dinode = s.img.dinode ∧ ∃ y,
    ∀ b ∈ (balloc sb s).1.log, b ∈ s.log ∨ b = y ∨ b = (balloc sb s).2 := by
  unfold balloc
  cases (List.range sb.size).find? fun b => !s.img.used b with
  | none => exact ⟨rfl, 0, fun b logged => .inl logged⟩
  | some x =>
    refine ⟨rfl, sb.bblock x, fun b logged => ?_⟩
    rcases mem_logWrite.mp logged with rfl | logged
    · exact .inr (.inr rfl)
    rcases mem_logWrite.mp logged with rfl | logged
    · exact .inr (.inl rfl)
    exact .inl logged

/-- The blocks logged so far: at most `c` of them for data, apart from the indirect block and the
block of the bitmap that its allocation marks. -/
def Cost (n : Nat) (s : Op) (c : Nat) : Prop :=
  ∃ D P : Finset Nat, (∀ b ∈ s.log, b ∈ D ∨ b ∈ P) ∧ D.card ≤ c ∧ P.card ≤ 2 ∧
    ((s.img.dinode n).addrs ndirect = 0 → P = ∅) ∧
    ((s.img.dinode n).addrs ndirect ≠ 0 → (s.img.dinode n).addrs ndirect ∈ P)

lemma cost_start (m : Image) (n : Nat) : Cost n ⟨m, []⟩ 0 := by
  by_cases none : (m.dinode n).addrs ndirect = 0
  · exact ⟨∅, ∅, fun _ logged => absurd logged not_mem_nil, le_rfl, Nat.zero_le 2,
      fun _ => rfl, fun some => absurd none some⟩
  exact ⟨∅, {(m.dinode n).addrs ndirect}, fun _ logged => absurd logged not_mem_nil, le_rfl,
    by rw [Finset.card_singleton]; decide, fun zero => absurd zero none,
    fun _ => Finset.mem_singleton_self _⟩

namespace Cost
lemma mono (h : Cost n s c) {d : Nat} (le : c ≤ d) (addr : (s'.img.dinode n).addrs ndirect =
    (s.img.dinode n).addrs ndirect) (fewer : ∀ b ∈ s'.log, b ∈ s.log) : Cost n s' d := by
  obtain ⟨D, P, inside, few, two, empty, here⟩ := h
  rw [← addr] at empty here
  exact ⟨D, P, fun b logged => inside b (fewer b logged), few.trans le, two, empty, here⟩

lemma grow (h : Cost n s c) (s' : Op) (E : Finset Nat)
    (addr : (s'.img.dinode n).addrs ndirect = (s.img.dinode n).addrs ndirect) (more : ∀ b ∈ s'.log,
    b ∈ s.log ∨ b ∈ E ∨ b = (s.img.dinode n).addrs ndirect ∧ b ≠ 0) : Cost n s' (c + E.card) := by
  obtain ⟨D, P, inside, few, two, empty, here⟩ := h
  refine ⟨D ∪ E, P, fun b logged => ?_, (Finset.card_union_le D E).trans (by omega), two,
    by rwa [addr], by rwa [addr]⟩
  rcases more b logged with old | data | ⟨rfl, some⟩
  · exact (inside b old).imp_left (Finset.mem_union_left E)
  · exact .inl (Finset.mem_union_right D data)
  exact .inr (here some)

lemma card_pair_le (x y : Nat) : ({x, y} : Finset Nat).card ≤ 2 := Finset.card_le_two

lemma found (h : Cost n s c) (a : Nat) : Cost n (s.logWrite a) (c + 1) := by
  have grown := h.grow (s.logWrite a) {a} rfl fun b logged => by
    rcases mem_logWrite.mp logged with rfl | old
    · exact .inr (.inl (Finset.mem_singleton_self b))
    exact .inl old
  rwa [Finset.card_singleton] at grown

lemma direct (h : Cost n s c) (sb : Superblock) (small : k < ndirect) :
    Cost n ((bmapAddr sb n s k).1.logWrite (bmapAddr sb n s k).2) (c + 2) := by
  unfold bmapAddr
  by_cases present : (s.img.dinode n).addrs k ≠ 0
  · rw [if_pos present]
    exact (h.found _).mono (by omega) rfl fun b logged => logged
  obtain ⟨inodes, y, logs⟩ := balloc_spec sb s
  rw [if_neg present]
  have fresh : ∀ {s' : Op}, (s'.img.dinode n).addrs ndirect = (s.img.dinode n).addrs ndirect →
      s'.log = (balloc sb s).1.log → Cost n (s'.logWrite (balloc sb s).2) (c + 2) := by
    intro s' addr log
    refine (h.grow (s'.logWrite (balloc sb s).2) {y, (balloc sb s).2} addr
      fun b logged => ?_).mono (Nat.add_le_add_left (card_pair_le _ _) c) rfl fun b logged => logged
    rcases mem_logWrite.mp logged with rfl | logged
    · exact .inr (.inl (by simp))
    rw [log] at logged
    rcases logs b logged with old | rfl | rfl
    · exact .inl old
    · exact .inr (.inl (by simp))
    exact .inr (.inl (by simp))
  by_cases full : (balloc sb s).2 = 0
  · simp only [if_pos full]
    exact fresh (by rw [inodes]) rfl
  simp only [if_neg full]
  refine fresh ?_ rfl
  rw [Op.setAddr, setInode_dinode, update_self, Dinode.setAddr_addrs,
    update_of_ne (by omega), inodes]

lemma indirect (h : Cost n s c) (sb : Superblock) :
    ((bmapAddr sb n s ndirect).2 = 0 → Cost n (bmapAddr sb n s ndirect).1 (c + 2)) ∧
    ((bmapAddr sb n s ndirect).2 ≠ 0 → Cost n (bmapAddr sb n s ndirect).1 c ∧
    ((bmapAddr sb n s ndirect).1.img.dinode n).addrs ndirect = (bmapAddr sb n s ndirect).2) := by
  unfold bmapAddr
  by_cases present : (s.img.dinode n).addrs ndirect ≠ 0
  · rw [if_pos present]
    exact ⟨fun zero => absurd zero present, fun _ => ⟨h, rfl⟩⟩
  obtain ⟨inodes, y, logs⟩ := balloc_spec sb s
  rw [if_neg present]
  by_cases full : (balloc sb s).2 = 0
  · simp only [if_pos full]
    refine ⟨fun _ => ?_, fun some => absurd full some⟩
    refine (h.grow (balloc sb s).1 {y, (balloc sb s).2} (by rw [inodes])
      fun b logged => ?_).mono (Nat.add_le_add_left (card_pair_le _ _) c) rfl fun b logged => logged
    rcases logs b logged with old | rfl | rfl
    · exact .inl old
    · exact .inr (.inl (by simp))
    exact .inr (.inl (by simp))
  simp only [if_neg full]
  refine ⟨fun zero => absurd zero full, fun _ => ?_⟩
  have addr : (((balloc sb s).1.setAddr n ndirect (balloc sb s).2).img.dinode n).addrs ndirect =
      (balloc sb s).2 := by
    rw [Op.setAddr, setInode_dinode, update_self, Dinode.setAddr_addrs,
      update_self]
  refine ⟨?_, addr⟩
  obtain ⟨D, P, inside, few, -, empty, -⟩ := h
  refine ⟨D, {y, (balloc sb s).2}, fun b logged => ?_, few, card_pair_le _ _,
    fun zero => absurd (addr.symm.trans zero) full, fun _ => by rw [addr]; simp⟩
  rcases logs b logged with old | rfl | rfl
  · rcases inside b old with data | own
    · exact .inl data
    rw [empty (not_not.mp present)] at own
    exact absurd own (Finset.notMem_empty b)
  · exact .inr (by simp)
  exact .inr (by simp)

lemma entry (h : Cost n s c) (sb : Superblock) (j : Nat)
    (here : (s.img.dinode n).addrs ndirect = x) (some : x ≠ 0) :
    Cost n ((bmapEntry sb s x j).1.logWrite (bmapEntry sb s x j).2) (c + 2) := by
  unfold bmapEntry
  by_cases present : word (s.img.block x) j ≠ 0
  · rw [if_pos present]
    exact (h.found _).mono (by omega) rfl fun b logged => logged
  obtain ⟨inodes, y, logs⟩ := balloc_spec sb s
  rw [if_neg present]
  have fresh : ∀ {s' : Op}, s'.img.dinode = s.img.dinode →
      (∀ b ∈ s'.log, b = x ∨ b ∈ (balloc sb s).1.log) →
      Cost n (s'.logWrite (balloc sb s).2) (c + 2) := by
    intro s' same log
    refine (h.grow (s'.logWrite (balloc sb s).2) {y, (balloc sb s).2} (by rw [← same]; rfl) fun b
      logged => ?_).mono (Nat.add_le_add_left (card_pair_le _ _) c) rfl fun b logged => logged
    rcases mem_logWrite.mp logged with rfl | logged
    · exact .inr (.inl (by simp))
    rcases log b logged with rfl | logged
    · exact .inr (.inr ⟨here.symm, some⟩)
    rcases logs b logged with old | rfl | rfl
    · exact .inl old
    · exact .inr (.inl (by simp))
    exact .inr (.inl (by simp))
  by_cases full : (balloc sb s).2 = 0
  · simp only [if_pos full]
    exact fresh inodes fun b logged => .inr logged
  simp only [if_neg full]
  exact fresh inodes fun b logged => mem_logWrite.mp logged

lemma bmap (h : Cost n s c) (sb : Superblock) {bn : Nat} (fits : bn < maxfile) :
    ∃ r, Fs.bmap sb n s bn = some r ∧ Cost n r.1 (c + 2) ∧
    (r.2 ≠ 0 → Cost n (r.1.logWrite r.2) (c + 2)) := by
  have unlog : ∀ {s : Op} {a : Nat}, Cost n (s.logWrite a) (c + 2) → Cost n s (c + 2) :=
    fun cost => cost.mono le_rfl rfl fun b logged => mem_logWrite.mpr (.inr logged)
  unfold Fs.bmap
  by_cases small : bn < ndirect
  · rw [if_pos small]
    have cost := h.direct sb small
    exact ⟨_, rfl, unlog cost, fun _ => cost⟩
  rw [if_neg small, if_pos (entry_lt fits)]
  obtain ⟨failed, there⟩ := h.indirect sb
  by_cases full : (bmapAddr sb n s ndirect).2 = 0
  · simp only [if_pos full]
    exact ⟨_, rfl, failed full, fun some => absurd full some⟩
  simp only [if_neg full]
  obtain ⟨cost, here⟩ := there full
  have cost := cost.entry sb (bn - ndirect) here full
  exact ⟨_, rfl, unlog cost, fun _ => cost⟩

lemma writeiLoop (sb : Superblock) (copies : Copies) (count q tot off : Nat)
    {s : Op} {c : Nat} (h : Cost n s c) (fits : off + (count - tot) ≤ maxfile * bsize)
    (blocks : tot < count → off % bsize + (count - tot) ≤ q * bsize) :
    ∃ r, Fs.writeiLoop sb n copies count tot off s = some r ∧ Cost n r.1 (c + 2 * q) := by
  induction q generalizing tot off s c with
  | zero =>
    have done : ¬ tot < count := fun more => by
      have := blocks more
      omega
    rw [Fs.writeiLoop, if_neg done]
    exact ⟨_, rfl, h⟩
  | succ q ih =>
    rw [Fs.writeiLoop]
    by_cases more : tot < count
    swap
    · rw [if_neg more]
      exact ⟨_, rfl, h.mono (by omega) rfl fun b logged => logged⟩
    have enough := blocks more
    have inside := mod_bsize_lt off
    have whole := Nat.div_add_mod off bsize
    simp only [maxfile, ndirect, nindirect, bsize] at fits enough inside whole
    obtain ⟨r, mapped, cost, logged⟩ := h.bmap sb
      (show off / bsize < maxfile by simp only [maxfile, ndirect, nindirect, bsize]; omega)
    rw [if_pos more, mapped, bind_some]
    have later : ∀ {s' : Op}, Cost n s' (c + 2) → Cost n s' (c + 2 * (q + 1)) :=
      fun cost => cost.mono (by omega) rfl fun b logged => logged
    by_cases full : r.2 = 0
    · rw [if_pos full]
      exact ⟨_, rfl, later cost⟩
    rw [if_neg full]
    by_cases fault : copies.fault tot = true
    · simp only [if_pos fault]
      exact ⟨_, rfl, (later cost).mono le_rfl rfl fun b logged => logged⟩
    simp only [if_neg fault]
    obtain ⟨t, run, total⟩ := ih (tot + min (count - tot) (bsize - off % bsize)) (off + min (count -
      tot) (bsize - off % bsize)) (s := (r.1.setBlock r.2 (copies.data tot (r.1.img.block
      r.2))).logWrite r.2) ((logged full).mono le_rfl rfl fun b logged => logged)
      (by simp only [maxfile, ndirect, nindirect, bsize]; omega) (by simp only [bsize]; omega)
    exact ⟨t, run, total.mono (by omega) rfl fun b logged => logged⟩

lemma iupdate (h : Cost n s 7) (sb : Superblock) (size : Nat) :
    (s.iupdate sb n size).log.toFinset.card ≤ Log.MAXOPBLOCKS := by
  obtain ⟨D, P, inside, few, two, -, -⟩ := h
  have covered : (s.iupdate sb n size).log.toFinset ⊆ insert (sb.iblock n) (D ∪ P) := by
    intro b logged
    rcases mem_logWrite.mp (mem_toFinset.mp logged) with rfl | old
    · exact Finset.mem_insert_self _ _
    exact Finset.mem_insert_of_mem (Finset.mem_union.mpr (inside b old))
  calc (s.iupdate sb n size).log.toFinset.card
      ≤ (insert (sb.iblock n) (D ∪ P)).card := Finset.card_le_card covered
    _ ≤ (D ∪ P).card + 1 := Finset.card_insert_le _ _
    _ ≤ D.card + P.card + 1 := Nat.add_le_add_right (Finset.card_union_le D P) 1
    _ ≤ 7 + 2 + 1 := by omega
    _ = Log.MAXOPBLOCKS := rfl

end Cost

lemma bmap_found {sb : Superblock} {bn : Nat} (inside : bn < maxfile)
    (some : s.img.blockAt (n, slot bn) ≠ 0) :
    bmap sb n s bn = .some (s, s.img.blockAt (n, slot bn)) := by
  unfold bmap bmapAddr
  by_cases small : bn < ndirect
  · rw [slot_direct small] at some ⊢
    have addr : (s.img.dinode n).addrs bn ≠ 0 := some
    rw [if_pos small, if_pos addr]
    rfl
  rw [if_neg small, if_pos (entry_lt inside)]
  rw [slot_entry small (entry_lt inside)] at some ⊢
  have indirect : (s.img.dinode n).addrs ndirect ≠ 0 := by
    intro zero
    simp only [blockAt, if_pos zero, ne_eq, not_true_eq_false] at some
  simp only [blockAt, if_neg indirect] at some ⊢
  rw [if_pos indirect]
  simp only [if_neg indirect]
  rw [bmapEntry, if_pos some]

/-- A transaction of at most three blocks of bytes logs data blocks and bitmap blocks for three
new blocks, and one old block in front of them if the offset is not aligned. -/
lemma writei_fits (sb : Superblock) (copies : Copies) (m : Image) (filled : NoHole m n)
    (off : Nat) (few : count ≤ filewriteMax) : ∃ r, writei sb n copies ⟨m, []⟩ off count = some r ∧
    r.1.log.toFinset.card ≤ Log.MAXOPBLOCKS := by
  unfold writei
  split_ifs with beyond long
  · exact ⟨_, rfl, Nat.zero_le _⟩
  · exact ⟨_, rfl, Nat.zero_le _⟩
  obtain ⟨start, nowrap⟩ := not_or.mp beyond
  have inside := mod_bsize_lt off
  rw [filewriteMax_eq] at few
  have fits : off + count ≤ maxfile * bsize := by
    simp only [maxfile, ndirect, nindirect, bsize] at *
    omega
  suffices loop : ∃ r, writeiLoop sb n copies count 0 off ⟨m, []⟩ = some r ∧ Cost n r.1 7 by
    obtain ⟨r, run, cost⟩ := loop
    rw [run]
    exact ⟨_, rfl, cost.iupdate sb _⟩
  by_cases aligned : off % bsize = 0
  · obtain ⟨r, run, cost⟩ := (cost_start m n).writeiLoop sb copies count 3 0 off fits (fun _ => by omega)
    exact ⟨r, run, cost.mono (by omega) rfl fun b logged => logged⟩
  rw [writeiLoop]
  by_cases more : 0 < count
  swap
  · rw [if_neg more]
    exact ⟨_, rfl, (cost_start m n).mono (by omega) rfl fun b logged => logged⟩
  -- an offset inside a block is inside a block of the file
  have old : m.blockAt (n, slot (off / bsize)) ≠ 0 := filled _ (by simp only [bsize] at *; omega)
  rw [if_pos more, bmap_found (s := ⟨m, []⟩)
    (by simp only [maxfile, ndirect, nindirect, bsize] at *; omega) old, bind_some,
    if_neg old]
  by_cases fault : copies.fault 0 = true
  · simp only [if_pos fault]
    exact ⟨_, rfl, (cost_start m n).mono (by omega) rfl fun b logged => logged⟩
  simp only [if_neg fault]
  have first : Cost n ((Op.setBlock ⟨m, []⟩ (m.blockAt (n, slot (off / bsize))) (copies.data 0
    (m.block (m.blockAt (n, slot (off / bsize)))))).logWrite (m.blockAt (n, slot (off / bsize)))) 1
    := ((cost_start m n).found _).mono le_rfl rfl fun b logged => logged
  obtain ⟨r, run, cost⟩ := first.writeiLoop sb copies count 3
    (0 + min (count - 0) (bsize - off % bsize)) (off + min (count - 0) (bsize - off % bsize))
    (by simp only [maxfile, ndirect, nindirect, bsize] at *; omega)
    (by simp only [bsize] at *; omega)
  exact ⟨r, run, cost⟩

lemma filewriteLoop_fits (sb : Superblock) (moments : Nat → Moment)
    (filled : ∀ k, NoHole (moments k).img n) (count k i : Nat) :
    ∃ logs, filewriteLoop sb n moments count k i = some logs ∧
    ∀ log ∈ logs, log.toFinset.card ≤ Log.MAXOPBLOCKS := by
  induction left : count - i using Nat.strong_induction_on generalizing k i with
  | _ left ih =>
    rw [filewriteLoop]
    by_cases more : i < count
    swap
    · rw [if_neg more]
      exact ⟨[], rfl, fun log mem => absurd mem not_mem_nil⟩
    obtain ⟨r, written, small⟩ := writei_fits sb (moments k).copies (moments k).img (filled k)
      (moments k).off (min_le_right (count - i) filewriteMax)
    rw [if_pos more]
    dsimp only
    rw [written, bind_some]
    by_cases done : r.2 = (min (count - i) filewriteMax : Nat)
    · have positive : 0 < filewriteMax := by decide
      obtain ⟨logs, rest, later⟩ := ih (count - (i + min (count - i) filewriteMax)) (by omega)
        (k + 1) (i + min (count - i) filewriteMax) rfl
      rw [if_pos done, rest]
      refine ⟨r.1.log :: logs, rfl, fun log mem => ?_⟩
      rcases mem_cons.mp mem with rfl | mem
      · exact small
      exact later log mem
    rw [if_neg done]
    refine ⟨[r.1.log], rfl, fun log mem => ?_⟩
    rw [mem_singleton.mp mem]
    exact small

/-- Every transaction of `filewrite` logs at most as many blocks as `begin_op` reserves, for every
offset, length and layout, if it finds the blocks of the file below its size allocated. -/
theorem filewrite_transactions_fit (sb : Superblock) (n : Nat) (moments : Nat → Moment)
    (filled : ∀ k, NoHole (moments k).img n) (count : Int) :
    ∃ logs, filewrite sb n moments count = some logs ∧
      ∀ log ∈ logs, log.toFinset.card ≤ Log.MAXOPBLOCKS :=
  filewriteLoop_fits sb moments filled count.toNat 0 0

/-- A file of 1000 bytes in the one block 70, in an image where only that block is in use. -/
def shortFile : Image where
  dinode n := if n = 5 then ⟨.file, 0, 0, 1, 1000, Function.update (fun _ => 0) 0 70⟩ else zeroDinode
  used b := b = 70
  block _ := zeroBlock

lemma noHole_shortFile : NoHole shortFile 5 := by
  intro f inside
  obtain rfl : f = 0 := by
    have size : (shortFile.dinode 5).size = 1000 := rfl
    rw [size] at inside
    simp only [bsize] at inside
    omega
  decide

theorem append_to_short_file_fits :
    ∃ logs, filewrite fsSb 5
        (fun _ => ⟨shortFile, 1000, fun _ => false, fun _ b => b⟩) 5000 = some logs ∧
      ∀ log ∈ logs, log.toFinset.card ≤ Log.MAXOPBLOCKS :=
  filewrite_transactions_fit fsSb 5 _ (fun _ => noHole_shortFile) 5000

end Xv6.Fs
