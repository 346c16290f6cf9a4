import Xv6.FilewriteLog

/-! Who owns the blocks of the disk. The calls on files and directories change the image through
the functions of fs.c below, in any order: `writei` with its partial failures, `readi`, `itrunc`,
`ialloc`, `iupdate` of the fields that hold no block, and the end of an inode in `iput`. Each of
them but `readi` ends with `iupdate`, and `readi` finds all its blocks: so the inode on the disk is
the one in memory after each of them, and the image holds both. -/
namespace Xv6.Fs
open Ownership Interleaving List Option Prod Set Image
open Function (update update_eq_self update_idem update_of_ne update_self)

/-- `bfree`; `none` is its panic. -/
def bfree (m : Image) (b : Nat) : Option Image := if m.used b then some (m.mark b false) else none

/-- `if(ip->addrs[k]){ bfree(ip->addrs[k]); ip->addrs[k] = 0; }` -/
def truncAddr (n : Nat) (m : Image) (k : Nat) : Option Image :=
  if (m.dinode n).addrs k ≠ 0 then
    (bfree m ((m.dinode n).addrs k)).map fun m => m.setInode n ((m.dinode n).setAddr k 0)
  else some m

/-- `if(a[j]) bfree(a[j]);` for the indirect block `x`. -/
def truncEntry (x : Nat) (m : Image) (j : Fin nindirect) : Option Image :=
  if word (m.block x) j ≠ 0 then bfree m (word (m.block x) j) else some m

def truncIndirect (n : Nat) (m : Image) : Option Image :=
  if (m.dinode n).addrs ndirect ≠ 0 then
    ((List.finRange nindirect).foldlM (truncEntry ((m.dinode n).addrs ndirect)) m).bind fun m =>
      truncAddr n m ndirect
  else some m

def itrunc (n : Nat) (m : Image) : Option Image :=
  ((List.finRange ndirect).foldlM (fun m (k : Fin ndirect) => truncAddr n m k) m).bind fun m =>
    (truncIndirect n m).map fun m => m.setInode n { m.dinode n with size := 0 }

/-- The loop of `readi` over the blocks, with the copies to user space that fail. -/
def readiLoop (sb : Superblock) (n : Nat) (fault : Nat → Bool) (count tot off : Nat) (s : Op) :
    Option Op :=
  if tot < count then
    (bmap sb n s (off / bsize)).bind fun r =>
      if r.2 = 0 then some r.1
      else
        let m := min (count - tot) (bsize - off % bsize)
        if fault tot then some r.1
        else readiLoop sb n fault count (tot + m) (off + m) r.1
  else some s
termination_by count - tot
decreasing_by
  have inside := mod_bsize_lt off
  omega

/-- `readi`, as far as it changes the disk; `off + n` is computed in 32 bits. -/
def readi (sb : Superblock) (n : Nat) (fault : Nat → Bool) (s : Op) (off count : Nat) : Option Op :=
  if (s.img.dinode n).size < off ∨ (off + count) % 2 ^ 32 < off then some s
  else
    let count :=
      if (s.img.dinode n).size < (off + count) % 2 ^ 32 then (s.img.dinode n).size - off else count
    readiLoop sb n fault count 0 off s

inductive Change where
  | writei (n : Nat) (copies : Copies) (off count : Nat)
  | readi (n : Nat) (fault : Nat → Bool) (off count : Nat)
  | itrunc (n : Nat)
  | ialloc (n : Nat) (type : Kind)
  | iupdate (n : Nat) (major minor nlink : Int)
  | iput (n : Nat)

/-- One change; `none` is a panic. -/
def change (sb : Superblock) (m : Image) : Change → Option Image
  | .writei n copies off count => (writei sb n copies ⟨m, []⟩ off count).map fun r => r.1.img
  | .readi n fault off count => (readi sb n fault ⟨m, []⟩ off count).map Op.img
  | .itrunc n => itrunc n m
  | .ialloc n type => some (m.setInode n { zeroDinode with type })
  | .iupdate n major minor nlink => some (m.setInode n { m.dinode n with major, minor, nlink })
  | .iput n => (itrunc n m).map fun m => m.setInode n { m.dinode n with type := .none }

/-- `ialloc` takes a free inode, the other functions are called with an allocated one, and a count
is a `uint`. -/
def Allowed (m : Image) : Change → Prop
  | .ialloc n type => (m.dinode n).type = .none ∧ type ≠ .none
  | .writei n _ _ count | .readi n _ _ count => (m.dinode n).type ≠ .none ∧ count < 2 ^ 32
  | .itrunc n | .iupdate n _ _ _ | .iput n => (m.dinode n).type ≠ .none

def Superblock.datastart (sb : Superblock) : Nat := sb.bmapstart + sb.size / (bsize * 8) + 1

lemma Superblock.datastart_pos (sb : Superblock) : 0 < sb.datastart := Nat.succ_pos _

def Image.live (sb : Superblock) (m : Image) : Set Nat :=
  {b | sb.datastart ≤ b ∧ b < sb.size ∧ m.used b = true}

/-- The places hold the marked data blocks, each of them once, and the metadata is marked. -/
structure Ledger (sb : Superblock) (held : Place → Nat) (m : Image) : Prop where
  exact : Exact 0 held (m.live sb)
  metadata : ∀ b, b < sb.datastart → m.used b = true

/-- The blocks of the inodes are accounted for, free inodes have none, and no block below the size
of an inode is missing. -/
structure Sound (sb : Superblock) (m : Image) : Prop where
  ledger : Ledger sb m.blockAt m
  free : ∀ n, (m.dinode n).type = .none → ∀ l, m.blockAt (n, l) = 0
  filled : ∀ n, NoHole m n
  sized : ∀ n, (m.dinode n).size ≤ maxfile * bsize

/-- A change to the inode `n` leaves the other inodes and their blocks as they are. -/
structure OthersKept (n : Nat) (m m' : Image) : Prop where
  inodes : ∀ k, k ≠ n → m'.dinode k = m.dinode k
  places : ∀ k, k ≠ n → ∀ l, m'.blockAt (k, l) = m.blockAt (k, l)
  contents : ∀ k, k ≠ n → ∀ l, m.blockAt (k, l) ≠ 0 →
    m'.block (m.blockAt (k, l)) = m.block (m.blockAt (k, l))

structure Extends (n : Nat) (m m' : Image) : Prop extends OthersKept n m m' where
  kept : ∀ l, m.blockAt (n, l) ≠ 0 → m'.blockAt (n, l) = m.blockAt (n, l)
  size : (m'.dinode n).size = (m.dinode n).size
  type : (m'.dinode n).type = (m.dinode n).type

variable {sb : Superblock} {n k x b tot off count : Nat} {m m' m'' : Image} {s : Op}
  {held : Place → Nat} {copies : Copies}

lemma Extends.refl (n : Nat) (m : Image) : Extends n m m :=
  ⟨⟨fun _ _ => rfl, fun _ _ _ => rfl, fun _ _ _ _ => rfl⟩, fun _ _ => rfl, rfl, rfl⟩

lemma Extends.trans (h : Extends n m m') (h' : Extends n m' m'') : Extends n m m'' := by
  refine ⟨⟨fun k ne => (h'.inodes k ne).trans (h.inodes k ne),
    fun k ne l => (h'.places k ne l).trans (h.places k ne l), fun k ne l some => ?_⟩,
    fun l some => ?_, h'.size.trans h.size, h'.type.trans h.type⟩
  · have same := h.places k ne l
    have later := h'.contents k ne l (by rwa [same])
    rw [same] at later
    exact later.trans (h.contents k ne l some)
  have same := h.kept l some
  exact (h'.kept l (by rwa [same])).trans same

lemma blockAt_of_same {l : Loc} (inode : m'.dinode n = m.dinode n) (block : m'.block = m.block) :
    m'.blockAt (n, l) = m.blockAt (n, l) := by cases l <;> simp only [blockAt, inode, block]

namespace Ledger
variable {p : Place}

lemma used (h : Ledger sb held m) (some : held p ≠ 0) :
    m.used (held p) = true := (h.exact.used p some).2.2

lemma ne_of_unused (h : Ledger sb held m) (ne : b ≠ 0) (unused : m.used b = false) (p : Place) :
    held p ≠ b := by
  rintro rfl
  rw [h.used ne] at unused
  cases unused

lemma datastart_le (h : Ledger sb held m) (unused : m.used b = false) : sb.datastart ≤ b := by
  by_contra low
  rw [h.metadata b (not_le.mp low)] at unused
  cases unused

lemma ne_zero (h : Ledger sb held m) (unused : m.used b = false) : b ≠ 0 :=
  Nat.ne_of_gt (sb.datastart_pos.trans_le (h.datastart_le unused))

lemma congr (h : Ledger sb m.blockAt m) (places : m'.blockAt = m.blockAt)
    (used : m'.used = m.used) : Ledger sb m'.blockAt m' := by
  refine ⟨?_, fun b low => ?_⟩
  · rw [places, live, used]
    exact h.exact
  rw [used]
  exact h.metadata b low

lemma give (h : Ledger sb held m) (lt : b < sb.size) (unused : m.used b = false) (empty : held p =
    0) (used : m'.used = update m.used b true) : Ledger sb (update held p b) m' := by
  have low := h.datastart_le unused
  have live : m'.live sb = insert b (m.live sb) := by
    ext c
    simp only [live, mem_ofPred_eq, mem_insert_iff, used]
    by_cases eq : c = b
    · rw [eq, update_self]
      exact iff_of_true ⟨low, lt, rfl⟩ (.inl rfl)
    rw [update_of_ne eq, or_iff_right eq]
  refine ⟨?_, fun c small => ?_⟩
  · rw [live]
    refine h.exact.give empty (fun mem => ?_) (h.ne_zero unused)
    cases unused.symm.trans mem.2.2
  rw [used, update_of_ne (by omega)]
  exact h.metadata c small

lemma bfree (h : Ledger sb held m) (some : held p ≠ 0) : bfree m (held p) =
    .some (m.mark (held p) false) ∧ Ledger sb (update held p 0) (m.mark (held p) false) := by
  obtain ⟨low, -, set⟩ := h.exact.used p some
  have live : (m.mark (held p) false).live sb = m.live sb \ {held p} := by
    ext c
    simp only [live, mark_used, mem_ofPred_eq, mem_sdiff, mem_singleton_iff]
    by_cases eq : c = held p
    · simp [eq]
    simp [eq]
  refine ⟨if_pos set, ?_, fun c small => ?_⟩
  · rw [live]
    exact h.exact.take some
  rw [mark_used, update_of_ne (by omega)]
  exact h.metadata c small

end Ledger

def addrLoc (k : Nat) : Loc := if small : k < ndirect then .direct ⟨k, small⟩ else .indirect

lemma blockAt_addrLoc (le : k ≤ ndirect) : m.blockAt (n, addrLoc k) = (m.dinode n).addrs k := by
  rw [addrLoc]
  split_ifs with small
  · rfl
  obtain rfl : k = ndirect := by omega
  rfl

lemma balloc_cases (sb : Superblock) (s : Op) : (balloc sb s).2 = 0 ∧
    (balloc sb s).1.img = s.img ∨ (balloc sb s).2 < sb.size ∧ s.img.used (balloc sb s).2 = false ∧
    (balloc sb s).1.img = (s.img.mark (balloc sb s).2 true).setBlock (balloc sb s).2 zeroBlock := by
  unfold balloc
  cases found : (range sb.size).find? fun b => !s.img.used b with
  | none => exact .inl ⟨rfl, rfl⟩
  | some b =>
    refine .inr ⟨mem_range.mp (mem_of_find?_eq_some found), ?_, rfl⟩
    simpa using find?_some found

lemma Ledger.blockAt_fresh (h : Ledger sb m.blockAt m) (ne : b ≠ 0) (unused : m.used b = false) :
    ((m.mark b true).setBlock b zeroBlock).blockAt = m.blockAt :=
  blockAt_setBlock (m := m.mark b true) fun n => h.ne_of_unused ne unused (n, .indirect)

namespace Sound
lemma give {l : Loc} (h : Sound sb m) (addrs : Nat → Nat) (type : (m.dinode n).type ≠ .none)
    (lt : b < sb.size) (unused : m.used b = false) (empty : m.blockAt (n, l) = 0)
    (blockAt : m'.blockAt = update m.blockAt (n, l) b) (used : m'.used = update m.used b true)
    (dinode : m'.dinode = update m.dinode n { m.dinode n with addrs }) (block : ∀ k, k ≠ n →
    ∀ l, m.blockAt (k, l) ≠ 0 → m'.block (m.blockAt (k, l)) = m.block (m.blockAt (k, l))) :
    Sound sb m' ∧ Extends n m m' ∧ m'.blockAt (n, l) = b := by
  have own : m'.dinode n = { m.dinode n with addrs } := by rw [dinode, update_self]
  have inodes : ∀ k, k ≠ n → m'.dinode k = m.dinode k := fun k ne => by rw [dinode, update_of_ne ne]
  have kept : ∀ p, m.blockAt p ≠ 0 → m'.blockAt p = m.blockAt p := by
    intro p some
    rw [blockAt]
    refine update_of_ne ?_ _ _
    rintro rfl
    exact some empty
  have places : ∀ k, k ≠ n → ∀ l, m'.blockAt (k, l) = m.blockAt (k, l) := by
    intro k ne l'
    rw [blockAt]
    exact update_of_ne (fun eq => ne (congrArg fst eq)) _ _
  have same : ∀ k, (m'.dinode k).size = (m.dinode k).size ∧
      (m'.dinode k).type = (m.dinode k).type := by
    intro k
    by_cases eq : k = n
    · rw [eq, own]
      exact ⟨rfl, rfl⟩
    rw [inodes k eq]
    exact ⟨rfl, rfl⟩
  refine ⟨⟨?_, fun k none l' => ?_, fun k f below => ?_, fun k => ?_⟩,
    ⟨⟨inodes, places, block⟩, fun l some => kept _ some, (same n).1, (same n).2⟩, ?_⟩
  · rw [blockAt]
    exact h.ledger.give lt unused empty used
  · rw [(same k).2] at none
    have ne : k ≠ n := by
      rintro rfl
      exact type none
    rw [places k ne]
    exact h.free k none l'
  · rw [(same k).1] at below
    have some := h.filled k f below
    rwa [kept _ some]
  · rw [(same k).1]
    exact h.sized k
  rw [blockAt, update_self]

lemma bmapAddr (h : Sound sb s.img) (type : (s.img.dinode n).type ≠ .none)
    (le : k ≤ ndirect) : Sound sb (Fs.bmapAddr sb n s k).1.img ∧
    Extends n s.img (Fs.bmapAddr sb n s k).1.img ∧ ((Fs.bmapAddr sb n s k).2 ≠ 0 →
    (Fs.bmapAddr sb n s k).1.img.blockAt (n, addrLoc k) = (Fs.bmapAddr sb n s k).2) := by
  unfold Fs.bmapAddr
  split_ifs with present
  · exact ⟨h, .refl _ _, fun _ => blockAt_addrLoc le⟩
  have empty := (blockAt_addrLoc (m := s.img) (n := n) le).trans (not_not.mp present)
  rcases balloc_cases sb s with ⟨full, same⟩ | ⟨lt, unused, img⟩
  · simp only [if_pos full]
    rw [same]
    exact ⟨h, .refl _ _, fun some => absurd full some⟩
  have ne := h.ledger.ne_zero unused
  simp only [if_neg ne]
  generalize (balloc sb s).2 = b at *
  have blockAt : ((balloc sb s).1.setAddr n k b).img.blockAt =
      update s.img.blockAt (n, addrLoc k) b := by
    rw [Op.setAddr, img, ← h.ledger.blockAt_fresh ne unused, addrLoc]
    split_ifs with small
    · exact blockAt_setDirect ⟨k, small⟩
    obtain rfl : k = ndirect := by omega
    refine blockAt_setIndirect (not_not.mp present) fun j => ?_
    rw [setBlock_block, update_self, word_zeroBlock]
  obtain ⟨sound, grown, here⟩ := h.give _ type lt unused empty blockAt
    (by rw [Op.setAddr, img]; rfl) (by rw [Op.setAddr, img]; rfl) fun i _ l _ => by
      rw [Op.setAddr, img]
      exact update_of_ne (h.ledger.ne_of_unused ne unused (i, l)) _ _
  exact ⟨sound, grown, fun _ => here⟩

lemma bmapEntry (h : Sound sb s.img) (fits : sb.size ≤ 2 ^ 32)
    (type : (s.img.dinode n).type ≠ .none) (here : (s.img.dinode n).addrs ndirect = x)
    (some : x ≠ 0) (j : Fin nindirect) : Sound sb (Fs.bmapEntry sb s x j).1.img ∧
    Extends n s.img (Fs.bmapEntry sb s x j).1.img ∧ ((Fs.bmapEntry sb s x j).2 ≠ 0 →
    (Fs.bmapEntry sb s x j).1.img.blockAt (n, .entry j) = (Fs.bmapEntry sb s x j).2) := by
  have entry : s.img.blockAt (n, .entry j) = word (s.img.block x) j := by
    simp only [blockAt, here, if_neg some]
  have mine : ∀ p : Place, s.img.blockAt p = x → p = (n, .indirect) := fun p eq =>
    h.ledger.exact.distinct p (n, .indirect) (by rwa [eq]) (eq.trans here.symm)
  unfold Fs.bmapEntry
  split_ifs with present
  · exact ⟨h, .refl _ _, fun _ => entry⟩
  rcases balloc_cases sb s with ⟨full, same⟩ | ⟨lt, unused, img⟩
  · simp only [if_pos full]
    rw [same]
    exact ⟨h, .refl _ _, fun some => absurd full some⟩
  have ne := h.ledger.ne_zero unused
  simp only [if_neg ne]
  generalize (balloc sb s).2 = b at *
  have blockAt : ((balloc sb s).1.img.setBlock x
      (setWord ((balloc sb s).1.img.block x) j b)).blockAt =
      update s.img.blockAt (n, .entry j) b := by
    rw [img, ← h.ledger.blockAt_fresh ne unused]
    refine blockAt_setWord j here some (fun k eq => ?_) (lt.trans_le fits)
    exact congrArg fst (mine (k, .indirect) eq)
  obtain ⟨sound, grown, now⟩ := h.give (s.img.dinode n).addrs type lt unused
    (entry.trans (not_not.mp present)) blockAt (by rw [img]; rfl)
    (by rw [img]; exact (update_eq_self n _).symm) fun i other l _ => by
      rw [img, setBlock_block, update_of_ne, setBlock_block,
        update_of_ne (h.ledger.ne_of_unused ne unused (i, l))]
      · rfl
      exact fun eq => other (congrArg fst (mine (i, l) eq))
  exact ⟨sound, grown, fun _ => now⟩

lemma bmap (h : Sound sb s.img) (fits : sb.size ≤ 2 ^ 32) (type : (s.img.dinode n).type ≠ .none)
    {bn : Nat} (inside : bn < maxfile) : ∃ r, Fs.bmap sb n s bn = some r ∧ Sound sb r.1.img ∧
    Extends n s.img r.1.img ∧ (r.2 ≠ 0 → r.1.img.blockAt (n, slot bn) = r.2) := by
  unfold Fs.bmap
  by_cases small : bn < ndirect
  · rw [if_pos small]
    obtain ⟨sound, grown, here⟩ := h.bmapAddr type small.le
    rw [addrLoc, dif_pos small] at here
    rw [slot_direct small]
    exact ⟨_, rfl, sound, grown, here⟩
  rw [if_neg small, if_pos (entry_lt inside), slot_entry small (entry_lt inside)]
  obtain ⟨sound, grown, here⟩ := h.bmapAddr type (le_refl ndirect)
  by_cases full : (Fs.bmapAddr sb n s ndirect).2 = 0
  · simp only [if_pos full]
    exact ⟨_, rfl, sound, grown, fun some => absurd full some⟩
  simp only [if_neg full]
  have block := here full
  rw [blockAt_addrLoc le_rfl] at block
  obtain ⟨sound, more, here⟩ := sound.bmapEntry fits (by rwa [grown.type]) block full
    ⟨bn - ndirect, entry_lt inside⟩
  exact ⟨_, rfl, sound, grown.trans more, here⟩

lemma write (h : Sound sb m) {f : Nat} (inside : f < maxfile) (here : m.blockAt (n, slot f) = b)
    (some : b ≠ 0) (v : Block) : Sound sb (m.setBlock b v) ∧ Extends n m (m.setBlock b v) := by
  have mine : ∀ p : Place, m.blockAt p = b → p = (n, slot f) := fun p eq =>
    h.ledger.exact.distinct p (n, slot f) (by rwa [eq]) (eq.trans here.symm)
  have same : (m.setBlock b v).blockAt = m.blockAt := blockAt_setBlock fun k eq =>
    slot_ne_indirect inside (congrArg snd (mine (k, .indirect) eq)).symm
  refine ⟨⟨h.ledger.congr same rfl, ?_, ?_, h.sized⟩, ⟨fun _ _ => rfl, ?_, fun k ne l _ => ?_⟩, ?_,
    rfl, rfl⟩
  · rw [same]
    exact h.free
  · intro k
    rw [NoHole, same]
    exact h.filled k
  · intro k _ l
    rw [same]
  · exact update_of_ne (fun eq => ne (congrArg fst (mine (k, l) eq))) _ _
  intro l _
  rw [same]

lemma setInode {d : Dinode} (h : Sound sb m) (addrs : d.addrs = (m.dinode n).addrs)
    (type : d.type = (m.dinode n).type) (sized : d.size ≤ maxfile * bsize)
    (filled : ∀ f, f * bsize < d.size → m.blockAt (n, slot f) ≠ 0) : Sound sb (m.setInode n d) := by
  have same : (m.setInode n d).blockAt = m.blockAt := blockAt_setInode addrs
  have own : (m.setInode n d).dinode n = d := update_self ..
  have others : ∀ k, k ≠ n → (m.setInode n d).dinode k = m.dinode k :=
    fun k ne => update_of_ne ne ..
  refine ⟨h.ledger.congr same rfl, fun k none l => ?_, fun k f low => ?_, fun k => ?_⟩
  · rw [same]
    refine h.free k ?_ l
    by_cases eq : k = n
    · rw [eq, own, type] at none
      rwa [eq]
    rwa [others k eq] at none
  · rw [same]
    by_cases eq : k = n
    · rw [eq, own] at low
      rw [eq]
      exact filled f low
    rw [others k eq] at low
    exact h.filled k f low
  by_cases eq : k = n
  · rwa [eq, own]
  rw [others k eq]
  exact h.sized k

lemma writeiLoop (copies : Copies) (tot off : Nat) (s : Op) (fits : sb.size ≤ 2 ^ 32)
    (h : Sound sb s.img) (type : (s.img.dinode n).type ≠ .none)
    (inside : off + (count - tot) ≤ maxfile * bsize)
    (below : ∀ f, f * bsize < off → s.img.blockAt (n, slot f) ≠ 0) :
    ∃ r, writeiLoop sb n copies count tot off s = some r ∧ Sound sb r.1.img ∧
    Extends n s.img r.1.img ∧ r.2.2 ≤ off + (count - tot) ∧ ∀ f, f * bsize < r.2.2 →
    r.1.img.blockAt (n, slot f) ≠ 0 := by
  induction gap : count - tot using Nat.strong_induction_on generalizing tot off s with
  | _ gap ih =>
    rw [writeiLoop.eq_def]
    by_cases more : tot < count
    · rw [if_pos more]
      have lt : off / bsize < maxfile := Nat.div_lt_of_lt_mul (by
        rw [Nat.mul_comm]
        omega)
      obtain ⟨r, eq, sound, grown, here⟩ := h.bmap fits type lt
      have still : ∀ f, f * bsize < off → r.1.img.blockAt (n, slot f) ≠ 0 := fun f low => by
        rw [grown.kept _ (below f low)]
        exact below f low
      simp only [eq, bind_some]
      by_cases full : r.2 = 0
      · rw [if_pos full]
        exact ⟨_, rfl, sound, grown, Nat.le_add_right _ _, still⟩
      rw [if_neg full]
      obtain ⟨written, data⟩ := sound.write lt (here full) full
        (copies.data tot (r.1.img.block r.2))
      have grown := grown.trans data
      have held : ∀ f, r.1.img.blockAt (n, slot f) ≠ 0 →
          (r.1.img.setBlock r.2 (copies.data tot (r.1.img.block r.2))).blockAt (n, slot f) ≠ 0 :=
        fun f some => by rwa [data.kept _ some]
      split_ifs with fault
      · exact ⟨_, rfl, written, grown, Nat.le_add_right _ _, fun f low => held f (still f low)⟩
      have step := mod_bsize_lt off
      obtain ⟨r', eq', sound', grown', le, all⟩ := ih
        (count - (tot + min (count - tot) (bsize - off % bsize))) (by omega)
        (tot + min (count - tot) (bsize - off % bsize))
        (off + min (count - tot) (bsize - off % bsize))
        ((r.1.setBlock r.2 (copies.data tot (r.1.img.block r.2))).logWrite r.2) written
        (by
          show ((r.1.img.setBlock _ _).dinode n).type ≠ .none
          rwa [grown.type])
        (by omega)
        (fun f low => held f (by
          by_cases old : f * bsize < off
          · exact still f old
          have same : f = off / bsize := by
            simp only [bsize] at *
            omega
          rw [same, here full]
          exact full))
        rfl
      exact ⟨r', eq', sound', grown.trans grown', le.trans (by omega), all⟩
    rw [if_neg more]
    exact ⟨_, rfl, h, .refl _ _, Nat.le_add_right _ _, below⟩

lemma writei (h : Sound sb m) (copies : Copies) (off : Nat) (fits : sb.size ≤ 2 ^ 32)
    (type : (m.dinode n).type ≠ .none) (uint : count < 2 ^ 32) :
    ∃ r, Fs.writei sb n copies ⟨m, []⟩ off count = some r ∧ Sound sb r.1.img ∧
    OthersKept n m r.1.img := by
  unfold Fs.writei
  split_ifs with bad large
  · exact ⟨_, rfl, h, (Extends.refl n m).toOthersKept⟩
  · exact ⟨_, rfl, h, (Extends.refl n m).toOthersKept⟩
  have sized := h.sized n
  have inside : off + count ≤ maxfile * bsize := by
    simp only [maxfile, ndirect, nindirect, bsize] at *
    omega
  obtain ⟨r, eq, sound, grown, le, all⟩ := writeiLoop copies 0 off ⟨m, []⟩
    fits h type (by rwa [Nat.sub_zero])
    fun f low => h.filled n f (lt_of_lt_of_le low (not_lt.mp (not_or.mp bad).1))
  rw [eq]
  have same : (r.1.iupdate sb n (max (m.dinode n).size r.2.2)).img.blockAt = r.1.img.blockAt :=
    blockAt_setInode rfl
  have resized : Sound sb (r.1.iupdate sb n (max (m.dinode n).size r.2.2)).img := by
    refine sound.setInode rfl rfl (max_le sized (le.trans (by rwa [Nat.sub_zero]))) fun f low => ?_
    rcases lt_max_iff.mp low with old | new
    · refine sound.filled n f ?_
      rwa [grown.size]
    exact all f new
  refine ⟨_, rfl, resized, fun k ne => ?_, fun k ne l => ?_, grown.contents⟩
  · exact (update_of_ne ne ..).trans (grown.inodes k ne)
  rw [same]
  exact grown.places k ne l

end Sound

namespace Sound
variable {fault : Nat → Bool}

lemma readiLoop (h : Sound sb s.img) (inside : off + (count - tot) ≤ (s.img.dinode n).size) :
    readiLoop sb n fault count tot off s = some s := by
  induction gap : count - tot using Nat.strong_induction_on generalizing tot off with
  | _ gap ih =>
    rw [readiLoop.eq_def]
    by_cases more : tot < count
    · rw [if_pos more]
      have sized := h.sized n
      have lt : off / bsize < maxfile := Nat.div_lt_of_lt_mul (by
        rw [Nat.mul_comm]
        omega)
      have some := h.filled n (off / bsize)
        (lt_of_le_of_lt (Nat.div_mul_le_self off bsize) (by omega))
      simp only [bmap_found lt some, bind_some]
      rw [if_neg some]
      split_ifs
      · rfl
      have step := mod_bsize_lt off
      exact ih _ (by omega) (by omega) rfl
    rw [if_neg more]

lemma readi (h : Sound sb s.img) (uint : count < 2 ^ 32) :
    Fs.readi sb n fault s off count = some s := by
  unfold Fs.readi
  split_ifs with bad large
  · rfl
  · have low := not_lt.mp (not_or.mp bad).1
    exact h.readiLoop (by omega)
  have low := not_lt.mp (not_or.mp bad).1
  have wrap := not_lt.mp (not_or.mp bad).2
  have sized := h.sized n
  refine h.readiLoop ?_
  simp only [maxfile, ndirect, nindirect, bsize] at *
  omega

end Sound

/-! ### Truncation -/

lemma Ledger.truncAddr (h : Ledger sb m.blockAt m) (n : Nat)
    (k : Fin ndirect) : ∃ m', Fs.truncAddr n m k = some m' ∧ m'.block = m.block ∧
    m'.dinode = update m.dinode n ((m.dinode n).setAddr k 0) ∧ Ledger sb m'.blockAt m' := by
  unfold Fs.truncAddr
  by_cases some : (m.dinode n).addrs k ≠ 0
  · obtain ⟨freed, ledger⟩ := h.bfree (p := (n, .direct k)) some
    have freed : Fs.bfree m ((m.dinode n).addrs k) = _ := freed
    rw [if_pos some, freed]
    refine ⟨_, rfl, rfl, rfl, ?_, ledger.metadata⟩
    have same : (m.mark ((m.dinode n).addrs k) false).blockAt = m.blockAt :=
      blockAt_congr (fun _ => rfl) fun _ _ => rfl
    have moved := blockAt_setDirect (m := m.mark ((m.dinode n).addrs k) false) (n := n) (b := 0) k
    rw [same] at moved
    exact moved.symm ▸ ledger.exact
  rw [if_neg some]
  refine ⟨m, rfl, rfl, ?_, h⟩
  have zero : (m.dinode n).setAddr k 0 = m.dinode n := by
    rw [Dinode.setAddr, ← not_not.mp some, update_eq_self]
  rw [zero, update_eq_self]

lemma Ledger.truncDirect (ks : List (Fin ndirect)) (h : Ledger sb m.blockAt m) : ∃ m' addrs,
    ks.foldlM (fun m (k : Fin ndirect) => Fs.truncAddr n m k) m = some m' ∧ m'.block = m.block ∧
    m'.dinode = update m.dinode n { m.dinode n with addrs } ∧ (∀ k ∈ ks, addrs k = 0) ∧
    (∀ k, (m.dinode n).addrs k = 0 → addrs k = 0) ∧ Ledger sb m'.blockAt m' := by
  induction ks generalizing m with
  | nil =>
    exact ⟨m, (m.dinode n).addrs, rfl, rfl, (update_eq_self n _).symm,
      fun k mem => absurd mem not_mem_nil, fun _ zero => zero, h⟩
  | cons k ks ih =>
    obtain ⟨m₁, eq, block, dinode, ledger⟩ := h.truncAddr n k
    have own : m₁.dinode n = (m.dinode n).setAddr k 0 := by rw [dinode, update_self]
    obtain ⟨m₂, addrs, eq', block', dinode', zeros, stay, ledger'⟩ := ih ledger
    rw [own] at stay dinode'
    refine ⟨m₂, addrs, ?_, block'.trans block, ?_, ?_, fun i zero => stay i ?_, ledger'⟩
    · rw [foldlM_cons, eq]
      exact eq'
    · rw [dinode', dinode, update_idem]
      rfl
    · intro i mem
      rcases mem_cons.mp mem with rfl | mem
      · exact stay i (update_self ..)
      exact zeros i mem
    rw [Dinode.setAddr_addrs]
    by_cases same : i = k
    · rw [same, update_self]
    rwa [update_of_ne same]

lemma Ledger.truncEntry (h : Ledger sb held m) {j : Fin nindirect}
    (here : held (n, .entry j) = word (m.block x) j) : ∃ m', Fs.truncEntry x m j = some m' ∧
    m'.block = m.block ∧ m'.dinode = m.dinode ∧ Ledger sb (update held (n, .entry j) 0) m' := by
  unfold Fs.truncEntry
  rw [← here]
  by_cases some : held (n, .entry j) ≠ 0
  · obtain ⟨freed, ledger⟩ := h.bfree some
    rw [if_pos some, freed]
    exact ⟨_, rfl, rfl, rfl, ledger⟩
  rw [if_neg some]
  refine ⟨m, rfl, rfl, rfl, ?_⟩
  rwa [← not_not.mp some, update_eq_self]

lemma Ledger.truncEntries (js : List (Fin nindirect)) (h : Ledger sb held m)
    (entries : ∀ j ∈ js, held (n, .entry j) = word (m.block x) j) (nodup : js.Nodup) :
    ∃ m' held', js.foldlM (Fs.truncEntry x) m = some m' ∧ m'.block = m.block ∧
    m'.dinode = m.dinode ∧ Ledger sb held' m' ∧ (∀ j ∈ js, held' (n, .entry j) = 0) ∧
    ∀ p, (∀ j ∈ js, p ≠ (n, .entry j)) → held' p = held p := by
  induction js generalizing m held with
  | nil => exact ⟨m, held, rfl, rfl, rfl, h, fun j mem => absurd mem not_mem_nil, fun _ _ => rfl⟩
  | cons j js ih =>
    obtain ⟨new, nodup⟩ := nodup_cons.mp nodup
    obtain ⟨m₁, eq, block, dinode, ledger⟩ := h.truncEntry (entries j mem_cons_self)
    have far : ∀ i ∈ js, ((n, Loc.entry i) : Place) ≠ (n, .entry j) := by
      rintro i mem same
      cases same
      exact new mem
    obtain ⟨m₂, held', eq', block', dinode', ledger', zeros, rest⟩ := ih ledger
      (fun i mem => by
        rw [update_of_ne (far i mem), block]
        exact entries i (mem_cons_of_mem j mem))
      nodup
    refine ⟨m₂, held', ?_, block'.trans block, dinode'.trans dinode, ledger', ?_, fun p out => ?_⟩
    · rw [foldlM_cons, eq]
      exact eq'
    · intro i mem
      rcases mem_cons.mp mem with rfl | mem
      · rw [rest _ fun i mem => (far i mem).symm, update_self]
      exact zeros i mem
    rw [rest p fun i mem => out i (mem_cons_of_mem j mem), update_of_ne (out j mem_cons_self)]

lemma blockAt_dropIndirect (zeros : ∀ j, held (n, .entry j) = 0)
    (rest : ∀ p, (∀ j, p ≠ (n, .entry j)) → held p = m.blockAt p) :
    (m.setInode n ((m.dinode n).setAddr ndirect 0)).blockAt = update held (n, .indirect) 0 := by
  funext p
  obtain ⟨i, l⟩ := p
  by_cases same : i = n
  · subst same
    cases l with
    | direct k =>
      have far : (k : Nat) ≠ ndirect := Nat.ne_of_lt k.isLt
      rw [update_of_ne (by simp), rest _ fun j same => by cases same]
      simp [blockAt, update_of_ne far]
    | indirect => simp [blockAt]
    | entry j =>
      rw [update_of_ne (by simp), zeros j]
      simp [blockAt]
  rw [update_of_ne fun eq => same (congrArg fst eq),
    rest _ fun j eq => same (congrArg fst eq)]
  exact blockAt_of_same (update_of_ne same ..) rfl

lemma Ledger.truncIndirect (h : Ledger sb m.blockAt m) :
    ∃ m' addrs, Fs.truncIndirect n m = some m' ∧ m'.block = m.block ∧
    m'.dinode = update m.dinode n { m.dinode n with addrs } ∧ addrs ndirect = 0 ∧
    (∀ k, (m.dinode n).addrs k = 0 → addrs k = 0) ∧ Ledger sb m'.blockAt m' := by
  unfold Fs.truncIndirect
  by_cases present : (m.dinode n).addrs ndirect ≠ 0
  · obtain ⟨m₁, held, eq, block, dinode, ledger, zeros, rest⟩ := h.truncEntries (n := n)
      (x := (m.dinode n).addrs ndirect) (finRange nindirect)
      (fun j _ => by simp only [blockAt, if_neg present]) (nodup_finRange _)
    have here : held (n, .indirect) = (m.dinode n).addrs ndirect :=
      rest (n, .indirect) fun j _ same => by cases same
    obtain ⟨freed, ledger⟩ := ledger.bfree (p := (n, .indirect)) (by rwa [here])
    rw [here] at freed ledger
    rw [if_pos present, eq, bind_some, Fs.truncAddr, dinode, if_pos present, freed]
    refine ⟨_, update (m.dinode n).addrs ndirect 0, rfl, block, ?_,
      update_self .., fun k zero => ?_, ?_, ledger.metadata⟩
    · show update m₁.dinode n ((m₁.dinode n).setAddr ndirect 0) = _
      rw [dinode]
      rfl
    · by_cases same : k = ndirect
      · rw [same, update_self]
      rwa [update_of_ne same]
    have places : (m₁.mark ((m.dinode n).addrs ndirect) false).blockAt = m.blockAt :=
      blockAt_congr (fun _ => by rw [mark_dinode, dinode])
        fun _ _ => by rw [mark_block, block]
    rw [blockAt_dropIndirect (fun j => zeros j (mem_finRange j)) fun p out => by
      rw [places]
      exact rest p fun j _ => out j]
    exact ledger.exact
  rw [if_neg present]
  exact ⟨m, (m.dinode n).addrs, rfl, rfl, (update_eq_self n _).symm,
    not_not.mp present, fun _ zero => zero, h⟩

namespace Sound
lemma cleared {d : Dinode} (h : Sound sb m) (ledger : Ledger sb m'.blockAt m')
    (block : m'.block = m.block) (dinode : m'.dinode = update m.dinode n d) (size : d.size = 0)
    (addrs : ∀ k, k ≤ ndirect → d.addrs k = 0) : Sound sb m' := by
  have others : ∀ k, k ≠ n → m'.dinode k = m.dinode k := fun k ne => by rw [dinode, update_of_ne ne]
  have own : m'.dinode n = d := by rw [dinode, update_self]
  refine ⟨ledger, fun k none l => ?_, fun k f low => ?_, fun k => ?_⟩
  · by_cases eq : k = n
    · subst eq
      cases l with
      | direct i =>
        rw [blockAt, own]
        exact addrs i i.isLt.le
      | indirect =>
        rw [blockAt, own]
        exact addrs ndirect le_rfl
      | entry j =>
        rw [blockAt, own]
        exact if_pos (addrs ndirect le_rfl)
    rw [others k eq] at none
    rw [blockAt_of_same (others k eq) block]
    exact h.free k none l
  · by_cases eq : k = n
    · rw [eq, own, size] at low
      exact absurd low (Nat.not_lt_zero _)
    rw [others k eq] at low
    rw [blockAt_of_same (others k eq) block]
    exact h.filled k f low
  by_cases eq : k = n
  · rw [eq, own, size]
    exact Nat.zero_le _
  rw [others k eq]
  exact h.sized k

lemma itrunc (h : Sound sb m) :
    ∃ m', Fs.itrunc n m = some m' ∧ ∀ type, Sound sb (m'.setInode n { m'.dinode n with type }) := by
  obtain ⟨m₁, addrs₁, eq₁, block₁, dinode₁, zeros, stay₁, ledger₁⟩ :=
    h.ledger.truncDirect (n := n) (finRange ndirect)
  obtain ⟨m₂, addrs₂, eq₂, block₂, dinode₂, zero, stay₂, ledger₂⟩ := ledger₁.truncIndirect (n := n)
  have own : m₁.dinode n = { m.dinode n with addrs := addrs₁ } := by rw [dinode₁, update_self]
  rw [own] at dinode₂ stay₂
  rw [dinode₁, update_idem] at dinode₂
  refine ⟨m₂.setInode n { m₂.dinode n with size := 0 }, ?_, fun type => ?_⟩
  · unfold Fs.itrunc
    rw [eq₁, bind_some, eq₂]
    rfl
  have empty : Ledger sb (m₂.setInode n { m₂.dinode n with size := 0 }).blockAt
      (m₂.setInode n { m₂.dinode n with size := 0 }) := ledger₂.congr (blockAt_setInode rfl) rfl
  refine h.cleared (n := n) (d := { m.dinode n with type, size := 0, addrs := addrs₂ })
    (empty.congr (blockAt_setInode rfl) rfl) (block₂.trans block₁) ?_ rfl fun k le => ?_
  · simp only [setInode_dinode, update_self, update_idem, dinode₂]
  by_cases last : k = ndirect
  · rw [last]
    exact zero
  exact stay₂ k (zeros ⟨k, by omega⟩ (mem_finRange _))

lemma ialloc (h : Sound sb m) (none : (m.dinode n).type = .none) (type : Kind) :
    Sound sb (m.setInode n { zeroDinode with type }) := by
  have same : (m.setInode n { zeroDinode with type }).blockAt = m.blockAt := by
    funext p
    obtain ⟨k, l⟩ := p
    by_cases eq : k = n
    · subst eq
      rw [h.free k none l]
      cases l <;> simp [blockAt, zeroDinode]
    exact blockAt_of_same (update_of_ne eq _ _) rfl
  exact h.cleared (h.ledger.congr same rfl) rfl rfl rfl fun _ _ => rfl

lemma change (h : Sound sb m) (fits : sb.size ≤ 2 ^ 32) {e : Change} (allowed : Allowed m e) :
    ∃ m', Fs.change sb m e = some m' ∧ Sound sb m' := by
  cases e with
  | writei n copies off count =>
    obtain ⟨r, eq, sound, -⟩ := h.writei copies off fits allowed.1 allowed.2
    exact ⟨r.1.img, by rw [Fs.change, eq]; rfl, sound⟩
  | readi n fault off count =>
    refine ⟨m, ?_, h⟩
    rw [Fs.change, readi (s := ⟨m, []⟩) h allowed.2]
    rfl
  | itrunc n =>
    obtain ⟨m', eq, sound⟩ := h.itrunc (n := n)
    have whole : m'.setInode n { m'.dinode n with type := (m'.dinode n).type } = m' := by
      rw [Image.setInode, update_eq_self]
    exact ⟨m', eq, whole ▸ sound (m'.dinode n).type⟩
  | ialloc n type => exact ⟨_, rfl, h.ialloc allowed.1 type⟩
  | iupdate n major minor nlink => exact ⟨_, rfl, h.setInode rfl rfl (h.sized n) (h.filled n)⟩
  | iput n =>
    obtain ⟨m', eq, sound⟩ := h.itrunc (n := n)
    exact ⟨_, by rw [Fs.change, eq]; rfl, sound .none⟩

end Sound

/-- In every image that the changes reach from a sound one, each block number at a place is a marked
data block, no two places hold the same one, and each marked data block is held by one place of an
allocated inode. No change panics, and a write to one file leaves the others as they are. -/
theorem blocks_have_one_owner {m₀ : Image} {es : List Change} (fits : sb.size < 2 ^ 32)
    (start : Sound sb m₀) (run : Run (change sb) Allowed m₀ es m) :
    (∀ p, m.blockAt p ≠ 0 →
      sb.datastart ≤ m.blockAt p ∧ m.blockAt p < sb.size ∧ m.used (m.blockAt p) = true) ∧
    (∀ p q, m.blockAt p ≠ 0 → m.blockAt p = m.blockAt q → p = q) ∧
    (∀ b, sb.datastart ≤ b → b < sb.size → m.used b = true →
      ∃! p : Place, (m.dinode p.1).type ≠ .none ∧ m.blockAt p = b) ∧
    (∀ e, Allowed m e → ∃ m', change sb m e = some m') ∧
    ∀ n copies off count m', Allowed m (.writei n copies off count) →
      change sb m (.writei n copies off count) = some m' → OthersKept n m m' := by
  have h : Sound sb m := run.invariant (I := Sound sb) (fun _ _ _ h allowed next => by
    obtain ⟨_, eq, sound⟩ := h.change fits.le allowed
    cases eq.symm.trans next
    exact sound) start
  refine ⟨h.ledger.exact.used, h.ledger.exact.distinct, fun b low lt set => ?_, fun e allowed => ?_,
    fun n copies off count m' allowed eq => ?_⟩
  · obtain ⟨p, here⟩ := h.ledger.exact.owned b ⟨low, lt, set⟩
    have some : m.blockAt p ≠ 0 := by
      have pos := sb.datastart_pos
      omega
    refine ⟨p, ⟨fun none => some (h.free p.1 none p.2), here⟩, fun q held => ?_⟩
    exact (h.ledger.exact.distinct p q some (here.trans held.2.symm)).symm
  · obtain ⟨m', eq, -⟩ := h.change fits.le allowed
    exact ⟨m', eq⟩
  obtain ⟨r, eq', -, kept⟩ := h.writei copies off fits.le allowed.1 allowed.2
  rw [change, eq'] at eq
  cases eq
  exact kept

def emptyImage (sb : Superblock) : Image :=
  ⟨fun _ => zeroDinode, fun b => decide (b < sb.datastart), fun _ => zeroBlock⟩

lemma emptyImage_sound (sb : Superblock) : Sound sb (emptyImage sb) := by
  have none : ∀ p, (emptyImage sb).blockAt p = 0 := by
    rintro ⟨n, l⟩
    cases l <;> rfl
  refine ⟨⟨⟨fun p some => absurd (none p) some, fun p _ some => absurd (none p) some, ?_, ?_⟩, fun b
    low => decide_eq_true low⟩, fun n _ l => none (n, l), fun n f low => ?_, fun n => Nat.zero_le _⟩
  · rintro b ⟨low, -, set⟩
    exact absurd (of_decide_eq_true set) (not_lt.mpr low)
  · rintro ⟨low, -⟩
    exact absurd low (not_le.mpr sb.datastart_pos)
  exact absurd low (Nat.not_lt_zero _)

/-- A file is made and written, and the next write to it does not panic. -/
theorem first_file_owns_its_blocks : ∃ m m', Run (change fsSb) Allowed
    (emptyImage fsSb) [.ialloc 1 .file] m ∧
    change fsSb m (.writei 1 ⟨fun _ => false, fun _ v => v⟩ 0 3000) = some m' ∧
    OthersKept 1 m m' := by
  have sized : fsSb.size < 2 ^ 32 := by decide
  have run : Run (change fsSb) Allowed (emptyImage fsSb) [.ialloc 1 .file]
      ((emptyImage fsSb).setInode 1 { zeroDinode with type := .file }) :=
    .cons ⟨rfl, by decide⟩ rfl (.nil _)
  obtain ⟨-, -, -, safe, kept⟩ := blocks_have_one_owner sized (emptyImage_sound _) run
  have allowed : Allowed
      ((emptyImage fsSb).setInode 1 { zeroDinode with type := .file })
      (.writei 1 ⟨fun _ => false, fun _ v => v⟩ 0 3000) := ⟨by decide, by decide⟩
  obtain ⟨m', written⟩ := safe _ allowed
  exact ⟨_, m', run, written, kept _ _ _ _ _ allowed written⟩

end Xv6.Fs
