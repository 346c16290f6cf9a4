import Xv6.FileBytes

/-! Writes from user memory: `writei` with the `copyin` of each piece, which goes straight into the
cached block. -/
namespace Xv6.Fs
open PageTable (Words maxva)
open UserCopy Option
open Tiling (writeAt)

/-- The copies of `writei` from the user address `va`, through `either_copyin`. -/
def userSource (w : Words) (root : Nat) (mem : Bytes) (va off count : Nat) : Copies where
  fault tot := (copyin w root mem ((off + tot) % bsize) ((va + tot) % 2 ^ 64)
    (min (count - tot) (bsize - (off + tot) % bsize)) zeroBlock).1 == -1
  data tot b := (copyin w root mem ((off + tot) % bsize) ((va + tot) % 2 ^ 64)
    (min (count - tot) (bsize - (off + tot) % bsize)) b).2

def userByte (w : Words) (root : Nat) (mem : Bytes) (va : Nat) : UInt8 :=
  ((paddr w root va).map mem).getD 0

/-- The first `u` bytes of the source are the user's, and the next one is not, unless these are all
bytes of the call. -/
structure Mapped (w : Words) (root va count u : Nat) : Prop where
  le : u ≤ count
  here : ∀ i < u, paddr w root (va + i) ≠ none
  stop : u < count → paddr w root (va + u) = none

section
variable {w : Words} {root va count u : Nat} (mem : Bytes) (off : Nat)

lemma Mapped.no_wrap (h : Mapped w root va count u) (low : va < 2 ^ 64) {tot : Nat}
    (le : tot ≤ u) : (va + tot) % 2 ^ 64 = va + tot := by
  have top : maxva < 2 ^ 64 := by decide
  cases tot with
  | zero => exact Nat.mod_eq_of_lt low
  | succ tot =>
    obtain ⟨x, here⟩ := ne_none_iff_exists'.mp (h.here tot le)
    have := paddr_lt here
    exact Nat.mod_eq_of_lt (by omega)

/-- A copy ends at the first byte that is not mapped, and has then moved the bytes before it. -/
lemma userSource_piece (backed : Backed w root) (h : Mapped w root va count u)
    (low : va < 2 ^ 64) {tot : Nat} (le : tot ≤ u) (b : Block) :
    copyin w root mem ((off + tot) % bsize) ((va + tot) % 2 ^ 64)
        (min (count - tot) (bsize - (off + tot) % bsize)) b =
      (if tot + min (count - tot) (bsize - (off + tot) % bsize) ≤ u then 0 else -1,
        memmove b ((off + tot) % bsize) (fun i => userByte w root mem (va + (tot + i)))
          (min (min (count - tot) (bsize - (off + tot) % bsize)) (u - tot))) := by
  have all := h.le
  rw [h.no_wrap low le]
  have inside : tot + min (count - tot) (bsize - (off + tot) % bsize) ≤ count := by omega
  generalize min (count - tot) (bsize - (off + tot) % bsize) = len at inside ⊢
  obtain ⟨done, few, bytes, frame, result⟩ := copyin_spec w root mem ((off + tot) % bsize)
    (va + tot) len b
  have ends : done ≤ u - tot := by
    by_contra more
    obtain ⟨x, here, -⟩ := bytes (u - tot) (by omega)
    rw [Nat.add_assoc, Nat.add_sub_cancel' le, h.stop (by omega)] at here
    cases here
  have moved : min len (u - tot) = done ∧ (copyin w root mem ((off + tot) % bsize) (va + tot) len b).1
      = if tot + len ≤ u then 0 else -1 := by
    rcases result with ⟨ok, rfl⟩ | ⟨bad, less, none⟩
    · exact ⟨by omega, by rw [if_pos (by omega), ok]⟩
    · have stop := none backed
      rw [Nat.add_assoc] at stop
      have := not_lt.mp fun early => h.here (tot + done) early stop
      exact ⟨by omega, by rw [if_neg (by omega), bad]⟩
  refine Prod.ext moved.2 (funext fun j => ?_)
  dsimp only
  rw [moved.1]
  dsimp only [memmove]
  split_ifs with within
  · obtain ⟨x, here, byte⟩ := bytes (j - (off + tot) % bsize) (by omega)
    rw [userByte, ← Nat.add_assoc, here, map_some, getD_some, ← byte, Nat.add_sub_cancel' within.1]
  · exact frame j (by omega)

/-- Where the piece begins that holds the byte `u` of the call. -/
def pieceOf (off u : Nat) : Nat := u - (off + u) % bsize

lemma pieceOf_le (off u : Nat) : pieceOf off u ≤ u := Nat.sub_le _ _

lemma starts_pieceOf (off u : Nat) : Starts off (pieceOf off u) := by
  simp only [Starts, pieceOf, bsize]
  omega

lemma eq_pieceOf {tot : Nat} (starts : Starts off tot) (le : tot ≤ u)
    (inside : u < tot + (bsize - (off + tot) % bsize)) : tot = pieceOf off u := by
  simp only [Starts, pieceOf, bsize] at *
  omega

lemma userSource_fault (backed : Backed w root) (h : Mapped w root va count u) (low : va < 2 ^ 64)
    {tot : Nat} (le : tot ≤ u) : (userSource w root mem va off count).fault tot = true ↔
      u < tot + min (count - tot) (bsize - (off + tot) % bsize) := by
  rw [userSource]
  dsimp only
  rw [userSource_piece mem off backed h low le]
  split_ifs with whole
  · exact iff_of_false (fun bad => nomatch bad) (not_lt.mpr whole)
  · exact iff_of_true rfl (not_le.mp whole)

lemma userSource_stops (backed : Backed w root) (h : Mapped w root va count u) (low : va < 2 ^ 64)
    (less : u < count) : (userSource w root mem va off count).fault (pieceOf off u) = true := by
  refine (userSource_fault mem off backed h low (pieceOf_le off u)).mpr ?_
  simp only [pieceOf, bsize]
  omega

lemma userSource_spills (backed : Backed w root) (h : Mapped w root va count u)
    (low : va < 2 ^ 64) : (userSource w root mem va off count).Spills
      (fun i => userByte w root mem (va + i)) off count fun tot => u - tot := by
  intro tot less starts past
  have le : tot ≤ u := by
    by_contra above
    have fault := userSource_stops mem off backed h low (show u < count by omega)
    rw [past _ (lt_of_le_of_lt (pieceOf_le off u) (not_le.mp above)) (starts_pieceOf off u)] at fault
    cases fault
  have fault := userSource_fault mem off backed h low le
  by_cases whole : tot + min (count - tot) (bsize - (off + tot) % bsize) ≤ u
  · refine .inl ⟨Bool.eq_false_iff.mpr fun bad => absurd (fault.mp bad) (not_lt.mpr whole),
      fun b => ?_⟩
    rw [userSource]
    dsimp only
    rw [userSource_piece mem off backed h low le, Nat.min_eq_left (Nat.le_sub_of_add_le' whole)]
    rfl
  · have cut := Nat.sub_le_iff_le_add'.mpr (not_le.mp whole).le
    refine .inr ⟨fault.mpr (not_le.mp whole), cut.trans (Nat.min_le_right ..), fun b => ?_⟩
    rw [userSource]
    dsimp only
    rw [userSource_piece mem off backed h low le, Nat.min_eq_right cut]

end

variable {sb : Superblock} {n off count va u root : Nat} {s : Op} {w : Words} {mem : Bytes}

/-- A write changes what it reports: a read of the whole file gives the old bytes with the reported
ones replaced. -/
def Reports (w : Words) (root : Nat) (sb : Superblock) (n off count va : Nat) (s : Op)
    (mem : Bytes) : Prop :=
  (writei sb n (userSource w root mem va off count) s off count = some (s, -1) ∧
    ((s.img.dinode n).size < off ∨ maxfile * bsize < off + count)) ∨
  ∃ s', ∃ tot : Nat,
    writei sb n (userSource w root mem va off count) s off count = some (s', (tot : Int)) ∧
    tot ≤ count ∧ Namei.readi sb n s' 0 (s'.img.dinode n).size = some (s',
      writeAt (s.img.contents n) off
        ((List.range tot).map fun i => userByte w root mem (va + i))) ∧
    ∀ k, k ≠ n → s'.img.contents k = s.img.contents k

lemma readi_whole (h : Sound sb s.img) (n : Nat) :
    Namei.readi sb n s 0 (s.img.dinode n).size = some (s, s.img.contents n) := by
  have below : (s.img.dinode n).size < 2 ^ 32 := lt_of_le_of_lt (h.sized n) (by decide)
  rw [readi_bytes h n 0 (by decide) below, if_pos (by rwa [Nat.zero_add]), List.drop_zero,
    List.take_of_length_le (by rw [length_contents])]

/-- A write that is cut inside a block of the file replaces its first byte without reporting it. -/
lemma writei_spills (mem : Bytes) (off : Nat) (h : Sound sb s.img) (fits : sb.size ≤ 2 ^ 32)
    (type : (s.img.dinode n).type ≠ .none) (uint : count < 2 ^ 32)
    (backed : Backed w root) (low : va < 2 ^ 64) (mapped : Mapped w root va count u)
    (less : u < count) (inside : off + count ≤ maxfile * bsize) (part : pieceOf off u < u)
    (old : off + pieceOf off u < (s.img.dinode n).size) : ∃ s',
      writei sb n (userSource w root mem va off count) s off count =
        some (s', (pieceOf off u : Int)) ∧ Sound sb s'.img ∧
      off + pieceOf off u < (s'.img.dinode n).size ∧ s'.img.byte n (off + pieceOf off u) =
        userByte w root mem (va + pieceOf off u) := by
  rcases writei_bytes h fits type uint (userSource_spills mem off backed mapped low)
    with ⟨-, why⟩ | ⟨-, -, s', tot, spilled, run, wrote⟩
  · omega
  have stops := userSource_stops mem off backed mapped low less
  have early : tot ≤ pieceOf off u := by
    by_contra late
    rw [wrote.ended.past _ (not_le.mp late) (starts_pieceOf off u)] at stops
    cases stops
  obtain ⟨rfl, eq⟩ : tot = pieceOf off u ∧ spilled = u - tot := by
    rcases wrote.ended.why with ⟨all, -⟩ | ⟨-, starts, ⟨-, -, missing⟩ | ⟨eq, fault⟩⟩
    · omega
    · refine absurd missing (h.filled n _ (lt_of_le_of_lt (Nat.div_mul_le_self ..) ?_))
      omega
    · have := (userSource_fault mem off backed mapped low (by omega)).mp fault
      exact ⟨eq_pieceOf off starts (by omega) (by omega), eq⟩
  have grown : (s.img.dinode n).size ≤ (s'.img.dinode n).size :=
    (le_max_left ..).trans_eq wrote.size.symm
  refine ⟨s', run, wrote.sound, by omega, ?_⟩
  rw [wrote.bytes _ (by omega), if_pos (by omega), Nat.add_sub_cancel_left]

/-- A write changes what it reports, whatever bytes it is given, exactly if all its source is
mapped, the range is refused, or the piece with the first byte that is not mapped begins with this
byte or behind the end of the file. -/
theorem write_changes_what_it_reports_iff (n off count va : Nat) (h : Sound sb s.img)
    (fits : sb.size ≤ 2 ^ 32) (type : (s.img.dinode n).type ≠ .none) (uint : count < 2 ^ 32)
    (backed : Backed w root) (low : va < 2 ^ 64) (mapped : Mapped w root va count u) :
    (∀ mem, Reports w root sb n off count va s mem) ↔
      (u < count → off + count ≤ maxfile * bsize →
        u = 0 ∨ (off + u) % bsize = 0 ∨ (s.img.dinode n).size ≤ off + pieceOf off u) := by
  constructor
  · intro all less inside
    by_contra bad
    have part : pieceOf off u < u := by
      rw [pieceOf]
      omega
    obtain ⟨d, other⟩ := exists_byte_ne (s.img.byte n (off + pieceOf off u))
    obtain ⟨s', run, sound, size, byte⟩ := writei_spills (fun _ => d) off h fits type uint
      backed low mapped less inside part (by omega)
    rcases all fun _ => d with ⟨refused, -⟩ | ⟨s'', tot, run', -, read, -⟩
    · cases run.symm.trans refused
    cases run.symm.trans run'
    rw [readi_whole sound] at read
    have same := congrArg (fun r => r.2.getD (off + pieceOf off u) 0) (Option.some.inj read)
    obtain ⟨x, here⟩ := ne_none_iff_exists'.mp (mapped.here _ part)
    simp only [getD_contents size, byte, userByte, here, map_some, getD_some] at same
    rw [getD_writeAt _ _ (by rw [length_contents]; omega), List.length_map, List.length_range,
      if_neg (by omega), getD_contents (by omega)] at same
    exact other same
  · intro edge mem
    rcases writei_bytes h fits type uint (userSource_spills mem off backed mapped low)
      with ⟨run, why⟩ | ⟨start, inside, s', tot, spilled, run, wrote⟩
    · exact .inl ⟨run, why⟩
    have clean : spilled = 0 ∨ (s.img.dinode n).size ≤ off + tot := by
      rcases wrote.ended.why with ⟨-, zero⟩ | ⟨more, starts, ⟨zero, -⟩ | ⟨eq, fault⟩⟩
      · exact .inl zero
      · exact .inl zero
      · by_cases past : u ≤ tot
        · exact .inl (by omega)
        have := (userSource_fault mem off backed mapped low (by omega)).mp fault
        have here := eq_pieceOf off starts (by omega) (show u < _ by omega)
        have := edge (by omega) inside
        rw [← here] at this
        rw [pieceOf] at here
        omega
    refine .inr ⟨s', tot, run, wrote.ended.le, ?_, fun k ne => wrote.others.contents_eq h ne⟩
    rw [readi_whole wrote.sound, wrote.contents start clean]

/-- The disk of `oneFile` after its file has got a block and 20 bytes. -/
def smallFile : Op :=
  ⟨(bmapAddr fsSb 1 oneFile 0).1.img.setInode 1
    { (bmapAddr fsSb 1 oneFile 0).1.img.dinode 1 with size := 20 }, []⟩

lemma smallFile_block : smallFile.img.blockAt (1, slot 0) = 46 := by decide +kernel

lemma smallFile_sound : Sound fsSb smallFile.img := by
  obtain ⟨sound, -, here⟩ := oneFile_sound.bmapAddr (n := 1) (k := 0) (by decide) (by decide)
  refine sound.resize (by decide) fun f low => ?_
  have zero : f = 0 := by
    simp only [bsize] at low
    omega
  rw [zero]
  exact (here (by decide +kernel)).trans_ne (by decide +kernel)

lemma smallFile_mapped : Mapped onePage 1 4086 20 10 := by
  constructor <;> decide +kernel

/-- The last ten bytes of a page, and ten more that are not mapped, for the first 20 bytes of the
file: `writei` reports 0 bytes, and the first byte of the file has changed. -/
theorem partial_copy_is_not_reported : ∃ s' c,
    writei fsSb 1 (userSource onePage 1 (fun _ => 7) 4086 0 20) smallFile 0 20 =
      some (s', 0) ∧
    Namei.readi fsSb 1 smallFile 0 20 = some (smallFile, List.replicate 20 0) ∧
    Namei.readi fsSb 1 s' 0 20 = some (s', c) ∧ c.getD 0 0 = 7 := by
  obtain ⟨s', run, sound, size, byte⟩ := writei_spills (fun _ => 7) 0
    smallFile_sound (by decide) (show (smallFile.img.dinode 1).type ≠ .none by decide +kernel)
    (by decide) onePage_backed (by decide) smallFile_mapped (by decide) (by decide) (by decide)
    (by decide +kernel)
  refine ⟨s', _, run, ?_, readi_bytes sound 1 0 (by decide) (by decide), ?_⟩
  · rw [readi_bytes smallFile_sound 1 0 (by decide) (by decide), if_pos (by decide)]
    exact congrArg (fun c => some (smallFile, c)) (by decide +kernel)
  rw [if_pos (by decide), List.drop_zero, List.getD_eq_getElem?_getD, List.getElem?_take,
    if_pos (by decide), ← List.getD_eq_getElem?_getD, getD_contents (lt_of_le_of_lt (by decide) size)]
  exact byte.trans (by decide +kernel)

/-- The same bytes from a source that is all mapped, and all 20 where the file has none yet. -/
theorem smallFile_changes_what_it_reports :
    Reports onePage 1 fsSb 1 0 10 4086 smallFile (fun _ => 7) ∧
      Reports onePage 1 fsSb 1 20 20 4086 smallFile (fun _ => 7) := by
  have mapped : Mapped onePage 1 4086 10 10 := by
    constructor <;> decide +kernel
  exact ⟨(write_changes_what_it_reports_iff 1 0 10 4086 smallFile_sound (by decide)
      (by decide +kernel) (by decide) onePage_backed (by decide) mapped).mpr
      (fun less => absurd less (by decide)) _,
    (write_changes_what_it_reports_iff 1 20 20 4086 smallFile_sound (by decide)
      (by decide +kernel) (by decide) onePage_backed (by decide) smallFile_mapped).mpr
      (fun _ _ => .inr (.inr (by decide +kernel))) _⟩

end Xv6.Fs
