import Xv6.MkfsLookup
import Xv6.Tiling
import Xv6.UserCopy

/-! The bytes of a file: `writei` and `readi` of fs.c as operations on an array of bytes, over the
blocks that `bmap` finds or allocates. -/
namespace Xv6.Fs
open List Option Image
open Tiling (writeAt length_writeAt)
open UserCopy (memmove)
open Function (update_eq_self update_of_ne update_self)

def Image.byte (m : Image) (n i : Nat) : UInt8 :=
  m.block (m.blockAt (n, slot (i / bsize))) (i % bsize)

def Image.contents (m : Image) (n : Nat) : List UInt8 :=
  (List.range (m.dinode n).size).map (m.byte n)

def Image.Full (sb : Superblock) (m : Image) : Prop := ∀ b < sb.size, m.used b = true

def kernelSource (src : Nat → UInt8) (off count : Nat) : Copies where
  fault _ := false
  data tot b := memmove b ((off + tot) % bsize) (fun i => src (tot + i))
    (min (count - tot) (bsize - (off + tot) % bsize))

/-- A copy of `writei` that moves a whole piece of `src` into the block. -/
def Copies.Moves (copies : Copies) (src : Nat → UInt8) (off count tot : Nat) : Prop :=
  copies.fault tot = false ∧ ∀ b, copies.data tot b = (kernelSource src off count).data tot b

def Copies.Delivers (copies : Copies) (src : Nat → UInt8) (off count : Nat) : Prop :=
  ∀ tot < count, copies.Moves src off count tot

def Starts (off tot : Nat) : Prop := tot = 0 ∨ (off + tot) % bsize = 0

/-- The first copy that fails has moved `spill` bytes of its piece into the block. -/
def Copies.Spills (copies : Copies) (src : Nat → UInt8) (off count : Nat) (spill : Nat → Nat) :
    Prop :=
  ∀ tot < count, Starts off tot → (∀ t < tot, Starts off t → copies.fault t = false) →
    copies.Moves src off count tot ∨ copies.fault tot = true ∧
      spill tot ≤ bsize - (off + tot) % bsize ∧ ∀ b, copies.data tot b =
        memmove b ((off + tot) % bsize) (fun i => src (tot + i)) (spill tot)

lemma Copies.Delivers.spills {copies : Copies} {src : Nat → UInt8} {off count : Nat}
    (h : copies.Delivers src off count) : copies.Spills src off count fun _ => 0 :=
  fun tot less _ _ => .inl (h tot less)

/-- How the loop of `writei` stops after `tot` bytes: all are written, there is no block for the next
one, or its copy has failed and left `spilled` bytes behind. -/
structure Copies.Ended (copies : Copies) (sb : Superblock) (n start count : Nat)
    (spill : Nat → Nat) (m m' : Image) (tot spilled : Nat) : Prop where
  le : tot ≤ count
  past : ∀ t < tot, Starts start t → copies.fault t = false
  why : tot = count ∧ spilled = 0 ∨ tot < count ∧ Starts start tot ∧
    (spilled = 0 ∧ m'.Full sb ∧ m.blockAt (n, slot ((start + tot) / bsize)) = 0 ∨
      spilled = spill tot ∧ copies.fault tot = true)

variable {sb : Superblock} {n k x c i tot off count : Nat} {m m' : Image} {s : Op}
  {copies : Copies} {src : Nat → UInt8} {spill : Nat → Nat}

/-! ### Blocks that stay -/

/-- The blocks in use stay so, and all of them but `x` keep their contents. -/
structure Untouched (x : Nat) (m m' : Image) : Prop where
  used : ∀ c, m.used c = true → m'.used c = true
  block : ∀ c, m.used c = true → c ≠ x → m'.block c = m.block c

lemma Untouched.refl (x : Nat) (m : Image) : Untouched x m m := ⟨fun _ h => h, fun _ _ _ => rfl⟩

lemma balloc_untouched (x : Nat) (sb : Superblock) (s : Op) :
    Untouched x s.img (balloc sb s).1.img := by
  rcases balloc_cases sb s with ⟨-, same⟩ | ⟨-, unused, img⟩
  · rw [same]
    exact .refl x _
  have other : ∀ c, s.img.used c = true → c ≠ (balloc sb s).2 := by
    rintro c used rfl
    cases unused.symm.trans used
  rw [img]
  refine ⟨fun c used => ?_, fun c used _ => ?_⟩
  · rw [setBlock_used, mark_used, update_of_ne (other c used)]
    exact used
  rw [setBlock_block, update_of_ne (other c used)]
  rfl

lemma bmapAddr_untouched (x : Nat) (sb : Superblock) (n : Nat) (s : Op) (k : Nat) :
    Untouched x s.img (bmapAddr sb n s k).1.img := by
  rw [bmapAddr]
  split_ifs with present
  · exact .refl x _
  dsimp only
  have alloc := balloc_untouched x sb s
  split_ifs
  · exact alloc
  exact ⟨alloc.used, alloc.block⟩

lemma bmapEntry_untouched (sb : Superblock) (s : Op) (x j : Nat) :
    Untouched x s.img (bmapEntry sb s x j).1.img := by
  rw [bmapEntry]
  split_ifs with present
  · exact .refl x _
  dsimp only
  have alloc := balloc_untouched x sb s
  split_ifs
  · exact alloc
  refine ⟨alloc.used, fun c used ne => ?_⟩
  exact (update_of_ne ne ..).trans (alloc.block c used ne)

lemma balloc_full (boot : s.img.used 0 = true) (zero : (balloc sb s).2 = 0) :
    (balloc sb s).1.img.Full sb := by
  rw [balloc] at zero ⊢
  cases found : (range sb.size).find? fun b => !s.img.used b with
  | none =>
    intro b lt
    have := find?_eq_none.mp found b (mem_range.mpr lt)
    simpa using this
  | some b => grind

lemma bmapAddr_full (boot : s.img.used 0 = true) (zero : (bmapAddr sb n s k).2 = 0) :
    (bmapAddr sb n s k).1.img.Full sb := by
  rw [bmapAddr] at zero ⊢
  split_ifs at zero ⊢ with present
  · exact absurd zero present
  dsimp only at zero ⊢
  split_ifs at zero ⊢ with none
  · exact balloc_full boot none
  exact absurd zero none

lemma bmapEntry_full {j : Nat} (boot : s.img.used 0 = true) (zero : (bmapEntry sb s x j).2 = 0) :
    (bmapEntry sb s x j).1.img.Full sb := by
  rw [bmapEntry] at zero ⊢
  split_ifs at zero ⊢ with present
  · exact absurd zero present
  dsimp only at zero ⊢
  split_ifs at zero ⊢ with none
  · exact balloc_full boot none
  exact absurd zero none

lemma balloc_none (full : s.img.Full sb) : balloc sb s = (s, 0) := by
  rw [balloc, find?_eq_none.mpr fun b mem => by simp [full b (mem_range.mp mem)]]

lemma bmap_full {bn : Nat} (full : s.img.Full sb) (inside : bn < maxfile)
    (missing : s.img.blockAt (n, slot bn) = 0) : bmap sb n s bn = some (s, 0) := by
  have addr : ∀ k, (s.img.dinode n).addrs k = 0 → bmapAddr sb n s k = (s, 0) := by
    intro k zero
    rw [bmapAddr, if_neg (not_not.mpr zero), balloc_none full, if_pos rfl]
  unfold bmap
  by_cases small : bn < ndirect
  · rw [slot_direct small] at missing
    rw [if_pos small, addr bn missing]
  rw [slot_entry small (entry_lt inside)] at missing
  rw [if_neg small, if_pos (entry_lt inside)]
  by_cases indirect : (s.img.dinode n).addrs ndirect = 0
  · rw [addr _ indirect, if_pos rfl]
  have word : word (s.img.block ((s.img.dinode n).addrs ndirect)) (bn - ndirect) = 0 := by
    simpa only [blockAt, if_neg indirect] using missing
  have found : bmapAddr sb n s ndirect = (s, (s.img.dinode n).addrs ndirect) := by
    rw [bmapAddr, if_pos indirect]
  rw [found]
  dsimp only
  rw [if_neg indirect, bmapEntry, if_neg (not_not.mpr word), balloc_none full, if_pos rfl]

namespace Sound
lemma boot (h : Sound sb m) : m.used 0 = true := h.ledger.metadata 0 sb.datastart_pos

lemma slot_ne (h : Sound sb m) {f : Nat} (inside : f < maxfile)
    (some : m.blockAt (n, slot f) ≠ 0) : m.blockAt (n, slot f) ≠ m.blockAt (n, .indirect) := by
  intro eq
  have := h.ledger.exact.distinct (n, slot f) (n, .indirect) some eq
  exact slot_ne_indirect inside (congrArg Prod.snd this)

lemma bmap_kept (h : Sound sb s.img) (fits : sb.size ≤ 2 ^ 32)
    (type : (s.img.dinode n).type ≠ .none) {bn : Nat} (inside : bn < maxfile) :
    ∃ r, Fs.bmap sb n s bn = some r ∧ Sound sb r.1.img ∧ Extends n s.img r.1.img ∧
    (r.2 ≠ 0 → r.1.img.blockAt (n, slot bn) = r.2) ∧ (r.2 = 0 → r.1.img.Full sb) ∧
    ∀ f < maxfile, s.img.blockAt (n, slot f) ≠ 0 →
    r.1.img.block (s.img.blockAt (n, slot f)) = s.img.block (s.img.blockAt (n, slot f)) := by
  obtain ⟨r, run, sound, grown, here⟩ := h.bmap fits type inside
  refine ⟨r, run, sound, grown, here, ?_⟩
  clear here sound grown
  unfold Fs.bmap at run
  by_cases small : bn < ndirect
  · rw [if_pos small] at run
    cases run
    refine ⟨bmapAddr_full h.boot, fun f below some => ?_⟩
    exact (bmapAddr_untouched 0 sb n s bn).block _ (h.ledger.used some) some
  rw [if_neg small, if_pos (entry_lt inside)] at run
  obtain ⟨sound, grown, here⟩ := h.bmapAddr type (le_refl ndirect)
  have first := bmapAddr_untouched 0 sb n s ndirect
  by_cases full : (Fs.bmapAddr sb n s ndirect).2 = 0
  · simp only [if_pos full] at run
    cases run
    exact ⟨fun _ => bmapAddr_full h.boot full,
      fun f below some => first.block _ (h.ledger.used some) some⟩
  simp only [if_neg full] at run
  cases run
  refine ⟨bmapEntry_full sound.boot, fun f below some => ?_⟩
  have kept := grown.kept _ some
  have indirect : (Fs.bmapAddr sb n s ndirect).1.img.blockAt (n, .indirect) =
      (Fs.bmapAddr sb n s ndirect).2 := here full
  rw [(bmapEntry_untouched sb _ _ _).block _ (first.used _ (h.ledger.used some)),
    first.block _ (h.ledger.used some) some]
  rw [← indirect, ← kept]
  exact sound.slot_ne below (by rwa [kept])

end Sound

/-! ### Writing -/

lemma byte_setBlock (h : Sound sb m) {b : Nat} {v : Block} (low : off / bsize < maxfile)
    (here : m.blockAt (n, slot (off / bsize)) = b) (some : b ≠ 0)
    (inside : i / bsize < maxfile) (held : m.blockAt (n, slot (i / bsize)) ≠ 0) :
    (m.setBlock b v).byte n i = if i / bsize = off / bsize then v (i % bsize) else m.byte n i := by
  obtain ⟨-, grown⟩ := h.write low here some v
  rw [byte, grown.kept _ held, setBlock_block]
  split_ifs with same
  · rw [same, here, update_self]
  rw [update_of_ne]
  · rfl
  intro eq
  have := h.ledger.exact.distinct (n, slot (i / bsize)) (n, slot (off / bsize)) held
    (eq.trans here.symm)
  exact same (slot_injective inside low (congrArg Prod.snd this))

/-- What the loop of `writei` leaves in the file, from `off` up to `stop`. -/
structure Written (n : Nat) (src : Nat → UInt8) (tot off stop : Nat) (m m' : Image) : Prop where
  held : ∀ i, off ≤ i → i < stop → m'.blockAt (n, slot (i / bsize)) ≠ 0
  bytes : ∀ i, off ≤ i → i < stop → m'.byte n i = src (tot + (i - off))
  rest : ∀ i, i / bsize < maxfile → i < off ∨ stop ≤ i → m.blockAt (n, slot (i / bsize)) ≠ 0 →
    m'.byte n i = m.byte n i

lemma Written.refl (n : Nat) (src : Nat → UInt8) (tot off : Nat) (m m' : Image) (old : ∀ i,
    i / bsize < maxfile → m.blockAt (n, slot (i / bsize)) ≠ 0 → m'.byte n i = m.byte n i) :
    Written n src tot off off m m' :=
  ⟨fun _ low high => absurd high (by omega), fun _ low high => absurd high (by omega),
    fun i inside _ held => old i inside held⟩

lemma Written.trans {mid stop : Nat} {m m₁ m₂ : Image} (grown₁ : Extends n m m₁)
    (grown₂ : Extends n m₁ m₂) (inside : mid ≤ maxfile * bsize)
    (le : off ≤ mid) (le' : mid ≤ stop) (one : Written n src tot off mid m m₁)
    (two : Written n src (tot + (mid - off)) mid stop m₁ m₂) : Written n src tot off stop m m₂ := by
  have below : ∀ i, i < mid → i / bsize < maxfile := fun i less =>
    Nat.div_lt_of_lt_mul (by rw [Nat.mul_comm]; omega)
  refine ⟨fun i low high => ?_, fun i low high => ?_, fun i fits out held => ?_⟩
  · by_cases first : i < mid
    · have held := one.held i low first
      rwa [grown₂.kept _ held]
    exact two.held i (by omega) high
  · by_cases first : i < mid
    · rw [two.rest i (below i first) (.inl first) (one.held i low first), one.bytes i low first]
    rw [two.bytes i (by omega) high]
    refine congrArg src ?_
    omega
  rw [two.rest i fits (by omega) (by rwa [grown₁.kept _ held]), one.rest i fits (by omega) held]

lemma written_piece (src : Nat → UInt8) (h : Sound sb m) {b len : Nat}
    (lt : off / bsize < maxfile) (here : m.blockAt (n, slot (off / bsize)) = b) (some : b ≠ 0)
    (fits : len ≤ bsize - off % bsize) : Written n src tot off (off + len) m
      (m.setBlock b (memmove (m.block b) (off % bsize) (fun i => src (tot + i)) len)) := by
  have byte : ∀ i, i / bsize < maxfile → m.blockAt (n, slot (i / bsize)) ≠ 0 →
      (m.setBlock b (memmove (m.block b) (off % bsize) (fun i => src (tot + i)) len)).byte n i =
        if off ≤ i ∧ i < off + len then src (tot + (i - off)) else m.byte n i := by
    intro i inside held
    rw [byte_setBlock h lt here some inside held, memmove]
    by_cases same : i / bsize = off / bsize
    · rw [if_pos same]
      by_cases within : off ≤ i ∧ i < off + len
      · grind
      rw [if_neg within, if_neg (by simp only [bsize] at *; omega), byte, same, here]
    rw [if_neg same, if_neg (by simp only [bsize] at *; omega)]
  have held : ∀ i, off ≤ i → i < off + len → i / bsize = off / bsize := by
    intro i low high
    simp only [bsize] at *
    omega
  refine ⟨fun i low high => ?_, fun i low high => ?_, fun i inside out present => ?_⟩
  · have kept := (h.write lt here some (memmove (m.block b) (off % bsize) (fun i => src (tot + i))
      len)).2.kept (slot (off / bsize)) (by rwa [here])
    rw [held i low high, kept, here]
    exact some
  · rw [byte i (held i low high ▸ lt) (by rw [held i low high, here]; exact some),
      if_pos ⟨low, high⟩]
  rw [byte i inside present, if_neg (by omega)]

lemma Starts.eq_of_piece {start tot t : Nat} (begins : Starts start t) (low : tot ≤ t)
    (high : t < tot + (bsize - (start + tot) % bsize)) : t = tot := by
  rcases begins with zero | begins
  · omega
  simp only [bsize] at *
  omega

lemma writeiLoop_bytes (tot off : Nat) (s : Op) (h : Sound sb s.img) (fits : sb.size ≤ 2 ^ 32)
    (type : (s.img.dinode n).type ≠ .none) (inside : off + (count - tot) ≤ maxfile * bsize)
    (start : Nat) (from' : off = start + tot) (spills : copies.Spills src start count spill)
    (le : tot ≤ count) (starts : tot < count → Starts start tot)
    (past : ∀ t < tot, Starts start t → copies.fault t = false) :
    ∃ r spilled, writeiLoop sb n copies count tot off s = some r ∧ Sound sb r.1.img ∧
    Extends n s.img r.1.img ∧ tot ≤ r.2.1 ∧ r.2.2 = start + r.2.1 ∧
    copies.Ended sb n start count spill s.img r.1.img r.2.1 spilled ∧
    Written n src tot off (r.2.2 + spilled) s.img r.1.img := by
  induction gap : count - tot using Nat.strong_induction_on generalizing tot off s with
  | _ gap ih =>
    rw [writeiLoop.eq_def]
    by_cases more : tot < count
    · rw [if_pos more]
      have lt : off / bsize < maxfile := Nat.div_lt_of_lt_mul (by
        rw [Nat.mul_comm]
        omega)
      obtain ⟨r, run, sound, grown, here, full, kept⟩ := h.bmap_kept fits type lt
      simp only [run, bind_some]
      have old : ∀ i, i / bsize < maxfile → s.img.blockAt (n, slot (i / bsize)) ≠ 0 →
          r.1.img.byte n i = s.img.byte n i := by
        intro i inside held
        rw [byte, grown.kept _ held, kept _ inside held]
        rfl
      by_cases none : r.2 = 0
      · rw [if_pos none]
        refine ⟨_, 0, rfl, sound, grown, le_rfl, from',
          ⟨le, past, .inr ⟨more, starts more, .inl ⟨rfl, full none, ?_⟩⟩⟩, .refl n src tot off _ _ old⟩
        -- a block that is there is found
        by_contra some
        rw [← from'] at some
        cases run.symm.trans (bmap_found lt some)
        exact some none
      rw [if_neg none]
      have step := mod_bsize_lt off
      -- what a piece of the length `len` adds
      have first : ∀ len ≤ bsize - off % bsize, Written n src tot off (off + len) s.img
          (r.1.img.setBlock r.2 (memmove (r.1.img.block r.2) (off % bsize)
            (fun i => src (tot + i)) len)) := fun len few =>
        Written.trans grown (sound.write lt (here none) none _).2 (by omega) le_rfl
          (Nat.le_add_right _ _) (.refl n src tot off _ _ old) (by
            rw [Nat.sub_self, Nat.add_zero]
            exact written_piece src sound lt (here none) none few)
      rcases spills tot more (starts more) past with ⟨fault, data⟩ | ⟨fault, few, data⟩
      · rw [fault, if_neg Bool.false_ne_true, data, kernelSource]
        dsimp only
        rw [← from']
        obtain ⟨written, kept⟩ := sound.write lt (here none) none (memmove (r.1.img.block r.2)
          (off % bsize) (fun i => src (tot + i)) (min (count - tot) (bsize - off % bsize)))
        have grown₁ := grown.trans kept
        obtain ⟨r', spilled, run', sound', grown', low, stop, ended, written'⟩ := ih
          (count - (tot + min (count - tot) (bsize - off % bsize))) (by omega)
          (tot + min (count - tot) (bsize - off % bsize))
          (off + min (count - tot) (bsize - off % bsize))
          ((r.1.setBlock r.2 _).logWrite r.2) written (by
            show ((r.1.img.setBlock _ _).dinode n).type ≠ .none
            rwa [grown₁.type])
          (by omega) (by omega) (by omega)
          (fun more => .inr (by simp only [bsize] at *; omega))
          (fun t less begins => by
            by_cases before : t < tot
            · exact past t before begins
            rwa [begins.eq_of_piece (not_lt.mp before) (by rw [← from']; omega)])
          rfl
        refine ⟨r', spilled, run', sound', grown₁.trans grown', by omega, stop,
          ⟨ended.le, ended.past, ended.why.imp_right ?_⟩, ?_⟩
        · rintro ⟨less, begins, ⟨zero, full, missing⟩ | bad⟩
          · refine ⟨less, begins, .inl ⟨zero, full, ?_⟩⟩
            by_contra some
            have kept := grown₁.kept _ some
            exact some (kept.symm.trans missing)
          · exact ⟨less, begins, .inr bad⟩
        · refine Written.trans grown₁ grown' (by omega) (Nat.le_add_right _ _) (by omega)
            (first _ (Nat.min_le_right _ _)) ?_
          rwa [Nat.add_sub_cancel_left]
      rw [if_pos fault, data, Op.setBlock]
      rw [← from'] at few ⊢
      obtain ⟨written, kept⟩ := sound.write lt (here none) none (memmove (r.1.img.block r.2)
        (off % bsize) (fun i => src (tot + i)) (spill tot))
      exact ⟨_, spill tot, rfl, written, grown.trans kept, le_rfl, from',
        ⟨le, past, .inr ⟨more, starts more, .inr ⟨rfl, fault⟩⟩⟩, first _ few⟩
    rw [if_neg more]
    exact ⟨_, 0, rfl, h, .refl _ _, le_rfl, from', ⟨le, past, .inl ⟨le.antisymm (not_lt.mp more), rfl⟩⟩,
      .refl n src tot off _ _ fun _ _ _ => rfl⟩

lemma getElem_contents {i : Nat} (lt : i < (m.contents n).length) :
    (m.contents n)[i] = m.byte n i := by simp only [contents, getElem_map, getElem_range]

@[simp] lemma length_contents (m : Image) (n : Nat) :
    (m.contents n).length = (m.dinode n).size := by rw [contents, length_map, length_range]

lemma getD_writeAt (c new : List UInt8) (le : off ≤ c.length) (i : Nat) : (writeAt c off new).getD i
    0 = if off ≤ i ∧ i < off + new.length then new.getD (i - off) 0 else c.getD i 0 := by
  have len : (c.take off).length = off := by rw [length_take]; omega
  rw [writeAt, append_assoc]
  by_cases first : i < off
  · rw [if_neg (by omega), getD_append _ _ _ _ (by omega), getD_eq_getElem?_getD,
      getElem?_take, if_pos first, ← getD_eq_getElem?_getD]
  rw [getD_append_right _ _ _ _ (by omega), len]
  by_cases middle : i < off + new.length
  · rw [if_pos ⟨by omega, middle⟩, getD_append _ _ _ _ (by omega)]
  rw [if_neg (by omega), getD_append_right _ _ _ _ (by omega), getD_eq_getElem?_getD,
    getElem?_drop, ← getD_eq_getElem?_getD]
  congr 1
  omega

lemma getD_contents {i : Nat} (lt : i < (m.dinode n).size) :
    (m.contents n).getD i 0 = m.byte n i := by
  have lt' : i < (m.contents n).length := by rwa [length_contents]
  rw [getD_eq_getElem?_getD, getElem?_eq_getElem lt', getD_some, getElem_contents lt']

lemma Op.iupdate_blockAt (sb : Superblock) (n : Nat) (s : Op) (size : Nat) :
    (s.iupdate sb n size).img.blockAt = s.img.blockAt := blockAt_setInode rfl

lemma Op.iupdate_size (sb : Superblock) (n : Nat) (s : Op) (size : Nat) :
    ((s.iupdate sb n size).img.dinode n).size = size := by
  rw [Op.iupdate, Op.logWrite, Image.setInode_dinode, update_self]

lemma OthersKept.contents_eq (kept : OthersKept n m m') (h : Sound sb m) (ne : k ≠ n) :
    m'.contents k = m.contents k := by
  rw [Image.contents, Image.contents, kept.inodes k ne]
  refine map_congr_left fun i mem => ?_
  have lt := mem_range.mp mem
  have some := h.filled k (i / bsize) (lt_of_le_of_lt (Nat.div_mul_le_self i bsize) lt)
  rw [byte, kept.places k ne, kept.contents k ne _ some]
  rfl

/-- What a call of `writei` does to the file. -/
structure Wrote (sb : Superblock) (n : Nat) (copies : Copies) (src : Nat → UInt8) (off count : Nat)
    (spill : Nat → Nat) (s s' : Op) (tot spilled : Nat) : Prop where
  sound : Sound sb s'.img
  bytes : ∀ i < (s'.img.dinode n).size, s'.img.byte n i =
    if off ≤ i ∧ i < off + (tot + spilled) then src (i - off) else s.img.byte n i
  size : (s'.img.dinode n).size = max (s.img.dinode n).size (off + tot)
  type : (s'.img.dinode n).type = (s.img.dinode n).type
  others : OthersKept n s.img s'.img
  ended : copies.Ended sb n off count spill s.img s'.img tot spilled

lemma Wrote.contents {s' : Op} {spilled : Nat}
    (wrote : Wrote sb n copies src off count spill s s' tot spilled)
    (start : off ≤ (s.img.dinode n).size) (clean : spilled = 0 ∨ (s.img.dinode n).size ≤ off + tot) :
    s'.img.contents n = writeAt (s.img.contents n) off ((List.range tot).map src) := by
  have size := wrote.size
  refine ext_getElem ?_ fun i lt lt' => ?_
  · rw [length_contents, size, length_writeAt (by rwa [length_contents]), length_contents,
      length_map, length_range]
  rw [length_contents] at lt
  have value := getD_writeAt (s.img.contents n) ((range tot).map src)
    (start.trans_eq (length_contents ..).symm) i
  rw [getD_eq_getElem?_getD, getElem?_eq_getElem lt', getD_some, length_map, length_range] at value
  rw [getElem_contents, value, wrote.bytes i lt]
  by_cases new : off ≤ i ∧ i < off + tot
  · grind
  rw [if_neg new, if_neg (by omega), getD_contents (by omega)]

lemma writei_bytes (h : Sound sb s.img) (fits : sb.size ≤ 2 ^ 32)
    (type : (s.img.dinode n).type ≠ .none) (uint : count < 2 ^ 32)
    (spills : copies.Spills src off count spill) :
    (writei sb n copies s off count = some (s, -1) ∧
      ((s.img.dinode n).size < off ∨ maxfile * bsize < off + count)) ∨
    (off ≤ (s.img.dinode n).size ∧ off + count ≤ maxfile * bsize ∧ ∃ s', ∃ tot spilled : Nat,
      writei sb n copies s off count = some (s', (tot : Int)) ∧
      Wrote sb n copies src off count spill s s' tot spilled) := by
  have sized := h.sized n
  unfold writei
  split_ifs with bad above
  · grind
  · grind
  have start : off ≤ (s.img.dinode n).size := not_lt.mp (not_or.mp bad).1
  have inside : off + count ≤ maxfile * bsize := by
    simp only [maxfile, ndirect, nindirect, bsize] at *
    omega
  obtain ⟨r, spilled, run, sound, grown, -, stop, ended, written⟩ := writeiLoop_bytes 0 off s h fits
    type (by rwa [Nat.sub_zero]) off rfl spills (Nat.zero_le _) (fun _ => .inl rfl)
    fun t less => absurd less (Nat.not_lt_zero t)
  refine .inr ⟨start, inside, r.1.iupdate sb n (max (s.img.dinode n).size r.2.2), r.2.1, spilled,
    by rw [run]; rfl, ?_⟩
  have same := r.1.iupdate_blockAt sb n (max (s.img.dinode n).size r.2.2)
  have size := r.1.iupdate_size sb n (max (s.img.dinode n).size r.2.2)
  have high := ended.le
  have type' : ((r.1.iupdate sb n (max (s.img.dinode n).size r.2.2)).img.dinode n).type =
      (r.1.img.dinode n).type := by rw [Op.iupdate, Op.logWrite, setInode_dinode, update_self]
  refine ⟨?_, fun i lt => ?_, by rw [size, stop], type'.trans grown.type,
    ⟨fun k ne => ?_, fun k ne l => ?_, grown.contents⟩, ended.le, ended.past, ended.why⟩
  · refine sound.setInode rfl rfl (max_le sized (by omega)) fun f low => ?_
    rcases lt_max_iff.mp low with old | new
    · refine sound.filled n f ?_
      rwa [grown.size]
    by_cases before : f * bsize < off
    · have some := h.filled n f (by omega)
      rwa [grown.kept _ some]
    have some := written.held (f * bsize) (by omega) (by omega)
    rwa [Nat.mul_div_cancel _ (by decide)] at some
  · rw [size] at lt
    have byte : (r.1.iupdate sb n (max (s.img.dinode n).size r.2.2)).img.byte n i =
        r.1.img.byte n i := by
      rw [byte, same]
      rfl
    rw [byte]
    split_ifs with new
    · rw [written.bytes i new.1 (by omega), Nat.zero_add]
    have old : i < (s.img.dinode n).size := by omega
    refine written.rest i (Nat.div_lt_of_lt_mul (by rw [Nat.mul_comm]; omega)) (by omega) ?_
    exact h.filled n _ (lt_of_le_of_lt (Nat.div_mul_le_self i bsize) old)
  · exact (update_of_ne ne ..).trans (grown.inodes k ne)
  rw [same]
  exact grown.places k ne l

lemma Wrote.all_moved {s' : Op} {spilled : Nat} (delivers : copies.Delivers src off count)
    (wrote : Wrote sb n copies src off count (fun _ => 0) s s' tot spilled) :
    spilled = 0 ∧ (tot < count → Starts off tot ∧ s'.img.Full sb ∧
      s.img.blockAt (n, slot ((off + tot) / bsize)) = 0) := by
  rcases wrote.ended.why with ⟨eq, zero⟩ | ⟨less, starts, ⟨zero, why⟩ | ⟨-, fault⟩⟩
  · exact ⟨zero, fun less => absurd eq less.ne⟩
  · exact ⟨zero, fun _ => ⟨starts, why⟩⟩
  · rw [(delivers tot less).1] at fault
    cases fault

lemma Sound.resize {size : Nat} (h : Sound sb m) (sized : size ≤ maxfile * bsize)
    (filled : ∀ f, f * bsize < size → m.blockAt (n, slot f) ≠ 0) :
    Sound sb (m.setInode n { m.dinode n with size }) := h.setInode rfl rfl sized filled

lemma writei_full (copies : Copies) (full : s.img.Full sb)
    (missing : s.img.blockAt (n, slot (off / bsize)) = 0) (start : off ≤ (s.img.dinode n).size)
    (some : 0 < count) (inside : off + count ≤ maxfile * bsize) :
    ∃ s', writei sb n copies s off count = .some (s', 0) := by
  have lt : off / bsize < maxfile := Nat.div_lt_of_lt_mul (by rw [Nat.mul_comm]; omega)
  have small : off + count < 2 ^ 32 := lt_of_le_of_lt inside (by decide)
  refine ⟨s.iupdate sb n (max (s.img.dinode n).size off), ?_⟩
  rw [writei, Nat.mod_eq_of_lt small, if_neg (by omega), if_neg (by omega), writeiLoop.eq_def,
    if_pos some, bmap_full full lt missing, bind_some, if_pos rfl]
  rfl

/-! ### Reading -/

lemma Sound.filled_contents (h : Sound sb s.img) (n : Nat) :
    Namei.Filled s n (s.img.contents n).length (s.img.contents n) := by
  intro i lt
  rw [length_contents] at lt
  have sized := h.sized n
  refine ⟨Nat.div_lt_of_lt_mul (by rw [Nat.mul_comm]; exact lt_of_lt_of_le lt sized), ?_, ?_⟩
  · exact h.filled n _ (lt_of_le_of_lt (Nat.div_mul_le_self i bsize) lt)
  rw [getD_contents lt]
  rfl

lemma readi_bytes (h : Sound sb s.img) (n off : Nat) (large : off < 2 ^ 32)
    (uint : count < 2 ^ 32) : Namei.readi sb n s off count =
    some (s, if off + count < 2 ^ 32 then ((s.img.contents n).drop off).take count else []) := by
  by_cases past : (s.img.dinode n).size < off
  · rw [Namei.readi, if_pos (.inl past), drop_eq_nil_of_le (by rw [length_contents]; omega),
      take_nil, ite_self]
  split_ifs with wrap
  · exact Namei.readi_file (h.filled_contents n) (length_contents ..).symm
      (by rw [length_contents]; omega) wrap
  rw [Namei.readi, if_pos (.inr (by omega))]

/-- An inode is an array of bytes. `writei` refuses a range that does not start in or right behind
the file or goes over the largest size, and otherwise replaces bytes of this file only, all of them
unless the disk is full; `readi` gives the bytes of the range and changes nothing. -/
theorem inode_is_byte_array (n off count : Nat) (copies : Copies) (src : Nat → UInt8)
    (h : Sound sb s.img) (fits : sb.size ≤ 2 ^ 32)
    (type : (s.img.dinode n).type ≠ .none) (large : off < 2 ^ 32) (uint : count < 2 ^ 32)
    (delivers : copies.Delivers src off count) :
    ((writei sb n copies s off count = some (s, -1) ∧
        ((s.img.dinode n).size < off ∨ maxfile * bsize < off + count)) ∨
      ∃ s', ∃ tot : Nat, writei sb n copies s off count = some (s', (tot : Int)) ∧ tot ≤ count ∧
        off ≤ (s.img.dinode n).size ∧
        s'.img.contents n = writeAt (s.img.contents n) off ((List.range tot).map src) ∧
        (s'.img.dinode n).size = max (s.img.dinode n).size (off + tot) ∧
        (∀ k, k ≠ n → s'.img.dinode k = s.img.dinode k ∧
          s'.img.contents k = s.img.contents k) ∧
        (tot < count → s'.img.Full sb) ∧ Sound sb s'.img) ∧
    Namei.readi sb n s off count = some (s,
      if off + count < 2 ^ 32 then ((s.img.contents n).drop off).take count else []) := by
  refine ⟨?_, readi_bytes h n off large uint⟩
  rcases writei_bytes h fits type uint delivers.spills with
    ⟨run, why⟩ | ⟨start, -, s', tot, spilled, run, wrote⟩
  · exact .inl ⟨run, why⟩
  obtain ⟨zero, short⟩ := wrote.all_moved delivers
  exact .inr ⟨s', tot, run, wrote.ended.le, start, wrote.contents start (.inl zero), wrote.size,
    fun k ne => ⟨wrote.others.inodes k ne, wrote.others.contents_eq h ne⟩,
    fun less => (short less).2.1, wrote.sound⟩

def oneFile : Op :=
  ⟨(emptyImage fsSb).setInode 1 { zeroDinode with type := .file }, []⟩

lemma oneFile_sound : Sound fsSb oneFile.img := (emptyImage_sound _).ialloc rfl .file

theorem oneFile_is_byte_array : ∃ s', ∃ tot : Nat,
    writei fsSb 1 (kernelSource (fun _ => 7) 0 5) oneFile 0 5 = some (s', (tot : Int)) ∧
      s'.img.contents 1 = writeAt [] 0 ((List.range tot).map fun _ => 7) := by
  obtain ⟨⟨-, why⟩ | ⟨s', tot, run, -, -, contents, -⟩, -⟩ := inode_is_byte_array 1 0 5
    (kernelSource (fun _ => 7) 0 5) (fun _ => 7) oneFile_sound (by decide) (by decide) (by decide)
    (by decide) fun _ _ => ⟨rfl, fun _ => rfl⟩
  · exact absurd why (by decide)
  · exact ⟨s', tot, run, contents⟩

end Xv6.Fs
