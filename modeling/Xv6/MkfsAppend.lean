import Mathlib.Algebra.Order.BigOperators.Group.Finset
import Mathlib.Data.List.GetD
import Xv6.Mkfs

/-! What `iappend` of mkfs.c does to the image: the blocks handed out by the counter, the slots of
each file and the bytes behind them. -/
namespace Xv6.Mkfs
open Fs List Prod Image
open Function (update update_eq_self update_idem update_of_ne update_self)

/-- The blocks from `nmeta` up to the counter are each at one place; the blocks behind it are still
zero. -/
structure Layout (m : Image) (fb : Nat) : Prop where
  exact : Ownership.Exact 0 m.blockAt {b | nmeta ≤ b ∧ b < fb}
  zero : ∀ b, fb ≤ b → m.block b = zeroBlock
  lower : nmeta ≤ fb
  upper : fb ≤ fssize

section
variable {m : Image} {fb n : Nat}

lemma live_succ (lower : nmeta ≤ fb) :
    {b | nmeta ≤ b ∧ b < fb + 1} = insert fb {b | nmeta ≤ b ∧ b < fb} := by
  ext b
  simp only [Set.mem_ofPred_eq, Set.mem_insert_iff]
  omega

section
variable (l : Layout m fb)
include l

lemma Layout.give {p : Place} (empty : m.blockAt p = 0) :
    Ownership.Exact 0 (update m.blockAt p fb) {b | nmeta ≤ b ∧ b < fb + 1} := by
  have lower := l.lower
  rw [live_succ lower]
  refine l.exact.give empty (fun mem => Nat.lt_irrefl _ mem.2) ?_
  simp only [nmeta] at lower
  omega

lemma Layout.direct {k : Fin ndirect} (empty : m.blockAt (n, .direct k) = 0)
    (room : fb < fssize) : Layout (m.setInode n ((m.dinode n).setAddr k fb)) (fb + 1) := by
  refine ⟨?_, fun b le => l.zero b (by omega), Nat.le_succ_of_le l.lower, room⟩
  rw [blockAt_setDirect]
  exact l.give empty

lemma Layout.indirect (empty : m.blockAt (n, .indirect) = 0) (room : fb < fssize) :
    Layout (m.setInode n ((m.dinode n).setAddr ndirect fb)) (fb + 1) ∧ (m.setInode n
    ((m.dinode n).setAddr ndirect fb)).blockAt = update m.blockAt (n, .indirect) fb := by
  have changed := blockAt_setIndirect (b := fb) empty fun j => by
    rw [l.zero fb le_rfl]
    exact word_zeroBlock j
  refine ⟨⟨?_, fun b le => l.zero b (by omega), Nat.le_succ_of_le l.lower, room⟩, changed⟩
  rw [changed]
  exact l.give empty

lemma Layout.indirect_inj {n' x : Nat} (some : x ≠ 0) (here : m.blockAt (n, .indirect) = x)
    (there : m.blockAt (n', .indirect) = x) : n' = n := by
  have same := l.exact.distinct (n', .indirect) (n, .indirect) (there ▸ some)
    (there.trans here.symm)
  exact congrArg fst same

lemma Layout.entry {x : Nat} (j : Fin nindirect) (here : m.blockAt (n, .indirect) = x)
    (some : x ≠ 0) (empty : m.blockAt (n, .entry j) = 0) (room : fb < fssize) :
    Layout (m.setBlock x (setWord (m.block x) j fb)) (fb + 1) ∧
    (m.setBlock x (setWord (m.block x) j fb)).blockAt = update m.blockAt (n, .entry j) fb := by
  have changed := blockAt_setWord (b := fb) j here some (fun n' there => l.indirect_inj some here
    there) (lt_of_lt_of_le room (by decide))
  have below := l.exact.used (n, .indirect) (here ▸ some)
  rw [here] at below
  refine ⟨⟨?_, fun b le => ?_, Nat.le_succ_of_le l.lower, room⟩, changed⟩
  · rw [changed]
    exact l.give empty
  rw [setBlock_block, update_of_ne]
  · exact l.zero b (by omega)
  have := below.2
  omega

lemma Layout.leaf {f : Nat} (fits : f < maxfile) (some : m.blockAt (n, slot f) ≠ 0) (n' : Nat) :
    m.blockAt (n', .indirect) ≠ m.blockAt (n, slot f) := by
  intro eq
  have same := l.exact.distinct (n, slot f) (n', .indirect) some eq.symm
  exact slot_ne_indirect fits (congrArg snd same)

lemma Layout.write {f : Nat} (fits : f < maxfile) (some : m.blockAt (n, slot f) ≠ 0)
    (v : Block) : Layout (m.setBlock (m.blockAt (n, slot f)) v) fb ∧
    (m.setBlock (m.blockAt (n, slot f)) v).blockAt = m.blockAt := by
  have same : (m.setBlock (m.blockAt (n, slot f)) v).blockAt = m.blockAt :=
    blockAt_setBlock fun n' => l.leaf fits some n'
  have below := (l.exact.used (n, slot f) some).2
  refine ⟨⟨?_, fun b le => ?_, l.lower, l.upper⟩, same⟩
  · rw [same]
    exact l.exact
  rw [setBlock_block, update_of_ne (by omega)]
  exact l.zero b le

end

end

def need (len : Nat) : Nat := (len + 1023) / 1024 + if 12288 < len then 1 else 0

/-- The slots of inode `n` are filled as far as its bytes reach, and hold these bytes with zeros
behind them. -/
structure Holds (m : Image) (n : Nat) (c : List UInt8) : Prop where
  slots : ∀ f < maxfile, m.blockAt (n, slot f) ≠ 0 ↔ f * 1024 < c.length
  indirect : m.blockAt (n, .indirect) ≠ 0 ↔ 12288 < c.length
  bytes : ∀ i, m.blockAt (n, slot (i / 1024)) ≠ 0 → i / 1024 < maxfile →
    m.block (m.blockAt (n, slot (i / 1024))) (i % 1024) = c.getD i 0
  fits : c.length ≤ maxfile * 1024

/-- The effect of finding the block for slot `f` of inode `n`. -/
structure Mapped (m m' : Image) (n f : Nat) : Prop where
  kept : ∀ p, m.blockAt p ≠ 0 → m'.blockAt p = m.blockAt p
  only : ∀ p, p ≠ (n, slot f) → (p = (n, .indirect) → f < ndirect) → m'.blockAt p = m.blockAt p
  here : m'.blockAt (n, slot f) ≠ 0
  chain : ndirect ≤ f → m'.blockAt (n, .indirect) ≠ 0
  data : ∀ p, m.blockAt p ≠ 0 → p.2 ≠ .indirect → m'.block (m.blockAt p) = m.block (m.blockAt p)
  fresh : m.blockAt (n, slot f) = 0 → m'.block (m'.blockAt (n, slot f)) = zeroBlock

variable {m : Image}

lemma Mapped.refl {n f : Nat} (here : m.blockAt (n, slot f) ≠ 0)
    (chain : ndirect ≤ f → m.blockAt (n, .indirect) ≠ 0) : Mapped m m n f :=
  ⟨fun _ _ => rfl, fun _ _ _ => rfl, here, chain, fun _ _ _ => rfl, fun none => absurd none here⟩

lemma blockAt_entry_of_indirect {n : Nat} (none : m.blockAt (n, .indirect) = 0)
    (j : Fin nindirect) : m.blockAt (n, .entry j) = 0 := if_pos none

lemma blockAt_entry {n : Nat} (some : m.blockAt (n, .indirect) ≠ 0) (j : Fin nindirect) :
    m.blockAt (n, .entry j) = word (m.block (m.blockAt (n, .indirect))) j :=
  if_neg some

section
variable {m m' : Image} {fb n f : Nat} {c p : List UInt8}

lemma copyAt_apply (b : Block) {off i : Nat} (p : List UInt8) :
    copyAt b off p i = if off ≤ i ∧ i < off + p.length then p.getD (i - off) 0 else b i := by
  rw [copyAt]
  by_cases le : off ≤ i
  · rw [if_pos le]
    by_cases lt : i < off + p.length
    · grind
    rw [if_neg fun h => lt h.2, List.getElem?_eq_none (by omega)]
    rfl
  rw [if_neg le, if_neg fun h => le h.1]

lemma Holds.other {k : Nat} (h : Holds m k c) (l : Layout m' fb)
    (mapped : Mapped m m' n f) (small : f < maxfile) (other : k ≠ n) (v : Block) :
    Holds (m'.setBlock (m'.blockAt (n, slot f)) v) k c := by
  have same : ∀ loc, m'.blockAt (k, loc) = m.blockAt (k, loc) := fun loc => mapped.only _ (fun eq =>
    other (congrArg fst eq)) fun eq => absurd (congrArg fst eq) other
  have places := (l.write small mapped.here v).2
  refine ⟨fun g fits => ?_, ?_, fun i some fits => ?_, h.fits⟩
  · rw [places, same]
    exact h.slots g fits
  · rw [places, same]
    exact h.indirect
  rw [places, same] at some
  rw [places, same, setBlock_block, update_of_ne]
  · rw [mapped.data _ some (slot_ne_indirect fits)]
    exact h.bytes i some fits
  rw [← same] at some ⊢
  exact fun eq => other (congrArg fst (l.exact.distinct _ _ some eq))

lemma Holds.append (h : Holds m n c) (l : Layout m' fb) (block : f = c.length / 1024)
    (mapped : Mapped m m' n f) (small : f < maxfile) (some : p ≠ [])
    (inside : c.length % 1024 + p.length ≤ 1024) : Holds (m'.setBlock (m'.blockAt (n, slot f))
    (copyAt (m'.block (m'.blockAt (n, slot f))) (c.length % 1024) p)) n (c ++ p) := by
  have pos := length_pos_of_ne_nil some
  have split := Nat.div_add_mod c.length 1024
  have places := (l.write small mapped.here
    (copyAt (m'.block (m'.blockAt (n, slot f))) (c.length % 1024) p)).2
  have same : ∀ g < maxfile, g ≠ f → m'.blockAt (n, slot g) = m.blockAt (n, slot g) := fun g fits ne
    => mapped.only _ (fun eq => ne (slot_injective fits small (congrArg snd eq))) fun eq =>
    absurd (congrArg snd eq) (slot_ne_indirect fits)
  refine ⟨fun g fits => ?_, ?_, fun i here fits => ?_, ?_⟩
  · rw [places, length_append]
    by_cases eq : g = f
    · subst eq
      exact iff_of_true mapped.here (by omega)
    rw [same g fits eq, h.slots g fits]
    omega
  · rw [places, length_append]
    by_cases large : ndirect ≤ f
    · refine iff_of_true (mapped.chain large) ?_
      simp only [ndirect] at large
      omega
    have less : f < ndirect := by omega
    rw [mapped.only _ (fun eq => slot_ne_indirect small (congrArg snd eq).symm)
      fun _ => less, h.indirect]
    simp only [ndirect] at less
    omega
  · rw [places] at here
    rw [places, setBlock_block]
    by_cases eq : i / 1024 = f
    · -- the block that was written
      rw [eq, update_self, copyAt_apply]
      have old : m'.block (m'.blockAt (n, slot f)) (i % 1024) = c.getD i 0 := by
        by_cases zero : m.blockAt (n, slot f) = 0
        · have beyond := mt (h.slots f small).mpr (not_not.mpr zero)
          rw [mapped.fresh zero, getD_eq_default _ _ (by omega)]
          rfl
        rw [mapped.kept _ zero, mapped.data _ zero (slot_ne_indirect small)]
        have old := h.bytes i
        rw [eq] at old
        exact old zero small
      split_ifs with new
      · rw [getD_append_right _ _ _ _ (by omega)]
        exact congrArg (fun j => p.getD j 0) (by omega)
      rw [old]
      by_cases before : i < c.length
      · rw [getD_append _ _ _ _ before]
      rw [getD_eq_default _ _ (by omega), getD_eq_default _ _ (by rw [length_append]; omega)]
    rw [same _ fits eq] at here
    rw [same _ fits eq, update_of_ne]
    · rw [mapped.data _ here (slot_ne_indirect fits), h.bytes i here fits]
      have reach := (h.slots _ fits).mp here
      have before : i < c.length := by omega
      rw [getD_append _ _ _ _ before]
    rw [← same _ fits eq] at here ⊢
    exact fun clash => eq (slot_injective fits small
      (congrArg snd (l.exact.distinct _ _ here clash)))
  rw [length_append]
  simp only [maxfile, ndirect, nindirect] at small ⊢
  omega

def cost (m : Image) (n f : Nat) : Nat :=
  (if m.blockAt (n, slot f) = 0 then 1 else 0) +
    if ndirect ≤ f ∧ m.blockAt (n, .indirect) = 0 then 1 else 0

/-- What a search for a block leaves of the state besides the image. -/
structure Found (s s' : State) (din din' : Dinode) (n f x : Nat) : Prop where
  layout : Layout (s'.img.setInode n din') s'.freeblock
  mapped : Mapped (s.img.setInode n din) (s'.img.setInode n din') n f
  block : x = (s'.img.setInode n din').blockAt (n, slot f)
  count : s'.freeblock = s.freeblock + cost (s.img.setInode n din) n f
  inode : s'.freeinode = s.freeinode
  disk : s'.img.dinode = s.img.dinode
  copy : din' = { din with addrs := din'.addrs }

variable {s : State} {din : Dinode}

lemma setInode_setAddr (img : Image) (k b : Nat) : img.setInode n (din.setAddr k b) =
    (img.setInode n din).setInode n (((img.setInode n din).dinode n).setAddr k b) := by
  simp only [setInode, update_self, update_idem]

section
variable (l : Layout (s.img.setInode n din) s.freeblock)
include l

lemma found_direct (small : f < ndirect)
    (room : s.freeblock + cost (s.img.setInode n din) n f ≤ fssize) :
    ∃ x din' s', blockFor s din f = some (x, din', s') ∧ Found s s' din din' n f x := by
  have slot_eq := slot_direct small
  have near : ¬ ndirect ≤ f := Nat.not_le.mpr small
  have at' : (s.img.setInode n din).blockAt (n, slot f) = din.addrs f := by
    rw [slot_eq]
    simp [blockAt]
  rw [blockFor, if_pos small, addr]
  split_ifs with zero
  · have count : cost (s.img.setInode n din) n f = 1 := by
      rw [cost, if_pos (at'.trans zero), if_neg fun h => near h.1]
    rw [count] at room
    have changed := blockAt_setDirect (m := s.img.setInode n din) (n := n) (b := s.freeblock)
      ⟨f, small⟩
    rw [← setInode_setAddr, ← slot_eq] at changed
    have layout := l.direct (n := n) (k := ⟨f, small⟩) (by rw [← slot_eq, at', zero]) room
    rw [← setInode_setAddr] at layout
    refine ⟨_, _, _, rfl, layout, ⟨fun q some => ?_, fun q ne _ => ?_, ?_,
      fun large => absurd large near, fun _ _ _ => rfl, fun _ => ?_⟩, ?_, ?_, rfl, rfl, rfl⟩
    · change (s.img.setInode n (din.setAddr f s.freeblock)).blockAt q = _
      rw [changed, update_of_ne]
      rintro rfl
      exact some (at'.trans zero)
    · change (s.img.setInode n (din.setAddr f s.freeblock)).blockAt q = _
      rw [changed, update_of_ne ne]
    · change (s.img.setInode n (din.setAddr f s.freeblock)).blockAt _ ≠ 0
      rw [changed, update_self]
      have lower := l.lower
      simp only [nmeta] at lower
      omega
    · change (s.img.setInode n (din.setAddr f s.freeblock)).block
        ((s.img.setInode n (din.setAddr f s.freeblock)).blockAt _) = _
      rw [changed, update_self]
      exact l.zero s.freeblock le_rfl
    · change _ = (s.img.setInode n (din.setAddr f s.freeblock)).blockAt _
      rw [changed, update_self, Dinode.setAddr_addrs, update_self]
    rw [count]
    rfl
  have count : cost (s.img.setInode n din) n f = 0 := by
    rw [cost, if_neg (at' ▸ zero), if_neg fun h => near h.1]
  exact ⟨_, _, _, rfl, l, .refl (at' ▸ zero) fun large => absurd large near, at'.symm,
    by rw [count]; rfl, rfl, rfl, rfl⟩

lemma addr_indirect (room : din.addrs ndirect = 0 → s.freeblock < fssize) :
    ∃ din' s', addr s din ndirect = (din', s') ∧ s'.img = s.img ∧
      s'.freeinode = s.freeinode ∧ din' = { din with addrs := din'.addrs } ∧
      s'.freeblock = s.freeblock + (if din.addrs ndirect = 0 then 1 else 0) ∧
      Layout (s.img.setInode n din') s'.freeblock ∧ din'.addrs ndirect ≠ 0 ∧
      (∀ q, (s.img.setInode n din).blockAt q ≠ 0 ∨ q ≠ (n, .indirect) →
        (s.img.setInode n din').blockAt q = (s.img.setInode n din).blockAt q) := by
  have at' : (s.img.setInode n din).blockAt (n, .indirect) = din.addrs ndirect := by
    simp [blockAt]
  rw [addr]
  split_ifs with zero
  · obtain ⟨layout, changed⟩ := l.indirect (n := n) (at'.trans zero) (room zero)
    rw [← setInode_setAddr] at layout changed
    refine ⟨_, _, rfl, rfl, rfl, rfl, rfl, layout, ?_, fun q kept => ?_⟩
    · rw [Dinode.setAddr_addrs, update_self]
      have lower := l.lower
      simp only [nmeta] at lower
      omega
    rw [changed, update_of_ne]
    rintro rfl
    exact kept.elim (fun some => some (at'.trans zero)) fun ne => ne rfl
  exact ⟨_, _, rfl, rfl, rfl, rfl, rfl, l, zero, fun _ _ => rfl⟩

lemma found_entry (large : ¬ f < ndirect) (fits : f < maxfile)
    (room : s.freeblock + cost (s.img.setInode n din) n f ≤ fssize) :
    ∃ x din' s', blockFor s din f = some (x, din', s') ∧ Found s s' din din' n f x := by
  have slot_eq := slot_entry large (entry_lt fits)
  have far : ndirect ≤ f := Nat.le_of_not_lt large
  have ind : (s.img.setInode n din).blockAt (n, .indirect) = din.addrs ndirect := by
    simp [blockAt]
  have enough : din.addrs ndirect = 0 → s.freeblock < fssize := by
    intro zero
    rw [cost, if_pos (c := ndirect ≤ f ∧ _) ⟨far, ind.trans zero⟩] at room
    omega
  obtain ⟨din₁, s₁, step, img, inode, copy, count, l₁, some, kept⟩ := addr_indirect l enough
  have x_eq : (s.img.setInode n din₁).blockAt (n, .indirect) = din₁.addrs ndirect := by
    simp [blockAt]
  have below : din₁.addrs ndirect < fssize := by
    have live := (l₁.exact.used (n, .indirect) (x_eq ▸ some)).2
    rw [x_eq] at live
    exact lt_of_lt_of_le live l₁.upper
  have entry : (s.img.setInode n din₁).blockAt (n, slot f) =
      word (s.img.block (din₁.addrs ndirect)) (f - ndirect) := by
    rw [slot_eq, blockAt_entry (x_eq ▸ some), x_eq]
    rfl
  have slot_kept : (s.img.setInode n din₁).blockAt (n, slot f) = (s.img.setInode n din).blockAt (n,
    slot f) := kept _ (.inr fun eq => slot_ne_indirect fits (congrArg snd eq))
  rw [blockFor, if_neg large, step]
  simp only [img, below, if_true]
  split_ifs with zero
  · have empty : (s.img.setInode n din).blockAt (n, slot f) = 0 :=
      slot_kept.symm.trans (entry.trans zero)
    have total : s₁.freeblock + 1 = s.freeblock + cost (s.img.setInode n din) n f := by
      rw [cost, if_pos empty, ind, count]
      simp only [far, true_and]
      omega
    obtain ⟨layout, changed⟩ := l₁.entry ⟨f - ndirect, entry_lt fits⟩ x_eq some
      (by rw [← slot_eq, entry, zero]) (by omega)
    rw [← slot_eq] at changed
    have final : (s₁.setBlock (din₁.addrs ndirect) (setWord (s.img.block (din₁.addrs ndirect))
        (f - ndirect) s₁.freeblock)).bump.img.setInode n din₁ =
        (s.img.setInode n din₁).setBlock (din₁.addrs ndirect)
          (setWord (s.img.block (din₁.addrs ndirect)) (f - ndirect) s₁.freeblock) := by
      rw [State.bump, State.setBlock, img]
      rfl
    refine ⟨_, _, _, rfl, final ▸ layout, ⟨fun q held => ?_, fun q ne ind' => ?_, ?_, fun _ => ?_,
      fun q held leaf => ?_, fun _ => ?_⟩, ?_, total, inode, ?_, copy⟩
    · rw [final]
      refine (congrFun changed q).trans ?_
      rw [update_of_ne, kept q (.inl held)]
      rintro rfl
      exact held empty
    · rw [final]
      refine (congrFun changed q).trans ?_
      rw [update_of_ne ne, kept q (.inr fun eq => large (ind' eq))]
    · rw [final]
      refine fun h => ?_
      have value := (congrFun changed (n, slot f)).symm.trans h
      rw [update_self] at value
      have lower := l₁.lower
      simp only [nmeta] at lower
      omega
    · rw [final]
      refine fun h => ?_
      have value := (congrFun changed (n, .indirect)).symm.trans h
      rw [update_of_ne fun eq => slot_ne_indirect fits (congrArg snd eq).symm, x_eq] at value
      exact some value
    · rw [final, setBlock_block, update_of_ne]
      · rfl
      intro eq
      have same := kept q (.inl held)
      rw [← same] at held eq
      have place := l₁.exact.distinct q (n, .indirect) held (eq.trans x_eq.symm)
      exact leaf (congrArg snd place)
    · have value := congrFun changed (n, slot f)
      rw [update_self] at value
      have live := (l₁.exact.used (n, .indirect) (x_eq ▸ some)).2
      rw [x_eq] at live
      rw [final]
      refine (congrArg _ value).trans ?_
      rw [setBlock_block, update_of_ne (Nat.ne_of_gt live)]
      exact l₁.zero _ le_rfl
    · rw [final]
      refine ((congrFun changed (n, slot f)).trans ?_).symm
      rw [update_self]
    rw [State.bump, State.setBlock, img]
    rfl
  have held : (s.img.setInode n din).blockAt (n, slot f) ≠ 0 :=
    fun h => zero (entry.symm.trans (slot_kept.trans h))
  have chained : din.addrs ndirect ≠ 0 := by
    intro none
    rw [slot_eq] at held
    exact held (blockAt_entry_of_indirect (ind.trans none) _)
  have total : s₁.freeblock = s.freeblock + cost (s.img.setInode n din) n f := by
    rw [cost, if_neg held, ind, count, if_neg chained, if_neg fun h => chained h.2]
  refine ⟨_, _, _, rfl, ?_, ⟨fun q held => ?_, fun q _ ind' => ?_, ?_, fun _ => ?_,
    fun _ _ _ => ?_, fun none => absurd none held⟩, ?_, total, inode, by rw [img], copy⟩
  · rw [img]
    exact l₁
  · rw [img]
    exact kept q (.inl held)
  · rw [img]
    exact kept q (.inr fun eq => large (ind' eq))
  · rw [img, slot_kept]
    exact held
  · rw [img, x_eq]
    exact some
  · rw [img]
    rfl
  rw [img, entry]

lemma blockFor_found (fits : f < maxfile)
    (room : s.freeblock + cost (s.img.setInode n din) n f ≤ fssize) :
    ∃ x din' s', blockFor s din f = some (x, din', s') ∧ Found s s' din din' n f x := by
  by_cases small : f < ndirect
  · exact found_direct l small room
  exact found_entry l small fits room

end

end

def total (c : Nat → List UInt8) : Nat := ∑ k ∈ Finset.range ninodes, need (c k).length

/-- The image holds the files `c`, in as many blocks as they need. -/
structure Made (m : Image) (fb : Nat) (c : Nat → List UInt8) : Prop where
  layout : Layout m fb
  holds : ∀ k, Holds m k (c k)
  count : fb = nmeta + total c

section
variable {m m' : Image} {fb n : Nat} {c : Nat → List UInt8} {p q : List UInt8}

lemma need_mono {a b : Nat} (le : a ≤ b) : need a ≤ need b := by
  rw [need, need]
  split_ifs <;> omega

lemma need_append (h : Holds m n p) (some : q ≠ [])
    (inside : p.length % 1024 + q.length ≤ 1024) (small : p.length / 1024 < maxfile) :
    need (p ++ q).length = need p.length + cost m n (p.length / 1024) := by
  have pos := length_pos_of_ne_nil some
  have filled : m.blockAt (n, slot (p.length / 1024)) = 0 ↔ ¬ p.length / 1024 * 1024 < p.length := by
    rw [← h.slots _ small, not_not]
  have chained : m.blockAt (n, .indirect) = 0 ↔ ¬ 12288 < p.length := by rw [← h.indirect, not_not]
  rw [cost, need, need, length_append]
  simp only [filled, chained, ndirect]
  split_ifs <;> omega

lemma total_update (mem : n < ninodes) (x : List UInt8) :
    total (update c n x) + need (c n).length = total c + need x.length := by
  have inside : n ∈ Finset.range ninodes := Finset.mem_range.mpr mem
  rw [total, total, ← Finset.add_sum_erase _ _ inside, ← Finset.add_sum_erase _ _ inside,
    update_self]
  have rest : ∑ k ∈ (Finset.range ninodes).erase n, need (update c n x k).length =
      ∑ k ∈ (Finset.range ninodes).erase n, need (c k).length := by
    refine Finset.sum_congr rfl fun k mem => ?_
    rw [update_of_ne (Finset.ne_of_mem_erase mem)]
  rw [rest]
  omega

lemma Made.congr (h : Made m fb c) (places : m'.blockAt = m.blockAt)
    (blocks : m'.block = m.block) : Made m' fb c := by
  obtain ⟨layout, holds, count⟩ := h
  refine ⟨⟨places ▸ layout.exact, fun b le => ?_, layout.lower, layout.upper⟩, fun k => ?_, count⟩
  · rw [blocks]
    exact layout.zero b le
  obtain ⟨slots, indirect, bytes, fits⟩ := holds k
  exact ⟨by rwa [places], by rwa [places], by rwa [places, blocks], fits⟩

lemma Made.round {s s' : State} {din din' : Dinode}
    {x : Nat} (h : Made (s.img.setInode n din) s.freeblock c)
    (found : Found s s' din din' n ((c n).length / 1024) x)
    (mem : n < ninodes) (small : (c n).length / 1024 < maxfile)
    (some : p ≠ []) (inside : (c n).length % 1024 + p.length ≤ 1024) :
    Made ((s'.setBlock x (copyAt (s'.img.block x) ((c n).length % 1024) p)).img.setInode n din')
    s'.freeblock (update c n (c n ++ p)) := by
  have block := found.block
  have layout := (found.layout.write small found.mapped.here
    (copyAt (s'.img.block x) ((c n).length % 1024) p)).1
  rw [← block] at layout
  refine ⟨layout, fun k => ?_, ?_⟩
  · by_cases same : k = n
    · subst same
      rw [update_self]
      have append := (h.holds k).append found.layout rfl found.mapped small some inside
      rw [← block] at append
      exact append
    rw [update_of_ne same]
    have other := (h.holds k).other found.layout found.mapped small same
      (copyAt (s'.img.block x) ((c n).length % 1024) p)
    rw [← block] at other
    exact other
  have more := need_append (h.holds n) some inside small
  have sum := total_update (c := c) mem (c n ++ p)
  have count := h.count
  rw [found.count]
  omega

lemma iappendLoop_spec {s : State} (din : Dinode) (fuel : Nat) (enough : p.length ≤ fuel)
    (h : Made (s.img.setInode n din) s.freeblock c) (mem : n < ninodes)
    (fits : (c n).length + p.length ≤ maxfile * 1024)
    (room : nmeta + total (update c n (c n ++ p)) ≤ fssize) :
    ∃ s' din', iappendLoop fuel s din (c n).length p = some (s', din', (c n).length + p.length) ∧
    Made (s'.img.setInode n din') s'.freeblock (update c n (c n ++ p)) ∧
    s'.freeinode = s.freeinode ∧ s'.img.dinode = s.img.dinode ∧
    din' = { din with addrs := din'.addrs } := by
  induction fuel generalizing s din c p with
  | zero =>
    obtain rfl := eq_nil_of_length_eq_zero (Nat.le_zero.mp enough)
    rw [append_nil, update_eq_self]
    exact ⟨s, din, rfl, h, rfl, rfl, rfl⟩
  | succ fuel ih =>
    cases p with
    | nil =>
      rw [append_nil, update_eq_self]
      exact ⟨s, din, rfl, h, rfl, rfl, rfl⟩
    | cons b p =>
      have split := Nat.div_add_mod (c n).length 1024
      have small : (c n).length / 1024 < maxfile := by grind
      -- the bytes of this round
      generalize part : min (b :: p).length
        (((c n).length / bsize + 1) * bsize - (c n).length) = n1
      have n1_pos : 0 < n1 := by
        rw [← part, length_cons, bsize]
        omega
      have n1_le : n1 ≤ (b :: p).length := part ▸ Nat.min_le_left _ _
      have taken : ((b :: p).take n1).length = n1 := by
        rw [length_take]
        omega
      have some : (b :: p).take n1 ≠ [] := ne_nil_of_length_pos (by rwa [taken])
      have inside : (c n).length % 1024 + ((b :: p).take n1).length ≤ 1024 := by
        rw [taken, ← part, bsize]
        omega
      have whole : c n ++ (b :: p).take n1 ++ (b :: p).drop n1 = c n ++ b :: p := by
        rw [append_assoc, take_append_drop]
      have grown := total_update (c := c) mem (c n ++ (b :: p).take n1)
      have grown' := total_update (c := c) mem (c n ++ b :: p)
      have more := need_append (h.holds n) some inside small
      have less : need (c n ++ (b :: p).take n1).length ≤ need (c n ++ b :: p).length := by
        refine need_mono ?_
        rw [length_append, length_append, taken]
        omega
      have count := h.count
      obtain ⟨x, din₁, s₁, found_eq, found⟩ := blockFor_found h.layout small (by omega)
      have below : x < fssize := by
        have live := (found.layout.exact.used _ found.mapped.here).2
        rw [← found.block] at live
        exact lt_of_lt_of_le live found.layout.upper
      have round := h.round found mem small some inside
      have here : (update c n (c n ++ (b :: p).take n1) n).length =
          (c n).length + n1 := by rw [update_self, length_append, taken]
      have rest := ih (p := (b :: p).drop n1) din₁ (by rw [length_drop]; omega) round
        (by rw [here, length_drop]; omega) (by rw [update_self, whole, update_idem]; exact room)
      obtain ⟨s', din', run, made, inode, disk, copy⟩ := rest
      rw [here, length_drop] at run
      rw [update_self, whole, update_idem] at made
      refine ⟨s', din', ?_, made, inode.trans found.inode, disk.trans found.disk, ?_⟩
      · rw [iappendLoop]
        simp only [bsize] at part
        simp only [bsize, small, if_true, found_eq, below, part]
        rw [show (c n).length - (c n).length / 1024 * 1024 = (c n).length % 1024 by omega,
          run, show (c n).length + n1 + ((b :: p).length - n1) =
            (c n).length + (b :: p).length by omega]
      rw [copy, found.copy]

lemma iappend_spec {s : State} (h : Made s.img s.freeblock c) (mem : n < ninodes)
    (size : (s.img.dinode n).size = (c n).length) (fits : (c n).length + p.length ≤ maxfile * 1024)
    (room : nmeta + total (update c n (c n ++ p)) ≤ fssize) : ∃ s', iappend s n p = some s' ∧
    Made s'.img s'.freeblock (update c n (c n ++ p)) ∧ s'.freeinode = s.freeinode ∧ (∀ k,
    (s'.img.dinode k).size = (update (fun k => (s.img.dinode k).size) n ((c n).length + p.length))
    k) ∧ ∀ k, (s'.img.dinode k).type = (s.img.dinode k).type := by
  have same : s.img.setInode n (s.img.dinode n) = s.img := by rw [setInode, update_eq_self]
  obtain ⟨s', din', run, made, inode, disk, copy⟩ :=
    iappendLoop_spec (s.img.dinode n) p.length le_rfl (same.symm ▸ h) mem fits room
  rw [iappend]
  simp only [size, run, Option.map_some]
  refine ⟨_, rfl, made.congr ?_ rfl, inode, fun k => ?_, fun k => ?_⟩
  · have twice : s'.img.setInode n { din' with size := (c n).length + p.length } =
        (s'.img.setInode n din').setInode n { din' with size := (c n).length + p.length } := by
      simp only [setInode, update_idem]
    refine (congrArg blockAt twice).trans (blockAt_setInode ?_)
    rw [setInode_dinode, update_self]
  · by_cases eq : k = n
    · subst eq
      simp only [setInode_dinode, update_self]
    simp only [setInode_dinode, update_of_ne eq, disk]
  by_cases eq : k = n
  · subst eq
    simp only [setInode_dinode, update_self]
    rw [copy]
  simp only [setInode_dinode, update_of_ne eq, disk]

end
end Xv6.Mkfs
