import Xv6.FileBytes

/-! Directories as maps: `dirlookup` and `dirlink` of fs.c and the clearing of an entry by
`sys_unlink`, on a directory inode whose entries are in its bytes. -/
namespace Xv6.Namei
open Fs Mkfs Interleaving List Option
open Tiling (writeAt length_writeAt)
open Function (update update_apply update_eq_self_iff update_of_ne update_self)

def strncpy : Nat → List UInt8 → List UInt8
  | 0, _ => []
  | n + 1, t =>
    if t.headD 0 = 0 then List.replicate (n + 1) 0 else t.headD 0 :: strncpy n t.tail

/-- The bytes of the `struct dirent` that `dirlink` writes; `inum` is a `ushort` there. -/
def newDirent (name : List UInt8) (inum : Nat) : List UInt8 :=
  [UInt8.ofNat inum, UInt8.ofNat (inum / 256)] ++ strncpy dirsiz name

/-- The loops of `dirlookup` and `dirlink` over the entries: the offset of the first one that is
looked for, or the size. -/
def scan (sb : Superblock) (n : Nat) (found : List UInt8 → Bool) (size off : Nat) (s : Fs.Op) :
    Option (Fs.Op × Nat) :=
  if off < size then
    (readi sb n s off 16).bind fun r =>
      if r.2.length ≠ 16 then none
      else if found r.2 then some (r.1, off)
      else scan sb n found size (off + 16) r.1
  else some (s, off)
termination_by size - off

def dirlookupOff (sb : Superblock) (n : Nat) (name : List UInt8) (s : Fs.Op) :
    Option (Fs.Op × Nat) :=
  if (s.img.dinode n).type ≠ .dir then none
  else scan sb n (fun de => inum de != 0 && namecmp name (de.drop 2) == 0) (s.img.dinode n).size 0 s

def writeDirent (sb : Superblock) (n : Nat) (de : List UInt8) (off : Nat) (s : Fs.Op) :
    Option (Fs.Op × Int) :=
  writei sb n (kernelSource (fun i => de.getD i 0) off 16) s off 16

/-- `dirlink`; `none` is a panic. -/
def dirlink (sb : Superblock) (n : Nat) (name : List UInt8) (inode : Nat) (s : Fs.Op) :
    Option (Fs.Op × Int) :=
  (dirlookup sb n name s).bind fun r =>
    match r.2 with
    | some _ => some (r.1, -1)
    | none =>
      (scan sb n (fun de => inum de == 0) (r.1.img.dinode n).size 0 r.1).bind fun r =>
        (writeDirent sb n (newDirent name inode) r.2 r.1).map fun r =>
          (r.1, if r.2 ≠ 16 then -1 else 0)

/-- What `sys_unlink` does to the entry of a name: it looks it up and clears it. -/
def clearEntry (sb : Superblock) (n : Nat) (name : List UInt8) (s : Fs.Op) : Option Fs.Op :=
  (dirlookupOff sb n name s).bind fun r =>
    if r.2 < (r.1.img.dinode n).size then
      (writeDirent sb n (List.replicate 16 0) r.2 r.1).bind fun r =>
        if r.2 ≠ 16 then none else some r.1
    else some r.1

def cut : Nat → List UInt8 → List UInt8
  | 0, _ => []
  | n + 1, t => if t.headD 0 = 0 then [] else t.headD 0 :: cut n t.tail

/-! ### Names -/

lemma strncmp_eq_zero {n : Nat} {p q : List UInt8} : strncmp n p q = 0 ↔ cut n p = cut n q := by
  induction n generalizing p q with
  | zero => simp [strncmp, cut]
  | succ n ih =>
    rw [strncmp, cut, cut]
    by_cases same : p.headD 0 = q.headD 0
    · rw [same]
      by_cases null : q.headD 0 = 0
      · rw [if_neg fun both => both.1 null, if_pos null, if_pos null, Int.sub_self]
        exact iff_of_true rfl rfl
      rw [if_pos ⟨null, rfl⟩, if_neg null, if_neg null, ih, cons_inj_right]
    have differ : (p.headD 0).toNat ≠ (q.headD 0).toNat := fun eq => same (UInt8.toNat_inj.mp eq)
    rw [if_neg (fun both => same both.2)]
    refine iff_of_false (by omega) fun eq => ?_
    split_ifs at eq with one two
    · exact same (one.trans two.symm)
    exact same (cons.inj eq).1

lemma cut_strncpy (n : Nat) (t : List UInt8) : cut n (strncpy n t) = cut n t := by
  induction n generalizing t with
  | zero => rfl
  | succ n ih =>
    rw [strncpy, cut, cut]
    by_cases null : t.headD 0 = 0
    · rw [if_pos null, if_pos null]
      rfl
    rw [if_neg null, if_neg null, headD_cons, if_neg null, tail_cons, ih]

lemma length_strncpy (n : Nat) (t : List UInt8) : (strncpy n t).length = n := by
  induction n generalizing t with
  | zero => rfl
  | succ n ih =>
    rw [strncpy]
    split_ifs
    · rw [length_replicate]
    rw [length_cons, ih]

lemma length_newDirent (name : List UInt8) (i : Nat) : (newDirent name i).length = 16 := by
  rw [newDirent, length_append, length_strncpy]
  rfl

variable {i j k : Nat} {new : List UInt8}

lemma inum_newDirent (name : List UInt8) (lt : i < 65536) : inum (newDirent name i) = i := by
  simp [inum, newDirent, UInt8.toNat_ofNat']
  omega

/-- The name in an entry. -/
def nameOf (de : List UInt8) : List UInt8 := cut dirsiz (de.drop 2)

lemma nameOf_newDirent (name : List UInt8) (i : Nat) :
    nameOf (newDirent name i) = cut dirsiz name := cut_strncpy dirsiz name

lemma matches_iff {name de : List UInt8} :
    Matches name de ↔ inum de ≠ 0 ∧ cut dirsiz name = nameOf de := by
  rw [Matches, namecmp, strncmp_eq_zero, nameOf]

/-! ### Entries -/

def direntAt (c : List UInt8) (j : Nat) : List UInt8 := (c.drop (16 * j)).take 16

lemma length_direntAt {c : List UInt8} (lt : 16 * j + 16 ≤ c.length) :
    (direntAt c j).length = 16 := by
  rw [direntAt, length_take, length_drop]
  omega

lemma direntAt_writeAt {c : List UInt8} (whole : new.length = 16) (le : 16 * k ≤ c.length)
    (aligned : c.length % 16 = 0) (lt : 16 * j < max c.length (16 * k + 16)) :
    direntAt (writeAt c (16 * k) new) j = if j = k then new else direntAt c j := by
  have size : (writeAt c (16 * k) new).length = _ := length_writeAt le
  rw [whole] at size
  refine ext_getElem ?_ fun i low high => ?_
  · rw [length_direntAt (by omega)]
    split_ifs with same
    · exact whole.symm
    rw [length_direntAt (by omega)]
  rw [length_direntAt (by omega)] at low
  have value := getD_writeAt c new le (16 * j + i)
  rw [whole, getD_eq_getElem?_getD, getElem?_eq_getElem (by omega), getD_some] at value
  simp only [direntAt, getElem_take, getElem_drop]
  rw [value]
  by_cases same : j = k
  · grind
  rw [if_neg (by omega), getD_eq_getElem?_getD, getElem?_eq_getElem (by omega), getD_some]
  simp [same]

variable {sb : Superblock} {n : Nat} {s s' : Fs.Op} {name : List UInt8}

lemma readi_dirent (h : Fs.Sound sb s.img) (aligned : (s.img.dinode n).size % 16 = 0)
    (lt : 16 * j < (s.img.dinode n).size) : readi sb n s (16 * j) 16 =
    some (s, direntAt (s.img.contents n) j) ∧ (direntAt (s.img.contents n) j).length = 16 := by
  have sized := h.sized n
  have small : 16 * j + 16 < 2 ^ 32 := by
    simp only [maxfile, ndirect, nindirect, bsize] at sized
    omega
  refine ⟨?_, length_direntAt (by rw [length_contents]; omega)⟩
  rw [readi_bytes h n (16 * j) (by omega) (by omega), if_pos small]
  rfl

lemma scan_from (h : Fs.Sound sb s.img) (aligned : (s.img.dinode n).size % 16 = 0)
    (found : List UInt8 → Bool) (j : Nat) (le : 16 * j ≤ (s.img.dinode n).size) :
    ∃ k, scan sb n found (s.img.dinode n).size (16 * j) s = some (s, 16 * k) ∧ j ≤ k ∧
    16 * k ≤ (s.img.dinode n).size ∧ (∀ i, j ≤ i → i < k →
      found (direntAt (s.img.contents n) i) = false) ∧
    (16 * k < (s.img.dinode n).size → found (direntAt (s.img.contents n) k) = true) := by
  induction gap : (s.img.dinode n).size - 16 * j using Nat.strong_induction_on generalizing j with
  | _ gap ih =>
    rw [scan.eq_def]
    by_cases more : 16 * j < (s.img.dinode n).size
    · obtain ⟨reads, length⟩ := readi_dirent h aligned more
      rw [if_pos more, reads, bind_some, if_neg (not_not.mpr length)]
      split_ifs with here
      · exact ⟨j, rfl, le_rfl, le, fun i low high => absurd high (by omega), fun _ => here⟩
      obtain ⟨k, run, low, high, none, last⟩ := ih _ (by omega) (j + 1) (by omega) rfl
      refine ⟨k, run, by omega, high, fun i from' below => ?_, last⟩
      by_cases first : i = j
      · rw [first]
        exact Bool.eq_false_iff.mpr here
      exact none i (by omega) below
    rw [if_neg more]
    exact ⟨j, rfl, le_rfl, le, fun i low high => absurd high (by omega),
      fun less => absurd less more⟩

/-- The directory inode `n` holds the map `d` of names to inode numbers. -/
structure Holds (sb : Superblock) (n : Nat) (s : Fs.Op) (d : List UInt8 → Option Nat) : Prop where
  sound : Fs.Sound sb s.img
  type : (s.img.dinode n).type = .dir
  aligned : (s.img.dinode n).size % 16 = 0
  distinct : ∀ j j', 16 * j < (s.img.dinode n).size → 16 * j' < (s.img.dinode n).size →
    inum (direntAt (s.img.contents n) j) ≠ 0 → inum (direntAt (s.img.contents n) j') ≠ 0 →
    nameOf (direntAt (s.img.contents n) j) = nameOf (direntAt (s.img.contents n) j') → j = j'
  entry : ∀ j, 16 * j < (s.img.dinode n).size → inum (direntAt (s.img.contents n) j) ≠ 0 →
    d (nameOf (direntAt (s.img.contents n) j)) = some (inum (direntAt (s.img.contents n) j))
  covered : ∀ key i, d key = some i → ∃ j, 16 * j < (s.img.dinode n).size ∧
    inum (direntAt (s.img.contents n) j) = i ∧ i ≠ 0 ∧ nameOf (direntAt (s.img.contents n) j) = key

section
variable {d : List UInt8 → Option Nat}

lemma holds_empty (h : Fs.Sound sb s.img) (type : (s.img.dinode n).type = .dir)
    (size : (s.img.dinode n).size = 0) : Holds sb n s fun _ => none := by
  refine ⟨h, type, by rw [size], fun j j' lt => ?_, fun j lt => ?_, nofun⟩
  · rw [size] at lt
    exact absurd lt (Nat.not_lt_zero _)
  rw [size] at lt
  exact absurd lt (Nat.not_lt_zero _)

namespace Holds
lemma find (h : Holds sb n s d) (name : List UInt8) :
    ∃ k, dirlookupOff sb n name s = some (s, 16 * k) ∧ 16 * k ≤ (s.img.dinode n).size ∧
    (∀ j, j < k → ¬ Matches name (direntAt (s.img.contents n) j)) ∧
    (16 * k < (s.img.dinode n).size → Matches name (direntAt (s.img.contents n) k)) := by
  obtain ⟨k, run, -, le, before, last⟩ := scan_from h.sound h.aligned
    (fun de => inum de != 0 && namecmp name (de.drop 2) == 0) 0 (Nat.zero_le _)
  have found : ∀ de, (inum de != 0 && namecmp name (de.drop 2) == 0) = true ↔ Matches name de := by
    intro de
    rw [Bool.and_eq_true, bne_iff_ne, beq_iff_eq, Matches]
  refine ⟨k, ?_, le, fun j less => ?_, fun less => (found _).mp (last less)⟩
  · rw [dirlookupOff, if_neg (not_not.mpr h.type)]
    exact run
  rw [← found, before j (Nat.zero_le j) less]
  exact Bool.false_ne_true

lemma map_eq (h : Holds sb n s d) (le : 16 * k ≤ (s.img.dinode n).size)
    (before : ∀ j, j < k → ¬ Matches name (direntAt (s.img.contents n) j))
    (last : 16 * k < (s.img.dinode n).size → Matches name (direntAt (s.img.contents n) k)) :
    d (cut dirsiz name) = if 16 * k <
    (s.img.dinode n).size then some (inum (direntAt (s.img.contents n) k)) else none := by
  by_cases less : 16 * k < (s.img.dinode n).size
  · obtain ⟨used, same⟩ := matches_iff.mp (last less)
    rw [if_pos less, same]
    exact h.entry k less used
  rw [if_neg less]
  by_contra some
  obtain ⟨i, here⟩ := ne_none_iff_exists'.mp some
  obtain ⟨j, lt, rfl, used, same⟩ := h.covered _ i here
  exact before j (by omega) (matches_iff.mpr ⟨used, same.symm⟩)

lemma dirlookup_eq (h : Holds sb n s d) (name : List UInt8) :
    dirlookup sb n name s = some (s, d (cut dirsiz name)) := by
  obtain ⟨k, -, le, before, last⟩ := h.find name
  have reads := fun j (lt : 16 * j < (s.img.dinode n).size) => readi_dirent h.sound h.aligned lt
  rw [dirlookup, if_neg (not_not.mpr h.type), h.map_eq le before last]
  have skip : dirlookupLoop sb n name (s.img.dinode n).size (16 * 0) s =
      dirlookupLoop sb n name (s.img.dinode n).size (16 * k) s :=
    dirlookupLoop_skip (Nat.zero_le k) (fun i lt => by omega)
      (fun i lt => (reads i (by omega)).1) (fun i lt => (reads i (by omega)).2) before
  rw [Nat.mul_zero] at skip
  rw [skip]
  split_ifs with less
  · exact dirlookupLoop_match less (reads k less).1 (reads k less).2 (last less)
  exact dirlookupLoop_end (by omega)

lemma entries (h : Holds sb n s d) (whole : new.length = 16) (le : 16 * k ≤ (s.img.dinode n).size)
    (written : s'.img.contents n = writeAt (s.img.contents n) (16 * k) new) :
    (s'.img.dinode n).size = max (s.img.dinode n).size (16 * k + 16) ∧
    ∀ j, 16 * j < (s'.img.dinode n).size →
    direntAt (s'.img.contents n) j = if j = k then new else direntAt (s.img.contents n) j := by
  have aligned := h.aligned
  rw [← length_contents] at le aligned
  have size : (s'.img.dinode n).size = max (s.img.dinode n).size (16 * k + 16) := by
    rw [← length_contents s'.img, written, length_writeAt le, length_contents, whole]
  refine ⟨size, fun j lt => ?_⟩
  rw [written, direntAt_writeAt whole le aligned (by rw [length_contents]; omega)]

section
variable (h : Holds sb n s d) (sound : Fs.Sound sb s'.img) (type : (s'.img.dinode n).type = .dir)
include h sound type

lemma link (whole : new.length = 16) (le : 16 * k ≤ (s.img.dinode n).size)
    (written : s'.img.contents n = writeAt (s.img.contents n) (16 * k) new)
    (unused : 16 * k < (s.img.dinode n).size → inum (direntAt (s.img.contents n) k) = 0)
    (number : inum new = i) (some : i ≠ 0) (absent : d (nameOf new) = none) :
    Holds sb n s' (update d (nameOf new) (.some i)) := by
  obtain ⟨size, entries⟩ := h.entries whole le written
  have aligned := h.aligned
  -- an entry other than the new one was there before
  have old : ∀ j, 16 * j < (s'.img.dinode n).size → j ≠ k → 16 * j < (s.img.dinode n).size := by
    intro j lt ne
    omega
  have other : ∀ j, 16 * j < (s.img.dinode n).size →
      inum (direntAt (s.img.contents n) j) ≠ 0 →
      nameOf (direntAt (s.img.contents n) j) ≠ nameOf new := by
    intro j lt used eq
    have := h.entry j lt used
    rw [eq, absent] at this
    cases this
  refine ⟨sound, type, by omega, fun j j' lt lt' used used' same => ?_, fun j lt used => ?_,
    fun key v here => ?_⟩
  · rw [entries j lt] at used same
    rw [entries j' lt'] at used' same
    by_cases first : j = k
    · by_cases second : j' = k
      · rw [first, second]
      rw [if_neg second] at used' same
      rw [if_pos first] at same
      exact absurd same.symm (other j' (old j' lt' second) used')
    rw [if_neg first] at used same
    by_cases second : j' = k
    · rw [if_pos second] at same
      exact absurd same (other j (old j lt first) used)
    rw [if_neg second] at used' same
    exact h.distinct j j' (old j lt first) (old j' lt' second) used used' same
  · rw [entries j lt] at used ⊢
    by_cases first : j = k
    · rw [if_pos first, update_self, number]
    rw [if_neg first] at used ⊢
    rw [update_of_ne (other j (old j lt first) used)]
    exact h.entry j (old j lt first) used
  by_cases mine : key = nameOf new
  · rw [mine, update_self] at here
    cases here
    refine ⟨k, by omega, ?_, some, ?_⟩
    · rw [entries k (by omega), if_pos rfl, number]
    rw [entries k (by omega), if_pos rfl, mine]
  rw [update_of_ne mine] at here
  obtain ⟨j, lt, eq, ne, name⟩ := h.covered key v here
  have far : j ≠ k := by
    rintro rfl
    rw [unused lt] at eq
    exact ne eq.symm
  refine ⟨j, by omega, ?_, ne, ?_⟩
  · rw [entries j (by omega), if_neg far, eq]
  rw [entries j (by omega), if_neg far, name]

lemma clear (whole : new.length = 16) (lt : 16 * k < (s.img.dinode n).size)
    (written : s'.img.contents n = writeAt (s.img.contents n) (16 * k) new)
    (gone : inum new = 0) (used : inum (direntAt (s.img.contents n) k) ≠ 0) :
    Holds sb n s' (update d (nameOf (direntAt (s.img.contents n) k)) none) := by
  obtain ⟨size, entries⟩ := h.entries whole lt.le written
  have aligned := h.aligned
  have same : (s'.img.dinode n).size = (s.img.dinode n).size := by omega
  -- the entries that are left
  have left : ∀ j, 16 * j < (s'.img.dinode n).size → inum (direntAt (s'.img.contents n) j) ≠ 0 →
      direntAt (s'.img.contents n) j = direntAt (s.img.contents n) j ∧ j ≠ k := by
    intro j lt some
    rw [entries j lt] at some ⊢
    by_cases mine : j = k
    · rw [if_pos mine] at some
      exact absurd gone some
    exact ⟨if_neg mine, mine⟩
  refine ⟨sound, type, by omega, fun j j' low low' some some' eq => ?_, fun j low some => ?_,
    fun key v here => ?_⟩
  · obtain ⟨one, -⟩ := left j low some
    obtain ⟨two, -⟩ := left j' low' some'
    rw [one] at some eq
    rw [two] at some' eq
    exact h.distinct j j' (by omega) (by omega) some some' eq
  · obtain ⟨one, far⟩ := left j low some
    rw [one] at some ⊢
    rw [update_of_ne]
    · exact h.entry j (by omega) some
    exact fun eq => far (h.distinct j k (by omega) lt some used eq)
  by_cases mine : key = nameOf (direntAt (s.img.contents n) k)
  · rw [mine, update_self] at here
    cases here
  rw [update_of_ne mine] at here
  obtain ⟨j, low, eq, ne, name⟩ := h.covered key v here
  have far : j ≠ k := by
    rintro rfl
    exact mine name.symm
  refine ⟨j, by omega, ?_, ne, ?_⟩
  · rw [entries j (by omega), if_neg far, eq]
  rw [entries j (by omega), if_neg far, name]

lemma congr (contents : s'.img.contents n = s.img.contents n) : Holds sb n s' d := by
  have size : (s'.img.dinode n).size = (s.img.dinode n).size := by
    rw [← length_contents s'.img, contents, length_contents]
  refine ⟨sound, type, ?_, ?_, ?_, ?_⟩
  · rw [size]
    exact h.aligned
  · rw [size, contents]
    exact h.distinct
  · rw [size, contents]
    exact h.entry
  rw [size, contents]
  exact h.covered

end

end Holds

def NoneFree (n : Nat) (m : Image) : Prop :=
  ∀ j, 16 * j < (m.dinode n).size → inum (direntAt (m.contents n) j) ≠ 0

/-- The directory cannot be extended: it has no free entry and its largest size, or it needs a block
and there is none. -/
def Stuck (sb : Superblock) (n : Nat) (m : Image) : Prop :=
  NoneFree n m ∧ (maxfile * bsize < (m.dinode n).size + 16 ∨
    m.Full sb ∧ m.blockAt (n, slot ((m.dinode n).size / bsize)) = 0)

lemma Holds.writeDirent (h : Holds sb n s d) (fits : sb.size ≤ 2 ^ 32)
    (de : List UInt8) (whole : de.length = 16) (le : 16 * k ≤ (s.img.dinode n).size) :
    (∃ s', Namei.writeDirent sb n de (16 * k) s = some (s', 16) ∧ Fs.Sound sb s'.img ∧
    (s'.img.dinode n).type = .dir ∧ s'.img.contents n = writeAt (s.img.contents n) (16 * k) de ∧
    (16 * k = (s.img.dinode n).size → 16 * k + 16 ≤ maxfile * bsize ∧
    ¬ (s.img.Full sb ∧ s.img.blockAt (n, slot (16 * k / bsize)) = 0))) ∨ ∃ s' r,
    Namei.writeDirent sb n de (16 * k) s = some (s', r) ∧ r ≠ 16 ∧ 16 * k = (s.img.dinode n).size ∧
    Holds sb n s' d ∧ (maxfile * bsize < 16 * k + 16 ∨ s'.img.Full sb) := by
  have sized := h.sound.sized n
  have aligned := h.aligned
  have small : 16 * k < 2 ^ 32 := lt_of_le_of_lt (le.trans sized) (by decide)
  have typed : (s.img.dinode n).type ≠ .none := by
    rw [h.type]
    decide
  have delivers : (kernelSource (fun i => de.getD i 0) (16 * k) 16).Delivers (fun i => de.getD i 0)
      (16 * k) 16 := fun _ _ => ⟨rfl, fun _ => rfl⟩
  rcases writei_bytes h.sound fits typed (by decide) delivers.spills with
    ⟨run, why⟩ | ⟨-, inside, s', tot, spilled, run, wrote⟩
  · refine .inr ⟨s, -1, run, by decide, ?_, h, ?_⟩
    · simp only [maxfile, ndirect, nindirect, bsize] at *
      omega
    omega
  obtain ⟨zero, short⟩ := wrote.all_moved delivers
  have contents := wrote.contents le (.inl zero)
  have type := wrote.type.trans h.type
  by_cases all : tot = 16
  · subst all
    have bytes : (range 16).map (fun i => de.getD i 0) = de := by
      refine ext_getElem (by rw [length_map, length_range, whole]) fun i low _ => ?_
      rw [getElem_map, getElem_range, getD_eq_getElem?_getD, getElem?_eq_getElem, getD_some]
    rw [bytes] at contents
    refine .inl ⟨s', run, wrote.sound, type, contents, fun atEnd => ⟨inside, ?_⟩⟩
    rintro ⟨full, missing⟩
    obtain ⟨s'', none⟩ := writei_full (kernelSource (fun i => de.getD i 0) (16 * k) 16) full
      missing le (by decide) inside
    cases run.symm.trans none
  have lt := wrote.ended.le
  obtain ⟨starts, full, missing⟩ := short (by omega)
  have none : tot = 0 := by
    rcases starts with zero | edge
    · exact zero
    simp only [bsize] at edge
    omega
  subst none
  refine .inr ⟨s', 0, run, by decide, ?_, h.congr wrote.sound type ?_, .inr full⟩
  · -- a block below the size is there
    by_contra less
    refine h.sound.filled n (16 * k / bsize) ?_ missing
    exact lt_of_le_of_lt (Nat.div_mul_le_self ..) (by omega)
  rw [contents, writeAt]
  simp

inductive Linked (sb : Superblock) (n : Nat) (name : List UInt8) (i : Nat) (s : Fs.Op)
    (d : List UInt8 → Option Nat) : Fs.Op × Int → Prop
  | present (here : d (cut dirsiz name) ≠ none) : Linked sb n name i s d (s, -1)
  | linked {s' : Fs.Op} (absent : d (cut dirsiz name) = none) (room : ¬ Stuck sb n s.img)
      (holds : Holds sb n s' (update d (cut dirsiz name) (some i))) :
      Linked sb n name i s d (s', 0)
  | stuck {s' : Fs.Op} (absent : d (cut dirsiz name) = none) (holds : Holds sb n s' d)
      (used : NoneFree n s.img)
      (why : maxfile * bsize < (s.img.dinode n).size + 16 ∨ s'.img.Full sb) :
      Linked sb n name i s d (s', -1)

lemma Holds.dirlink (h : Holds sb n s d) (fits : sb.size ≤ 2 ^ 32)
    (name : List UInt8) (some : i ≠ 0) (ushort : i < 65536) :
    ∃ r, Namei.dirlink sb n name i s = .some r ∧ Linked sb n name i s d r := by
  rw [Namei.dirlink, h.dirlookup_eq, bind_some]
  cases here : d (cut dirsiz name) with
  | some v => exact ⟨_, rfl, .present (here ▸ some_ne_none v)⟩
  | none =>
    obtain ⟨k, run, -, le, before, last⟩ := scan_from h.sound h.aligned (fun de => inum de == 0) 0
      (Nat.zero_le _)
    dsimp only
    rw [Nat.mul_zero] at run
    rw [run, bind_some]
    have name' := nameOf_newDirent name i
    have number := inum_newDirent name ushort
    have unused : 16 * k < (s.img.dinode n).size → inum (direntAt (s.img.contents n) k) = 0 :=
      fun less => beq_iff_eq.mp (last less)
    have used : ∀ j, j < k → inum (direntAt (s.img.contents n) j) ≠ 0 := by
      intro j less
      exact beq_eq_false_iff_ne.mp (before j (Nat.zero_le j) less)
    rcases h.writeDirent fits _ (length_newDirent name i) le with
      ⟨s', wrote, sound, type, contents, room⟩ | ⟨s', r, wrote, short, atEnd, holds, why⟩
    · rw [wrote]
      refine ⟨_, rfl, ?_⟩
      dsimp only
      rw [if_neg (not_not.mpr rfl)]
      refine .linked here ?_ ?_
      · rintro ⟨allUsed, stuck⟩
        have atEnd : 16 * k = (s.img.dinode n).size := by
          by_contra less
          exact allUsed k (by omega) (unused (by omega))
        obtain ⟨inside, open'⟩ := room atEnd
        rw [← atEnd] at stuck
        rcases stuck with large | full
        · omega
        exact open' full
      have := h.link sound type (length_newDirent name i) le contents unused number some
        (by rw [name', here])
      rwa [name'] at this
    rw [wrote]
    refine ⟨_, rfl, ?_⟩
    dsimp only
    rw [if_pos short]
    rw [atEnd] at why
    exact .stuck here holds (fun j less => used j (by omega)) why

lemma Holds.clearEntry (h : Holds sb n s d) (fits : sb.size ≤ 2 ^ 32) (name : List UInt8) : ∃ s',
    Namei.clearEntry sb n name s = some s' ∧ Holds sb n s' (update d (cut dirsiz name) none) := by
  obtain ⟨k, run, le, before, last⟩ := h.find name
  have map := h.map_eq le before last
  rw [Namei.clearEntry, run, bind_some]
  by_cases less : 16 * k < (s.img.dinode n).size
  · obtain ⟨used, same⟩ := matches_iff.mp (last less)
    rw [if_pos less]
    rcases h.writeDirent fits (replicate 16 0) rfl le with
      ⟨s', wrote, sound, type, contents, -⟩ | ⟨-, -, -, -, atEnd, -⟩
    · rw [wrote, bind_some, if_neg (not_not.mpr rfl)]
      refine ⟨s', rfl, ?_⟩
      have := h.clear sound type rfl less contents rfl used
      rwa [← same] at this
    exact absurd atEnd (by omega)
  rw [if_neg less]
  refine ⟨s, rfl, ?_⟩
  rw [if_neg less] at map
  rwa [update_eq_self_iff.mpr map.symm]

end

/-! ### Runs -/

/-- A directory inode in a file system, with the map that its history gives: for a name the inode
number of the last successful `dirlink`, unless it has been cleared since. -/
structure Dir where
  op : Fs.Op
  map : List UInt8 → Option Nat

/-- Calls on the directory `n`, and changes of the rest of the disk. -/
inductive DirCall
  | link (name : List UInt8) (inode : Nat)
  | clear (name : List UInt8)
  | others (m : Image)

def dirStep (sb : Superblock) (n : Nat) (x : Dir) : DirCall → Option Dir
  | .link name i => (dirlink sb n name i x.op).map fun r =>
    ⟨r.1, if r.2 = 0 then update x.map (cut dirsiz name) (some i) else x.map⟩
  | .clear name => (clearEntry sb n name x.op).map fun s =>
    ⟨s, update x.map (cut dirsiz name) none⟩
  | .others m => some ⟨⟨m, x.op.log⟩, x.map⟩

/-- An inode number is a `ushort`, and not 0. The others keep the file system sound and leave the
directory alone. -/
def DirAllowed (sb : Superblock) (n : Nat) (x : Dir) : DirCall → Prop
  | .link _ i => i ≠ 0 ∧ i < 65536
  | .clear _ => True
  | .others m => Fs.Sound sb m ∧ m.dinode n = x.op.img.dinode n ∧
      m.contents n = x.op.img.contents n

lemma Holds.step {x x' : Dir} {a : DirCall} (h : Holds sb n x.op x.map)
    (fits : sb.size ≤ 2 ^ 32) (allowed : DirAllowed sb n x a) (next : dirStep sb n x a = some x') :
    Holds sb n x'.op x'.map := by
  cases a with
  | link name i =>
    obtain ⟨r, run, linked⟩ := h.dirlink fits name allowed.1 allowed.2
    rw [dirStep, run] at next
    cases next
    cases linked with
    | present here => exact h
    | linked absent room holds => exact holds
    | stuck absent holds used why => exact holds
  | clear name =>
    obtain ⟨s', run, holds⟩ := h.clearEntry fits name
    rw [dirStep, run] at next
    cases next
    exact holds
  | others m =>
    cases next
    obtain ⟨sound, inode, contents⟩ := allowed
    refine h.congr sound ?_ contents
    rw [inode]
    exact h.type

/-- A directory is a finite map. After any calls on a new directory, a lookup gives what the last
successful `dirlink` of the name has stored, no two used entries have one name, `dirlink` fails
where the name is present or there is no room, with the map unchanged, and neither `dirlink` nor a
clearing of a name changes the lookup of another. -/
theorem directory_is_finite_map (fits : sb.size ≤ 2 ^ 32) (s₀ : Fs.Op) (sound : Fs.Sound sb s₀.img)
    (type : (s₀.img.dinode n).type = .dir) (size : (s₀.img.dinode n).size = 0) {x : Dir}
    {calls : List DirCall}
    (run : Run (dirStep sb n) (DirAllowed sb n) ⟨s₀, fun _ => none⟩ calls x) :
    (∀ name, dirlookup sb n name x.op = some (x.op, x.map (cut dirsiz name))) ∧
    (∀ j j', 16 * j < (x.op.img.dinode n).size → 16 * j' < (x.op.img.dinode n).size →
      inum (direntAt (x.op.img.contents n) j) ≠ 0 → inum (direntAt (x.op.img.contents n) j') ≠ 0 →
      nameOf (direntAt (x.op.img.contents n) j) = nameOf (direntAt (x.op.img.contents n) j') →
      j = j') ∧
    (∀ name i, i ≠ 0 → i < 65536 → ∃ s' r, dirlink sb n name i x.op = some (s', r) ∧
      (x.map (cut dirsiz name) ≠ none ∨ Stuck sb n x.op.img → r = -1) ∧
      (r = -1 → x.map (cut dirsiz name) ≠ none ∨ NoneFree n x.op.img ∧
        (maxfile * bsize < (x.op.img.dinode n).size + 16 ∨ s'.img.Full sb)) ∧
      (r = 0 ∧ (∀ other, dirlookup sb n other s' = some (s',
          if cut dirsiz other = cut dirsiz name then some i else x.map (cut dirsiz other))) ∨
        r = -1 ∧ (∀ other, dirlookup sb n other s' = some (s', x.map (cut dirsiz other))))) ∧
    ∀ name, ∃ s', clearEntry sb n name x.op = some s' ∧ ∀ other, dirlookup sb n other s' = some (s',
      if cut dirsiz other = cut dirsiz name then none else x.map (cut dirsiz other)) := by
  have h : Holds sb n x.op x.map := run.invariant (I := fun x => Holds sb n x.op x.map)
    (fun _ _ _ h allowed next => h.step fits allowed next) (holds_empty sound type size)
  have updated : ∀ (d : List UInt8 → Option Nat) key (v : Option Nat) other,
      update d key v other = if other = key then v else d other := by
    intro d key v other
    rw [update_apply]
  refine ⟨h.dirlookup_eq, h.distinct, fun name i some ushort => ?_, fun name => ?_⟩
  · obtain ⟨r, run, linked⟩ := h.dirlink fits name some ushort
    refine ⟨r.1, r.2, run, ?_⟩
    cases linked with
    | present here => exact ⟨fun _ => rfl, fun _ => .inl here, .inr ⟨rfl, h.dirlookup_eq⟩⟩
    | linked absent room holds =>
      refine ⟨?_, fun bad => absurd bad (show (0 : Int) ≠ -1 by decide),
        .inl ⟨rfl, fun other => ?_⟩⟩
      · rintro (here | stuck)
        · exact absurd absent here
        · exact absurd stuck room
      · rw [holds.dirlookup_eq, updated]
    | stuck absent holds used why =>
      exact ⟨fun _ => rfl, fun _ => .inr ⟨used, why⟩, .inr ⟨rfl, holds.dirlookup_eq⟩⟩
  obtain ⟨s', run, holds⟩ := h.clearEntry fits name
  refine ⟨s', run, fun other => ?_⟩
  rw [holds.dirlookup_eq, updated]

def newDirectory : Fs.Op :=
  ⟨(emptyImage fsSb).setInode 1 { zeroDinode with type := .dir }, []⟩

/-- Two names, one of them a second time, cleared and linked again. -/
theorem newDirectory_maps : ∃ x, Run (dirStep fsSb 1) (DirAllowed fsSb 1)
      ⟨newDirectory, fun _ => none⟩
      [.link [97] 5, .link [97, 98] 6, .link [97] 7, .clear [97], .link [97] 8] x ∧
    dirlookup fsSb 1 [97] x.op = some (x.op, some 8) ∧
    dirlookup fsSb 1 [97, 98] x.op = some (x.op, some 6) ∧
    ∃ s', clearEntry fsSb 1 [97] x.op = some s' ∧
      dirlookup fsSb 1 [97] s' = some (s', none) := by
  have sound : Fs.Sound fsSb newDirectory.img := (emptyImage_sound _).ialloc rfl .dir
  obtain ⟨x, run, last, other⟩ : ∃ x, Run (dirStep fsSb 1) Free
      ⟨newDirectory, fun _ => none⟩
      [.link [97] 5, .link [97, 98] 6, .link [97] 7, .clear [97], .link [97] 8] x ∧
      x.map [97] = some 8 ∧ x.map [97, 98] = some 6 := Run.exists_of_execute (by decide +kernel)
  replace run := run.of_free (G := DirAllowed fsSb 1) (by simp [DirAllowed])
  obtain ⟨lookup, -, -, clears⟩ := directory_is_finite_map (by decide) newDirectory sound rfl rfl run
  obtain ⟨s', cleared, gone⟩ := clears [97]
  exact ⟨x, run, last ▸ lookup [97], other ▸ lookup [97, 98], s', cleared,
    (gone [97]).trans (by rw [if_pos rfl])⟩

end Xv6.Namei
