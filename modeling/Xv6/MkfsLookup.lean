import Mathlib.Data.List.TakeWhile
import Xv6.DiskBlocks
import Xv6.MkfsImage

/-! What the kernel reads from the image that mkfs writes: `namei` with `skipelem` and `dirlookup`,
and `readi` for a kernel buffer, of fs.c. -/
namespace Xv6.Namei
open Fs Mkfs List Option
open Function (update update_of_ne update_self)

def readiLoop (sb : Superblock) (n count tot off : Nat) (out : List UInt8) (s : Fs.Op) :
    Option (Fs.Op × List UInt8) :=
  if tot < count then
    (bmap sb n s (off / bsize)).bind fun r =>
      if r.2 = 0 then some (r.1, out)
      else
        let m := min (count - tot) (bsize - off % bsize)
        readiLoop sb n count (tot + m) (off + m)
          (out ++ (List.range m).map fun i => r.1.img.block r.2 (off % bsize + i)) r.1
  else some (s, out)
termination_by count - tot
decreasing_by
  have inside := mod_bsize_lt off
  omega

/-- `readi` to a kernel address, with the bytes it copies; `none` is a panic. -/
def readi (sb : Superblock) (n : Nat) (s : Fs.Op) (off count : Nat) : Option (Fs.Op × List UInt8) :=
  if (s.img.dinode n).size < off ∨ (off + count) % 2 ^ 32 < off then some (s, [])
  else
    let count :=
      if (s.img.dinode n).size < (off + count) % 2 ^ 32 then (s.img.dinode n).size - off else count
    readiLoop sb n count 0 off [] s

/-- `strncmp` of string.c; a zero byte stands behind the end of a list. -/
def strncmp : Nat → List UInt8 → List UInt8 → Int
  | 0, _, _ => 0
  | n + 1, p, q =>
    if p.headD 0 ≠ 0 ∧ p.headD 0 = q.headD 0 then strncmp n p.tail q.tail
    else ((p.headD 0).toNat : Int) - (q.headD 0).toNat

def namecmp (s t : List UInt8) : Int := strncmp dirsiz s t

def inum (de : List UInt8) : Nat := (de.getD 0 0).toNat + 256 * (de.getD 1 0).toNat

def dirlookupLoop (sb : Superblock) (n : Nat) (name : List UInt8) (size off : Nat) (s : Fs.Op) :
    Option (Fs.Op × Option Nat) :=
  if off < size then
    (readi sb n s off 16).bind fun r =>
      if r.2.length ≠ 16 then none
      else if inum r.2 ≠ 0 ∧ namecmp name (r.2.drop 2) = 0 then some (r.1, some (inum r.2))
      else dirlookupLoop sb n name size (off + 16) r.1
  else some (s, none)
termination_by size - off

/-- `dirlookup`; `none` is one of its panics. -/
def dirlookup (sb : Superblock) (n : Nat) (name : List UInt8) (s : Fs.Op) :
    Option (Fs.Op × Option Nat) :=
  if (s.img.dinode n).type ≠ .dir then none
  else dirlookupLoop sb n name (s.img.dinode n).size 0 s

/-- `skipelem`: the element, cut to `DIRSIZ` bytes, and the rest of the path. -/
def skipelem (path : List UInt8) : Option (List UInt8 × List UInt8) :=
  let s := path.dropWhile (· == 47)
  if s = [] then none
  else some ((s.takeWhile (· != 47)).take dirsiz, (s.dropWhile (· != 47)).dropWhile (· == 47))

/-- The loop of `namex`; each round takes an element from the path. `ilock` panics on a free
inode. -/
def namexLoop (sb : Superblock) : Nat → Nat → List UInt8 → Fs.Op → Option (Fs.Op × Option Nat)
  | 0, _, _, _ => none
  | fuel + 1, ip, path, s =>
    match skipelem path with
    | none => some (s, some ip)
    | some (name, rest) =>
      if (s.img.dinode ip).type = .none then none
      else if (s.img.dinode ip).type ≠ .dir then some (s, none)
      else
        match dirlookup sb ip name s with
        | none => none
        | some (s, none) => some (s, none)
        | some (s, some next) => namexLoop sb fuel next rest s

def namei (sb : Superblock) (cwd : Nat) (path : List UInt8) (s : Fs.Op) :
    Option (Fs.Op × Option Nat) :=
  namexLoop sb (path.length + 1) (if path.head? = some 47 then rootino else cwd) path s

variable {sb : Superblock} {n off count tot stop : Nat} {s : Fs.Op} {c out name q : List UInt8}

/-! ### Reading -/

/-- The inode `n` has the bytes `c`, with zeros behind them, up to `stop`. -/
def Filled (s : Fs.Op) (n stop : Nat) (c : List UInt8) : Prop :=
  ∀ i, i < stop → i / 1024 < maxfile ∧ s.img.blockAt (n, slot (i / 1024)) ≠ 0 ∧
    s.img.block (s.img.blockAt (n, slot (i / 1024))) (i % 1024) = c.getD i 0

def bytesAt (c : List UInt8) (off count : Nat) : List UInt8 :=
  (List.range count).map fun i => c.getD (off + i) 0

lemma bytesAt_add (c : List UInt8) (off a b : Nat) :
    bytesAt c off (a + b) = bytesAt c off a ++ bytesAt c (off + a) b := by
  simp only [bytesAt, range_add, map_append, List.map_map, Function.comp_def, Nat.add_assoc]

lemma readiLoop_filled (out : List UInt8) (tot off : Nat)
    (h : Filled s n stop c) (inside : off + (count - tot) ≤ stop) :
    readiLoop sb n count tot off out s = some (s, out ++ bytesAt c off (count - tot)) := by
  induction gap : count - tot using Nat.strong_induction_on generalizing tot off out with
  | _ gap ih =>
    rw [readiLoop.eq_def]
    by_cases more : tot < count
    · obtain ⟨lt, some, -⟩ := h off (by omega)
      have step := mod_bsize_lt off
      have chunk : (range (min (count - tot) (bsize - off % bsize))).map (fun i =>
          s.img.block (s.img.blockAt (n, slot (off / bsize))) (off % bsize + i)) =
          bytesAt c off (min (count - tot) (bsize - off % bsize)) := by
        refine map_congr_left fun i mem => ?_
        have small := mem_range.mp mem
        obtain ⟨-, -, byte⟩ := h (off + i) (by omega)
        have same : (off + i) / 1024 = off / bsize ∧ (off + i) % 1024 = off % bsize + i := by
          simp only [bsize] at *
          omega
        rwa [same.1, same.2] at byte
      simp only [if_pos more, bmap_found lt some, bind_some, if_neg some]
      rw [chunk, ih _ (by omega) _ _ _ (by omega) rfl, append_assoc, ← bytesAt_add]
      have whole : min (count - tot) (bsize - off % bsize) +
          (count - (tot + min (count - tot) (bsize - off % bsize))) = count - tot := by omega
      rw [whole, gap]
    have done : count - tot = 0 := by omega
    rw [if_neg more, ← gap, done]
    simp [bytesAt]

lemma readi_inside (inside : off + count ≤ (s.img.dinode n).size) (small : off + count < 2 ^ 32) :
    readi sb n s off count = readiLoop sb n count 0 off [] s := by
  rw [readi, if_neg (by rw [Nat.mod_eq_of_lt small]; omega)]
  simp only [Nat.mod_eq_of_lt small, if_neg (show ¬ (s.img.dinode n).size < off + count by omega)]

lemma readi_filled (h : Filled s n stop c) (le : stop ≤ (s.img.dinode n).size)
    (inside : off + count ≤ stop) (small : off + count < 2 ^ 32) :
    readi sb n s off count = some (s, bytesAt c off count) := by
  rw [readi_inside (inside.trans le) small, readiLoop_filled [] 0 off h (by omega)]
  rfl

lemma bytesAt_eq (inside : off + count ≤ c.length) :
    bytesAt c off count = (c.drop off).take count := by
  refine ext_getElem (by simp [bytesAt]; omega) fun i lt lt' => ?_
  simp only [bytesAt, getElem_map, getElem_range, getElem_take, getElem_drop]
  rw [bytesAt, length_map, length_range] at lt
  rw [getD_eq_getElem?_getD, getElem?_eq_getElem (by omega), getD_some]

lemma readi_file (h : Filled s n c.length c) (size : (s.img.dinode n).size = c.length)
    (le : off ≤ c.length) (small : off + count < 2 ^ 32) :
    readi sb n s off count = some (s, (c.drop off).take count) := by
  rw [readi, if_neg (by rw [Nat.mod_eq_of_lt small]; omega)]
  simp only [Nat.mod_eq_of_lt small, size]
  by_cases past : c.length < off + count
  · rw [if_pos past, readiLoop_filled [] 0 off h (by omega), Nat.sub_zero, bytesAt_eq (by omega),
      nil_append, take_of_length_le (l := c.drop off) (i := count) (by rw [length_drop]; omega),
      take_of_length_le (by rw [length_drop])]
  rw [if_neg past, readiLoop_filled [] 0 off h (by omega), Nat.sub_zero, bytesAt_eq (by omega)]
  rfl

/-! ### Names -/

lemma strncmp_stored {n z : Nat} {p t : List UInt8} (hp : (0 : UInt8) ∉ p) (ht : (0 : UInt8) ∉ t)
    (le : t.length ≤ n) : strncmp n p (t ++ replicate z 0) = 0 ↔ p.take n = t := by
  induction n generalizing p t with
  | zero =>
    rw [length_eq_zero_iff.mp (Nat.le_zero.mp le)]
    simp [strncmp]
  | succ n ih =>
    have zeros : (replicate z (0 : UInt8)).headD 0 = 0 := by cases z <;> rfl
    have pos {x : UInt8} {l : List UInt8} (no : (0 : UInt8) ∉ x :: l) : x ≠ 0 ∧ x.toNat ≠ 0 := by
      have ne : x ≠ 0 := fun eq => no (eq ▸ mem_cons_self)
      exact ⟨ne, fun eq => ne (UInt8.toNat_inj.mp eq)⟩
    cases p with
    | nil =>
      cases t with
      | nil =>
        rw [strncmp, nil_append, zeros]
        simp
      | cons y ys =>
        have := (pos ht).2
        simp [strncmp]
        omega
    | cons x xs =>
      have here := pos hp
      cases t with
      | nil =>
        rw [strncmp, nil_append, zeros]
        simp [here.1, here.2]
      | cons y ys =>
        by_cases eq : x = y
        · subst eq
          rw [strncmp]
          simp only [cons_append, headD_cons, ne_eq, here.1, not_false_eq_true, and_self,
            if_true, tail_cons, take_succ_cons, cons.injEq, true_and]
          exact ih (fun mem => hp (mem_cons_of_mem _ mem))
            (fun mem => ht (mem_cons_of_mem _ mem)) (Nat.le_of_succ_le_succ le)
        have ne : x.toNat ≠ y.toNat := fun same => eq (UInt8.toNat_inj.mp same)
        rw [strncmp]
        simp only [cons_append, headD_cons, ne_eq, eq, and_false, if_false,
          take_succ_cons, cons.injEq, false_and, iff_false]
        omega

lemma skipelem_root (some : q ≠ []) (single : (47 : UInt8) ∉ q) :
    skipelem (47 :: q) = .some (q.take dirsiz, []) := by
  have keep : q.dropWhile (· == 47) = q := by
    cases q with
    | nil => rfl
    | cons x xs =>
      have ne : x ≠ 47 := fun eq => single (eq ▸ mem_cons_self)
      simp [ne]
  have all : ∀ x ∈ q, (x != 47) = true := fun x mem => by
    simp only [bne_iff_ne, ne_eq]
    exact fun eq => single (eq ▸ mem)
  have whole : q.takeWhile (· != 47) = q := takeWhile_eq_self_iff.mpr all
  have rest : q.dropWhile (· != 47) = [] := dropWhile_eq_nil_iff.mpr all
  rw [skipelem]
  simp only [dropWhile_cons, beq_self_eq_true, if_true, keep, if_neg some, whole, rest,
    dropWhile_nil]

/-! ### Directories -/

def Matches (name de : List UInt8) : Prop := inum de ≠ 0 ∧ namecmp name (de.drop 2) = 0

section
variable {de : Nat → List UInt8} {size j k : Nat}

lemma dirlookupLoop_step (lt : 16 * j < size) (reads : readi sb n s (16 * j) 16 = some (s, de j))
    (len : (de j).length = 16) (no : ¬ Matches name (de j)) :
    dirlookupLoop sb n name size (16 * j) s = dirlookupLoop sb n name size (16 * (j + 1)) s := by
  rw [Matches] at no
  rw [dirlookupLoop.eq_def, if_pos lt, reads, bind_some, if_neg (not_not.mpr len), if_neg no,
    Nat.mul_add]

lemma dirlookupLoop_skip (le : j ≤ k) (lt : ∀ i, i < k → 16 * i < size)
    (reads : ∀ i, i < k → readi sb n s (16 * i) 16 = some (s, de i))
    (len : ∀ i, i < k → (de i).length = 16) (no : ∀ i, i < k → ¬ Matches name (de i)) :
    dirlookupLoop sb n name size (16 * j) s = dirlookupLoop sb n name size (16 * k) s := by
  induction k with
  | zero => rw [Nat.le_zero.mp le]
  | succ k ih =>
    by_cases eq : j = k + 1
    · rw [eq]
    rw [ih (by omega) (fun i small => lt i (by omega)) (fun i small => reads i (by omega))
      (fun i small => len i (by omega)) fun i small => no i (by omega)]
    exact dirlookupLoop_step (lt k (by omega)) (reads k (by omega)) (len k (by omega)) (no k (by omega))

lemma dirlookupLoop_match (lt : 16 * k < size) (reads : readi sb n s (16 * k) 16 = some (s, de k))
    (len : (de k).length = 16) (here : Matches name (de k)) :
    dirlookupLoop sb n name size (16 * k) s = some (s, some (inum (de k))) := by
  rw [Matches] at here
  rw [dirlookupLoop.eq_def, if_pos lt, reads, bind_some, if_neg (not_not.mpr len), if_pos here]

lemma dirlookupLoop_end (ge : size ≤ 16 * k) :
    dirlookupLoop sb n name size (16 * k) s = some (s, none) := by
  rw [dirlookupLoop.eq_def, if_neg (by omega)]

end

/-- The entries of the root directory for the files from inode `i` on. -/
def entriesFrom : Nat → List Input → List (Nat × List UInt8)
  | _, [] => []
  | i, f :: fs => (i, f.name) :: entriesFrom (i + 1) fs

def entries (files : List Input) : List (Nat × List UInt8) :=
  (rootino, dot) :: (rootino, dotdot) :: entriesFrom 2 files

def stored (es : List (Nat × List UInt8)) : List UInt8 := es.flatMap fun e => dirent e.1 e.2

/-- The `j`-th entry of a directory, with zeros behind the last one. -/
def entryAt (es : List (Nat × List UInt8)) (j : Nat) : List UInt8 :=
  (es[j]?.map fun e => dirent e.1 e.2).getD (List.replicate 16 0)

variable {files : List Input} {f : Input} {es : List (Nat × List UInt8)} {i j : Nat}

lemma length_entryAt (es : List (Nat × List UInt8)) (j : Nat) : (entryAt es j).length = 16 := by
  rw [entryAt]
  cases es[j]? with
  | none => rfl
  | some e => exact length_dirent e.1 e.2

lemma bytesAt_stored (es : List (Nat × List UInt8)) (j : Nat) :
    bytesAt (stored es) (16 * j) 16 = entryAt es j := by
  induction es generalizing j with
  | nil => simp [bytesAt, stored, entryAt]
  | cons e es ih =>
    have len := length_dirent e.1 e.2
    cases j with
    | zero =>
      show bytesAt (dirent e.1 e.2 ++ stored es) 0 16 = dirent e.1 e.2
      rw [bytesAt_eq (by rw [length_append]; omega), drop_zero, take_left' len]
    | succ j =>
      show bytesAt (dirent e.1 e.2 ++ stored es) (16 * (j + 1)) 16 = entryAt es j
      rw [← ih j]
      refine map_congr_left fun i _ => ?_
      rw [getD_append_right _ _ _ _ (by omega), len]
      congr 1
      omega

variable {c : Nat → List UInt8}

lemma contentsFrom_root (low : 2 ≤ i) :
    contentsFrom i c files rootino = c rootino ++ stored (entriesFrom i files) := by
  induction files generalizing i c with
  | nil => exact (append_nil _).symm
  | cons f fs ih =>
    rw [contentsFrom, ih (by omega), update_of_ne (by simp only [rootino]; omega),
      update_self, append_assoc]
    rfl

lemma contents_root (files : List Input) : contents files rootino = stored (entries files) := by
  rw [contents, contentsFrom_root le_rfl, update_self, dots, append_assoc]
  rfl

lemma contentsFrom_before {k : Nat} (lt : k < i) (ne : k ≠ rootino) :
    contentsFrom i c files k = c k := by
  induction files generalizing i c with
  | nil => rfl
  | cons f fs ih => rw [contentsFrom, ih (by omega), update_of_ne (by omega), update_of_ne ne]

lemma contentsFrom_after {i k : Nat} (le : i + files.length ≤ k) (ne : k ≠ rootino) :
    contentsFrom i c files k = c k := by
  induction files generalizing i c with
  | nil => rfl
  | cons f fs ih =>
    rw [length_cons] at le
    rw [contentsFrom, ih (by omega), update_of_ne (by omega), update_of_ne ne]

lemma contentsFrom_file (low : 2 ≤ i) (here : files[j]? = some f) :
    contentsFrom i c files (i + j) = f.bytes := by
  induction files generalizing i j c with
  | nil => cases here
  | cons g fs ih =>
    rw [contentsFrom]
    cases j with
    | zero =>
      cases here
      rw [contentsFrom_before (by omega) (by simp only [rootino]; omega)]
      exact update_self ..
    | succ j =>
      rw [show i + (j + 1) = i + 1 + j by omega]
      exact ih (by omega) here

lemma getElem?_entriesFrom (i j : Nat) :
    (entriesFrom i files)[j]? = files[j]?.map fun f => (i + j, f.name) := by
  induction files generalizing i j with
  | nil => rfl
  | cons g fs ih =>
    cases j with
    | zero => rfl
    | succ j =>
      show (entriesFrom (i + 1) fs)[j]? = fs[j]?.map fun f => (i + (j + 1), f.name)
      rw [ih, show i + 1 + j = i + (j + 1) by omega]

structure Names (files : List Input) : Prop where
  distinct : (files.map Input.name).Nodup
  short : ∀ f ∈ files, f.name ≠ [] ∧ f.name.length ≤ dirsiz
  text : ∀ f ∈ files, (0 : UInt8) ∉ f.name
  dots : ∀ f ∈ files, f.name ≠ dot ∧ f.name ≠ dotdot

instance (files : List Input) : Decidable (Names files) :=
  decidable_of_iff
    ((files.map Input.name).Nodup ∧ (∀ f ∈ files, f.name ≠ [] ∧ f.name.length ≤ dirsiz) ∧
      (∀ f ∈ files, (0 : UInt8) ∉ f.name) ∧ ∀ f ∈ files, f.name ≠ dot ∧ f.name ≠ dotdot)
    ⟨fun h => ⟨h.1, h.2.1, h.2.2.1, h.2.2.2⟩, fun h => ⟨h.distinct, h.short, h.text, h.dots⟩⟩

lemma entries_whole (names : Names files) (fits : Fits files)
    {e : Nat × List UInt8} (here : (entries files)[j]? = some e) :
    e.1 ≠ 0 ∧ e.1 < 65536 ∧ e.2.length ≤ dirsiz ∧ (0 : UInt8) ∉ e.2 := by
  have inodes := fits.inodes
  match j, here with
  | 0, here =>
    cases here
    decide
  | 1, here =>
    cases here
    decide
  | j + 2, here =>
    have here : (entriesFrom 2 files)[j]? = some e := here
    rw [getElem?_entriesFrom] at here
    obtain ⟨f, there, rfl⟩ := map_eq_some_iff.mp here
    have mem := mem_of_getElem? there
    have lt := (List.getElem?_eq_some_iff.mp there).1
    refine ⟨by omega, ?_, (names.short f mem).2, names.text f mem⟩
    simp only [ninodes] at inodes
    show 2 + j < 65536
    omega

lemma inum_dirent {k : Nat} (lt : k < 65536) : inum (dirent k name) = k := by
  simp [inum, dirent, UInt8.toNat_ofNat']
  omega

lemma matches_entryAt (names : Names files) (fits : Fits files) (text : (0 : UInt8) ∉ name) :
    Matches name (entryAt (entries files) j) ↔ ∃ e, (entries files)[j]? = some e ∧
    name.take dirsiz = e.2 := by
  rw [entryAt]
  cases here : (entries files)[j]? with
  | none =>
    refine iff_of_false (fun h => h.1 rfl) ?_
    rintro ⟨e, eq, -⟩
    cases eq
  | some e =>
    obtain ⟨some, lt, short, whole⟩ := entries_whole names fits here
    have cut : (dirent e.1 e.2).drop 2 = e.2 ++ replicate (dirsiz - e.2.length) 0 := by
      rw [dirent, take_of_length_le short]
      rfl
    show inum (dirent e.1 e.2) ≠ 0 ∧ namecmp name ((dirent e.1 e.2).drop 2) = 0 ↔ _
    rw [inum_dirent lt, cut, namecmp, strncmp_stored text whole short]
    refine ⟨fun h => ⟨e, rfl, h.2⟩, ?_⟩
    rintro ⟨_, eq, same⟩
    cases eq
    exact ⟨some, same⟩

/-! ### The image -/

def superblock : Superblock := ⟨fssize, nmeta - nbitmap, nmeta - nbitmap - ninodeblocks⟩

section Image
variable {st : Mkfs.State}

lemma filled_final (h : Ready st (contents files)) (n stop : Nat)
    (whole : ∀ i, i < stop → i / 1024 * 1024 < (contents files n).length) :
    Filled ⟨final st, []⟩ n stop (contents files n) := by
  have holds := h.made.holds n
  have fits := holds.fits
  intro i lt
  have reach := whole i lt
  have inside : i / 1024 < maxfile := by
    simp only [maxfile, ndirect, nindirect] at *
    omega
  show _ ∧ (final st).blockAt _ ≠ 0 ∧ st.img.block ((final st).blockAt _) _ = _
  rw [final_blockAt]
  have some := (holds.slots _ inside).mpr reach
  exact ⟨inside, some, holds.bytes i some inside⟩

lemma length_root (files : List Input) :
    (contents files rootino).length = 16 * (files.length + 2) := by
  rw [length_contents_root]
  omega

lemma reads_root {s : Fs.Op} (h : Filled s rootino stop (contents files rootino))
    (le : stop ≤ (s.img.dinode rootino).size) (small : stop < 2 ^ 32) (lt : 16 * j + 16 ≤ stop) :
    readi sb rootino s (16 * j) 16 = some (s, entryAt (entries files) j) := by
  rw [readi_filled h le lt (by omega), contents_root, bytesAt_stored]

lemma final_type (st : Mkfs.State) (n : Nat) :
    ((final st).dinode n).type = (st.img.dinode n).type := by
  by_cases root : n = rootino
  · rw [root]
    simp [final, Mkfs.balloc, fixRoot]
  simp [final, Mkfs.balloc, fixRoot, root]

lemma final_rootType {st : Mkfs.State} (typed : Typed st) :
    ((final st).dinode rootino).type = .dir := (final_type st rootino).trans typed.1

lemma final_rootSize (h : Ready st (contents files)) :
    ((final st).dinode rootino).size = ((files.length + 2) / 64 + 1) * 1024 := by
  rw [final_size, if_pos rfl, h.size, length_root]
  simp only [bsize]
  omega

lemma getElem?_entries (i : Nat) :
    (entries files)[i + 2]? = files[i]?.map fun f => (2 + i, f.name) := getElem?_entriesFrom 2 i

lemma contents_file (here : files[i]? = some f) : contents files (i + 2) = f.bytes := by
  rw [Nat.add_comm]
  exact contentsFrom_file le_rfl here

lemma name_single (fits : Fits files) (mem : f ∈ files) : (47 : UInt8) ∉ f.name := by
  have single : (47 : UInt8) ∉ f.shortname := by
    have := fits.names f mem
    simpa using this
  rw [Input.name]
  split_ifs
  · exact fun inside => single (mem_of_mem_drop inside)
  exact single

lemma no_match (names : Names files) (fits : Fits files) (text : (0 : UInt8) ∉ q.take dirsiz)
    (notDot : q.take dirsiz ≠ dot) (notDotdot : q.take dirsiz ≠ dotdot) (new : ∀ f ∈ files,
    q.take dirsiz ≠ f.name) (j : Nat) : ¬ Matches (q.take dirsiz) (entryAt (entries files) j) := by
  intro found
  obtain ⟨e, there, same⟩ := (matches_entryAt names fits text).mp found
  rw [take_take, Nat.min_self] at same
  match j, there with
  | 0, there =>
    cases there
    exact notDot same
  | 1, there =>
    cases there
    exact notDotdot same
  | j + 2, there =>
    rw [getElem?_entries] at there
    obtain ⟨g, here, rfl⟩ := map_eq_some_iff.mp there
    exact new g (mem_of_getElem? here) same

lemma no_earlier_match (names : Names files) (fits : Fits files) (text : (0 : UInt8) ∉ name)
    (here : files[i]? = some f) (cut : name.take dirsiz = f.name) (lt : j < i + 2) :
    ¬ Matches name (entryAt (entries files) j) := by
  intro found
  obtain ⟨e, there, same⟩ := (matches_entryAt names fits text).mp found
  have mem := mem_of_getElem? here
  match j, there with
  | 0, there =>
    cases there
    exact (names.dots f mem).1 (cut.symm.trans same)
  | 1, there =>
    cases there
    exact (names.dots f mem).2 (cut.symm.trans same)
  | j + 2, there =>
    rw [getElem?_entries] at there
    obtain ⟨g, earlier, rfl⟩ := map_eq_some_iff.mp there
    have inside := (List.getElem?_eq_some_iff.mp here).1
    refine List.nodup_iff_getElem?_ne_getElem?.mp names.distinct j i (by omega)
      (by rw [length_map]; exact inside) ?_
    rw [List.getElem?_map, List.getElem?_map, earlier, here, map_some, map_some, ← cut, same]

lemma dirlookup_found (h : Ready st (contents files)) (typed : Typed st)
    (fits : Fits files) (names : Names files) (text : (0 : UInt8) ∉ name)
    (here : files[i]? = some f) (cut : name.take dirsiz = f.name) :
    dirlookup superblock rootino name ⟨final st, []⟩ = some (⟨final st, []⟩, some (i + 2)) := by
  have inodes := fits.inodes
  simp only [ninodes] at inodes
  have inside := (List.getElem?_eq_some_iff.mp here).1
  have size := final_rootSize h
  have filled := filled_final h rootino (16 * (files.length + 2)) fun k lt => by
    rw [length_root]
    omega
  have reads : ∀ k, k < files.length + 2 → readi superblock rootino ⟨final st, []⟩ (16 * k) 16 =
    some (⟨final st, []⟩, entryAt (entries files) k) := fun k lt => reads_root filled
    (by show _ ≤ ((final st).dinode rootino).size; omega) (by omega) (by omega)
  have entry : (entries files)[i + 2]? = some (2 + i, f.name) := by
    rw [getElem?_entries, here]
    rfl
  have skip : dirlookupLoop superblock rootino name ((final st).dinode rootino).size (16 * 0)
      ⟨final st, []⟩ = dirlookupLoop superblock rootino name ((final st).dinode rootino).size
        (16 * (i + 2)) ⟨final st, []⟩ :=
    dirlookupLoop_skip (Nat.zero_le _) (fun k lt => by omega) (fun k lt => reads k (by omega))
      (fun i _ => length_entryAt _ i) fun k lt => no_earlier_match names fits text here cut lt
  rw [Nat.mul_zero] at skip
  have type := final_rootType typed
  rw [dirlookup, if_neg (not_not.mpr type)]
  show dirlookupLoop _ _ _ ((final st).dinode rootino).size 0 _ = _
  rw [skip, dirlookupLoop_match (by omega) (reads (i + 2) (by omega)) (length_entryAt _ _)
    ((matches_entryAt names fits text).mpr ⟨_, entry, cut⟩), entryAt, entry]
  show some (_, some (inum (dirent (2 + i) f.name))) = _
  rw [inum_dirent (by omega), Nat.add_comm]

lemma namei_root (typed : Typed st) (cwd : Nat) (some : q ≠ []) (single : (47 : UInt8) ∉ q) :
    namei superblock cwd (47 :: q) ⟨final st, []⟩ =
      match dirlookup superblock rootino (q.take dirsiz) ⟨final st, []⟩ with
      | none => none
      | .some (s, none) => .some (s, none)
      | .some (s, .some next) => .some (s, .some next) := by
  have type := final_rootType typed
  rw [namei, head?_cons, if_pos rfl, length_cons, namexLoop, skipelem_root some single]
  show (if ((final st).dinode rootino).type = .none then none else
    if ((final st).dinode rootino).type ≠ .dir then _ else _) = _
  rw [type, if_neg (by decide), if_neg (not_not.mpr rfl)]
  rcases dirlookup superblock rootino (q.take dirsiz) ⟨final st, []⟩ with _ | ⟨s, _ | next⟩
  · rfl
  · rfl
  rfl

lemma namei_found (h : Ready st (contents files)) (typed : Typed st) (fits : Fits files)
    (names : Names files) (cwd : Nat) (some : q ≠ []) (single : (47 : UInt8) ∉ q)
    (text : (0 : UInt8) ∉ q) (here : files[i]? = .some f) (cut : q.take dirsiz = f.name) :
    namei superblock cwd (47 :: q) ⟨final st, []⟩ = .some (⟨final st, []⟩, .some (i + 2)) := by
  rw [namei_root typed cwd some single, dirlookup_found h typed fits names
    (fun mem => text (mem_of_mem_take mem)) here (by rw [take_take, Nat.min_self, cut])]

lemma dirlookupLoop_absent {s : Fs.Op} {k z : Nat} (h :
    Filled s rootino (16 * z) (contents files rootino)) (le : 16 * z ≤ (s.img.dinode rootino).size)
    (small : 16 * z < 2 ^ 32) (no : ∀ j, ¬ Matches name (entryAt (entries files) j))
    (inside : k ≤ z) : dirlookupLoop sb rootino name (16 * z) (16 * k) s = some (s, none) := by
  rw [dirlookupLoop_skip inside (fun i lt => by omega)
    (fun i lt => reads_root h le small (by omega)) (fun i _ => length_entryAt _ i) fun i _ => no i]
  exact dirlookupLoop_end le_rfl

/-! ### The hole behind a full root directory -/

lemma balloc_ne_zero {b : Nat} (lt : b < sb.size) (free : s.img.used b = false)
    (boot : s.img.used 0 = true) : (Fs.balloc sb s).2 ≠ 0 := by
  unfold Fs.balloc
  cases found : (range sb.size).find? fun b => !s.img.used b with
  | none => grind
  | some x => grind

lemma ledger_final (h : Ready st (contents files)) :
    Ledger superblock (final st).blockAt (final st) := by
  have layout := h.made.layout
  have upper := layout.upper
  have lower := layout.lower
  have start : superblock.datastart = nmeta := rfl
  refine ⟨?_, fun b low => decide_eq_true (by omega)⟩
  have live : (final st).live superblock = {b | nmeta ≤ b ∧ b < st.freeblock} := by
    ext b
    show superblock.datastart ≤ b ∧ b < fssize ∧ decide (b < st.freeblock) = true ↔
      nmeta ≤ b ∧ b < st.freeblock
    rw [start, decide_eq_true_iff]
    exact ⟨fun h => ⟨h.1, h.2.2⟩, fun h => ⟨h.1, h.2.trans_le upper, h.2⟩⟩
  rw [live, final_blockAt]
  exact layout.exact

lemma root_hole (h : Ready st (contents files)) (fits : Fits files)
    (whole : (files.length + 2) % 64 = 0) : (files.length + 2) / 64 < ndirect ∧
    ((final st).dinode rootino).addrs ((files.length + 2) / 64) = 0 := by
  have inodes := fits.inodes
  simp only [ninodes] at inodes
  have small : (files.length + 2) / 64 < ndirect := by
    simp only [ndirect]
    omega
  have length := length_root files
  have place : (final st).blockAt (rootino, slot ((files.length + 2) / 64)) =
      ((final st).dinode rootino).addrs ((files.length + 2) / 64) := by
    rw [slot_direct small]
    rfl
  refine ⟨small, ?_⟩
  rw [← place, final_blockAt]
  refine of_not_not fun some => ?_
  have := ((h.made.holds rootino).slots _ (small.trans (by decide))).mp some
  omega

lemma bmap_hole (h : Ready st (contents files)) (fits : Fits files)
    (whole : (files.length + 2) % 64 = 0) (room : st.freeblock < fssize) :
    ∃ s, bmap superblock rootino ⟨final st, []⟩ ((files.length + 2) / 64) =
    some (s, s.img.blockAt (rootino, slot ((files.length + 2) / 64))) ∧
    (s.img.dinode rootino).size = ((final st).dinode rootino).size ∧
    Filled s rootino (((files.length + 2) / 64 + 1) * 1024) (contents files rootino) := by
  obtain ⟨small, absent⟩ := root_hole h fits whole
  have inside : (files.length + 2) / 64 < maxfile := small.trans (by decide)
  have ledger := ledger_final h
  have length := length_root files
  have ne : (Fs.balloc superblock ⟨final st, []⟩).2 ≠ 0 :=
    balloc_ne_zero room (decide_eq_false (Nat.lt_irrefl _)) (ledger.metadata 0 (by decide))
  obtain ⟨-, unused, img⟩ :=
    (balloc_cases superblock ⟨final st, []⟩).resolve_left fun full => ne full.1
  have filled := filled_final h rootino (16 * (files.length + 2)) fun k lt => by omega
  have step : bmap superblock rootino ⟨final st, []⟩ ((files.length + 2) / 64) =
      some ((Fs.balloc superblock ⟨final st, []⟩).1.setAddr rootino ((files.length + 2) / 64)
        (Fs.balloc superblock ⟨final st, []⟩).2, (Fs.balloc superblock ⟨final st, []⟩).2) := by
    rw [bmap, if_pos small, bmapAddr, if_neg (not_not.mpr absent)]
    simp only [if_neg ne]
  generalize (Fs.balloc superblock ⟨final st, []⟩).2 = b at *
  have blockAt : ((Fs.balloc superblock ⟨final st, []⟩).1.setAddr rootino
      ((files.length + 2) / 64) b).img.blockAt =
      update (final st).blockAt (rootino, slot ((files.length + 2) / 64)) b := by
    rw [Fs.Op.setAddr, img, ← ledger.blockAt_fresh ne unused, slot_direct small]
    exact blockAt_setDirect ⟨_, small⟩
  refine ⟨(Fs.balloc superblock ⟨final st, []⟩).1.setAddr rootino ((files.length + 2) / 64) b, ?_,
    ?_, fun i lt => ?_⟩
  · rw [step, blockAt, update_self]
  · rw [Fs.Op.setAddr, img]
    show (update (final st).dinode rootino _ rootino).size = _
    rw [update_self]
    rfl
  rw [blockAt, Fs.Op.setAddr, img]
  show _ ∧ _ ∧ update (final st).block b zeroBlock _ _ = _
  by_cases last : i / 1024 = (files.length + 2) / 64
  · rw [last, update_self, update_self, getD_eq_default _ _ (by omega)]
    exact ⟨inside, ne, rfl⟩
  obtain ⟨fits, some, byte⟩ := filled i (by omega)
  have far : ((rootino, slot (i / 1024)) : Place) ≠ (rootino, slot ((files.length + 2) / 64)) :=
    fun eq => last (slot_injective fits inside (congrArg Prod.snd eq))
  rw [update_of_ne far, update_of_ne (ledger.ne_of_unused ne unused _)]
  exact ⟨fits, some, byte⟩

lemma readi_congr {s s' : Fs.Op} (size : (s'.img.dinode n).size = (s.img.dinode n).size)
    (inside : off + count ≤ (s.img.dinode n).size) (small : off + count < 2 ^ 32)
    (pos : 0 < count) (same : bmap sb n s (off / bsize) = bmap sb n s' (off / bsize)) :
    readi sb n s off count = readi sb n s' off count := by
  rw [readi_inside inside small, readi_inside (by rwa [size]) small, readiLoop.eq_def,
    readiLoop.eq_def sb n count 0 off [] s', if_pos pos, if_pos pos, same]

lemma dirlookupLoop_congr {s s' : Fs.Op} {size : Nat} (lt : off < size)
    (same : readi sb n s off 16 = readi sb n s' off 16) :
    dirlookupLoop sb n name size off s = dirlookupLoop sb n name size off s' := by
  rw [dirlookupLoop.eq_def, dirlookupLoop.eq_def sb n name size off s', if_pos lt, if_pos lt, same]

section
variable (h : Ready st (contents files)) (typed : Typed st) (fits : Fits files)
  (no : ∀ j, ¬ Matches name (entryAt (entries files) j))
include h typed fits no

lemma dirlookup_absent (room : (files.length + 2) % 64 ≠ 0 ∨ st.freeblock < fssize) :
    ∃ s, dirlookup superblock rootino name ⟨final st, []⟩ = some (s, none) := by
  have inodes := fits.inodes
  simp only [ninodes] at inodes
  have length := length_root files
  have size : ((final st).dinode rootino).size = 16 * (((files.length + 2) / 64 + 1) * 64) := by
    rw [final_rootSize h]
    omega
  have type := final_rootType typed
  rw [dirlookup, if_neg (not_not.mpr type)]
  show ∃ s, dirlookupLoop _ _ _ ((final st).dinode rootino).size (16 * 0) _ = _
  rw [size]
  by_cases whole : (files.length + 2) % 64 = 0
  · obtain ⟨s, step, same, filled⟩ := bmap_hole h fits whole (room.resolve_left (not_not.mpr whole))
    have before := filled_final h rootino (16 * (files.length + 2)) fun k lt => by omega
    have filled : Filled s rootino (16 * (((files.length + 2) / 64 + 1) * 64))
        (contents files rootino) := fun i lt => filled i (by omega)
    obtain ⟨inside, some, -⟩ := filled (16 * (files.length + 2)) (by omega)
    have block : 16 * (files.length + 2) / bsize = (files.length + 2) / 64 := by
      simp only [bsize]
      omega
    have again : bmap superblock rootino s _ = _ := bmap_found inside some
    have reread : readi superblock rootino ⟨final st, []⟩ (16 * (files.length + 2)) 16 =
        readi superblock rootino s (16 * (files.length + 2)) 16 := by
      refine readi_congr same (by show _ ≤ ((final st).dinode rootino).size; omega) (by omega)
        (by omega) ?_
      rw [block, step]
      rw [show 16 * (files.length + 2) / 1024 = (files.length + 2) / 64 by omega] at again
      exact again.symm
    refine ⟨s, ?_⟩
    rw [dirlookupLoop_skip (Nat.zero_le (files.length + 2)) (fun i lt => by omega)
      (fun i lt => reads_root before (by show _ ≤ ((final st).dinode rootino).size; omega)
        (by omega) (by omega)) (fun i _ => length_entryAt _ i) fun i _ => no i]
    rw [dirlookupLoop_congr (by omega) reread]
    exact dirlookupLoop_absent filled (by omega) (by omega) no (by omega)
  refine ⟨_, dirlookupLoop_absent (filled_final h rootino _ fun i lt => ?_) (by
    show _ ≤ ((final st).dinode rootino).size
    omega) (by omega) no (Nat.zero_le _)⟩
  omega

lemma dirlookup_full (whole : (files.length + 2) % 64 = 0) (full : st.freeblock = fssize) :
    dirlookup superblock rootino name ⟨final st, []⟩ = none := by
  have inodes := fits.inodes
  simp only [ninodes] at inodes
  have length := length_root files
  obtain ⟨small, absent⟩ := root_hole h fits whole
  have size := final_rootSize h
  have type := final_rootType typed
  have before := filled_final h rootino (16 * (files.length + 2)) fun k lt => by omega
  have none : (Fs.balloc superblock ⟨final st, []⟩).2 = 0 := by
    rcases balloc_cases superblock ⟨final st, []⟩ with ⟨none, -⟩ | ⟨lt, unused, -⟩
    · exact none
    exact absurd (full.symm ▸ lt) (of_decide_eq_false unused)
  have step : bmap superblock rootino ⟨final st, []⟩ (16 * (files.length + 2) / bsize) =
      some (Fs.balloc superblock ⟨final st, []⟩) := by
    rw [show 16 * (files.length + 2) / bsize = (files.length + 2) / 64 by simp only [bsize]; omega,
      bmap, if_pos small, bmapAddr, if_neg (not_not.mpr absent)]
    simp only [if_pos none]
  rw [dirlookup, if_neg (not_not.mpr type)]
  show dirlookupLoop _ _ _ ((final st).dinode rootino).size (16 * 0) _ = _
  rw [dirlookupLoop_skip (Nat.zero_le (files.length + 2)) (fun i lt => by omega)
    (fun i lt => reads_root before (by show _ ≤ ((final st).dinode rootino).size; omega)
      (by omega) (by omega)) (fun i _ => length_entryAt _ i) fun i _ => no i]
  rw [dirlookupLoop.eq_def, if_pos (by omega), readi_inside
    (by show _ ≤ ((final st).dinode rootino).size; omega) (by omega), readiLoop.eq_def,
    if_pos (by omega), step, bind_some, if_pos none]
  rfl

end

lemma blockAt_of_free (h : Ready st (contents files)) (typed : Typed st)
    (inode : st.freeinode = files.length + 2) {n : Nat} (none : (st.img.dinode n).type = .none)
    (l : Loc) : st.img.blockAt (n, l) = 0 := by
  have root : n ≠ rootino := by
    rintro rfl
    cases typed.1.symm.trans none
  have outside : n < 2 ∨ 2 + files.length ≤ n := by
    by_contra inside
    cases (typed.2 n (by omega) (by omega)).symm.trans none
  have empty : contents files n = [] := by
    rw [contents, outside.elim (contentsFrom_before · root) (contentsFrom_after · root),
      update_of_ne root]
  obtain ⟨slots, indirect, -, -⟩ := empty ▸ h.made.holds n
  by_contra some
  cases l with
  | indirect => exact absurd (indirect.mp some) (Nat.not_lt_zero _)
  | direct k =>
    rw [← slot_direct k.2] at some
    exact absurd ((slots k (by have := k.2; simp only [ndirect, maxfile] at *; omega)).mp some)
      (Nat.not_lt_zero _)
  | entry j =>
    rw [show Loc.entry j = slot (ndirect + j) by simp [slot]] at some
    exact absurd ((slots _ (Nat.add_lt_add_left j.2 _)).mp some) (Nat.not_lt_zero _)

lemma main_sound (fits : Fits files) (room : (files.length + 2) % 64 ≠ 0) :
    ∃ m, main files = some m ∧ Fs.Sound superblock m := by
  obtain ⟨s, run, ready, inode, typed⟩ := body_spec fits
  have layout := ready.made.layout
  have upper := layout.upper
  have start : superblock.datastart = nmeta := by decide
  have size : superblock.size = fssize := rfl
  have used (b : Nat) : (final s).used b = true ↔ b < s.freeblock := decide_eq_true_iff
  refine ⟨final s, ?_, ⟨?_, fun b low => ?_⟩, fun n none l => ?_,
    (final_filled_iff ready fits).mpr room, fun n => ?_⟩
  · rw [main, run, bind_some, if_pos (lt_of_le_of_lt upper (by decide))]
    rfl
  · have live : (final s).live superblock = {b | nmeta ≤ b ∧ b < s.freeblock} := by
      ext b
      simp only [Image.live, start, size, used, Set.mem_ofPred_eq]
      omega
    rw [live, final_blockAt]
    exact layout.exact
  · exact (used b).mpr (lt_of_lt_of_le (start ▸ low) layout.lower)
  · have type : ((final s).dinode n).type = (s.img.dinode n).type := by
      by_cases root : n = rootino <;> simp [final, Mkfs.balloc, fixRoot, root]
    rw [final_blockAt]
    exact blockAt_of_free ready typed inode (type ▸ none) l
  · have inodes := fits.inodes
    rw [final_size, ready.size]
    split_ifs with root
    · rw [root, length_contents_root]
      simp only [ninodes, maxfile, ndirect, nindirect, bsize] at *
      omega
    · exact (ready.made.holds n).fits

end Image

/-- On the image that mkfs writes, the kernel finds each file under its name with its size and
bytes. A name is not found if its first `DIRSIZ` bytes are no name in the root directory, when this
directory has no hole or there is a block for it. -/
theorem image_reads_back (files : List Input) (fits : Fits files) (names : Names files)
    (cwd : Nat) :
    ∃ m, main files = some m ∧
      (∀ i f, files[i]? = some f →
        namei superblock cwd (47 :: f.name) ⟨m, []⟩ = some (⟨m, []⟩, some (i + 2)) ∧
        (m.dinode (i + 2)).size = f.bytes.length ∧
        ∀ off count, off ≤ f.bytes.length → off + count < 2 ^ 32 →
          readi superblock (i + 2) ⟨m, []⟩ off count =
            some (⟨m, []⟩, (f.bytes.drop off).take count)) ∧
      ∀ q, q ≠ [] → (47 : UInt8) ∉ q → (0 : UInt8) ∉ q → q.take dirsiz ≠ dot →
        q.take dirsiz ≠ dotdot → (∀ f ∈ files, q.take dirsiz ≠ f.name) →
        ((files.length + 2) % 64 ≠ 0 ∨ nmeta + total (contents files) < fssize) →
        ∃ s, namei superblock cwd (47 :: q) ⟨m, []⟩ = some (s, none) := by
  obtain ⟨st, run, ready, typed⟩ := main_spec fits
  refine ⟨final st, run, fun i f here => ⟨?_, ?_, ?_⟩, ?_⟩
  · have mem := mem_of_getElem? here
    exact namei_found ready typed fits names cwd (names.short f mem).1 (name_single fits mem)
      (names.text f mem) here (take_of_length_le (names.short f mem).2)
  · rw [final_size, if_neg (by simp only [rootino]; omega), ready.size, contents_file here]
  · intro off count le small
    have filled := filled_final ready (i + 2) f.bytes.length fun k lt => by
      rw [contents_file here]
      omega
    rw [contents_file here] at filled
    refine readi_file filled ?_ le small
    show ((final st).dinode (i + 2)).size = _
    rw [final_size, if_neg (by simp only [rootino]; omega), ready.size, contents_file here]
  intro q some single text notDot notDotdot new room
  have text' : (0 : UInt8) ∉ q.take dirsiz := fun mem => text (mem_of_mem_take mem)
  rw [← ready.made.count] at room
  obtain ⟨s, absent⟩ := dirlookup_absent ready typed fits
    (no_match names fits text' notDot notDotdot new) room
  refine ⟨s, ?_⟩
  rw [namei_root typed cwd some single, absent]

lemma full_image_lookup_panics (files : List Input) (fits : Fits files)
    (names : Names files) (cwd : Nat) (some : q ≠ []) (single : (47 : UInt8) ∉ q)
    (text : (0 : UInt8) ∉ q) (notDot : q.take dirsiz ≠ dot)
    (notDotdot : q.take dirsiz ≠ dotdot) (new : ∀ f ∈ files, q.take dirsiz ≠ f.name)
    (whole : (files.length + 2) % 64 = 0) (full : nmeta + total (contents files) = fssize) :
    ∃ m, main files = .some m ∧ namei superblock cwd (47 :: q) ⟨m, []⟩ = none := by
  obtain ⟨st, run, ready, typed⟩ := main_spec fits
  have text' : (0 : UInt8) ∉ q.take dirsiz := fun mem => text (mem_of_mem_take mem)
  refine ⟨final st, run, ?_⟩
  rw [namei_root typed cwd some single, dirlookup_full ready typed fits
    (no_match names fits text' notDot notDotdot new) whole (ready.made.count.trans full)]

def longName : List Input :=
  [⟨[97, 98, 99, 100, 101, 102, 103, 104, 105, 106, 107, 108, 109, 110], [[1, 2], [3]]⟩]

lemma longName_accepted : Fits longName ∧ Names longName := by decide +kernel

theorem long_name_reads_back :
    Fits longName ∧ Names longName ∧ ∃ m, main longName = some m ∧
      readi superblock 2 ⟨m, []⟩ 0 3 = some (⟨m, []⟩, [1, 2, 3]) ∧
      ∃ s, namei superblock rootino [47, 98] ⟨m, []⟩ = some (s, none) := by
  obtain ⟨fits, names⟩ := longName_accepted
  obtain ⟨m, run, found, absent⟩ := image_reads_back longName fits names rootino
  refine ⟨fits, names, m, run, ?_, ?_⟩
  · exact (found 0 _ rfl).2.2 0 3 (by decide) (by decide)
  exact absent [98] (by decide) (by decide) (by decide) (by decide) (by decide) (by decide)
    (.inl (by decide))

/-- A path with one more byte finds the same file. -/
theorem longer_name_is_found :
    Fits longName ∧ Names longName ∧
      (∀ f ∈ longName, f.name ++ [111] ≠ dot ∧ f.name ++ [111] ≠ dotdot ∧
        (47 : UInt8) ∉ f.name ++ [111] ∧ ∀ g ∈ longName, g.name ≠ f.name ++ [111]) ∧
      ∃ m, main longName = some m ∧ ∀ f ∈ longName,
        namei superblock rootino (47 :: (f.name ++ [111])) ⟨m, []⟩ = some (⟨m, []⟩, some 2) := by
  obtain ⟨fits, names⟩ := longName_accepted
  obtain ⟨st, run, ready, typed⟩ := main_spec fits
  refine ⟨fits, names, by decide +kernel, final st, run, fun f mem => ?_⟩
  obtain rfl := mem_singleton.mp mem
  exact namei_found ready typed fits names rootino (by decide) (by decide) (by decide) rfl
    (by decide)

/-- From the image that mkfs writes, unless its entries fill the last block of the root directory,
the kernel reaches only images in which each block has one owner and no file has a hole. -/
theorem mkfs_image_stays_sound (files : List Input) (fits : Fits files)
    (room : (files.length + 2) % 64 ≠ 0) : ∃ m₀, main files = some m₀ ∧ ∀ es m,
      Interleaving.Run (change superblock) Allowed m₀ es m → Fs.Sound superblock m := by
  obtain ⟨m₀, made, sound⟩ := main_sound fits room
  refine ⟨m₀, made, fun es m run => run.invariant (fun m e m' h allowed next => ?_) sound⟩
  obtain ⟨_, eq, kept⟩ := h.change (by decide) allowed
  cases eq.symm.trans next
  exact kept

theorem longName_image_stays_sound : Fits longName ∧ ∃ m₀, main longName = some m₀ ∧ ∀ es m,
    Interleaving.Run (change superblock) Allowed m₀ es m → Fs.Sound superblock m :=
  ⟨longName_accepted.1, mkfs_image_stays_sound _ longName_accepted.1 (by decide)⟩

end Xv6.Namei
