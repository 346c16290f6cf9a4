import Xv6.MkfsAppend

/-! The image that mkfs writes: which files it holds, and when it is consistent. -/
namespace Xv6.Mkfs
open Fs List Option Image
open Function (update update_eq_self update_idem update_of_ne update_self)

/-- What the files hold after the arguments `files`, the first of which becomes inode `i`. -/
def contentsFrom : Nat → (Nat → List UInt8) → List Input → Nat → List UInt8
  | _, c, [] => c
  | i, c, f :: fs =>
    contentsFrom (i + 1)
      (update (update c rootino (c rootino ++ dirent i f.name)) i f.bytes) fs

def dots : List UInt8 := dirent rootino dot ++ dirent rootino dotdot

def contents (files : List Input) : Nat → List UInt8 :=
  contentsFrom 2 (update (fun _ => []) rootino dots) files

structure Fits (files : List Input) : Prop where
  inodes : files.length + 2 ≤ ninodes
  names : ∀ f ∈ files, f.shortname.contains 47 = false
  sizes : ∀ f ∈ files, f.bytes.length ≤ maxfile * 1024
  blocks : nmeta + total (contents files) ≤ fssize

instance (files : List Input) : Decidable (Fits files) :=
  decidable_of_iff
    (files.length + 2 ≤ ninodes ∧ (∀ f ∈ files, f.shortname.contains 47 = false) ∧
      (∀ f ∈ files, f.bytes.length ≤ maxfile * 1024) ∧ nmeta + total (contents files) ≤ fssize)
    ⟨fun h => ⟨h.1, h.2.1, h.2.2.1, h.2.2.2⟩, fun h => ⟨h.inodes, h.names, h.sizes, h.blocks⟩⟩

lemma length_dirent (n : Nat) (name : List UInt8) : (dirent n name).length = 16 := by
  simp only [dirent, length_append, length_cons, length_nil, length_take, length_replicate, dirsiz]
  omega

section
variable {c : Nat → List UInt8} {i : Nat} {files : List Input}

lemma length_le_contentsFrom (new : ∀ k, i ≤ k → c k = []) (low : 2 ≤ i) (k : Nat) :
    (c k).length ≤ (contentsFrom i c files k).length := by
  induction files generalizing i c with
  | nil => exact le_rfl
  | cons f fs ih =>
    refine le_trans ?_ (ih (fun k le => ?_) (by omega))
    · by_cases own : k = i
      · rw [own, new i le_rfl]
        exact Nat.zero_le _
      rw [update_of_ne own]
      by_cases root : k = rootino
      · rw [root, update_self, length_append]
        exact Nat.le_add_right _ _
      rw [update_of_ne root]
    rw [update_of_ne (by omega), update_of_ne (by simp only [rootino]; omega)]
    exact new k (by omega)

lemma total_le (le : ∀ k, (c k).length ≤ (contents files k).length) :
    total c ≤ total (contents files) := Finset.sum_le_sum fun k _ => need_mono (le k)

lemma length_contentsFrom_root (low : 2 ≤ i) :
    (contentsFrom i c files rootino).length = (c rootino).length + 16 * files.length := by
  induction files generalizing i c with
  | nil => rfl
  | cons f fs ih =>
    rw [contentsFrom, ih (by omega), update_of_ne (by simp only [rootino]; omega),
      update_self, length_append, length_dirent, length_cons]
    omega

lemma length_contents_root (files : List Input) :
    (contents files rootino).length = 32 + 16 * files.length := by
  rw [contents, length_contentsFrom_root le_rfl, update_self, dots,
    length_append, length_dirent, length_dirent]

end

structure Ready (s : State) (c : Nat → List UInt8) : Prop where
  made : Made s.img s.freeblock c
  size : ∀ k, (s.img.dinode k).size = (c k).length

section
variable {s : State} {c : Nat → List UInt8} {n : Nat} {p : List UInt8}

lemma Ready.iappend (h : Ready s c) (mem : n < ninodes)
    (fits : (c n).length + p.length ≤ maxfile * 1024)
    (room : nmeta + total (update c n (c n ++ p)) ≤ fssize) : ∃ s', iappend s n p = some s' ∧
    Ready s' (update c n (c n ++ p)) ∧ s'.freeinode = s.freeinode ∧
    ∀ k, (s'.img.dinode k).type = (s.img.dinode k).type := by
  obtain ⟨s', run, made, inode, size, type⟩ := iappend_spec h.made mem (h.size n) fits room
  refine ⟨s', run, ⟨made, fun k => ?_⟩, inode, type⟩
  rw [size]
  by_cases eq : k = n
  · rw [eq, update_self, update_self, length_append]
  rw [update_of_ne eq, update_of_ne eq, h.size]

lemma Ready.chunks (chunks : List (List UInt8)) (h : Ready s c) (mem : n < ninodes)
    (fits : (c n).length + chunks.flatten.length ≤ maxfile * 1024)
    (room : nmeta + total (update c n (c n ++ chunks.flatten)) ≤ fssize) :
    ∃ s', chunks.foldlM (fun s p => Mkfs.iappend s n p) s = some s' ∧
    Ready s' (update c n (c n ++ chunks.flatten)) ∧ s'.freeinode = s.freeinode ∧
    ∀ k, (s'.img.dinode k).type = (s.img.dinode k).type := by
  induction chunks generalizing s c with
  | nil =>
    rw [flatten_nil, append_nil, update_eq_self]
    exact ⟨s, rfl, h, rfl, fun _ => rfl⟩
  | cons p ps ih =>
    rw [flatten_cons, length_append] at fits
    have grown := total_update (c := c) mem (c n ++ p)
    have grown' := total_update (c := c) mem (c n ++ (p :: ps).flatten)
    have less : need (c n ++ p).length ≤ need (c n ++ (p :: ps).flatten).length := by
      refine need_mono ?_
      rw [flatten_cons, length_append, length_append, length_append]
      omega
    obtain ⟨s₁, first, ready, inode, type⟩ := h.iappend (p := p) mem (by omega) (by omega)
    have whole : update (update c n (c n ++ p)) n
        (update c n (c n ++ p) n ++ ps.flatten) =
        update c n (c n ++ (p :: ps).flatten) := by
      rw [update_self, update_idem, append_assoc, flatten_cons]
    have rest := ih ready (by rw [update_self, length_append]; omega) (by rw [whole]; exact room)
    rw [whole] at rest
    obtain ⟨s', run, ready', inode', type'⟩ := rest
    refine ⟨s', ?_, ready', inode'.trans inode, fun k => (type' k).trans (type k)⟩
    rw [foldlM_cons, first]
    exact run

lemma blockAt_of_empty {m : Image} (h : Holds m n []) (loc : Loc) : m.blockAt (n, loc) = 0 := by
  have none : ∀ f < maxfile, m.blockAt (n, slot f) = 0 := fun f small =>
    of_not_not fun some => Nat.not_lt_zero _ ((h.slots f small).mp some)
  cases loc with
  | direct k =>
    have small := k.isLt
    rw [← slot_direct small]
    exact none k (by simp only [maxfile, ndirect, nindirect] at *; omega)
  | indirect => exact of_not_not fun some => Nat.not_lt_zero _ (h.indirect.mp some)
  | entry j =>
    have small := j.isLt
    have large : ¬ ndirect + j < ndirect := by omega
    have back : ndirect + (j : Nat) - ndirect < nindirect := by omega
    have at' := none (ndirect + j) (by simp only [maxfile, ndirect, nindirect] at *; omega)
    rw [slot_entry large back] at at'
    simpa using at'

lemma Ready.ialloc (h : Ready s c) (new : c s.freeinode = []) (type : Kind) :
    Ready (Mkfs.ialloc s type) c := by
  have empty := blockAt_of_empty (new ▸ h.made.holds s.freeinode)
  have places : (Mkfs.ialloc s type).img.blockAt = s.img.blockAt := by
    funext q
    obtain ⟨k, loc⟩ := q
    by_cases same : k = s.freeinode
    · subst same
      rw [empty]
      cases loc <;> simp [Mkfs.ialloc, blockAt, zeroDinode]
    cases loc <;> simp [Mkfs.ialloc, blockAt, same]
  refine ⟨h.made.congr places rfl, fun k => ?_⟩
  by_cases same : k = s.freeinode
  · subst same
    rw [new]
    simp [Mkfs.ialloc, zeroDinode]
  rw [← h.size k]
  simp [Mkfs.ialloc, same]

def Typed (s : State) : Prop :=
  (s.img.dinode rootino).type = .dir ∧
    ∀ k, 2 ≤ k → k < s.freeinode → (s.img.dinode k).type = .file

def added (c : Nat → List UInt8) (i : Nat) (f : Input) : Nat → List UInt8 :=
  update (update c rootino (c rootino ++ dirent i f.name)) i f.bytes

lemma addFile_spec {f : Input} (h : Ready s c) (typed : Typed s) (low : 2 ≤ s.freeinode) (high :
    s.freeinode < ninodes) (new : c s.freeinode = []) (name : f.shortname.contains 47 = false)
    (size : f.bytes.length ≤ maxfile * 1024) (root : (c rootino).length + 16 ≤ maxfile * 1024)
    (room : nmeta + total (added c s.freeinode f) ≤ fssize) : ∃ s', addFile s f = some s' ∧
    Ready s' (added c s.freeinode f) ∧ s'.freeinode = s.freeinode + 1 ∧ Typed s' := by
  have other : s.freeinode ≠ rootino := by simp only [rootino]; omega
  have step := total_update (c := update c rootino
    (c rootino ++ dirent s.freeinode f.name)) high f.bytes
  rw [update_of_ne other, new] at step
  have nothing : need ([] : List UInt8).length = 0 := rfl
  obtain ⟨s₁, first, ready, inode, type⟩ := (h.ialloc new .file).iappend (n := rootino)
    (p := dirent s.freeinode f.name) (by decide) (by rw [length_dirent]; exact root)
    (by rw [added] at room; omega)
  have fresh : update c rootino (c rootino ++ dirent s.freeinode f.name)
      s.freeinode = [] := by rw [update_of_ne other, new]
  obtain ⟨s', rest, ready', inode', type'⟩ := ready.chunks f.chunks high
    (by rw [fresh, length_nil, Nat.zero_add]; exact size) (by rw [fresh, nil_append]; exact room)
  rw [fresh, nil_append] at ready'
  refine ⟨s', ?_, ready', inode'.trans inode, ?_, fun k le lt => ?_⟩
  · rw [addFile, name, if_neg Bool.false_ne_true]
    simp only [first, bind_some]
    exact rest
  · rw [type', type]
    simpa [Mkfs.ialloc, Ne.symm other] using typed.1
  rw [type', type]
  rw [inode'.trans inode] at lt
  by_cases same : k = s.freeinode
  · subst same
    simp [Mkfs.ialloc]
  have before : k < s.freeinode := by
    simp only [Mkfs.ialloc] at lt
    omega
  simpa [Mkfs.ialloc, same] using typed.2 k le before

lemma addFiles_spec (files : List Input) (h : Ready s c) (typed : Typed s) (low : 2 ≤ s.freeinode)
    (high : s.freeinode + files.length ≤ ninodes) (new : ∀ k, s.freeinode ≤ k → c k = [])
    (names : ∀ f ∈ files, f.shortname.contains 47 = false)
    (sizes : ∀ f ∈ files, f.bytes.length ≤ maxfile * 1024)
    (root : (c rootino).length + 16 * files.length ≤ maxfile * 1024)
    (room : nmeta + total (contentsFrom s.freeinode c files) ≤ fssize) :
    ∃ s', files.foldlM addFile s = some s' ∧ Ready s' (contentsFrom s.freeinode c files) ∧
    s'.freeinode = s.freeinode + files.length ∧ Typed s' := by
  induction files generalizing s c with
  | nil => exact ⟨s, rfl, h, rfl, typed⟩
  | cons f fs ih =>
    rw [length_cons] at high root
    have later : ∀ k, s.freeinode + 1 ≤ k → added c s.freeinode f k = [] := by
      intro k le
      rw [added, update_of_ne (by omega), update_of_ne (by simp only [rootino]; omega)]
      exact new k (by omega)
    have grows : total (added c s.freeinode f) ≤ total (contentsFrom (s.freeinode + 1) (added c
      s.freeinode f) fs) := Finset.sum_le_sum fun k _ => need_mono (length_le_contentsFrom later
      (by omega) k)
    obtain ⟨s₁, first, ready, inode, typed₁⟩ := addFile_spec h typed low (by omega)
      (new _ le_rfl) (names f mem_cons_self) (sizes f mem_cons_self)
      (by omega) (le_trans (Nat.add_le_add_left grows _) room)
    have rest := ih ready typed₁ (by omega) (by omega) (by rwa [inode])
      (fun g mem => names g (mem_cons_of_mem _ mem))
      (fun g mem => sizes g (mem_cons_of_mem _ mem)) ?_ (by rw [inode]; exact room)
    · obtain ⟨s', run, ready', inode', typed'⟩ := rest
      rw [inode] at ready' inode'
      refine ⟨s', ?_, ready', by rw [inode', length_cons]; omega, typed'⟩
      rw [foldlM_cons, first]
      exact run
    rw [added, update_of_ne (by simp only [rootino]; omega), update_self,
      length_append, length_dirent]
    omega

lemma start_ready : Ready start (fun _ => []) := by
  have places : ∀ q, start.img.blockAt q = 0 := by
    rintro ⟨k, loc⟩
    by_cases root : k = 1
    · subst root
      cases loc <;> simp [start, ialloc, blockAt, zeroDinode]
    cases loc <;> simp [start, ialloc, blockAt, zeroDinode, root]
  refine ⟨⟨⟨⟨fun q some => absurd (places q) some, fun q _ some => absurd (places q) some,
    fun b mem => ?_, fun mem => ?_⟩, fun _ _ => rfl, le_rfl, by decide⟩, fun k => ?_, ?_⟩,
    fun k => ?_⟩
  · exact absurd mem.2 (Nat.not_lt.mpr mem.1)
  · exact absurd mem.1 (by decide)
  · refine ⟨fun f _ => iff_of_false (not_not.mpr (places _)) (Nat.not_lt_zero _),
      iff_of_false (not_not.mpr (places _)) (Nat.not_lt_zero _),
      fun i some => absurd (places _) some, Nat.zero_le _⟩
  · have nothing : total (fun _ => []) = 0 := Finset.sum_eq_zero fun _ _ => by simp [need]
    rw [nothing]
    rfl
  by_cases root : k = 1
  · subst root
    rfl
  simp [start, ialloc, zeroDinode, root]

lemma body_spec {files : List Input} (fits : Fits files) : ∃ s, body files = some s ∧
    Ready s (contents files) ∧ s.freeinode = files.length + 2 ∧ Typed s := by
  have inodes := fits.inodes
  have low : ∀ k, 2 ≤ k → update (fun _ => []) rootino dots k = ([] : List UInt8) :=
    fun k le => update_of_ne (by simp only [rootino]; omega) _ _
  have grows : total (update (fun _ => []) rootino dots) ≤ total (contents files) :=
    total_le fun k => length_le_contentsFrom low le_rfl k
  have blocks := fits.blocks
  have step := total_update (c := fun _ => []) (n := rootino) (by decide) (dirent rootino dot)
  have step' := total_update (c := fun _ => []) (n := rootino) (by decide) dots
  have less : need (dirent rootino dot).length ≤ need dots.length :=
    need_mono (by rw [dots, length_append]; exact Nat.le_add_right _ _)
  obtain ⟨s₁, first, ready₁, inode₁, type₁⟩ := start_ready.iappend (n := rootino) (p := dirent
    rootino dot) (by decide) (by rw [length_dirent]; decide) (by rw [nil_append]; omega)
  have whole : update (update (fun _ => []) rootino ([] ++ dirent rootino dot))
      rootino (update (fun _ => []) rootino ([] ++ dirent rootino dot) rootino ++
        dirent rootino dotdot) = update (fun _ => ([] : List UInt8)) rootino dots := by
    rw [update_self, update_idem]
    rfl
  obtain ⟨s₂, second, ready₂, inode₂, type₂⟩ := ready₁.iappend (n := rootino) (p := dirent rootino
    dotdot) (by decide) (by rw [update_self, nil_append, length_dirent, length_dirent]; decide)
    (by rw [whole]; omega)
  rw [whole] at ready₂
  have next : s₂.freeinode = 2 := inode₂.trans inode₁
  have rest := addFiles_spec files ready₂ ⟨?_, fun k le lt => ?_⟩ (by omega) (by rw [next]; omega)
    (by rwa [next]) fits.names fits.sizes ?_ (by rw [next]; exact blocks)
  · obtain ⟨s, run, ready, inode, typed⟩ := rest
    rw [next] at ready inode
    refine ⟨s, ?_, ready, by omega, typed⟩
    rw [body, first, bind_some, second, bind_some]
    exact run
  · rw [type₂, type₁]
    rfl
  · omega
  rw [update_self, dots, length_append, length_dirent, length_dirent]
  simp only [maxfile, ndirect, nindirect]
  simp only [ninodes] at inodes
  omega

end

section
variable {s : State} {files : List Input}

def final (s : State) : Image := balloc (fixRoot s.img) s.freeblock

lemma main_spec (fits : Fits files) :
    ∃ s, main files = some (final s) ∧ Ready s (contents files) ∧ Typed s := by
  obtain ⟨s, run, ready, -, typed⟩ := body_spec fits
  have small : s.freeblock < bsize * 8 := lt_of_le_of_lt ready.made.layout.upper (by decide)
  refine ⟨s, ?_, ready, typed⟩
  rw [main, run, bind_some, if_pos small]
  rfl

lemma final_blockAt (s : State) : (final s).blockAt = s.img.blockAt :=
  (blockAt_congr (m := fixRoot s.img) (fun _ => rfl) fun _ _ => rfl).trans (blockAt_setInode rfl)

lemma final_size (s : State) (n : Nat) : ((final s).dinode n).size = if n =
    rootino then ((s.img.dinode n).size / bsize + 1) * bsize else (s.img.dinode n).size := by
  split_ifs with root
  · rw [root]
    simp [final, balloc, fixRoot]
  simp [final, balloc, fixRoot, root]

/-- The last slot below the rounded size of the root directory is filled exactly if the entries do
not fill their last block. -/
lemma final_filled_iff (h : Ready s (contents files)) (fits : Fits files) :
    (∀ n f, f * bsize < ((final s).dinode n).size → (final s).blockAt (n, slot f) ≠ 0) ↔
    (files.length + 2) % 64 ≠ 0 := by
  have length := length_contents_root files
  have inodes := fits.inodes
  constructor
  · intro filled whole
    have last := filled rootino ((contents files rootino).length / bsize) (by
      rw [final_size, if_pos rfl, h.size]
      exact Nat.mul_lt_mul_of_pos_right (Nat.lt_succ_self _) (by decide))
    rw [final_blockAt, (h.made.holds rootino).slots _ (by
      rw [length]
      simp only [ninodes, maxfile, ndirect, nindirect, bsize] at inodes ⊢
      omega)] at last
    rw [length] at last
    simp only [bsize] at last
    omega
  intro partial' n f below
  have holds := h.made.holds n
  have bound := holds.fits
  rw [final_blockAt]
  rw [final_size, h.size] at below
  split_ifs at below with root
  · subst root
    refine (holds.slots f ?_).mpr ?_
    · simp only [ninodes, maxfile, ndirect, nindirect, bsize] at *
      omega
    simp only [ninodes, maxfile, ndirect, nindirect, bsize] at *
    omega
  refine (holds.slots f ?_).mpr below
  simp only [maxfile, ndirect, nindirect, bsize] at *
  omega

lemma final_consistent_iff (h : Ready s (contents files)) (fits : Fits files) :
    Consistent (final s) ↔ (files.length + 2) % 64 ≠ 0 := by
  have layout := h.made.layout
  have upper := layout.upper
  refine ⟨fun c => (final_filled_iff h fits).mp c.filled, fun partial' =>
    ⟨(final_filled_iff h fits).mpr partial', ?_, fun q some => ?_, fun b => ?_⟩⟩
  · rw [final_blockAt]
    exact layout.exact.distinct
  · rw [final_blockAt] at some ⊢
    have live := layout.exact.used q some
    exact ⟨live.1, lt_of_lt_of_le live.2 upper⟩
  rw [final_blockAt, show (final s).used b = decide (b < s.freeblock) from rfl, decide_eq_true_iff]
  constructor
  · intro below
    by_cases metadata : b < nmeta
    · exact Or.inl metadata
    have above : nmeta ≤ b := Nat.le_of_not_lt metadata
    refine Or.inr ⟨?_, layout.exact.owned b ⟨above, below⟩⟩
    simp only [nmeta] at above
    omega
  rintro (metadata | ⟨some, q, rfl⟩)
  · exact lt_of_lt_of_le metadata layout.lower
  exact (layout.exact.used q some).2

end

/-- mkfs writes a consistent image exactly if the entries of the root directory leave room in
their last block: its size is rounded up to the next block also when they do not. -/
theorem image_consistent_iff (files : List Input) (fits : Fits files) :
    ∃ m, main files = some m ∧ (Consistent m ↔ (files.length + 2) % 64 ≠ 0) := by
  obtain ⟨s, run, ready, -⟩ := main_spec fits
  exact ⟨final s, run, final_consistent_iff ready fits⟩

/-- An image with one file. -/
theorem one_file_image_consistent :
    Fits [⟨[97], [[1, 2], [3]]⟩] ∧
      ∃ m, main [⟨[97], [[1, 2], [3]]⟩] = some m ∧ Consistent m := by
  have fits : Fits [⟨[97], [[1, 2], [3]]⟩] := by decide +kernel
  obtain ⟨m, run, iff⟩ := image_consistent_iff _ fits
  exact ⟨fits, m, run, iff.mpr (by decide)⟩

def fullRoot : List Input :=
  (List.range 62).map fun i => ⟨[UInt8.ofNat (97 + i / 8), UInt8.ofNat (97 + i % 8)], []⟩

/-- With sixty-two files the entries fill the first block of the root directory; the size says two
blocks, but there is no second one. -/
theorem full_root_has_hole :
    Fits fullRoot ∧ ∃ m, main fullRoot = some m ∧ ¬ Consistent m ∧
      bsize < (m.dinode rootino).size ∧ m.blockAt (rootino, slot 1) = 0 := by
  have fits : Fits fullRoot := by decide +kernel
  obtain ⟨s, run, ready, -⟩ := main_spec fits
  refine ⟨fits, final s, run, fun c => (final_consistent_iff ready fits).mp c (by decide), ?_, ?_⟩
  · rw [final_size, if_pos rfl, ready.size, length_contents_root]
    decide
  rw [final_blockAt]
  refine of_not_not fun some => ?_
  have reach := ((ready.made.holds rootino).slots 1 (by decide)).mp some
  rw [length_contents_root] at reach
  exact absurd reach (by decide)

end Xv6.Mkfs
