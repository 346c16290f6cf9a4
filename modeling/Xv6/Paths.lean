import Xv6.Directory

/-! Path resolution: `skipelem` with the name buffer, and `namex` of fs.c for `namei` and
`nameiparent`, with the reference counts of the inodes. -/
namespace Xv6.Paths
open Fs Mkfs Namei List Option
open Function (update update_apply update_comm update_eq_self update_idem update_of_ne update_self)

/-- The file system with `ref` and `valid` of the in-memory inodes. -/
structure Walk where
  op : Fs.Op
  ref : Nat → Nat
  valid : Nat → Bool

/-- `iget`; an entry without references is taken anew. -/
def Walk.iget (x : Walk) (n : Nat) : Walk :=
  { x with
    ref := update x.ref n (x.ref n + 1)
    valid := if x.ref n = 0 then update x.valid n false else x.valid }

def Walk.idup (x : Walk) (n : Nat) : Walk := { x with ref := update x.ref n (x.ref n + 1) }

/-- `ilock`; `none` is its panic for an inode that is free on the disk. -/
def Walk.ilock (x : Walk) (n : Nat) : Option Walk :=
  if x.valid n then some x
  else if (x.op.img.dinode n).type = .none then none
  else some { x with valid := update x.valid n true }

/-- `iput`, which frees an inode without links with its last reference. -/
def Walk.iput (sb : Superblock) (x : Walk) (n : Nat) : Option Walk :=
  if x.ref n = 1 ∧ x.valid n = true ∧ (x.op.img.dinode n).nlink = 0 then
    (change sb x.op.img (.iput n)).map fun m =>
      ⟨⟨m, x.op.log⟩, update x.ref n (x.ref n - 1), update x.valid n false⟩
  else some { x with ref := update x.ref n (x.ref n - 1) }

/-- `skipelem`: the rest of the path, and `name` with the element in it. An element shorter than
`DIRSIZ` gets a NUL, and what was behind it stays. -/
def skipelem (path name : List UInt8) : Option (List UInt8 × List UInt8) :=
  let s := path.dropWhile (· == 47)
  if s = [] then none
  else
    let elem := s.takeWhile (· != 47)
    some ((s.dropWhile (· != 47)).dropWhile (· == 47),
      if dirsiz ≤ elem.length then elem.take dirsiz else elem ++ 0 :: name.drop (elem.length + 1))

/-- The loop of `namex`: the inode and the name buffer. Each round takes an element of the path. -/
def namexLoop (sb : Superblock) (parent : Bool) :
    Nat → Nat → List UInt8 → List UInt8 → Walk → Option (Walk × Option Nat × List UInt8)
  | 0, _, _, _, _ => none
  | fuel + 1, ip, path, name, x =>
    match skipelem path name with
    | none =>
      if parent then (x.iput sb ip).map fun x => (x, none, name) else some (x, some ip, name)
    | some (path, name) =>
      (x.ilock ip).bind fun x =>
        if (x.op.img.dinode ip).type ≠ .dir then
          (x.iput sb ip).map fun x => (x, none, name)
        else if parent = true ∧ path = [] then some (x, some ip, name)
        else
          (dirlookup sb ip name x.op).bind fun r =>
            match r.2 with
            | none => (Walk.iput sb { x with op := r.1 } ip).map fun x => (x, none, name)
            | some next =>
              (Walk.iput sb (Walk.iget { x with op := r.1 } next) ip).bind fun x =>
                namexLoop sb parent fuel next path name x

def namex (sb : Superblock) (parent : Bool) (cwd : Nat) (path name : List UInt8) (x : Walk) :
    Option (Walk × Option Nat × List UInt8) :=
  if path.head? = some 47 then
    namexLoop sb parent (path.length + 1) rootino path name (x.iget rootino)
  else namexLoop sb parent (path.length + 1) cwd path name (x.idup cwd)

def namei (sb : Superblock) (cwd : Nat) (path name : List UInt8) (x : Walk) :
    Option (Walk × Option Nat) :=
  (namex sb false cwd path name x).map fun r => (r.1, r.2.1)

def nameiparent (sb : Superblock) (cwd : Nat) (path name : List UInt8) (x : Walk) :
    Option (Walk × Option Nat × List UInt8) := namex sb true cwd path name x

/-! ### Paths by their components -/

def components (path : List UInt8) : List (List UInt8) :=
  ((path.splitOnP (· == 47)).filter (· ≠ [])).map (List.take dirsiz)

def resolve (sb : Superblock) (s : Fs.Op) : Nat → List (List UInt8) → Option Nat
  | ip, [] => some ip
  | ip, c :: cs =>
    if (s.img.dinode ip).type ≠ .dir then none
    else
      match dirlookup sb ip c s with
      | some (_, some next) => resolve sb s next cs
      | _ => none

def parentOf (sb : Superblock) (s : Fs.Op) : Nat → List (List UInt8) → Option Nat
  | _, [] => none
  | ip, c :: cs =>
    if (s.img.dinode ip).type ≠ .dir then none
    else if cs = [] then some ip
    else
      match dirlookup sb ip c s with
      | some (_, some next) => parentOf sb s next cs
      | _ => none

lemma components_slash (path : List UInt8) : components (47 :: path) = components path := by
  rw [components, components, splitOnP_cons_eq_if_modifyHead, if_pos (by rfl)]
  rfl

lemma components_dropWhile (path : List UInt8) :
    components (path.dropWhile (· == 47)) = components path := by
  induction path with
  | nil => rfl
  | cons b path ih =>
    rw [dropWhile_cons]
    split_ifs with slash
    · rw [ih, beq_iff_eq.mp slash, components_slash]
    rfl

lemma components_elem {elem rest : List UInt8} (some : elem ≠ [])
    (single : (47 : UInt8) ∉ elem) (ends : rest = [] ∨ ∃ r, rest = 47 :: r) :
    components (elem ++ rest) = elem.take dirsiz :: components rest := by
  have none : ∀ b ∈ elem, (b == 47) = false := by
    intro b mem
    exact beq_eq_false_iff_ne.mpr fun eq => single (eq ▸ mem)
  rcases ends with rfl | ⟨r, rfl⟩
  · rw [append_nil, components, splitOnP_eq_singleton none]
    simp [components, some]
  rw [components_slash, components, splitOnP_append_cons_of_forall_mem none 47 (by rfl)]
  simp [components, some]

lemma takeWhile_ends (s : List UInt8) :
    s.dropWhile (· != 47) = [] ∨ ∃ r, s.dropWhile (· != 47) = 47 :: r := by
  induction s with
  | nil => exact .inl rfl
  | cons b s ih =>
    rw [dropWhile_cons]
    split_ifs with other
    · exact ih
    refine .inr ⟨s, ?_⟩
    rw [Bool.not_eq_true, bne_eq_false_iff_eq] at other
    rw [other]

lemma dropWhile_ends (path : List UInt8) :
    path.dropWhile (· == 47) = [] ∨ ∃ b r, path.dropWhile (· == 47) = b :: r ∧ b ≠ 47 := by
  induction path with
  | nil => exact .inl rfl
  | cons b path ih =>
    rw [dropWhile_cons]
    split_ifs with slash
    · exact ih
    exact .inr ⟨b, path, rfl, fun eq => slash (beq_iff_eq.mpr eq)⟩

lemma components_cons {b : UInt8} (r : List UInt8) (other : b ≠ 47) : ∃ elem rest,
    (b :: r).takeWhile (· != 47) = elem ∧ (b :: r).dropWhile (· != 47) = rest ∧ elem ≠ [] ∧
    elem ++ rest = b :: r ∧ components (b :: r) = elem.take dirsiz :: components rest := by
  have split := takeWhile_append_dropWhile (p := (· != 47)) (l := b :: r)
  have some : (b :: r).takeWhile (· != 47) ≠ [] := by
    rw [takeWhile_cons, if_pos (bne_iff_ne.mpr other)]
    exact cons_ne_nil _ _
  have single : (47 : UInt8) ∉ (b :: r).takeWhile (· != 47) := fun mem => by
    have := mem_takeWhile_imp mem
    simp at this
  refine ⟨_, _, rfl, rfl, some, split, ?_⟩
  rw [← components_elem some single (takeWhile_ends _), split]

lemma cut_of_short {n : Nat} {e : List UInt8} (rest : List UInt8) (text : (0 : UInt8) ∉ e)
    (ends : n ≤ e.length ∨ rest.headD 0 = 0) : cut n (e ++ rest) = e.take n := by
  induction n generalizing e with
  | zero => rw [cut, take_zero]
  | succ n ih =>
    rw [cut]
    cases e with
    | nil =>
      rcases ends with long | null
      · cases long
      rw [nil_append, if_pos null, take_nil]
    | cons b e => grind

lemma cut_take {e : List UInt8} (n : Nat) (text : (0 : UInt8) ∉ e) :
    cut n (e.take n) = e.take n := by
  have short : (0 : UInt8) ∉ e.take n := fun mem => text (mem_of_mem_take mem)
  have := cut_of_short (n := n) [] short (.inr rfl)
  rwa [append_nil, take_take, Nat.min_self] at this

lemma cut_cut (n : Nat) (l : List UInt8) : cut n (cut n l) = cut n l := by
  induction n generalizing l with
  | zero => rfl
  | succ n ih =>
    rw [cut.eq_def (n + 1) l]
    dsimp only
    split_ifs with null
    · rfl
    rw [cut, headD_cons, if_neg null, tail_cons, ih]

structure Skipped (path name rest name' c : List UInt8) : Prop where
  split : components path = c :: components rest
  last : components rest = [] ↔ rest = []
  named : cut dirsiz name' = c
  again : cut dirsiz c = c
  full : name.length = dirsiz → name'.length = dirsiz
  shorter : rest.length < path.length
  text : (0 : UInt8) ∉ rest

variable {path name : List UInt8} {cs : List (List UInt8)}

lemma skipelem_cases (name : List UInt8) (text : (0 : UInt8) ∉ path) :
    (skipelem path name = none ∧ components path = []) ∨ ∃ rest name' c,
    skipelem path name = some (rest, name') ∧ Skipped path name rest name' c := by
  have same := components_dropWhile path
  have below := dropWhile_sublist (l := path) (· == 47)
  rw [skipelem]
  dsimp only
  rcases dropWhile_ends path with empty | ⟨b, r, here, other⟩
  · rw [if_pos empty]
    refine .inl ⟨rfl, ?_⟩
    rw [← same, empty]
    rfl
  rw [here] at same below ⊢
  rw [if_neg (cons_ne_nil _ _)]
  obtain ⟨elem, rest, eq, eq', some, split, parts⟩ := components_cons r other
  rw [eq, eq']
  have elemText : (0 : UInt8) ∉ elem := fun mem =>
    text (below.mem (split ▸ mem_append_left rest mem))
  have restText : (0 : UInt8) ∉ rest := fun mem =>
    text (below.mem (split ▸ mem_append_right elem mem))
  have shorter := dropWhile_sublist (l := rest) (· == 47)
  refine .inr ⟨_, _, elem.take dirsiz, rfl, ?_, ?_, ?_, cut_take dirsiz elemText, fun len => ?_, ?_,
    fun mem => restText (shorter.mem mem)⟩
  · rw [← same, parts, components_dropWhile]
  · rcases dropWhile_ends rest with empty | ⟨b', r', here', other'⟩
    · rw [empty]
      exact iff_of_true rfl rfl
    obtain ⟨_, _, -, -, -, -, parts'⟩ := components_cons r' other'
    rw [here', parts']
    exact iff_of_false (cons_ne_nil _ _) (cons_ne_nil _ _)
  · split_ifs with long
    · exact cut_take dirsiz elemText
    rw [cut_of_short _ elemText (.inr rfl)]
  · split_ifs with long
    · rw [length_take]
      omega
    rw [length_append, length_cons, length_drop]
    omega
  have lengths := congrArg length split
  rw [length_append] at lengths
  have := length_pos_of_ne_nil some
  have := shorter.length_le
  have := below.length_le
  omega

/-! ### References -/

def credit (ref : Nat → Nat) : Option Nat → Nat → Nat
  | none => ref
  | some n => update ref n (ref n + 1)

section
variable {s : Fs.Op} {x : Walk} {ref : Nat → Nat} {ip : Nat}

lemma iput_credit (sb : Superblock) (op : x.op = s) (refs : x.ref = credit ref (some ip))
    (kept : (s.img.dinode ip).nlink ≠ 0 ∨ 0 < ref ip) :
    ∃ x', x.iput sb ip = some x' ∧ x'.op = s ∧ x'.ref = ref := by
  have here : x.ref ip = ref ip + 1 := by rw [refs, credit, update_self]
  refine ⟨{ x with ref := update x.ref ip (x.ref ip - 1) }, ?_, op, ?_⟩
  · rw [Walk.iput, if_neg]
    rintro ⟨one, -, zero⟩
    rw [op] at zero
    rcases kept with linked | some
    · exact linked zero
    omega
  show update x.ref ip (x.ref ip - 1) = ref
  rw [here, refs, credit, update_idem, Nat.add_sub_cancel, update_eq_self]

lemma iget_iput_credit (sb : Superblock) (next : Nat) (op : x.op = s)
    (refs : x.ref = credit ref (some ip)) (kept : (s.img.dinode ip).nlink ≠ 0 ∨ 0 < ref ip) :
    ∃ x', (x.iget next).iput sb ip = some x' ∧ x'.op = s ∧ x'.ref = credit ref (some next) := by
  have swap : (x.iget next).ref = credit (credit ref (some next)) (some ip) := by
    rw [Walk.iget, refs]
    by_cases same : next = ip
    · rw [same]
      rfl
    simp only [credit, update_of_ne same, update_of_ne (Ne.symm same)]
    exact update_comm (Ne.symm same) _ _ ref
  refine iput_credit sb op swap (kept.imp_right fun pos => ?_)
  rw [credit, update_apply]
  split_ifs with same
  · omega
  exact pos

lemma ilock_keeps (op : x.op = s) (typed : (s.img.dinode ip).type ≠ .none) :
    ∃ x', x.ilock ip = some x' ∧ x'.op = s ∧ x'.ref = x.ref := by
  rw [Walk.ilock]
  by_cases valid : x.valid ip = true
  · rw [if_pos valid]
    exact ⟨x, rfl, op, rfl⟩
  rw [if_neg valid, if_neg (by rwa [op])]
  exact ⟨_, rfl, op, rfl⟩

end

/-- Every directory holds a map, to inodes that are allocated and have a link or are in use. -/
def Tree (sb : Superblock) (s : Fs.Op) (ref : Nat → Nat) : Prop :=
  ∀ n, (s.img.dinode n).type = .dir → ∃ d, Holds sb n s d ∧
    ∀ key i, d key = some i → (s.img.dinode i).type ≠ .none ∧
      ((s.img.dinode i).nlink ≠ 0 ∨ 0 < ref i)

section
variable {sb : Superblock} {s : Fs.Op} {ref : Nat → Nat} {c : List UInt8}

lemma Tree.dirlookup_cases (tree : Tree sb s ref) {ip : Nat} (dir : (s.img.dinode ip).type = .dir)
    (same : cut dirsiz name = cut dirsiz c) : dirlookup sb ip name s = dirlookup sb ip c s ∧
      (dirlookup sb ip c s = some (s, none) ∨ ∃ next, dirlookup sb ip c s = some (s, some next) ∧
        (s.img.dinode next).type ≠ .none ∧ ((s.img.dinode next).nlink ≠ 0 ∨ 0 < ref next)) := by
  obtain ⟨d, holds, linked⟩ := tree ip dir
  rw [holds.dirlookup_eq, holds.dirlookup_eq, same]
  refine ⟨rfl, ?_⟩
  cases found : d (cut dirsiz c) with
  | none => exact .inl rfl
  | some next => exact .inr ⟨next, rfl, linked _ next found⟩

lemma namexLoop_spec (tree : Tree sb s ref) (parent : Bool) (fuel ip : Nat)
    (path name : List UInt8) (x : Walk) (short : path.length < fuel) (text : (0 : UInt8) ∉ path)
    (full : name.length = dirsiz) (op : x.op = s) (refs : x.ref = credit ref (some ip))
    (typed : (s.img.dinode ip).type ≠ .none) (kept : (s.img.dinode ip).nlink ≠ 0 ∨ 0 < ref ip) :
    ∃ x' r name', namexLoop sb parent fuel ip path name x = some (x', r, name') ∧
    r = (if parent then parentOf sb s ip (components path) else resolve sb s ip (components path)) ∧
    x'.op = s ∧ x'.ref = credit ref r ∧ name'.length = dirsiz ∧
    (parent = true → r ≠ none → (components path).getLast? = some (cut dirsiz name')) := by
  induction fuel generalizing ip path name x with
  | zero => exact absurd short (Nat.not_lt_zero _)
  | succ fuel ih =>
    rw [namexLoop]
    rcases skipelem_cases name text with ⟨none, empty⟩ | ⟨rest, name', c, some, skipped⟩
    · rw [none, empty]
      dsimp only
      cases parent with
      | true =>
        obtain ⟨x', run, op', refs'⟩ := iput_credit sb op refs kept
        rw [if_pos rfl, run]
        exact ⟨x', _, name, rfl, rfl, op', refs', full, fun _ ne => absurd rfl ne⟩
      | false =>
        rw [if_neg Bool.false_ne_true]
        exact ⟨x, _, name, rfl, rfl, op, refs, full, fun no => absurd no Bool.false_ne_true⟩
    obtain ⟨x₁, locked, op₁, refs₁⟩ := ilock_keeps op typed
    rw [refs] at refs₁
    rw [some, skipped.split]
    dsimp only
    rw [locked, bind_some, op₁, resolve, parentOf]
    by_cases dir : (s.img.dinode ip).type ≠ .dir
    · obtain ⟨x₂, run, op₂, refs₂⟩ := iput_credit sb op₁ refs₁ kept
      rw [if_pos dir, if_pos dir, if_pos dir, run, ite_self]
      exact ⟨x₂, _, name', rfl, rfl, op₂, refs₂, skipped.full full, fun _ ne => absurd rfl ne⟩
    rw [if_neg dir, if_neg dir, if_neg dir]
    by_cases last : parent = true ∧ rest = []
    · have ends := skipped.last.mpr last.2
      rw [if_pos last, if_pos last.1, if_pos ends, ends]
      exact ⟨x₁, _, name', rfl, rfl, op₁, refs₁, skipped.full full,
        fun _ _ => congrArg Option.some skipped.named.symm⟩
    rw [if_neg last]
    have more : parent = true → components rest ≠ [] := fun mode nil =>
      last ⟨mode, skipped.last.mp nil⟩
    obtain ⟨same, none | ⟨next, found, typed', linked⟩⟩ := tree.dirlookup_cases (not_not.mp dir)
      (skipped.named.trans skipped.again.symm)
    · obtain ⟨x₂, run, op₂, refs₂⟩ := iput_credit sb (x := { x₁ with op := s }) rfl refs₁ kept
      rw [same, none, bind_some]
      dsimp only
      rw [run]
      refine ⟨x₂, _, name', rfl, ?_, op₂, refs₂, skipped.full full, fun _ ne => absurd rfl ne⟩
      split_ifs with mode nil
      · exact absurd nil (more mode)
      · rfl
      rfl
    obtain ⟨x₂, run, op₂, refs₂⟩ := iget_iput_credit sb next (x := { x₁ with op := s })
      rfl refs₁ kept
    rw [same, found, bind_some]
    dsimp only
    rw [run, bind_some]
    obtain ⟨x₃, r, name'', run₃, result, op₃, refs₃, full₃, named⟩ := ih next rest name' x₂
      (by have := skipped.shorter; omega) skipped.text (skipped.full full) op₂ refs₂ typed'
      linked
    refine ⟨x₃, r, name'', run₃, ?_, op₃, refs₃, full₃, fun yes ne => ?_⟩
    · rw [result]
      by_cases mode : parent = true
      · rw [if_pos mode, if_pos mode, if_neg (more mode)]
      rw [if_neg mode, if_neg mode]
    rw [getLast?_cons_of_ne_nil (more yes)]
    exact named yes ne

lemma parentOf_eq_some {ip dp : Nat} : parentOf sb s ip cs = some dp ↔ cs ≠ [] ∧
    resolve sb s ip cs.dropLast = some dp ∧ (s.img.dinode dp).type = .dir := by
  induction cs generalizing ip with
  | nil => exact iff_of_false (by rw [parentOf]; exact (some_ne_none dp).symm) (by simp)
  | cons c cs ih =>
    rw [parentOf]
    by_cases dir : (s.img.dinode ip).type ≠ .dir
    · rw [if_pos dir]
      refine iff_of_false (some_ne_none dp).symm ?_
      rintro ⟨-, found, type⟩
      cases cs with
      | nil =>
        cases found
        exact dir type
      | cons c' cs =>
        rw [dropLast_cons_cons, resolve, if_pos dir] at found
        cases found
    rw [if_neg dir]
    cases cs with
    | nil =>
      rw [if_pos rfl, dropLast_singleton, resolve]
      refine ⟨fun eq => ⟨cons_ne_nil _ _, eq, ?_⟩, fun h => h.2.1⟩
      cases eq
      exact not_not.mp dir
    | cons c' cs =>
      rw [if_neg (cons_ne_nil _ _), dropLast_cons_cons, resolve, if_neg dir]
      cases dirlookup sb ip c s with
      | none => simp
      | some r =>
        obtain ⟨s', found⟩ := r
        cases found with
        | none => simp
        | some next => simp [ih]

lemma resolve_of_parent (tree : Tree sb s ref) {ip dp : Nat} (found : parentOf sb s ip cs = some dp)
    (last : cs.getLast? = some c) : dirlookup sb dp c s = some (s, resolve sb s ip cs) := by
  induction cs generalizing ip with
  | nil => cases last
  | cons b cs ih =>
    rw [parentOf] at found
    by_cases dir : (s.img.dinode ip).type ≠ .dir
    · rw [if_pos dir] at found
      cases found
    rw [if_neg dir] at found
    rw [resolve, if_neg dir]
    cases cs with
    | nil =>
      cases found
      rw [getLast?_singleton] at last
      obtain rfl : b = c := some.inj last
      obtain ⟨-, none | ⟨next, some, -⟩⟩ := tree.dirlookup_cases (not_not.mp dir) (c := b) rfl
      · rw [none]
      rw [some]
      rfl
    | cons b' cs =>
      rw [if_neg (cons_ne_nil _ _)] at found
      rw [getLast?_cons_cons] at last
      obtain ⟨-, none | ⟨next, some, -⟩⟩ := tree.dirlookup_cases (not_not.mp dir) (c := b) rfl
      · rw [none] at found
        cases found
      rw [some] at found ⊢
      exact ih found last

lemma namex_spec {x : Walk} {cwd start : Nat} (tree : Tree sb x.op x.ref)
    (root : (x.op.img.dinode rootino).type ≠ .none ∧ (x.op.img.dinode rootino).nlink ≠ 0)
    (dir : (x.op.img.dinode cwd).type ≠ .none) (held : 0 < x.ref cwd) (text : (0 : UInt8) ∉ path)
    (full : name.length = dirsiz) (first : start = if path.head? = some 47 then rootino else cwd)
    (parent : Bool) : ∃ x' r name', namex sb parent cwd path name x = some (x', r, name') ∧
    r = (if parent then parentOf sb x.op start (components path) else resolve sb x.op start
    (components path)) ∧ x'.op = x.op ∧ x'.ref = credit x.ref r ∧ name'.length = dirsiz ∧
    (parent = true → r ≠ none → (components path).getLast? = some (cut dirsiz name')) := by
  rw [namex]
  by_cases slash : path.head? = some 47
  · rw [if_pos slash] at first ⊢
    rw [first]
    exact namexLoop_spec tree parent _ rootino path name (x.iget rootino) (Nat.lt_succ_self _)
      text full rfl rfl root.1 (.inl root.2)
  rw [if_neg slash] at first ⊢
  rw [first]
  exact namexLoop_spec tree parent _ cwd path name (x.idup cwd) (Nat.lt_succ_self _) text full
    rfl rfl dir (.inr held)

lemma resolve_allocated (tree : Tree sb s ref) {ip r : Nat} (typed : (s.img.dinode ip).type ≠ .none)
    (kept : (s.img.dinode ip).nlink ≠ 0 ∨ 0 < ref ip) (found : resolve sb s ip cs = some r) :
    (s.img.dinode r).type ≠ .none ∧ ((s.img.dinode r).nlink ≠ 0 ∨ 0 < ref r) := by
  induction cs generalizing ip with
  | nil =>
    cases found
    exact ⟨typed, kept⟩
  | cons c cs ih =>
    rw [resolve] at found
    by_cases dir : (s.img.dinode ip).type ≠ .dir
    · rw [if_pos dir] at found
      cases found
    rw [if_neg dir] at found
    obtain ⟨-, none | ⟨next, some, typed', linked⟩⟩ :=
      tree.dirlookup_cases (not_not.mp dir) (c := c) rfl
    · rw [none] at found
      cases found
    rw [some] at found
    exact ih typed' linked found

lemma namei_spec {x : Walk} {cwd : Nat} (tree : Tree sb x.op x.ref)
    (root : (x.op.img.dinode rootino).type ≠ .none ∧ (x.op.img.dinode rootino).nlink ≠ 0)
    (dir : (x.op.img.dinode cwd).type ≠ .none) (held : 0 < x.ref cwd) (text : (0 : UInt8) ∉ path)
    (full : name.length = dirsiz) : ∃ x' r, namei sb cwd path name x = some (x', r) ∧
    x'.op = x.op ∧ x'.ref = credit x.ref r ∧ ∀ ip, r = some ip → (x.op.img.dinode ip).type ≠ .none ∧
    ((x.op.img.dinode ip).nlink ≠ 0 ∨ 0 < x.ref ip) := by
  obtain ⟨x', r, name', run, result, op, refs, -⟩ :=
    namex_spec tree root dir held text full rfl false
  rw [if_neg Bool.false_ne_true] at result
  refine ⟨x', r, ?_, op, refs, fun ip found => ?_⟩
  · rw [namei, run]
    rfl
  rw [result] at found
  split_ifs at found with slash
  · exact resolve_allocated tree root.1 (.inl root.2) found
  exact resolve_allocated tree dir (.inr held) found

end

def newDirectory (m : Image) (n : Nat) : Image :=
  (m.setInode n { zeroDinode with type := .dir }).setInode n
    { zeroDinode with type := .dir, nlink := 1 }

lemma newDirectory_sound {sb : Superblock} {m : Image} {n : Nat} (h : Fs.Sound sb m)
    (none : (m.dinode n).type = .none) : Fs.Sound sb (newDirectory m n) := by
  refine (h.ialloc none .dir).setInode ?_ ?_ (Nat.zero_le _) nofun <;>
    rw [Image.setInode_dinode, update_self]

def twoDirectories : Fs.Op := ⟨newDirectory (newDirectory (emptyImage fsSb) 1) 2, []⟩

/-- The root with the directory `d`, which is empty. -/
def smallTree : Fs.Op :=
  let m := (bmapAddr fsSb 1 twoDirectories 0).1.img.setBlock 46
    fun i => (newDirent [100] 2).getD i 0
  ⟨m.setInode 1 { m.dinode 1 with size := 16 }, []⟩

lemma smallTree_tree (ref : Nat → Nat) : Tree fsSb smallTree ref := by
  have empty : Fs.Sound fsSb twoDirectories.img :=
    newDirectory_sound (newDirectory_sound (emptyImage_sound _) rfl) rfl
  obtain ⟨made, grown, here⟩ := empty.bmapAddr (n := 1) (k := 0) (by decide) (by decide)
  have block : (bmapAddr fsSb 1 twoDirectories 0).1.img.blockAt (1, slot 0) = 46 :=
    (here (by decide +kernel)).trans (by decide +kernel)
  obtain ⟨stored, data⟩ := made.write (f := 0) (by decide) block (by decide)
    fun i => (newDirent [100] 2).getD i 0
  have sound : Fs.Sound fsSb smallTree.img := by
    refine stored.resize (by decide) fun f low => ?_
    obtain rfl : f = 0 := by
      simp only [bsize] at low
      omega
    rw [data.kept _ (block.trans_ne (by decide)), block]
    decide
  intro n dir
  by_cases root : n = 1
  · rw [root]
    have one : ∀ j, 16 * j < (smallTree.img.dinode 1).size → j = 0 := by
      intro j low
      rw [show (smallTree.img.dinode 1).size = 16 by decide +kernel] at low
      omega
    refine ⟨fun key => if key = [100] then some 2 else none, ⟨sound, by decide +kernel,
      by decide +kernel, fun j j' low low' _ _ _ => (one j low).trans (one j' low').symm,
      fun j low _ => ?_, fun key i at' => ?_⟩, fun key i at' => ?_⟩
    · rw [one j low]
      decide +kernel
    · obtain ⟨rfl, rfl⟩ := (Option.ite_none_right_eq_some.mp at').imp_right some.inj
      exact ⟨0, by decide +kernel⟩
    · cases (Option.ite_none_right_eq_some.mp at').2
      exact ⟨by decide +kernel, .inl (by decide +kernel)⟩
  have same : smallTree.img.dinode n = twoDirectories.img.dinode n := by
    rw [smallTree, Image.setInode_dinode, update_of_ne root]
    exact (data.inodes n root).trans (grown.inodes n root)
  obtain rfl : n = 2 := by
    by_contra other
    rw [same] at dir
    simp [twoDirectories, newDirectory, Image.setInode_dinode, update_of_ne root,
      update_of_ne other] at dir
    cases dir
  exact ⟨_, holds_empty sound dir (by decide +kernel), nofun⟩

end Xv6.Paths
