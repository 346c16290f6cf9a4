import Xv6.FreeWalk
import Xv6.UserVm

/-! One address space and the free list: what the functions of `vm.c` do to the map of the page
table, and that every page stays on the free list, in the page table or in user memory. -/
namespace Xv6.Vm
open PageTable List Set
open Option hiding or_assoc
open Function (update update_of_ne update_self)

def leaves (m : Map) : Set Nat := {x | ∃ v flags, v < trapframe ∧ m v = some (x, flags)}

def phystop : Nat := 0x88000

def Own (k : Mem) (tables : Set Nat) (m : Map) (x : Nat) : Prop :=
  x ∈ k.free ∨ x ∈ tables ∨ x ∈ leaves m

/-- The free list, the page table and the user memory have no page in common, and no page twice. -/
structure Space (k : Mem) (root : Nat) (tables : Set Nat) (m : Map) : Prop where
  refines : Refines k.words root tables m
  nodup : k.free.Nodup
  small : ∀ x, Own k tables m x → x < phystop
  freeTables : ∀ x ∈ k.free, x ∉ tables
  freeLeaves : ∀ x ∈ k.free, x ∉ leaves m
  leafTables : ∀ x ∈ leaves m, x ∉ tables
  inj : ∀ v v' x f f', v < trapframe → v' < trapframe → m v = some (x, f) →
    m v' = some (x, f') → v = v'
  readable : ∀ v x f, m v = some (x, f) → f / 2 % 2 = 1

/-- No page is lost or gained, other pages are not written, nor is user memory that stays. -/
structure Keeps (k : Mem) (tables : Set Nat) (m : Map) (k' : Mem) (tables' : Set Nat) (m' : Map) :
    Prop where
  own : ∀ x, Own k' tables' m' x ↔ Own k tables m x
  frame : ∀ x, ¬ Own k tables m x → k'.words x = k.words x
  kept : ∀ x ∈ leaves m, x ∈ leaves m' → k'.words x = k.words x

section
variable {m : Map} {v x page flags : Nat}

lemma trapframe_eq : trapframe = 67108862 := by decide
lemma trampoline_eq : trampoline = 67108863 := by decide

lemma address_lt (below : v < 67108864) : v * pgsize < maxva := by
  change v * 4096 < 274877906944
  omega

lemma leaves_top {e : Option (Nat × Nat)} (top : trapframe ≤ v) :
    leaves (update m v e) = leaves m := by
  ext y
  refine exists_congr fun u => exists_congr fun f => and_congr_right fun below => ?_
  rw [update_of_ne]
  omega

lemma leaves_map (page flags : Nat) (low : v < trapframe) (empty : m v = none) :
    leaves (update m v (some (page, flags))) = insert page (leaves m) := by
  ext y
  rw [mem_insert_iff]
  constructor
  · rintro ⟨u, f, below, here⟩
    by_cases eq : u = v
    · rw [eq, update_self] at here
      cases here
      exact .inl rfl
    rw [update_of_ne eq] at here
    exact .inr ⟨u, f, below, here⟩
  rintro (rfl | ⟨u, f, below, here⟩)
  · exact ⟨v, flags, low, update_self ..⟩
  refine ⟨u, f, below, ?_⟩
  rw [update_of_ne, here]
  rintro rfl
  exact absurd (empty.symm.trans here).symm (some_ne_none _)

lemma leaves_unmap (inj : ∀ v v' x f f', v < trapframe → v' < trapframe → m v = some (x, f) →
    m v' = some (x, f') → v = v') (low : v < trapframe) (here : m v = some (page, flags)) :
    leaves (update m v none) = leaves m \ {page} := by
  ext y
  constructor
  · rintro ⟨u, f, below, at'⟩
    by_cases eq : u = v
    · rw [eq, update_self] at at'
      exact absurd at'.symm (some_ne_none _)
    rw [update_of_ne eq] at at'
    refine ⟨⟨u, f, below, at'⟩, ?_⟩
    rintro rfl
    exact eq (inj u v _ _ _ below low at' here)
  rintro ⟨⟨u, f, below, at'⟩, other⟩
  refine ⟨u, f, below, ?_⟩
  rw [update_of_ne, at']
  rintro rfl
  exact other (congrArg Prod.fst (some.inj (at'.symm.trans here)))

end

variable {free : List Nat}

section
variable {k k' k'' : Mem} {root : Nat} {tables tables' tables'' : Set Nat} {m m' m'' : Map}
  {w w' : Words}

lemma Keeps.refl : Keeps k tables m k tables m :=
  ⟨fun _ => Iff.rfl, fun _ _ => rfl, fun _ _ _ => rfl⟩

lemma Keeps.trans (a : Keeps k tables m k' tables' m') (b : Keeps k' tables' m' k'' tables'' m'')
    (mid : ∀ x ∈ leaves m, x ∈ leaves m'' → x ∈ leaves m') : Keeps k tables m k'' tables'' m'' :=
  ⟨fun x => (b.own x).trans (a.own x),
    fun x out => (b.frame x fun own => out ((a.own x).mp own)).trans (a.frame x out),
    fun x first last => (b.kept x (mid x first last) last).trans (a.kept x first (mid x first last))⟩

lemma refines_congr (r : Refines w root tables m) (same : ∀ x ∈ tables, w' x = w x) :
    Refines w' root tables m := by
  have top : ∀ i, lookup w' root i = lookup w root i := fun i =>
    lookup_congr (congrFun (same root (r.mem (p := .root) rfl)) i)
  have tree : held w' root = held w root := by
    funext p
    cases p with
    | root => rfl
    | mid i => exact top i
    | low i j =>
      rw [held_low, held_low]
      change (lookup w' root i).bind _ = (lookup w root i).bind _
      rw [top]
      cases mid : lookup w root i with
      | none => rfl
      | some q => exact lookup_congr (congrFun (same q (r.mem (p := .mid i) mid)) j)
  refine ⟨tree ▸ r.exact, fun i j k => ?_, r.flags, r.top.congr (same root (r.mem (p := .root) rfl)),
    fun i pt here => ?_⟩
  · rw [← r.leaf, pteAt, pteAt, tree]
    cases low : held w root (.low i j) with
    | none => rfl
    | some q => exact congrFun (same q (r.mem low)) k
  rw [top] at here
  exact (r.middle i pt here).congr (same pt (r.mem (p := .mid i) here))

lemma Space.adopt {page : Nat} (h : Space ⟨w, page :: free⟩ root tables m)
    (r : Refines w' root (insert page tables) m) (same : ∀ x, x ≠ page → x ∉ tables → w' x = w x) :
    Space ⟨w', free⟩ root (insert page tables) m ∧
    Keeps ⟨w, page :: free⟩ tables m ⟨w', free⟩ (insert page tables) m := by
  obtain ⟨out, nodup⟩ := nodup_cons.mp h.nodup
  have notLeaf := h.freeLeaves page mem_cons_self
  have later : ∀ x ∈ free, x ∈ page :: free := fun x => mem_cons_of_mem page
  have own : ∀ x, Own ⟨w', free⟩ (insert page tables) m x ↔ Own ⟨w, page :: free⟩ tables m x := by
    intro x
    simp only [Own, mem_insert_iff, mem_cons, or_assoc, or_left_comm]
  refine ⟨⟨r, nodup, fun x mem => h.small x ((own x).mp mem), fun x mem inside => ?_,
    fun x mem => h.freeLeaves x (later x mem), fun x mem inside => ?_, h.inj, h.readable⟩,
    own, fun x none => ?_, fun x mem _ => ?_⟩
  · rcases mem_insert_iff.mp inside with rfl | inside
    · exact out mem
    exact h.freeTables x (later x mem) inside
  · rcases mem_insert_iff.mp inside with rfl | inside
    · exact notLeaf mem
    exact h.leafTables x mem inside
  · refine same x ?_ fun mem => none (.inr (.inl mem))
    rintro rfl
    exact none (.inl mem_cons_self)
  refine same x ?_ (h.leafTables x mem)
  rintro rfl
  exact notLeaf mem

lemma Space.walkFill (h : Space k root tables m) (va : Nat) :
    ∃ tables', Space (walkFill k root va).2 root tables' m ∧
    Keeps k tables m (walkFill k root va).2 tables' m ∧
    ∀ pt i, (walkFill k root va).1 = some (pt, i) → i = px 0 va ∧
    held (walkFill k root va).2.words root (.low (px 2 va) (px 1 va)) = some pt := by
  obtain ⟨w, free⟩ := k
  -- one round: the page that an interior entry leads to
  have first : descend w root (px 2 va) free = none ∨ ∃ pt w₁ free₁ tables₁,
      descend w root (px 2 va) free = some (pt, w₁, free₁) ∧ Space ⟨w₁, free₁⟩ root tables₁ m ∧
        Keeps ⟨w, free⟩ tables m ⟨w₁, free₁⟩ tables₁ m ∧ held w₁ root (.mid (px 2 va)) = some pt := by
    unfold descend
    split_ifs with here
    · exact .inr ⟨_, _, _, tables, rfl, h, .refl, if_pos here⟩
    cases free with
    | nil => exact .inl rfl
    | cons page free =>
      obtain ⟨r, at'⟩ := h.refines.insertMid (i := px 2 va)
        (h.freeTables page mem_cons_self) (if_neg here)
      obtain ⟨space, keeps⟩ := h.adopt r fun x other out => by
        rw [setWord_page, zeroPage_page other]
        rintro rfl
        exact out (h.refines.mem (p := .root) rfl)
      exact .inr ⟨_, _, _, _, rfl, space, keeps, at'⟩
  rcases first with fails | ⟨pt, w₁, free₁, tables₁, found, h₁, keeps₁, mid⟩
  · refine ⟨tables, ?_⟩
    simp only [Vm.walkFill, fails]
    exact ⟨h, .refl, fun _ _ eq => absurd eq.symm (some_ne_none _)⟩
  simp only [Vm.walkFill, found]
  unfold descend
  by_cases here : valid (w₁ pt (px 1 va)) = true
  · simp only [here, if_true]
    refine ⟨tables₁, h₁, keeps₁, fun pt' i eq => ?_⟩
    cases eq
    refine ⟨rfl, ?_⟩
    rw [held_low, mid]
    exact if_pos here
  simp only [here]
  cases free₁ with
  | nil => exact ⟨tables₁, h₁, keeps₁, fun _ _ eq => absurd eq.symm (some_ne_none _)⟩
  | cons page free₁ =>
    obtain ⟨r, at'⟩ := h₁.refines.insertLow (h₁.freeTables page mem_cons_self) mid (if_neg here)
    obtain ⟨space, keeps⟩ := h₁.adopt r fun x other out => by
      rw [setWord_page, zeroPage_page other]
      rintro rfl
      exact out (h₁.refines.mem mid)
    refine ⟨_, space, keeps₁.trans keeps fun _ mem _ => mem, fun pt' i eq => ?_⟩
    cases eq
    exact ⟨rfl, at'⟩

end

section
variable {k k' k₁ : Mem} {root v page perm : Nat} {tables tables' : Set Nat} {m m' : Map}

lemma Space.mappages (h : Space k root tables m) (below : v < 67108864) (empty : m v = none)
    (small : perm < 1024) (page : Nat) : (∃ k' tables', Vm.mappages k root v page perm =
    some (false, k') ∧ Space k' root tables' m ∧ Keeps k tables m k' tables' m) ∨
    ∃ k' k₁ tables', Vm.mappages k root v page perm = some (true, k') ∧ Space k₁ root tables' m ∧
    Keeps k tables m k₁ tables' m ∧ k'.free = k₁.free ∧ (∀ x ∉ tables', k'.words x = k₁.words x) ∧
    Refines k'.words root tables' (update m v (some (page, leafFlags perm))) := by
  obtain ⟨tables', space, keeps, found⟩ := h.walkFill (v * pgsize)
  rw [Vm.mappages, if_pos (address_lt below)]
  generalize Vm.walkFill k root (v * pgsize) = r at space keeps found ⊢
  obtain ⟨e, k₁⟩ := r
  cases e with
  | none => exact .inl ⟨k₁, tables', rfl, space, keeps⟩
  | some e =>
    obtain ⟨pt, i⟩ := e
    obtain ⟨rfl, here⟩ := found pt i rfl
    have there : vpn (px 2 (v * pgsize)) (px 1 (v * pgsize)) (px 0 (v * pgsize)) = v := by
      rw [vpn_px (address_lt below), Nat.mul_div_cancel _ (by decide)]
    have value : k₁.words pt (px 0 (v * pgsize)) = 0 := by
      have entry := space.refines.leaf (px 2 (v * pgsize)) (px 1 (v * pgsize)) (px 0 (v * pgsize))
      rw [there, empty, pteAt, here] at entry
      exact entry
    have invalid : valid (k₁.words pt (px 0 (v * pgsize))) = false := by
      rw [value]
      decide
    have r := space.refines.setLeaf (k := px 0 (v * pgsize)) here
      (show pa2pte page ||| perm ||| pteV = encode (some (page, leafFlags perm)) by
        rw [Nat.or_assoc]
        exact pa2pte_or page (leafFlags_lt small)) (by
        rintro page flags eq
        cases eq
        exact ⟨leafFlags_odd perm, leafFlags_lt small⟩)
    rw [there] at r
    refine .inr ⟨k₁.setWord pt (px 0 (v * pgsize)) (pa2pte page ||| perm ||| pteV), k₁, tables',
      ?_, space, keeps, rfl, fun x out => ?_, r⟩
    · simp only [invalid]
      rfl
    refine setWord_page ?_
    rintro rfl
    exact out (space.refines.mem here)

lemma Space.setTop {e : Option (Nat × Nat)} (h : Space k₁ root tables m) (top : trapframe ≤ v)
    (free : k'.free = k₁.free) (words : ∀ x ∉ tables, k'.words x = k₁.words x)
    (r : Refines k'.words root tables (update m v e))
    (readable : ∀ x f, e = some (x, f) → f / 2 % 2 = 1) :
    Space k' root tables (update m v e) ∧ Keeps k₁ tables m k' tables (update m v e) := by
  have same := leaves_top (m := m) (e := e) top
  refine ⟨⟨r, free ▸ h.nodup, ?_, free ▸ h.freeTables, ?_, ?_, ?_, ?_⟩, ?_, ?_, ?_⟩
  · intro x
    rw [Own, free, same]
    exact h.small x
  · rw [free, same]
    exact h.freeLeaves
  · rw [same]
    exact h.leafTables
  · intro u u' x f f' low low' here here'
    rw [update_of_ne (by omega)] at here here'
    exact h.inj u u' x f f' low low' here here'
  · intro u x f here
    by_cases eq : u = v
    · rw [eq, update_self] at here
      exact readable x f here
    rw [update_of_ne eq] at here
    exact h.readable u x f here
  · intro x
    rw [Own, Own, free, same]
  · exact fun x out => words x fun mem => out (.inr (.inl mem))
  exact fun x mem _ => words x (h.leafTables x mem)

lemma Space.setUser {flags : Nat} (h : Space k₁ root tables m) (low : v < trapframe)
    (empty : m v = none) (mine : ¬ Own k₁ tables m page) (small : page < phystop)
    (free : k'.free = k₁.free) (r : Refines k'.words root tables (update m v (some (page, flags))))
    (readable : flags / 2 % 2 = 1) : Space k' root tables (update m v (some (page, flags))) := by
  have same := leaves_map page flags low empty
  have notLeaf : ∀ u f, u < trapframe → m u ≠ some (page, f) := fun u f below here =>
    mine (.inr (.inr ⟨u, f, below, here⟩))
  refine ⟨r, free ▸ h.nodup, fun x mem => ?_, free ▸ h.freeTables, fun x mem inside => ?_,
    fun x mem inside => ?_, fun u u' x f f' below below' here here' => ?_, fun u x f here => ?_⟩
  · rw [Own, free, same, mem_insert_iff] at mem
    rcases mem with mem | mem | rfl | mem
    · exact h.small x (.inl mem)
    · exact h.small x (.inr (.inl mem))
    · exact small
    exact h.small x (.inr (.inr mem))
  · rw [free] at mem
    rw [same] at inside
    rcases mem_insert_iff.mp inside with rfl | inside
    · exact mine (.inl mem)
    exact h.freeLeaves x mem inside
  · rw [same] at mem
    rcases mem_insert_iff.mp mem with rfl | mem
    · exact mine (.inr (.inl inside))
    exact h.leafTables x mem inside
  · by_cases first : u = v <;> by_cases second : u' = v
    · exact first.trans second.symm
    · grind
    · grind
    rw [update_of_ne first] at here
    rw [update_of_ne second] at here'
    exact h.inj u u' x f f' below below' here here'
  by_cases eq : u = v
  · rw [eq, update_self] at here
    cases here
    exact readable
  rw [update_of_ne eq] at here
  exact h.readable u x f here

lemma Space.kfree (h : Space k root tables m) (mine : ¬ Own k tables m page)
    (small : page < phystop) : Space (Vm.kfree k page) root tables m := by
  have free : ∀ x, x ∈ (Vm.kfree k page).free ↔ x = page ∨ x ∈ k.free := fun x => mem_cons
  refine ⟨refines_congr h.refines fun x mem => ?_,
    nodup_cons.mpr ⟨fun mem => mine (.inl mem), h.nodup⟩, fun x mem => ?_,
    fun x mem inside => ?_, fun x mem inside => ?_, h.leafTables, h.inj, h.readable⟩
  · refine update_of_ne ?_ ..
    rintro rfl
    exact mine (.inr (.inl mem))
  · rw [Own, free] at mem
    rcases mem with (rfl | mem) | mem
    · exact small
    · exact h.small x (.inl mem)
    exact h.small x (.inr mem)
  · rcases (free x).mp mem with rfl | mem
    · exact mine (.inr (.inl inside))
    exact h.freeTables x mem inside
  rcases (free x).mp mem with rfl | mem
  · exact mine (.inr (.inr inside))
  exact h.freeLeaves x mem inside

lemma Space.kalloc {w w₀ : Words} (h : Space ⟨w, page :: free⟩ root tables m)
    (same : ∀ x, x ≠ page → w₀ x = w x) :
    Space ⟨w₀, free⟩ root tables m ∧ ¬ Own ⟨w₀, free⟩ tables m page ∧ page < phystop := by
  obtain ⟨out, nodup⟩ := nodup_cons.mp h.nodup
  have later : ∀ x ∈ free, x ∈ page :: free := fun x => mem_cons_of_mem page
  have first : page ∈ page :: free := mem_cons_self
  refine ⟨⟨refines_congr h.refines fun x mem => same x ?_, nodup, fun x mem => h.small x
    (mem.imp_left (later x)), fun x mem => h.freeTables x (later x mem), fun x mem => h.freeLeaves x
    (later x mem), h.leafTables, h.inj, h.readable⟩, ?_, h.small page (.inl first)⟩
  · rintro rfl
    exact h.freeTables x first mem
  rintro (mem | mem | mem)
  · exact out mem
  · exact h.freeTables page first mem
  exact h.freeLeaves page first mem

lemma Keeps.around {w w₀ : Words} (h : Space ⟨w, page :: free⟩ root tables m)
    (same : ∀ x, x ≠ page → w₀ x = w x) (keeps : Keeps ⟨w₀, free⟩ tables m k₁ tables' m)
    (own : ∀ x, Own k' tables' m' x ↔ x = page ∨ Own k₁ tables' m x)
    (words : ∀ x, x ≠ page → x ∉ tables' → k'.words x = k₁.words x)
    (apart : ∀ x ∈ leaves m, x ∉ tables') : Keeps ⟨w, page :: free⟩ tables m k' tables' m' := by
  have split : ∀ x, Own ⟨w, page :: free⟩ tables m x ↔ x = page ∨ Own ⟨w₀, free⟩ tables m x := by
    intro x
    simp only [Own, mem_cons, or_assoc]
  refine ⟨fun x => ?_, fun x out => ?_, fun x mem _ => ?_⟩
  · rw [own, split, keeps.own]
  · rw [split, not_or] at out
    exact (words x out.1 fun mem => out.2 ((keeps.own x).mp (.inr (.inl mem)))).trans
      ((keeps.frame x out.2).trans (same x out.1))
  have other : x ≠ page := by
    rintro rfl
    exact h.freeLeaves x mem_cons_self mem
  exact (words x other (apart x mem)).trans ((keeps.kept x mem mem).trans (same x other))

lemma mapNew_cons {w : Words} {contents : Index → Nat} :
    mapNew ⟨w, page :: free⟩ root v contents perm =
      match mappages ⟨update (update w page fun _ => fresh) page contents, free⟩
        root v page perm with
      | none => none
      | some (false, k) => some (false, Vm.kfree k page)
      | some (true, k) => some (true, k) := rfl

lemma Space.mapNew (h : Space k root tables m) (low : v < trapframe) (empty : m v = none)
    (small : perm < 1024) (flags : leafFlags perm / 2 % 2 = 1) (contents : Index → Nat) :
    (∃ k' tables', Vm.mapNew k root v contents perm = some (false, k') ∧ Space k' root tables' m ∧
    Keeps k tables m k' tables' m) ∨ ∃ k' tables' page, Vm.mapNew k root v contents perm =
    some (true, k') ∧ Space k' root tables' (update m v (some (page, leafFlags perm))) ∧
    Keeps k tables m k' tables' (update m v (some (page, leafFlags perm))) ∧ page ∈ k.free ∧
    k'.words page = contents := by
  obtain ⟨w, free⟩ := k
  cases free with
  | nil => exact .inl ⟨_, tables, rfl, h, .refl⟩
  | cons page free =>
    have same : ∀ x, x ≠ page → update (update w page fun _ => fresh) page
        contents x = w x := fun x other => by rw [update_of_ne other, update_of_ne other]
    obtain ⟨h₀, mine, bound⟩ := h.kalloc same
    have below : v < 67108864 := by
      rw [trapframe_eq] at low
      omega
    rcases h₀.mappages below empty small page with
      ⟨k₁, tables', run, space, keeps⟩ | ⟨k', k₁, tables', run, space, keeps, frees, words, r⟩
    · refine .inl ⟨Vm.kfree k₁ page, tables', ?_, space.kfree (fun own => mine ((keeps.own page).mp
        own)) bound, Keeps.around h same keeps (fun x => ?_) (fun x other _ => update_of_ne other
        ..) space.leafTables⟩
      · rw [mapNew_cons, run]
      simp only [Own, Vm.kfree, Mem.fill, mem_cons, or_assoc]
    have leafOf := leaves_map page (leafFlags perm) low empty
    refine .inr ⟨k', tables', page, ?_, space.setUser low empty (fun own => mine ((keeps.own
      page).mp own)) bound frees r flags, Keeps.around h same keeps (fun x => ?_) (fun x _ out =>
      words x out) space.leafTables, mem_cons_self, ?_⟩
    · rw [mapNew_cons, run]
    · simp only [Own, frees, leafOf, mem_insert_iff, or_left_comm]
    rw [words page fun table => mine ((keeps.own page).mp (.inr (.inl table))),
      keeps.frame page mine]
    exact update_self ..

end

section
variable {k : Mem} {root v page flags : Nat} {tables : Set Nat} {m : Map}

lemma find_entry {w : Words} (r : Refines w root tables m) (below : v < 67108864)
    (here : m v = some (page, flags)) : ∃ pt, walk w root (v * pgsize) =
    some (pt, px 0 (v * pgsize)) ∧ held w root (.low (px 2 (v * pgsize)) (px 1 (v * pgsize))) =
    some pt ∧ w pt (px 0 (v * pgsize)) = page * 1024 + flags := by
  have value := r.walk (address_lt below)
  rw [Nat.mul_div_cancel _ (by decide), here] at value
  cases found : walk w root (v * pgsize) with
  | none =>
    rw [found] at value
    have odd := (r.flags v page flags here).1
    change 0 = page * 1024 + flags at value
    omega
  | some e =>
    obtain ⟨pt, i⟩ := e
    obtain ⟨-, rfl, at', -⟩ := r.found found
    rw [found] at value
    exact ⟨pt, rfl, at', value⟩

lemma entry_bits {w : Words} (r : Refines w root tables m) (here : m v = some (page, flags)) :
    valid (page * 1024 + flags) = true ∧ pteFlags (page * 1024 + flags) = flags ∧
    pte2pa (page * 1024 + flags) = page := by
  obtain ⟨odd, small⟩ := r.flags v page flags here
  rw [valid_iff, pteFlags_eq, pte2pa_eq]
  omega

section
variable (h : Space k root tables m)
include h

lemma Space.ne_one (here : m v = some (page, flags)) : flags ≠ pteV := by
  have bit := h.readable v page flags here
  change flags ≠ 1
  omega

lemma Space.clear {pt : Nat} (below : v < 67108864)
    (here : held k.words root (.low (px 2 (v * pgsize)) (px 1 (v * pgsize))) = some pt) :
    Refines (setWord k.words pt (px 0 (v * pgsize)) 0) root tables (update m v none) := by
  have r := h.refines.setLeaf (k := px 0 (v * pgsize)) (v := 0) (e := none) here rfl
    fun page flags eq => absurd eq.symm (some_ne_none _)
  rw [vpn_px (address_lt below), Nat.mul_div_cancel _ (by decide)] at r
  exact r

lemma Space.unmapUser {pt : Nat} (low : v < trapframe) (here : m v = some (page, flags))
    (at' : held k.words root (.low (px 2 (v * pgsize)) (px 1 (v * pgsize))) = some pt) :
    Space ((Vm.kfree k page).setWord pt (px 0 (v * pgsize)) 0) root tables (update m v none) ∧ Keeps
    k tables m ((Vm.kfree k page).setWord pt (px 0 (v * pgsize)) 0) tables (update m v none) := by
  have mem : page ∈ leaves m := ⟨v, flags, low, here⟩
  have gone := leaves_unmap h.inj low here
  have mine : pt ∈ tables := h.refines.mem at'
  have below : v < 67108864 := by
    rw [trapframe_eq] at low
    omega
  have r : Refines ((Vm.kfree k page).setWord pt (px 0 (v * pgsize)) 0).words root tables
      (update m v none) := by
    refine refines_congr (h.clear below at') fun x inside => ?_
    have other : x ≠ page := by
      rintro rfl
      exact h.leafTables x mem inside
    by_cases eq : x = pt
    · subst eq
      change setWord (update k.words page _) x _ 0 x = setWord k.words x _ 0 x
      rw [setWord, setWord, update_self, update_self, update_of_ne other]
    change setWord (update k.words page _) pt _ 0 x = setWord k.words pt _ 0 x
    rw [setWord_page eq, setWord_page eq, update_of_ne other]
  have words : ∀ x, x ≠ page → x ∉ tables →
      ((Vm.kfree k page).setWord pt (px 0 (v * pgsize)) 0).words x = k.words x := by
    intro x other out
    change setWord (update k.words page _) pt _ 0 x = _
    rw [setWord_page, update_of_ne other]
    rintro rfl
    exact out mine
  have free : ((Vm.kfree k page).setWord pt (px 0 (v * pgsize)) 0).free = page :: k.free := rfl
  refine ⟨⟨r, ?_, fun x inside => ?_, fun x inside => ?_, fun x inside => ?_, fun x inside => ?_,
    fun u u' x f f' low low' one two => ?_, fun u x f one => ?_⟩, fun x => ?_, fun x out => ?_,
    fun x inside last => ?_⟩
  · exact nodup_cons.mpr ⟨fun inside => h.freeLeaves page inside mem, h.nodup⟩
  · rw [Own, free, gone, mem_cons] at inside
    rcases inside with (rfl | inside) | inside | inside
    · exact h.small x (.inr (.inr mem))
    · exact h.small x (.inl inside)
    · exact h.small x (.inr (.inl inside))
    exact h.small x (.inr (.inr inside.1))
  · rcases mem_cons.mp inside with rfl | inside
    · exact h.leafTables x mem
    exact h.freeTables x inside
  · rw [gone]
    rintro ⟨leaf, other⟩
    rcases mem_cons.mp inside with rfl | inside
    · exact other rfl
    exact h.freeLeaves x inside leaf
  · rw [gone] at inside
    exact h.leafTables x inside.1
  · have keep : ∀ {u e}, update m v none u = some e → m u = some e := by
      intro u e one
      by_cases eq : u = v
      · rw [eq, update_self] at one
        exact absurd one.symm (some_ne_none _)
      rwa [update_of_ne eq] at one
    exact h.inj u u' x f f' low low' (keep one) (keep two)
  · by_cases eq : u = v
    · rw [eq, update_self] at one
      exact absurd one.symm (some_ne_none _)
    rw [update_of_ne eq] at one
    exact h.readable u x f one
  · rw [Own, Own, free, gone, mem_cons, mem_sdiff, mem_singleton_iff]
    by_cases eq : x = page
    · exact iff_of_true (.inl (.inl eq)) (.inr (.inr (eq ▸ mem)))
    simp only [eq, false_or, not_false_iff, and_true]
  · exact words x (fun eq => out (.inr (.inr (eq ▸ mem)))) fun inside => out (.inr (.inl inside))
  rw [gone] at last
  exact words x last.2 (h.leafTables x inside)

lemma Space.uvmunmap {n : Nat} (low : v + n ≤ trapframe)
    (mapped : ∀ j, v ≤ j → j < v + n → m j ≠ none) : ∃ k', Vm.uvmunmap root true n v k = some k' ∧
    Space k' root tables (m.unmapRange v n) ∧ Keeps k tables m k' tables (m.unmapRange v n) := by
  induction n generalizing k v m with
  | zero =>
    rw [unmapRange_zero]
    exact ⟨k, rfl, h, .refl⟩
  | succ n ih =>
    obtain ⟨⟨page, flags⟩, here⟩ := ne_none_iff_exists'.mp (mapped v le_rfl (by omega))
    have below : v < 67108864 := by
      rw [trapframe_eq] at low
      omega
    obtain ⟨pt, found, at', value⟩ := find_entry h.refines below here
    obtain ⟨ok, bits, address⟩ := entry_bits h.refines here
    obtain ⟨space, keeps⟩ := h.unmapUser (by omega) here at'
    obtain ⟨k', run, space', keeps'⟩ := ih (v := v + 1) space (by omega) fun j first last => by
      rw [update_of_ne (by omega)]
      exact mapped j (by omega) (by omega)
    rw [unmapRange_succ]
    refine ⟨k', ?_, space', keeps.trans keeps' fun x _ last => ?_⟩
    · have leaf : (flags != pteV) = true := bne_iff_ne.mpr (h.ne_one here)
      simp only [Vm.uvmunmap, found, value, ok, bits, leaf, address, Bool.and_self, if_true]
      exact run
    obtain ⟨u, f, low', one⟩ := last
    rw [Map.unmapRange] at one
    exact ⟨u, f, low', (ite_none_left_eq_some.mp one).2⟩

lemma Space.unmapTop (top : trapframe ≤ v) (below : v < 67108864)
    (here : m v = some (page, flags)) : ∃ k', Vm.uvmunmap root false 1 v k = some k' ∧
    Space k' root tables (update m v none) ∧ Keeps k tables m k' tables (update m v none) := by
  obtain ⟨pt, found, at', value⟩ := find_entry h.refines below here
  obtain ⟨ok, bits, -⟩ := entry_bits h.refines here
  have leaf : (flags != pteV) = true := bne_iff_ne.mpr (h.ne_one here)
  refine ⟨k.setWord pt (px 0 (v * pgsize)) 0, ?_, ?_⟩
  · simp only [Vm.uvmunmap, found, value, ok, bits, leaf, Bool.and_self, if_true]
    rfl
  refine h.setTop top rfl (fun x out => setWord_page ?_) (h.clear below at')
    fun x f eq => absurd eq.symm (some_ne_none _)
  rintro rfl
  exact out (h.refines.mem at')

end

end
end Xv6.Vm
