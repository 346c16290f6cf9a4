import Xv6.UserVmImage

/-! Building and freeing whole address spaces: `proc_pagetable`, `proc_freepagetable` and `exec`. -/
namespace Xv6.Vm
open PageTable List Option
open Function (update update_eq_self_iff update_idem update_of_ne update_self)

structure Freed (k : Mem) (tables : Set Nat) (m : Map) (k' : Mem) : Prop where
  nodup : k'.free.Nodup
  mem : ∀ x, x ∈ k'.free ↔ Own k tables m x
  frame : ∀ x, ¬ Own k tables m x → k'.words x = k.words x

/-- An address space has been built from pages of the free list of `k`. -/
structure Built (k k' : Mem) (root : Nat) (tables : Set Nat) (m : Map) : Prop where
  space : Space k' root tables m
  own : ∀ x, Own k' tables m x ↔ x ∈ k.free
  frame : ∀ x ∉ k.free, k'.words x = k.words x

/-- A free list is as it was, up to the order and the contents of its pages. -/
structure Undone (k k' : Mem) : Prop where
  nodup : k'.free.Nodup
  mem : ∀ x, x ∈ k'.free ↔ x ∈ k.free
  frame : ∀ x ∉ k.free, k'.words x = k.words x

section
variable {k k' k₁ : Mem} {root n v code frame sz : Nat} {tables tables₁ : Set Nat} {m m₁ : Map}

lemma Keeps.freed (keeps : Keeps k tables m k₁ tables₁ m₁) (freed : Freed k₁ tables₁ m₁ k') :
    Freed k tables m k' :=
  ⟨freed.nodup, fun x => (freed.mem x).trans (keeps.own x),
    fun x out => (freed.frame x fun own => out ((keeps.own x).mp own)).trans (keeps.frame x out)⟩

lemma Built.keeps (built : Built k k₁ root tables m) (space : Space k' root tables₁ m₁)
    (keeps : Keeps k₁ tables m k' tables₁ m₁) : Built k k' root tables₁ m₁ :=
  ⟨space, fun x => (keeps.own x).trans (built.own x),
    fun x out => (keeps.frame x fun own => out ((built.own x).mp own)).trans (built.frame x out)⟩

lemma Built.freed (built : Built k k₁ root tables m) (freed : Freed k₁ tables m k') :
    Undone k k' :=
  ⟨freed.nodup, fun x => (freed.mem x).trans (built.own x),
    fun x out => (freed.frame x fun own => out ((built.own x).mp own)).trans (built.frame x out)⟩

lemma Space.uvmfree (sz : Nat) (h : Space k root tables m) (only : ∀ v, m v ≠ none ↔ v < pages sz)
    (low : pages sz ≤ trapframe) : ∃ k', Vm.uvmfree k root sz = some k' ∧ Freed k tables m k' := by
  obtain ⟨k₁, run, space, keeps⟩ := h.uvmunmap (v := 0) (n := pages sz) (by omega)
    fun j _ last => (only j).mpr (by omega)
  have unmapped : ∀ v, m.unmapRange 0 (pages sz) v = none := by
    intro v
    rw [Map.unmapRange]
    split_ifs with inside
    · rfl
    exact of_not_not fun some => inside ⟨Nat.zero_le v, by have := (only v).mp some; omega⟩
  have noLeaves : ∀ x, x ∉ leaves (m.unmapRange 0 (pages sz)) := by
    rintro x ⟨v, f, -, here⟩
    exact absurd ((unmapped v).symm.trans here).symm (some_ne_none _)
  obtain ⟨w, freed, words⟩ := freewalk_spec (space.refines.bare unmapped) space.refines.nodup_pages
  have inTables : ∀ x, x ∈ pagesBelow 2 k₁.words root ↔ x ∈ tables := by
    intro x
    rw [mem_pages]
    constructor
    · rintro ⟨place, here⟩
      exact space.refines.mem here
    intro inside
    exact space.refines.exact.owned (some x) ⟨x, inside, rfl⟩
  have mem : ∀ x, x ∈ (pagesBelow 2 k₁.words root).reverse ++ k₁.free ↔
      Own k₁ tables (m.unmapRange 0 (pages sz)) x := by
    intro x
    rw [mem_append, mem_reverse, inTables]
    constructor
    · rintro (table | free)
      · exact .inr (.inl table)
      exact .inl free
    rintro (free | table | leaf)
    · exact .inr free
    · exact .inl table
    exact absurd leaf (noLeaves x)
  refine ⟨⟨w, (pagesBelow 2 k₁.words root).reverse ++ k₁.free⟩, ?_, keeps.freed ⟨?_, mem, ?_⟩⟩
  · rw [Vm.uvmfree, run, bind_some]
    exact (congrArg (Option.map _) freed).trans (map_some ..)
  · refine nodup_append.mpr ⟨nodup_reverse.mpr space.refines.nodup_pages, space.nodup, ?_⟩
    rintro x inside y listed rfl
    exact space.freeTables x listed ((inTables x).mp (mem_reverse.mp inside))
  intro x out
  exact words x fun inside => out (.inr (.inl ((inTables x).mp inside)))

lemma Space.procFreepagetable (h : Space k root tables m) (img : Image m (pages sz) code frame) :
    ∃ k', Vm.procFreepagetable k root sz = some k' ∧ Freed k tables m k' := by
  have top := trampoline_eq
  have frameAt := trapframe_eq
  have fits := img.fits
  obtain ⟨k₁, run₁, space₁, keeps₁⟩ := h.unmapTop (by omega) (by omega) img.code
  obtain ⟨k₂, run₂, space₂, keeps₂⟩ := space₁.unmapTop (v := trapframe) le_rfl (by omega)
    (by rw [update_of_ne (by omega)]; exact img.frame)
  have only : ∀ v, update (update m trampoline none) trapframe none v ≠ none ↔
      v < pages sz := by
    intro v
    by_cases last : v = trapframe
    · rw [last, update_self]
      exact iff_of_false (fun ne => ne rfl) (by omega)
    rw [update_of_ne last]
    by_cases first : v = trampoline
    · rw [first, update_self]
      exact iff_of_false (fun ne => ne rfl) (by omega)
    rw [update_of_ne first]
    by_cases low : v < trapframe
    · exact img.user v low
    exact iff_of_false (fun ne => ne (img.above v (by omega))) (by omega)
  obtain ⟨k₃, run₃, freed⟩ := space₂.uvmfree sz only fits
  refine ⟨k₃, ?_, keeps₁.freed (keeps₂.freed freed)⟩
  rw [Vm.procFreepagetable, run₁, bind_some, run₂, bind_some, run₃]

end

section
variable {k : Mem} {root code frame : Nat} {tables : Set Nat} {m : Map}

lemma space_create {w : Words} {free : List Nat} (nodup : (root :: free).Nodup)
    (small : ∀ x ∈ root :: free, x < phystop) : Built ⟨w, root :: free⟩
    ⟨update (update w root fun _ => fresh) root fun _ => 0, free⟩ root {root} fun _ => none := by
  have noLeaves : ∀ x, x ∉ leaves fun _ => none := by
    rintro x ⟨v, f, -, here⟩
    exact absurd here.symm (some_ne_none _)
  have own : ∀ w' x, Own ⟨w', free⟩ {root} (fun _ => none) x ↔ x ∈ root :: free := by
    intro w' x
    rw [Own, Set.mem_singleton_iff, mem_cons]
    have none := noLeaves x
    tauto
  refine ⟨⟨uvmcreate_refines root (update w root fun _ => fresh), (nodup_cons.mp nodup).2, fun x mem
    => small x ((own _ x).mp mem), fun x mem eq => ?_, fun x _ => noLeaves x, fun x mem => absurd
    mem (noLeaves x), fun _ _ _ _ _ _ _ here => absurd here.symm (some_ne_none _), fun _ _ _ here =>
    absurd here.symm (some_ne_none _)⟩, own _, fun x out => ?_⟩
  · exact (nodup_cons.mp nodup).1 (Set.mem_singleton_iff.mp eq ▸ mem)
  have other : x ≠ root := fun eq => out (eq ▸ mem_cons_self)
  change update (update w root _) root _ x = w x
  rw [update_of_ne other, update_of_ne other]

lemma procPagetable_cons {w : Words} {free : List Nat} :
    procPagetable ⟨w, root :: free⟩ code frame =
      match mappages ⟨update (update w root fun _ => fresh) root fun _ => 0, free⟩
        root trampoline code (pteR ||| pteX) with
      | none => none
      | some (false, k) => (uvmfree k root 0).map fun k => (none, k)
      | some (true, k) =>
        match mappages k root trapframe frame (pteR ||| pteW) with
        | none => none
        | some (false, k) =>
          (uvmunmap root false 1 trampoline k).bind fun k =>
            (uvmfree k root 0).map fun k => (none, k)
        | some (true, k) => some (some root, k) := rfl

lemma procPagetable_spec (nodup : k.free.Nodup) (small : ∀ x ∈ k.free, x < phystop)
    (code frame : Nat) : (∃ k', procPagetable k code frame = some (none, k') ∧ Undone k k') ∨
    ∃ root k' tables m, procPagetable k code frame = some (some root, k') ∧
    Built k k' root tables m ∧ Image m 0 code frame := by
  have top := trampoline_eq
  have frameAt := trapframe_eq
  obtain ⟨w, free⟩ := k
  cases free with
  | nil => exact .inl ⟨_, rfl, nodup, fun _ => Iff.rfl, fun _ _ => rfl⟩
  | cons root free =>
    have built := space_create (w := w) nodup small
    have noPages : pages 0 = 0 := by decide
    rw [procPagetable_cons]
    rcases built.space.mappages (v := trampoline) (by omega) rfl
        (show pteR ||| pteX < 1024 by decide) code with
      ⟨k₁, tables₁, run₁, space₁, keeps₁⟩ | ⟨k₁, k₀, tables₁, run₁, space₀, keeps₀, free₁, words₁, r₁⟩
    · obtain ⟨k₂, run₂, freed⟩ := space₁.uvmfree 0
        (fun v => iff_of_false (fun ne => ne rfl) (by omega)) (by omega)
      refine .inl ⟨k₂, ?_, built.freed (keeps₁.freed freed)⟩
      rw [run₁]
      dsimp only
      rw [run₂]
      rfl
    obtain ⟨space₁, keeps₁⟩ := space₀.setTop (by omega) free₁ words₁ r₁ fun x f eq => by
      cases eq
      exact or_readable _
    have built₁ := (built.keeps space₀ keeps₀).keeps space₁ keeps₁
    rw [run₁]
    dsimp only
    rcases space₁.mappages (v := trapframe) (by omega)
        (by rw [update_of_ne (by omega)]) (show pteR ||| pteW < 1024 by decide) frame with
      ⟨k₂, tables₂, run₂, space₂, keeps₂⟩ |
        ⟨k₂, k₀', tables₂, run₂, space₂, keeps₂, free₂, words₂, r₂⟩
    · obtain ⟨k₃, run₃, space₃, keeps₃⟩ := space₂.unmapTop (v := trampoline) (by omega)
        (by omega) (update_self ..)
      rw [update_idem, update_eq_self_iff.mpr rfl] at space₃ keeps₃
      obtain ⟨k₄, run₄, freed⟩ := space₃.uvmfree 0
        (fun v => iff_of_false (fun ne => ne rfl) (by omega)) (by omega)
      refine .inl ⟨k₄, ?_, built₁.freed (keeps₂.freed (keeps₃.freed freed))⟩
      rw [run₂]
      dsimp only
      rw [run₃, bind_some, run₄]
      rfl
    obtain ⟨space₃, keeps₃⟩ := space₂.setTop le_rfl free₂ words₂ r₂ fun x f eq => by
      cases eq
      exact or_readable _
    refine .inr ⟨root, k₂, tables₂, _, ?_, (built₁.keeps space₂ keeps₂).keeps space₃ keeps₃, ⟨fun v
      low => ?_, ?_, ?_, fun v above => ?_, Nat.zero_le _⟩⟩
    · rw [run₂]
    · rw [update_of_ne (by omega), update_of_ne (by omega)]
      exact iff_of_false (fun ne => ne rfl) (by omega)
    · rw [update_of_ne (by omega), update_self]
    · rw [update_self]
    rw [update_of_ne (by omega), update_of_ne (by omega)]

lemma Space.uvmclear {n v : Nat} (h : Space k root tables m) (img : Image m n code frame)
    (less : v < n) : ∃ k' m', Vm.uvmclear k root (v * pgsize) = some k' ∧ Space k' root tables m' ∧
    Keeps k tables m k' tables m' ∧ Image m' n code frame := by
  have low : v < trapframe := lt_of_lt_of_le less img.fits
  have below : v < 67108864 := by
    rw [trapframe_eq] at low
    omega
  obtain ⟨⟨page, flags⟩, here⟩ := ne_none_iff_exists'.mp ((img.user v low).mpr less)
  obtain ⟨pt, found, at', -⟩ := find_entry h.refines below here
  have run : PageTable.uvmclear k.words root (v * pgsize) =
      some (setWord k.words pt (px 0 (v * pgsize)) (k.words pt (px 0 (v * pgsize)) -
        (k.words pt (px 0 (v * pgsize)) &&& pteU))) := by
    rw [PageTable.uvmclear, found]
    rfl
  have r := h.refines.uvmclear run
  rw [Nat.mul_div_cancel _ (by decide), here] at r
  change Refines _ root tables (update m v (some (clearU (page, flags)))) at r
  -- the page stays the same
  have back : ∀ u x f, update m v (some (clearU (page, flags))) u = some (x, f) →
      ∃ f', m u = some (x, f') ∧ f / 2 % 2 = f' / 2 % 2 := by
    intro u x f there
    by_cases eq : u = v
    · rw [eq, update_self] at there
      cases there
      refine ⟨flags, eq ▸ here, ?_⟩
      rw [and_pteU]
      omega
    rw [update_of_ne eq] at there
    exact ⟨f, there, rfl⟩
  have same : leaves (update m v (some (clearU (page, flags)))) = leaves m := by
    ext x
    constructor
    · rintro ⟨u, f, low, there⟩
      obtain ⟨f', there', -⟩ := back u x f there
      exact ⟨u, f', low, there'⟩
    rintro ⟨u, f, low', there⟩
    by_cases eq : u = v
    · rw [eq, here] at there
      cases there
      exact ⟨v, _, low, update_self ..⟩
    exact ⟨u, f, low', by rw [update_of_ne eq, there]⟩
  have words : ∀ x ∉ tables, setWord k.words pt (px 0 (v * pgsize))
      (k.words pt (px 0 (v * pgsize)) - (k.words pt (px 0 (v * pgsize)) &&& pteU)) x =
        k.words x := by
    intro x out
    refine setWord_page ?_
    rintro rfl
    exact out (h.refines.mem at')
  have defined : ∀ u, update m v (some (clearU (page, flags))) u ≠ none ↔ m u ≠ none := by
    intro u
    by_cases eq : u = v
    · rw [eq, update_self]
      exact iff_of_true (some_ne_none _) (here ▸ some_ne_none _)
    rw [update_of_ne eq]
  have frameAt := trapframe_eq
  have top := trampoline_eq
  refine ⟨⟨_, k.free⟩, _, by rw [Vm.uvmclear, run]; rfl, ⟨r, h.nodup, fun x => ?_, h.freeTables, ?_,
    ?_, fun u u' x f f' low low' one two => ?_, fun u x f there => ?_⟩, ⟨fun x => ?_, fun x out => ?_,
    fun x mem _ => words x (h.leafTables x mem)⟩, ⟨fun u low => (defined u).trans (img.user u low),
    ?_, ?_, fun u above => ?_, img.fits⟩⟩
  · rw [Own, same]
    exact h.small x
  · rw [same]
    exact h.freeLeaves
  · rw [same]
    exact h.leafTables
  · obtain ⟨g, one, -⟩ := back u x f one
    obtain ⟨g', two, -⟩ := back u' x f' two
    exact h.inj u u' x g g' low low' one two
  · obtain ⟨g, one, bit⟩ := back u x f there
    exact bit.trans (h.readable u x g one)
  · rw [Own, Own, same]
  · exact words x fun mem => out (.inr (.inl mem))
  · rw [update_of_ne (by omega)]
    exact img.code
  · rw [update_of_ne (by omega)]
    exact img.frame
  rw [update_of_ne (by omega)]
  exact img.above u above

lemma flags2perm_lt (flags : Nat) : flags2perm flags < 1024 := by
  rw [flags2perm]
  refine or_small ?_ ?_ <;> split_ifs <;> decide

lemma Built.loadLoop {k₀ : Mem} {sz : Nat} (hs : List Header) (built : Built k₀ k root tables m)
    (img : Image m (pages sz) code frame) : ∃ b sz' k' tables' m', Vm.loadLoop root hs sz k =
    some (b, sz', k') ∧ Built k₀ k' root tables' m' ∧ Image m' (pages sz') code frame := by
  induction hs generalizing k tables m sz with
  | nil => exact ⟨true, sz, k, tables, m, rfl, built, img⟩
  | cons header hs ih =>
    cases header with
    | unreadable => exact ⟨false, sz, k, tables, m, rfl, built, img⟩
    | other => exact ih built img
    | load vaddr memsz filesz flags loaded =>
      rw [Vm.loadLoop]
      by_cases bad : memsz < filesz ∨ 2 ^ 64 ≤ vaddr + memsz ∨ vaddr % pgsize ≠ 0
      · rw [if_pos bad]
        exact ⟨false, sz, k, tables, m, rfl, built, img⟩
      rw [if_neg bad]
      obtain ⟨sz', k', tables', m', run, space, keeps, done⟩ :=
        built.space.uvmalloc (vaddr + memsz) img (flags2perm_lt flags)
      have built' := built.keeps space keeps
      rw [run]
      dsimp only
      rcases done with ⟨rfl, rfl⟩ | ⟨eq, img'⟩
      · exact ⟨false, sz, k', tables', m', rfl, built', img⟩
      by_cases zero : sz' = 0
      · grind
      rw [if_neg zero]
      cases loaded with
      | false => exact ⟨false, sz', k', tables', m', rfl, built', img'⟩
      | true => exact ih built' img'

lemma execImage_spec (nodup : k.free.Nodup) (small : ∀ x ∈ k.free, x < phystop) (code frame : Nat)
    (hs : List Header) (fits : Bool) : (∃ k', execImage k code frame hs fits = some (none, k') ∧
    Undone k k') ∨ ∃ root sz k' tables m, execImage k code frame hs fits =
    some (some (root, sz), k') ∧ Built k k' root tables m ∧ Image m (pages sz) code frame := by
  rw [execImage]
  rcases procPagetable_spec nodup small code frame with
    ⟨k', run, undone⟩ | ⟨root, k₁, tables₁, m₁, run, built₁, img₁⟩
  · rw [run]
    exact .inl ⟨k', rfl, undone⟩
  rw [run]
  obtain ⟨b, sz, k₂, tables₂, m₂, run₂, built₂, img₂⟩ :=
    built₁.loadLoop hs
      (show Image m₁ (pages 0) code frame from (show pages 0 = 0 by decide).symm ▸ img₁)
  have free : ∀ {k' tables' m' sz'}, Built k k' root tables' m' →
      Image m' (pages sz') code frame → ∃ k'', procFreepagetable k' root sz' = some k'' ∧
        Undone k k'' := by
    intro k' tables' m' sz' built img
    obtain ⟨k'', run, freed⟩ := built.space.procFreepagetable img
    exact ⟨k'', run, built.freed freed⟩
  dsimp only
  rw [run₂]
  cases b with
  | false => grind
  | true =>
    have rounded : Image m₂ (pages (pages sz * pgsize)) code frame := (pages_mul _).symm ▸ img₂
    obtain ⟨sz₃, k₃, tables₃, m₃, run₃, space₃, keeps₃, done⟩ := built₂.space.uvmalloc
      (pages sz * pgsize + 2 * pgsize) rounded (show pteW < 1024 by decide)
    have built₃ := built₂.keeps space₃ keeps₃
    dsimp only
    rw [run₃]
    dsimp only
    rcases done with ⟨rfl, rfl⟩ | ⟨eq, img₃⟩
    · obtain ⟨k₄, run₄, undone⟩ := free built₃ rounded
      exact .inl ⟨k₄, by rw [if_pos rfl, run₄]; rfl, undone⟩
    have size : sz₃ = (pages sz + 2) * pgsize := by
      rw [eq, Nat.add_mul]
      omega
    have count : pages sz₃ = pages sz + 2 := by rw [size, pages_mul]
    have positive : sz₃ ≠ 0 := by
      have : 0 < pgsize := by decide
      rw [Nat.add_mul] at size
      omega
    obtain ⟨k₄, m₄, run₄, space₄, keeps₄, img₄⟩ := space₃.uvmclear (v := pages sz) img₃ (by omega)
    have built₄ := built₃.keeps space₄ keeps₄
    have start : sz₃ - 2 * pgsize = pages sz * pgsize := by
      rw [size, Nat.add_mul]
      omega
    rw [if_neg positive, start, run₄, bind_some]
    cases fits with
    | true => exact .inr ⟨root, sz₃, k₄, tables₃, m₄, rfl, built₄, img₄⟩
    | false => grind

end
end Xv6.Vm
