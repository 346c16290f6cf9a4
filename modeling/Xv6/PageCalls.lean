import Xv6.PageOwnership

/-! Each call keeps every page in exactly one place, and none of the panics of `vm.c` occurs. -/
namespace Xv6.Vm
open Interleaving PageTable Kernel List Prod
open Option hiding or_assoc
open Function (update update_eq_self update_of_ne update_self)

/-- No panic of `vm.c` has occurred, no freed pipe was closed, and while the kernel runs every page
has its place. -/
structure Sound (code : Nat) (own pool : Set Nat) (s : Kernel) : Prop where
  vm : s.halted ≠ some .vm
  pipe : s.halted ≠ some .pipe
  inv : s.halted = none → ∃ tables maps, Inv code own pool s tables maps

section
variable {code : Nat} {own pool : Set Nat} {s : Kernel} {tables : Nat → Set Nat}
  {maps : Nat → Map} {p c : Nat} {q : Proc} {e : End}

lemma Inv.sound (h : Inv code own pool s tables maps) (runs : s.halted = none) :
    Sound code own pool s :=
  ⟨runs ▸ (some_ne_none _).symm, runs ▸ (some_ne_none _).symm, fun _ => ⟨tables, maps, h⟩⟩

lemma sound_halted (why : Panic) (stop : s.halted = some why) (vm : why ≠ .vm)
    (pipe : why ≠ .pipe) : Sound code own pool s :=
  ⟨fun eq => vm (some.inj (stop.symm.trans eq)), fun eq => pipe (some.inj
    (stop.symm.trans eq)), fun runs => absurd (stop.symm.trans runs) (some_ne_none _)⟩

lemma sbrk_sound {n : Int} (small : ∀ x ∈ pool, x < phystop) (h : Inv code own pool s tables maps)
    (runs : s.halted = none) (here : s.proc p = some q) (int : n < 2 ^ 31) :
    Sound code own pool (sbrk s p n q) := by
  obtain ⟨r, k', t, m, run, space, keeps, failed, done⟩ :=
    (h.space small here).growproc (h.image here) int
  rw [sbrk, run]
  cases r with
  | none =>
    have inv := h.replace q k' here rfl space (failed rfl ▸ h.image here) keeps.own keeps.frame
    have same : (s.setMem k').setProc p (some q) = s.setMem k' := by
      rw [Kernel.setProc]
      change { s.setMem k' with proc := update s.proc p (some q) } = s.setMem k'
      rw [← here, update_eq_self]
      rfl
    rw [same] at inv
    exact inv.sound runs
  | some sz =>
    exact (h.replace { q with sz := sz } k' here rfl space (done sz rfl) keeps.own
      keeps.frame).sound runs

lemma dupAll_sound (h : Inv code own pool s tables maps) (runs : s.halted = none)
    (es : List End) : Sound code own pool (dupAll es s) := by
  induction es generalizing s with
  | nil => exact h.sound runs
  | cons e es ih =>
    rw [dupAll]
    split_ifs with none
    · exact sound_halted .file rfl (by decide) (by decide)
    have positive : ∀ e', 0 < (s.setRef e (s.ref e + 1)).ref e' ↔ 0 < s.ref e' := by
      intro e'
      by_cases same : e' = e
      · subst same
        change 0 < update s.ref e' _ e' ↔ _
        rw [update_self]
        omega
      change 0 < update s.ref e _ e' ↔ _
      rw [update_of_ne same]
    refine ih (h.congr rfl rfl (fun _ => rfl) ⟨fun e' some => ?_, fun id q here => ?_⟩) runs
    · exact h.pipes.live e' ((positive e').mp some)
    rw [positive, positive]
    exact h.pipes.flags id q here

/-- An address space made of all free pages but one, which is to be the trapframe. -/
structure Newborn (s : Kernel) (frame : Nat) (k : Mem) (root : Nat) (t : Set Nat) (m : Map) :
    Prop where
  space : Space k root t m
  mine : ¬ Own k t m frame
  total : ∀ x, x = frame ∨ Own k t m x ↔ x ∈ s.mem.free
  words : ∀ x ∉ s.mem.free, k.words x = s.mem.words x

lemma Newborn.keeps {frame root : Nat} {k k' : Mem} {t t' : Set Nat}
    {m m' : Map} (new : Newborn s frame k root t m) (space : Space k' root t' m')
    (keeps : Keeps k t m k' t' m') : Newborn s frame k' root t' m' := by
  refine ⟨space, fun own => new.mine ((keeps.own frame).mp own), fun x => ?_, fun x out => ?_⟩
  · rw [keeps.own, new.total]
  exact (keeps.frame x fun own => out ((new.total x).mp (.inr own))).trans (new.words x out)

/-- `allocproc` fails with all pages free again, or makes an address space without user memory. -/
lemma Inv.allocproc (h : Inv code own pool s tables maps) (small : ∀ x ∈ pool, x < phystop) :
    kalloc s.mem = none ∨ ∃ frame k₀, kalloc s.mem = some (frame, k₀) ∧
    ((∃ k₁, procPagetable k₀ code frame = some (none, k₁) ∧ Undone s.mem (kfree k₁ frame)) ∨
    ∃ root k₁ t m, procPagetable k₀ code frame = some (some root, k₁) ∧
    Newborn s frame k₁ root t m ∧ Image m 0 code frame) := by
  cases free : s.mem.free with
  | nil => exact .inl (kalloc_none free)
  | cons frame rest =>
    obtain ⟨k₀, run₀, taken⟩ := kalloc_some free
    obtain ⟨-, nodup, apart⟩ := taken.nodup h.nodup
    have inFree : ∀ x, x ∈ s.mem.free ↔ x = frame ∨ x ∈ k₀.free := fun x => by
      rw [taken.mem, mem_singleton]
    refine .inr ⟨frame, k₀, run₀, ?_⟩
    rcases procPagetable_spec nodup
        (fun x mem => h.small small x ((inFree x).mpr (.inr mem))) code frame with
      ⟨k₁, run₁, undone⟩ | ⟨root, k₁, t, m, run₁, built, image⟩
    · exact .inl ⟨k₁, run₁, taken.undone h.nodup undone⟩
    refine .inr ⟨root, k₁, t, m, run₁, ⟨built.space, fun mine => ?_, fun x => ?_,
      fun x out => ?_⟩, image⟩
    · exact apart frame (mem_singleton.mpr rfl) ((built.own frame).mp mine)
    · rw [built.own, inFree]
    rw [inFree, not_or] at out
    rw [built.frame x out.2, taken.words x fun mem => out.1 (mem_singleton.mp mem)]

section
variable (small : ∀ x ∈ pool, x < phystop) (h : Inv code own pool s tables maps)
  (runs : s.halted = none) (here : s.proc p = some q)
include small h runs here

lemma fork_sound (unused : s.proc c = none) : Sound code own pool (fork s code p c q) := by
  have live : s.proc p ≠ none := here ▸ some_ne_none q
  rw [fork]
  rcases h.allocproc small with empty | ⟨frame, k₀, run₀, made⟩
  · rw [empty]
    exact h.sound runs
  rw [run₀]
  dsimp only
  rcases made with ⟨k₁, run₁, undone⟩ | ⟨root, k₁, t, m, run₁, new, image⟩
  · rw [run₁]
    exact (h.undone undone).sound runs
  have outside : ∀ x ∈ tables p, x ∉ s.mem.free := fun x mem mem' => by
    cases h.part.distinct .free (.table p) x mem' ⟨live, mem⟩
  have parent := h.core p q here
  obtain ⟨b, k₂, t₂, m₂, run₂, space₂, keeps₂, done, -⟩ := new.space.uvmcopy q.sz image
    (refines_congr parent.refines fun x mem => new.words x (outside x mem)) (fun x mem mine =>
    outside x mem ((new.total x).mp (.inr mine))) (fun j less => (parent.image.user j
    (lt_of_lt_of_le less parent.image.fits)).mpr less) parent.readable
  have new₂ := new.keeps space₂ keeps₂
  rw [run₁]
  change Sound code own pool (s.after (uvmcopy k₁ q.root root q.sz) _)
  rw [run₂]
  cases b with
  | true =>
    exact dupAll_sound (h.birth (q := ⟨root, q.sz, frame, p, false, q.ofile⟩) unused space₂
      (done rfl) new₂.mine new₂.total new₂.words) runs q.ofile
  | false => exact sound_halted .acquire rfl (by decide) (by decide)

lemma exec_sound (args : Nat) (fetched : Bool) (hs : List Header) (fits : Bool) :
    Sound code own pool (exec s code p args fetched hs fits q) := by
  have space := h.space small here
  have taken := takePages_spec args s.mem
  rw [exec]
  generalize takePages args s.mem = r at taken ⊢
  obtain ⟨pages, k₀⟩ := r
  dsimp only at taken ⊢
  obtain ⟨nodup, nodup₀, apart⟩ := taken.nodup h.nodup
  split_ifs with ready
  · rcases execImage_spec nodup₀ (fun x mem => h.small small x ((taken.mem x).mpr (.inr mem)))
        code q.frame hs fits with
      ⟨k₁, run₁, undone⟩ | ⟨root, sz, k₁, t, m, run₁, built, image⟩
    · rw [run₁]
      exact (h.undone (taken.undone h.nodup undone)).sound runs
    -- the new address space is made of pages of the free list
    have fresh : ∀ x, Own k₁ t m x → x ∈ s.mem.free := fun x mine =>
      (taken.mem x).mpr (.inr ((built.own x).mp mine))
    have oldTable : ∀ x ∈ tables p, x ∉ s.mem.free := fun x mem free => space.freeTables x free mem
    have oldLeaf : ∀ x ∈ leaves (maps p), x ∉ s.mem.free := fun x mem free =>
      space.freeLeaves x free mem
    have words₁ : ∀ x ∉ s.mem.free, k₁.words x = s.mem.words x := by
      intro x out
      rw [taken.mem, not_or] at out
      rw [built.frame x out.2, taken.words x out.1]
    have old : Space k₁ q.root (tables p) (maps p) := ⟨refines_congr space.refines fun x mem =>
      words₁ x (oldTable x mem), built.space.nodup, fun x mine => space.small x (mine.imp_left fun
      mem => fresh x (.inl mem)), fun x mem => space.freeTables x (fresh x (.inl mem)), fun x mem =>
      space.freeLeaves x (fresh x (.inl mem)), space.leafTables, space.inj, space.readable⟩
    obtain ⟨k₂, run₂, freed⟩ := old.procFreepagetable (h.image here)
    have free₂ : ∀ x, x ∈ k₂.free ↔ x ∈ k₁.free ∨ x ∈ tables p ∨ x ∈ leaves (maps p) := freed.mem
    have notOld : ∀ x, x ∈ t ∨ x ∈ leaves m → ¬ Own k₁ (tables p) (maps p) x := by
      rintro x mine (free | table | leaf)
      · rcases mine with mem | mem
        · exact built.space.freeTables x free mem
        exact built.space.freeLeaves x free mem
      · exact oldTable x table (fresh x (.inr mine))
      exact oldLeaf x leaf (fresh x (.inr mine))
    have notTaken : ∀ x ∈ pages, ¬ Own k₁ t m x := fun x mem mine =>
      apart x mem ((built.own x).mp mine)
    have free₃ : ∀ x, x ∈ (freePages pages k₂).free ↔
        x ∈ pages ∨ Own k₁ (tables p) (maps p) x := fun x => by rw [mem_freePages, freed.mem]
    have total : ∀ x, Own (freePages pages k₂) t m x ↔ Own s.mem (tables p) (maps p) x := by
      intro x
      have mine := built.own x
      simp only [Own] at mine
      simp only [Own, free₃, taken.mem x, ← mine, or_assoc, or_comm, or_left_comm]
    have words₂ : ∀ x ∈ t, (freePages pages k₂).words x = k₁.words x := by
      intro x mem
      rw [freePages_words fun taken => notTaken x taken (.inr (.inl mem)),
        freed.frame x (notOld x (.inl mem))]
    rw [run₁]
    change Sound code own pool (s.after (procFreepagetable k₁ q.root q.sz) _)
    rw [run₂]
    refine (h.replace { q with root := root, sz := sz } (freePages pages k₂) here rfl ⟨refines_congr
      built.space.refines words₂, ?_, fun x mine => space.small x ((total x).mp mine), fun x mem
      table => ?_, fun x mem leaf => ?_, built.space.leafTables, built.space.inj,
      built.space.readable⟩ image total fun x out => ?_).sound runs
    · refine nodup_freePages nodup freed.nodup fun x mem free => ?_
      have inFree : x ∈ s.mem.free := (taken.mem x).mpr (.inl mem)
      rcases (freed.mem x).mp free with free | table | leaf
      · exact notTaken x mem (.inl free)
      · exact oldTable x table inFree
      exact oldLeaf x leaf inFree
    · rcases (free₃ x).mp mem with mem | mine
      · exact notTaken x mem (.inr (.inl table))
      exact notOld x (.inl table) mine
    · rcases (free₃ x).mp mem with mem | mine
      · exact notTaken x mem (.inr (.inr leaf))
      exact notOld x (.inr leaf) mine
    have notFree : x ∉ s.mem.free := fun mem => out (.inl mem)
    have notPage : x ∉ pages := fun mem => notFree ((taken.mem x).mpr (.inl mem))
    rw [freePages_words notPage, freed.frame x, words₁ x notFree]
    rintro (free | mine)
    · exact notFree (fresh x (.inl free))
    exact out (.inr mine)
  have undone : Undone k₀ k₀ := ⟨nodup₀, fun _ => Iff.rfl, fun _ _ => rfl⟩
  exact (h.undone (taken.undone h.nodup undone)).sound runs

lemma freeproc_sound : Sound code own pool (freeproc s p q) ∧ (freeproc s p q).proc p = none ∧
    ∀ x, x ∈ (freeproc s p q).mem.free ↔ x = q.frame ∨ Own s.mem (tables p) (maps p) x := by
  have live : s.proc p ≠ none := here ▸ some_ne_none q
  have frame : Holds own s tables maps (.frame p) q.frame := by
    rw [Holds, here]
    rfl
  have mine : ¬ Own s.mem (tables p) (maps p) q.frame := by
    rintro (free | table | leaf)
    · cases h.part.distinct .free (.frame p) _ free frame
    · cases h.part.distinct (.table p) (.frame p) _ ⟨live, table⟩ frame
    cases h.part.distinct (.user p) (.frame p) _ ⟨live, leaf⟩ frame
  have space := (h.space small here).kfree mine (small _ ((h.part.total _).mpr ⟨.frame p, frame⟩))
  obtain ⟨k', run, freed⟩ := space.procFreepagetable (h.image here)
  have own' : ∀ x, Own (kfree s.mem q.frame) (tables p) (maps p) x ↔
      x = q.frame ∨ Own s.mem (tables p) (maps p) x := by
    intro x
    simp only [Own, kfree, Mem.fill, mem_cons, or_assoc]
  rw [freeproc, run]
  refine ⟨(h.death here freed.nodup (fun x => (freed.mem x).trans (own' x))
    fun x other out => ?_).sound runs, update_self .., fun x => (freed.mem x).trans (own' x)⟩
  rw [freed.frame x fun mem => ((own' x).mp mem).elim other out]
  exact update_of_ne other ..

end

lemma store_sound (h : Inv code own pool s tables maps) (runs : s.halted = none)
    (here : s.proc p = some q) (v : Nat) (i : Index) (value : Nat) :
    Sound code own pool (store s v i value q) := by
  have live : s.proc p ≠ none := here ▸ some_ne_none q
  rw [store]
  cases found : walk s.mem.words q.root (v * pgsize) with
  | none => exact h.sound runs
  | some r =>
    obtain ⟨pt, j⟩ := r
    dsimp only
    split_ifs with user
    · obtain ⟨low, ok⟩ := user
      obtain ⟨-, -, -, value'⟩ := (h.core p q here).refines.found found
      rw [Nat.mul_div_cancel _ (by decide)] at value'
      cases entry : maps p v with
      | none =>
        rw [value', entry] at ok
        exact absurd ok (by decide)
      | some r =>
        obtain ⟨page, flags⟩ := r
        rw [entry] at value'
        obtain ⟨-, -, address⟩ := entry_bits (h.core p q here).refines entry
        change s.mem.words pt j = page * 1024 + flags at value'
        rw [value', address]
        refine (h.write fun r live' x mem => setWord_page ?_).sound runs
        rintro rfl
        cases h.part.distinct (.user p) (.table r) x ⟨live, v, flags, low, entry⟩ ⟨live', mem⟩
    exact h.sound runs

end

section
variable {code : Nat} {own pool : Set Nat} {s : Kernel} {tables : Nat → Set Nat}
  {maps : Nat → Map} {p id : Nat} {q : Proc} {e : End} {k : Mem}

/-- A page moves from the free list to a pipe or back; the pipes are open while files refer to
them. -/
lemma Inv.movePipe {s' : Kernel} (h : Inv code own pool s tables maps) (id : Nat)
    (proc : s'.proc = s.proc) (pipe : ∀ r, r ≠ id → s'.pipe r = s.pipe r)
    (nodup : s'.mem.free.Nodup) (total : ∀ x, (x ∈ s'.mem.free ∨
    (s'.pipe id).map Pipe.page = some x) ↔ (x ∈ s.mem.free ∨ (s.pipe id).map Pipe.page = some x))
    (apart : ∀ x ∈ s'.mem.free, (s'.pipe id).map Pipe.page ≠ some x) (words : ∀ x, x ∉ s.mem.free →
    (s.pipe id).map Pipe.page ≠ some x → s'.mem.words x = s.mem.words x) (opened : PipesOpen s') :
    Inv code own pool s' tables maps := by
  refine ⟨h.part.move [.free, .pipe id] (fun i out x => ?_) (fun x => ?_) ?_, nodup,
    fun r q here => ?_, opened⟩
  · simp only [mem_cons, not_mem_nil, or_false, not_or] at out
    cases i with
    | free => exact absurd rfl out.1
    | table r => simp only [Holds, proc]
    | user r => simp only [Holds, proc]
    | frame r => simp only [Holds, proc]
    | pipe r => simp only [Holds, pipe r fun eq => out.2 (eq ▸ rfl)]
    | kernel => exact Iff.rfl
  · simpa [Holds] using total x
  · simpa [Holds] using apart
  rw [proc] at here
  have live : s.proc r ≠ none := here ▸ some_ne_none q
  obtain ⟨refines, inj, readable, image⟩ := h.core r q here
  refine ⟨refines_congr refines fun x mem => words x (fun free => ?_) fun at' => ?_, inj, readable,
    image⟩
  · cases h.part.distinct .free (.table r) x free ⟨live, mem⟩
  cases h.part.distinct (.pipe id) (.table r) x at' ⟨live, mem⟩

lemma setRef_self (n : Nat) : (s.setRef e n).ref e = n := update_self ..

lemma setRef_of_ne {e' : End} (n : Nat) (other : e' ≠ e) : (s.setRef e n).ref e' = s.ref e' :=
  update_of_ne other ..

lemma setOpen_flags (q : Pipe) (w : Bool) : (setOpen q w).page = q.page ∧
    ((setOpen q w).readopen = true ↔ q.readopen = true ∧ w = true) ∧ ((setOpen q w).writeopen =
    true ↔ q.writeopen = true ∧ w = false) := by cases w <;> simp [setOpen]

section
variable (h : Inv code own pool s tables maps)
include h

lemma Inv.fileclose (e : End) : s.ref e < 1 ∧ (s.fileclose e).halted = some .file ∨
    (s.fileclose e).halted = s.halted ∧ Inv code own pool (s.fileclose e) tables maps := by
  obtain ⟨id, w⟩ := e
  rw [Kernel.fileclose]
  split_ifs with unused more
  · exact .inl ⟨unused, rfl⟩
  · have positive : ∀ e', 0 < (s.setRef (id, w) (s.ref (id, w) - 1)).ref e' ↔ 0 < s.ref e' := by
      intro e'
      by_cases same : e' = (id, w)
      · rw [same, setRef_self]
        omega
      rw [setRef_of_ne _ same]
    refine .inr ⟨rfl, h.congr rfl rfl (fun _ => rfl) ⟨fun e' some => ?_, fun r P at' => ?_⟩⟩
    · exact h.pipes.live e' ((positive e').mp some)
    rw [positive, positive]
    exact h.pipes.flags r P at'
  -- the last reference
  have last : s.ref (id, w) - 1 = 0 := by omega
  obtain ⟨P, here⟩ := ne_none_iff_exists'.mp (h.pipes.live (id, w) (by omega))
  obtain ⟨readFlag, writeFlag⟩ := h.pipes.flags id P here
  obtain ⟨page, read, write⟩ := setOpen_flags P w
  have ref : ∀ e', 0 < (s.setRef (id, w) (s.ref (id, w) - 1)).ref e' ↔
      e' ≠ (id, w) ∧ 0 < s.ref e' := by
    intro e'
    by_cases same : e' = (id, w)
    · rw [same, setRef_self, last]
      exact iff_of_false (Nat.lt_irrefl 0) fun both => both.1 rfl
    rw [setRef_of_ne _ same]
    exact (and_iff_right same).symm
  have flags : ∀ {r P'}, r ≠ id → s.pipe r = some P' →
      (P'.readopen = true ↔ 0 < (s.setRef (id, w) (s.ref (id, w) - 1)).ref (r, false)) ∧
      (P'.writeopen = true ↔ 0 < (s.setRef (id, w) (s.ref (id, w) - 1)).ref (r, true)) := by
    intro r P' other at'
    rw [ref, ref]
    grind [h.pipes.flags r P' at']
  have notFree : P.page ∉ s.mem.free := fun free => by
    cases h.part.distinct .free (.pipe id) P.page free
      (show (s.pipe id).map Pipe.page = some P.page by rw [here]; rfl)
  have pipeAt : (s.setRef (id, w) (s.ref (id, w) - 1)).pipe id = some P := here
  rw [pipeclose, pipeAt]
  dsimp only
  split_ifs with closed
  · have shut : ∀ w', ¬ 0 < (s.setRef (id, w) (s.ref (id, w) - 1)).ref (id, w') := by
      intro w' some
      obtain ⟨other, positive⟩ := (ref (id, w')).mp some
      have flags := closed
      rw [← Bool.not_eq_true, ← Bool.not_eq_true, read, write, readFlag, writeFlag] at flags
      cases w <;> cases w'
      · exact other rfl
      · exact flags.2 ⟨positive, rfl⟩
      · exact flags.1 ⟨positive, rfl⟩
      exact other rfl
    have gone : (((s.setRef (id, w) (s.ref (id, w) - 1)).setMem (kfree (s.setRef (id, w) (s.ref (id,
        w) - 1)).mem (setOpen P w).page)).setPipe id none).pipe id = none := update_self ..
    refine .inr ⟨rfl, h.movePipe id rfl (fun r other => update_of_ne other ..) ?_ (fun x => ?_) (fun
      x _ => ?_) (fun x free at' => ?_) ⟨fun e' some => ?_, fun r P' at' => ?_⟩⟩
    · rw [page]
      exact nodup_cons.mpr ⟨notFree, h.nodup⟩
    · rw [gone, here, page]
      change x ∈ P.page :: s.mem.free ∨ Option.none = some x ↔ x ∈ s.mem.free ∨ some P.page = some x
      simp only [mem_cons, reduceCtorEq, or_false, Option.some.injEq]
      rw [or_comm, eq_comm (a := x)]
    · rw [gone]
      exact (some_ne_none x).symm
    · rw [here] at at'
      refine update_of_ne (fun eq => at' ?_) ..
      rw [eq, page]
      rfl
    · by_cases same : e'.1 = id
      · exact absurd (same ▸ some) (shut e'.2)
      change update s.pipe id Option.none e'.1 ≠ Option.none
      rw [update_of_ne same]
      exact h.pipes.live e' ((ref e').mp some).2
    change update s.pipe id Option.none r = some P' at at'
    by_cases same : r = id
    · rw [same, update_self] at at'
      exact absurd at'.symm (some_ne_none P')
    rw [update_of_ne same] at at'
    exact flags same at'
  have now : ((s.setRef (id, w) (s.ref (id, w) - 1)).setPipe id (some (setOpen P w))).pipe id =
      some (setOpen P w) := update_self ..
  refine .inr ⟨rfl, h.movePipe id rfl (fun r other => update_of_ne other ..) h.nodup (fun x => ?_)
    (fun x free at' => ?_) (fun x _ _ => rfl) ⟨fun e' some => ?_, fun r P' at' => ?_⟩⟩
  · rw [now, here, map_some, map_some, page]
    exact Iff.rfl
  · rw [now, map_some, page] at at'
    cases at'
    exact notFree free
  · by_cases same : e'.1 = id
    · grind
    change update s.pipe id _ e'.1 ≠ Option.none
    rw [update_of_ne same]
    exact h.pipes.live e' ((ref e').mp some).2
  by_cases same : r = id
  · subst same
    rw [now] at at'
    cases at'
    change (_ ↔ 0 < (s.setRef (r, w) _).ref (r, false)) ∧
      (_ ↔ 0 < (s.setRef (r, w) _).ref (r, true))
    rw [ref, ref, read, write, readFlag, writeFlag]
    cases w <;> simp
  change update s.pipe id _ r = some P' at at'
  rw [update_of_ne same] at at'
  exact flags same at'

lemma Inv.closeAll (runs : s.halted = none) (es : List End) : (closeAll es s).halted =
    some .file ∨ (closeAll es s).halted = none ∧ Inv code own pool (closeAll es s) tables maps := by
  induction es generalizing s with
  | nil => exact .inr ⟨runs, h⟩
  | cons e es ih =>
    rw [Kernel.closeAll, if_pos runs]
    rcases h.fileclose e with ⟨-, stop⟩ | ⟨same, inv⟩
    · refine .inl ?_
      cases es with
      | nil => exact stop
      | cons e' es => rw [Kernel.closeAll, if_neg (stop ▸ some_ne_none _), stop]
    exact ih inv (same.trans runs)

lemma sysPipe_sound (runs : s.halted = none) (here : s.proc p = some q) (unused : s.pipe id =
    none) (installed : Bool) : Sound code own pool (sysPipe s p id installed q) := by
  rw [sysPipe]
  cases free : s.mem.free with
  | nil =>
    rw [kalloc_none free]
    exact h.sound runs
  | cons page rest =>
    obtain ⟨k₀, run, taken⟩ := kalloc_some free
    obtain ⟨-, nodup, apart⟩ := taken.nodup h.nodup
    rw [run]
    dsimp only
    generalize eq : (((s.setMem k₀).setPipe id (some ⟨page, true, true⟩)).setRef (id, false)
      1).setRef (id, true) 1 = t
    have now : t.pipe id = some ⟨page, true, true⟩ := by
      rw [← eq]
      exact update_self ..
    have others : ∀ r, r ≠ id → t.pipe r = s.pipe r := by
      intro r other
      rw [← eq]
      exact update_of_ne other ..
    have fresh : ∀ w, t.ref (id, w) = 1 := by
      intro w
      rw [← eq]
      cases w with
      | false => exact (setRef_of_ne 1 (by simp)).trans (setRef_self 1)
      | true => exact setRef_self 1
    have refs : ∀ r w, r ≠ id → t.ref (r, w) = s.ref (r, w) := by
      intro r w other
      rw [← eq]
      exact (setRef_of_ne 1 fun eq => other (congrArg fst eq)).trans
        (setRef_of_ne 1 fun eq => other (congrArg fst eq))
    have mem : t.mem = k₀ := by rw [← eq]; rfl
    have proc : t.proc = s.proc := by rw [← eq]; rfl
    have runs' : t.halted = none := by rw [← eq]; exact runs
    have inv : Inv code own pool t tables maps := by
      refine h.movePipe id proc others (mem ▸ nodup) (fun x => ?_) (fun x listed at' => ?_)
        (fun x out _ => ?_) ⟨fun e' some => ?_, fun r P at' => ?_⟩
      · rw [now, unused, mem, taken.mem, mem_singleton, map_some, map_none]
        simp only [reduceCtorEq, or_false, Option.some.injEq]
        rw [or_comm, eq_comm (a := page)]
      · grind
      · rw [taken.mem, not_or] at out
        rw [mem, taken.words x out.1]
      · by_cases same : e'.1 = id
        · rw [same, now]
          exact some_ne_none _
        rw [others _ same]
        exact h.pipes.live e' (refs e'.1 e'.2 same ▸ some)
      by_cases same : r = id
      · grind
      rw [others r same] at at'
      rw [refs r _ same, refs r _ same]
      exact h.pipes.flags r P at'
    cases installed with
    | true =>
      exact (inv.setProc (q := q) { q with ofile := (id, false) :: (id, true) :: q.ofile }
        (by rw [proc, here]) rfl).sound runs'
    | false =>
      rw [if_neg Bool.false_ne_true]
      rcases inv.fileclose (id, false) with ⟨none, -⟩ | ⟨same, inv₁⟩
      · exact absurd none (by rw [fresh]; omega)
      rcases inv₁.fileclose (id, true) with ⟨-, stop⟩ | ⟨same₁, inv₂⟩
      · exact sound_halted .file stop (by decide) (by decide)
      exact inv₂.sound (same₁.trans (same.trans runs'))

lemma Inv.reparent (p : Nat) : Inv code own pool (s.reparent p) tables maps := by
  refine h.congr rfl rfl (fun r => ?_) ⟨h.pipes.live, h.pipes.flags⟩
  change ((s.proc r).map _).map _ = _
  rw [Option.map_map]
  refine congrArg (Option.map · (s.proc r)) (funext fun q => ?_)
  rw [Function.comp_apply]
  split_ifs <;> rfl

end

end

section
variable {code : Nat} {own pool : Set Nat} {s s' : Kernel} {tables : Nat → Set Nat}
  {maps : Nat → Map} {p : Nat} {q : Proc}

lemma proc_of_live (here : live s p = some q) : s.proc p = some q :=
  (filter_eq_some_iff.mp here).1

lemma userinit_sound (small : ∀ x ∈ pool, x < phystop) (h : Inv code own pool s tables maps)
    (runs : s.halted = none) (unused : s.proc 1 = none) {initcode : Index → Nat}
    (next : userinit s code initcode = some s') : Sound code own pool s' := by
  rw [userinit] at next
  rcases h.allocproc small with empty | ⟨frame, k₀, run₀, made⟩
  · rw [empty] at next
    cases next
  rw [run₀] at next
  dsimp only at next
  rcases made with ⟨k₁, run₁, -⟩ | ⟨root, k₁, t, m, run₁, new, image⟩
  · rw [run₁] at next
    cases next
  rw [run₁] at next
  dsimp only at next
  have low : 0 < trapframe := by
    rw [trapframe_eq]
    omega
  rcases new.space.mapNew low (image.empty low le_rfl)
      (show pteW ||| pteR ||| pteX ||| pteU < 1024 by decide) (by decide) initcode with
    ⟨k₂, t₂, run₂, -⟩ | ⟨k₂, t₂, page, run₂, space₂, keeps₂, -⟩
  · rw [run₂] at next
    cases next
  rw [run₂] at next
  cases next
  have new₂ := new.keeps space₂ keeps₂
  exact (h.birth (q := ⟨root, pgsize, frame, 1, false, []⟩) unused space₂
    ((show pages pgsize = 0 + 1 by decide).symm ▸ image.grow low) new₂.mine new₂.total
    new₂.words).sound runs

lemma Sound.step (small : ∀ x ∈ pool, x < phystop) (h : Sound code own pool s) {a : Act}
    (next : Vm.step code s a = some s') : Sound code own pool s' := by
  obtain ⟨runs, next⟩ := ite_none_right_eq_some.mp next
  obtain ⟨tables, maps, inv⟩ := h.inv runs
  cases a with
  | userinit initcode =>
    obtain ⟨unused, next⟩ := ite_none_right_eq_some.mp next
    exact userinit_sound small inv runs unused next
  | sbrk p n =>
    obtain ⟨int, next⟩ := ite_none_right_eq_some.mp next
    obtain ⟨q, here, rfl⟩ := map_eq_some_iff.mp next
    exact sbrk_sound small inv runs (proc_of_live here) int.2
  | exec p args fetched hs fits =>
    obtain ⟨q, here, rfl⟩ := map_eq_some_iff.mp next
    exact exec_sound small inv runs (proc_of_live here) args fetched hs fits
  | fork p c =>
    obtain ⟨unused, next⟩ := ite_none_right_eq_some.mp next
    obtain ⟨q, here, rfl⟩ := map_eq_some_iff.mp next
    exact fork_sound small inv runs (proc_of_live here) unused
  | exit p =>
    obtain ⟨-, next⟩ := ite_none_left_eq_some.mp next
    obtain ⟨q, here, rfl⟩ := map_eq_some_iff.mp next
    have zombie := inv.setProc { q with zombie := true, ofile := [] } (proc_of_live here) rfl
    rcases zombie.closeAll runs q.ofile with stop | ⟨runs', closed⟩
    · exact sound_halted .file stop (by decide) (by decide)
    exact (closed.reparent p).sound runs'
  | wait p c =>
    obtain ⟨q, here, next⟩ := bind_eq_some_iff.mp next
    obtain ⟨-, rfl⟩ := guarded.mp next
    exact (freeproc_sound small inv runs here).1
  | pipe p id installed =>
    obtain ⟨unused, next⟩ := ite_none_right_eq_some.mp next
    obtain ⟨q, here, rfl⟩ := map_eq_some_iff.mp next
    exact sysPipe_sound inv runs (proc_of_live here) unused installed
  | close p e =>
    obtain ⟨q, here, next⟩ := bind_eq_some_iff.mp next
    obtain ⟨-, rfl⟩ := guarded.mp next
    have less := inv.setProc { q with ofile := q.ofile.erase e } (proc_of_live here) rfl
    rcases less.fileclose e with ⟨-, stop⟩ | ⟨same, closed⟩
    · exact sound_halted .file stop (by decide) (by decide)
    exact closed.sound (same.trans runs)
  | store p v i value =>
    obtain ⟨q, here, rfl⟩ := map_eq_some_iff.mp next
    exact store_sound inv runs (proc_of_live here) v i value

lemma boot_sound {words : Words} {free : List Nat} (nodup : free.Nodup)
    (apart : ∀ x ∈ free, x ∉ own) : Sound code own ({x | x ∈ free} ∪ own) (boot words free) := by
  have inv : Placement (Holds own (boot words free) (fun _ => ∅) fun _ _ => none) ({x | x ∈ free} ∪
    own) → Sound code own ({x | x ∈ free} ∪ own) (boot words free) := fun part => Inv.sound ⟨part,
    nodup, fun p q here => absurd here.symm (some_ne_none q), ⟨fun e some => absurd some
    (Nat.lt_irrefl 0), fun id q here => absurd here.symm (some_ne_none q)⟩⟩ rfl
  refine inv ⟨?_, fun x => ?_⟩
  · intro i j x here there
    cases i <;> cases j <;> simp_all [Holds, boot]
  constructor
  · rintro (listed | held)
    · exact ⟨.free, listed⟩
    exact ⟨.kernel, held⟩
  rintro ⟨i, here⟩
  cases i <;> simp_all [Holds, boot]

lemma run_sound {words : Words} {free : List Nat} (nodup : free.Nodup)
    (apart : ∀ x ∈ free, x ∉ own) (small : ∀ x, x ∈ free ∨ x ∈ own → x < phystop)
    {as : List Act} (run : Run (Vm.step code) Free (boot words free) as s) :
    Sound code own ({x | x ∈ free} ∪ own) s :=
  run.invariant (I := Sound code own ({x | x ∈ free} ∪ own))
    (fun _ _ _ h _ next => h.step small next) (boot_sound nodup apart)

end
end Xv6.Vm
