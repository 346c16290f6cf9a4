import Xv6.Placement
import Xv6.UserVmExec
import Xv6.UserVmKernel

/-! Every physical page is on the free list, or in one page table, one process's memory, one
trapframe, one pipe, or with the kernel. -/
namespace Xv6.Vm
open Interleaving PageTable Kernel List Option
open Function (update update_eq_self update_of_ne update_self)

inductive Owner
  | free
  | table (p : Nat)
  | user (p : Nat)
  | frame (p : Nat)
  | pipe (id : Nat)
  | kernel

/-- The pages of each owner; `tables` and `maps` are the page tables of the processes. -/
def Holds (own : Set Nat) (s : Kernel) (tables : Nat → Set Nat) (maps : Nat → Map) :
    Owner → Nat → Prop
  | .free, x => x ∈ s.mem.free
  | .table p, x => s.proc p ≠ none ∧ x ∈ tables p
  | .user p, x => s.proc p ≠ none ∧ x ∈ leaves (maps p)
  | .frame p, x => (s.proc p).map Proc.frame = some x
  | .pipe id, x => (s.pipe id).map Pipe.page = some x
  | .kernel, x => x ∈ own

structure Core (code : Nat) (w : Words) (q : Proc) (tables : Set Nat) (m : Map) : Prop where
  refines : Refines w q.root tables m
  inj : ∀ v v' x f f', v < trapframe → v' < trapframe → m v = some (x, f) →
    m v' = some (x, f') → v = v'
  readable : ∀ v x f, m v = some (x, f) → f / 2 % 2 = 1
  image : Image m (pages q.sz) code q.frame

structure PipesOpen (s : Kernel) : Prop where
  live : ∀ e, 0 < s.ref e → s.pipe e.1 ≠ none
  flags : ∀ id q, s.pipe id = some q → (q.readopen = true ↔ 0 < s.ref (id, false)) ∧
    (q.writeopen = true ↔ 0 < s.ref (id, true))

structure Inv (code : Nat) (own pool : Set Nat) (s : Kernel) (tables : Nat → Set Nat)
    (maps : Nat → Map) : Prop where
  part : Placement (Holds own s tables maps) pool
  nodup : s.mem.free.Nodup
  core : ∀ p q, s.proc p = some q → Core code s.mem.words q (tables p) (maps p)
  pipes : PipesOpen s

section
variable {code : Nat} {own pool : Set Nat} {s s' : Kernel} {tables : Nat → Set Nat}
  {maps : Nat → Map} {p c : Nat} {q q' : Proc} {k k' : Mem} {t : Set Nat} {m : Map}

lemma Space.core (h : Space k q.root t m) (img : Image m (pages q.sz) code q.frame) :
    Core code k.words q t m := ⟨h.refines, h.inj, h.readable, img⟩

section
variable (h : Inv code own pool s tables maps)
include h

lemma Inv.space (small : ∀ x ∈ pool, x < phystop) (here : s.proc p = some q) :
    Space s.mem q.root (tables p) (maps p) := by
  have some : s.proc p ≠ none := here ▸ some_ne_none q
  obtain ⟨r, inj, readable, -⟩ := h.core p q here
  refine ⟨r, h.nodup, fun x mem => small x ((h.part.total x).mpr ?_), fun x free table => ?_,
    fun x free leaf => ?_, fun x leaf table => ?_, inj, readable⟩
  · rcases mem with free | table | leaf
    · exact ⟨.free, free⟩
    · exact ⟨.table p, some, table⟩
    exact ⟨.user p, some, leaf⟩
  · cases h.part.distinct .free (.table p) x free ⟨some, table⟩
  · cases h.part.distinct .free (.user p) x free ⟨some, leaf⟩
  cases h.part.distinct (.user p) (.table p) x ⟨some, leaf⟩ ⟨some, table⟩

lemma Inv.image (here : s.proc p = some q) :
    Image (maps p) (pages q.sz) code q.frame := (h.core p q here).image

lemma Inv.small (small : ∀ x ∈ pool, x < phystop) :
    ∀ x ∈ s.mem.free, x < phystop := fun x mem => small x ((h.part.total x).mpr ⟨.free, mem⟩)

lemma Inv.others
    (words : ∀ r, r ≠ p → s.proc r ≠ none → ∀ x ∈ tables r, k'.words x = s.mem.words x) :
    ∀ r q, r ≠ p → s.proc r = some q → Core code k'.words q (tables r) (maps r) := by
  intro r q other here
  obtain ⟨refines, inj, readable, image⟩ := h.core r q here
  exact ⟨refines_congr refines (words r other (here ▸ some_ne_none q)), inj, readable, image⟩

end

section
variable (s : Kernel) (k : Mem) (p r : Nat) (q : Option Proc)

@[simp] lemma setProc_self : (s.setProc p q).proc p = q := update_self ..

lemma setProc_of_ne {r p : Nat} (other : r ≠ p) : (s.setProc p q).proc r = s.proc r :=
  update_of_ne other ..

@[simp] lemma setProc_mem : (s.setProc p q).mem = s.mem := rfl
@[simp] lemma setProc_pipe : (s.setProc p q).pipe = s.pipe := rfl
@[simp] lemma setMem_mem : (s.setMem k).mem = k := rfl
@[simp] lemma setMem_proc : (s.setMem k).proc = s.proc := rfl
@[simp] lemma setMem_pipe : (s.setMem k).pipe = s.pipe := rfl

end

lemma holds_other {o : Owner} {e : Option Proc} (free : o ≠ .free) (table : o ≠ .table p)
    (user : o ≠ .user p) (frame : o ≠ .frame p ∨ e.map Proc.frame = (s.proc p).map Proc.frame)
    (x : Nat) : Holds own ((s.setMem k').setProc p e) (update tables p t) (update maps p m) o x ↔
    Holds own s tables maps o x := by
  cases o with
  | free => exact absurd rfl free
  | table r =>
    have other : r ≠ p := fun eq => table (eq ▸ rfl)
    simp only [Holds, setProc_of_ne _ _ other, setMem_proc, update_of_ne other]
  | user r =>
    have other : r ≠ p := fun eq => user (eq ▸ rfl)
    simp only [Holds, setProc_of_ne _ _ other, setMem_proc, update_of_ne other]
  | frame r =>
    by_cases other : r = p
    · subst other
      simp only [Holds, setProc_self, frame.resolve_left fun ne => ne rfl]
    simp only [Holds, setProc_of_ne _ _ other, setMem_proc]
  | pipe | kernel => exact Iff.rfl

section
variable (h : Inv code own pool s tables maps)
include h

lemma Inv.own_apart (here : s.proc p ≠ none) {r x : Nat} (other : r ≠ p) (live : s.proc r ≠ none)
    (mem : x ∈ tables r) : ¬ Own s.mem (tables p) (maps p) x := by
  rintro (free | table | leaf)
  · cases h.part.distinct .free (.table r) x free ⟨live, mem⟩
  · cases h.part.distinct (.table p) (.table r) x ⟨here, table⟩ ⟨live, mem⟩
    exact other rfl
  cases h.part.distinct (.user p) (.table r) x ⟨here, leaf⟩ ⟨live, mem⟩

lemma Inv.core_set (space : Space k' q'.root t m) (image : Image m (pages q'.sz) code q'.frame)
    (words : ∀ r, r ≠ p → s.proc r ≠ none → ∀ x ∈ tables r, k'.words x = s.mem.words x) :
    ∀ r q, ((s.setMem k').setProc p (some q')).proc r = some q →
    Core code k'.words q (update tables p t r) (update maps p m r) := by
  intro r q there
  by_cases other : r = p
  · subst other
    rw [setProc_self] at there
    cases there
    rw [update_self, update_self]
    exact space.core image
  rw [setProc_of_ne _ _ other] at there
  rw [update_of_ne other, update_of_ne other]
  exact h.others words r q other there

lemma Inv.replace (q' : Proc) (k' : Mem) (here : s.proc p = some q) (frame : q'.frame = q.frame)
    (space : Space k' q'.root t m) (image : Image m (pages q'.sz) code q'.frame)
    (total : ∀ x, Own k' t m x ↔ Own s.mem (tables p) (maps p) x)
    (words : ∀ x, ¬ Own s.mem (tables p) (maps p) x → k'.words x = s.mem.words x) :
    Inv code own pool ((s.setMem k').setProc p (some q')) (update tables p t)
    (update maps p m) := by
  have live : s.proc p ≠ none := here ▸ some_ne_none q
  refine ⟨h.part.move [.free, .table p, .user p] (fun o out => ?_) (fun x => ?_) ?_, space.nodup,
    h.core_set space image fun r other live' x mem => words x (h.own_apart live other live' mem),
    ⟨h.pipes.live, h.pipes.flags⟩⟩
  · simp only [mem_cons, not_mem_nil, or_false, not_or] at out
    refine holds_other out.1 out.2.1 out.2.2 (.inr ?_)
    rw [here, map_some, map_some, frame]
  · have eq := total x
    simp only [Own] at eq
    simpa [Holds, live] using eq
  simpa [Holds] using ⟨⟨space.freeTables, space.freeLeaves⟩, fun x table leaf =>
  space.leafTables x leaf table⟩

lemma Inv.birth (none : s.proc c = none) (space : Space k' q.root t m)
    (image : Image m (pages q.sz) code q.frame) (mine : ¬ Own k' t m q.frame)
    (total : ∀ x, x = q.frame ∨ Own k' t m x ↔ x ∈ s.mem.free)
    (words : ∀ x ∉ s.mem.free, k'.words x = s.mem.words x) :
    Inv code own pool ((s.setMem k').setProc c (some q)) (update tables c t) (update maps c m) := by
  refine ⟨h.part.move [.free, .table c, .user c, .frame c] (fun o out => ?_) (fun x => ?_) ?_,
    space.nodup, h.core_set space image fun r _ live x mem => words x fun free => ?_,
    ⟨h.pipes.live, h.pipes.flags⟩⟩
  · simp only [mem_cons, not_mem_nil, or_false, not_or] at out
    exact holds_other out.1 out.2.1 out.2.2.1 (.inl out.2.2.2)
  · have eq := total x
    simp only [Own] at eq
    simp [Holds, none, ← eq]
    tauto
  · simp only [Own, not_or] at mine
    have pairs : ((∀ x ∈ k'.free, x ∉ t) ∧ (∀ x ∈ k'.free, x ∉ leaves m) ∧ ∀ x ∈ k'.free, ¬ q.frame
      = x) ∧ ((∀ x ∈ t, x ∉ leaves m) ∧ ∀ x ∈ t, ¬ q.frame = x) ∧ ∀ x ∈ leaves m, ¬ q.frame = x :=
      ⟨⟨space.freeTables, space.freeLeaves, fun x mem eq => mine.1 (eq ▸ mem)⟩, ⟨fun x table leaf =>
      space.leafTables x leaf table, fun x mem eq => mine.2.1 (eq ▸ mem)⟩, fun x mem eq => mine.2.2
      (eq ▸ mem)⟩
    simpa [Holds] using pairs
  cases h.part.distinct .free (.table r) x free ⟨live, mem⟩

lemma Inv.death (here : s.proc p = some q) (nodup : k'.free.Nodup)
    (total : ∀ x, x ∈ k'.free ↔ x = q.frame ∨ Own s.mem (tables p) (maps p) x)
    (words : ∀ x, x ≠ q.frame → ¬ Own s.mem (tables p) (maps p) x → k'.words x = s.mem.words x) :
    Inv code own pool ((s.setMem k').setProc p none) tables maps := by
  have live : s.proc p ≠ none := here ▸ some_ne_none q
  refine ⟨h.part.move [.free, .table p, .user p, .frame p] (fun o out => ?_) (fun x => ?_) ?_,
    nodup, fun r q'' there => ?_, ⟨h.pipes.live, h.pipes.flags⟩⟩
  · simp only [mem_cons, not_mem_nil, or_false, not_or] at out
    have kept : ∀ x, Holds own ((s.setMem k').setProc p none) (update tables p (tables p)) (update
      maps p (maps p)) o x ↔ _ := holds_other out.1 out.2.1 out.2.2.1 (.inl out.2.2.2)
    rwa [update_eq_self, update_eq_self] at kept
  · have eq := total x
    simp only [Own] at eq
    simp [Holds, here, eq]
    tauto
  · simp [Holds]
  by_cases other : r = p
  · subst other
    rw [setProc_self] at there
    exact absurd there.symm (some_ne_none q'')
  rw [setProc_of_ne _ _ other] at there
  refine h.others (p := p) (fun r other live' x mem =>
    words x ?_ (h.own_apart live other live' mem)) r q'' other there
  rintro rfl
  cases h.part.distinct (.frame p) (.table r) q.frame
    (show (s.proc p).map Proc.frame = some q.frame by rw [here]; rfl) ⟨live', mem⟩

lemma Inv.undone (undone : Undone s.mem k') : Inv code own pool (s.setMem k') tables maps := by
  refine ⟨h.part.move [.free] (fun i out x => ?_) (fun x => ?_) (pairwise_singleton ..),
    undone.nodup, fun r q there => ?_, ⟨h.pipes.live, h.pipes.flags⟩⟩
  · cases i with
    | free => exact absurd (mem_singleton.mpr rfl) out
    | _ => exact Iff.rfl
  · simpa [Holds] using undone.mem x
  obtain ⟨refines, inj, readable, image⟩ := h.core r q there
  refine ⟨refines_congr refines fun x mem => undone.frame x fun free => ?_, inj, readable, image⟩
  cases h.part.distinct .free (.table r) x free ⟨there ▸ some_ne_none q, mem⟩

end

def Proc.space (q : Proc) : Nat × Nat × Nat := (q.root, q.sz, q.frame)

lemma Inv.congr (h : Inv code own pool s tables maps) (mem : s'.mem = s.mem)
    (pipe : s'.pipe = s.pipe) (proc : ∀ p, (s'.proc p).map Proc.space = (s.proc p).map Proc.space)
    (opened : PipesOpen s') : Inv code own pool s' tables maps := by
  have frames : ∀ p, (s'.proc p).map Proc.frame = (s.proc p).map Proc.frame := by
    intro p
    have eq := congrArg (Option.map fun t : Nat × Nat × Nat => t.2.2) (proc p)
    rwa [Option.map_map, Option.map_map] at eq
  have live : ∀ p, s'.proc p ≠ none ↔ s.proc p ≠ none := by
    intro p
    rw [ne_eq, ne_eq, ← map_eq_none_iff (f := Proc.space), proc, map_eq_none_iff]
  have same : Holds own s' tables maps = Holds own s tables maps := by
    funext i x
    cases i with
    | free => simp only [Holds, mem]
    | table p => simp only [Holds, live]
    | user p => simp only [Holds, live]
    | frame p => simp only [Holds, frames]
    | pipe id => simp only [Holds, pipe]
    | kernel => rfl
  refine ⟨same ▸ h.part, mem ▸ h.nodup, fun p q here => ?_, opened⟩
  have eq := proc p
  rw [here, map_some] at eq
  obtain ⟨q₀, here₀, eq⟩ := map_eq_some_iff.mp eq.symm
  obtain ⟨refines, inj, readable, image⟩ := h.core p q₀ here₀
  obtain ⟨root, sz, frame⟩ : q₀.root = q.root ∧ q₀.sz = q.sz ∧ q₀.frame = q.frame := by
    simpa [Proc.space] using eq
  rw [root, ← mem] at refines
  rw [sz, frame] at image
  exact ⟨refines, inj, readable, image⟩

lemma Inv.setProc (h : Inv code own pool s tables maps) (q' : Proc) (here : s.proc p = some q)
    (same : q'.space = q.space) : Inv code own pool (s.setProc p (some q')) tables maps := by
  refine h.congr rfl rfl (fun r => ?_) ⟨h.pipes.live, h.pipes.flags⟩
  by_cases eq : r = p
  · rw [eq, setProc_self, here, map_some, map_some, same]
  rw [setProc_of_ne _ _ eq]

lemma Inv.write {w : Words} (h : Inv code own pool s tables maps)
    (words : ∀ r, s.proc r ≠ none → ∀ x ∈ tables r, w x = s.mem.words x) :
    Inv code own pool (s.setMem { s.mem with words := w }) tables maps := by
  refine ⟨?_, h.nodup, fun r q here => ?_, ⟨h.pipes.live, h.pipes.flags⟩⟩
  · have same : Holds own (s.setMem { s.mem with words := w }) tables maps =
        Holds own s tables maps := by
      funext i x
      cases i <;> rfl
    rw [same]
    exact h.part
  obtain ⟨refines, inj, readable, image⟩ := h.core r q here
  exact ⟨refines_congr refines (words r (here ▸ some_ne_none q)), inj, readable, image⟩

end

section
variable {k k₀ k₁ : Mem} {args : List Nat} {page : Nat}

/-- The kernel holds pages that it has taken from the free list. -/
structure Taken (k : Mem) (args : List Nat) (k₀ : Mem) : Prop where
  free : k.free = args ++ k₀.free
  words : ∀ x ∉ args, k₀.words x = k.words x

lemma kalloc_none (empty : k.free = []) : kalloc k = none := by rw [kalloc, empty]

lemma kalloc_some {rest : List Nat} (free : k.free = page :: rest) :
    ∃ k₀, kalloc k = some (page, k₀) ∧ Taken k [page] k₀ := by
  refine ⟨⟨update k.words page fun _ => fresh, rest⟩, ?_, free, fun x out => ?_⟩
  · rw [kalloc, free]
    rfl
  exact update_of_ne (fun eq => out (mem_singleton.mpr eq)) ..

lemma takePages_spec (n : Nat) (k : Mem) : Taken k (takePages n k).1 (takePages n k).2 := by
  induction n generalizing k with
  | zero => exact ⟨rfl, fun _ _ => rfl⟩
  | succ n ih =>
    rw [takePages]
    cases free : k.free with
    | nil =>
      rw [kalloc_none free]
      exact ⟨rfl, fun _ _ => rfl⟩
    | cons page rest =>
      obtain ⟨k₀, run, taken⟩ := kalloc_some free
      rw [run]
      have more := ih k₀
      refine ⟨?_, fun x out => ?_⟩
      · rw [taken.free, more.free]
        rfl
      rw [mem_cons, not_or] at out
      exact (more.words x out.2).trans (taken.words x fun mem => out.1 (mem_singleton.mp mem))

lemma freePages_free (args : List Nat) (k : Mem) :
    (freePages args k).free = args.reverse ++ k.free := by
  induction args generalizing k with
  | nil => rfl
  | cons page args ih =>
    rw [freePages, foldl_cons]
    change (freePages args (kfree k page)).free = _
    rw [ih, reverse_cons, append_assoc]
    rfl

lemma freePages_words {x : Nat} (out : x ∉ args) (k : Mem) :
    (freePages args k).words x = k.words x := by
  induction args generalizing k with
  | nil => rfl
  | cons page args ih =>
    rw [mem_cons, not_or] at out
    change (freePages args (kfree k page)).words x = _
    rw [ih out.2]
    exact update_of_ne out.1 ..

lemma mem_freePages {x : Nat} : x ∈ (freePages args k).free ↔ x ∈ args ∨ x ∈ k.free := by
  rw [freePages_free, mem_append, mem_reverse]

lemma Taken.mem (taken : Taken k args k₀) (x : Nat) : x ∈ k.free ↔ x ∈ args ∨ x ∈ k₀.free := by
  rw [taken.free, mem_append]

lemma Taken.nodup (taken : Taken k args k₀) (nodup : k.free.Nodup) :
    args.Nodup ∧ k₀.free.Nodup ∧ ∀ x ∈ args, x ∉ k₀.free := by
  rw [taken.free] at nodup
  obtain ⟨first, second, apart⟩ := nodup_append.mp nodup
  exact ⟨first, second, fun x mem mem' => apart x mem x mem' rfl⟩

lemma nodup_freePages (nodup : args.Nodup) (free : k.free.Nodup)
    (apart : ∀ x ∈ args, x ∉ k.free) : (freePages args k).free.Nodup := by
  rw [freePages_free]
  refine nodup_append.mpr ⟨nodup_reverse.mpr nodup, free, ?_⟩
  rintro x mem y mem' rfl
  exact apart x (mem_reverse.mp mem) mem'

lemma Taken.undone (taken : Taken k args k₀) (nodup : k.free.Nodup) (undone : Undone k₀ k₁) :
    Undone k (freePages args k₁) := by
  obtain ⟨first, -, apart⟩ := taken.nodup nodup
  refine ⟨nodup_freePages first undone.nodup fun x mem mem' => apart x mem ((undone.mem x).mp mem'),
    fun x => ?_, fun x out => ?_⟩
  · rw [mem_freePages, taken.mem, undone.mem]
  rw [taken.mem, not_or] at out
  rw [freePages_words out.1, undone.frame x out.2, taken.words x out.1]

end
end Xv6.Vm
