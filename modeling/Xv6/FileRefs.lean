import Xv6.FileTable
import Mathlib.Algebra.BigOperators.Fin
import Mathlib.Algebra.Order.BigOperators.Group.Finset

/-! The reference counts of open files. A thread that has called `argfd` uses the file
without a reference of its own, and `dup` fills its new slot before it counts it. The
invariant says what every thread inside a call has in hand, which slots are its own and
which it only reads, and that the counts are those of the slots and the threads. -/
namespace Xv6.FileTable
open Interleaving FileTable.State List
open Function (update update_of_ne update_self)
variable {n : Nat}

lemma sum_update {ι β : Type} [Fintype ι] [DecidableEq ι] (f : ι → β) (a : ι) (b : β)
    (g : β → ℤ) : ∑ i, g (update f a b i) = ∑ i, g (f i) + (g b - g (f a)) := by
  have rest : ∑ i ∈ Finset.univ.erase a, g (update f a b i) =
      ∑ i ∈ Finset.univ.erase a, g (f i) := by
    refine Finset.sum_congr rfl fun i mem => ?_
    rw [update_of_ne (Finset.ne_of_mem_erase mem)]
  rw [← Finset.add_sum_erase _ _ (Finset.mem_univ a), rest, update_self,
    ← Finset.add_sum_erase Finset.univ (fun i => g (f i)) (Finset.mem_univ a)]
  omega

namespace Pc
/-- The slots that are the thread's own: it has filled them and not returned their number
yet, or it is about to clear them. -/
def claims : Pc → List (Fd × FileId)
  | .openInit _ f fd => [(fd, f)]
  | .dupRef _ f new => [(new, f)]
  | .pipeFd1 rf fd0 _ => [(fd0, rf)]
  | .pipeCopy rf fd0 wf fd1 => [(fd0, rf), (fd1, wf)]
  | .undo slots _ _ => slots
  | _ => []

/-- The slots that the thread has read with `argfd` and whose file it uses. -/
def borrows : Pc → List (Fd × FileId)
  | .dupFd fd f | .dupRef fd f _ | .body _ fd f => [(fd, f)]
  | _ => []

def uses (pc : Pc) : List (Fd × FileId) := pc.claims ++ pc.borrows

def holds : Pc → List FileId
  | .openFd _ f => [f]
  | .pipeAlloc1 rf => [rf]
  | .pipeInit rf wf | .pipeFd0 rf wf => [rf, wf]
  | .pipeFd1 _ _ wf => [wf]
  | .undo _ files _ | .put _ files _ => files
  | _ => []

/-- The files of slots that have no reference of their own: `dup` has not counted its new
slot yet, and a slot to be cleared gives its reference to the thread. -/
def debts : Pc → List FileId
  | .dupRef _ f _ => [f]
  | .undo slots _ _ => slots.map Prod.snd
  | _ => []

def transit (pc : Pc) (f : FileId) : ℤ := pc.holds.count f - pc.debts.count f

end Pc

def State.slots (s : State n) (f : FileId) : ℤ := ∑ fd, if s.ofile fd = some f then 1 else 0

def Alone (s : State n) (t : Fin n) (fd : Fd) : Prop := ∀ u ≠ t, ∀ y ∈ (s.pc u).uses, y.1 ≠ fd

def Shared (s : State n) (t : Fin n) (fd : Fd) : Prop := ∀ u ≠ t, ∀ y ∈ (s.pc u).claims, y.1 ≠ fd

structure Held (s : State n) : Prop where
  balance : ∀ f, (s.file f).ref = s.slots f + ∑ t, (s.pc t).transit f
  slots : ∀ t, ∀ x ∈ (s.pc t).uses, s.ofile x.1 = some x.2
  nodup : ∀ t, ((s.pc t).uses.map Prod.fst).Nodup
  apart : ∀ t, ∀ x ∈ (s.pc t).claims, Alone s t x.1

variable {s s' : State n} {t : Fin n} {pc pc' : Pc}

lemma Held.shared (h : Held s) {x : Fd × FileId} (mem : x ∈ (s.pc t).borrows) : Shared s t x.1 :=
  fun u other _ claim same => h.apart u _ claim t other.symm x (mem_append_right _ mem) same.symm

variable {fd : Fd} {f : FileId}

lemma Held.alone_of_free (h : Held s) (free : s.ofile fd = none) : Alone s t fd := by
  rintro u - y mem rfl
  exact absurd ((h.slots u y mem).symm.trans free) (Option.some_ne_none _)

lemma Held.move (h : Held s) (moved : s'.pc = update s.pc t pc') (balance : ∀ f, (s'.file f).ref
    - (s.file f).ref = s'.slots f - s.slots f + (pc'.transit f - (s.pc t).transit f)) (kept : ∀ fd,
    ¬ Alone s t fd → s'.ofile fd = s.ofile fd) (slots : ∀ x ∈ pc'.uses, s'.ofile x.1 = some x.2)
    (nodup : (pc'.uses.map Prod.fst).Nodup) (claims : ∀ x ∈ pc'.claims, Alone s t x.1)
    (borrows : ∀ x ∈ pc'.borrows, Shared s t x.1) : Held s' := by
  have own : s'.pc t = pc' := by rw [moved, update_self]
  have others : ∀ u, u ≠ t → s'.pc u = s.pc u := fun u other => by rw [moved, update_of_ne other]
  refine ⟨fun f => ?_, fun u x mem => ?_, fun u => ?_, fun u x mem v other y use => ?_⟩
  · have sum := sum_update s.pc t pc' fun x => x.transit f
    rw [moved, sum]
    have before := h.balance f
    have change := balance f
    omega
  · by_cases me : u = t
    · subst me
      rw [own] at mem
      exact slots x mem
    rw [others u me] at mem
    rw [kept x.1 fun alone => alone u me x mem rfl]
    exact h.slots u x mem
  · by_cases me : u = t
    · subst me
      rw [own]
      exact nodup
    rw [others u me]
    exact h.nodup u
  by_cases me : u = t
  · subst me
    rw [own] at mem
    rw [others v other] at use
    exact claims x mem v other y use
  rw [others u me] at mem
  by_cases you : v = t
  · subst you
    rw [own] at use
    rcases mem_append.mp use with claim | borrow
    · exact fun same => claims y claim u me x (mem_append_left _ mem) same.symm
    exact fun same => borrows y borrow u me x mem same.symm
  rw [others v you] at use
  exact h.apart u x mem v other y use

lemma slots_setFd (s : State n) (fd : Fd) (x : Option FileId) (f : FileId) : (s.setFd fd x).slots
    f = s.slots f + ((if x = some f then 1 else 0) - if s.ofile fd = some f then 1 else 0) :=
  sum_update s.ofile fd x fun y => if y = some f then 1 else 0

lemma Held.drop (h : Held s) (moved : s'.pc = update s.pc t pc') (ofile : s'.ofile = s.ofile)
    (ref : ∀ f, (s'.file f).ref - (s.file f).ref = pc'.transit f - (s.pc t).transit f)
    (claims : pc'.claims.Sublist (s.pc t).claims) (borrows : pc'.borrows.Sublist (s.pc t).borrows) :
    Held s' := by
  have uses : pc'.uses.Sublist (s.pc t).uses := claims.append borrows
  refine h.move moved (fun f => ?_) (fun fd _ => by rw [ofile]) (fun x mem => ?_) ?_
    (fun x mem => h.apart t x (claims.subset mem)) fun x mem => h.shared (borrows.subset mem)
  · have same : s'.slots f = s.slots f := by rw [State.slots, State.slots, ofile]
    rw [ref f, same]
    omega
  · rw [ofile]
    exact h.slots t x (uses.subset mem)
  exact (h.nodup t).sublist (uses.map Prod.fst)

lemma Held.install (h : Held s) (here : s.pc t = pc) {new : Fd} (free : s.ofile new = none)
    (transit : ∀ g, pc'.transit g = pc.transit g - if f = g then 1 else 0)
    (claims : pc'.claims = pc.claims ++ [(new, f)]) (borrows : pc'.borrows = pc.borrows) :
    Held ((s.setFd new (some f)).goto t pc') := by
  subst here
  have alone : Alone s t new := h.alone_of_free free
  have mine : ∀ x ∈ (s.pc t).uses, x.1 ≠ new := by
    rintro x mem rfl
    exact absurd ((h.slots t x mem).symm.trans free) (Option.some_ne_none _)
  have old : ∀ x, x ∈ (s.pc t).uses → update s.ofile new (some f) x.1 = some x.2 := by
    intro x mem
    rw [update_of_ne (mine x mem)]
    exact h.slots t x mem
  refine h.move rfl (fun g => ?_) (fun fd shared => ?_) (fun x mem => ?_) ?_ (fun x mem => ?_)
    fun x mem => ?_
  · have slots := slots_setFd s new (some f) g
    rw [free] at slots
    have same : ((s.setFd new (some f)).goto t pc').slots g = (s.setFd new (some f)).slots g := rfl
    rw [same, slots, transit g]
    simp only [goto_file, setFd_file, Option.some.injEq, reduceCtorEq, if_false]
    omega
  · refine update_of_ne ?_ _ _
    rintro rfl
    exact shared alone
  · rw [Pc.uses, claims, borrows] at mem
    simp only [mem_append, mem_singleton] at mem
    rcases mem with (claim | rfl) | borrow
    · exact old x (mem_append_left _ claim)
    · exact update_self _ _ _
    exact old x (mem_append_right _ borrow)
  · rw [Pc.uses, claims, borrows, append_assoc, singleton_append]
    refine (perm_middle.map Prod.fst).nodup_iff.mpr (nodup_cons.mpr ⟨?_, h.nodup t⟩)
    intro mem
    obtain ⟨x, use, same⟩ := mem_map.mp mem
    exact mine x use same
  · rw [claims, mem_append, mem_singleton] at mem
    rcases mem with claim | rfl
    · exact h.apart t x claim
    exact alone
  rw [borrows] at mem
  exact h.shared mem

lemma Held.clear (h : Held s) {slots : List (Fd × FileId)} {files : List FileId}
    {r : Int} (pc : s.pc t = .undo ((fd, f) :: slots) files r) :
    Held ((s.setFd fd none).goto t (.undo slots files r)) := by
  have uses : (s.pc t).uses = (fd, f) :: slots := by
    rw [pc]
    exact append_nil _
  have full : s.ofile fd = some f := h.slots t (fd, f) (uses ▸ mem_cons_self)
  have nodup := h.nodup t
  rw [uses, map_cons, nodup_cons] at nodup
  have alone : ∀ x ∈ (fd, f) :: slots, Alone s t x.1 := fun x mem => h.apart t x (pc ▸ mem)
  have other : ∀ x ∈ slots, x.1 ≠ fd := fun x mem same => nodup.1 (mem_map.mpr ⟨x, mem, same⟩)
  refine h.move rfl (fun g => ?_) (fun e shared => ?_) (fun x mem => ?_) ?_ (fun x mem => ?_) nofun
  · have sum := slots_setFd s fd none g
    rw [full] at sum
    have same : ((s.setFd fd none).goto t (.undo slots files r)).slots g =
      (s.setFd fd none).slots g := rfl
    rw [same, sum, pc]
    simp only [goto_file, setFd_file, Pc.transit, Pc.holds, Pc.debts, map_cons, count_cons,
      beq_iff_eq, Option.some.injEq, reduceCtorEq, if_false]
    split_ifs <;> omega
  · refine update_of_ne ?_ _ _
    rintro rfl
    exact shared (alone _ mem_cons_self)
  · have mem' : x ∈ slots := (append_nil slots) ▸ mem
    rw [goto_ofile, setFd_ofile, update_of_ne (other x mem')]
    exact h.slots t x (uses ▸ mem_cons_of_mem _ mem')
  · have uses' : (Pc.undo slots files r).uses = slots := append_nil slots
    rw [uses']
    exact nodup.2
  exact alone x (mem_cons_of_mem _ mem)

lemma Held.borrow (h : Held s) (pc : s.pc t = .user) (full : s.ofile fd = some f) (transit : ∀ g,
    pc'.transit g = 0) (uses : pc'.uses = [(fd, f)]) (claims : ∀ x ∈ pc'.claims, Alone s t fd)
    (borrows : ∀ x ∈ pc'.borrows, Shared s t fd) : Held (s.goto t pc') := by
  have only : ∀ x, x ∈ pc'.uses → x = (fd, f) := fun x mem => by
    rw [uses] at mem
    exact mem_singleton.mp mem
  refine h.move rfl (fun g => ?_) (fun _ _ => rfl) (fun x mem => ?_) ?_ (fun x mem => ?_) fun x mem => ?_
  · have same : (s.goto t pc').slots g = s.slots g := rfl
    have before : (s.pc t).transit g = 0 := by rw [pc]; rfl
    rw [same, before, transit g, goto_file]
    omega
  · rw [only x mem]
    exact full
  · rw [uses]
    exact nodup_singleton _
  · rw [only x (mem_append_left _ mem)]
    exact claims x mem
  rw [only x (mem_append_right _ mem)]
  exact borrows x mem

namespace Pc
def claimed (pc : Pc) (f : FileId) : Finset Fd :=
  ((pc.claims.filter fun x => x.2 = f).map Prod.fst).toFinset

lemma mem_claimed {pc : Pc} : fd ∈ pc.claimed f ↔ (fd, f) ∈ pc.claims := by
  simp only [claimed, mem_toFinset, mem_map, mem_filter, decide_eq_true_eq,
    Prod.exists, exists_and_right, exists_eq_right]

lemma debts_sublist (pc : Pc) : pc.debts.Sublist (pc.claims.map Prod.snd) := by
  cases pc <;> first | exact List.Sublist.refl _ | exact nil_sublist _

lemma count_debts_le {pc : Pc} (nodup : (pc.claims.map Prod.fst).Nodup) (f : FileId) :
    pc.debts.count f ≤ (pc.claimed f).card := by
  have distinct : ((pc.claims.filter fun x => x.2 = f).map Prod.fst).Nodup :=
    nodup.sublist ((filter_sublist).map Prod.fst)
  rw [claimed, toFinset_card_of_nodup distinct, length_map]
  refine (pc.debts_sublist.count_le f).trans ?_
  rw [List.count, countP_map, countP_eq_length_filter]
  exact le_of_eq rfl

end Pc

lemma Held.claims_nodup (h : Held s) (t : Fin n) : ((s.pc t).claims.map Prod.fst).Nodup :=
  (h.nodup t).sublist ((sublist_append_left _ _).map Prod.fst)

lemma Held.ref_pos (h : Held s) (full : s.ofile fd = some f)
    (free : ∀ t, ∀ x ∈ (s.pc t).claims, x.1 ≠ fd) : 0 < (s.file f).ref := by
  have disjoint : ∀ t ∈ Finset.univ, ∀ u ∈ Finset.univ, t ≠ u →
      Disjoint ((s.pc t).claimed f) ((s.pc u).claimed f) := by
    intro t _ u _ other
    refine Finset.disjoint_left.mpr fun e mine yours => ?_
    exact h.apart t _ (Pc.mem_claimed.mp mine) u other.symm _
      (mem_append_left _ (Pc.mem_claimed.mp yours)) rfl
  have inside : Finset.univ.biUnion (fun t => (s.pc t).claimed f) ⊆
      (Finset.univ.filter fun e => s.ofile e = some f).erase fd := by
    intro e mem
    obtain ⟨t, -, claim⟩ := Finset.mem_biUnion.mp mem
    have claim' := Pc.mem_claimed.mp claim
    refine Finset.mem_erase.mpr ⟨free t _ claim', Finset.mem_filter.mpr ⟨Finset.mem_univ e, ?_⟩⟩
    exact h.slots t _ (mem_append_left _ claim')
  have card := Finset.card_le_card inside
  rw [Finset.card_biUnion disjoint, Finset.card_erase_of_mem (by simp [full])] at card
  have debts : ∑ t, ((s.pc t).debts.count f : ℤ) ≤ ∑ t, (((s.pc t).claimed f).card : ℤ) :=
    Finset.sum_le_sum fun t _ => by exact_mod_cast Pc.count_debts_le (h.claims_nodup t) f
  have holds : 0 ≤ ∑ t, ((s.pc t).holds.count f : ℤ) := Finset.sum_nonneg fun t _ => Int.natCast_nonneg _
  have slots : s.slots f = ((Finset.univ.filter fun e => s.ofile e = some f).card : ℤ) :=
    Finset.sum_boole _ _
  have some : 0 < (Finset.univ.filter fun e => s.ofile e = some f).card :=
    Finset.card_pos.mpr ⟨fd, by simp [full]⟩
  have balance := h.balance f
  simp only [Pc.transit, Finset.sum_sub_distrib] at balance
  have card' : ∑ t, (((s.pc t).claimed f).card : ℤ) ≤
      ((Finset.univ.filter fun e => s.ofile e = Option.some f).card : ℤ) - 1 := by
    have := Int.ofNat_le.mpr card
    push_cast at this ⊢
    omega
  omega

end Xv6.FileTable
