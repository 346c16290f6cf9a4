import Xv6.KthreadCore

/-! Scans over the thread table that look for a live sibling: `if_last_thread` and
the first loop of `exit`. A dead entry comes to life only by being allocated, so
what a scan has passed stays dead unless an entry is allocated behind it. -/
namespace Xv6
open Interleaving State Kthread
variable {n : Nat} {s s' : State n} {c d : Fin n} {k me : KtId} {p : ProcId} {pc pc' : Pc}

lemma EntryStep.dead_kept {t : Kthread} (h : EntryStep s c k t) (dead : (s.kt k).Dead) : t.Dead ∨
    (∃ me f, s.cpu c = .thread me (.createScan k.2 f) ∧ k.1 = me.1 ∧ (s.kt k).tState = .unused) ∨
    ∃ pc, s.cpu c = .thread k pc ∧ ¬ pc.Tail := by
  cases h with
  | same => exact .inl dead
  | create cpu own free => exact .inr (.inl ⟨_, _, cpu, own, free⟩)
  | zombie | mark => exact .inl (dead_exit _ _)
  | reap => exact .inl (dead_freethread _)
  | doom => exact .inl dead
  | sleep cpu asleep => exact .inr (.inr ⟨_, cpu, Pc.not_tail_of_sleep asleep⟩)
  | wake _ _ _ asleep =>
    rcases dead_iff.mp dead with eq | eq <;> rw [asleep] at eq <;> cases eq
  | dispatch _ ready =>
    rcases dead_iff.mp dead with eq | eq <;> rw [ready] at eq <;> cases eq
  | kill =>
    left
    rcases dead_iff.mp dead with eq | eq
    · exact dead_iff.mpr (.inl (by simp only [kthreadKill, eq, reduceCtorEq, if_false]))
    exact dead_iff.mpr (.inr (by simp only [kthreadKill, eq, reduceCtorEq, if_false]))

lemma Core.live_of_on (core : Core s p) (on : On s c k pc) (own : k.1 = p) (out : ¬ pc.Tail) :
    (s.kt k).Live := live_of_running (core.running c k pc on own out)

lemma Core.dead_step (core : Core s p) (h : Steps s c s') (own : k.1 = p) (dead : (s.kt k).Dead) :
    (s'.kt k).Dead ∨ ∃ me f, s.cpu c = .thread me (.createScan k.2 f) ∧ k.1 = me.1 ∧
    (s.kt k).tState = .unused := by
  rcases (h.entry k).dead_kept dead with kept | created | ⟨pc, cpu, out⟩
  · exact .inl kept
  · exact .inr created
  exact absurd (core.live_of_on (on_of_thread cpu) own out) dead

/-- `f` counts the entries that a thread at the given position has passed. -/
structure Scan (f : Pc → Nat) : Prop where
  resumes : ∀ {n : Nat} {s : State n} {k : KtId} {pc : Pc}, Resumes s k pc → f pc = 0
  creates : ∀ {n : Nat} {s : State n} {k : KtId} {i : Nat} {frame : Trapframe} {pc : Pc},
    Arrives s k (.createScan i frame) pc → f pc = 0
  arrives : ∀ {n : Nat} {s : State n} {k : KtId} {pc pc' : Pc}, Arrives s k pc pc' →
    ∀ j : Fin NKT, j < f pc' → j ≠ k.2 → j < f pc ∨ (s.kt (k.1, j)).Dead

def Cleared (f : Pc → Nat) (s : State n) (p : ProcId) : Prop :=
  ∀ c k pc, On s c k pc → k.1 = p → ∀ j : Fin NKT, j < f pc → j ≠ k.2 → (s.kt (p, j)).Dead

def Cpu.allocates (p : ProcId) : Cpu → Option KtId
  | .thread me (.createScan i _) =>
    if h : i < NKT then if me.1 = p then some (p, ⟨i, h⟩) else none else none
  | _ => none

def Cpu.passed (f : Pc → Nat) (k : KtId) (x : Cpu) : Bool :=
  match x.pos with
  | some (me, pc) => me.1 = k.1 && decide (k.2 < f pc)
  | none => false

/-- The CPU does not allocate an entry that a scan of the process has passed. -/
def NotBehind (f : Pc → Nat) (p : ProcId) (s : State n) (c : Fin n) : Prop :=
  ∀ k ∈ (s.cpu c).allocates p, (s.kt k).tState = .unused → ∀ d, (s.cpu d).passed f k = false

instance (f : Pc → Nat) (p : ProcId) (s : State n) (c : Fin n) : Decidable (NotBehind f p s c) :=
  inferInstanceAs (Decidable (∀ k ∈ _, _))

lemma NotBehind.le {f : Pc → Nat} (guard : NotBehind f p s c) {frame : Trapframe}
    {j : Fin NKT} (cpu : s.cpu c = .thread me (.createScan j frame)) (own : p = me.1)
    (free : (s.kt (p, j)).tState = .unused) (on : On s d k pc) (own' : k.1 = p) : f pc ≤ j := by
  have ahead := guard (p, j)
    (by simp only [cpu, Cpu.allocates, own, j.isLt, dif_pos, if_true, Option.mem_def]) free d
  rw [On] at on
  simp only [Cpu.passed, on, own', decide_true, Bool.true_and, decide_eq_false_iff_not] at ahead
  exact Nat.le_of_not_lt ahead

lemma Cleared.step {f : Pc → Nat} (scan : Scan f) (cleared : Cleared f s p) (core : Core s p)
    (guard : NotBehind f p s c) (h : Steps s c s') : Cleared f s' p := by
  intro d k pc on own j before other
  by_cases same : d = c
  · subst same
    rcases h.on_own on with ⟨-, resumed, -⟩ | ⟨pc', cpu, -, arrives⟩
    · rw [scan.resumes resumed] at before
      exact absurd before (Nat.not_lt_zero _)
    have dead : (s.kt (p, j)).Dead := by
      rcases scan.arrives arrives j before other with earlier | dead
      · exact cleared d k pc' (on_of_thread cpu) own j earlier other
      exact own ▸ dead
    rcases core.dead_step h rfl dead with kept | ⟨me, frame, cpu', -⟩
    · exact kept
    obtain ⟨rfl, rfl⟩ := Cpu.thread.inj (cpu.symm.trans cpu')
    rw [scan.creates arrives] at before
    exact absurd before (Nat.not_lt_zero _)
  have old := (h.on_other same).mp on
  rcases core.dead_step h rfl (cleared d k pc old own j before other) with kept |
    ⟨me, frame, cpu, eq, free⟩
  · exact kept
  exact absurd before (Nat.not_lt.mpr (guard.le cpu eq free old own))

/-- How far `exit` has come in its search for live siblings. -/
def Pc.exitScanned : Pc → Nat
  | .exitLoop i _ => i
  | .exitZombie _ | .exitMark _ _ => NKT
  | _ => 0

lemma scan_exit : Scan Pc.exitScanned where
  resumes h := by cases h <;> rfl
  creates h := by
    cases h with
    | stay fault => cases fault
    | create => rfl
    | go l => cases l <;> rfl
  arrives h j before other := by
    cases h with
    | stay => exact .inl before
    | reap r eq =>
      subst eq
      unfold Join.back at before
      split at before <;> exact absurd before (Nat.not_lt_zero _)
    | exitZombie | exitMark => exact .inl before
    | go l =>
      cases l with
      | call a0 k eq =>
        subst eq
        cases k <;> exact absurd before (Nat.not_lt_zero _)
      | joinNone _ eq =>
        subst eq
        unfold Join.back at before
        split at before <;> exact absurd before (Nat.not_lt_zero _)
      | exitSkip inside dead =>
        rcases Nat.lt_succ_iff_lt_or_eq.mp before with earlier | rfl
        · exact .inl earlier
        exact .inr (dead other)
      | exitDone outside => exact .inl (Nat.lt_of_lt_of_le before (Nat.le_of_not_lt outside))
      | _ => exact absurd before (Nat.not_lt_zero _)
    | _ => exact absurd before (Nat.not_lt_zero _)

/-- The core invariant under the condition that nothing is allocated behind the
back of `exit`: when it overwrites the thread table, every sibling is dead. -/
structure Based (s : State n) (p : ProcId) : Prop where
  core : Core s p
  cleared : Cleared Pc.exitScanned s p

lemma Based.alone (inv : Based s p) {i : Nat} {status : Int} (on : On s c me (.exitMark i status))
    (own : me.1 = p) {j : Fin NKT} (other : j ≠ me.2) : (s.kt (p, j)).Dead :=
  inv.cleared c me _ on own j j.isLt other

lemma Based.step (inv : Based s p) (guard : NotBehind Pc.exitScanned p s c) (h : Steps s c s') :
    Based s' p where
  core := inv.core.step h fun _ _ _ cpu own _ other => inv.alone (on_of_thread cpu) own other
  cleared := Cleared.step scan_exit inv.cleared inv.core guard h

lemma based_init (live : ProcId → Bool) (p : ProcId) : Based (init n live) p where
  core := core_init live p
  cleared _ _ _ on := nomatch on

end Xv6
