import Xv6.KthreadScan
import Mathlib.Algebra.Order.BigOperators.Group.Finset

/-! A live process has a live thread. The answer 0 of `if_last_thread` is acted on
in a later critical section, so two threads can both be told that they are not the
last one. The property holds in the runs in which no thread relies on a sibling
that has been told so already and has not published itself yet. For progress, in
addition no entry may be taken behind the back of a running check. -/
namespace Xv6
open Interleaving State
variable {n : Nat} {s s' : State n} {c d : Fin n} {k me : KtId} {p : ProcId} {pc pc' : Pc}

def HasLiveThread (s : State n) (p : ProcId) : Prop := ∃ i, (s.kt (p, i)).Live

/-- The thread is in `exit`. A thread that sleeps there has a live entry. -/
def Pc.inExit : Pc → Bool
  | .exitStart _ | .exitLoop _ _ | .exitRelease _ _ | .exitZombie _ | .exitMark _ _ => true
  | .joinScan _ j _ | .joinLock j _ | .joinTest j _ | .joinReap j _ | .joinSleep j _ =>
    match j.ret with
    | .exit _ _ => true
    | _ => false
  | _ => false

def Cpu.inExit (p : ProcId) (x : Cpu) : Bool :=
  match x.pos with
  | some (me, pc) => me.1 = p && pc.inExit
  | none => false

def InExit (s : State n) (p : ProcId) : Prop := ∃ c, (s.cpu c).inExit p = true

instance (s : State n) (p : ProcId) : Decidable (HasLiveThread s p) :=
  inferInstanceAs (Decidable (∃ _, _))

instance (s : State n) (p : ProcId) : Decidable (InExit s p) := inferInstanceAs (Decidable (∃ _, _))

/-- The thread of the entry was told that it is not the last one and is about to
publish itself. -/
def Cpu.decided (k : KtId) : Cpu → Bool
  | .thread me (.setZombie _) => me = k
  | _ => false

def Decided (s : State n) (k : KtId) : Prop := ∃ c, (s.cpu c).decided k = true

instance (s : State n) (k : KtId) : Decidable (Decided s k) := inferInstanceAs (Decidable (∃ _, _))

def Cpu.examines (p : ProcId) : Cpu → Option KtId
  | .thread me (.lastScan i _) =>
    if h : i < NKT then
      if me.1 = p ∧ (⟨i, h⟩ : Fin NKT) ≠ me.2 then some (p, ⟨i, h⟩) else none
    else none
  | _ => none

def Pc.lastScanned : Pc → Nat
  | .lastScan i _ => i
  | _ => 0

/-- No check relies on a thread that was told to leave, and no entry is allocated
that a running check has passed. -/
def UnracedLeave (p : ProcId) (s : State n) (l : Label n) : Prop :=
  (∀ k ∈ (s.cpu l.cpu).examines p, ¬ Decided s k) ∧ NotBehind Pc.lastScanned p s l.cpu

instance (p : ProcId) : ∀ (s : State n) (l : Label n), Decidable (UnracedLeave p s l) :=
  fun _ _ => inferInstanceAs (Decidable (_ ∧ _))

lemma decided_iff : Decided s k ↔ ∃ c status, s.cpu c = .thread k (.setZombie status) := by
  constructor
  · rintro ⟨c, h⟩
    unfold Cpu.decided at h
    split at h
    · rename_i me status cpu
      exact ⟨c, status, by rw [cpu, of_decide_eq_true h]⟩
    cases h
  rintro ⟨c, status, cpu⟩
  exact ⟨c, by simp only [cpu, Cpu.decided, decide_true]⟩

lemma Steps.decided (h : Steps s c s') (told : Decided s' k) :
    Decided s k ∨ ∃ i status, ∃ h : i < NKT, s.cpu c = .thread k (.lastScan i status) ∧
    (⟨i, h⟩ : Fin NKT) ≠ k.2 ∧ (s.kt (k.1, ⟨i, h⟩)).Live := by
  obtain ⟨d, status, cpu⟩ := decided_iff.mp told
  by_cases same : d = c
  · subst same
    right
    rcases h.on_own (on_of_thread cpu) with ⟨-, resumed, -⟩ | ⟨pc, old, -, arrives⟩
    · cases resumed
    cases arrives with
    | stay fault => cases fault
    | reap r eq => exact absurd eq (Join.back_ne id)
    | go l =>
      cases l with
      | call a0 k eq => exact absurd eq (Call.entry_ne id)
      | joinNone _ eq => exact absurd eq (Join.back_ne id)
      | notLast inside other live => exact ⟨_, status, inside, old, other, live⟩
  left
  rw [h.other same] at cpu
  exact decided_iff.mpr ⟨d, status, cpu⟩

/-- A live entry stays so unless its own thread publishes itself, a joiner frees
it, or `exit` marks it. -/
lemma EntryStep.live_kept {t : Kthread} (h : EntryStep s c k t) (live : (s.kt k).Live) :
    t.Live ∨ (∃ status, s.cpu c = .thread k (.setZombie status)) ∨
    (∃ me j, s.cpu c = .thread me (.joinReap j k.2) ∧ k.1 = me.1) ∨
    (∃ me i status, s.cpu c = .thread me (.exitMark i status) ∧ k.1 = me.1) := by
  cases h with
  | same => exact .inl live
  | create | wake | sleep | dispatch => exact .inl ⟨fun h => (nomatch h), nofun⟩
  | zombie cpu => exact .inr (.inl ⟨_, cpu⟩)
  | kill =>
    left
    unfold Kthread.kthreadKill
    split_ifs
    · exact ⟨fun h => (nomatch h), nofun⟩
    exact live
  | doom => exact .inl live
  | reap cpu own => exact .inr (.inr (.inl ⟨_, _, cpu, own⟩))
  | mark cpu own _ => exact .inr (.inr (.inr ⟨_, _, _, cpu, own⟩))

lemma Sound.live_step (sound : Sound s p) (used : (s.proc p).state = .used) (h : Steps s c s')
    (own : k.1 = p) (live : (s.kt k).Live) (stays : ¬ Decided s k) : (s'.kt k).Live := by
  rcases (h.entry k).live_kept live with kept | ⟨status, cpu⟩ | ⟨me, j, cpu, eq⟩ |
    ⟨me, i, status, cpu, eq⟩
  · exact kept
  · exact absurd (decided_iff.mpr ⟨c, status, cpu⟩) stays
  · have dead := (sound.core used).target c me j k.2 (on_of_thread cpu) (eq.symm.trans own)
    rw [← own] at dead
    exact absurd dead live.2
  exact absurd (eq.symm.trans own) (sound.not_marking used cpu)

/-- Some live thread of the process has not been told to leave. -/
def Remains (s : State n) (p : ProcId) : Prop := ∃ i, (s.kt (p, i)).Live ∧ ¬ Decided s (p, i)

lemma Remains.step {l : Label n} (remains : Remains s p) (sound : Sound s p)
    (used : (s.proc p).state = .used) (guard : UnracedLeave p s l) (h : Steps s l.cpu s') :
    Remains s' p := by
  obtain ⟨i, live, stays⟩ := remains
  have kept := sound.live_step used h rfl live stays
  by_cases told : Decided s' (p, i)
  · rcases h.decided told with old | ⟨i', status, inside, cpu, other, live'⟩
    · exact absurd old stays
    have relies : ¬ Decided s (p, ⟨i', inside⟩) := by
      apply guard.1
      simp only [cpu, Cpu.examines, inside, other, dif_pos, true_and, ne_eq, not_false_eq_true,
        if_true, Option.mem_def]
    refine ⟨⟨i', inside⟩, sound.live_step used h rfl live' relies, fun told' => ?_⟩
    rcases h.decided told' with old | ⟨_, _, _, cpu', -, -⟩
    · exact relies old
    rw [cpu] at cpu'
    cases cpu'
    exact other rfl
  exact ⟨i, kept, told⟩

lemma scan_last : Scan Pc.lastScanned where
  resumes h := by cases h <;> rfl
  creates h := by
    cases h with
    | stay fault => cases fault
    | create => rfl
    | go l => cases l <;> rfl
  arrives h j before other := by
    cases h with
    | stay => exact .inl before
    | reap r eq =>
      subst eq
      unfold Join.back at before
      split at before <;> exact absurd before (Nat.not_lt_zero _)
    | go l =>
      cases l with
      | call a0 k eq =>
        subst eq
        cases k <;> exact absurd before (Nat.not_lt_zero _)
      | joinNone _ eq =>
        subst eq
        unfold Join.back at before
        split at before <;> exact absurd before (Nat.not_lt_zero _)
      | lastNext inside dead =>
        rcases Nat.lt_succ_iff_lt_or_eq.mp before with earlier | rfl
        · exact .inl earlier
        exact .inr (dead other)
      | _ => exact absurd before (Nat.not_lt_zero _)
    | _ => exact absurd before (Nat.not_lt_zero _)

def Scanned (s : State n) (p : ProcId) : Prop := Cleared Pc.lastScanned s p

lemma Scanned.step {l : Label n} (scanned : Scanned s p) (core : Core s p)
    (guard : UnracedLeave p s l) (h : Steps s l.cpu s') : Scanned s' p :=
  Cleared.step scan_last scanned core guard.2 h

end Xv6
