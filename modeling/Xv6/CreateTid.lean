import Xv6.KthreadTids

/-! The result of `kthread_create`: the id is read from the entry after its lock is released, when
the new thread can already run, exit and be joined. -/
namespace Xv6
open Interleaving State Option
variable {n : Nat} {s t u v : State n} {c : Fin n} {k me : KtId} {as : List (Label n)}

def Cpu.frees : Cpu → Option KtId
  | .thread me (.joinReap _ i) => some (me.1, i)
  | _ => none

/-- The entry whose id the next step of a CPU returns from `kthread_create`. -/
def Cpu.returns : Cpu → Option KtId
  | .thread me (.createRet i) => some (me.1, i)
  | _ => none

/-- The step frees no entry whose id a `kthread_create` has yet to read. -/
def KeepsUnread (s : State n) (l : Label n) : Prop :=
  ∀ d, (s.cpu l.cpu).frees = none ∨ (s.cpu d).returns ≠ (s.cpu l.cpu).frees

instance (s : State n) (l : Label n) : Decidable (KeepsUnread s l) :=
  inferInstanceAs (Decidable (∀ _, _))

def Meanwhile (c : Fin n) (s : State n) (l : Label n) : Prop := l.cpu ≠ c ∧ KeepsUnread s l

instance (c : Fin n) (s : State n) (l : Label n) : Decidable (Meanwhile c s l) :=
  inferInstanceAs (Decidable (_ ∧ _))

lemma EntryStep.kept {e : Kthread} (h : EntryStep s c k e) (used : (s.kt k).tState ≠ .unused)
    (kept : ∀ me j, s.cpu c = .thread me (.joinReap j k.2) → k.1 ≠ me.1) :
    e.tid = (s.kt k).tid ∧ e.tState ≠ .unused := by
  cases h with
  | same => exact ⟨rfl, used⟩
  | create _ _ free => exact absurd free used
  | reap cpu own => exact absurd own (kept _ _ cpu)
  | kill =>
    refine ⟨rfl, ?_⟩
    unfold Kthread.kthreadKill
    split_ifs with asleep
    · exact ThreadState.noConfusion
    exact used
  | doom => exact ⟨rfl, used⟩
  | zombie | wake | sleep | mark | dispatch => exact ⟨rfl, ThreadState.noConfusion⟩

/-- What holds of a call that has released the lock of the entry `i`, which got the id `tid`. -/
structure Returning (c : Fin n) (me : KtId) (i : Fin NKT) (tid : Int) (s : State n) : Prop where
  cpu : s.cpu c = .thread me (.createRet i)
  used : (s.kt (me.1, i)).tState ≠ .unused
  id : (s.kt (me.1, i)).tid = tid

lemma Returning.step {i : Fin NKT} {tid : Int} {l : Label n} (h : Returning c me i tid s)
    (allowed : Meanwhile c s l) (next : Xv6.step s l = some t) : Returning c me i tid t := by
  have steps := steps_of_step next
  obtain ⟨id, used⟩ := (steps.entry (me.1, i)).kept h.used fun other j cpu own => by
    have here : (s.cpu l.cpu).frees = some (me.1, i) := by rw [cpu, Cpu.frees, ← own]
    rcases allowed.2 c with idle | apart
    · rw [here] at idle
      cases idle
    rw [here, h.cpu] at apart
    exact apart rfl
  exact ⟨by rw [steps.other allowed.1.symm]; exact h.cpu, used, id.trans h.id⟩

lemma pending_of_create {i : Fin NKT} {f : Trapframe}
    (scan : s.cpu c = .thread me (.createScan i f)) (free : (s.kt (me.1, i)).tState = .unused)
    (alloc : step s ⟨c, .go⟩ = some t) : Returning c me i (s.proc me.1).pCounter t := by
  obtain ⟨-, tid, runnable, -⟩ := (steps_of_step alloc).created ⟨me, f, scan, rfl, free⟩
  refine ⟨?_, by rw [runnable]; exact ThreadState.noConfusion, tid⟩
  simp only [step, scan, threadStep, i.isLt, dif_pos] at alloc
  rw [if_pos free] at alloc
  rw [← some.inj alloc]
  exact Function.update_self c _ _

/-- `kthread_create` returns the id that `allockthread` took from the counter, if no thread frees
the new entry before the id is read. -/
theorem kthread_create_returns_its_tid {i : Fin NKT} {f : Trapframe}
    (scan : s.cpu c = .thread me (.createScan i f)) (free : (s.kt (me.1, i)).tState = .unused)
    (alloc : step s ⟨c, .go⟩ = some t) (rest : Run step (Meanwhile c) t as u)
    (ret : step u ⟨c, .go⟩ = some v) :
    (t.kt (me.1, i)).tid = (s.proc me.1).pCounter ∧
      v.cpu c = .thread me (.user (s.proc me.1).pCounter) := by
  have start := pending_of_create scan free alloc
  have pending : Returning c me i (s.proc me.1).pCounter u :=
    rest.invariant (I := Returning c me i (s.proc me.1).pCounter)
      (fun _ _ _ h allowed next => h.step allowed next) start
  refine ⟨start.id, ?_⟩
  simp only [step, pending.cpu, threadStep] at ret
  rw [← some.inj ret, pending.id]
  exact Function.update_self c _ _

lemma two_lt_NKT : 2 < NKT := by decide

def slot2 : Fin NKT := ⟨2, two_lt_NKT⟩

/-- The first thread creates one thread, which another CPU takes, and is about to allocate the
entry of a second one. -/
def secondCreate (c d : Fin n) : List (Label n) :=
  goes c 3 ++ [⟨c, .call (.kthreadCreate 0 0 0)⟩] ++ goes c 3 ++ goes d 4 ++
    [⟨c, .call (.kthreadCreate 0 0 0)⟩] ++ goes c 2

def runsAndExits (c : Fin n) : List (Label n) :=
  goes c 5 ++ [⟨c, .call (.kthreadExit 7)⟩] ++ goes c 2

def joinsSecond (c : Fin n) : List (Label n) := [⟨c, .call (.kthreadJoin 3 0)⟩] ++ goes c 14

theorem create_of_exited_thread_returns_its_tid :
    ∃ s t u v, Run step Free (init 3 onlyChild) (secondCreate 0 2) s ∧
      s.cpu 0 = .thread (child, slot0) (.createScan slot2 ⟨0, 0⟩) ∧
      step s ⟨0, .go⟩ = some t ∧ Run step (Meanwhile 0) t (runsAndExits 1) u ∧
      (u.kt (child, slot2)).tState = .zombie ∧ step u ⟨0, .go⟩ = some v ∧
      v.cpu 0 = .thread (child, slot0) (.user (s.proc child).pCounter) := by
  obtain ⟨s, run, scan, free, later⟩ : ∃ s, Run step Free (init 3 onlyChild) (secondCreate 0 2) s ∧
      s.cpu 0 = .thread (child, slot0) (.createScan slot2 ⟨0, 0⟩) ∧
      (s.kt (child, slot2)).tState = .unused ∧
      ((step s ⟨0, .go⟩).any fun t => (execute step (Meanwhile 0) t (runsAndExits 1)).any fun u =>
        decide ((u.kt (child, slot2)).tState = .zombie) && (step u ⟨0, .go⟩).isSome) = true :=
    Run.exists_of_execute (by decide +kernel)
  obtain ⟨t, alloc, later⟩ := (any_eq_true _ _).mp later
  obtain ⟨u, rest, later⟩ := (any_eq_true _ _).mp later
  obtain ⟨zombie, later⟩ := Bool.and_eq_true_iff.mp later
  obtain ⟨v, ret⟩ := isSome_iff_exists.mp later
  exact ⟨s, t, u, v, run, scan, alloc, .of_execute rest, of_decide_eq_true zombie, ret,
    (kthread_create_returns_its_tid (i := slot2) scan free alloc
      (.of_execute rest) ret).2⟩

/-- The new thread gets the id 3, runs, exits and is joined, and then `kthread_create` returns the
id 0 of the free entry. -/
theorem kthread_create_returns_freed_tid :
    ∃ s t u v, Run step Free (init 3 onlyChild) (secondCreate 0 2) s ∧
      s.cpu 0 = .thread (child, slot0) (.createScan slot2 ⟨0, 0⟩) ∧
      step s ⟨0, .go⟩ = some t ∧ (t.kt (child, slot2)).tid = 3 ∧
      Run step Free t (runsAndExits 1 ++ joinsSecond 2) u ∧
      (∀ l ∈ (runsAndExits 1 ++ joinsSecond 2 : List (Label 3)), l.cpu ≠ 0) ∧
      step u ⟨0, .go⟩ = some v ∧ v.cpu 0 = .thread (child, slot0) (.user 0) := by
  obtain ⟨s, run, scan, later⟩ : ∃ s, Run step Free (init 3 onlyChild) (secondCreate 0 2) s ∧
      s.cpu 0 = .thread (child, slot0) (.createScan slot2 ⟨0, 0⟩) ∧
      ((step s ⟨0, .go⟩).any fun t => decide ((t.kt (child, slot2)).tid = 3) &&
        (execute step Free t (runsAndExits 1 ++ joinsSecond 2)).any fun u =>
          (step u ⟨0, .go⟩).any fun v =>
            decide (v.cpu 0 = .thread (child, slot0) (.user 0))) = true :=
    Run.exists_of_execute (by decide +kernel)
  obtain ⟨t, alloc, later⟩ := (any_eq_true _ _).mp later
  obtain ⟨tid, later⟩ := Bool.and_eq_true_iff.mp later
  obtain ⟨u, rest, later⟩ := (any_eq_true _ _).mp later
  obtain ⟨v, ret, zero⟩ := (any_eq_true _ _).mp later
  exact ⟨s, t, u, v, run, scan, alloc, of_decide_eq_true tid, .of_execute rest, by decide, ret,
    of_decide_eq_true zero⟩

end Xv6
