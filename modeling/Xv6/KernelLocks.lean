import Xv6.Preemption

/-! What `acquire`, `release`, `mykthread` and `sched` do to the kernel when they return. -/
namespace Xv6.Kernel
open Function Bool

variable {n : Nat} {s s' : Kernel n} {c d : Fin n} {l m : LockId}

def Held (s : Kernel n) (c : Fin n) (l : LockId) : Prop := s.locks.lock l = ⟨true, some c⟩

instance (s : Kernel n) (c : Fin n) (l : LockId) : Decidable (s.Held c l) :=
  inferInstanceAs (Decidable (_ = _))

lemma holding_iff : s.locks.holding c l = true ↔ s.Held c l := by
  unfold Locks.holding Held
  cases s.locks.lock l
  simp only [decide_and, decide_eq_true, and_eq_true, decide_eq_true_eq,
    Spinlock.mk.injEq]

lemma Held.cpu_eq (mine : s.Held c l) (yours : s.Held d l) : c = d :=
  Option.some.inj (congrArg Spinlock.cpu (mine.symm.trans yours))

lemma Held.locked (mine : s.Held c l) : (s.locks.lock l).locked = true :=
  congrArg Spinlock.locked mine

/-- A call on the CPU `c` that leaves the thread table, the current threads and the locks of
the other CPUs as they are. -/
structure Touches (s : Kernel n) (c : Fin n) (s' : Kernel n) : Prop where
  kt : s'.kt = s.kt
  kthread : s'.kthread = s.kthread
  held : ∀ d l, d ≠ c → (s'.Held d l ↔ s.Held d l)

lemma Touches.of_lock (kt : s'.kt = s.kt) (kthread : s'.kthread = s.kthread)
    (lock : s'.locks.lock = s.locks.lock) : s.Touches c s' where
  kt := kt
  kthread := kthread
  held d l _ := by rw [Held, Held, lock]

lemma Touches.refl (s : Kernel n) : s.Touches c s := .of_lock rfl rfl rfl

lemma Touches.of_update {x : Spinlock n} (kt : s'.kt = s.kt) (kthread : s'.kthread = s.kthread)
    (lock : s'.locks.lock = update s.locks.lock l x)
    (before : ∀ d, d ≠ c → ¬ s.Held d l) (after : ∀ d, d ≠ c → x ≠ ⟨true, some d⟩) :
    s.Touches c s' where
  kt := kt
  kthread := kthread
  held d m other := by
    rw [Held, lock]
    by_cases same : m = l
    · subst same
      rw [update_self]
      exact ⟨fun h => absurd h (after d other), fun h => absurd h (before d other)⟩
    rw [update_of_ne same, Held]

lemma acquire_ok (ok : s.acquire c l = .ok s') : (s.locks.lock l).locked = false ∧
    s'.locks.lock = update s.locks.lock l ⟨true, some c⟩ ∧ s.Touches c s' := by
  unfold acquire at ok
  cases got : s.locks.acquire c l with
  | error stop =>
    rw [got] at ok
    exact nomatch ok
  | ok locks =>
    rw [got] at ok
    cases ok
    obtain ⟨free, rfl⟩ := Locks.acquire_eq_ok.mp got
    refine ⟨free, rfl, .of_update rfl rfl rfl (fun d _ held => ?_) fun d other eq => ?_⟩
    · exact nomatch free.symm.trans held.locked
    exact other (Option.some.inj (congrArg Spinlock.cpu eq)).symm

lemma release_ok (ok : s.release c l = .ok s') :
    s.Held c l ∧ s'.locks.lock = update s.locks.lock l ⟨false, none⟩ ∧ s.Touches c s' := by
  unfold release Locks.release at ok
  split_ifs at ok with mine
  · have held := holding_iff.mp mine
    unfold Locks.popOff at ok
    cases popped : ((s.locks.setLock l ⟨false, none⟩).hart c).popOff with
    | error stop =>
      rw [popped] at ok
      exact nomatch ok
    | ok hart =>
      rw [popped] at ok
      cases ok
      refine ⟨held, rfl, .of_update rfl rfl rfl (fun d other yours => ?_) nofun⟩
      exact other (yours.cpu_eq held)
  exact nomatch ok

lemma mykthread_ok {t : Option KtId} (ok : s.mykthread c = .ok (t, s')) :
    t = s.kthread c ∧ s'.locks.lock = s.locks.lock ∧ s.Touches c s' := by
  unfold mykthread readOff Locks.popOff at ok
  cases popped : ((s.locks.pushOff c).hart c).popOff with
  | error stop =>
    rw [popped] at ok
    exact nomatch ok
  | ok hart =>
    rw [popped] at ok
    cases ok
    exact ⟨rfl, rfl, .of_lock rfl rfl rfl⟩

lemma sched_ok (ok : s.sched c = .ok s') : s'.locks.lock = s.locks.lock ∧ s.Touches c s' ∧ ∃ t,
    s.kthread c = some t ∧ s.Held c (.thread t) := by
  unfold sched at ok
  cases read : s.mykthread c with
  | error stop =>
    rw [read] at ok
    exact nomatch ok
  | ok v =>
    obtain ⟨t, u⟩ := v
    obtain ⟨rfl, lock, touches⟩ := mykthread_ok read
    simp only [read, bind, Except.bind] at ok
    cases current : s.kthread c with
    | none =>
      rw [current] at ok
      exact nomatch ok
    | some t =>
      simp only [current, deref] at ok
      split_ifs at ok with free
      cases ok
      rw [not_eq_true, not_eq_false'] at free
      refine ⟨lock, touches, t, rfl, ?_⟩
      have mine := holding_iff.mp free
      rwa [Held, lock] at mine

end Xv6.Kernel
