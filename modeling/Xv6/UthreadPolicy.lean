import Xv6.Uthread

/-! Which thread `uthread_yield` and `uthread_exit` switch to, compared with the policy of the
library: the first runnable entry of maximal priority in cyclic order after the caller. -/
namespace Xv6.UserThread
open Interleaving FirstMax Function

variable {base : UInt64} {s t : State} {as : List (Label (Nat × Nat))} {a : Label (Nat × Nat)}
  {i j : Entry} {mem : Nat × Nat}

/-- The entries in cyclic order after `i`, which comes last. -/
def cyclicAfter (i : Entry) : List Entry := (List.finRange MAX_UTHREADS).rotate (i.val + 1)

lemma mem_cyclicAfter : ∀ i j : Entry, j ∈ cyclicAfter i := by decide

/-- The policy for the calls of the thread that runs in the entry `i`. -/
structure FollowsPolicy (s : State) (i : Entry) : Prop where
  reads : ∀ k ∈ scanIndices (s.arr i).id, k < MAX_UTHREADS
  switches : (∃ j, j ≠ i ∧ (s.arr j).state = .runnable) →
    ∃ j, IsFirstMax (fun j => (s.arr j).state = .runnable) (fun j => (s.arr j).priority.toNat)
        (cyclicAfter i) j ∧
      ∀ out mem, uthreadYield nextThread s out mem = yieldTo s i out (.entry j) ∧
        uthreadExit nextThread s out mem = exitTo (s.setState i .free) i out (.entry j)
  stays : (∀ j, j ≠ i → (s.arr j).state ≠ .runnable) →
    ∀ out mem, uthreadYield nextThread s out mem = s ∧
      uthreadExit nextThread s out mem = (s.setState i .free).setExited

/-- An entry that is in use or that `curr_thread` points to holds its own index. -/
structure Named (s : State) : Prop where
  used : ∀ i, (s.arr i).state ≠ .free → (s.arr i).id = i
  current : ∀ i, s.curr = .entry i → (s.arr i).id = i

lemma named_init : Named init := ⟨fun _ used => absurd rfl used, nofun⟩

variable {p : Ptr}

section
variable (h : Named s)
include h

lemma Named.of_eq (arr : t.arr = s.arr) (curr : t.curr = s.curr) : Named t := by
  refine ⟨?_, ?_⟩
  · rw [arr]
    exact h.used
  rw [arr, curr]
  exact h.current

lemma Named.setState (named : (s.arr i).id = i) (u : Tstate) : Named (s.setState i u) := by
  refine ⟨fun j used => ?_, fun j here => ?_⟩
  · rw [setState_id]
    by_cases same : j = i
    · rw [same, named]
    rw [State.setState_arr, update_of_ne same] at used
    exact h.used j used
  rw [setState_id]
  exact h.current j here

lemma Named.setCurr (named : ∀ j, p = .entry j → (s.arr j).id = j) : Named (s.setCurr p) :=
  ⟨h.used, named⟩

lemma Named.select (used : (s.arr j).id = j) (out : Context) (old : ContextPtr) :
    Named (s.select out old j) := by
  refine ((h.setState used .running).setCurr ?_).of_eq rfl rfl
  intro k here
  cases here
  rw [setState_id, used]

lemma Named.lose : Named s.lose := h.of_eq rfl rfl

lemma Named.stray (stray : ∀ j, p ≠ .entry j) : Named (s.setCurr p).lose :=
  (h.setCurr fun j here => absurd here (stray j)).lose

lemma Named.yieldTo (current : (s.arr i).id = i) (out : Context)
    (used : ∀ j, p = .entry j → (s.arr j).id = j) : Named (UserThread.yieldTo s i out p) := by
  have moved := h.setState current .runnable
  cases p with
  | null => exact moved.stray fun _ => Ptr.noConfusion
  | one => exact h
  | entry j => exact moved.select (by rw [setState_id, used j rfl]) out _
  | beyond => exact moved.stray fun _ => Ptr.noConfusion

lemma Named.exitTo (out : Context) (used : ∀ j, p = .entry j → (s.arr j).id = j) :
    Named (UserThread.exitTo s i out p) := by
  cases p with
  | null => exact h.stray fun _ => Ptr.noConfusion
  | one => exact h.of_eq rfl rfl
  | entry j => exact h.select (used j rfl) out _
  | beyond => exact h.stray fun _ => Ptr.noConfusion

lemma Named.startTo (out : Context) (used : ∀ j, p = .entry j → (s.arr j).id = j) :
    Named (UserThread.startTo s out p) := by
  cases p with
  | null => exact h.stray fun _ => Ptr.noConfusion
  | one => exact h.stray fun _ => Ptr.noConfusion
  | entry j => exact h.select (used j rfl) out _
  | beyond => exact h.stray fun _ => Ptr.noConfusion

lemma Named.nextThread (mem : Nat × Nat) (c j : Entry) (found : nextThread mem s c = .entry j) :
    (s.arr j).id = j := by
  refine h.used j ?_
  rw [nextThread_runnable found]
  exact Tstate.noConfusion

lemma Named.create (startFunc : UInt64) (priority : SchedPriority) :
    Named (uthreadCreate base s startFunc priority).1 := by
  rw [uthreadCreate]
  cases List.find? (fun i => decide ((s.arr i).state = .free)) (List.finRange MAX_UTHREADS) with
  | none => exact h
  | some i =>
    refine ⟨fun j used => ?_, fun j here => ?_⟩
    · by_cases same : j = i
      · subst same
        simp
      simp only [update_of_ne same] at used ⊢
      exact h.used j used
    cases here
    simp

lemma Named.setPriority (priority : SchedPriority) : Named (s.setPriority i priority) := by
  have same : ∀ j, ((s.setPriority i priority).arr j).id = (s.arr j).id ∧
      ((s.setPriority i priority).arr j).state = (s.arr j).state := by
    intro j
    rw [State.setPriority_arr]
    by_cases same : j = i
    · rw [same, update_self]
      exact ⟨rfl, rfl⟩
    rw [update_of_ne same]
    exact ⟨rfl, rfl⟩
  refine ⟨fun j used => ?_, fun j here => ?_⟩
  · rw [(same j).2] at used
    rw [(same j).1, h.used j used]
  rw [(same j).1, h.current j here]

lemma Named.atCurr {f : Entry → State} (kept : ∀ c, s.curr = .entry c → Named (f c)) :
    Named (s.atCurr f) := by
  rcases s.atCurr_cases f with ⟨c, here, eq⟩ | eq
  · rw [eq]
    exact kept c here
  rw [eq]
  exact h.lose

lemma Named.step (next : UserThread.step UserThread.nextThread base s a = some t) : Named t := by
  have called := call_of_step next
  cases a with
  | create startFunc priority =>
    cases called
    exact h.create startFunc priority
  | yield out m =>
    cases called
    exact h.atCurr fun c here => h.yieldTo (h.current c here) out (h.nextThread m c)
  | exit out m =>
    cases called
    refine h.atCurr fun c here => ?_
    have freed := h.setState (h.current c here) .free
    exact freed.exitTo out (freed.nextThread m c)
  | setPriority priority =>
    cases called
    exact h.atCurr fun _ _ => h.setPriority priority
  | startAll out m =>
    cases called
    rw [call, uthreadStartAll]
    split_ifs
    · exact h
    have begun : Named s.setStarted := h.of_eq rfl rfl
    exact begun.atCurr fun c _ => begun.startTo out (begun.nextThread m c)

end

lemma named (run : Run (step nextThread base) Free init as s) : Named s :=
  run.invariant (I := Named) (fun _ _ _ h _ next => h.step next) named_init

/-- The indices of the loops. After the last entry they leave the table, and they come back to
the entry after the first one. -/
lemma scanIndices_of_lt :
    ∀ i : Entry, i.val < 3 → scanIndices i = (cyclicAfter i).map Fin.val := by decide

lemma scanIndices_inside_iff :
    ∀ i : Entry, (∀ k ∈ scanIndices i, k < MAX_UTHREADS) ↔ i.val < 3 := by decide

lemma SchedPriority.toNat_le_low {p : SchedPriority} (h : p.toNat ≤ SchedPriority.low.toNat) :
    p = .low := by
  cases p with
  | low => rfl
  | medium => exact absurd h (by decide)
  | high => exact absurd h (by decide)

/-- In an entry before the last one the loops find the first runnable entry of maximal priority
above `LOW`. -/
lemma nextThread_of_lt (mem : Nat × Nat) (named : (s.arr i).id = i) (lt : i.val < 3) :
    (nextThread mem s i = .one ∧ ∀ j, (s.arr j).state = .runnable → (s.arr j).priority = .low) ∨
    ∃ j, nextThread mem s i = .entry j ∧ (s.arr j).priority ≠ .low ∧
    IsFirstMax (fun j => (s.arr j).state = .runnable) (fun j => (s.arr j).priority.toNat)
    (cyclicAfter i) j := by
  rcases nextThread_cases mem s i with ⟨none, low⟩ | ⟨k, found, high, first⟩
  · refine .inl ⟨none, fun j runnable => SchedPriority.toNat_le_low ?_⟩
    have bound := low j (by
      rw [named, scanIndices_of_lt i lt]
      exact List.mem_map_of_mem (mem_cyclicAfter i j))
    rw [s.read_entry] at bound
    exact bound (Tstate.toNat_eq_runnable.mpr runnable)
  rw [named, scanIndices_of_lt i lt] at first
  obtain ⟨j, rfl, image⟩ := first.of_map
  rw [s.read_entry] at high
  refine .inr ⟨j, found.trans (Ptr.at_entry j), fun low => ?_, ?_⟩
  · rw [low] at high
    exact absurd high (lt_irrefl _)
  simpa only [s.read_entry, Tstate.toNat_eq_runnable] using image

lemma FollowsPolicy.iff_of_named (h : Named s)
    (here : uthreadSelf s = .entry i) (running : (s.arr i).state = .running) :
    FollowsPolicy s i ↔ i.val < 3 ∧ ((∃ j, j ≠ i ∧ (s.arr j).state = .runnable) → ∃ j, j ≠ i ∧
    (s.arr j).state = .runnable ∧ (s.arr j).priority ≠ .low) := by
  have named := h.current i here
  have yields : ∀ out mem, uthreadYield nextThread s out mem = yieldTo s i out (nextThread mem s i) :=
    fun out mem => State.atCurr_entry here _
  have exits : ∀ out mem, uthreadExit nextThread s out mem =
      exitTo (s.setState i .free) i out (nextThread mem s i) := by
    intro out mem
    rw [uthreadExit, State.atCurr_entry here, nextThread_free running]
  have other : ∀ j, (s.arr j).state = .runnable → j ≠ i := by
    rintro j runnable rfl
    rw [running] at runnable
    cases runnable
  constructor
  · intro policy
    have lt : i.val < 3 := by
      rw [← scanIndices_inside_iff, ← named]
      exact policy.reads
    refine ⟨lt, fun waiting => ?_⟩
    obtain ⟨j, first, switches⟩ := policy.switches waiting
    rcases nextThread_of_lt (0, 0) named lt with ⟨none, -⟩ | ⟨k, -, high, best⟩
    · -- the call returns at once, so `curr_thread` is not the entry to switch to
      have stuck := (switches (fun _ => 0) (0, 0)).1
      rw [yields, none] at stuck
      have moved : Ptr.entry i = .entry j := here.symm.trans (congrArg State.curr stuck)
      cases moved
      exact absurd rfl (other i first.chosen)
    exact ⟨k, other k best.chosen, best.chosen, high⟩
  rintro ⟨lt, urgent⟩
  refine ⟨?_, fun waiting => ?_, fun alone out mem => ?_⟩
  · rw [named, scanIndices_inside_iff]
    exact lt
  · obtain ⟨u, -, runnable, high⟩ := urgent waiting
    have found : ∀ mem, ∃ j, nextThread mem s i = .entry j ∧ IsFirstMax
        (fun j => (s.arr j).state = .runnable) (fun j => (s.arr j).priority.toNat)
        (cyclicAfter i) j := by
      intro mem
      rcases nextThread_of_lt mem named lt with ⟨-, low⟩ | ⟨j, found, -, best⟩
      · exact absurd (low u runnable) high
      exact ⟨j, found, best⟩
    obtain ⟨j, -, first⟩ := found (0, 0)
    refine ⟨j, first, fun out mem => ?_⟩
    obtain ⟨k, select, best⟩ := found mem
    rw [yields, exits, select, first.unique best]
    exact ⟨rfl, rfl⟩
  rcases nextThread_of_lt mem named lt with ⟨none, -⟩ | ⟨k, -, -, best⟩
  · rw [yields, exits, none]
    exact ⟨rfl, rfl⟩
  exact absurd best.chosen (alone k (other k best.chosen))

/-- `uthread_yield` and `uthread_exit` follow the policy exactly for a caller that is not in the
last entry, provided that some thread above `LOW` waits if any thread waits. -/
theorem yield_and_exit_follow_policy_iff (run : Run (step nextThread base) Free init as s)
    (here : uthreadSelf s = .entry i) (running : (s.arr i).state = .running) :
    FollowsPolicy s i ↔ i.val < 3 ∧ ((∃ j, j ≠ i ∧ (s.arr j).state = .runnable) →
      ∃ j, j ≠ i ∧ (s.arr j).state = .runnable ∧ (s.arr j).priority ≠ .low) :=
  FollowsPolicy.iff_of_named (named run) here running

theorem two_threads_follow_policy :
    ∃ s, Run (step nextThread 0x2000) Free init
      [.create 0x100 .medium, .create 0x200 .high, .startAll (fun _ => 0) (0, 0)] s ∧
      uthreadSelf s = .entry 1 ∧ (s.arr 0).state = .runnable ∧ FollowsPolicy s 1 := by
  refine Run.exists_with (P := fun s => uthreadSelf s = .entry 1 ∧ (s.arr 1).state = .running ∧
      (s.arr 0).state = .runnable ∧ (s.arr 0).priority = .medium)
    (by decide +kernel) fun s run ⟨here, running, waits, priority⟩ => ?_
  refine ⟨here, waits, (yield_and_exit_follow_policy_iff run here running).mpr
    ⟨by decide, fun _ => ⟨0, by decide, waits, ?_⟩⟩⟩
  rw [priority]
  exact SchedPriority.noConfusion

/-- A thread of priority `LOW` that waits alone is not switched to, and a caller in the last entry
reads behind the table. -/
theorem low_thread_waits_and_last_entry_reads_behind :
    (∃ as s, Run (step nextThread 0x2000) Free init as s ∧ uthreadSelf s = .entry 0 ∧
      (s.arr 0).state = .running ∧ (s.arr 1).state = .runnable ∧ ¬ FollowsPolicy s 0) ∧
    ∃ as s, Run (step nextThread 0x2000) Free init as s ∧ uthreadSelf s = .entry 3 ∧
      (s.arr 3).state = .running ∧ ¬ FollowsPolicy s 3 := by
  constructor
  · obtain ⟨s, run, here, running, waits, low⟩ : ∃ s, Run (step nextThread 0x2000) Free init
        [.create 0x100 .medium, .create 0x200 .low, .startAll (fun _ => 0) (0, 0)] s ∧
          uthreadSelf s = .entry 0 ∧ (s.arr 0).state = .running ∧ (s.arr 1).state = .runnable ∧
            ∀ j, (s.arr j).state = .runnable → (s.arr j).priority = .low :=
      Run.exists_of_execute (by decide +kernel)
    refine ⟨_, s, run, here, running, waits, fun policy => ?_⟩
    obtain ⟨j, -, runnable, high⟩ := ((FollowsPolicy.iff_of_named (named run) here running).mp
      policy).2 ⟨1, by decide, waits⟩
    exact high (low j runnable)
  obtain ⟨s, run, here, running⟩ : ∃ s, Run (step nextThread 0x2000) Free init
      [.create 0x100 .medium, .create 0x200 .medium, .create 0x300 .medium,
        .create 0x400 .medium, .startAll (fun _ => 0) (0, 0), .yield (fun _ => 0) (0, 0),
        .yield (fun _ => 0) (0, 0)] s ∧
        uthreadSelf s = .entry 3 ∧ (s.arr 3).state = .running :=
    Run.exists_of_execute (by decide +kernel)
  refine ⟨_, s, run, here, running, fun policy => ?_⟩
  exact absurd ((FollowsPolicy.iff_of_named (named run) here running).mp policy).1 (by decide)

end Xv6.UserThread
