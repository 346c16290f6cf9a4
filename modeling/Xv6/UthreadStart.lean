import Xv6.UthreadPolicy

/-! What `uthread_start_all` does after any calls of `uthread_create`: the thread that it switches
to, and when it has a thread to switch to. -/
namespace Xv6.UserThread
open Interleaving FirstMax List Function

variable {base : UInt64} {s t : State} {as : List (Label (Nat × Nat))} {a : Label (Nat × Nat)}
  {c i j : Entry} {mem : Nat × Nat}

/-- The threads that a program creates before it starts them, each with its start function. -/
def createAll (base : UInt64) (threads : List (UInt64 × SchedPriority)) : State :=
  threads.foldl (fun s thread => (uthreadCreate base s thread.1 thread.2).1) init

/-- The purpose of the call: the thread that it starts, its result without threads, that every
pointer it uses is an entry, and what the later calls do. -/
structure HandlesStart (base : UInt64) (threads : List (UInt64 × SchedPriority)) (out : Context)
    (mem : Nat × Nat) : Prop where
  switches : threads ≠ [] → ∃ j, ((createAll base threads).arr j).state = .runnable ∧
    (∀ k, ((createAll base threads).arr k).state = .runnable →
      ((createAll base threads).arr k).priority.toNat ≤
        ((createAll base threads).arr j).priority.toNat) ∧
    uthreadStartAll nextThread (createAll base threads) out mem =
      ((createAll base threads).setStarted.select out .garbageContext j, none)
  returns : threads = [] →
    (uthreadStartAll nextThread (createAll base threads) out mem).2 = some (-1) ∧
    (uthreadStartAll nextThread (createAll base threads) out mem).1.arr =
      (createAll base threads).arr
  inside : (uthreadStartAll nextThread (createAll base threads) out mem).1.exec ≠ .lost
  later : ∀ as t, Run (step nextThread base) Free
      (uthreadStartAll nextThread (createAll base threads) out mem).1 as t →
    ∀ out mem, uthreadStartAll nextThread t out mem = (t, some (-1))

/-- A runnable entry of maximal priority above `LOW` is there for the loop. From the last entry the
loop starts behind the table and does not come to the first entry. -/
def FindsThread (s : State) (mem : Nat × Nat) : Prop :=
  ∃ c j, s.curr = .entry c ∧ (s.arr j).state = .runnable ∧ (s.arr j).priority ≠ .low ∧
    (∀ k, (s.arr k).state = .runnable → (s.arr k).priority.toNat ≤ (s.arr j).priority.toNat) ∧
    (c.val = 3 → j.val ≠ 0 ∧
      ¬ (mem.1 = Tstate.runnable.toNat ∧ (s.arr j).priority.toNat ≤ mem.2))

lemma mem_scanIndices : ∀ c j : Entry, (c.val = 3 → j.val ≠ 0) → j.val ∈ scanIndices c := by
  decide

lemma not_mem_scanIndices_last : ∀ c : Entry, c.val = 3 → 0 ∉ scanIndices c := by decide

lemma scanIndices_last : ∀ c : Entry, c.val = 3 → scanIndices c = 4 :: [1, 2, 3] := by decide

lemma inside_of_mem_scanIndices :
    ∀ c : Entry, ∀ k ∈ scanIndices c, k < MAX_UTHREADS ∨ c.val = 3 ∧ k = 4 := by decide

lemma State.read_four (s : State) (mem : Nat × Nat) : s.read mem 4 = mem := dif_neg (by decide)

lemma nextThread_maximal_iff (named : (s.arr c).id = c) (here : s.curr = .entry c) :
    (∃ j, nextThread mem s c = .entry j ∧ (s.arr j).state = .runnable ∧ ∀ k, (s.arr k).state =
    .runnable → (s.arr k).priority.toNat ≤ (s.arr j).priority.toNat) ↔ FindsThread s mem := by
  have scan := nextThread_cases mem s c
  rw [named] at scan
  constructor
  · rintro ⟨j, found, runnable, maximal⟩
    rcases scan with ⟨one, -⟩ | ⟨k, at_k, high, first⟩
    · rw [one] at found
      cases found
    cases Ptr.at_eq_entry (at_k.symm.trans found)
    rw [s.read_entry] at high
    refine ⟨c, j, here, runnable, fun low => ?_, maximal, fun last => ⟨fun zero => ?_, ?_⟩⟩
    · rw [low] at high
      exact absurd high (lt_irrefl _)
    · exact not_mem_scanIndices_last c last (zero ▸ first.mem)
    -- the index behind the table is the first one, so an equal priority there is preferred
    rintro ⟨live, above⟩
    rw [scanIndices_last c last] at first
    have below := first.lt_of_head (fun same => absurd j.2 (by rw [same]; decide))
      (by rw [s.read_four]; exact live)
    rw [s.read_four, s.read_entry] at below
    exact absurd below (not_lt.mpr above)
  rintro ⟨d, j, there, runnable, high, maximal, last⟩
  cases here.symm.trans there
  have scanned : j.val ∈ scanIndices c := mem_scanIndices c j fun three => (last three).1
  have eligible : (s.read mem j).1 = Tstate.runnable.toNat := by
    rw [s.read_entry]
    exact Tstate.toNat_eq_runnable.mpr runnable
  rcases scan with ⟨-, low⟩ | ⟨k, at_k, -, first⟩
  · have bound := low j scanned eligible
    rw [s.read_entry] at bound
    exact absurd (SchedPriority.toNat_le_low bound) high
  have above := first.le scanned eligible
  rw [s.read_entry] at above
  rcases inside_of_mem_scanIndices c k first.mem with lt | ⟨three, rfl⟩
  · obtain ⟨k, rfl⟩ : ∃ i : Entry, i.val = k := ⟨⟨k, lt⟩, rfl⟩
    have chosen := first.chosen
    rw [s.read_entry] at chosen above
    exact ⟨k, at_k.trans (Ptr.at_entry k), Tstate.toNat_eq_runnable.mp chosen,
      fun i live => (maximal i live).trans above⟩
  have chosen := first.chosen
  rw [s.read_four] at chosen above
  exact absurd ⟨chosen, above⟩ (last three).2

/-- What the calls of `uthread_create` keep before the threads are started. -/
structure Creating (s : State) : Prop where
  named : Named s
  first : s.started = false
  owned : ∀ i, (s.arr i).state ≠ .free → s.owner (.entry i) ≠ .lost
  current : (∃ i, (s.arr i).state ≠ .free) → ∃ c, s.curr = .entry c

lemma creating_init : Creating init :=
  ⟨named_init, rfl, fun _ used => absurd rfl used, fun ⟨_, used⟩ => absurd rfl used⟩

lemma Creating.create (h : Creating s) (base : UInt64) (startFunc : UInt64)
    (priority : SchedPriority) : Creating (uthreadCreate base s startFunc priority).1 ∧ ∃ c,
    (uthreadCreate base s startFunc priority).1.curr = .entry c := by
  have named : Named (uthreadCreate base s startFunc priority).1 :=
    h.named.create startFunc priority
  unfold uthreadCreate at named ⊢
  cases found : (finRange MAX_UTHREADS).find? fun i => (s.arr i).state = .free with
  | none =>
    have used : (s.arr 0).state ≠ .free := by
      simpa using find?_eq_none.mp found 0 (mem_finRange 0)
    exact ⟨h, h.current ⟨0, used⟩⟩
  | some i =>
    rw [found] at named
    refine ⟨⟨named, h.first, fun k used => ?_, fun _ => ⟨i, rfl⟩⟩, i, rfl⟩
    dsimp only at used ⊢
    by_cases same : k = i
    · rw [same, update_self]
      exact Exec.noConfusion
    rw [update_of_ne same] at used
    rw [update_of_ne fun eq => same (ContextPtr.entry.inj eq)]
    exact h.owned k used

lemma creating_createAll (base : UInt64) (threads : List (UInt64 × SchedPriority)) :
    Creating (createAll base threads) ∧
    (threads ≠ [] → ∃ c, (createAll base threads).curr = .entry c) := by
  induction threads using reverseRecOn with
  | nil => exact ⟨creating_init, fun some => absurd rfl some⟩
  | append_singleton threads thread ih =>
    unfold createAll at ih ⊢
    rw [foldl_append, foldl_cons, foldl_nil]
    obtain ⟨creating, here⟩ := ih.1.create base thread.1 thread.2
    exact ⟨creating, fun _ => here⟩

lemma started_atCurr {f : Entry → State} (started : s.started = true)
    (kept : ∀ c, (f c).started = true) : (s.atCurr f).started = true := by
  rcases s.atCurr_cases f with ⟨c, -, eq⟩ | eq
  · rw [eq]
    exact kept c
  rw [eq]
  exact started

lemma started_step (started : s.started = true) (next : step nextThread base s a = some t) :
    t.started = true := by
  rw [← call_of_step next]
  cases a with
  | create startFunc priority =>
    unfold call uthreadCreate
    cases (finRange MAX_UTHREADS).find? fun i => (s.arr i).state = .free with
    | none => exact started
    | some i => exact started
  | yield out m =>
    refine started_atCurr started fun c => ?_
    cases nextThread m s c with
    | null => exact started
    | one => exact started
    | entry j => exact started
    | beyond => exact started
  | exit out m =>
    refine started_atCurr started fun c => ?_
    cases nextThread m (s.setState c .free) c with
    | null => exact started
    | one => exact started
    | entry j => exact started
    | beyond => exact started
  | setPriority priority => exact started_atCurr started fun c => started
  | startAll out m =>
    show (uthreadStartAll nextThread s out m).1.started = true
    rw [uthreadStartAll, if_pos started]
    exact started

lemma startAll_of_started (started : s.started = true)
    (run : Run (step nextThread base) Free s as t) (out : Context) (mem : Nat × Nat) :
    uthreadStartAll nextThread t out mem = (t, some (-1)) := by
  have still : t.started = true := run.invariant (I := fun s => s.started = true)
    (fun _ _ _ h _ next => started_step h next) started
  rw [uthreadStartAll, if_pos still]

lemma startAll_of_creating (h : Creating s) (here : s.curr = .entry c)
    (out : Context) (mem : Nat × Nat) : uthreadStartAll nextThread s out mem =
    (startTo s.setStarted out (nextThread mem s c), none) := by
  unfold uthreadStartAll
  rw [if_neg (by rw [h.first]; exact Bool.false_ne_true),
    State.atCurr_entry (s := s.setStarted) here]
  rfl

lemma started_startAll (h : Creating s) (out : Context) (mem : Nat × Nat) :
    (uthreadStartAll nextThread s out mem).1.started = true := by
  unfold uthreadStartAll
  rw [if_neg (by rw [h.first]; exact Bool.false_ne_true)]
  refine started_atCurr rfl fun c => ?_
  cases nextThread mem s.setStarted c with
  | null => rfl
  | one => rfl
  | entry j => rfl
  | beyond => rfl

/-- `uthread_start_all` handles the threads created before it exactly if one of them is found: the
call needs a thread above `LOW`, and from the last entry a maximal one that is not the first entry
and is above what lies behind the table. -/
theorem start_all_handles_threads_iff (base : UInt64) (threads : List (UInt64 × SchedPriority))
    (out : Context) (mem : Nat × Nat) :
    HandlesStart base threads out mem ↔ FindsThread (createAll base threads) mem := by
  obtain ⟨creating, current⟩ := creating_createAll base threads
  by_cases empty : threads = []
  · -- without threads the call uses a null `curr_thread` and does not return
    subst empty
    refine ⟨fun handles => absurd (handles.returns rfl).1 (by simp [uthreadStartAll, createAll, init]),
      ?_⟩
    rintro ⟨c, j, here, -⟩
    cases here
  obtain ⟨c, here⟩ := current empty
  have named := creating.named.current c here
  have call := startAll_of_creating creating here out mem
  rw [← nextThread_maximal_iff named here]
  constructor
  · intro handles
    obtain ⟨j, runnable, maximal, switch⟩ := handles.switches empty
    refine ⟨j, ?_, runnable, maximal⟩
    rw [call] at switch
    have now := congrArg State.curr (Prod.mk.inj switch).1
    cases found : nextThread mem (createAll base threads) c with
    | entry k =>
      rw [found] at now
      exact now
    | null =>
      rw [found] at now
      cases now
    | one =>
      rw [found] at now
      cases now
    | beyond =>
      rw [found] at now
      cases now
  rintro ⟨j, found, runnable, maximal⟩
  refine ⟨fun _ => ⟨j, runnable, maximal, ?_⟩, fun none => absurd none empty, ?_,
    fun as t run => startAll_of_started (started_startAll creating out mem) run⟩
  · rw [call, found]
    rfl
  rw [call, found]
  have owner : (startTo (createAll base threads).setStarted out (.entry j)).exec =
      (createAll base threads).owner (.entry j) := by
    have other : ContextPtr.entry j ≠ .garbageContext := ContextPtr.noConfusion
    exact Function.update_of_ne other (createAll base threads).exec
      (createAll base threads).owner
  rw [owner]
  exact creating.owned j (by rw [runnable]; exact Tstate.noConfusion)

/-- The call uses a pointer to no entry without threads and with threads of priority `LOW` only.
After four creations it passes over the first entry, or takes what lies behind the table for a
thread. -/
theorem start_all_mishandles_threads :
    ¬ HandlesStart 0x2000 [] (fun _ => 0) (0, 0) ∧
    ¬ HandlesStart 0x2000 [(0x100, .low)] (fun _ => 0) (0, 0) ∧
    ¬ HandlesStart 0x2000 [(0x100, .high), (0x200, .medium), (0x300, .medium), (0x400, .medium)]
      (fun _ => 0) (0, 0) ∧
    ¬ HandlesStart 0x2000 [(0x100, .medium), (0x200, .medium), (0x300, .medium), (0x400, .high)]
      (fun _ => 0) (Tstate.runnable.toNat, SchedPriority.high.toNat) := by
  refine ⟨fun h => ?_, fun h => ?_, fun h => ?_, fun h => ?_⟩
  · exact absurd (h.returns rfl).1 (by decide +kernel)
  · exact absurd h.inside (by decide +kernel)
  · obtain ⟨j, -, maximal, switch⟩ := h.switches (List.cons_ne_nil _ _)
    have self := congrArg State.curr (Prod.mk.inj switch).1
    obtain rfl : j = 1 := Ptr.entry.inj (self.symm.trans (by decide +kernel))
    exact absurd (maximal 0 (by decide +kernel)) (by decide +kernel)
  · exact absurd h.inside (by decide +kernel)

end Xv6.UserThread
