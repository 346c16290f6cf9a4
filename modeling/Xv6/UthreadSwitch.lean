import Xv6.Uthread

/-! Who executes and with which registers, after any sequence of switches. The loops of the
library are replaced by an arbitrary choice among the runnable entries; a run of the program
whose loops stay in the table is one such run. -/
namespace Xv6.UserThread
open Interleaving List State
open Function (update update_of_ne update_self)

variable {base : UInt64} {s t x : State} {a : Label Ptr} {as : List (Label Ptr)} {i j k : Entry}
  {out : Context} {p : Ptr}

def pick (p : Ptr) (_ : State) (_ : Entry) : Ptr := p

def Selects (s : State) : Ptr → Prop
  | .one => True
  | .entry j => (s.arr j).state = .runnable
  | _ => False

instance (s : State) (p : Ptr) : Decidable (Selects s p) := by
  cases p <;> unfold Selects <;> infer_instance

/-- Threads are created first, or at a time when there is no entry for a new one. The first
`uthread_start_all` finds a thread, and the threads make the other calls after it. -/
def InOrder (s : State) : Label Ptr → Prop
  | .create _ _ => s.started = false ∨ ∀ i, (s.arr i).state ≠ .free
  | .yield _ p => s.started = true ∧ Selects s p
  | .exit _ p => s.started = true ∧ Selects s p
  | .setPriority _ => s.started = true
  | .startAll _ p => s.started = true ∨ p ≠ .one ∧ Selects s p

instance (s : State) (a : Label Ptr) : Decidable (InOrder s a) := by
  cases a <;> unfold InOrder <;> infer_instance

structure Tracks (s : State) (i : Entry) : Prop where
  running : (s.arr i).state = .running
  only : ∀ j, (s.arr j).state = .running → j = i
  current : uthreadSelf s = .entry i
  executing : s.exec = .thread i

/-- The registers that the thread in the entry `j` is to have when it is switched to. -/
structure Resumes (base : UInt64) (s : State) (j : Entry) (regs : Context) : Prop where
  again : ∀ out, s.saved (.thread j) = some out → regs = out
  first : s.saved (.thread j) = none → regs .ra = s.start j ∧ regs .sp = stackEnd base j

structure Waiting (base : UInt64) (s : State) (j : Entry) : Prop where
  own : s.owner (.entry j) = .thread j
  context : Resumes base s j (s.context (.entry j))

/-- Before the first `uthread_start_all` the main program executes. -/
structure Unstarted (s : State) : Prop where
  started : s.started = false
  executing : s.exec = .main
  idle : ∀ j, (s.arr j).state ≠ .running
  current : (∀ j, (s.arr j).state = .free) ∨ ∃ c, s.curr = .entry c

structure Inv (base : UInt64) (s : State) : Prop where
  waiting : ∀ j, (s.arr j).state = .runnable → Waiting base s j
  phase : Unstarted s ∨ s.started = true ∧ ∃ i, Tracks s i

lemma inv_init : Inv base init :=
  ⟨fun _ => Tstate.noConfusion, .inl ⟨rfl, rfl, fun _ => Tstate.noConfusion, .inl fun _ => rfl⟩⟩

lemma Inv.tracks (h : Inv base s) (started : s.started = true) : ∃ i, Tracks s i := by
  rcases h.phase with before | ⟨-, after⟩
  · cases started.symm.trans before.started
  exact after

lemma Inv.unstarted (h : Inv base s) (first : s.started = false) : Unstarted s := by
  rcases h.phase with before | ⟨started, -⟩
  · exact before
  cases started.symm.trans first

lemma Waiting.of_eq (h : Waiting base s j) (own : t.owner (.entry j) = s.owner (.entry j))
    (context : t.context (.entry j) = s.context (.entry j)) (saved : t.saved (.thread j) =
    s.saved (.thread j)) (start : t.start j = s.start j) : Waiting base t j := by
  refine ⟨own.trans h.own, ?_⟩
  rw [context]
  refine ⟨?_, ?_⟩
  · rw [saved]
    exact h.context.again
  rw [saved, start]
  exact h.context.first

section
variable (x : State) (out : Context) (old : ContextPtr)

lemma select_state_self (j : Entry) : ((x.select out old j).arr j).state = .running := by
  simp [select]

lemma select_state_of_ne (other : k ≠ j) :
    ((x.select out old j).arr k).state = (x.arr k).state := by
  simp only [select, switch_arr, setCurr_arr, setState_arr,
    update_of_ne other]

lemma select_context (j : Entry) : (x.select out old j).context = update x.context old out := by
  change (uswtch x.context out old (.entry j)).1 = _
  rw [uswtch_eq]

lemma select_regs (j : Entry) :
    (x.select out old j).regs = update x.context old out (.entry j) := by
  change (uswtch x.context out old (.entry j)).2 = _
  rw [uswtch_eq]

lemma select_owner (j : Entry) :
    (x.select out old j).owner = update x.owner old x.exec := rfl

lemma select_exec (j : Entry) :
    (x.select out old j).exec = update x.owner old x.exec (.entry j) := rfl

lemma select_saved (j : Entry) :
    (x.select out old j).saved = update x.saved x.exec (some out) := rfl

end

/-- A switch away from `old` to the entry `j`, when no entry is marked as running: the thread that
leaves is saved in its own context, and the one that was waiting in `j` gets its registers. -/
lemma select_spec {old : ContextPtr} (out : Context) (idle : ∀ k, (x.arr k).state ≠ .running)
    (target : Waiting base x j) (other : old ≠ .entry j)
    (parked : ∀ k, k ≠ j → (x.arr k).state = .runnable → old = .entry k ∧
    x.exec = .thread k ∨ old ≠ .entry k ∧ x.exec ≠ .thread k ∧ Waiting base x k) :
    (∀ k, ((x.select out old j).arr k).state = .runnable → Waiting base (x.select out old j) k) ∧
    Tracks (x.select out old j) j ∧ Resumes base x j (x.select out old j).regs := by
  refine ⟨fun k runnable => ?_, ⟨select_state_self x out old j, fun k running => ?_, rfl, ?_⟩, ?_⟩
  · have ne : k ≠ j := by
      rintro rfl
      rw [select_state_self] at runnable
      cases runnable
    rw [select_state_of_ne x out old ne] at runnable
    rcases parked k ne runnable with ⟨rfl, exec⟩ | ⟨away, exec, waits⟩
    · have saved : (x.select out (.entry k) j).saved (.thread k) = some out := by
        rw [select_saved, exec, update_self]
      refine ⟨?_, ?_⟩
      · rw [select_owner, update_self, exec]
      rw [select_context, update_self]
      refine ⟨fun ctx last => ?_, fun never => ?_⟩
      · exact Option.some.inj (saved.symm.trans last)
      cases saved.symm.trans never
    refine waits.of_eq ?_ ?_ ?_ rfl
    · rw [select_owner, update_of_ne away.symm]
    · rw [select_context, update_of_ne away.symm]
    rw [select_saved, update_of_ne exec.symm]
  · by_contra ne
    rw [select_state_of_ne x out old ne] at running
    exact idle k running
  · rw [select_exec, update_of_ne other.symm, target.own]
  rw [select_regs, update_of_ne other.symm]
  exact target.context

/-- What is known after a switch of a started library to the entry `j`. -/
structure SwitchedTo (base : UInt64) (s t : State) (j : Entry) : Prop where
  inv : Inv base t
  tracks : Tracks t j
  resumes : Resumes base s j t.regs

lemma setState_state_of_ne (s : State) (u : Tstate) (other : k ≠ i) :
    ((s.setState i u).arr k).state = (s.arr k).state := by
  rw [setState_arr, update_of_ne other]

lemma setState_state_self (s : State) (i : Entry) (u : Tstate) :
    ((s.setState i u).arr i).state = u := by rw [setState_arr, update_self]

lemma entry_ne (ne : i ≠ j) : ContextPtr.entry i ≠ .entry j := fun h => ne (ContextPtr.entry.inj h)

/-- The switches of `uthread_yield` and of `uthread_exit`, which leave the entry of the caller
runnable or free. -/
lemma Inv.leave (h : Inv base s) (started : s.started = true) (now : Tracks s i)
    (runnable : (s.arr j).state = .runnable) {u : Tstate} (left : u ≠ .running) (out : Context) :
    SwitchedTo base s ((s.setState i u).select out (.entry i) j) j := by
  have ne : i ≠ j := by
    rintro rfl
    cases runnable.symm.trans now.running
  have idle : ∀ k, ((s.setState i u).arr k).state ≠ .running := by
    intro k running
    by_cases same : k = i
    · rw [same, setState_state_self] at running
      exact left running
    rw [setState_state_of_ne s u same] at running
    exact same (now.only k running)
  have still : ∀ k, (s.arr k).state = .runnable → Waiting base (s.setState i u) k :=
    fun k waits => (h.waiting k waits).of_eq rfl rfl rfl rfl
  obtain ⟨waiting, tracks, resumes⟩ := select_spec out idle (still j runnable) (entry_ne ne)
    fun k _ waits => by
      by_cases same : k = i
      · exact .inl ⟨by rw [same], by rw [same]; exact now.executing⟩
      rw [setState_state_of_ne s u same] at waits
      refine .inr ⟨entry_ne (Ne.symm same), fun exec => same ?_, still k waits⟩
      exact Exec.thread.inj (exec.symm.trans now.executing)
  exact ⟨⟨waiting, .inr ⟨started, j, tracks⟩⟩, tracks, resumes.again, resumes.first⟩

lemma Inv.start (h : Inv base s) (before : Unstarted s) (runnable : (s.arr j).state = .runnable)
    (out : Context) : SwitchedTo base s (s.setStarted.select out .garbageContext j) j := by
  have still : ∀ k, (s.arr k).state = .runnable → Waiting base s.setStarted k :=
    fun k waits => (h.waiting k waits).of_eq rfl rfl rfl rfl
  have garbage : ∀ k, ContextPtr.garbageContext ≠ .entry k := fun _ => ContextPtr.noConfusion
  obtain ⟨waiting, tracks, resumes⟩ := select_spec (x := s.setStarted) out before.idle
    (still j runnable) (garbage j) fun k _ waits => by
      refine .inr ⟨garbage k, fun exec => ?_, still k waits⟩
      cases exec.symm.trans before.executing
  exact ⟨⟨waiting, .inr ⟨rfl, j, tracks⟩⟩, tracks, resumes.again, resumes.first⟩

lemma Inv.create (h : Inv base s) (startFunc : UInt64) (priority : SchedPriority)
    (order : s.started = false ∨ ∀ i, (s.arr i).state ≠ .free) :
    Inv base (uthreadCreate base s startFunc priority).1 := by
  rw [uthreadCreate]
  cases found : find? (fun i => decide ((s.arr i).state = .free))
    (finRange MAX_UTHREADS) with
  | none => exact h
  | some i =>
    have free : (s.arr i).state = .free := by simpa using find?_some found
    have before := h.unstarted (order.resolve_right fun full => full i free)
    refine ⟨fun j runnable => ?_, .inl ⟨before.started, before.executing, fun j running => ?_,
      .inr ⟨i, rfl⟩⟩⟩
    · by_cases same : j = i
      · subst same
        refine ⟨by simp, fun out last => ?_, fun _ => ?_⟩
        · simp at last
        simp
      simp only [update_of_ne same] at runnable
      refine (h.waiting j runnable).of_eq ?_ ?_ ?_ ?_
      · exact update_of_ne (entry_ne same) _ _
      · exact update_of_ne (entry_ne same) _ _
      · exact update_of_ne (fun h => same (Exec.thread.inj h)) _ _
      exact update_of_ne same _ _
    by_cases same : j = i
    · subst same
      simp at running
    simp only [update_of_ne same] at running
    exact before.idle j running

lemma Inv.setPriority (h : Inv base s) (priority : SchedPriority) :
    Inv base (s.setPriority i priority) := by
  have same : ∀ k, ((s.setPriority i priority).arr k).state = (s.arr k).state := by
    intro k
    rw [setPriority_arr]
    by_cases same : k = i
    · rw [same, update_self]
    rw [update_of_ne same]
  refine ⟨fun k runnable => ?_, ?_⟩
  · rw [same] at runnable
    exact (h.waiting k runnable).of_eq rfl rfl rfl rfl
  rcases h.phase with before | ⟨started, c, now⟩
  · refine .inl ⟨before.started, before.executing, fun k => ?_, ?_⟩
    · rw [same]
      exact before.idle k
    simpa only [same, setPriority_curr] using before.current
  refine .inr ⟨started, c, ?_, fun k => ?_, now.current, now.executing⟩
  · rw [same]
    exact now.running
  rw [same]
  exact now.only k

def target (s : State) : Label Ptr → Option Entry
  | .yield _ (.entry j) => some j
  | .exit _ (.entry j) => some j
  | .startAll _ (.entry j) => if s.started then none else some j
  | _ => none

lemma Inv.step (h : Inv base s) (order : InOrder s a)
    (next : UserThread.step pick base s a = some t) : (t.exited = true ∨ Inv base t) ∧ ∀ j,
    UserThread.target s a = some j → SwitchedTo base s t j := by
  have called := call_of_step next
  cases a with
  | create startFunc priority =>
    cases called
    exact ⟨.inr (h.create startFunc priority order), nofun⟩
  | setPriority priority =>
    cases called
    obtain ⟨i, now⟩ := h.tracks order
    refine ⟨.inr ?_, nofun⟩
    rw [call, uthreadSetPriority, atCurr_entry now.current]
    exact h.setPriority priority
  | yield out p =>
    cases called
    obtain ⟨started, select⟩ := order
    obtain ⟨i, now⟩ := h.tracks started
    rw [call, uthreadYield, atCurr_entry now.current]
    cases p with
    | null => exact select.elim
    | beyond => exact select.elim
    | one => exact ⟨.inr h, nofun⟩
    | entry j =>
      have switched := h.leave started now select (u := .runnable) Tstate.noConfusion out
      refine ⟨.inr switched.inv, fun k hk => ?_⟩
      cases hk
      exact switched
  | exit out p =>
    cases called
    obtain ⟨started, select⟩ := order
    obtain ⟨i, now⟩ := h.tracks started
    rw [call, uthreadExit, atCurr_entry now.current]
    cases p with
    | null => exact select.elim
    | beyond => exact select.elim
    | one => exact ⟨.inl rfl, nofun⟩
    | entry j =>
      have switched := h.leave started now select (u := .free) Tstate.noConfusion out
      refine ⟨.inr switched.inv, fun k hk => ?_⟩
      cases hk
      exact switched
  | startAll out p =>
    cases called
    cases started : s.started with
    | true =>
      rw [call, uthreadStartAll, if_pos started]
      refine ⟨.inr h, fun j hj => ?_⟩
      cases p with
      | entry k =>
        rw [UserThread.target, if_pos started] at hj
        cases hj
      | null => cases hj
      | one => cases hj
      | beyond => cases hj
    | false =>
      obtain ⟨found, select⟩ := order.resolve_left (started ▸ Bool.noConfusion)
      have before := h.unstarted started
      cases p with
      | null => exact select.elim
      | beyond => exact select.elim
      | one => exact absurd rfl found
      | entry j =>
        have current : ∃ c, s.setStarted.curr = .entry c := before.current.resolve_left
          fun free => by cases (free j).symm.trans select
        obtain ⟨c, here⟩ := current
        rw [call, uthreadStartAll, if_neg (started ▸ Bool.noConfusion)]
        rw [atCurr_entry here]
        have switched := h.start before select out
        refine ⟨.inr switched.inv, fun k hk => ?_⟩
        rw [UserThread.target, started] at hk
        cases hk
        exact switched

lemma inv_of_run (run : Run (step pick base) InOrder init as s) :
    s.exited = true ∨ Inv base s := by
  refine run.invariant (I := fun s => s.exited = true ∨ Inv base s) ?_ (.inr inv_init)
  rintro s a t (ended | inv) order next
  · exact absurd ended (not_exited_of_step next)
  exact (inv.step order next).1

/-- Whichever runnable entries the loops select, a thread that is switched to has the registers of
its own last `uswtch`, or those of its creation. -/
theorem contexts_are_isolated (run : Run (step pick base) InOrder init as s)
    (order : InOrder s a) (next : step pick base s a = some t) (switch : target s a = some j) :
    t.exec = .thread j ∧ (∀ out, s.saved (.thread j) = some out → t.regs = out) ∧
      (s.saved (.thread j) = none → t.regs .ra = s.start j ∧ t.regs .sp = stackEnd base j) := by
  rcases inv_of_run run with ended | inv
  · exact absurd ended (not_exited_of_step next)
  have switched := (inv.step order next).2 j switch
  exact ⟨switched.tracks.executing, switched.resumes.again, switched.resumes.first⟩

/-- A thread that has yielded with 7 in `s3` has it again, after another thread with 9 in it. -/
theorem yielded_register_is_restored :
    ∃ s t, Run (step pick 0x2000) InOrder init
      [.create 0x100 .medium, .create 0x200 .low, .startAll (fun _ => 1) (.entry 0),
        .yield (fun _ => 7) (.entry 1)] s ∧
      step pick 0x2000 s (.yield (fun _ => 9) (.entry 0)) = some t ∧ t.exec = .thread 0 ∧
        t.regs .s3 = 7 := by
  refine Run.exists_two_with (P := fun s => InOrder s (.yield (fun _ => 9) (.entry 0)) ∧
      ((s.saved (.thread 0)).any fun out => out .s3 = 7) = true ∧
      (step pick 0x2000 s (.yield (fun _ => 9) (.entry 0))).isSome = true)
    (by decide +kernel) fun s run ⟨order, saved, rest⟩ => ?_
  obtain ⟨out, last, seven⟩ := (Option.any_eq_true _ _).mp saved
  obtain ⟨t, next⟩ := Option.isSome_iff_exists.mp rest
  obtain ⟨exec, again, -⟩ := contexts_are_isolated run order next rfl
  exact ⟨t, next, exec, by rw [again out last]; exact of_decide_eq_true seven⟩

section
variable {a : Label (Nat × Nat)} {as : List (Label (Nat × Nat))} {mem : Nat × Nat}

def found (s : State) (mem : Nat × Nat) : Ptr :=
  match s.curr with
  | .entry c => nextThread mem s c
  | p => p

/-- After the first `uthread_start_all`, which finds a thread, no call of `uthread_create` finds a
free entry and no loop selects memory behind the table. -/
def Careful (s : State) : Label (Nat × Nat) → Prop
  | .create _ _ => s.started = false ∨ ∀ i, (s.arr i).state ≠ .free
  | .yield _ mem => s.started = true ∧ found s mem ≠ .beyond
  | .exit _ mem => s.started = true ∧ found s mem ≠ .beyond
  | .setPriority _ => s.started = true
  | .startAll _ mem => s.started = true ∨ ∃ j, found s mem = .entry j

instance (s : State) (a : Label (Nat × Nat)) : Decidable (Careful s a) := by
  cases a <;> unfold Careful <;> infer_instance

/-- The call with the outcome of its loop in the place of the memory that the loop reads. -/
def resolve (s : State) : Label (Nat × Nat) → Label Ptr
  | .create startFunc priority => .create startFunc priority
  | .yield out mem => .yield out (found s mem)
  | .exit out mem => .exit out (found s mem)
  | .setPriority priority => .setPriority priority
  | .startAll out mem => .startAll out (found s mem)

lemma found_entry (here : s.curr = .entry i) (mem : Nat × Nat) :
    found s mem = nextThread mem s i := by rw [found, here]

lemma found_selects (here : s.curr = .entry i) (inside : found s mem ≠ .beyond) :
    Selects s (found s mem) := by
  rw [found_entry here] at inside ⊢
  cases result : nextThread mem s i with
  | one => exact trivial
  | entry j => exact nextThread_runnable result
  | beyond => exact absurd result inside
  | null =>
    rcases nextThread_cases mem s i with ⟨none, -⟩ | ⟨k, eq, -⟩
    · cases result.symm.trans none
    have := result.symm.trans eq
    rw [Ptr.at] at this
    split_ifs at this

lemma call_resolve (h : Inv base s) (careful : Careful s a) :
    call nextThread base s a = call pick base s (resolve s a) ∧ InOrder s (resolve s a) := by
  cases a with
  | create startFunc priority => exact ⟨rfl, careful⟩
  | setPriority priority => exact ⟨rfl, careful⟩
  | yield out mem =>
    obtain ⟨started, inside⟩ := careful
    obtain ⟨i, now⟩ := h.tracks started
    refine ⟨?_, started, found_selects now.current inside⟩
    rw [resolve, found_entry now.current, call, call, uthreadYield, uthreadYield,
      atCurr_entry now.current, atCurr_entry now.current]
    rfl
  | exit out mem =>
    obtain ⟨started, inside⟩ := careful
    obtain ⟨i, now⟩ := h.tracks started
    refine ⟨?_, started, found_selects now.current inside⟩
    rw [resolve, found_entry now.current, call, call, uthreadExit, uthreadExit, atCurr_entry
      now.current, atCurr_entry now.current, nextThread_free now.running]
    rfl
  | startAll out mem =>
    cases started : s.started with
    | true =>
      refine ⟨?_, .inl started⟩
      rw [resolve, call, call, uthreadStartAll, uthreadStartAll, if_pos started, if_pos started]
    | false =>
      obtain ⟨j, first⟩ := careful.resolve_left (started ▸ Bool.noConfusion)
      have notStarted : ¬ s.started = true := by rw [started]; exact Bool.noConfusion
      cases here : s.curr with
      | entry c =>
        have inside : found s mem ≠ .beyond := by rw [first]; exact Ptr.noConfusion
        refine ⟨?_, .inr ⟨by rw [first]; exact Ptr.noConfusion, found_selects here inside⟩⟩
        have begun : s.setStarted.curr = .entry c := here
        rw [resolve, call, call, uthreadStartAll, uthreadStartAll, if_neg notStarted, if_neg
          notStarted, atCurr_entry begun, atCurr_entry begun, found_entry here]
        rfl
      | null =>
        rw [found, here] at first
        cases first
      | one =>
        rw [found, here] at first
        cases first
      | beyond =>
        rw [found, here] at first
        cases first

lemma run_pick_of_careful (run : Run (step nextThread base) Careful init as s) :
    ∃ bs, Run (step pick base) InOrder init bs s := by
  refine run.invariant (I := fun s => ∃ bs, Run (step pick base) InOrder init bs s) ?_
    ⟨[], .nil init⟩
  rintro s a t ⟨bs, before⟩ careful next
  rcases inv_of_run before with ended | inv
  · exact absurd ended (not_exited_of_step next)
  obtain ⟨same, order⟩ := call_resolve inv careful
  refine ⟨bs ++ [resolve s a], before.snoc order ?_⟩
  rw [step, ← same]
  exact next

/-- In careful runs the one running entry, `curr_thread` and the executing thread agree. -/
theorem running_thread_is_tracked (run : Run (step nextThread base) Careful init as s)
    (started : s.started = true) (alive : s.exited = false) : ∃ i, Tracks s i := by
  obtain ⟨bs, picked⟩ := run_pick_of_careful run
  rcases inv_of_run picked with ended | inv
  · cases ended.symm.trans alive
  · exact inv.tracks started

/-- No other call keeps this. -/
lemma careless_call_loses_track (started : s.started = true) (now : Tracks s i)
    (careless : ¬ Careful s a) : ¬ ∃ j, Tracks (call nextThread base s a) j := by
  rintro ⟨j, later⟩
  cases a with
  | setPriority priority => exact careless started
  | startAll out mem => exact careless (.inl started)
  | create startFunc priority =>
    rw [call, uthreadCreate] at later
    cases first : find? (fun i => decide ((s.arr i).state = .free))
      (finRange MAX_UTHREADS) with
    | none =>
      refine careless (.inr fun k free => ?_)
      exact find?_eq_none.mp first k (mem_finRange k) (decide_eq_true free)
    | some k =>
      rw [first] at later
      cases later.current
      have state := later.running
      simp at state
  | yield out mem =>
    have behind : found s mem = .beyond := by
      by_contra inside
      exact careless ⟨started, inside⟩
    have exec := later.executing
    rw [call, uthreadYield, atCurr_entry now.current, ← found_entry now.current, behind]
      at exec
    cases exec
  | exit out mem =>
    have behind : found s mem = .beyond := by
      by_contra inside
      exact careless ⟨started, inside⟩
    have exec := later.executing
    rw [call, uthreadExit, atCurr_entry now.current, nextThread_free now.running,
      ← found_entry now.current, behind] at exec
    cases exec

theorem two_threads_are_tracked :
    ∃ s, Run (step nextThread 0x2000) Careful init
      [.create 0x100 .medium, .create 0x200 .high, .startAll (fun _ => 0) (0, 0),
        .setPriority .medium, .yield (fun _ => 0) (0, 0)] s ∧ uthreadSelf s = .entry 0 ∧
        ∃ i, Tracks s i := by
  refine Run.exists_with (P := fun s => uthreadSelf s = .entry 0 ∧ s.started = true ∧
      s.exited = false)
    (by decide +kernel) fun s run ⟨self, started, alive⟩ => ?_
  exact ⟨self, running_thread_is_tracked run started alive⟩

/-- The running thread creates another one: `curr_thread` then points to the new thread. -/
theorem creator_loses_curr_thread :
    ∃ s, Run (step nextThread 0x2000) Free init
      [.create 0x100 .medium, .startAll (fun _ => 0) (0, 0), .create 0x200 .medium] s ∧
        s.started = true ∧ s.exited = false ∧ s.exec = .thread 0 ∧
          (s.arr 0).state = .running ∧ uthreadSelf s = .entry 1 ∧ ¬ ∃ i, Tracks s i := by
  refine Run.exists_with (P := fun s => s.started = true ∧ s.exited = false ∧ s.exec = .thread 0 ∧
      (s.arr 0).state = .running ∧ uthreadSelf s = .entry 1)
    (by decide +kernel) fun s run ⟨started, alive, exec, running, self⟩ => ?_
  refine ⟨started, alive, exec, running, self, ?_⟩
  rintro ⟨i, tracks⟩
  cases tracks.current.symm.trans self
  cases tracks.executing.symm.trans exec

end

end Xv6.UserThread
