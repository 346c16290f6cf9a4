import Xv6.LastThread

/-! The last threads of a process leave through `exit`. Once every live thread of
the process is in `kthread_exit`, nothing can be created, woken or taken by a
scheduler, so each step of a thread of the process brings it closer to its end, and
the one that remains publishes the process. -/
namespace Xv6
open Interleaving State Finset
open Function (update_of_ne update_self)
variable {n : Nat} {s s' : State n} {c d : Fin n} {k me : KtId} {p : ProcId} {pc pc' : Pc}

/-- The CPU is between the acquire and the release of the lock of `p`. -/
def Cpu.Holds (x : Cpu) (p : ProcId) : Prop :=
  ∃ k pc, k.1 = p ∧ pc.HoldsLock ∧
    (x = .thread k pc ∨ ∃ j t why, pc = .joinReap j t ∧ x = .panicked k pc why)

def LockHeld (s : State n) (p : ProcId) : Prop := ∀ d, s.pLock p = some d → (s.cpu d).Holds p

lemma Move.holds (h : Move s c me pc s') (holds : pc.HoldsLock) :
    s'.pLock me.1 = none ∨ (s'.cpu c).Holds me.1 := by
  cases h with
  | goto l => exact .inr ⟨me, _, rfl, l.holdsLock.mpr holds, .inl (update_self _ _ _)⟩
  | panic fault =>
    refine .inr ⟨me, pc, rfl, holds, .inr ?_⟩
    cases fault with
    | nullProcess => exact ⟨_, _, _, rfl, update_self _ _ _⟩
    | _ => exact absurd holds id
  | @wakeNext m => exact .inr ⟨me, .wakeScan (m + 1), rfl, trivial, .inl (update_self _ _ _)⟩
  | wakeDone | reap | reapStore | reapFault | joinSleep => exact .inl (update_self _ _ _)
  | _ => exact absurd holds id

lemma LockHeld.step (held : LockHeld s p) (h : Steps s c s') : LockHeld s' p := by
  have frame : ∀ d, s.pLock p = some d → d ≠ c → (s'.cpu d).Holds p := by
    intro d owner ne
    rw [h.other ne]
    exact held d owner
  have busy : s.pLock p = some c → (s.cpu c).pos ≠ none := by
    intro owner
    obtain ⟨k, pc, -, -, cpu | ⟨j, t, why, -, cpu⟩⟩ := held c owner <;>
      rw [cpu] <;> exact Option.some_ne_none _
  intro d owner
  cases h with
  | scan old =>
    refine frame d owner ?_
    rintro rfl
    exact busy owner old
  | dispatch k cpu =>
    rw [dispatch_pLock] at owner
    refine frame d owner ?_
    rintro rfl
    exact busy owner (by rw [cpu]; rfl)
  | @move me pc s' cpu m =>
    rcases m.pLock p with kept | ⟨-, taken, rfl, pc', holds, now⟩ | ⟨released, -⟩
    · have before : s.pLock p = some d := kept ▸ owner
      by_cases same : d = c
      · subst same
        obtain ⟨k, pc', rfl, holds, old | ⟨j, t, why, -, old⟩⟩ := held d before
        · obtain ⟨rfl, rfl⟩ := Cpu.thread.inj (cpu.symm.trans old)
          rcases m.holds holds with released | now
          · rw [released] at owner
            cases owner
          exact now
        cases cpu.symm.trans old
      exact frame d before same
    · obtain rfl := Option.some.inj (taken.symm.trans owner)
      exact ⟨me, pc', rfl, holds, .inl now⟩
    rw [released] at owner
    cases owner

/-- The thread is in `kthread_exit` and has not published itself. -/
def Cpu.leaving (k : KtId) : Cpu → Bool
  | .thread me (.lastScan _ _) | .thread me (.setZombie _) => me = k
  | _ => false

def AllLeaving (s : State n) (p : ProcId) : Prop :=
  ∀ i, (s.kt (p, i)).Live → ∃ c, (s.cpu c).leaving (p, i) = true

instance (s : State n) (p : ProcId) : Decidable (AllLeaving s p) :=
  inferInstanceAs (Decidable (∀ _, _))

/-- The part of `exit` before the process is published, without the join. -/
def Pc.Exiting : Pc → Prop
  | .exitStart _ | .exitLoop _ _ | .exitZombie _ => True
  | _ => False

def Pc.Leaving : Pc → Prop
  | .lastScan _ _ | .setZombie _ => True
  | pc => pc.Exiting

lemma Pc.Leaving.not_tail (h : pc.Leaving) : ¬ pc.Tail := by
  cases pc <;> first | exact fun tail => tail | exact absurd h fun leaves => leaves

lemma Pc.Exiting.leaving (h : pc.Exiting) : pc.Leaving := by
  cases pc <;> first | exact h | exact absurd h fun exits => exits

structure Departing (s : State n) (p : ProcId) : Prop where
  used : (s.proc p).state = .used
  sound : Sound s p
  held : LockHeld s p
  scanned : Scanned s p
  remains : Remains s p
  leaving : ∀ k, k.1 = p → (s.kt k).Live → ∃ c pc, s.cpu c = .thread k pc ∧ pc.Leaving
  alone : ∀ c k pc, On s c k pc → k.1 = p → pc.Exiting → ∀ j, j ≠ k.2 → (s.kt (p, j)).Dead

lemma leaving_inv {x : Cpu} (h : x.leaving k = true) : (∃ i status,
    x = .thread k (.lastScan i status)) ∨ ∃ status, x = .thread k (.setZombie status) := by
  unfold Cpu.leaving at h
  split at h
  · rename_i me i status
    rw [of_decide_eq_true h]
    exact .inl ⟨i, status, rfl⟩
  · rename_i me status
    rw [of_decide_eq_true h]
    exact .inr ⟨status, rfl⟩
  cases h

/-- When all threads are leaving, nothing of the process is on a CPU but they and
the ones in their tail. -/
lemma Core.leaves (core : Core s p)
    (leaving : ∀ k, k.1 = p → (s.kt k).Live → ∃ c pc, s.cpu c = .thread k pc ∧ pc.Leaving)
    (on : On s c k pc) (own : k.1 = p) : pc.Tail ∨ s.cpu c = .thread k pc ∧ pc.Leaving := by
  by_cases tail : pc.Tail
  · exact .inl tail
  obtain ⟨d, pc', cpu, leaves⟩ := leaving k own (core.live_of_on on own tail)
  obtain rfl := core.single c d k pc pc' on (on_of_thread cpu) own tail leaves.not_tail
  rw [On, cpu] at on
  cases on
  exact .inr ⟨cpu, leaves⟩

lemma Core.departing (core : Core s p) (used : (s.proc p).state = .used) (sound : Sound s p)
    (held : LockHeld s p) (scanned : Scanned s p) (remains : Remains s p) (all : AllLeaving s p) :
    Departing s p := by
  have leaving : ∀ k, k.1 = p → (s.kt k).Live →
      ∃ c pc, s.cpu c = .thread k pc ∧ pc.Leaving ∧ ¬ pc.Exiting := by
    rintro ⟨_, i⟩ rfl live
    obtain ⟨c, here⟩ := all i live
    rcases leaving_inv here with ⟨i', status, cpu⟩ | ⟨status, cpu⟩
    · exact ⟨c, _, cpu, trivial, id⟩
    exact ⟨c, _, cpu, trivial, id⟩
  refine ⟨used, sound, held, scanned, remains, ?_, ?_⟩
  · grind
  intro c k pc on own exits
  have tail := exits.leaving.not_tail
  obtain ⟨d, pc', cpu, leaves, inside⟩ := leaving k own (core.live_of_on on own tail)
  obtain rfl := core.single c d k pc pc' on (on_of_thread cpu) own tail leaves.not_tail
  rw [On, cpu] at on
  cases on
  exact absurd exits inside

lemma Departing.leaves (dep : Departing s p) (on : On s c k pc) (own : k.1 = p) :
    pc.Tail ∨ s.cpu c = .thread k pc ∧ pc.Leaving :=
  (dep.sound.core dep.used).leaves dep.leaving on own

lemma Departing.dead_step (dep : Departing s p) (h : Steps s c s') {i : Fin NKT}
    (dead : (s.kt (p, i)).Dead) : (s'.kt (p, i)).Dead := by
  rcases (dep.sound.core dep.used).dead_step h rfl dead with kept | ⟨me, f, cpu, own, -⟩
  · exact kept
  rcases dep.leaves (on_of_thread cpu) own.symm with tail | ⟨-, leaves⟩
  · exact absurd tail id
  exact absurd leaves id

lemma Departing.not_runnable (dep : Departing s p) (own : k.1 = p) :
    (s.kt k).tState ≠ .runnable := by
  intro ready
  have live : (s.kt k).Live := by
    unfold Kthread.Live
    rw [ready]
    exact ⟨ThreadState.noConfusion, ThreadState.noConfusion⟩
  obtain ⟨c, pc, cpu, leaves⟩ := dep.leaving k own live
  have run := (dep.sound.core dep.used).running c k pc (on_of_thread cpu) own leaves.not_tail
  rw [ready] at run
  cases run

lemma Move.leaving (h : Move s c k pc s') (leaves : pc.Leaving) (other : k.1 ≠ initproc)
    (alone : pc.Exiting → ∀ j, j ≠ k.2 → (s.kt (k.1, j)).Dead) (used : (s'.proc k.1).state = .used)
    (live : (s'.kt k).Live) : ∃ pc', s'.cpu c = .thread k pc' ∧ pc'.Leaving := by
  cases h with
  | @goto _ pc' l =>
    refine ⟨pc', update_self _ _ _, ?_⟩
    cases l <;> trivial
  | panic fault =>
    cases fault with
    | init eq => exact absurd eq other
    | _ => exact absurd leaves id
  | zombie status =>
    simp only [State.goto, setCpu_kt, setKt_kt, update_self] at live
    exact absurd live (Kthread.dead_exit _ _)
  | exitDoom inside ne alive => exact absurd alive (alone trivial _ ne)
  | exitZombie free =>
    simp only [State.goto, setCpu_proc, setZombie_proc, update_self] at used
    cases used
  | _ => exact absurd leaves id

lemma Departing.enters (dep : Departing s p) (cpu : s.cpu c = .thread k pc) (own : k.1 = p)
    (arrives : Arrives s k pc pc') (exits : pc'.Exiting) {j : Fin NKT} (other : j ≠ k.2) :
    (s.kt (p, j)).Dead := by
  have known : pc.Exiting → (s.kt (p, j)).Dead := fun before =>
    dep.alone c k pc (on_of_thread cpu) own before j other
  cases arrives with
  | stay => exact known exits
  | go l =>
    cases l with
    | call a0 call eq =>
      exact (dep.leaves (on_of_thread cpu) own).elim (absurd · id) fun h => absurd h.2 id
    | last outside =>
      exact dep.scanned c k _ (on_of_thread cpu) own j
        (lt_of_lt_of_le j.isLt (Nat.le_of_not_lt outside)) other
    | exitEnter | exitSkip | exitDone => exact known trivial
    | joinNone outside eq =>
      exact (dep.leaves (on_of_thread cpu) own).elim (absurd · id) fun h => absurd h.2 id
    | _ => exact absurd exits id
  | reap r eq =>
    exact (dep.leaves (on_of_thread cpu) own).elim (absurd · id) fun h => absurd h.2 id
  | _ => exact absurd exits id

variable {l : Label n}

lemma Departing.step (dep : Departing s p) (other : p ≠ initproc) (guard : UnracedLeave p s l)
    (h : Steps s l.cpu s') (used : (s'.proc p).state = .used) :
    Departing s' p where
  used := used
  sound := dep.sound.step h
  held := dep.held.step h
  scanned := dep.scanned.step (dep.sound.core dep.used) guard h
  remains := dep.remains.step dep.sound dep.used guard h
  leaving := by
    rintro ⟨q, i⟩ rfl live
    have before : (s.kt (q, i)).Live := by
      by_contra dead
      exact dep.dead_step h dead live
    obtain ⟨c, pc, cpu, leaves⟩ := dep.leaving (q, i) rfl before
    by_cases same : c = l.cpu
    · subst same
      have m := h.move_of cpu
      obtain ⟨pc', now, still⟩ := m.leaving leaves other
        (fun exits j ne => dep.alone l.cpu _ pc (on_of_thread cpu) rfl exits j ne) used live
      exact ⟨l.cpu, pc', now, still⟩
    exact ⟨c, pc, by rw [h.other same, cpu], leaves⟩
  alone := by
    intro c k pc on own exits j ne
    apply dep.dead_step h
    by_cases same : c = l.cpu
    · subst same
      rcases h.on_own on with ⟨ready, -, -⟩ | ⟨pc', cpu, -, arrives⟩
      · exact absurd ready (dep.not_runnable own)
      exact dep.enters cpu own arrives exits ne
    exact dep.alone c k pc ((h.on_other same).mp on) own exits j ne

def Pc.weight : Pc → Nat
  | .lastScan i _ => NPROC * NKT + 5 + (NKT - i)
  | .setZombie _ => NPROC * NKT + 4
  | .wakeLock => NPROC * NKT + 3
  | .wakeScan m => 2 + (NPROC * NKT - m)
  | .exitStart _ => NKT + 3
  | .exitLoop i _ => 2 + (NKT - i)
  | .exitSched | .exitZombie _ => 1
  | _ => 0

def Cpu.weight (p : ProcId) : Cpu → Nat
  | .thread me pc => if me.1 = p then pc.weight else 0
  | _ => 0

def rank (p : ProcId) (s : State n) : Nat := ∑ c, (s.cpu c).weight p

def Pc.Waits : Pc → Prop
  | .wakeLock | .exitZombie _ => True
  | _ => False

lemma enabled_iff (cpu : s.cpu c = .thread k pc) (leaves : pc.Tail ∨ pc.Leaving) :
    Enabled Label.cpu step s c ↔ (pc.Waits → s.pLock k.1 = none) := by
  constructor
  · rintro ⟨l, t, rfl, h⟩ waits
    simp only [step, cpu] at h
    by_contra taken
    cases pc <;> first | exact waits | skip
    all_goals cases act : l.act <;> rw [act] at h <;> simp only [threadStep, taken, if_false] at h <;> cases h
  intro free
  have go : ∃ t, threadStep s c k pc .go = some t := by
    cases pc with
    | wakeLock | exitZombie =>
      simp only [threadStep, free trivial, if_true]
      exact ⟨_, rfl⟩
    | lastScan | wakeScan | exitSched | exitStart | exitLoop =>
      simp only [threadStep]
      split_ifs <;> exact ⟨_, rfl⟩
    | setZombie status => exact ⟨_, rfl⟩
    | _ => exact absurd leaves (by rintro (h | h) <;> exact h)
  obtain ⟨t, h⟩ := go
  exact ⟨⟨c, .go⟩, t, rfl, by simp only [step, cpu, h]⟩

lemma Move.weight (h : Move s c k pc s') (leaves : pc.Tail ∨ pc.Leaving) :
    (s'.cpu c).weight k.1 < pc.weight := by
  have there : ∀ (t : State n) (next : Pc),
      ((t.goto c k next).cpu c).weight k.1 = next.weight := by
    intro t next
    simp only [State.goto, setCpu_cpu, update_self, Cpu.weight, if_true]
  cases h with
  | goto l =>
    rw [there]
    cases l with
    | notLast inside | lastNext inside | last inside | exitEnter inside | exitSkip inside
    | exitDone inside =>
      simp only [Pc.weight, NPROC, NKT] at inside ⊢
      omega
    | _ => exact absurd leaves (by rintro (h | h) <;> exact h)
  | zombie | wakeLock | wakeNext | wakeDone | exitZombie =>
    rw [there]
    simp only [Pc.weight]
    omega
  | panic fault =>
    simp only [setCpu_cpu, update_self, Cpu.weight]
    cases fault with
    | sched | init => exact Nat.succ_pos _
    | _ => exact absurd leaves (by rintro (h | h) <;> exact h)
  | exitSched =>
    simp only [sched_cpu, update_self, Cpu.weight]
    decide
  | exitDoom =>
    unfold doomed
    rw [there]
    simp only [Pc.weight]
    omega
  | _ => exact absurd leaves (by rintro (h | h) <;> exact h)

def Mine (p : ProcId) (s : State n) (c : Fin n) : Prop := ∃ k pc, s.cpu c = .thread k pc ∧ k.1 = p

lemma Departing.rank_lt (dep : Departing s p) (h : Steps s c s') (mine : Mine p s c) :
    rank p s' < rank p s := by
  obtain ⟨k, pc, cpu, rfl⟩ := mine
  have drop : (s'.cpu c).weight k.1 < (s.cpu c).weight k.1 := by
    have m := h.move_of cpu
    have less := m.weight ((dep.leaves (on_of_thread cpu) rfl).imp_right And.right)
    simpa only [cpu, Cpu.weight, if_true] using less
  refine sum_lt_sum (fun d _ => ?_) ⟨c, mem_univ c, drop⟩
  by_cases same : d = c
  · subst same
    exact drop.le
  rw [h.other same]

lemma Departing.rank_le (dep : Departing s p) (h : Steps s c s') (foreign : ¬ Mine p s c) :
    rank p s' ≤ rank p s := by
  have none : (s'.cpu c).weight p = 0 := by
    cases now : s'.cpu c with
    | thread k pc =>
      simp only [Cpu.weight, ite_eq_right_iff]
      intro own
      rcases h.on_own (on_of_thread now) with ⟨ready, -, -⟩ | ⟨pc', cpu, -, -⟩
      · exact absurd ready (dep.not_runnable own)
      exact absurd ⟨k, pc', cpu, own⟩ foreign
    | _ => rfl
  refine sum_le_sum fun d _ => ?_
  by_cases same : d = c
  · subst same
    rw [none]
    exact Nat.zero_le _
  rw [h.other same]

lemma Steps.pLock_foreign (h : Steps s c s') (foreign : ¬ Mine p s c) : s'.pLock p = s.pLock p := by
  cases h with
  | scan => rfl
  | dispatch k => rw [dispatch_pLock]
  | move cpu m =>
    rcases m.pLock p with kept | ⟨-, -, own, -⟩ | ⟨-, own, -⟩
    · exact kept
    · exact absurd ⟨_, _, cpu, own⟩ foreign
    exact absurd ⟨_, _, cpu, own⟩ foreign

lemma Departing.enabled_kept (dep : Departing s p) (h : Steps s c s')
    (foreign : ¬ Mine p s c) (mine : Mine p s d) (enabled : Enabled Label.cpu Xv6.step s d) :
    Mine p s' d ∧ Enabled Label.cpu Xv6.step s' d := by
  have ne : d ≠ c := fun same => foreign (same ▸ mine)
  obtain ⟨k, pc, cpu, rfl⟩ := mine
  have leaves := (dep.leaves (on_of_thread cpu) rfl).imp_right And.right
  have now : s'.cpu d = .thread k pc := by rw [h.other ne, cpu]
  refine ⟨⟨k, pc, now, rfl⟩, (enabled_iff now leaves).mpr fun waits => ?_⟩
  rw [h.pLock_foreign foreign]
  exact (enabled_iff cpu leaves).mp enabled waits

/-- Some thread of the process can move: if the one that remains waits for
`p->lock`, then its holder can. -/
lemma Departing.helpful (dep : Departing s p) :
    ∃ c, Mine p s c ∧ Enabled Label.cpu Xv6.step s c := by
  obtain ⟨i, live, -⟩ := dep.remains
  obtain ⟨c, pc, cpu, leaves⟩ := dep.leaving (p, i) rfl live
  cases lock : s.pLock p with
  | none => exact ⟨c, ⟨_, pc, cpu, rfl⟩, (enabled_iff cpu (.inr leaves)).mpr fun _ => lock⟩
  | some d =>
    obtain ⟨k, pc', rfl, holds, cpu' | ⟨j, t, why, rfl, cpu'⟩⟩ := dep.held d lock
    · have leaves' := (dep.leaves (on_of_thread cpu') rfl).imp_right And.right
      refine ⟨d, ⟨k, pc', cpu', rfl⟩, (enabled_iff cpu' leaves').mpr fun waits => ?_⟩
      cases pc' <;> first | exact absurd waits id | exact absurd holds id
    have on : On s d k (.joinReap j t) := by rw [On, cpu']; rfl
    rcases dep.leaves on rfl with tail | ⟨-, leaves'⟩
    · exact absurd tail id
    exact absurd leaves' id

lemma Departing.zombie (ρ : InfRun Xv6.step (UnracedLeave (n := n) p)) (fair : ρ.Fair Label.cpu)
    (other : p ≠ initproc) {T : Nat} (start : Departing (ρ.state T) p) :
    ∃ k, T ≤ k ∧ ((ρ.state k).proc p).state = .zombie := by
  refine ρ.eventually fair (I := fun s => Departing s p) (Q := fun s => (s.proc p).state = .zombie)
    (M := Mine p) (μ := rank p) ?_ ?_ ?_ ?_ start
  · intro s l t dep _ guard h
    have steps := steps_of_step h
    rcases steps.procState p with kept | ⟨zombie, -⟩
    · exact .inl (dep.step other guard steps (kept.trans dep.used))
    exact .inr zombie
  · intro s l t dep _ _ h mine
    exact dep.rank_lt (steps_of_step h) mine
  · intro s l t dep _ _ h foreign
    exact ⟨dep.rank_le (steps_of_step h) foreign,
      fun d mine enabled => dep.enabled_kept (steps_of_step h) foreign mine enabled⟩
  intro s dep _
  exact dep.helpful

structure Leave (s : State n) (p : ProcId) : Prop where
  started : (s.proc p).state = .used ∨ (s.proc p).state = .zombie
  sound : Sound s p
  held : LockHeld s p
  scanned : (s.proc p).state = .used → Scanned s p
  remains : (s.proc p).state = .used → Remains s p

lemma Leave.step (inv : Leave s p) (guard : UnracedLeave p s l) (h : Steps s l.cpu s') :
    Leave s' p where
  started := by
    rcases h.procState p with kept | ⟨zombie, -⟩
    · rw [kept]
      exact inv.started
    exact .inr zombie
  sound := inv.sound.step h
  held := inv.held.step h
  scanned used := by
    have before := h.used_before used
    exact (inv.scanned before).step (inv.sound.core before) guard h
  remains used := by
    have before := h.used_before used
    exact (inv.remains before).step inv.sound before guard h

lemma leave_init {live : ProcId → Bool} (hp : live p = true) : Leave (init n live) p where
  started := .inl (by simp only [init, hp, if_true])
  sound := sound_init live p
  held _ owner := nomatch owner
  scanned _ _ _ _ on := nomatch on
  remains _ := by
    refine ⟨⟨0, by decide⟩, ?_, ?_⟩
    · simp only [init, hp, Kthread.Live, and_self, if_true, ne_eq, reduceCtorEq, not_false_eq_true]
    rintro ⟨c, told⟩
    cases told

theorem live_process_keeps_a_thread (n : Nat) (live : ProcId → Bool) (p : ProcId)
    (hp : live p = true) :
    (∀ as s, Run step (UnracedLeave p) (init n live) as s → (s.proc p).state = .used →
      HasLiveThread s p ∨ InExit s p) ∧
    (p ≠ initproc → ∀ ρ : InfRun step (UnracedLeave (n := n) p), ρ.state 0 = init n live →
      ρ.Fair Label.cpu → ∀ T, AllLeaving (ρ.state T) p →
        ∃ k, T ≤ k ∧ ((ρ.state k).proc p).state = .zombie) := by
  constructor
  · intro as s run used
    have inv : Leave s p := run.invariant (I := fun s => Leave s p)
      (fun _ _ _ inv guard h => inv.step guard (steps_of_step h)) (leave_init hp)
    obtain ⟨i, alive, -⟩ := inv.remains used
    exact .inl ⟨i, alive⟩
  intro other ρ start fair T all
  have inv : Leave (ρ.state T) p := ρ.invariant (I := fun s => Leave s p)
    (fun _ _ _ inv guard h => inv.step guard (steps_of_step h))
    (start ▸ leave_init hp) T (Nat.zero_le T)
  rcases inv.started with used | zombie
  · exact Departing.zombie ρ fair other ((inv.sound.core used).departing used inv.sound inv.held
      (inv.scanned used) (inv.remains used) all)
  · exact ⟨T, le_rfl, zombie⟩

/-- Two threads call `kthread_exit` at once: each check finds the other thread
running, and then both publish themselves. -/
def crossedExits : List (Label 2) :=
  [⟨0, .go⟩, ⟨0, .go⟩, ⟨0, .go⟩, ⟨0, .call (.kthreadCreate 0 0 0)⟩, ⟨0, .go⟩, ⟨0, .go⟩, ⟨0, .go⟩,
    ⟨1, .go⟩, ⟨1, .go⟩, ⟨1, .go⟩, ⟨1, .go⟩,
    ⟨0, .call (.kthreadExit 0)⟩, ⟨0, .go⟩, ⟨0, .go⟩, ⟨1, .call (.kthreadExit 0)⟩, ⟨1, .go⟩,
    ⟨0, .go⟩, ⟨1, .go⟩]

theorem crossedExits_leave_no_thread : ∃ s, Run step Free (init 2 onlyChild) crossedExits s ∧
    (s.proc child).state = .used ∧ ¬ HasLiveThread s child ∧ ¬ InExit s child :=
  Run.exists_of_execute (by decide +kernel)

def AllIdle (s : State n) : Prop :=
  (∀ c, (s.cpu c).pos = none) ∧ ∀ k, (s.kt k).tState ≠ .runnable

instance (s : State n) : Decidable (AllIdle s) := inferInstanceAs (Decidable (_ ∧ _))

lemma AllIdle.unraced (idle : AllIdle s) : UnracedLeave p s l := by
  have still := idle.1 l.cpu
  constructor <;> intro k here <;> cases cpu : s.cpu l.cpu <;> rw [cpu] at here still <;>
    first | cases here | cases still

lemma AllIdle.step (idle : AllIdle s) (c : Fin n) :
    ∃ t, Xv6.step s ⟨c, .go⟩ = some t ∧ AllIdle t := by
  have quiet : ∀ x : Cpu, x.pos = none → AllIdle (s.setCpu c x) := by
    intro x none
    refine ⟨fun d => ?_, idle.2⟩
    by_cases same : d = c
    · subst same
      simpa only [setCpu_cpu, update_self] using none
    simpa only [setCpu_cpu, update_of_ne same] using idle.1 d
  have still := idle.1 c
  cases cpu : s.cpu c with
  | scanProc p =>
    simp only [Xv6.step, cpu]
    split_ifs <;> exact ⟨_, rfl, quiet _ rfl⟩
  | scanKt p i =>
    simp only [Xv6.step, cpu, idle.2, if_false]
    split_ifs <;> exact ⟨_, rfl, quiet _ rfl⟩
  | thread | panicked => rw [cpu] at still; cases still

/-- The only thread of the process is in the check of `if_last_thread`. -/
def callExit : List (Label 1) :=
  [⟨0, .go⟩, ⟨0, .go⟩, ⟨0, .go⟩, ⟨0, .call (.kthreadExit 0)⟩]

def runExit : List (Label 1) := List.replicate 25 ⟨0, .go⟩

theorem callExit_reaches_zombie :
    ∃ ρ : InfRun step (UnracedLeave (n := 1) child), ρ.state 0 = init 1 onlyChild ∧
      (HasLiveThread (ρ.state 4) child ∨ InExit (ρ.state 4) child) ∧
      AllLeaving (ρ.state 4) child ∧ ∃ k, 4 ≤ k ∧ ((ρ.state k).proc child).state = .zombie := by
  obtain ⟨s, called, ⟨used, all⟩, rest⟩ : ∃ s,
      Run step (UnracedLeave child) (init 1 onlyChild) callExit s ∧
        ((s.proc child).state = .used ∧ AllLeaving s child) ∧
        (execute step (UnracedLeave child) s runExit).any (fun t => decide (AllIdle t)) = true :=
    Run.exists_of_execute (by decide +kernel)
  obtain ⟨t, ran, idle⟩ := Run.exists_of_execute rest
  obtain ⟨ρ₀, start₀⟩ := InfRun.exists_of_closed (G := UnracedLeave child) (I := AllIdle)
    (fun s idle => by
      obtain ⟨t, next, still⟩ := idle.step 0
      exact ⟨⟨0, .go⟩, t, idle.unraced, next, still⟩) idle
  obtain ⟨ρ₁, start₁, -⟩ := ρ₀.exists_prepend ran start₀
  obtain ⟨ρ, start, at4⟩ := ρ₁.exists_prepend called start₁
  have fair : ρ.Fair Label.cpu := fun c T _ => ⟨T, le_rfl, Subsingleton.elim _ _⟩
  replace at4 : ρ.state 4 = s := at4
  have main := live_process_keeps_a_thread 1 onlyChild child (by decide)
  rw [← at4] at used all called
  exact ⟨ρ, start, main.1 callExit _ called used, all, main.2 (by decide) ρ start fair 4 all⟩

end Xv6
