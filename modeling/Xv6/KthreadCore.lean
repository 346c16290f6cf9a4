import Xv6.KthreadStep

/-! The invariant of the kernel-thread machine that holds without any condition
on the interleaving, for each process until `exit` starts to overwrite its thread
table. A thread that has published `ZOMBIE_t` in `kthread_exit` and has not
switched away yet is in its tail; nothing is claimed about the entry of such a
thread, since a joiner may have freed it and a creator may have taken it. -/
namespace Xv6
open Interleaving State Option Kthread
open Function (update update_of_ne update_self)
variable {n : Nat} {s s' : State n} {c d : Fin n} {k me : KtId} {p : ProcId} {pc pc' : Pc}

/-- The CPU `c` executes the thread `me`, or has panicked in it, at `pc`. -/
def On (s : State n) (c : Fin n) (me : KtId) (pc : Pc) : Prop := (s.cpu c).pos = some (me, pc)

/-- The part of `kthread_exit` after the entry has been published as a zombie. -/
def Pc.Tail : Pc → Prop
  | .wakeLock | .wakeScan _ | .exitSched => True
  | _ => False

def Pc.HoldsLock : Pc → Prop
  | .wakeScan _ | .joinTest _ _ | .joinReap _ _ | .joinSleep _ _ => True
  | _ => False

lemma Pc.HoldsLock.not_back (h : pc.HoldsLock) : ¬ pc.Back := by
  cases pc <;> first | exact fun back => back | exact absurd h fun holds => holds

lemma on_of_thread (h : s.cpu c = .thread me pc) : On s c me pc := by simp only [On, h, Cpu.pos]

lemma on_goto (s : State n) : On (s.goto c me pc') c k pc ↔ k = me ∧ pc = pc' := by
  simp only [On, State.goto, setCpu_cpu, update_self, Cpu.pos, some.injEq, Prod.mk.injEq]
  exact ⟨fun h => ⟨h.1.symm, h.2.symm⟩, fun h => ⟨h.1.symm, h.2.symm⟩⟩

lemma not_on_sched (s : State n) {ctx : Context} : ¬ On (s.sched c me ctx) c k pc := by
  simp only [On, sched_cpu, update_self, Cpu.pos]
  exact nofun

lemma on_panicked (s : State n) {why : Panic} :
    On (s.setCpu c (.panicked me pc' why)) c k pc ↔ k = me ∧ pc = pc' := by
  simp only [On, setCpu_cpu, update_self, Cpu.pos, some.injEq, Prod.mk.injEq]
  exact ⟨fun h => ⟨h.1.symm, h.2.symm⟩, fun h => ⟨h.1.symm, h.2.symm⟩⟩

lemma Steps.on_other (h : Steps s c s') (ne : d ≠ c) : On s' d k pc ↔ On s d k pc := by
  simp only [On, h.other ne]

lemma Local.not_tail (h : Local s me pc pc') : ¬ pc.Tail ∧ ¬ pc'.Tail := by
  cases h with
  | call a0 k eq =>
    subst eq
    cases k <;> exact ⟨id, id⟩
  | @joinNone _ j _ _ eq =>
    subst eq
    unfold Join.back
    cases j.ret <;> exact ⟨id, id⟩
  | _ => exact ⟨id, id⟩

lemma Local.holdsLock (h : Local s me pc pc') : pc'.HoldsLock ↔ pc.HoldsLock := by
  cases h with
  | call a0 k eq =>
    subst eq
    cases k <;> exact Iff.rfl
  | @joinNone _ j _ _ eq =>
    subst eq
    unfold Join.back
    cases j.ret <;> exact Iff.rfl
  | _ => exact Iff.rfl

lemma Move.arrives (h : Move s c me pc s') (on : On s' c k pc') :
    k = me ∧ Arrives s me pc pc' := by
  have there : ∀ {t : State n} {next : Pc}, On (t.goto c me next) c k pc' →
      Arrives s me pc next → k = me ∧ Arrives s me pc pc' := by
    intro t next on arrives
    obtain ⟨rfl, rfl⟩ := (on_goto t).mp on
    exact ⟨rfl, arrives⟩
  cases h with
  | goto l => exact there on (.go l)
  | panic fault =>
    obtain ⟨rfl, rfl⟩ := (on_panicked s).mp on
    exact ⟨rfl, .stay fault⟩
  | create h => exact there on (.create h)
  | zombie status => exact there on (.zombie status)
  | wakeLock => exact there on .wakeLock
  | @wakeNext m => exact there on (.wakeNext m)
  | @wakeDone m => exact there on (.wakeDone m)
  | @kill i ktid => exact there on (.kill i ktid)
  | joinLock => exact there on .joinLock
  | reap | reapStore => exact there on (.reap 0 rfl)
  | reapFault => exact there on (.reap (-1) rfl)
  | exitDoom h other live => exact there on (.exitDoom other live)
  | execDoom h other live => exact there on (.execDoom other live)
  | @exitZombie status => exact there on (.exitZombie status)
  | @exitMark i status => exact there on (.exitMark i status)
  | @wakeupNext chan m => exact there on (.wakeupNext chan m)
  | exitSched | joinSleep | exitLeave | sleepOn => exact absurd on (not_on_sched _)

/-- The acting thread is outside the tail after its step. Then it was outside the
tail before and has neither published itself nor slept. -/
lemma Arrives.stays (h : Arrives s me pc pc') (out : ¬ pc'.Tail) :
    ¬ pc.Tail ∧ (∀ status, pc ≠ .setZombie status) ∧ pc.sleepChan me = none := by
  cases h with
  | go l =>
    refine ⟨l.not_tail.1, ?_, ?_⟩
    · rintro status rfl
      cases l
    cases l <;> rfl
  | stay fault =>
    refine ⟨out, ?_, ?_⟩
    · rintro status rfl
      cases fault
    cases fault <;> rfl
  | zombie | wakeLock | wakeNext | wakeDone => exact absurd trivial out
  | _ => exact ⟨id, fun _ h => (nomatch h), rfl⟩

/-- Where a thread goes on that has just been taken by the scheduler. -/
inductive Resumes (s : State n) (k : KtId) : Pc → Prop
  | user : Resumes s k (.user 0)
  | join {j t} : s.context k = .join j t → Resumes s k (.joinLock j t)
  | zombie : s.context k = .zombie → Resumes s k .exitSched

lemma on_dispatch (s : State n) (on : On (dispatch s c k) c me pc) :
    me = k ∧ Resumes s k pc ∧ ((dispatch s c k).kt k).tState = .running := by
  unfold dispatch at on ⊢
  cases h : s.context k <;> simp only [h] at on ⊢
  all_goals
    simp only [On, setCpu_cpu, update_self, Cpu.pos, some.injEq, Prod.mk.injEq] at on
    obtain ⟨rfl, rfl⟩ := on
    simp only [setCpu_kt, setKt_kt, update_self, and_true, true_and]
  · exact .user
  · exact .join h
  · exact .user
  exact .zombie h

lemma Steps.on_own (h : Steps s c s') (on : On s' c k pc') :
    ((s.kt k).tState = .runnable ∧ Resumes s k pc' ∧ (s'.kt k).tState = .running) ∨ ∃ pc,
    s.cpu c = .thread k pc ∧ Move s c k pc s' ∧ Arrives s k pc pc' := by
  cases h with
  | scan _ idle =>
    simp only [On, setCpu_cpu, update_self, idle] at on
    cases on
  | dispatch i cpu ready =>
    obtain ⟨rfl, resumed, run⟩ := on_dispatch s on
    exact .inl ⟨ready, resumed, run⟩
  | move cpu m =>
    obtain ⟨rfl, arrives⟩ := m.arrives on
    exact .inr ⟨_, cpu, m, arrives⟩

/-- A running entry stays so unless its own thread publishes itself or sleeps, a
joiner frees it, or `exit` marks it. -/
lemma EntryStep.running {t : Kthread} (h : EntryStep s c k t)
    (run : (s.kt k).tState = .running) : t.tState = .running ∨ (∃ pc, s.cpu c = .thread k pc ∧
    ((∃ status, pc = .setZombie status) ∨ ∃ chan, pc.sleepChan k = some chan)) ∨
    (∃ me j, s.cpu c = .thread me (.joinReap j k.2) ∧ k.1 = me.1) ∨ (∃ me i status,
    s.cpu c = .thread me (.exitMark i status) ∧ k.1 = me.1 ∧ (k = me → ¬ i < me.2)) := by
  cases h with
  | same => exact .inl run
  | create _ _ free => rw [run] at free; cases free
  | zombie cpu => exact .inr (.inl ⟨_, cpu, .inl ⟨_, rfl⟩⟩)
  | wake _ _ _ asleep => rw [run] at asleep; cases asleep
  | kill => exact .inl (by simp only [kthreadKill, run, reduceCtorEq, if_false])
  | doom => exact .inl run
  | reap cpu own => exact .inr (.inr (.inl ⟨_, _, cpu, own⟩))
  | sleep cpu asleep => exact .inr (.inl ⟨_, cpu, .inr ⟨_, asleep⟩⟩)
  | mark cpu own late => exact .inr (.inr (.inr ⟨_, _, _, cpu, own, late⟩))
  | dispatch _ ready => rw [run] at ready; cases ready

variable {chan : Chan} {i : Nat} {status : Int}

lemma Pc.not_tail_of_sleep (h : pc.sleepChan me = some chan) : ¬ pc.Tail := by
  cases pc <;> first | exact fun h => h | cases h

structure Core (s : State n) (p : ProcId) : Prop where
  running : ∀ c k pc, On s c k pc → k.1 = p → ¬ pc.Tail → (s.kt k).tState = .running
  single : ∀ c d k pc pc', On s c k pc → On s d k pc' → k.1 = p → ¬ pc.Tail → ¬ pc'.Tail → c = d
  target : ∀ c k j t, On s c k (.joinReap j t) → k.1 = p → (s.kt (p, t)).tState = .zombie
  locked : ∀ c k pc, On s c k pc → k.1 = p → pc.HoldsLock → s.pLock p = some c

/-- The step does not overwrite the entry of a live sibling in the last loop of `exit`. -/
def Calm (s : State n) (c : Fin n) (p : ProcId) : Prop :=
  ∀ me i status, s.cpu c = .thread me (.exitMark i status) → me.1 = p →
    ∀ j, j ≠ me.2 → (s.kt (p, j)).Dead

lemma Core.not_on_marked (core : Core s p) (h : Steps s c s')
    (cpu : s.cpu c = .thread k (.exitMark i status)) (late : ¬ i < k.2) (on : On s' d k pc)
    (own : k.1 = p) (out : ¬ pc.Tail) : False := by
  by_cases same : d = c
  · subst same
    cases h.move_of cpu with
    | goto l => cases l
    | panic fault => cases fault
    | exitMark early => exact late early
    | exitLeave => exact not_on_sched _ on
  exact same (core.single d c k pc _ ((h.on_other same).mp on) (on_of_thread cpu) own out
    id)

lemma Core.running_step (core : Core s p) (h : Steps s c s') (calm : Calm s c p)
    (on : On s' d k pc) (own : k.1 = p) (out : ¬ pc.Tail) : (s'.kt k).tState = .running := by
  have moved : ∀ run : (s.kt k).tState = .running,
      (∀ pc, s.cpu c = .thread k pc → (∀ status, pc ≠ .setZombie status) ∧ pc.sleepChan k = none) →
      (s'.kt k).tState = .running := by
    intro run still
    rcases (h.entry k).running run with kept | ⟨pc, cpu, leaves⟩ | ⟨me, j, cpu, same⟩ |
      ⟨me, i, status, cpu, same, late⟩
    · exact kept
    · obtain ⟨notZombie, awake⟩ := still pc cpu
      rcases leaves with ⟨status, eq⟩ | ⟨chan, eq⟩
      · exact absurd eq (notZombie status)
      rw [awake] at eq
      cases eq
    · have dead := core.target c me j k.2 (on_of_thread cpu) (same.symm.trans own)
      rw [← own] at dead
      rw [run] at dead
      cases dead
    by_cases eq : k = me
    · subst eq
      exact (core.not_on_marked h cpu (late rfl) on own out).elim
    have dead := calm me i status cpu (same.symm.trans own) k.2 fun idx => eq (Prod.ext same idx)
    rw [← own] at dead
    exact absurd (live_of_running run) dead
  by_cases same : d = c
  · subst same
    rcases h.on_own on with ⟨-, -, run⟩ | ⟨pc', cpu, -, arrives⟩
    · exact run
    obtain ⟨before, notZombie, awake⟩ := arrives.stays out
    apply moved (core.running d k _ (on_of_thread cpu) own before)
    intro pc'' cpu'
    rw [cpu] at cpu'
    cases cpu'
    exact ⟨notZombie, awake⟩
  have old := (h.on_other same).mp on
  apply moved (core.running d k pc old own out)
  intro pc' cpu
  constructor
  · rintro status rfl
    exact same (core.single d c k pc _ old (on_of_thread cpu) own out id)
  by_contra asleep
  obtain ⟨chan, eq⟩ := ne_none_iff_exists'.mp asleep
  exact same (core.single d c k pc _ old (on_of_thread cpu) own out (Pc.not_tail_of_sleep eq))

lemma Core.single_step (core : Core s p) (h : Steps s c s') (on : On s' d k pc) (ne : d ≠ c)
    (on' : On s' c k pc') (own : k.1 = p) (out : ¬ pc.Tail) (out' : ¬ pc'.Tail) : False := by
  have old := (h.on_other ne).mp on
  rcases h.on_own on' with ⟨ready, -, -⟩ | ⟨pc'', cpu, -, arrives⟩
  · rw [core.running d k pc old own out] at ready
    cases ready
  exact ne (core.single d c k pc _ old (on_of_thread cpu) own out (arrives.stays out').1)

lemma wakeupAt_pLock (s : State n) : (wakeupAt s me chan k).pLock = s.pLock := by
  unfold wakeupAt
  split_ifs <;> rfl

lemma Move.pLock (h : Move s c me pc s') (p : ProcId) :
    s'.pLock p = s.pLock p ∨ (s.pLock p = none ∧ s'.pLock p = some c ∧ me.1 = p ∧ ∃ pc',
    pc'.HoldsLock ∧ s'.cpu c = .thread me pc') ∨ (s'.pLock p = none ∧ me.1 = p ∧ pc.HoldsLock) := by
  have other : ∀ x, update s.pLock me.1 x p = s.pLock p ∨
      me.1 = p ∧ update s.pLock me.1 x p = x := by
    intro x
    by_cases same : p = me.1
    · subst same
      exact .inr ⟨rfl, update_self _ _ _⟩
    exact .inl (update_of_ne same _ _)
  cases h with
  | wakeLock free =>
    rcases other (some c) with eq | ⟨rfl, eq⟩
    · exact .inl eq
    exact .inr (.inl ⟨free, eq, rfl, .wakeScan 0, trivial, update_self _ _ _⟩)
  | @joinLock j t free =>
    rcases other (some c) with eq | ⟨rfl, eq⟩
    · exact .inl eq
    exact .inr (.inl ⟨free, eq, rfl, .joinTest j t, trivial, update_self _ _ _⟩)
  | wakeDone | reap | reapStore | reapFault | joinSleep =>
    rcases other none with eq | ⟨own, eq⟩
    · exact .inl eq
    exact .inr (.inr ⟨eq, own, trivial⟩)
  | wakeNext h | wakeupNext h => exact .inl (congrFun (wakeupAt_pLock s) p)
  | _ => exact .inl rfl

lemma Move.locked (h : Move s c me pc s') (on : On s' c k pc') (holds : pc'.HoldsLock) :
    s'.pLock me.1 = some c ∨ pc.HoldsLock ∧ s'.pLock = s.pLock := by
  cases h with
  | goto l =>
    obtain ⟨rfl, rfl⟩ := (on_goto s).mp on
    exact .inr ⟨l.holdsLock.mp holds, rfl⟩
  | panic fault =>
    obtain ⟨rfl, rfl⟩ := (on_panicked s).mp on
    exact .inr ⟨holds, rfl⟩
  | wakeLock | joinLock => exact .inl (update_self _ _ _)
  | wakeNext h => exact .inr ⟨trivial, wakeupAt_pLock s⟩
  | reap | reapStore | reapFault => exact absurd ((on_goto _).mp on).2 (Join.back_ne holds.not_back)
  | exitSched | joinSleep | exitLeave | sleepOn => exact absurd on (not_on_sched _)
  | _ =>
    obtain ⟨rfl, rfl⟩ := (on_goto _).mp on
    exact nomatch holds

lemma dispatch_pLock (s : State n) : (dispatch s c k).pLock = s.pLock := by
  unfold dispatch
  cases s.context k <;> rfl

lemma Core.locked_step (core : Core s p) (h : Steps s c s') (on : On s' d k pc) (own : k.1 = p)
    (holds : pc.HoldsLock) : s'.pLock p = some d := by
  by_cases same : d = c
  · subst same
    rcases h.on_own on with ⟨-, resumed, -⟩ | ⟨pc', cpu, m, -⟩
    · cases resumed <;> exact nomatch holds
    rcases m.locked on holds with taken | ⟨before, kept⟩
    · rw [← own]
      exact taken
    rw [kept]
    exact core.locked d k _ (on_of_thread cpu) own before
  have old := core.locked d k pc ((h.on_other same).mp on) own holds
  cases h with
  | scan => exact old
  | dispatch i cpu ready => rwa [dispatch_pLock]
  | move cpu m =>
    rcases m.pLock p with kept | ⟨free, -⟩ | ⟨-, mine, before⟩
    · rw [kept, old]
    · rw [old] at free
      cases free
    have held := core.locked c _ _ (on_of_thread cpu) mine before
    rw [old] at held
    exact absurd (some.inj held) same

lemma EntryStep.zombie_kept {t : Kthread} (h : EntryStep s c k t)
    (dead : (s.kt k).tState = .zombie) : t.tState = .zombie ∨ (∃ me j, s.cpu c =
    .thread me (.joinReap j k.2) ∧ k.1 = me.1) ∨ ∃ pc, s.cpu c = .thread k pc ∧ ¬ pc.Tail := by
  cases h with
  | same => exact .inl dead
  | create _ _ free => rw [dead] at free; cases free
  | zombie => exact .inl rfl
  | wake _ _ _ asleep => rw [dead] at asleep; cases asleep
  | kill => exact .inl (by simp only [kthreadKill, dead, reduceCtorEq, if_false])
  | doom => exact .inl dead
  | reap cpu own => exact .inr (.inl ⟨_, _, cpu, own⟩)
  | sleep cpu asleep => exact .inr (.inr ⟨_, cpu, Pc.not_tail_of_sleep asleep⟩)
  | mark => exact .inl rfl
  | dispatch _ ready => rw [dead] at ready; cases ready

lemma Move.reaps {j : Join} {t : Fin NKT} (h : Move s c me pc s') (on : On s' c k (.joinReap j t))
    : s'.kt = s.kt ∧ (pc = .joinReap j t ∨ (s.kt (me.1, t)).tState = .zombie) := by
  cases h with
  | goto l =>
    obtain ⟨rfl, rfl⟩ := (on_goto s).mp on
    cases l with
    | call a0 k eq => exact absurd eq (Call.entry_ne id)
    | joinNone _ eq => exact absurd eq (Join.back_ne id)
    | joinZombie dead => exact ⟨rfl, .inr dead⟩
  | panic fault =>
    obtain ⟨rfl, rfl⟩ := (on_panicked s).mp on
    exact ⟨rfl, .inl rfl⟩
  | reap | reapStore | reapFault => exact absurd ((on_goto _).mp on).2 (Join.back_ne id)
  | exitSched | joinSleep | exitLeave | sleepOn => exact absurd on (not_on_sched _)
  | _ => cases ((on_goto _).mp on).2

lemma Core.target_step (core : Core s p) (h : Steps s c s') {j : Join} {t : Fin NKT}
    (on : On s' d k (.joinReap j t)) (own : k.1 = p) : (s'.kt (p, t)).tState = .zombie := by
  by_cases same : d = c
  · subst same
    rcases h.on_own on with ⟨-, resumed, -⟩ | ⟨pc', cpu, m, -⟩
    · cases resumed
    obtain ⟨table, rfl | dead⟩ := m.reaps on
    · rw [table]
      exact core.target d k j t (on_of_thread cpu) own
    rw [table, ← own]
    exact dead
  have old := (h.on_other same).mp on
  have dead := core.target d k j t old own
  rcases (h.entry (p, t)).zombie_kept dead with kept | ⟨me, j', cpu, eq⟩ | ⟨pc, cpu, out⟩
  · exact kept
  · have mine := core.locked c me _ (on_of_thread cpu) eq.symm trivial
    have held := core.locked d k _ old own trivial
    rw [mine] at held
    exact absurd (some.inj held).symm same
  have run := core.running c _ pc (on_of_thread cpu) rfl out
  rw [dead] at run
  cases run

lemma Core.step (core : Core s p) (h : Steps s c s') (calm : Calm s c p) : Core s' p where
  running _ _ _ on own out := core.running_step h calm on own out
  target _ _ _ _ on own := core.target_step h on own
  locked _ _ _ on own holds := core.locked_step h on own holds
  single a b k pc pc' on on' own out out' := by
    by_cases first : a = c
    · subst first
      by_contra ne
      exact core.single_step h on' (Ne.symm ne) on own out' out
    by_cases second : b = c
    · subst second
      exact (core.single_step h on first on' own out out').elim
    exact core.single a b k pc pc' ((h.on_other first).mp on) ((h.on_other second).mp on')
      own out out'

lemma core_init (live : ProcId → Bool) (p : ProcId) : Core (init n live) p where
  running _ _ _ on := nomatch on
  target _ _ _ _ on := nomatch on
  locked _ _ _ on := nomatch on
  single _ _ _ _ _ on := nomatch on

lemma wakeupAt_proc (s : State n) : (wakeupAt s me chan k).proc = s.proc := by
  unfold wakeupAt
  split_ifs <;> rfl

lemma dispatch_proc (s : State n) : (dispatch s c k).proc = s.proc := by
  unfold dispatch
  cases s.context k <;> rfl

lemma Steps.procState (h : Steps s c s') (p : ProcId) :
    (s'.proc p).state = (s.proc p).state ∨ (s'.proc p).state = .zombie ∧ ∃ me status,
    s.cpu c = .thread me (.exitZombie status) ∧ me.1 = p := by
  cases h with
  | scan => exact .inl rfl
  | dispatch k => rw [dispatch_proc]; exact .inl rfl
  | @move me pc s' cpu m =>
    cases m with
    | create h free =>
      left
      simp only [State.goto, setCpu_proc, create_proc]
      by_cases same : p = me.1
      · subst same
        rw [update_self]
      rw [update_of_ne same]
    | @exitZombie status free =>
      simp only [State.goto, setCpu_proc, setZombie_proc]
      by_cases same : p = me.1
      · grind
      rw [update_of_ne same]
      exact .inl rfl
    | wakeNext h | wakeupNext h =>
      left
      simp only [State.goto, setCpu_proc, wakeupAt_proc]
    | _ => exact .inl rfl

/-- `exit` has published the process before it overwrites the thread table. -/
def Marking (s : State n) (p : ProcId) : Prop :=
  ∀ c me i status, On s c me (.exitMark i status) → me.1 = p → (s.proc p).state = .zombie

lemma Move.marks (h : Move s c me pc s') (on : On s' c k (.exitMark i status)) :
    (∃ i, pc = .exitMark i status) ∨ (s'.proc me.1).state = .zombie := by
  cases h with
  | goto l =>
    obtain ⟨rfl, rfl⟩ := (on_goto s).mp on
    cases l with
    | call a0 k eq => exact absurd eq (Call.entry_ne id)
    | joinNone _ eq => exact absurd eq (Join.back_ne id)
  | panic fault =>
    obtain ⟨rfl, rfl⟩ := (on_panicked s).mp on
    exact .inl ⟨i, rfl⟩
  | exitZombie free =>
    right
    simp only [State.goto, setCpu_proc, setZombie_proc, update_self]
  | exitMark h =>
    cases ((on_goto _).mp on).2
    exact .inl ⟨_, rfl⟩
  | reap | reapStore | reapFault => exact absurd ((on_goto _).mp on).2 (Join.back_ne id)
  | exitSched | joinSleep | exitLeave | sleepOn => exact absurd on (not_on_sched _)
  | _ => cases ((on_goto _).mp on).2

lemma Steps.zombie_kept (h : Steps s c s') (gone : (s.proc p).state = .zombie) :
    (s'.proc p).state = .zombie := by
  rcases h.procState p with kept | ⟨zombie, -⟩
  · rw [kept, gone]
  exact zombie

lemma Marking.step (marking : Marking s p) (h : Steps s c s') : Marking s' p := by
  intro d k i status on own
  by_cases same : d = c
  · subst same
    rcases h.on_own on with ⟨-, resumed, -⟩ | ⟨pc', cpu, m, -⟩
    · cases resumed
    rcases m.marks on with ⟨i', rfl⟩ | zombie
    · exact h.zombie_kept (marking d k i' status (on_of_thread cpu) own)
    rwa [← own]
  exact h.zombie_kept (marking d k i status ((h.on_other same).mp on) own)

/-- The core invariant without any condition on the run, while the process is live. -/
structure Sound (s : State n) (p : ProcId) : Prop where
  marking : Marking s p
  core : (s.proc p).state = .used → Core s p

lemma Sound.not_marking (sound : Sound s p) (used : (s.proc p).state = .used)
    (cpu : s.cpu c = .thread me (.exitMark i status)) : me.1 ≠ p := by
  intro own
  have gone := sound.marking c me i status (on_of_thread cpu) own
  rw [used] at gone
  cases gone

lemma Steps.used_before (h : Steps s c s') (used : (s'.proc p).state = .used) :
    (s.proc p).state = .used := by
  rcases h.procState p with kept | ⟨zombie, -⟩
  · rw [← kept, used]
  rw [zombie] at used
  cases used

lemma Sound.step (sound : Sound s p) (h : Steps s c s') : Sound s' p := by
  refine ⟨sound.marking.step h, fun used => ?_⟩
  have before := h.used_before used
  exact (sound.core before).step h fun _ _ _ cpu own => absurd own (sound.not_marking before cpu)

lemma sound_init (live : ProcId → Bool) (p : ProcId) : Sound (init n live) p :=
  ⟨fun _ _ _ _ on => (nomatch on), fun _ => core_init live p⟩

lemma sound_of_run {G : State n → Label n → Prop} {live : ProcId → Bool} {as : List (Label n)}
    (run : Run step G (init n live) as s) (p : ProcId) : Sound s p :=
  run.invariant (I := fun s => Sound s p) (fun _ _ _ sound _ h => sound.step (steps_of_step h))
    (sound_init live p)

end Xv6
