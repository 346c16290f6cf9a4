import Xv6.KthreadCore

/-! Saved contexts: what `sched` leaves for the scheduler that takes the thread
next, and the entries that wait to be taken. -/
namespace Xv6
open Interleaving State Kthread
open Function (update update_of_ne update_self)
variable {n : Nat} {s s' : State n} {c d : Fin n} {k me : KtId} {p : ProcId} {pc pc' : Pc}

def Pc.saves : Pc → Option Context
  | .joinSleep j t => some (.join j t)
  | .sleepOn _ => some .sleep
  | .exitSched | .exitMark _ _ => some .zombie
  | _ => none

/-- How a step changes the saved context of an entry: the entry is allocated, or
its thread switches away. -/
lemma Steps.context (h : Steps s c s') (k : KtId) : s'.context k = s.context k ∨
    (∃ me f, s.cpu c = .thread me (.createScan k.2 f) ∧ k.1 = me.1 ∧ (s.kt k).tState = .unused) ∨
    ∃ pc, s.cpu c = .thread k pc ∧ (s'.cpu c).pos = none ∧ pc.saves = some (s'.context k) := by
  have update : ∀ {me : KtId} {x : Context} {Q : Prop},
      (k = me → update s.context me x k = x → Q) →
      update s.context me x k = s.context k ∨ Q := by
    intro me x Q own
    by_cases same : k = me
    · subst same
      exact .inr (own rfl (by rw [update_self]))
    exact .inl (update_of_ne same _ _)
  have off : ∀ (t : State n) (me : KtId) (ctx : Context), ((t.sched c me ctx).cpu c).pos = none := by
    intro t me ctx
    simp only [sched_cpu, update_self, Cpu.pos]
  cases h with
  | scan => exact .inl rfl
  | dispatch i =>
    left
    unfold Xv6.dispatch
    cases s.context i <;> rfl
  | @move me pc s' cpu m =>
    cases m with
    | @create i f h free =>
      refine update fun same _ => .inl ?_
      subst same
      exact ⟨me, f, cpu, rfl, free⟩
    | exitSched | joinSleep | sleepOn | exitLeave =>
      refine update fun same eq => .inr ?_
      subst same
      exact ⟨_, cpu, off _ _ _, congrArg some eq.symm⟩
    | wakeNext | wakeupNext =>
      left
      simp only [State.goto, setCpu_context]
      unfold wakeupAt
      split_ifs <;> rfl
    | _ => exact .inl rfl

lemma Steps.context_created {f : Trapframe} (h : Steps s c s')
    (cpu : s.cpu c = .thread me (.createScan k.2 f)) (own : k.1 = me.1)
    (free : (s.kt k).tState = .unused) : s'.context k = .forkret := by
  obtain ⟨p, i⟩ := k
  obtain rfl : p = me.1 := own
  cases h.move_of cpu with
  | goto l =>
    cases l with
    | createNext _ busy => exact absurd free busy
    | createFail outside => exact absurd i.isLt outside
  | panic fault => cases fault
  | create => exact update_self _ _ _

lemma Steps.context_saved {chan : Chan} (h : Steps s c s') (cpu : s.cpu c = .thread k pc)
    (asleep : pc.sleepChan k = some chan) : pc.saves = some (s'.context k) := by
  cases h.move_of cpu with
  | goto l => cases l <;> cases asleep
  | panic fault => cases fault <;> cases asleep
  | joinSleep | sleepOn => simp only [sched_context, update_self, Pc.saves]
  | _ => cases asleep

lemma Steps.frame (h : Steps s c s') (k : KtId) : s'.frame k = s.frame k ∨ ∃ me f,
    s.cpu c = .thread me (.createScan k.2 f) ∧ k.1 = me.1 ∧ (s.kt k).tState = .unused := by
  cases h with
  | scan => exact .inl rfl
  | dispatch i =>
    left
    unfold Xv6.dispatch
    cases s.context i <;> rfl
  | @move me pc s' cpu m =>
    cases m with
    | @create i f h free =>
      by_cases same : k = (me.1, ⟨i, h⟩)
      · subst same
        exact .inr ⟨me, f, cpu, rfl, free⟩
      exact .inl (update_of_ne same _ _)
    | wakeNext | wakeupNext =>
      left
      simp only [State.goto, setCpu_frame]
      unfold wakeupAt
      split_ifs <;> rfl
    | _ => exact .inl rfl

def Kthread.Waiting (t : Kthread) : Prop := t.tState = .runnable ∨ t.tState = .sleeping

instance (t : Kthread) : Decidable t.Waiting := inferInstanceAs (Decidable (_ ∨ _))

variable {t : Kthread}

lemma EntryStep.waiting (h : EntryStep s c k t) (waiting : t.Waiting) : (s.kt k).Waiting ∨
    (∃ me f, s.cpu c = .thread me (.createScan k.2 f) ∧ k.1 = me.1 ∧ (s.kt k).tState = .unused) ∨
    ∃ pc chan, s.cpu c = .thread k pc ∧ pc.sleepChan k = some chan := by
  cases h with
  | same => exact .inl waiting
  | doom => exact .inl waiting
  | create cpu own free => exact .inr (.inl ⟨_, _, cpu, own, free⟩)
  | sleep cpu asleep => exact .inr (.inr ⟨_, _, cpu, asleep⟩)
  | wake _ _ _ asleep => exact .inl (.inr asleep)
  | kill =>
    left
    by_cases asleep : (s.kt k).tState = .sleeping
    · exact .inr asleep
    simpa only [Kthread.Waiting, kthreadKill, asleep, if_false] using waiting
  | zombie | reap | mark | dispatch => rcases waiting with eq | eq <;> cases eq

/-- The channel of an entry is set while its thread sleeps or is about to resume. -/
structure Chans (s : State n) (p : ProcId) : Prop where
  fresh : ∀ i, s.context (p, i) = .forkret → (s.kt (p, i)).chan = none
  free : ∀ i, (s.kt (p, i)).tState = .unused → (s.kt (p, i)).chan = none
  awake : ∀ c k pc, On s c k pc → k.1 = p → ¬ pc.Tail → (s.kt k).chan = none

lemma EntryStep.chan (h : EntryStep s c k t) : t.chan = (s.kt k).chan ∨ t.chan = none ∨ ∃ pc chan,
    s.cpu c = .thread k pc ∧ pc.sleepChan k = some chan := by
  cases h with
  | sleep cpu asleep => exact .inr (.inr ⟨_, _, cpu, asleep⟩)
  | reap => exact .inr (.inl rfl)
  | dispatch _ _ chan =>
    rcases chan with rfl | ⟨rfl, -⟩
    · exact .inr (.inl rfl)
    exact .inl rfl
  | _ => exact .inl rfl

lemma EntryStep.chan_free (h : EntryStep s c k t) (free : t.tState = .unused) :
    t.chan = none ∨ (s.kt k).tState = .unused ∧ t.chan = (s.kt k).chan := by
  cases h with
  | same | doom => exact .inr ⟨free, rfl⟩
  | reap => exact .inl rfl
  | kill =>
    refine .inr ⟨?_, rfl⟩
    by_cases asleep : (s.kt k).tState = .sleeping
    · simp only [kthreadKill, asleep, if_true, reduceCtorEq] at free
    simpa only [kthreadKill, asleep, if_false] using free
  | create | wake | zombie | mark | sleep | dispatch => cases free

lemma Chans.fresh_step (chans : Chans s p) (h : Steps s c s') {i : Fin NKT}
    (ctx : s'.context (p, i) = .forkret) : (s'.kt (p, i)).chan = none := by
  have old : (s.kt (p, i)).chan = none := by
    rcases h.context (p, i) with same | ⟨_, _, _, _, free⟩ | ⟨pc, -, -, saved⟩
    · exact chans.fresh i (same ▸ ctx)
    · exact chans.free i free
    rw [ctx] at saved
    cases pc <;> cases saved
  rcases (h.entry (p, i)).chan with same | none | ⟨pc, chan, cpu, asleep⟩
  · exact same.trans old
  · exact none
  have saved := h.context_saved cpu asleep
  rw [ctx] at saved
  cases pc <;> cases saved

lemma dispatch_chan (chans : Chans s p) (on : On (dispatch s c k) c me pc) (own : me.1 = p)
    (out : ¬ pc.Tail) : ((dispatch s c k).kt me).chan = none := by
  obtain ⟨rfl, -, -⟩ := on_dispatch s on
  unfold dispatch at on ⊢
  cases ctx : s.context me <;> simp only [ctx] at on ⊢
  · simp only [setCpu_kt, setKt_kt, update_self]
    subst own
    exact chans.fresh me.2 ctx
  · simp only [setCpu_kt, setKt_kt, update_self]
  · simp only [setCpu_kt, setKt_kt, update_self]
  rw [On, setCpu_cpu, update_self] at on
  cases on
  exact absurd trivial out

lemma Chans.awake_step (chans : Chans s p) (core : Core s p) (h : Steps s c s')
    (on : On s' d k pc) (own : k.1 = p) (out : ¬ pc.Tail) : (s'.kt k).chan = none := by
  have kept : (s.kt k).chan = none →
      (∀ pc, s.cpu c = .thread k pc → pc.sleepChan k = none) → (s'.kt k).chan = none := by
    intro old awake
    rcases (h.entry k).chan with same | none | ⟨pc, chan, cpu, asleep⟩
    · exact same.trans old
    · exact none
    rw [awake pc cpu] at asleep
    cases asleep
  by_cases same : d = c
  · subst same
    cases h with
    | scan _ idle =>
      simp only [On, setCpu_cpu, update_self, idle] at on
      cases on
    | dispatch i cpu ready => exact dispatch_chan chans on own out
    | move cpu m =>
      obtain ⟨rfl, arrives⟩ := m.arrives on
      obtain ⟨before, -, awake⟩ := arrives.stays out
      refine kept (chans.awake d k _ (on_of_thread cpu) own before) ?_
      intro pc' cpu'
      obtain ⟨-, rfl⟩ := Cpu.thread.inj (cpu.symm.trans cpu')
      exact awake
  have old := (h.on_other same).mp on
  refine kept (chans.awake d k pc old own out) ?_
  intro pc' cpu
  by_contra asleep
  obtain ⟨chan, eq⟩ := Option.ne_none_iff_exists'.mp asleep
  exact same (core.single d c k pc _ old (on_of_thread cpu) own out (Pc.not_tail_of_sleep eq))

lemma Chans.step (chans : Chans s p) (core : Core s p) (h : Steps s c s') : Chans s' p where
  fresh _ ctx := chans.fresh_step h ctx
  awake _ _ _ on own out := chans.awake_step core h on own out
  free i empty := by
    rcases (h.entry (p, i)).chan_free empty with none | ⟨before, same⟩
    · exact none
    exact same.trans (chans.free i before)

lemma chans_init (live : ProcId → Bool) (p : ProcId) : Chans (init n live) p := by
  have none : ∀ i, ((init n live).kt (p, i)).chan = none := by
    intro i
    unfold init
    dsimp only
    split_ifs <;> rfl
  exact ⟨fun i _ => none i, fun i _ => none i, fun _ _ _ on => (nomatch on)⟩

end Xv6
