import Xv6.SleepWakeup

/-! No wakeup is lost. A thread in `sleep` has its own `t_lock` from before it releases the
lock of the caller until the scheduler has it off the CPU, and only a `wakeup` on its channel
makes it runnable after that. A scan of `wakeup` has to take that lock, so it finds the
thread asleep unless an earlier one has woken it. -/
namespace Xv6.SleepWakeup
open Interleaving Option
open Function (update update_apply update_of_ne update_self)

variable {n : Nat} {s s' : State n} {c d : Fin n} {k : KtId}

/-- A CPU that runs the thread and may still leave it. A thread that comes to `sched` without
its own lock only panics there. -/
def Active (s : State n) (c : Fin n) (k : KtId) : Prop :=
  ∃ pc, s.cpu c = .thread k pc ∧ (pc.atSched = true → s.Held c (.thread k))

structure Sound (s : State n) : Prop where
  current : ∀ c me pc, s.cpu c = .thread me pc → s.kthread c = some me
  running : ∀ c me pc, s.cpu c = .thread me pc → pc.atSched = false →
    (s.kt me).tState = .running
  leaving : ∀ c me pc, s.cpu c = .thread me pc → pc.atSched = true → s.Held c (.thread me) →
    (s.kt me).tState = .sleeping
  unique : ∀ c d k, Active s c k → Active s d k → c = d
  tests : ∀ c me pc k, s.cpu c = .thread me pc → pc.tests = some k → s.Held c (.thread k)

variable {me U : KtId} {pc : Pc} {x : Label n} {as : List (Label n)} {t u : State n}

lemma active_of_thread (here : s.cpu c = .thread me pc) (free : pc.atSched = false) :
    Active s c me := ⟨pc, here, fun at' => nomatch free.symm.trans at'⟩

lemma Frame.active (frame : Frame s c s') (other : d ≠ c) : Active s' d k ↔ Active s d k := by
  unfold Active
  rw [frame.cpu d other, frame.held d _ other]

lemma Sound.not_runnable (sound : Sound s) (active : Active s c k) :
    (s.kt k).tState ≠ .runnable := by
  obtain ⟨pc, here, held⟩ := active
  cases at' : pc.atSched with
  | false => rw [sound.running c k pc here at']; nofun
  | true => rw [sound.leaving c k pc here at' (held at')]; nofun

lemma Sound.kt_eq (sound : Sound s) (moves : Moves s c s') (other : d ≠ c) (active : Active s d k)
    (held : (s.kt k).tState = .sleeping → s.Held d (.thread k)) : s'.kt k = s.kt k := by
  cases moves with
  | quiet kt stays => rw [kt]
  | dispatch j _ ready kt _ _ =>
    rw [kt, update_of_ne]
    rintro rfl
    exact sound.not_runnable active ready
  | write me old pc t here before _ kt _ _ _ _ =>
    rw [kt, update_of_ne]
    rintro rfl
    exact other (sound.unique d c k active (active_of_thread here before))
  | wake me chan m here kt _ _ =>
    rw [kt]
    by_cases same : k = ktAt m m.isLt
    · subst same
      rw [update_self]
      rcases (s.kt (ktAt m m.isLt)).wakeup_eq_or chan with eq | ⟨⟨asleep, -⟩, -⟩
      · exact eq
      exact absurd ((held asleep).cpu_eq (sound.tests c me _ _ here rfl)) other
    rw [update_of_ne same]

lemma Moves.active (moves : Moves s c s') (active : Active s' c k) :
    Active s c k ∨ (s.kt k).tState = .runnable := by
  obtain ⟨pc, here', -⟩ := active
  cases moves with
  | quiet kt stays =>
    obtain ⟨old, here, before⟩ := (stays k pc here').2.2.1
    exact .inl (active_of_thread here before)
  | dispatch j _ ready kt _ cpu =>
    cases cpu.symm.trans here'
    exact .inr ready
  | write me old pc t here before _ kt _ cpu _ _ =>
    cases cpu.symm.trans here'
    exact .inl (active_of_thread here before)
  | wake me chan m here kt _ cpu =>
    cases cpu.symm.trans here'
    exact .inl (active_of_thread here rfl)

lemma Context.resume_atSched (x : Context) : x.resume.atSched = false := by cases x <;> rfl

lemma Context.resume_tests (x : Context) : x.resume.tests = none := by cases x <;> rfl

lemma Sound.wakeup_running (sound : Sound s) (here : s.cpu c = .thread me pc)
    (free : pc.atSched = false) (chan : Chan) : (s.kt me).wakeup chan = s.kt me := by
  rcases (s.kt me).wakeup_eq_or chan with eq | ⟨⟨asleep, -⟩, -⟩
  · exact eq
  rw [sound.running c me pc here free] at asleep
  exact nomatch asleep

lemma Sound.own_step (sound : Sound s) (moves : Moves s c s') (here' : s'.cpu c = .thread me pc) :
    s'.kthread c = some me ∧ (pc.atSched = false → (s'.kt me).tState = .running) ∧ (pc.atSched =
    true → (s'.kt me).tState = .sleeping) ∧ ∀ k, pc.tests = some k → s'.Held c (.thread k) := by
  cases moves with
  | quiet kt stays =>
    obtain ⟨free, kthread, ⟨old, here, before⟩, tests⟩ := stays me pc here'
    refine ⟨kthread.trans (sound.current c me old here), fun _ => ?_, fun at' => ?_, tests⟩
    · rw [kt]
      exact sound.running c me old here before
    exact nomatch free.symm.trans at'
  | dispatch k _ ready kt kthread cpu =>
    cases cpu.symm.trans here'
    refine ⟨kthread, fun _ => ?_, fun at' => ?_, fun j test => ?_⟩
    · rw [kt, update_self]
    · exact nomatch (Context.resume_atSched _).symm.trans at'
    exact nomatch (Context.resume_tests _).symm.trans test
  | write me' old pc' t here before _ kt kthread cpu state plain =>
    cases cpu.symm.trans here'
    have run := sound.running c me old here before
    refine ⟨kthread.trans (sound.current c me old here), fun free => ?_, fun at' => ?_,
      fun j test => nomatch plain.symm.trans test⟩
    · rw [kt, update_self, state, free, if_neg Bool.false_ne_true, run]
    rw [kt, update_self, state, at', if_pos rfl]
  | wake me' chan m here kt kthread cpu =>
    cases cpu.symm.trans here'
    refine ⟨kthread.trans (sound.current c me _ here), fun _ => ?_, nofun, nofun⟩
    rw [kt]
    by_cases same : me = ktAt m m.isLt
    · rw [← same, update_self, sound.wakeup_running here rfl]
      exact sound.running c me _ here rfl
    rw [update_of_ne same]
    exact sound.running c me _ here rfl

lemma Sound.step (sound : Sound s) (next : step s x = some s') : Sound s' := by
  obtain ⟨frame, moves⟩ := moves_of_step next
  refine ⟨?_, ?_, ?_, ?_, ?_⟩
  · intro d me pc here
    by_cases own : d = x.cpu
    · subst own
      exact (sound.own_step moves here).1
    rw [frame.cpu d own] at here
    rw [frame.kthread d own]
    exact sound.current d me pc here
  · intro d me pc here free
    by_cases own : d = x.cpu
    · subst own
      exact (sound.own_step moves here).2.1 free
    rw [frame.cpu d own] at here
    have run := sound.running d me pc here free
    rw [sound.kt_eq moves own (active_of_thread here free)
      fun asleep => nomatch run.symm.trans asleep]
    exact run
  · intro d me pc here at' held
    by_cases own : d = x.cpu
    · subst own
      exact (sound.own_step moves here).2.2.1 at'
    rw [frame.cpu d own] at here
    rw [frame.held d _ own] at held
    rw [sound.kt_eq moves own ⟨pc, here, fun _ => held⟩ fun _ => held]
    exact sound.leaving d me pc here at' held
  · have one : ∀ a b k, a ≠ x.cpu → Active s' a k → Active s' b k → a = b := by
      intro a b k other first second
      rw [frame.active other] at first
      by_cases own : b = x.cpu
      · subst own
        rcases moves.active second with before | ready
        · exact sound.unique a x.cpu k first before
        exact absurd ready (sound.not_runnable first)
      exact sound.unique a b k first ((frame.active own).mp second)
    intro a b k first second
    by_cases own : a = x.cpu
    · by_cases own' : b = x.cpu
      · exact own.trans own'.symm
      exact (one b a k own' second first).symm
    exact one a b k own first second
  intro d me pc k here test
  by_cases own : d = x.cpu
  · subst own
    exact (sound.own_step moves here).2.2.2 k test
  rw [frame.cpu d own] at here
  rw [frame.held d _ own]
  exact sound.tests d me pc k here test

lemma sound_init (used : ProcId → Bool) (ready : KtId → Bool) : Sound (init n used ready) where
  current _ _ _ here := nomatch here
  running _ _ _ here := nomatch here
  leaving _ _ _ here := nomatch here
  unique _ _ _ active := nomatch active.choose_spec.1
  tests _ _ _ _ here := nomatch here

section
variable (T : KtId) (chan : Chan) (lk : LockId)

/-- The thread has called `sleep` on the CPU `c` and not yet released the lock of the caller. -/
def Entering (c : Fin n) (s : State n) : Prop :=
  s.Held c lk ∧ (s.cpu c = .thread T (.sleepAcquire chan lk) ∨
    (s.cpu c = .thread T (.sleepRelease chan lk) ∧ lk ≠ .thread T ∧ s.Held c (.thread T)) ∨
    ∃ why, s.cpu c = .stopped why)

/-- The thread has released the lock of the caller, and has its own until it is off the CPU. -/
def Leaving (c : Fin n) (s : State n) : Prop :=
  s.Held c (.thread T) ∧ (s.cpu c = .thread T (.sleepChan chan lk) ∨
    (s.cpu c = .thread T (.sleepState chan lk) ∧ (s.kt T).chan = some chan) ∨
    (s.cpu c = .thread T (.sleepSched chan lk) ∧ (s.kt T).chan = some chan) ∨
    ∃ why, s.cpu c = .stopped why)

structure Parked (s : State n) : Prop where
  asleep : (s.kt T).tState = .sleeping
  chan : (s.kt T).chan = some chan
  idle : ∀ d, ¬ Active s d T

def Waiting (c : Fin n) (s : State n) : Prop := Leaving T chan lk c s ∨ Parked T chan s

def Wakes (s : State n) (x : Label n) : Prop :=
  ∃ s', step s x = some s' ∧ (s.kt T).tState = .sleeping ∧ (s'.kt T).tState = .runnable

/-- A step in which the thread releases the lock of the caller in `sleep`. -/
def Releases (c : Fin n) (s : State n) (x : Label n) : Prop :=
  ∃ s', step s x = some s' ∧ x.cpu = c ∧ s.cpu c = .thread T (.sleepRelease chan lk) ∧
    s.Held c lk ∧ ¬ s'.Held c lk

variable {T chan lk}

def Cpu.atUser : Cpu → Bool
  | .thread _ .user => true
  | _ => false

lemma not_call (next : step s x = some s') (busy : (s.cpu x.cpu).atUser = false) :
    goStep s x.cpu (s.cpu x.cpu) = some s' := by
  obtain ⟨c, act⟩ := x
  cases act with
  | go => exact next
  | call k =>
    have next : callStep s c k (s.cpu c) = some s' := next
    unfold callStep at next
    split at next
    · next me cpu =>
      rw [cpu] at busy
      exact nomatch busy
    exact nomatch next

lemma Entering.step (enter : Entering T chan lk c s) (next : step s x = some s') :
    Entering T chan lk c s' ∨ (Releases T chan lk c s x ∧ Leaving T chan lk c s') := by
  obtain ⟨held, at'⟩ := enter
  obtain ⟨frame, -⟩ := moves_of_step next
  by_cases own : c = x.cpu
  · subst own
    rcases at' with here | ⟨here, other, mine⟩ | ⟨why, here⟩
    · have go := not_call next (here ▸ rfl)
      rw [here] at go
      rcases attempt_eq_some go with ⟨k, ok, rfl⟩ | ⟨why, rfl⟩
      · obtain ⟨free, lock, -⟩ := Kernel.acquire_ok ok
        have apart : lk ≠ .thread T := by
          rintro rfl
          exact nomatch free.symm.trans held.locked
        refine .inl ⟨?_, .inr (.inl ⟨update_self .., apart, ?_⟩)⟩
        · exact (congrFun lock lk).trans ((update_of_ne apart ..).trans held)
        exact (congrFun lock _).trans (update_self ..)
      exact .inl ⟨held, .inr (.inr ⟨why, update_self ..⟩)⟩
    · have go := not_call next (here ▸ rfl)
      rw [here] at go
      rcases attempt_eq_some go with ⟨k, ok, eq⟩ | ⟨why, rfl⟩
      · obtain ⟨-, lock, -⟩ := Kernel.release_ok ok
        refine .inr ⟨⟨s', next, rfl, here, held, ?_⟩, ?_⟩
        · subst eq
          intro still
          exact nomatch ((congrFun lock lk).trans (update_self ..)).symm.trans still
        subst eq
        refine ⟨?_, .inl (update_self ..)⟩
        exact (congrFun lock _).trans ((update_of_ne other.symm ..).trans mine)
      exact .inl ⟨held, .inr (.inr ⟨why, update_self ..⟩)⟩
    have go := not_call next (here ▸ rfl)
    rw [here] at go
    cases go
  refine .inl ⟨(frame.held c lk own).mpr held, ?_⟩
  rw [frame.cpu c own, frame.held c _ own]
  exact at'

lemma setKt_goto_kt (s : State n) (k : KtId) (t : Kthread) (c : Fin n) (x : Cpu) :
    ((s.setKt k t).goto c x).kt = update s.kt k t := rfl

lemma Leaving.step (leave : Leaving T chan lk c s) (sound : Sound s) (next : step s x = some s') :
    Waiting T chan lk c s' := by
  obtain ⟨held, at'⟩ := leave
  obtain ⟨frame, moves⟩ := moves_of_step next
  by_cases own : c = x.cpu
  · subst own
    rcases at' with here | ⟨here, on⟩ | ⟨here, on⟩ | ⟨why, here⟩
    · have go := not_call next (here ▸ rfl)
      rw [here] at go
      cases go
      refine .inl ⟨held, .inr (.inl ⟨update_self .., ?_⟩)⟩
      rw [setKt_goto_kt, update_self]
    · have go := not_call next (here ▸ rfl)
      rw [here] at go
      cases go
      refine .inl ⟨held, .inr (.inr (.inl ⟨update_self .., ?_⟩))⟩
      rw [setKt_goto_kt, update_self]
      exact on
    · have asleep := sound.leaving x.cpu T _ here rfl held
      have active : Active s x.cpu T := ⟨_, here, fun _ => held⟩
      have go := not_call next (here ▸ rfl)
      rw [here, goStep, threadStep] at go
      split at go
      · next k ok =>
        have kt := (Kernel.sched_ok ok).2.1.kt
        cases go
        refine .inr ⟨(congrArg Kthread.tState (congrFun kt T)).trans asleep,
          (congrArg Kthread.chan (congrFun kt T)).trans on, fun d still => ?_⟩
        by_cases same : d = x.cpu
        · obtain ⟨pc, cpu, -⟩ := still
          rw [same] at cpu
          cases (update_self ..).symm.trans cpu
        exact same (sound.unique d x.cpu T ((frame.active same).mp still) active)
      cases go
      exact .inl ⟨held, .inr (.inr (.inr ⟨_, update_self ..⟩))⟩
    have go := not_call next (here ▸ rfl)
    rw [here] at go
    cases go
  refine .inl ⟨(frame.held c _ own).mpr held, ?_⟩
  rw [frame.cpu c own]
  rcases at' with here | ⟨here, on⟩ | ⟨here, on⟩ | stopped
  · exact .inl here
  · rw [sound.kt_eq moves own (active_of_thread here rfl) fun _ => held]
    exact .inr (.inl ⟨here, on⟩)
  · rw [sound.kt_eq moves own ⟨_, here, fun _ => held⟩ fun _ => held]
    exact .inr (.inr (.inl ⟨here, on⟩))
  exact .inr (.inr (.inr stopped))

lemma Parked.step (parked : Parked T chan s) (next : step s x = some s') :
    Parked T chan s' ∨ Wakes T s x := by
  obtain ⟨frame, moves⟩ := moves_of_step next
  have idle : ∀ d, ¬ Active s' d T := by
    intro d active
    by_cases own : d = x.cpu
    · subst own
      rcases moves.active active with before | ready
      · exact parked.idle _ before
      exact nomatch parked.asleep.symm.trans ready
    exact parked.idle d ((frame.active own).mp active)
  have kept : s'.kt T = s.kt T → Parked T chan s' := by
    intro eq
    exact ⟨eq ▸ parked.asleep, eq ▸ parked.chan, idle⟩
  cases moves with
  | quiet kt _ => exact .inl (kept (congrFun kt T))
  | dispatch k _ ready kt _ _ =>
    refine .inl (kept ?_)
    rw [kt, update_of_ne]
    rintro rfl
    exact nomatch parked.asleep.symm.trans ready
  | write me old pc t here before _ kt _ _ _ _ =>
    refine .inl (kept ?_)
    rw [kt, update_of_ne]
    rintro rfl
    exact parked.idle x.cpu (active_of_thread here before)
  | wake me on m here kt _ _ =>
    by_cases same : T = ktAt m m.isLt
    · have entry : s'.kt T = (s.kt T).wakeup on := by rw [kt, same, update_self]
      rcases (s.kt T).wakeup_eq_or on with eq | ⟨⟨asleep, -⟩, eq⟩
      · exact .inl (kept (entry.trans eq))
      refine .inr ⟨s', next, asleep, ?_⟩
      rw [entry, eq]
    refine .inl (kept ?_)
    rw [kt, update_of_ne same]

lemma Waiting.step (wait : Waiting T chan lk c s) (sound : Sound s) (next : step s x = some s') :
    Waiting T chan lk c s' ∨ Wakes T s x := by
  rcases wait with leave | parked
  · exact .inl (leave.step sound next)
  rcases parked.step next with still | woken
  · exact .inl (.inr still)
  exact .inr woken

def ktIndex (k : KtId) : Nat := k.1 * NKT + k.2

lemma ktIndex_lt (k : KtId) : ktIndex k < NPROC * NKT := by
  have p := k.1.isLt
  have i := k.2.isLt
  unfold ktIndex
  unfold NPROC NKT at *
  omega

lemma ktAt_ktIndex (k : KtId) : ktAt (ktIndex k) (ktIndex_lt k) = k := by
  have i := k.2.isLt
  unfold ktAt ktIndex
  refine Prod.ext (Fin.ext ?_) (Fin.ext ?_)
  · unfold NKT at *
    simp only
    omega
  unfold NKT at *
  simp only
  omega

/-- The thread `U` is in `wakeup` on the CPU `d`, and has not come past the entry of `T`. -/
inductive Scanning (T U : KtId) (chan : Chan) (d : Fin n) (s : State n) : Prop
  | scan (m : Nat) (upTo : m ≤ ktIndex T) (here : s.cpu d = .thread U (.wakeScan chan m))
  | acquire (m : Fin (NPROC * NKT)) (upTo : m ≤ ktIndex T)
      (here : s.cpu d = .thread U (.wakeAcquire chan m))
  | test (m : Fin (NPROC * NKT)) (upTo : m ≤ ktIndex T)
      (here : s.cpu d = .thread U (.wakeTest chan m))
  | release (m : Fin (NPROC * NKT)) (below : m < ktIndex T)
      (here : s.cpu d = .thread U (.wakeRelease chan m))
  | stopped (why : Stop) (here : s.cpu d = .stopped why)

lemma Waiting.parked (wait : Waiting T chan lk c s) (other : U ≠ T)
    (here : s.cpu d = .thread U pc) (held : s.Held d (.thread T)) : Parked T chan s := by
  rcases wait with ⟨mine, at'⟩ | parked
  · cases mine.cpu_eq held
    rcases at' with cpu | ⟨cpu, -⟩ | ⟨cpu, -⟩ | ⟨why, cpu⟩
    · cases here.symm.trans cpu
      exact absurd rfl other
    · cases here.symm.trans cpu
      exact absurd rfl other
    · cases here.symm.trans cpu
      exact absurd rfl other
    exact nomatch here.symm.trans cpu
  exact parked

lemma Scanning.step (scan : Scanning T U chan d s) (sound : Sound s)
    (wait : Waiting T chan lk c s) (other : U ≠ T) (next : step s x = some s') :
    Scanning T U chan d s' ∨ Wakes T s x := by
  obtain ⟨frame, -⟩ := moves_of_step next
  by_cases own : d = x.cpu
  · subst own
    have go : goStep s x.cpu (s.cpu x.cpu) = some s' :=
      not_call next (by cases scan <;> simp only [*] <;> rfl)
    cases scan with
    | scan m upTo here =>
      have inside : m < NPROC * NKT := lt_of_le_of_lt upTo (ktIndex_lt T)
      rw [here, goStep, threadStep, dif_pos inside] at go
      split at go
      · next t k ok =>
        obtain ⟨rfl, -, -⟩ := Kernel.mykthread_ok ok
        cases go
        by_cases mine : s.kthread x.cpu = some (ktAt m inside)
        · have past : m ≠ ktIndex T := by
            rintro rfl
            rw [sound.current x.cpu U _ here, ktAt_ktIndex] at mine
            exact other (Option.some.inj mine)
          refine .inl (.scan (m + 1) (by omega) ?_)
          rw [if_pos mine]
          exact update_self ..
        refine .inl (.acquire ⟨m, inside⟩ upTo ?_)
        rw [if_neg mine]
        exact update_self ..
      cases go
      exact .inl (.stopped _ (update_self ..))
    | acquire m upTo here =>
      rw [here] at go
      rcases attempt_eq_some go with ⟨k, ok, rfl⟩ | ⟨why, rfl⟩
      · exact .inl (.test m upTo (update_self ..))
      exact .inl (.stopped why (update_self ..))
    | test m upTo here =>
      rw [here] at go
      cases go
      by_cases below : m < ktIndex T
      · exact .inl (.release m below (update_self ..))
      have same : ktAt m m.isLt = T := by
        have eq : (m : Nat) = ktIndex T := by omega
        simp only [eq, ktAt_ktIndex]
      have held : s.Held x.cpu (.thread T) := same ▸ sound.tests _ U _ _ here rfl
      have parked := wait.parked other here held
      refine .inr ⟨_, next, parked.asleep, ?_⟩
      have entry : (s.kt T).wakeup chan = { s.kt T with tState := .runnable } :=
        if_pos ⟨parked.asleep, parked.chan⟩
      rw [setKt_goto_kt, same, update_self, entry]
    | release m below here =>
      rw [here] at go
      rcases attempt_eq_some go with ⟨k, ok, rfl⟩ | ⟨why, rfl⟩
      · exact .inl (.scan (m + 1) below (update_self ..))
      exact .inl (.stopped why (update_self ..))
    | stopped why here =>
      rw [here] at go
      cases go
  have same := frame.cpu d own
  cases scan with
  | scan m upTo here => exact .inl (.scan m upTo (same.trans here))
  | acquire m upTo here => exact .inl (.acquire m upTo (same.trans here))
  | test m upTo here => exact .inl (.test m upTo (same.trans here))
  | release m below here => exact .inl (.release m below (same.trans here))
  | stopped why here => exact .inl (.stopped why (same.trans here))

/-- In the run from `s`, the thread is made runnable after it has released the lock of the
caller. -/
def WokenAfterRelease (T : KtId) (chan : Chan) (lk : LockId) (c : Fin n) (s : State n)
    (as : List (Label n)) : Prop :=
  ∃ bs x cs t, as = bs ++ x :: cs ∧ Run step Free s bs t ∧
    Happened step Free s (Releases T chan lk c) bs ∧ Wakes T t x

lemma WokenAfterRelease.append (h : WokenAfterRelease T chan lk c s as) (bs : List (Label n)) :
    WokenAfterRelease T chan lk c s (as ++ bs) := by
  obtain ⟨cs, x, ds, t, rfl, run, released, woken⟩ := h
  exact ⟨cs, x, ds ++ bs, t, by rw [List.append_assoc, List.cons_append], run, released, woken⟩

def Slept (T : KtId) (chan : Chan) (lk : LockId) (c : Fin n) (s : State n)
    (as : List (Label n)) (t : State n) : Prop :=
  (Happened step Free s (Releases T chan lk c) as ∧ Waiting T chan lk c t) ∨
    WokenAfterRelease T chan lk c s as

lemma Slept.snoc (sound : Sound t) (slept : Slept T chan lk c s as t) (run : Run step Free s as t)
    (next : step t x = some u) : Slept T chan lk c s (as ++ [x]) u := by
  rcases slept with ⟨released, wait⟩ | woken
  · rcases wait.step sound next with still | wakes
    · exact .inl ⟨released.snoc x, still⟩
    exact .inr ⟨as, x, [], t, rfl, run, released, wakes⟩
  exact .inr (woken.append [x])

lemma Sound.run (sound : Sound s) (run : Run SleepWakeup.step Free s as t) : Sound t :=
  run.invariant (fun _ _ _ sound _ next => sound.step next) sound

lemma entered_run (sound : Sound s) (enter : Entering T chan lk c s)
    (run : Run step Free s as t) : Entering T chan lk c t ∨ Slept T chan lk c s as t := by
  refine run.history (P := fun as t => Entering T chan lk c t ∨ Slept T chan lk c s as t)
    (.inl enter) fun bs t x u run now _ next => ?_
  rcases now with enter | slept
  · rcases enter.step next with still | ⟨releases, leave⟩
    · exact .inl still
    exact .inr (.inl ⟨.last run releases, .inl leave⟩)
  exact .inr (slept.snoc (sound.run run) run next)

variable {bs : List (Label n)}

lemma slept_run (sound : Sound s) (first : Run step Free s as t) (slept :
    Slept T chan lk c s as t) (second : Run step Free t bs u) : Slept T chan lk c s (as ++ bs) u :=
  Run.extend (P := fun as t => Slept T chan lk c s as t)
    (fun _ _ _ _ run now _ next => now.snoc (sound.run run) run next) first second slept

lemma scanned_run (sound : Sound s) (other : U ≠ T)
    (first : Run step Free s as t) (slept : Slept T chan lk c s as t)
    (scan : Scanning T U chan d t) (second : Run step Free t bs u)
    (returned : u.cpu d = .thread U .user) : WokenAfterRelease T chan lk c s (as ++ bs) := by
  have both := Run.extend (P := fun as t => (Slept T chan lk c s as t ∧ Scanning T U chan d t) ∨
      WokenAfterRelease T chan lk c s as) ?_ first second (.inl ⟨slept, scan⟩)
  · rcases both with ⟨-, scan⟩ | woken
    · cases scan with
      | scan _ _ here | acquire _ _ here | test _ _ here | release _ _ here =>
        cases returned.symm.trans here
      | stopped _ here => exact nomatch returned.symm.trans here
    exact woken
  intro as t x u run now _ next
  rcases now with ⟨⟨released, wait⟩ | woken, scan⟩ | woken
  · have sound := sound.run run
    rcases scan.step sound wait other next with still | wakes
    · exact .inl ⟨Slept.snoc sound (.inl ⟨released, wait⟩) run next, still⟩
    exact .inr ⟨as, x, [], t, rfl, run, released, wakes⟩
  · exact .inr (woken.append [x])
  exact .inr (woken.append [x])

end

/-- In the run from `s`, the thread `U` acquires the lock `lk`, and after that calls
`wakeup(chan)`, which has returned at the end. -/
inductive Signals (U : KtId) (chan : Chan) (lk : LockId) (s : State n) (as : List (Label n)) : Prop
  | intro {bs cs ds : List (Label n)} {x : Label n} {d : Fin n} {pc : Pc}
      {s₁ s₂ s₃ s₄ s₅ : State n} (before : Run step Free s bs s₁)
      (actor : s₁.cpu x.cpu = .thread U pc) (acquires : step s₁ x = some s₂)
      (free : (s₁.locks.lock lk).locked = false) (got : s₂.locks.holding x.cpu lk = true)
      (between : Run step Free s₂ cs s₃) (here : s₃.cpu d = .thread U .user)
      (calls : step s₃ ⟨d, .call (.wakeup chan)⟩ = some s₄) (during : Run step Free s₄ ds s₅)
      (returns : s₅.cpu d = .thread U .user)
      (split : as = bs ++ [x] ++ cs ++ [⟨d, .call (.wakeup chan)⟩] ++ ds)

variable {chan : Chan}

lemma Moves.of_wakes (moves : Moves s c s') (here : s.cpu c = .thread me pc)
    (wakes : pc.wakes = some chan) (changed : (s'.kt k).tState ≠ (s.kt k).tState) :
    (s.kt k).tState = .sleeping ∧ (s.kt k).chan = some chan := by
  cases moves with
  | quiet kt _ => exact absurd (by rw [kt]) changed
  | dispatch j there _ _ _ _ => exact nomatch here.symm.trans there
  | write me' old pc' t there _ out _ _ _ _ _ =>
    cases here.symm.trans there
    exact nomatch wakes.symm.trans out
  | wake me' chan' m there kt _ _ =>
    cases here.symm.trans there
    cases wakes
    rw [kt] at changed
    by_cases same : k = ktAt m m.isLt
    · rw [← same, update_self] at changed
      rcases (s.kt k).wakeup_eq_or chan with eq | ⟨asleep, -⟩
      · exact absurd (by rw [eq]) changed
      exact asleep
    exact absurd (by rw [update_of_ne same]) changed

/-- A thread that calls `sleep(chan, lk)` with the lock held is made runnable after it has
released the lock, by the time a `wakeup(chan)` returns that another thread has called after
it acquired the lock; and `wakeup` changes the state of no thread that does not sleep on its
channel. -/
theorem no_wakeup_is_lost (used : ProcId → Bool) (ready : KtId → Bool) (as : List (Label n))
    (s : State n) (run : Run step Free (init n used ready) as s) :
    (∀ T U chan lk c s' bs, s.cpu c = .thread T .user → s.locks.holding c lk = true →
      step s ⟨c, .call (.sleep chan lk)⟩ = some s' → U ≠ T → Signals U chan lk s' bs →
        WokenAfterRelease T chan lk c s' bs) ∧
    ∀ x me pc chan s', s.cpu x.cpu = .thread me pc → pc.wakes = some chan → step s x = some s' →
      ∀ k, (s'.kt k).tState ≠ (s.kt k).tState →
        (s.kt k).tState = .sleeping ∧ (s.kt k).chan = some chan := by
  have sound : Sound s := (sound_init used ready).run run
  refine ⟨fun T U chan lk c s' bs here holds sleeps other signals => ?_,
    fun x me pc chan s' here wakes next k => (moves_of_step next).2.of_wakes here wakes⟩
  have sound' : Sound s' := sound.step sleeps
  have enter : Entering T chan lk c s' := by
    have sleeps : callStep s c (.sleep chan lk) (s.cpu c) = some s' := sleeps
    rw [here] at sleeps
    cases sleeps
    exact ⟨Kernel.holding_iff.mp holds, .inl (update_self ..)⟩
  obtain ⟨before, actor, acquires, free, got, between, there, calls, during, returns, rfl⟩ := signals
  have slept := (entered_run sound' enter before).resolve_left fun still =>
    nomatch free.symm.trans still.1.locked
  have slept := slept_run sound' before slept (.cons trivial acquires (.nil _))
  have first := before.snoc trivial acquires
  have slept := slept_run sound' first slept between
  have first := first.append between
  have slept := slept_run sound' first slept (.cons trivial calls (.nil _))
  refine scanned_run sound' other (first.snoc trivial calls) slept ?_ during returns
  have calls : callStep _ _ (.wakeup chan) _ = some _ := calls
  rw [there] at calls
  cases calls
  exact .scan 0 (Nat.zero_le _) (update_self ..)

/-- The thread `U` can scan the table on the CPU `d` without waiting. -/
structure Unhindered (U : KtId) (d : Fin n) (s : State n) : Prop where
  current : s.kthread d = some U
  balanced : (s.locks.hart d).Balanced
  free : ∀ k, k ≠ U → (s.locks.lock (.thread k)).locked = false

lemma step_go (here : s.cpu d = .thread me pc) : step s ⟨d, .go⟩ = threadStep s d me pc := by
  simp only [step, here, goStep]

variable {locks : Locks LockId n}

lemma attempt_acquire {l : LockId} {x : Cpu}
    (got : s.locks.acquire d l = .ok locks) :
    s.attempt d (s.acquire d l) x = some ({ s with toKernel := s.setLocks locks }.goto d x) := by
  rw [Kernel.acquire, got]
  rfl

lemma attempt_release {l : LockId} {x : Cpu}
    (got : s.locks.release d l = .ok locks) :
    s.attempt d (s.release d l) x = some ({ s with toKernel := s.setLocks locks }.goto d x) := by
  rw [Kernel.release, got]
  rfl

lemma Unhindered.wakes {m : Fin (NPROC * NKT)} (quiet : Unhindered U d s)
    (other : ktAt m m.isLt ≠ U) (here : s.cpu d = .thread U (.wakeAcquire chan m)) : ∃ as t,
    Run step Free s as t ∧ Unhindered U d t ∧ t.cpu d = .thread U (.wakeScan chan (m + 1)) := by
  obtain ⟨locks, got⟩ : ∃ locks, s.locks.acquire d (.thread (ktAt m m.isLt)) = .ok locks :=
    ⟨_, Locks.acquire_eq_ok.mpr ⟨quiet.free _ other, rfl⟩⟩
  have dropped := Locks.release_acquire quiet.balanced got
  have acquires := (step_go here).trans (attempt_acquire got)
  obtain ⟨s₁, eq₁⟩ : ∃ s₁, s₁ = { s with toKernel := s.setLocks locks }.goto d
    (.thread U (.wakeTest chan m)) := ⟨_, rfl⟩
  have here₁ : s₁.cpu d = .thread U (.wakeTest chan m) := by
    rw [eq₁]
    exact update_self ..
  obtain ⟨s₂, eq₂⟩ : ∃ s₂, s₂ = (s₁.setKt (ktAt m m.isLt)
    ((s₁.kt (ktAt m m.isLt)).wakeup chan)).goto d (.thread U (.wakeRelease chan m)) := ⟨_, rfl⟩
  have here₂ : s₂.cpu d = .thread U (.wakeRelease chan m) := by
    rw [eq₂]
    exact update_self ..
  have locks₂ : s₂.locks = locks := by
    rw [eq₂, eq₁]
    rfl
  have current₂ : s₂.kthread d = some U := by
    rw [eq₂, eq₁]
    exact quiet.current
  rw [← locks₂] at dropped
  have tests : step s₁ ⟨d, .go⟩ = some s₂ := (step_go here₁).trans (congrArg some eq₂.symm)
  have releases := (step_go here₂).trans (attempt_release dropped)
  refine ⟨_, _, .cons trivial (acquires.trans (congrArg some eq₁.symm)) (.cons trivial tests
    (.cons trivial releases (.nil _))), ⟨current₂, ?_, fun k away => ?_⟩, update_self ..⟩
  · refine (?_ : (update s.locks.hart d (s.locks.hart d).settle d).Balanced)
    rw [update_self]
    exact Hart.balanced_settle quiet.balanced
  refine (?_ : (update s.locks.lock (.thread (ktAt m m.isLt)) ⟨false, none⟩
    (.thread k)).locked = false)
  rw [update_apply]
  split_ifs
  · rfl
  exact quiet.free k away

lemma Unhindered.iterate {m : Nat} (quiet : Unhindered U d s) (h : m < NPROC * NKT)
    (here : s.cpu d = .thread U (.wakeScan chan m)) : ∃ as t, Run step Free s as t ∧
    Unhindered U d t ∧ t.cpu d = .thread U (.wakeScan chan (m + 1)) := by
  have read : s.mykthread d = .ok (some U, s.settle d) := by
    rw [Kernel.mykthread, Kernel.readOff_eq quiet.balanced, quiet.current]
  have settled : ∀ x, Unhindered U d ({ s with toKernel := s.settle d }.goto d x) := by
    refine fun x => ⟨quiet.current, ?_, quiet.free⟩
    refine (?_ : (update s.locks.hart d (s.locks.hart d).settle d).Balanced)
    rw [update_self]
    exact Hart.balanced_settle quiet.balanced
  have scan : step s ⟨d, .go⟩ = some ({ s with toKernel := s.settle d }.goto d (.thread U
      (if some U = some (ktAt m h) then .wakeScan chan (m + 1) else .wakeAcquire chan ⟨m, h⟩))) := by
    simp only [step_go here, threadStep, dif_pos h, read]
  split_ifs at scan with mine
  · exact ⟨_, _, .cons trivial scan (.nil _), settled _, update_self ..⟩
  obtain ⟨as, t, run, quiet', here'⟩ := (settled _).wakes (m := ⟨m, h⟩)
    (fun eq => mine (congrArg some eq.symm)) (update_self ..)
  exact ⟨_, t, .cons trivial scan run, quiet', here'⟩

lemma Unhindered.returns {s : State n} {m : Nat} (quiet : Unhindered U d s)
    (here : s.cpu d = .thread U (.wakeScan chan m)) :
    ∃ as t, Run step Free s as t ∧ t.cpu d = .thread U .user := by
  by_cases h : m < NPROC * NKT
  · obtain ⟨as, t, run, quiet', here'⟩ := quiet.iterate h here
    obtain ⟨bs, u, run', done⟩ := quiet'.returns here'
    exact ⟨as ++ bs, u, run.append run', done⟩
  refine ⟨[⟨d, .go⟩], s.goto d (.thread U .user), .cons trivial ?_ (.nil _), update_self ..⟩
  simp only [step_go here, threadStep, dif_neg h]
termination_by NPROC * NKT - m

def device : Chan := .other 0

def deviceLock : LockId := .other 0

def twoReady : State 2 := init 2 onlyChild fun k => k = (child, slot0) ∨ k = (child, slot1)

def goes (c : Fin 2) (m : Nat) : List (Label 2) := List.replicate m ⟨c, .go⟩

/-- What the two threads do after the call of `sleep`, up to the call of `wakeup`. -/
def signals (s : State 2) : Bool :=
  (execute step Free s (goes 0 7 ++ goes 1 9)).any fun s₁ =>
    s₁.cpu 1 = .thread (child, slot1) .user ∧ (s₁.locks.lock deviceLock).locked = false ∧
    (step s₁ ⟨1, .call (.acquire deviceLock)⟩).any fun s₂ =>
      s₂.locks.holding 1 deviceLock ∧ s₂.cpu 1 = .thread (child, slot1) .user ∧
      (step s₂ ⟨1, .call (.wakeup device)⟩).any fun s₃ =>
        s₃.cpu 1 = .thread (child, slot1) (.wakeScan device 0) ∧
        s₃.kthread 1 = some (child, slot1) ∧ s₃.locks.hart 1 = ⟨1, true, false⟩ ∧
        ∀ k, k ≠ (child, slot1) → (s₃.locks.lock (.thread k)).locked = false

lemma exists_signals {s : State 2} (h : signals s = true) :
    ∃ as, Signals (child, slot1) device deviceLock s as := by
  obtain ⟨s₁, run, h⟩ := (any_eq_true _ _).mp h
  obtain ⟨actor, free, h⟩ := of_decide_eq_true h
  obtain ⟨s₂, acquires, h⟩ := (any_eq_true _ _).mp h
  obtain ⟨got, here, h⟩ := of_decide_eq_true h
  obtain ⟨s₃, calls, h⟩ := (any_eq_true _ _).mp h
  obtain ⟨scan, current, hart, locks⟩ := of_decide_eq_true h
  have balanced : (s₃.locks.hart 1).Balanced := by
    rw [hart]
    exact ⟨by decide, by decide⟩
  obtain ⟨as, s₄, during, returns⟩ := Unhindered.returns ⟨current, balanced, locks⟩ scan
  exact ⟨_, .of_execute run, actor, acquires, free, got, .nil _, here, calls, during, returns, rfl⟩

def deviceLocked : List (Label 2) := goes 0 6 ++ [⟨0, .call (.acquire deviceLock)⟩]

theorem device_wakes_sleeper : ∃ s s' as, Run step Free twoReady deviceLocked s ∧
    step s ⟨0, .call (.sleep device deviceLock)⟩ = some s' ∧
      Signals (child, slot1) device deviceLock s' as ∧
        WokenAfterRelease (child, slot0) device deviceLock 0 s' as := by
  obtain ⟨s, run, here, holds, rest⟩ : ∃ s, Run step Free twoReady deviceLocked s ∧
      s.cpu 0 = .thread (child, slot0) .user ∧ s.locks.holding 0 deviceLock = true ∧
        (step s ⟨0, .call (.sleep device deviceLock)⟩).any signals = true :=
    Run.exists_of_execute (by decide +kernel)
  obtain ⟨s', sleeps, rest⟩ := (any_eq_true _ _).mp rest
  obtain ⟨as, signals⟩ := exists_signals rest
  have main := no_wakeup_is_lost onlyChild (fun k => k = (child, slot0) ∨ k = (child, slot1))
    deviceLocked s run
  exact ⟨s, s', as, run, sleeps, signals,
    main.1 _ _ _ _ _ _ _ here holds sleeps (by decide) signals⟩

end Xv6.SleepWakeup
