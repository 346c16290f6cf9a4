import Xv6.KthreadMachine

/-! What one step of the kernel-thread machine can do. The step function is read
once, in `moves_of_threadStep` and `steps_of_step`; later proofs go by cases on
the relations stated here. -/
namespace Xv6
open Interleaving State Function
variable {n : Nat}

def Pc.Entry : Pc → Prop
  | .createScan 0 _ | .lastScan 0 _ | .killScan 0 _ | .joinScan 0 _ none | .exitStart _
  | .execLoop 0 | .sleepOn _ | .wakeupScan _ 0 => True
  | _ => False

def Pc.Back : Pc → Prop
  | .user _ | .exitRelease _ _ | .execRelease _ => True
  | _ => False

lemma Call.entry_ne {pc : Pc} {k : Call} (h : ¬ pc.Entry) : pc ≠ k.entry := by
  rintro rfl
  cases k <;> exact h trivial

lemma Join.back_ne {pc : Pc} {j : Join} {r : Int} (h : ¬ pc.Back) : pc ≠ j.back r := by
  rintro rfl
  unfold Join.back at h
  cases hret : j.ret <;> rw [hret] at h <;> exact h trivial

/-- Steps that change nothing but the position of the acting thread. -/
inductive Local (s : State n) (me : KtId) : Pc → Pc → Prop
  | call {pc} (a0 : Int) (k : Call) : pc = k.entry → Local s me (.user a0) pc
  | createNext {i f} (h : i < NKT) : (s.kt (me.1, ⟨i, h⟩)).tState ≠ .unused →
      Local s me (.createScan i f) (.createScan (i + 1) f)
  | createFail {i f} : ¬ i < NKT → Local s me (.createScan i f) (.user (-1))
  | createRet (j) : Local s me (.createRet j) (.user (s.kt (me.1, j)).tid)
  | notLast {i status} (h : i < NKT) : (⟨i, h⟩ : Fin NKT) ≠ me.2 →
      (s.kt (me.1, ⟨i, h⟩)).Live → Local s me (.lastScan i status) (.setZombie status)
  | lastNext {i status} (h : i < NKT) :
      ((⟨i, h⟩ : Fin NKT) ≠ me.2 → (s.kt (me.1, ⟨i, h⟩)).Dead) →
      Local s me (.lastScan i status) (.lastScan (i + 1) status)
  | last {i status} : ¬ i < NKT → Local s me (.lastScan i status) (.exitStart status)
  | killNext {i ktid} (h : i < NKT) : (s.kt (me.1, ⟨i, h⟩)).tid ≠ ktid →
      Local s me (.killScan i ktid) (.killScan (i + 1) ktid)
  | killFail {i ktid} : ¬ i < NKT → Local s me (.killScan i ktid) (.user (-1))
  | joinHit {i j found} (h : i < NKT) : (s.kt (me.1, ⟨i, h⟩)).tid = j.ktid →
      Local s me (.joinScan i j found) (.joinScan (i + 1) j (some ⟨i, h⟩))
  | joinMiss {i j found} (h : i < NKT) : (s.kt (me.1, ⟨i, h⟩)).tid ≠ j.ktid →
      Local s me (.joinScan i j found) (.joinScan (i + 1) j found)
  | joinNone {i j pc} : ¬ i < NKT → pc = j.back (-1) → Local s me (.joinScan i j none) pc
  | joinFound {i j t} : ¬ i < NKT → Local s me (.joinScan i j (some t)) (.joinLock j t)
  | joinZombie {j t} : (s.kt (me.1, t)).tState = .zombie →
      Local s me (.joinTest j t) (.joinReap j t)
  | joinWait {j t} : (s.kt (me.1, t)).tState ≠ .zombie →
      Local s me (.joinTest j t) (.joinSleep j t)
  | exitEnter {status} : me.1 ≠ initproc → Local s me (.exitStart status) (.exitLoop 0 status)
  | exitSkip {i status} (h : i < NKT) :
      ((⟨i, h⟩ : Fin NKT) ≠ me.2 → (s.kt (me.1, ⟨i, h⟩)).Dead) →
      Local s me (.exitLoop i status) (.exitLoop (i + 1) status)
  | exitDone {i status} : ¬ i < NKT → Local s me (.exitLoop i status) (.exitZombie status)
  | execSkip {i} (h : i < NKT) :
      ((⟨i, h⟩ : Fin NKT) ≠ me.2 → (s.kt (me.1, ⟨i, h⟩)).Dead) →
      Local s me (.execLoop i) (.execLoop (i + 1))
  | execDone {i} : ¬ i < NKT → Local s me (.execLoop i) (.user 0)
  | wakeupDone {chan m} : ¬ m < NPROC * NKT → Local s me (.wakeupScan chan m) (.user 0)

/-- Steps that end in `panic`. -/
inductive Panics (s : State n) (me : KtId) : Pc → Panic → Prop
  | sched : (s.kt me).tState = .running → Panics s me .exitSched .schedRunning
  | nullProcess {j t} : j.status ≠ 0 → (s.kt (me.1, t)).process = none →
      Panics s me (.joinReap j t) .kerneltrap
  | init {status} : me.1 = initproc → Panics s me (.exitStart status) .initExiting
  | exitRelease (i status) : Panics s me (.exitRelease i status) .release
  | execRelease (i) : Panics s me (.execRelease i) .release

def doomed (s : State n) (c : Fin n) (me : KtId) (i : Fin NKT) (ret : Ret) : State n :=
  (s.setKt (me.1, i) { s.kt (me.1, i) with tKilled := true }).goto c me
    (.joinScan 0 ⟨(s.kt me).tid, 0, ret⟩ none)

/-- The state after `freethread` and the release of `p->lock`. -/
def freed (s : State n) (me : KtId) (t : Fin NKT) : State n :=
  (s.setKt (me.1, t) (s.kt (me.1, t)).freethread).setPLock me.1 none

inductive Move (s : State n) (c : Fin n) (me : KtId) : Pc → State n → Prop
  | goto {pc pc'} : Local s me pc pc' → Move s c me pc (s.goto c me pc')
  | panic {pc why} : Panics s me pc why → Move s c me pc (s.setCpu c (.panicked me pc why))
  | create {i f} (h : i < NKT) : (s.kt (me.1, ⟨i, h⟩)).tState = .unused →
      Move s c me (.createScan i f) ((s.create (me.1, ⟨i, h⟩) f).goto c me (.createRet ⟨i, h⟩))
  | zombie (status) : Move s c me (.setZombie status)
      ((s.setKt me ((s.kt me).exit status)).goto c me .wakeLock)
  | wakeLock : s.pLock me.1 = none →
      Move s c me .wakeLock ((s.setPLock me.1 (some c)).goto c me (.wakeScan 0))
  | wakeNext {m} (h : m < NPROC * NKT) : Move s c me (.wakeScan m)
      ((wakeupAt s me (.kthread me) (ktAt m h)).goto c me (.wakeScan (m + 1)))
  | wakeDone {m} : ¬ m < NPROC * NKT →
      Move s c me (.wakeScan m) ((s.setPLock me.1 none).goto c me .exitSched)
  | exitSched : (s.kt me).tState ≠ .running → Move s c me .exitSched (s.sched c me .zombie)
  | kill {i ktid} (h : i < NKT) : (s.kt (me.1, ⟨i, h⟩)).tid = ktid →
      Move s c me (.killScan i ktid)
        ((s.setKt (me.1, ⟨i, h⟩) (s.kt (me.1, ⟨i, h⟩)).kthreadKill).goto c me (.user 0))
  | joinLock {j t} : s.pLock me.1 = none →
      Move s c me (.joinLock j t) ((s.setPLock me.1 (some c)).goto c me (.joinTest j t))
  | reap {j t} : j.status = 0 → Move s c me (.joinReap j t) ((freed s me t).goto c me (j.back 0))
  | reapStore {j t} : j.status ≠ 0 → (s.kt (me.1, t)).process ≠ none →
      Move s c me (.joinReap j t)
      (((freed s me t).store me.1 j.status (s.kt (me.1, t)).tXstate).goto c me (j.back 0))
  | reapFault {j t} : j.status ≠ 0 →
      Move s c me (.joinReap j t) ((s.setPLock me.1 none).goto c me (j.back (-1)))
  | joinSleep {j t} : Move s c me (.joinSleep j t)
      (((s.setPLock me.1 none).setKt me ((s.kt me).sleep (.kthread (me.1, t)))).sched c me
        (.join j t))
  | exitDoom {i status} (h : i < NKT) : (⟨i, h⟩ : Fin NKT) ≠ me.2 →
      (s.kt (me.1, ⟨i, h⟩)).Live →
      Move s c me (.exitLoop i status) (doomed s c me ⟨i, h⟩ (.exit i status))
  | execDoom {i} (h : i < NKT) : (⟨i, h⟩ : Fin NKT) ≠ me.2 →
      (s.kt (me.1, ⟨i, h⟩)).Live → Move s c me (.execLoop i) (doomed s c me ⟨i, h⟩ (.exec i))
  | exitZombie {status} : s.pLock me.1 = none → Move s c me (.exitZombie status)
      ((s.setZombie me.1 status).goto c me (.exitMark 0 status))
  | exitMark {i : Nat} {status : Int} (h : i < me.2) : Move s c me (.exitMark i status)
      ((s.setKt (me.1, ⟨i, h.trans me.2.isLt⟩)
        ((s.kt (me.1, ⟨i, h.trans me.2.isLt⟩)).exit status)).goto c me (.exitMark (i + 1) status))
  | exitLeave {i : Nat} {status : Int} : ¬ i < me.2 →
      Move s c me (.exitMark i status) ((s.markFrom me status).sched c me .zombie)
  | sleepOn (chan) : Move s c me (.sleepOn chan)
      ((s.setKt me ((s.kt me).sleep (.other chan))).sched c me .sleep)
  | wakeupNext {chan m} (h : m < NPROC * NKT) : Move s c me (.wakeupScan chan m)
      ((wakeupAt s me (.other chan) (ktAt m h)).goto c me (.wakeupScan chan (m + 1)))

variable {s s' : State n} {c : Fin n} {me : KtId} {pc : Pc} {a : Act}

lemma moves_of_reap {j : Join} {t : Fin NKT} (h : reap s c me j t a = some s') :
    Move s c me (.joinReap j t) s' := by
  cases a with
  | go =>
    simp only [reap] at h
    split_ifs at h with null
    · cases h
      exact .reap null
    split at h <;> cases h
    · exact .panic (.nullProcess null (by assumption))
    rename_i owner
    exact .reapStore null (owner ▸ Option.some_ne_none _)
  | fault =>
    simp only [reap] at h
    split_ifs at h with null
    split at h <;> cases h
    · exact .panic (.nullProcess null (by assumption))
    exact .reapFault null
  | call k => cases h

lemma moves_of_doomSibling {i : Fin NKT} {pc next : Pc} {ret : Ret}
    (skip : (i ≠ me.2 → (s.kt (me.1, i)).Dead) → Local s me pc next)
    (doom : i ≠ me.2 → (s.kt (me.1, i)).Live → Move s c me pc (doomed s c me i ret)) :
    Move s c me pc (doomSibling s c me i next ret) := by
  unfold doomSibling
  split_ifs with own live
  · exact .goto (skip fun other => absurd own other)
  · exact doom own live
  exact .goto (skip fun _ => live)

lemma moves_of_threadStep (h : threadStep s c me pc a = some s') : Move s c me pc s' := by
  unfold threadStep at h
  split at h
  case h_1 a0 k => cases h; exact .goto (.call a0 k rfl)
  case h_2 i f =>
    split_ifs at h with inside free <;> cases h
    · exact .create inside free
    · exact .goto (.createNext inside free)
    exact .goto (.createFail inside)
  case h_3 j => cases h; exact .goto (.createRet j)
  case h_4 i status =>
    split_ifs at h with inside live <;> cases h
    · exact .goto (.notLast inside live.1 live.2)
    · exact .goto (.lastNext inside fun other alive => live ⟨other, alive⟩)
    exact .goto (.last inside)
  case h_5 status => cases h; exact .zombie status
  case h_6 => split_ifs at h with free; cases h; exact .wakeLock free
  case h_7 m =>
    split_ifs at h with inside <;> cases h
    · exact .wakeNext inside
    exact .wakeDone inside
  case h_8 =>
    split_ifs at h with running <;> cases h
    · exact .panic (.sched running)
    exact .exitSched running
  case h_9 i ktid =>
    split_ifs at h with inside found <;> cases h
    · exact .kill inside found
    · exact .goto (.killNext inside found)
    exact .goto (.killFail inside)
  case h_10 i j found =>
    split_ifs at h with inside hit
    · cases h; exact .goto (.joinHit inside hit)
    · cases h; exact .goto (.joinMiss inside hit)
    split at h <;> cases h
    · exact .goto (.joinNone inside rfl)
    exact .goto (.joinFound inside)
  case h_11 j t => split_ifs at h with free; cases h; exact .joinLock free
  case h_12 j t =>
    split_ifs at h with dead <;> cases h
    · exact .goto (.joinZombie dead)
    exact .goto (.joinWait dead)
  case h_13 j t => exact moves_of_reap h
  case h_14 j t => cases h; exact .joinSleep
  case h_15 status =>
    split_ifs at h with isInit <;> cases h
    · exact .panic (.init isInit)
    exact .goto (.exitEnter isInit)
  case h_16 i status =>
    split_ifs at h with inside <;> cases h
    · exact moves_of_doomSibling (.exitSkip inside) (.exitDoom inside)
    exact .goto (.exitDone inside)
  case h_17 i status => cases h; exact .panic (.exitRelease i status)
  case h_18 status => split_ifs at h with free; cases h; exact .exitZombie free
  case h_19 i status =>
    split_ifs at h with before <;> cases h
    · exact .exitMark before
    exact .exitLeave before
  case h_20 i =>
    split_ifs at h with inside <;> cases h
    · exact moves_of_doomSibling (.execSkip inside) (.execDoom inside)
    exact .goto (.execDone inside)
  case h_21 i => cases h; exact .panic (.execRelease i)
  case h_22 chan => cases h; exact .sleepOn chan
  case h_23 chan m =>
    split_ifs at h with inside <;> cases h
    · exact .wakeupNext inside
    exact .goto (.wakeupDone inside)
  case h_24 => cases h

/-- One step of the machine: the scheduler goes on, takes a thread, or the
running thread moves. -/
inductive Steps {n : Nat} (s : State n) (c : Fin n) : State n → Prop
  | scan {x : Cpu} : (s.cpu c).pos = none → x.pos = none → Steps s c (s.setCpu c x)
  | dispatch (k : KtId) : s.cpu c = .scanKt k.1 k.2 → (s.kt k).tState = .runnable →
      Steps s c (dispatch s c k)
  | move {me : KtId} {pc : Pc} {s' : State n} : s.cpu c = .thread me pc → Move s c me pc s' → Steps s c s'

lemma Steps.move_of {me : KtId} {pc : Pc} (h : Steps s c s') (cpu : s.cpu c = .thread me pc) :
    Move s c me pc s' := by
  cases h with
  | scan idle => rw [cpu] at idle; cases idle
  | dispatch k cpu' => rw [cpu] at cpu'; cases cpu'
  | move cpu' m =>
    obtain ⟨rfl, rfl⟩ := Cpu.thread.inj (cpu.symm.trans cpu')
    exact m

lemma steps_of_step {l : Label n} (h : step s l = some s') : Steps s l.cpu s' := by
  unfold step at h
  split at h
  case h_1 p cpu _ =>
    split_ifs at h <;> cases h
    all_goals exact .scan (by rw [cpu]; rfl) rfl
  case h_2 p i cpu _ =>
    split_ifs at h with inside ready <;> cases h
    · exact .dispatch (p, ⟨i, inside⟩) cpu ready
    all_goals exact .scan (by rw [cpu]; rfl) rfl
  case h_3 me pc cpu => exact .move cpu (moves_of_threadStep h)
  case h_4 => cases h

lemma call_of_step {l : Label n} {a0 : Int} (cpu : s.cpu l.cpu = .thread me (.user a0))
    (h : step s l = some s') : ∃ k, l.act = .call k ∧ s' = s.goto l.cpu me k.entry := by
  simp only [step, cpu] at h
  cases act : l.act with
  | call k =>
    rw [act] at h
    exact ⟨k, rfl, (Option.some.inj h).symm⟩
  | go | fault =>
    rw [act] at h
    cases h

/-- The positions that the acting thread can be at after its step. -/
inductive Arrives {n : Nat} (s : State n) (me : KtId) : Pc → Pc → Prop
  | stay {pc : Pc} {why : Panic} : Panics s me pc why → Arrives s me pc pc
  | go {pc pc' : Pc} : Local s me pc pc' → Arrives s me pc pc'
  | create {i : Nat} {f : Trapframe} (h : i < NKT) :
      Arrives s me (.createScan i f) (.createRet ⟨i, h⟩)
  | zombie (status : Int) : Arrives s me (.setZombie status) .wakeLock
  | wakeLock : Arrives s me .wakeLock (.wakeScan 0)
  | wakeNext (m : Nat) : Arrives s me (.wakeScan m) (.wakeScan (m + 1))
  | wakeDone (m : Nat) : Arrives s me (.wakeScan m) .exitSched
  | kill (i : Nat) (ktid : Int) : Arrives s me (.killScan i ktid) (.user 0)
  | joinLock {j : Join} {t : Fin NKT} : Arrives s me (.joinLock j t) (.joinTest j t)
  | reap {j : Join} {t : Fin NKT} {pc : Pc} (r : Int) : pc = j.back r →
      Arrives s me (.joinReap j t) pc
  | exitDoom {i : Fin NKT} {status : Int} : i ≠ me.2 → (s.kt (me.1, i)).Live →
      Arrives s me (.exitLoop i status) (.joinScan 0 ⟨(s.kt me).tid, 0, .exit i status⟩ none)
  | execDoom {i : Fin NKT} : i ≠ me.2 → (s.kt (me.1, i)).Live →
      Arrives s me (.execLoop i) (.joinScan 0 ⟨(s.kt me).tid, 0, .exec i⟩ none)
  | exitZombie (status : Int) : Arrives s me (.exitZombie status) (.exitMark 0 status)
  | exitMark (i : Nat) (status : Int) : Arrives s me (.exitMark i status) (.exitMark (i + 1) status)
  | wakeupNext (chan m : Nat) : Arrives s me (.wakeupScan chan m) (.wakeupScan chan (m + 1))

variable {d : Fin n}

lemma goto_other (s : State n) (ne : d ≠ c) : (s.goto c me pc).cpu d = s.cpu d := by
  simp only [State.goto, setCpu_cpu, update_of_ne ne]

lemma Move.other (h : Move s c me pc s') (ne : d ≠ c) : s'.cpu d = s.cpu d := by
  cases h with
  | wakeNext h =>
    rw [goto_other _ ne]
    unfold wakeupAt
    split_ifs <;> rfl
  | wakeupNext h =>
    rw [goto_other _ ne]
    unfold wakeupAt
    split_ifs <;> rfl
  | panic | exitSched | joinSleep | exitLeave | sleepOn =>
    simp only [sched_cpu, setCpu_cpu, update_of_ne ne, setKt_cpu, setPLock_cpu,
      markFrom_cpu]
  | _ =>
    first
      | rw [goto_other _ ne]; rfl
      | exact goto_other _ ne

lemma Steps.other (h : Steps s c s') (ne : d ≠ c) : s'.cpu d = s.cpu d := by
  cases h with
  | scan => simp only [setCpu_cpu, update_of_ne ne]
  | dispatch k =>
    unfold Xv6.dispatch
    cases s.context k <;> simp only [setCpu_cpu, update_of_ne ne, setKt_cpu]
  | move _ m => exact m.other ne

/-- The channel on which a thread at `pc` is about to sleep. -/
def Pc.sleepChan (me : KtId) : Pc → Option Chan
  | .joinSleep _ t => some (.kthread (me.1, t))
  | .sleepOn chan => some (.other chan)
  | _ => none

def Pc.wakeChan (me : KtId) : Pc → Option Chan
  | .wakeScan _ => some (.kthread me)
  | .wakeupScan chan _ => some (.other chan)
  | _ => none

inductive EntryStep {n : Nat} (s : State n) (c : Fin n) (k : KtId) : Kthread → Prop
  | same : EntryStep s c k (s.kt k)
  | create {me : KtId} {f : Trapframe} : s.cpu c = .thread me (.createScan k.2 f) → k.1 = me.1 →
      (s.kt k).tState = .unused → EntryStep s c k
        { (s.kt k).allockthread k (s.proc k.1).pCounter with tState := .runnable }
  | zombie {status : Int} : s.cpu c = .thread k (.setZombie status) →
      EntryStep s c k ((s.kt k).exit status)
  | wake {me : KtId} {pc : Pc} {chan : Chan} : s.cpu c = .thread me pc → pc.wakeChan me = some chan → k ≠ me →
      (s.kt k).tState = .sleeping → (s.kt k).chan = some chan →
      EntryStep s c k { s.kt k with tState := .runnable }
  | kill {me : KtId} {ktid : Int} : s.cpu c = .thread me (.killScan k.2 ktid) → k.1 = me.1 →
      (s.kt k).tid = ktid → EntryStep s c k (s.kt k).kthreadKill
  | doom {me : KtId} : (∃ status, s.cpu c = .thread me (.exitLoop k.2 status)) ∨
      s.cpu c = .thread me (.execLoop k.2) → k.1 = me.1 → k ≠ me → (s.kt k).Live →
      EntryStep s c k { s.kt k with tKilled := true }
  | reap {me : KtId} {j : Join} : s.cpu c = .thread me (.joinReap j k.2) → k.1 = me.1 →
      EntryStep s c k (s.kt k).freethread
  | sleep {pc : Pc} {chan : Chan} : s.cpu c = .thread k pc → pc.sleepChan k = some chan →
      EntryStep s c k ((s.kt k).sleep chan)
  | mark {me : KtId} {i : Nat} {status : Int} : s.cpu c = .thread me (.exitMark i status) →
      k.1 = me.1 → (k = me → ¬ i < me.2) →
      EntryStep s c k ((s.kt k).exit status)
  | dispatch {chan : Option Chan} : s.cpu c = .scanKt k.1 k.2 → (s.kt k).tState = .runnable →
      (chan = none ∨ chan = (s.kt k).chan ∧ (s.context k = .forkret ∨ s.context k = .zombie)) →
      EntryStep s c k { s.kt k with tState := .running, chan }

lemma entry_update (k : KtId) {i : KtId} {t : Kthread} (h : EntryStep s c i t) :
    EntryStep s c k (update s.kt i t k) := by
  by_cases same : k = i
  · subst same
    rwa [update_self]
  rw [update_of_ne same]
  exact .same

lemma entry_wakeupAt (k i : KtId) {chan : Chan} (cpu : s.cpu c = .thread me pc)
    (wakes : pc.wakeChan me = some chan) : EntryStep s c k ((wakeupAt s me chan i).kt k) := by
  unfold wakeupAt
  split_ifs with own
  · exact .same
  apply entry_update
  rcases (s.kt i).wakeup_eq_or chan with eq | ⟨asleep, eq⟩
  · rw [eq]
    exact .same
  rw [eq]
  exact .wake cpu wakes own asleep.1 asleep.2

lemma Move.entry (cpu : s.cpu c = .thread me pc) (h : Move s c me pc s') (k : KtId) :
    EntryStep s c k (s'.kt k) := by
  cases h with
  | goto | panic | wakeLock | wakeDone | joinLock | reapFault | exitZombie | exitSched =>
    exact .same
  | create h free => exact entry_update k (.create cpu rfl free)
  | zombie status => exact entry_update k (.zombie cpu)
  | wakeNext h => exact entry_wakeupAt k _ cpu rfl
  | wakeupNext h => exact entry_wakeupAt k _ cpu rfl
  | kill h found => exact entry_update k (.kill cpu rfl found)
  | reap | reapStore => exact entry_update k (.reap cpu rfl)
  | joinSleep => exact entry_update k (.sleep cpu rfl)
  | sleepOn chan => exact entry_update k (.sleep cpu rfl)
  | exitDoom h other live =>
    exact entry_update k (.doom (.inl ⟨_, cpu⟩) rfl (fun eq => other (congrArg Prod.snd eq)) live)
  | execDoom h other live =>
    exact entry_update k (.doom (.inr cpu) rfl (fun eq => other (congrArg Prod.snd eq)) live)
  | exitMark h =>
    refine entry_update k (.mark cpu rfl fun eq => ?_)
    rw [← congrArg Prod.snd eq]
    exact Nat.lt_irrefl _
  | exitLeave h =>
    simp only [sched_kt, markFrom_kt]
    split_ifs with later
    · exact .mark cpu later.1 fun _ => h
    exact .same

lemma Steps.entry (h : Steps s c s') (k : KtId) : EntryStep s c k (s'.kt k) := by
  cases h with
  | scan => exact .same
  | move cpu m => exact m.entry cpu k
  | dispatch i cpu ready =>
    unfold Xv6.dispatch
    cases ctx : s.context i with
    | forkret => exact entry_update k (.dispatch cpu ready (.inr ⟨rfl, .inl ctx⟩))
    | zombie => exact entry_update k (.dispatch cpu ready (.inr ⟨rfl, .inr ctx⟩))
    | join | sleep => exact entry_update k (.dispatch cpu ready (.inl rfl))

end Xv6
