import Xv6.WaitLoops

/-! What a killed thread does after it has been woken in a waiting loop. Each loop but that of
`kthread_join` tests the kill flag of the process before it sleeps, so a thread whose process
has been killed does not sleep again. None of them tests the flag that `kthread_kill` sets, and
`kthread_join` tests none, so such a thread goes back to sleep. -/
namespace Xv6.WaitLoop
open Interleaving Option WaitLoop.State
open Function (update update_apply update_of_ne update_self)

def Loop.joins : Loop → Bool
  | .kthreadJoin _ _ => true
  | _ => false

def Pc.inLoop : Pc → Bool
  | .test _ | .check _ | .full _ _ _ | .sleeps _ | .woken _ | .relock _ | .scan _ _ _ => true
  | _ => false

/-- The position comes after a `sleep` in a loop and before the test of the kill flag. -/
def Pc.retests : Pc → Bool
  | .woken l | .relock l | .test l | .check l => !l.joins
  | .scan _ _ _ => true
  | _ => false

def FreesAt (s : State) (me k : KtId) (fault : Bool) : Pc → Prop
  | .scan store j _ => (k.1 : Nat) = j ∧ (s.proc k.1).parent = some me.1 ∧
      (s.proc k.1).state = .zombie ∧ ¬ (store = true ∧ fault = true)
  | .test (.kthreadJoin t store) => k = (me.1, t) ∧ (s.kt k).tState = .zombie ∧
      ¬ (store = true ∧ fault = true)
  | _ => False

instance (s : State) (me k : KtId) (fault : Bool) (pc : Pc) : Decidable (FreesAt s me k fault pc) := by
  unfold FreesAt
  split <;> infer_instance

def Frees (s : State) (x : Label) (k : KtId) : Prop :=
  match x with
  | .go me fault => FreesAt s me k fault (s.pc me)
  | _ => False

instance (s : State) (x : Label) (k : KtId) : Decidable (Frees s x k) := by
  unfold Frees
  split <;> infer_instance

/-- The thread is in a loop before the step, and the step does not free its entry. -/
def Stays (k : KtId) (s : State) (x : Label) : Prop := (s.pc k).inLoop = true ∧ ¬ Frees s x k

instance (k : KtId) (s : State) (x : Label) : Decidable (Stays k s x) :=
  inferInstanceAs (Decidable (_ ∧ _))

/-- How many steps of its own a thread can take in a loop after a `sleep`. -/
def Loop.size : Loop → Nat
  | .consoleread _ n => n.toNat
  | _ => 0

def Pc.rank : Pc → Nat
  | .woken l => NPROC + 5 + l.size
  | .relock l => NPROC + 4 + l.size
  | .test l => NPROC + 3 + l.size
  | .scan _ j _ => NPROC - j + 2
  | .check _ => 1
  | _ => 0

structure Killed (s : State) (k : KtId) : Prop where
  killed : (s.proc k.1).killed = true
  alive : (s.proc k.1).state ≠ .unused
  taken : (s.kt k).tState ≠ .unused

variable {s s' : State} {me k : KtId} {x : Label}

lemma Killed.congr (h : Killed s k) (killed : (s'.proc k.1).killed = (s.proc k.1).killed)
    (alive : (s'.proc k.1).state = (s.proc k.1).state)
    (taken : (s.kt k).tState ≠ .unused → (s'.kt k).tState ≠ .unused) : Killed s' k :=
  ⟨killed.trans h.killed, alive.trans_ne h.alive, taken h.taken⟩

/-- What a step of the thread `me` leaves alone: the position of another thread, and what makes
it a killed one. -/
structure Frame (s s' : State) (me k : KtId) : Prop where
  pc : k ≠ me → s'.pc k = s.pc k
  killed : Killed s k → Killed s' k

lemma Frame.trans {t : State} (first : Frame s s' me k) (second : Frame s' t me k) :
    Frame s t me k :=
  ⟨fun other => (second.pc other).trans (first.pc other), fun h => second.killed (first.killed h)⟩

lemma Frame.of_kt (pc : k ≠ me → s'.pc k = s.pc k) (proc : s'.proc = s.proc)
    (kt : (s.kt k).tState ≠ .unused → (s'.kt k).tState ≠ .unused) : Frame s s' me k :=
  ⟨pc, fun h => h.congr (by rw [proc]) (by rw [proc]) kt⟩

lemma Frame.goto (pc : Pc) : Frame s (s.goto me pc) me k :=
  .of_kt (fun other => update_of_ne other ..) rfl id

lemma Frame.ret (r : Int) : Frame s (s.ret me r) me k :=
  .of_kt (fun other => update_of_ne other ..) rfl id

lemma Frame.release (l : Lock) : Frame s (s.release l) me k := .of_kt (fun _ => rfl) rfl id

lemma Frame.acquire (l : Lock) : Frame s (s.acquire me l) me k := .of_kt (fun _ => rfl) rfl id

lemma Frame.setPipe (pi : Nat) (p : Pipe) : Frame s (s.setPipe pi p) me k :=
  .of_kt (fun _ => rfl) rfl id

lemma Frame.setCons (c : Cons) : Frame s (s.setCons c) me k := .of_kt (fun _ => rfl) rfl id

lemma Frame.leave (pc : Pc) : Frame s (s.leave me pc) me k :=
  .of_kt (fun other => update_of_ne other ..) rfl id

lemma Frame.wakeup (actor : Option KtId) (chan : Chan) : Frame s (s.wakeup actor chan) me k := by
  refine .of_kt (fun _ => rfl) rfl fun taken => ?_
  rw [wakeup_kt]
  unfold Kthread.wakeup
  split_ifs
  · exact taken
  · exact nofun
  exact taken

lemma Frame.setKt {j : KtId} {t : Kthread}
    (h : k = j → (s.kt k).tState ≠ .unused → t.tState ≠ .unused) : Frame s (s.setKt j t) me k := by
  refine .of_kt (fun _ => rfl) rfl fun taken => ?_
  rw [setKt_kt, update_apply]
  split_ifs with eq
  · exact h eq taken
  exact taken

lemma Frame.freeproc {p : ProcId} (away : k.1 ≠ p) : Frame s (s.freeproc p) me k := by
  refine ⟨fun _ => ?_, fun h => h.congr ?_ ?_ fun taken => ?_⟩
  · rw [freeproc_pc, if_neg away]
  · rw [freeproc_proc, update_of_ne away]
  · rw [freeproc_proc, update_of_ne away]
  rwa [freeproc_kt, if_neg away]

variable {l : Loop} {pi : Nat} {i n : Int} {fault : Bool} {pc : Pc}

lemma Frame.lockStep (next : lockStep s me l = some s') : Frame s s' me k := by
  obtain ⟨-, rfl⟩ := guarded.mp next
  exact (Frame.acquire _).trans (Frame.goto _)

lemma Frame.readDone : Frame s (readDone s me pi i) me k :=
  ((Frame.wakeup _ _).trans (Frame.release _)).trans (Frame.ret _)

lemma Frame.writeDone : Frame s (writeDone s me pi i) me k :=
  ((Frame.wakeup _ _).trans (Frame.release _)).trans (Frame.ret _)

lemma Frame.consume {target : Int} : Frame s (consume s me target n fault) me k := by
  unfold WaitLoop.consume
  dsimp only
  split_ifs
  · exact (((Frame.setCons _).trans (Frame.setCons _)).trans (Frame.release _)).trans (Frame.ret _)
  · exact ((Frame.setCons _).trans (Frame.release _)).trans (Frame.ret _)
  · exact ((Frame.setCons _).trans (Frame.release _)).trans (Frame.ret _)
  · exact ((Frame.setCons _).trans (Frame.release _)).trans (Frame.ret _)
  exact (Frame.setCons _).trans (Frame.goto _)

lemma Frame.testStep (kept : ¬ FreesAt s me k fault (.test l)) :
    Frame s (testStep s me fault l) me k := by
  cases l with
  | piperead pi n =>
    rw [testStep]
    split_ifs
    · exact Frame.goto _
    exact Frame.goto _
  | pipewrite pi n i =>
    rw [testStep]
    split_ifs
    · exact (Frame.release _).trans (Frame.ret _)
    · exact Frame.goto _
    exact Frame.writeDone
  | consoleread target n =>
    rw [testStep]
    split_ifs
    · exact Frame.goto _
    · exact Frame.consume
    exact (Frame.release _).trans (Frame.ret _)
  | sysSleep n ticks0 =>
    rw [testStep]
    split_ifs
    · exact Frame.goto _
    exact (Frame.release _).trans (Frame.ret _)
  | wait store => exact Frame.goto _
  | kthreadJoin t store =>
    rw [testStep]
    split_ifs with zombie stop
    · exact (Frame.release _).trans (Frame.ret _)
    · refine ((Frame.setKt fun eq _ => ?_).trans (Frame.release _)).trans (Frame.ret _)
      exact absurd ⟨eq, eq ▸ zombie, stop⟩ kept
    exact Frame.goto _

lemma Frame.checkStep (next : checkStep s me l = some s') : Frame s s' me k := by
  obtain ⟨-, rfl⟩ := guarded.mp next
  split_ifs
  · exact (Frame.release _).trans (Frame.ret _)
  split
  · exact Frame.goto _
  exact Frame.goto _

lemma Frame.fullStep : Frame s (fullStep s me pi n i fault) me k := by
  unfold WaitLoop.fullStep
  split_ifs
  · exact (Frame.wakeup _ _).trans (Frame.goto _)
  · exact Frame.writeDone
  exact (Frame.setPipe _ _).trans (Frame.goto _)

lemma Frame.copyStep : Frame s (copyStep s me pi n i fault) me k := by
  unfold WaitLoop.copyStep
  dsimp only
  split_ifs
  · exact (Frame.setPipe _ _).trans Frame.readDone
  · exact (Frame.setPipe _ _).trans (Frame.goto _)
  exact Frame.readDone

lemma Frame.scanStep {store havekids : Bool} {j : Nat}
    (kept : ¬ FreesAt s me k fault (.scan store j havekids))
    (next : scanStep s me store j havekids fault = some s') : Frame s s' me k := by
  unfold WaitLoop.scanStep at next
  split_ifs at next with inTable child free zombie stop kids <;> cases next
  · exact (Frame.release _).trans (Frame.ret _)
  · refine ((Frame.freeproc fun eq => ?_).trans (Frame.release _)).trans (Frame.ret _)
    refine kept ?_
    rw [FreesAt, eq]
    exact ⟨rfl, child, zombie, stop⟩
  · exact Frame.goto _
  · exact Frame.goto _
  · exact Frame.goto _
  exact (Frame.release _).trans (Frame.ret _)

lemma Frame.goStep (kept : ¬ FreesAt s me k fault (s.pc me))
    (next : goStep s me fault (s.pc me) = some s') : Frame s s' me k := by
  generalize here : s.pc me = pos at next
  cases pos with
  | idle | user => exact nomatch next
  | enter l | relock l => exact Frame.lockStep next
  | test l =>
    rw [here] at kept
    cases next
    exact Frame.testStep kept
  | check l => exact Frame.checkStep next
  | full pi n i =>
    cases next
    exact Frame.fullStep
  | sleeps l =>
    cases next
    refine ((Frame.setKt fun _ _ => ?_).trans (Frame.release _)).trans (Frame.leave _)
    exact ThreadState.noConfusion
  | woken l =>
    cases next
    refine (Frame.setKt fun eq taken => ?_).trans (Frame.goto _)
    rwa [eq] at taken
  | copy pi n i =>
    cases next
    exact Frame.copyStep
  | scan store j havekids =>
    rw [here] at kept
    exact Frame.scanStep kept next
  | find i ktid found store =>
    cases next
    unfold findStep
    split
    · exact Frame.goto _
    split
    · exact Frame.ret _
    exact Frame.goto _

lemma Killed.exitStep {status : Int} (h : Killed s k) : Killed (exitStep s me status) k := by
  have woken : ∀ (t : State) (chan : Chan), Killed t k → Killed (t.wakeup (some me) chan) k :=
    fun t chan => (Frame.wakeup (some me) chan : Frame t _ me k).killed
  have reparented : Killed { s with proc := fun q => if (s.proc q).parent = some me.1 then
      { s.proc q with parent := some initproc } else s.proc q } k := by
    refine h.congr ?_ ?_ id
    · dsimp only
      split_ifs <;> rfl
    dsimp only
    split_ifs <;> rfl
  have ended : ∀ t : State, Killed t k → Killed { t with
      proc := update t.proc me.1 { t.proc me.1 with xstate := status, state := .zombie }
      kt := fun k => if k.1 = me.1 then (t.kt k).exit status else t.kt k
      pc := update t.pc me .idle
      onCpu := update t.onCpu me false } k := by
    intro t h
    refine ⟨?_, ?_, ?_⟩
    · dsimp only
      rw [update_apply]
      split_ifs with eq
      · rw [← eq]
        exact h.killed
      exact h.killed
    · dsimp only
      rw [update_apply]
      split_ifs
      · exact nofun
      exact h.alive
    dsimp only
    split_ifs
    · exact nofun
    exact h.taken
  unfold WaitLoop.exitStep
  refine ended _ ?_
  split
  · refine woken _ _ ?_
    split_ifs
    · exact woken _ _ reparented
    exact reparented
  split_ifs
  · exact woken _ _ reparented
  exact reparented

lemma exitStep_pc {status : Int} (other : k ≠ me) : (exitStep s me status).pc k = s.pc k := by
  unfold exitStep
  dsimp only
  rw [update_of_ne other]
  split
  · split_ifs <;> rfl
  split_ifs <;> rfl

def Label.own (k : KtId) : Label → Bool
  | .go me _ => me = k
  | _ => false

lemma Killed.step (h : Killed s k) (inLoop : (s.pc k).inLoop = true) (kept : ¬ Frees s x k)
    (next : step s x = some s') : Killed s' k ∧ (Label.own k x = false → s'.pc k = s.pc k) := by
  have notMe : ∀ me, s.pc me = .user → k ≠ me := by
    rintro me user rfl
    rw [user] at inLoop
    exact nomatch inLoop
  cases x with
  | go me fault =>
    obtain ⟨-, next⟩ := ite_none_right_eq_some.mp next
    have frame := Frame.goStep kept next
    refine ⟨frame.killed h, fun notOwn => frame.pc ?_⟩
    exact Ne.symm (of_decide_eq_false notOwn)
  | call me c =>
    obtain ⟨⟨-, user⟩, rfl⟩ := guarded.mp next
    have frame : Frame s (s.goto me c.pc) me k := .goto c.pc
    exact ⟨frame.killed h, fun _ => frame.pc (notMe me user)⟩
  | dispatch j =>
    obtain ⟨-, rfl⟩ := guarded.mp next
    have frame : Frame s (s.setKt j { s.kt j with tState := .running }) k k :=
      .setKt fun _ _ => ThreadState.noConfusion
    exact ⟨(frame.killed h).congr rfl rfl id, fun _ => rfl⟩
  | kill p =>
    obtain ⟨-, rfl⟩ := guarded.mp next
    refine ⟨⟨?_, ?_, ?_⟩, fun _ => rfl⟩
    · dsimp only
      rw [update_apply]
      split_ifs
      · rfl
      exact h.killed
    · dsimp only
      rw [update_apply]
      split_ifs with eq
      · rw [← eq]
        exact h.alive
      exact h.alive
    dsimp only
    split_ifs
    · exact nofun
    exact h.taken
  | kthreadKill j =>
    cases next
    have frame : Frame s (s.setKt j (s.kt j).kthreadKill) k k := by
      refine .setKt fun eq taken => ?_
      rw [Kthread.kthreadKill]
      dsimp only
      split_ifs
      · exact nofun
      rwa [eq] at taken
    exact ⟨frame.killed h, fun _ => rfl⟩
  | pipeclose pi writable =>
    obtain ⟨-, rfl⟩ := guarded.mp next
    split_ifs
    · have frame : Frame s ((s.setPipe pi { s.pipe pi with writeopen := false }).wakeup none
        (readChan pi)) k k := (Frame.setPipe _ _).trans (Frame.wakeup _ _)
      exact ⟨frame.killed h, fun _ => rfl⟩
    have frame : Frame s ((s.setPipe pi { s.pipe pi with readopen := false }).wakeup none
      (writeChan pi)) k k := (Frame.setPipe _ _).trans (Frame.wakeup _ _)
    exact ⟨frame.killed h, fun _ => rfl⟩
  | consoleintr c =>
    rw [step] at next
    obtain ⟨-, rfl⟩ := guarded.mp next
    split
    · have frame : Frame s ((s.setCons (s.cons.intr c).1).wakeup none consChan) k k :=
        (Frame.setCons _).trans (Frame.wakeup _ _)
      exact ⟨frame.killed h, fun _ => rfl⟩
    have frame : Frame s (s.setCons (s.cons.intr c).1) k k := Frame.setCons _
    exact ⟨frame.killed h, fun _ => rfl⟩
  | clockintr =>
    obtain ⟨-, rfl⟩ := guarded.mp next
    have frame : Frame { s with ticks := s.ticks + 1 }
        ({ s with ticks := s.ticks + 1 }.wakeup none ticksChan) k k := Frame.wakeup _ _
    exact ⟨frame.killed (h.congr rfl rfl id), fun _ => rfl⟩
  | exit me status =>
    obtain ⟨⟨-, user, -⟩, rfl⟩ := guarded.mp next
    exact ⟨h.exitStep, fun _ => exitStep_pc (notMe me user)⟩
  | kthreadExit me status =>
    obtain ⟨⟨-, user, -⟩, rfl⟩ := guarded.mp next
    have frame : Frame s (((s.setKt me ((s.kt me).exit status)).wakeup (some me)
        (.kthread me)).leave me .idle) me k := by
      refine ((Frame.setKt fun _ _ => ?_).trans (Frame.wakeup _ _)).trans (Frame.leave _)
      exact ThreadState.noConfusion
    exact ⟨frame.killed h, fun _ => frame.pc (notMe me user)⟩
  | fork me np pid =>
    obtain ⟨⟨-, user, unused, -⟩, rfl⟩ := guarded.mp next
    have away : k.1 ≠ np := by
      rintro rfl
      exact h.alive unused
    have other : k ≠ (np, slot0) := fun eq => away (congrArg Prod.fst eq)
    refine ⟨h.congr ?_ ?_ fun taken => ?_, fun _ => update_of_ne other ..⟩
    · rw [start_proc]
      dsimp only
      rw [update_of_ne away]
    · rw [start_proc]
      dsimp only
      rw [update_of_ne away]
    rw [start_kt, update_of_ne other]
    exact taken
  | kthreadCreate me i tid =>
    obtain ⟨⟨-, user, free⟩, rfl⟩ := guarded.mp next
    have other : k ≠ (me.1, i) := by
      rintro rfl
      exact h.taken free
    refine ⟨h.congr rfl rfl fun taken => ?_, fun _ => update_of_ne other ..⟩
    rw [start_kt, update_of_ne other]
    exact taken

/-- The thread is out of the loop, or closer to the test of the kill flag than at `pc`. -/
def Closer (s : State) (k : KtId) (pc : Pc) : Prop :=
  (s.pc k).inLoop = true → (s.pc k).retests = true ∧ (s.pc k).rank < pc.rank

lemma Closer.goto {pc' : Pc} (retests : pc'.inLoop = true → pc'.retests = true)
    (rank : pc'.inLoop = true → pc'.rank < pc.rank) : Closer (s.goto k pc') k pc := by
  intro inLoop
  rw [goto_pc, update_self] at inLoop ⊢
  exact ⟨retests inLoop, rank inLoop⟩

lemma Closer.ret {r : Int} : Closer (s.ret k r) k pc := by
  intro inLoop
  rw [ret_pc, update_self] at inLoop
  exact nomatch inLoop

lemma Closer.consume {target : Int} (more : 0 < n) :
    Closer (consume s k target n fault) k (.test (.consoleread target n)) := by
  unfold WaitLoop.consume
  dsimp only
  split_ifs
  · exact .ret
  · exact .ret
  · exact .ret
  · exact .ret
  refine .goto (fun _ => rfl) fun _ => ?_
  simp only [Pc.rank, Loop.size]
  omega

lemma Closer.testStep (retests : (Pc.test l).retests = true) :
    Closer (testStep s k fault l) k (.test l) := by
  have rank : ∀ l', (Pc.check l').rank < (Pc.test l).rank := by
    intro l'
    simp only [Pc.rank]
    omega
  cases l with
  | piperead pi n =>
    rw [testStep]
    split_ifs
    · exact .goto (fun _ => rfl) fun _ => rank _
    exact .goto nofun nofun
  | pipewrite pi n i =>
    rw [testStep]
    split_ifs
    · exact .ret
    · exact .goto (fun _ => rfl) fun _ => rank _
    exact .ret
  | consoleread target n =>
    rw [testStep]
    split_ifs with more
    · exact .goto (fun _ => rfl) fun _ => rank _
    · exact .consume more
    exact .ret
  | sysSleep n ticks0 =>
    rw [testStep]
    split_ifs
    · exact .goto (fun _ => rfl) fun _ => rank _
    exact .ret
  | wait store =>
    refine .goto (fun _ => rfl) fun _ => ?_
    simp only [Pc.rank, Loop.size]
    omega
  | kthreadJoin t store => exact nomatch retests

lemma Closer.scanStep {store havekids : Bool} {j : Nat} (next :
    scanStep s k store j havekids fault = some s') : Closer s' k (.scan store j havekids) := by
  unfold WaitLoop.scanStep at next
  split_ifs at next with inTable child free zombie stop kids <;> cases next
  · exact .ret
  · exact .ret
  · refine .goto (fun _ => rfl) fun _ => ?_
    simp only [Pc.rank]
    omega
  · refine .goto (fun _ => rfl) fun _ => ?_
    simp only [Pc.rank]
    omega
  · refine .goto (fun _ => rfl) fun _ => ?_
    simp only [Pc.rank]
    omega
  exact .ret

lemma Closer.lockStep (next : lockStep s k l = some s') (retests : (Pc.test l).retests = true)
    (rank : (Pc.test l).rank < pc.rank) : Closer s' k pc := by
  obtain ⟨-, rfl⟩ := guarded.mp next
  exact .goto (fun _ => retests) fun _ => rank

lemma Killed.own (h : Killed s k) (here : (s.pc k).retests = true)
    (next : goStep s k fault (s.pc k) = some s') : Closer s' k (s.pc k) := by
  cases pos : s.pc k with
  | woken l =>
    rw [pos] at next here
    cases next
    refine .goto (fun _ => here) fun _ => ?_
    simp only [Pc.rank]
    omega
  | relock l =>
    rw [pos] at next here
    refine .lockStep next here ?_
    simp only [Pc.rank]
    omega
  | test l =>
    rw [pos] at next here
    cases next
    exact .testStep here
  | check l =>
    rw [pos] at next
    obtain ⟨-, rfl⟩ := guarded.mp next
    rw [if_pos h.killed]
    exact .ret
  | scan store j havekids =>
    rw [pos] at next
    exact .scanStep next
  | _ =>
    rw [pos] at here
    exact nomatch here

lemma rank_pos (retests : pc.retests = true) : 0 < pc.rank := by
  cases pc with
  | woken l | relock l | test l =>
    simp only [Pc.rank]
    omega
  | scan store j havekids => exact Nat.succ_pos _
  | check l => exact Nat.one_pos
  | _ => exact nomatch retests

/-- Until it has left the loop a killed thread is before the test of the flag, and the number
of its own steps is bounded. -/
lemma Killed.until_left {bs : List Label} {t : State} (h : Killed s k)
    (here : (s.pc k).retests = true) (run : Run WaitLoop.step (Stays k) s bs t) : ((t.pc k).inLoop =
    true → (t.pc k).retests = true) ∧ bs.countP (Label.own k) ≤ (s.pc k).rank := by
  induction run with
  | nil s => exact ⟨fun _ => here, Nat.zero_le _⟩
  | @cons s s₁ t x bs guard next rest ih =>
    obtain ⟨h₁, kept⟩ := h.step guard.1 guard.2 next
    by_cases own : Label.own k x = true
    · rw [List.countP_cons_of_pos own]
      obtain ⟨fault, rfl⟩ : ∃ fault, x = .go k fault := by
        cases x with
        | go me fault => exact ⟨fault, by rw [of_decide_eq_true own]⟩
        | _ => exact nomatch own
      obtain ⟨-, next⟩ := ite_none_right_eq_some.mp next
      have closer := h.own here next
      by_cases inLoop : (s₁.pc k).inLoop = true
      · obtain ⟨retests, rank⟩ := closer inLoop
        obtain ⟨last, count⟩ := ih h₁ retests
        exact ⟨last, by omega⟩
      -- the thread has left, and so the run ends here
      cases rest with
      | nil => exact ⟨fun still => absurd still inLoop, rank_pos here⟩
      | cons stays _ _ => exact absurd stays.1 inLoop
    have same := kept (Bool.eq_false_iff.mpr own)
    obtain ⟨last, count⟩ := ih h₁ (same ▸ here)
    rw [List.countP_cons_of_neg own, ← same]
    exact ⟨last, count⟩

/-- A thread of a killed process that has been woken in a waiting loop other than that of
`kthread_join` does not call `sleep` again before it has left the loop, and it leaves the loop
after a bounded number of its own steps. -/
theorem killed_sleeper_leaves_loop (s : State) (k : KtId) (l : Loop) (woken : s.pc k = .woken l)
    (runnable : (s.kt k).tState = .runnable) (alive : (s.proc k.1).state ≠ .unused)
    (killed : (s.proc k.1).killed = true) (notJoin : l.joins = false) (bs : List Label) (t : State)
    (run : Run step (Stays k) s bs t) :
    (∀ l', t.pc k ≠ .sleeps l') ∧ bs.countP (Label.own k) ≤ NPROC + 5 + l.size := by
  have h : Killed s k := ⟨killed, alive, by rw [runnable]; exact nofun⟩
  have here : (s.pc k).retests = true := by
    rw [woken]
    exact congrArg Bool.not notJoin
  obtain ⟨last, count⟩ := h.until_left here run
  refine ⟨fun l' sleeps => ?_, ?_⟩
  · have retests := last (by rw [sleeps]; rfl)
    rw [sleeps] at retests
    exact nomatch retests
  · rwa [woken] at count

def sleeper : KtId := (child, slot0)

/-- Two threads of a process run in user space. The process has a child, one pipe is empty and
one is full. -/
def twoRunning : State where
  proc p := if p = child then
      { state := .used, killed := false, xstate := 0, pid := 2, parent := some initproc, pCounter := 3 }
    else if p = ⟨2, by decide⟩ then
      { state := .used, killed := false, xstate := 0, pid := 3, parent := some child, pCounter := 2 }
    else { state := .unused, killed := false, xstate := 0, pid := 0, parent := none, pCounter := 0 }
  kt k := if k = sleeper then
      { (Kthread.kthreadinit k).allockthread k 1 with tState := .running }
    else if k = (child, slot1) then
      { (Kthread.kthreadinit k).allockthread k 2 with tState := .running }
    else Kthread.kthreadinit k
  pipe pi := ⟨0, if pi = 1 then PIPESIZE else 0, true, true⟩
  cons := ⟨fun _ => 0, 0, 0, 0⟩
  ticks := 0
  holder _ := none
  pc k := if k.1 = child ∧ (k.2 = slot0 ∨ k.2 = slot1) then .user else .idle
  onCpu k := k.1 = child ∧ (k.2 = slot0 ∨ k.2 = slot1)
  a0 _ := 0

def goes (n : Nat) : List Label := List.replicate n (.go sleeper false)

/-- A reader of an empty pipe is woken by `kill` and returns. -/
theorem killed_reader_returns : ∃ s t,
    Run step Free twoRunning (.call sleeper (.piperead 0 10) :: goes 4 ++ [.kill child]) s ∧
      Run step (Stays sleeper) s (.dispatch sleeper :: goes 4) t ∧ t.pc sleeper = .user ∧
        t.a0 sleeper = -1 ∧ (∀ l, t.pc sleeper ≠ .sleeps l) ∧
          (Label.dispatch sleeper :: goes 4).countP (Label.own sleeper) ≤ NPROC + 5 := by
  refine Run.exists_two_with (P := fun s => s.pc sleeper = .woken (.piperead 0 10) ∧
      (s.kt sleeper).tState = .runnable ∧ (s.proc child).state ≠ .unused ∧
      (s.proc child).killed = true ∧
      ((execute step (Stays sleeper) s (.dispatch sleeper :: goes 4)).any fun t =>
        t.pc sleeper = .user ∧ t.a0 sleeper = -1) = true)
    (by decide +kernel) fun s run ⟨woken, ready, alive, killed, rest⟩ => ?_
  obtain ⟨t, later, returns⟩ := (any_eq_true _ _).mp rest
  obtain ⟨user, result⟩ := of_decide_eq_true returns
  have main := killed_sleeper_leaves_loop s sleeper _ woken ready alive killed rfl _ t
    (.of_execute later)
  exact ⟨t, .of_execute later, user, result, main⟩

/-- The calls of the waiting loops, with the number of steps to the first `sleep` and from there
to the call of the next one. -/
def waits : List (Call × Nat × Nat) :=
  [(.piperead 0 10, 4, 4), (.pipewrite 1 10, 5, 5), (.consoleread 10, 4, 4), (.sleep 10, 4, 4),
    (.wait true, 69, 69), (.kthreadJoin 2 false, 14, 3)]

def Pc.isWoken : Pc → Bool
  | .woken _ => true
  | _ => false

def Pc.isSleeps : Pc → Bool
  | .sleeps _ => true
  | _ => false

/-- The other thread kills the sleeper, which is woken and calls `sleep` again, in each of the
six loops; in `kthread_join` it does so too after its process has been killed. -/
theorem killed_threads_sleep_again :
    (∀ w ∈ waits, ∃ s, (Run step Free twoRunning
        (.call sleeper w.1 :: goes w.2.1 ++ [.kthreadKill sleeper]) s ∧
          (s.pc sleeper).isWoken = true ∧ (s.kt sleeper).tState = .runnable ∧
            (s.kt sleeper).tKilled = true) ∧
        ∃ t, Run step (Stays sleeper) s (.dispatch sleeper :: goes w.2.2) t ∧
          (t.pc sleeper).isSleeps = true) ∧
    ∃ s, (Run step Free twoRunning (.call sleeper (.kthreadJoin 2 false) :: goes 14 ++ [.kill child]) s ∧
        (s.pc sleeper).isWoken = true ∧ (s.kt sleeper).tState = .runnable ∧
          (s.proc child).killed = true) ∧
      ∃ t, Run step (Stays sleeper) s (.dispatch sleeper :: goes 3) t ∧
        (t.pc sleeper).isSleeps = true := by
  refine ⟨fun w member => ?_, ?_⟩
  · have woken : ∃ s, Run step Free twoRunning
        (.call sleeper w.1 :: goes w.2.1 ++ [.kthreadKill sleeper]) s ∧
          ((s.pc sleeper).isWoken = true ∧ (s.kt sleeper).tState = .runnable ∧
            (s.kt sleeper).tKilled = true) ∧
          ((execute step (Stays sleeper) s (.dispatch sleeper :: goes w.2.2)).any fun t =>
            decide ((t.pc sleeper).isSleeps = true)) = true := by
      refine Run.exists_of_execute ?_
      revert w
      decide +kernel
    obtain ⟨s, run, facts, rest⟩ := woken
    exact ⟨s, ⟨run, facts⟩, Run.exists_of_execute rest⟩
  have woken : ∃ s, Run step Free twoRunning
      (.call sleeper (.kthreadJoin 2 false) :: goes 14 ++ [.kill child]) s ∧
        ((s.pc sleeper).isWoken = true ∧ (s.kt sleeper).tState = .runnable ∧
          (s.proc child).killed = true) ∧
        ((execute step (Stays sleeper) s (.dispatch sleeper :: goes 3)).any fun t =>
          decide ((t.pc sleeper).isSleeps = true)) = true :=
    Run.exists_of_execute (by decide +kernel)
  obtain ⟨s, run, facts, rest⟩ := woken
  exact ⟨s, ⟨run, facts⟩, Run.exists_of_execute rest⟩

end Xv6.WaitLoop
