import Xv6.KthreadScan

/-! Thread ids. A free entry has id 0, the ids in use are distinct and below
`p_counter`, and a number once used does not come back. The last loop of `exit`
turns free entries into zombies with id 0; by then nothing else of the process
runs, and nothing will. -/
namespace Xv6
open Interleaving State Kthread
variable {n : Nat} {s s' : State n} {c d : Fin n} {k me : KtId} {p : ProcId} {pc pc' : Pc}

/-- The only live thread of the process overwrites its thread table in `exit`, or
there is none. -/
def Over (s : State n) (p : ProcId) : Prop :=
  ∀ k, k.1 = p → (s.kt k).Live → ∃ c i status, On s c k (.exitMark i status)

lemma Based.ended (inv : Based s p) {i : Nat} {status : Int} (on : On s c me (.exitMark i status))
    (own : me.1 = p) : Over s p := by
  intro k own' live
  by_cases same : k.2 = me.2
  · obtain rfl : k = me := Prod.ext (own'.trans own.symm) same
    exact ⟨c, i, status, on⟩
  have dead := inv.alone on own same
  rw [← own'] at dead
  exact absurd live dead

lemma Over.on (ended : Over s p) (core : Core s p) (on : On s c k pc) (own : k.1 = p)
    (out : ¬ pc.Tail) : ∃ i status, pc = .exitMark i status := by
  obtain ⟨d, i, status, on'⟩ := ended k own (core.live_of_on on own out)
  obtain rfl := core.single c d k pc _ on on' own out id
  rw [On] at on on'
  rw [on] at on'
  cases on'
  exact ⟨i, status, rfl⟩

lemma Over.step (ended : Over s p) (core : Core s p) (h : Steps s c s') : Over s' p := by
  intro k own live
  have before : (s.kt k).Live := by
    by_contra dead
    rcases core.dead_step h own dead with kept | ⟨me, f, cpu, eq, -⟩
    · exact kept live
    obtain ⟨i, status, eq'⟩ := ended.on core (on_of_thread cpu) (eq.symm.trans own) id
    cases eq'
  obtain ⟨d, i, status, on⟩ := ended k own before
  by_cases same : d = c
  · subst same
    rw [On] at on
    cases h with
    | scan idle => rw [idle] at on; cases on
    | dispatch k' cpu => rw [cpu] at on; cases on
    | move cpu m =>
      rw [cpu] at on
      cases on
      cases m with
      | goto l => cases l
      | panic fault => cases fault
      | exitMark => exact ⟨d, i + 1, status, (on_goto _).mpr ⟨rfl, rfl⟩⟩
      | exitLeave late =>
        simp only [sched_kt, markFrom_kt, le_refl, and_self, if_true] at live
        exact absurd live (dead_exit _ _)
  exact ⟨d, i, status, (h.on_other same).mpr on⟩

/-- The step takes the free entry `i` of `p` in `allockthread`. -/
def Creates (s : State n) (c : Fin n) (p : ProcId) (i : Fin NKT) : Prop :=
  ∃ me f, s.cpu c = .thread me (.createScan i f) ∧ me.1 = p ∧ (s.kt (p, i)).tState = .unused

variable {i : Fin NKT} {t : Kthread}

lemma Steps.created (h : Steps s c s') (new : Creates s c p i) :
    (s'.proc p).pCounter = (s.proc p).pCounter + 1 ∧ (s'.kt (p, i)).tid = (s.proc p).pCounter ∧
    (s'.kt (p, i)).tState = .runnable ∧ ∀ j, j ≠ i → s'.kt (p, j) = s.kt (p, j) := by
  obtain ⟨me, f, cpu, rfl, free⟩ := new
  cases h.move_of cpu with
  | goto l =>
    cases l with
    | createNext _ busy => exact absurd free busy
    | createFail outside => exact absurd i.isLt outside
  | panic fault => cases fault
  | create inside =>
    simp only [State.goto, setCpu_proc, setCpu_kt, create_proc, create_kt, Function.update_self,
      allockthread, true_and]
    intro j other
    exact Function.update_of_ne (fun eq => other (congrArg Prod.snd eq)) _ _

lemma Steps.pCounter (h : Steps s c s') (p : ProcId) :
    (s'.proc p).pCounter = (s.proc p).pCounter ∨ ∃ i, Creates s c p i := by
  cases h with
  | scan => exact .inl rfl
  | dispatch k => rw [dispatch_proc]; exact .inl rfl
  | @move me pc s' cpu m =>
    cases m with
    | @create i f inside free =>
      by_cases same : p = me.1
      · subst same
        exact .inr ⟨⟨i, inside⟩, me, f, cpu, rfl, free⟩
      simp only [State.goto, setCpu_proc, create_proc, Function.update_of_ne same, true_or]
    | exitZombie free =>
      left
      simp only [State.goto, setCpu_proc, setZombie_proc]
      by_cases same : p = me.1
      · subst same
        rw [Function.update_self]
      rw [Function.update_of_ne same]
    | wakeNext h | wakeupNext h =>
      left
      simp only [State.goto, setCpu_proc, wakeupAt_proc]
    | _ => exact .inl rfl

lemma Steps.pCounter_le (h : Steps s c s') (p : ProcId) :
    (s.proc p).pCounter ≤ (s'.proc p).pCounter := by
  rcases h.pCounter p with same | ⟨i, new⟩
  · exact same.ge
  have := (h.created new).1
  omega

lemma EntryStep.tid (h : EntryStep s c k t) : t.tid = (s.kt k).tid ∨ Creates s c k.1 k.2 ∨
    t.tState = .unused ∧ t.tid = 0 ∧ ∃ me j, s.cpu c = .thread me (.joinReap j k.2) ∧
    k.1 = me.1 := by
  cases h with
  | create cpu own free => exact .inr (.inl ⟨_, _, cpu, own.symm, free⟩)
  | reap cpu own => exact .inr (.inr ⟨rfl, rfl, _, _, cpu, own⟩)
  | _ => exact .inl rfl

lemma Core.tid_step (core : Core s p) (h : Steps s c s') (on : On s d k pc) (own : k.1 = p)
    (out : ¬ pc.Tail) : (s'.kt k).tid = (s.kt k).tid := by
  have run := core.running d k pc on own out
  rcases (h.entry k).tid with same | ⟨_, _, _, _, free⟩ | ⟨-, -, me, j, cpu, eq⟩
  · exact same
  · rw [run] at free
    cases free
  have dead := core.target c me j k.2 (on_of_thread cpu) (eq.symm.trans own)
  rw [← own] at dead
  rw [run] at dead
  cases dead

lemma EntryStep.zombie_before (h : EntryStep s c k t) (dead : t.tState = .zombie) :
    ((s.kt k).tState = .zombie ∧ t.tXstate = (s.kt k).tXstate) ∨
    (∃ status, s.cpu c = .thread k (.setZombie status) ∧ t.tXstate = status) ∨ ∃ me i status,
    s.cpu c = .thread me (.exitMark i status) ∧ k.1 = me.1 := by
  cases h with
  | same | doom => exact .inl ⟨dead, rfl⟩
  | zombie cpu => exact .inr (.inl ⟨_, cpu, rfl⟩)
  | mark cpu own => exact .inr (.inr ⟨_, _, _, cpu, own⟩)
  | kill =>
    refine .inl ⟨?_, rfl⟩
    by_cases asleep : (s.kt k).tState = .sleeping
    · simp only [kthreadKill, asleep, if_true, reduceCtorEq] at dead
    simpa only [kthreadKill, asleep, if_false] using dead
  | create | wake | reap | sleep | dispatch => cases dead

lemma EntryStep.unused_before (h : EntryStep s c k t) (free : t.tState = .unused) :
    (s.kt k).tState = .unused ∧ t.tid = (s.kt k).tid ∨ t.tid = 0 := by
  cases h with
  | same | doom => exact .inl ⟨free, rfl⟩
  | reap => exact .inr rfl
  | kill =>
    refine .inl ⟨?_, rfl⟩
    by_cases asleep : (s.kt k).tState = .sleeping
    · simp only [kthreadKill, asleep, if_true, reduceCtorEq] at free
    simpa only [kthreadKill, asleep, if_false] using free
  | create | wake | zombie | mark | sleep | dispatch => cases free

structure Tids (s : State n) (p : ProcId) : Prop where
  free : ∀ i, (s.kt (p, i)).tState = .unused → (s.kt (p, i)).tid = 0
  live : ∀ i, (s.kt (p, i)).Live → (s.kt (p, i)).tid ≠ 0
  zombie : ∀ i, (s.kt (p, i)).tState = .zombie → (s.kt (p, i)).tid ≠ 0 ∨ Over s p
  bounded : ∀ i, (s.kt (p, i)).tid ≠ 0 →
    0 < (s.kt (p, i)).tid ∧ (s.kt (p, i)).tid < (s.proc p).pCounter
  distinct : ∀ i j, (s.kt (p, i)).tid ≠ 0 → (s.kt (p, i)).tid = (s.kt (p, j)).tid → i = j

lemma Tids.of_on (tids : Tids s p) (core : Core s p) (on : On s c k pc) (own : k.1 = p)
    (out : ¬ pc.Tail) : (s.kt k).tid ≠ 0 := by
  subst own
  exact tids.live k.2 (core.live_of_on on rfl out)

lemma Tids.counter_pos (tids : Tids s p) (core : Core s p) (new : Creates s c p i) :
    0 < (s.proc p).pCounter := by
  obtain ⟨me, f, cpu, rfl, -⟩ := new
  have used := tids.of_on core (on_of_thread cpu) rfl id
  have := tids.bounded me.2 used
  omega

lemma Steps.tid_eq (h : Steps s c s') (old : ¬ Creates s c p i) (used : (s'.kt (p, i)).tid ≠ 0) :
    (s'.kt (p, i)).tid = (s.kt (p, i)).tid := by
  rcases (h.entry (p, i)).tid with same | new | ⟨-, zero, -⟩
  · exact same
  · exact absurd new old
  exact absurd zero used

lemma Tids.bounded_step (tids : Tids s p) (core : Core s p)
    (h : Steps s c s') (i : Fin NKT) (used : (s'.kt (p, i)).tid ≠ 0) :
    0 < (s'.kt (p, i)).tid ∧ (s'.kt (p, i)).tid < (s'.proc p).pCounter := by
  have grows := h.pCounter_le p
  by_cases new : Creates s c p i
  · obtain ⟨counter, tid, -⟩ := h.created new
    have := tids.counter_pos core new
    omega
  have eq := h.tid_eq new used
  rw [eq] at used ⊢
  have := tids.bounded i used
  omega

lemma Tids.distinct_step (tids : Tids s p) (h : Steps s c s') (i j : Fin NKT)
    (used : (s'.kt (p, i)).tid ≠ 0) (eq : (s'.kt (p, i)).tid = (s'.kt (p, j)).tid) : i = j := by
  have fresh : ∀ a b : Fin NKT, a ≠ b → Creates s c p a → (s'.kt (p, b)).tid ≠ 0 →
      (s'.kt (p, a)).tid ≠ (s'.kt (p, b)).tid := by
    intro a b ne new usedB same
    obtain ⟨-, tid, -, others⟩ := h.created new
    rw [others b ne.symm] at same usedB
    have := tids.bounded b usedB
    omega
  by_contra ne
  by_cases first : Creates s c p i
  · exact fresh i j ne first (eq ▸ used) eq
  by_cases second : Creates s c p j
  · exact fresh j i (Ne.symm ne) second used eq.symm
  have eqI := h.tid_eq first used
  have eqJ := h.tid_eq second (eq ▸ used)
  rw [eqI] at used
  rw [eqI, eqJ] at eq
  exact ne (tids.distinct i j used eq)

lemma Tids.step (tids : Tids s p) (core : Core s p)
    (marks : ∀ me i status, On s c me (.exitMark i status) → me.1 = p → Over s p)
    (h : Steps s c s') : Tids s' p where
  bounded := tids.bounded_step core h
  distinct := tids.distinct_step h
  free i empty := by
    rcases (h.entry (p, i)).unused_before empty with ⟨before, same⟩ | zero
    · rw [same]
      exact tids.free i before
    exact zero
  live i alive := by
    by_cases new : Creates s c p i
    · have := tids.counter_pos core new
      have := (h.created new).2.1
      omega
    have before : (s.kt (p, i)).Live := by
      by_contra dead
      rcases core.dead_step h rfl dead with kept | ⟨me, f, cpu, eq, free⟩
      · exact kept alive
      exact new ⟨me, f, cpu, eq.symm, free⟩
    rcases (h.entry (p, i)).tid with same | new' | ⟨empty, -⟩
    · rw [same]
      exact tids.live i before
    · exact absurd new' new
    exact absurd empty alive.1
  zombie i dead := by
    rcases (h.entry (p, i)).zombie_before dead with ⟨before, -⟩ | ⟨status, cpu, -⟩ |
      ⟨me, j, status, cpu, eq⟩
    · rcases tids.zombie i before with used | ended
      · left
        rcases (h.entry (p, i)).tid with same | ⟨_, _, _, _, free⟩ | ⟨empty, -⟩
        · rwa [same]
        · rw [before] at free
          cases free
        rw [dead] at empty
        cases empty
      exact .inr (ended.step core h)
    · left
      have used := tids.of_on core (on_of_thread cpu) rfl id
      rcases (h.entry (p, i)).tid with same | ⟨_, _, cpu', _, _⟩ | ⟨empty, -⟩
      · rwa [same]
      · rw [cpu] at cpu'
        cases cpu'
      rw [dead] at empty
      cases empty
    exact .inr ((marks me j status (on_of_thread cpu) eq.symm).step core h)

lemma init_entry (n : Nat) (live : ProcId → Bool) (p : ProcId) (i : Fin NKT) :
    (live p = true ∧ i = ⟨0, by decide⟩ ∧ ((init n live).kt (p, i)).tState = .runnable ∧
    ((init n live).kt (p, i)).tid = 1 ∧ ((init n live).proc p).pCounter = 2) ∨
    ((init n live).kt (p, i)).tState = .unused ∧ ((init n live).kt (p, i)).tid = 0 := by
  unfold init
  by_cases first : live p = true ∧ i = ⟨0, by decide⟩
  · left
    simp only [first, and_self, if_true, allockthread]
  right
  simp only [first, if_false, kthreadinit, and_self]

lemma tids_init (live : ProcId → Bool) (p : ProcId) : Tids (init n live) p where
  free i empty := by
    rcases init_entry n live p i with ⟨-, -, ready, -⟩ | ⟨-, zero⟩
    · rw [empty] at ready
      cases ready
    exact zero
  live i alive := by
    rcases init_entry n live p i with ⟨-, -, -, one, -⟩ | ⟨empty, -⟩
    · omega
    exact absurd empty alive.1
  zombie i dead := by
    rcases init_entry n live p i with ⟨-, -, ready, -⟩ | ⟨empty, -⟩
    · rw [dead] at ready
      cases ready
    rw [dead] at empty
    cases empty
  bounded i used := by
    rcases init_entry n live p i with ⟨-, -, -, one, two⟩ | ⟨-, zero⟩
    · omega
    exact absurd zero used
  distinct i j used eq := by
    rcases init_entry n live p i with ⟨-, first, -⟩ | ⟨-, zero⟩
    · rcases init_entry n live p j with ⟨-, second, -⟩ | ⟨-, zero⟩
      · rw [first, second]
      exact absurd (eq.trans zero) used
    exact absurd zero used

/-- A used number that no entry has is not given to any entry again. -/
def Spent (tid : Int) (s : State n) (p : ProcId) : Prop :=
  0 < tid ∧ tid < (s.proc p).pCounter ∧ ∀ i, (s.kt (p, i)).tid ≠ tid

lemma Spent.step {tid : Int} (spent : Spent tid s p) (h : Steps s c s') : Spent tid s' p := by
  obtain ⟨pos, below, none⟩ := spent
  have grows := h.pCounter_le p
  refine ⟨pos, by omega, fun i eq => ?_⟩
  by_cases new : Creates s c p i
  · have := (h.created new).2.1
    omega
  exact none i (by rw [← h.tid_eq new (by omega), eq])

lemma tids_of_run {G : State n → Label n → Prop} {live : ProcId → Bool} {as : List (Label n)}
    (run : Run step G (init n live) as s) (used : (s.proc p).state = .used) : Tids s p := by
  have both : Sound s p ∧ ((s.proc p).state = .used → Tids s p) :=
    run.invariant (I := fun s => Sound s p ∧ ((s.proc p).state = .used → Tids s p))
      (fun s l t inv _ next => by
        have h := steps_of_step next
        refine ⟨inv.1.step h, fun used => ?_⟩
        have before := h.used_before used
        refine (inv.2 before).step (inv.1.core before) ?_ h
        intro me i status on own
        have gone := inv.1.marking l.cpu me i status on own
        rw [before] at gone
        cases gone)
      ⟨sound_init live p, fun _ => tids_init live p⟩
  exact both.2 used

end Xv6
