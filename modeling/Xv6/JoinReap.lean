import Xv6.KthreadTids
import Xv6.KthreadContext

/-! `kthread_join` reaps the thread it names. The lookup compares ids only: a free
entry has id 0, and the caller has an id too. What the lookup found is an entry and
not a thread, and it is waited for without looking at its id again. The property
holds in the runs in which no join is called with 0 or with the caller's own id, no
entry is allocated that a pending join has found, and none behind the back of
`exit`. -/
namespace Xv6
open Interleaving State Option
open Function (update update_of_ne update_self)
variable {n : Nat} {s s' : State n} {c d : Fin n} {k me : KtId} {p : ProcId} {pc pc' : Pc}
  {j : Join} {t : Fin NKT} {l : Label n}

/-- The join that a thread at the position is in, and the entry that it has found. -/
def Pc.joins : Pc → Option (Join × Fin NKT)
  | .joinScan _ j (some t) | .joinLock j t | .joinTest j t | .joinReap j t | .joinSleep j t =>
    some (j, t)
  | _ => none

/-- A join of the process has found the entry and has not returned. -/
inductive Pending (s : State n) (p : ProcId) (j : Join) (t : Fin NKT) : Prop
  | on {c : Fin n} {me : KtId} {pc : Pc} : On s c me pc → me.1 = p → pc.joins = some (j, t) → Pending s p j t
  | off {i : Fin NKT} : (s.kt (p, i)).Waiting → s.context (p, i) = .join j t → Pending s p j t

def Cpu.seeks (k : KtId) (x : Cpu) : Bool :=
  match x.pos with
  | some (me, pc) => me.1 = k.1 && pc.joins.any fun found => found.2 = k.2
  | none => false

def Context.seeks (t : Fin NKT) : Context → Bool
  | .join _ t' => t' = t
  | _ => false

def Sought (s : State n) (k : KtId) : Prop :=
  (∃ c, (s.cpu c).seeks k = true) ∨
    ∃ i, (s.kt (k.1, i)).Waiting ∧ (s.context (k.1, i)).seeks k.2 = true

instance (s : State n) (k : KtId) : Decidable (Sought s k) := inferInstanceAs (Decidable (_ ∨ _))

def Act.joinArg : Act → Option Int
  | .call (.kthreadJoin ktid _) => some ktid
  | _ => none

/-- No join with 0 or the caller's id, no allocation of an entry that a join is
waiting for, and none behind the back of `exit`. -/
def UnmixedJoin (p : ProcId) (s : State n) (l : Label n) : Prop :=
  (∀ ktid ∈ l.act.joinArg, ∀ me ∈ (s.cpu l.cpu).kthread, me.1 = p →
    ktid ≠ 0 ∧ ktid ≠ (s.kt me).tid) ∧
  (∀ k ∈ (s.cpu l.cpu).allocates p, (s.kt k).tState = .unused → ¬ Sought s k) ∧
  NotBehind Pc.exitScanned p s l.cpu

instance (p : ProcId) : ∀ (s : State n) (l : Label n), Decidable (UnmixedJoin p s l) :=
  fun _ _ => inferInstanceAs (Decidable (_ ∧ _))

lemma Pending.sought (h : Pending s p j t) : Sought s (p, t) := by
  cases h with
  | @on c me pc on own found =>
    refine .inl ⟨c, ?_⟩
    rw [On] at on
    simp only [Cpu.seeks, on, own, found, any_some, decide_true, Bool.and_self]
  | @off i waiting ctx =>
    refine .inr ⟨i, waiting, ?_⟩
    simp only [ctx, Context.seeks, decide_true]

lemma UnmixedJoin.not_creates (guard : UnmixedJoin p s l) (pending : Pending s p j t) :
    ¬ Creates s l.cpu p t := by
  rintro ⟨me, f, cpu, own, free⟩
  exact guard.2.1 (p, t)
    (by simp only [cpu, Cpu.allocates, own, t.isLt, dif_pos, if_true, mem_def]) free
    pending.sought

lemma joins_back {r : Int} : (j.back r).joins = none := by
  unfold Join.back
  split <;> rfl

def Hits (s : State n) (c : Fin n) (p : ProcId) (j : Join) (t : Fin NKT) : Prop :=
  ∃ me found, s.cpu c = .thread me (.joinScan t j found) ∧ me.1 = p ∧ (s.kt (p, t)).tid = j.ktid

lemma Arrives.pending (h : Arrives s me pc pc') (cpu : s.cpu c = .thread me pc) (own : me.1 = p)
    (found : pc'.joins = some (j, t)) : Pending s p j t ∨ Hits s c p j t := by
  have before : pc.joins = some (j, t) → Pending s p j t ∨ Hits s c p j t := fun found =>
    .inl (.on (on_of_thread cpu) own found)
  cases h with
  | stay => exact before found
  | joinLock => exact before found
  | reap r eq =>
    subst eq
    rw [joins_back] at found
    cases found
  | go l =>
    cases l with
    | call a0 call eq => subst eq; cases call <;> cases found
    | joinNone _ eq =>
      subst eq
      rw [joins_back] at found
      cases found
    | @joinHit i j' hit inside same =>
      cases found
      exact .inr ⟨me, hit, cpu, own, own ▸ same⟩
    | @joinMiss i j' hit =>
      cases hit with
      | none => cases found
      | some => exact before found
    | joinFound | joinZombie | joinWait => exact before found
    | _ => cases found
  | _ => cases found

lemma Steps.pending (h : Steps s c s') (pending : Pending s' p j t) :
    Pending s p j t ∨ Hits s c p j t := by
  cases pending with
  | @on d me pc on own found =>
    by_cases same : d = c
    · subst same
      rcases h.on_own on with ⟨ready, resumed, -⟩ | ⟨pc', cpu, -, arrives⟩
      · cases resumed with
        | join ctx =>
          cases found
          subst own
          exact .inl (.off (.inl ready) ctx)
        | _ => cases found
      exact arrives.pending cpu own found
    exact .inl (.on ((h.on_other same).mp on) own found)
  | @off i waiting ctx =>
    have slept : ∀ pc, s.cpu c = .thread (p, i) pc → pc.saves = some (.join j t) →
        Pending s p j t ∨ Hits s c p j t := by
      intro pc cpu saved
      cases pc with
      | joinSleep =>
        cases saved
        exact .inl (.on (on_of_thread cpu) rfl rfl)
      | _ => cases saved
    have created : ∀ me f, s.cpu c = .thread me (.createScan i f) → p = me.1 →
        (s.kt (p, i)).tState = .unused → Pending s p j t ∨ Hits s c p j t := by
      intro me f cpu own free
      have fresh := h.context_created (k := (p, i)) cpu own free
      rw [ctx] at fresh
      cases fresh
    rcases (h.entry (p, i)).waiting waiting with before | ⟨me, f, cpu, own, free⟩ |
      ⟨pc, chan, cpu, asleep⟩
    · rcases h.context (p, i) with same | ⟨me, f, cpu, own, free⟩ | ⟨pc, cpu, -, saved⟩
      · exact .inl (.off before (same ▸ ctx))
      · exact created me f cpu own free
      exact slept pc cpu (ctx ▸ saved)
    · exact created me f cpu own free
    exact slept pc cpu (ctx ▸ h.context_saved cpu asleep)

/-- What a pending join has found is the named thread, or has been freed since. -/
def Targets (s : State n) (p : ProcId) : Prop :=
  ∀ j t, Pending s p j t →
    (s.kt (p, t)).tid = j.ktid ∨ (s.kt (p, t)).tState = .unused ∨ Over s p

def Named (s : State n) (p : ProcId) : Prop :=
  ∀ c me i j found, On s c me (.joinScan i j found) → me.1 = p → j.ret = .user →
    j.ktid ≠ 0 ∧ j.ktid ≠ (s.kt me).tid

lemma EntryStep.unused_kept {e : Kthread} (h : EntryStep s c k e)
    (free : (s.kt k).tState = .unused) : e.tState = .unused ∨ Creates s c k.1 k.2 ∨
    (∃ me i status, s.cpu c = .thread me (.exitMark i status) ∧ k.1 = me.1) ∨ ∃ pc,
    s.cpu c = .thread k pc ∧ ¬ pc.Tail := by
  cases h with
  | same | doom => exact .inl free
  | create cpu own _ => exact .inr (.inl ⟨_, _, cpu, own.symm, free⟩)
  | mark cpu own => exact .inr (.inr (.inl ⟨_, _, _, cpu, own⟩))
  | reap => exact .inl rfl
  | zombie cpu => exact .inr (.inr (.inr ⟨_, cpu, id⟩))
  | sleep cpu asleep => exact .inr (.inr (.inr ⟨_, cpu, Pc.not_tail_of_sleep asleep⟩))
  | kill => exact .inl (by simp only [Kthread.kthreadKill, free, reduceCtorEq, if_false])
  | wake _ _ _ asleep => rw [free] at asleep; cases asleep
  | dispatch _ ready => rw [free] at ready; cases ready

structure Joins (s : State n) (p : ProcId) : Prop extends Based s p where
  tids : Tids s p
  targets : Targets s p
  named : Named s p

lemma Joins.targets_step (inv : Joins s p) (guard : UnmixedJoin p s l) (h : Steps s l.cpu s') :
    Targets s' p := by
  intro j t pending
  rcases h.pending pending with before | ⟨me, found, cpu, own, same⟩
  · have old := guard.not_creates before
    rcases inv.targets j t before with same | free | ended
    · rcases (h.entry (p, t)).tid with kept | new | ⟨empty, -⟩
      · exact .inl (kept.trans same)
      · exact absurd new old
      exact .inr (.inl empty)
    · rcases (h.entry (p, t)).unused_kept free with kept | new | ⟨me, i, status, cpu, eq⟩ |
        ⟨pc, cpu, out⟩
      · exact .inr (.inl kept)
      · exact absurd new old
      · exact .inr (.inr ((inv.ended (on_of_thread cpu) eq.symm).step inv.core h))
      have run := inv.core.running l.cpu (p, t) pc (on_of_thread cpu) rfl out
      rw [free] at run
      cases run
    exact .inr (.inr (ended.step inv.core h))
  left
  rcases (h.entry (p, t)).tid with kept | ⟨_, _, cpu', -⟩ | ⟨-, -, _, _, cpu', -⟩
  · exact kept.trans same
  all_goals
    rw [cpu] at cpu'
    cases cpu'

lemma Joins.named_step (inv : Joins s p) (guard : UnmixedJoin p s l)
    (next : Xv6.step s l = some s') : Named s' p := by
  intro d me i j found on own user
  have h := steps_of_step next
  by_cases same : d = l.cpu
  · subst same
    rcases h.on_own on with ⟨-, resumed, -⟩ | ⟨pc, cpu, -, arrives⟩
    · cases resumed
    cases arrives with
    | stay fault => cases fault
    | reap r eq => exact absurd eq (Join.back_ne id)
    | exitDoom | execDoom => cases user
    | go local_ =>
      cases local_ with
      | call a0 k eq =>
        obtain ⟨k', act, rfl⟩ := call_of_step cpu next
        have here := ((on_goto s).mp on).2
        cases k' with
        | kthreadJoin ktid status =>
          cases here
          exact guard.1 ktid (by rw [act]; rfl) me (by rw [cpu]; rfl) own
        | _ => cases here
      | joinNone _ eq => exact absurd eq (Join.back_ne id)
      | joinHit | joinMiss =>
        rw [inv.core.tid_step h (on_of_thread cpu) own id]
        exact inv.named _ me _ j _ (on_of_thread cpu) own user
  have old := (h.on_other same).mp on
  rw [inv.core.tid_step h old own id]
  exact inv.named d me i j found old own user

lemma Joins.step (inv : Joins s p) (guard : UnmixedJoin p s l) (next : Xv6.step s l = some s') :
    Joins s' p where
  toBased := inv.toBased.step guard.2.2 (steps_of_step next)
  tids := inv.tids.step inv.core (fun _ _ _ on own => inv.ended on own) (steps_of_step next)
  targets := inv.targets_step guard (steps_of_step next)
  named := inv.named_step guard next

lemma joins_init (live : ProcId → Bool) (p : ProcId) : Joins (init n live) p where
  toBased := based_init live p
  tids := tids_init live p
  targets j t pending := by
    cases pending with
    | on on => exact (nomatch on)
    | off _ ctx => exact (nomatch ctx)
  named _ _ _ _ _ on := nomatch on

/-- The thread of the entry, with the given id, calls `kthread_exit`. -/
def ExitCall (k : KtId) (tid status : Int) (s : State n) (l : Label n) : Prop :=
  l.act = .call (.kthreadExit status) ∧ (∃ a0, s.cpu l.cpu = .thread k (.user a0)) ∧
    (s.kt k).tid = tid

/-- The status that a thread in `kthread_exit` was called with. -/
def Pc.exitStatus : Pc → Option Int
  | .lastScan _ status | .setZombie status => some status
  | _ => none

section
variable (n) (p) (live : ProcId → Bool)

def Called (k : KtId) (tid status : Int) (as : List (Label n)) : Prop :=
  Happened step (UnmixedJoin p) (init n live) (ExitCall k tid status) as

/-- Every zombie has called `kthread_exit` with the status that it shows. -/
structure Exited (as : List (Label n)) (s : State n) : Prop where
  joins : Joins s p
  calls : ∀ c k pc status, On s c k pc → k.1 = p → pc.exitStatus = some status →
    Called n p live k (s.kt k).tid status as
  zombies : ∀ i, (s.kt (p, i)).tState = .zombie →
    Called n p live (p, i) (s.kt (p, i)).tid (s.kt (p, i)).tXstate as ∨ Over s p

variable {n} {p} {live} {as : List (Label n)}

lemma Pc.exitStatus_not_tail {status : Int} (h : pc.exitStatus = some status) : ¬ pc.Tail := by
  cases pc <;> first | exact fun tail => tail | cases h

lemma Exited.calls_step (inv : Exited n p live as s)
    (run : Run Xv6.step (UnmixedJoin p) (init n live) as s) (next : Xv6.step s l = some s')
    {status : Int} (on : On s' d k pc) (own : k.1 = p) (exits : pc.exitStatus = some status) :
    Called n p live k (s'.kt k).tid status (as ++ [l]) := by
  have h := steps_of_step next
  have kept : ∀ {d pc}, On s d k pc → pc.exitStatus = some status →
      Called n p live k (s'.kt k).tid status (as ++ [l]) := by
    intro d pc on exits
    rw [inv.joins.core.tid_step h on own (Pc.exitStatus_not_tail exits)]
    exact (inv.calls d k pc status on own exits).snoc l
  by_cases same : d = l.cpu
  · subst same
    rcases h.on_own on with ⟨-, resumed, -⟩ | ⟨pc', cpu, -, arrives⟩
    · cases resumed <;> cases exits
    cases arrives with
    | stay => exact kept (on_of_thread cpu) exits
    | reap r eq =>
      subst eq
      unfold Join.back at exits
      split at exits <;> cases exits
    | go move =>
      cases move with
      | call a0 call eq =>
        obtain ⟨call', act, rfl⟩ := call_of_step cpu next
        have here := ((on_goto s).mp on).2
        subst here
        cases call' with
        | kthreadExit status' =>
          cases exits
          exact Happened.last run ⟨act, ⟨a0, cpu⟩, rfl⟩
        | _ => cases exits
      | joinNone _ eq =>
        subst eq
        unfold Join.back at exits
        split at exits <;> cases exits
      | notLast | lastNext => exact kept (on_of_thread cpu) exits
      | _ => cases exits
    | _ => cases exits
  exact kept ((h.on_other same).mp on) exits

lemma Exited.zombies_step (inv : Exited n p live as s) (h : Steps s l.cpu s')
    {i : Fin NKT} (dead : (s'.kt (p, i)).tState = .zombie) :
    Called n p live (p, i) (s'.kt (p, i)).tid (s'.kt (p, i)).tXstate (as ++ [l]) ∨ Over s' p := by
  rcases (h.entry (p, i)).zombie_before dead with ⟨before, status⟩ | ⟨status, cpu, eq⟩ |
    ⟨me, m, status, cpu, eq⟩
  · rcases inv.zombies i before with called | ended
    · left
      rcases (h.entry (p, i)).tid with same | ⟨_, _, _, _, free⟩ | ⟨empty, -⟩
      · rw [same, status]
        exact called.snoc l
      · rw [before] at free
        cases free
      rw [dead] at empty
      cases empty
    exact .inr (ended.step inv.joins.core h)
  · left
    rw [inv.joins.core.tid_step h (on_of_thread cpu) rfl id, eq]
    exact (inv.calls l.cpu (p, i) _ status (on_of_thread cpu) rfl rfl).snoc l
  exact .inr ((inv.joins.ended (on_of_thread cpu) eq.symm).step inv.joins.core h)

lemma exited_of_run (run : Run Xv6.step (UnmixedJoin p) (init n live) as s) :
    Exited n p live as s := by
  refine run.history (P := fun as s => Exited n p live as s) ?_ ?_
  · refine ⟨joins_init live p, fun _ _ _ _ on => (nomatch on), fun i dead => ?_⟩
    rcases init_entry n live p i with ⟨-, -, ready, -⟩ | ⟨empty, -⟩
    · rw [dead] at ready
      cases ready
    rw [dead] at empty
    cases empty
  intro bs x l y run inv guard next
  exact ⟨inv.joins.step guard next, fun _ _ _ _ on own exits => inv.calls_step run next on own
    exits, fun _ dead => inv.zombies_step (steps_of_step next) dead⟩

end

/-- The call of `kthread_join` that a thread at the position is in. -/
def Pc.joinCall : Pc → Option Join
  | .joinScan _ j _ | .joinLock j _ | .joinTest j _ | .joinReap j _ | .joinSleep j _ => some j
  | _ => none

/-- The system call `kthread_join` on the CPU returns `r` in the step. -/
def Returns (s : State n) (c : Fin n) (me : KtId) (j : Join) (r : Int) (s' : State n) : Prop :=
  j.ret = .user ∧ (∃ pc, s.cpu c = .thread me pc ∧ pc.joinCall = some j) ∧
    s'.cpu c = .thread me (.user r)

/-- The lookup of the join examines an allocated thread, other than the caller,
that has the id. -/
def Meets (c : Fin n) (me : KtId) (j : Join) (s : State n) (l : Label n) : Prop :=
  l.cpu = c ∧ ∃ (t : Fin NKT) (found : Option (Fin NKT)), s.cpu c = .thread me (.joinScan t j found) ∧
    t ≠ me.2 ∧ (s.kt (me.1, t)).tState ≠ .unused ∧ (s.kt (me.1, t)).tid = j.ktid

/-- The lookup ends without a result and the call returns -1 at once. -/
def GivesUp (c : Fin n) (me : KtId) (j : Join) (s : State n) (l : Label n) : Prop :=
  l.cpu = c ∧ (∃ i, s.cpu c = .thread me (.joinScan i j none)) ∧
    step s l = some (s.goto c me (.user (-1)))

lemma Joins.lookup_step (inv : Joins s p) (next : Xv6.step s l = some s')
    {i : Nat} (own : me.1 = p) (user : j.ret = .user)
    (cpu : s.cpu l.cpu = .thread me (.joinScan i j none)) (misses : ¬ Meets l.cpu me j s l) :
    (∃ i, s'.cpu l.cpu = .thread me (.joinScan i j none)) ∨ s' = s.goto l.cpu me (.user (-1)) := by
  cases (steps_of_step next).move_of cpu with
  | panic fault => cases fault
  | goto move =>
    cases move with
    | joinHit inside same =>
      obtain ⟨notZero, notOwn⟩ := inv.named l.cpu me i j none (on_of_thread cpu) own user
      subst own
      refine absurd ⟨rfl, ⟨i, inside⟩, none, cpu, ?_, ?_, same⟩ misses
      · intro eq
        rw [eq] at same
        exact notOwn same.symm
      intro free
      exact notZero (same ▸ inv.tids.free _ free)
    | joinMiss => exact .inl ⟨i + 1, update_self _ _ _⟩
    | joinNone _ eq =>
      right
      rw [eq, Join.back, user]

lemma Joins.reaped (inv : Joins s p) (on : On s c me (.joinReap j t)) (own : me.1 = p) :
    (s.kt (p, t)).tid = j.ktid ∧ (s.kt (p, t)).tState = .zombie ∧ j.ktid ≠ 0 ∧ ¬ Over s p := by
  have dead := inv.core.target c me j t on own
  have runs : ¬ Over s p := by
    intro ended
    obtain ⟨i, status, eq⟩ := ended.on inv.core on own id
    cases eq
  have same : (s.kt (p, t)).tid = j.ktid := by
    rcases inv.targets j t (.on on own rfl) with same | free | ended
    · exact same
    · rw [dead] at free
      cases free
    exact absurd ended runs
  refine ⟨same, dead, ?_, runs⟩
  rcases inv.tids.zombie t dead with used | ended
  · rwa [← same]
  exact absurd ended runs

lemma Returns.zero (h : Returns s c me j 0 s') (steps : Steps s c s') : ∃ t, s.cpu c =
    .thread me (.joinReap j t) ∧ s'.kt = update s.kt (me.1, t) (s.kt (me.1, t)).freethread ∧
    s'.proc = s.proc ∧ s'.word me.1 = if j.status =
    0 then s.word me.1 else update (s.word me.1) j.status (some (s.kt (me.1, t)).tXstate) := by
  obtain ⟨user, ⟨pc, cpu, call⟩, zero⟩ := h
  cases steps.move_of cpu with
  | goto move =>
    have here := congrArg Cpu.pos zero
    simp only [State.goto, setCpu_cpu, update_self, Cpu.pos, some.injEq,
      Prod.mk.injEq, true_and] at here
    cases move with
    | joinHit | joinMiss | joinFound | joinZombie | joinWait => cases here
    | joinNone _ eq =>
      cases call
      rw [eq, Join.back, user] at here
      cases here
    | _ => cases call
  | panic => rw [setCpu_cpu, update_self] at zero; cases zero
  | @reap j t null =>
    cases call
    exact ⟨t, cpu, rfl, rfl, by rw [if_pos null]; rfl⟩
  | @reapStore j t some_ =>
    cases call
    exact ⟨t, cpu, rfl, rfl, by rw [if_neg some_]; exact update_self _ _ _⟩
  | reapFault =>
    cases call
    simp only [State.goto, setCpu_cpu, update_self, Join.back, user] at zero
    cases zero
  | joinLock =>
    simp only [State.goto, setCpu_cpu, update_self] at zero
    cases zero
  | joinSleep =>
    simp only [sched_cpu, update_self] at zero
    cases zero
  | _ => cases call

lemma Steps.join_table (h : Steps s c s') (cpu : s.cpu c = .thread me pc) (call : pc.joinCall =
    some j) (user : j.ret = .user) (fails : s'.cpu c ≠ .thread me (.user 0)) : s'.kt = s.kt ∨ ∃ t,
    pc = .joinSleep j t ∧ s'.kt = update s.kt me ((s.kt me).sleep (.kthread (me.1, t))) := by
  cases h.move_of cpu with
  | goto | panic | joinLock | reapFault => exact .inl rfl
  | reap | reapStore =>
    cases call
    refine absurd ?_ fails
    simp only [State.goto, setCpu_cpu, update_self, Join.back, user]
  | @joinSleep j t =>
    cases call
    exact .inr ⟨t, rfl, rfl⟩
  | _ => cases call

variable {bs : List (Label n)}

lemma Joins.of_run {G : State n → Label n → Prop} (inv : Joins s p)
    (weaker : ∀ s l, G s l → UnmixedJoin p s l) (run : Run Xv6.step G s bs s') : Joins s' p :=
  run.invariant (I := fun s => Joins s p)
    (fun _ _ _ inv guard next => inv.step (weaker _ _ guard) next) inv

lemma Joins.lookup (inv : Joins s p) (own : me.1 = p) (user : j.ret = .user) {i : Nat} (cpu :
    s.cpu c = .thread me (.joinScan i j none)) (run : Run Xv6.step (fun x l =>
    UnmixedJoin p x l ∧ ¬ Meets c me j x l) s bs s') : (∃ i, s'.cpu c = .thread me (.joinScan i j
    none)) ∨ Happened Xv6.step (fun x l => UnmixedJoin p x l ∧ ¬ Meets c me j x l) s (GivesUp c me
    j) bs := by
  by_cases still : ∃ i, s'.cpu c = .thread me (.joinScan i j none)
  · exact .inl still
  right
  obtain ⟨cs, l, ds, x, y, rfl, before, guard, next, -, ⟨i', here⟩, gone⟩ :=
    run.exists_breaking_step (Q := fun x => ∃ i, x.cpu c = .thread me (.joinScan i j none)) ⟨i, cpu⟩
    still
  refine ⟨cs, l, ds, x, rfl, before, ?_⟩
  have acts : l.cpu = c := by
    by_contra other
    exact gone ⟨i', by rw [(steps_of_step next).other (Ne.symm other), here]⟩
  subst acts
  have invX := inv.of_run (fun _ _ guard => guard.1) before
  rcases invX.lookup_step next own user here guard.2 with again | eq
  · exact absurd again gone
  exact ⟨rfl, ⟨i', here⟩, by rw [next, eq]⟩

lemma Joins.spent (inv : Joins s p) (on : On s c me (.joinReap j t)) (own : me.1 = p)
    (table : s'.kt = update s.kt (p, t) (s.kt (p, t)).freethread) (procs : s'.proc = s.proc) :
    Spent j.ktid s' p := by
  obtain ⟨same, -, notZero, -⟩ := inv.reaped on own
  have range := inv.tids.bounded t (same ▸ notZero)
  refine ⟨by omega, by rw [procs]; omega, fun i eq => ?_⟩
  rw [table] at eq
  by_cases here : i = t
  · subst here
    rw [update_self] at eq
    exact notZero eq.symm
  rw [update_of_ne fun h => here (congrArg Prod.snd h)] at eq
  exact here (inv.tids.distinct i t (eq ▸ notZero) (eq.trans same.symm))

theorem kthread_join_reaps_the_named_thread (n : Nat) (live : ProcId → Bool) (p : ProcId)
    (as : List (Label n)) (s : State n) (run : Run step (UnmixedJoin p) (init n live) as s) :
    (∀ c me j, me.1 = p → j.ret = .user → s.cpu c = .thread me (.joinScan 0 j none) → ∀ bs u,
      Run step (fun x l => UnmixedJoin p x l ∧ ¬ Meets c me j x l) s bs u →
        (∃ i, u.cpu c = .thread me (.joinScan i j none)) ∨
        Happened step (fun x l => UnmixedJoin p x l ∧ ¬ Meets c me j x l) s (GivesUp c me j) bs) ∧
    ∀ l s', UnmixedJoin p s l → step s l = some s' → ∀ me j, me.1 = p →
      (Returns s l.cpu me j 0 s' → ∃ t status, s.cpu l.cpu = .thread me (.joinReap j t) ∧
        (s.kt (p, t)).tid = j.ktid ∧ Called n p live (p, t) j.ktid status as ∧
        s'.kt = update s.kt (p, t) (s.kt (p, t)).freethread ∧
        (s'.word p = if j.status = 0 then s.word p else
          update (s.word p) j.status (some status)) ∧
        ∀ bs u, Run step (UnmixedJoin p) s' bs u → ∀ l' u', UnmixedJoin p u l' →
          step u l' = some u' → ∀ me' j', me'.1 = p → Returns u l'.cpu me' j' 0 u' →
          j'.ktid ≠ j.ktid) ∧
      (Returns s l.cpu me j (-1) s' →
        s'.kt = s.kt ∧ (s.kt me).tState = .running ∧ (s.kt me).chan = none) ∧
      (j.ret = .user → ∀ pc, s.cpu l.cpu = .thread me pc → pc.joinCall = some j →
        s'.cpu l.cpu ≠ .thread me (.user 0) → s'.kt = s.kt ∨
          ∃ t, s'.kt = update s.kt me ((s.kt me).sleep (.kthread (me.1, t)))) := by
  have history := exited_of_run run
  have inv := history.joins
  have chans : Chans s p := (run.invariant (I := fun s => Joins s p ∧ Chans s p)
    (fun _ _ _ both guard next =>
      ⟨both.1.step guard next, both.2.step both.1.core (steps_of_step next)⟩)
    ⟨joins_init live p, chans_init live p⟩).2
  refine ⟨fun c me j own user cpu bs u later => inv.lookup own user cpu later, ?_⟩
  intro l s' guard next me j own
  have h := steps_of_step next
  refine ⟨fun returns => ?_, fun returns => ?_, fun user pc cpu call fails => ?_⟩
  · obtain ⟨t, cpu, table, procs, word⟩ := returns.zero h
    subst own
    obtain ⟨same, dead, -, runs⟩ := inv.reaped (on_of_thread cpu) rfl
    refine ⟨t, (s.kt (me.1, t)).tXstate, cpu, same, ?_, table, word, ?_⟩
    · rcases history.zombies t dead with called | ended
      · exact same ▸ called
      · exact absurd ended runs
    intro bs u later l' u' guard' next' me' j' own' returns' eq
    have spent : Spent j.ktid u me.1 := later.invariant (I := fun s => Spent j.ktid s me.1)
      (fun _ _ _ spent _ next => spent.step (steps_of_step next))
      (inv.spent (on_of_thread cpu) rfl table procs)
    have invU := (inv.step guard next).of_run (fun _ _ guard => guard) later
    obtain ⟨t', cpu', -⟩ := returns'.zero (steps_of_step next')
    have same' := (invU.reaped (on_of_thread cpu') own').1
    exact spent.2.2 t' (same'.trans eq)
  · obtain ⟨user, ⟨pc, cpu, call⟩, failed⟩ := returns
    have out : ¬ pc.Tail := by
      cases pc <;> first | exact fun h => h | cases call
    refine ⟨?_, inv.core.running l.cpu me pc (on_of_thread cpu) own out,
      chans.awake l.cpu me pc (on_of_thread cpu) own out⟩
    rcases h.join_table cpu call user (failed ▸ nofun) with same | ⟨t, rfl, -⟩
    · exact same
    rcases h.on_own (on_of_thread failed) with ⟨ready, -, -⟩ | ⟨pc', cpu', -, arrives⟩
    · rw [inv.core.running l.cpu me _ (on_of_thread cpu) own id] at ready
      cases ready
    obtain ⟨-, rfl⟩ := Cpu.thread.inj (cpu.symm.trans cpu')
    cases arrives with
    | go move => cases move
  rcases h.join_table cpu call user fails with same | ⟨t, -, slept⟩
  · exact .inl same
  · exact .inr ⟨t, slept⟩

def joinSecond : List (Label 2) :=
  goes 0 3 ++ [⟨0, .call (.kthreadCreate 0 0 0)⟩] ++ goes 0 3 ++ goes 1 4 ++
    [⟨1, .call (.kthreadExit 7)⟩] ++ goes 1 2 ++ [⟨0, .call (.kthreadJoin 2 4096)⟩] ++ goes 0 13

theorem joinSecond_reaps_second : ∃ s s', Run step (UnmixedJoin child) (init 2 onlyChild) joinSecond s ∧
    step s ⟨0, .go⟩ = some s' ∧ Returns s 0 (child, slot0) ⟨2, 4096, .user⟩ 0 s' ∧
    ∃ t status, (s.kt (child, t)).tid = 2 ∧ Called 2 child onlyChild (child, t) 2 status joinSecond ∧
      s'.word child 4096 = some status := by
  refine Run.exists_two_with (P := fun s =>
      s.cpu 0 = .thread (child, slot0) (.joinReap ⟨2, 4096, .user⟩ slot1) ∧
      UnmixedJoin child s ⟨0, .go⟩ ∧
      (step s ⟨0, .go⟩).any (fun s' => s'.cpu 0 = .thread (child, slot0) (.user 0)) = true)
    (by decide +kernel) fun s run ⟨cpu, fair, returned⟩ => ?_
  obtain ⟨s', next, zero⟩ := (Option.any_eq_true _ _).mp returned
  have returns : Returns s 0 (child, slot0) ⟨2, 4096, .user⟩ 0 s' :=
    ⟨rfl, ⟨_, cpu, rfl⟩, of_decide_eq_true zero⟩
  obtain ⟨t, status, -, tid, called, -, word, -⟩ :=
    ((kthread_join_reaps_the_named_thread 2 onlyChild child joinSecond s run).2 ⟨0, .go⟩ s' fair next
      (child, slot0) ⟨2, 4096, .user⟩ rfl).1 returns
  refine ⟨s', next, returns, t, status, tid, called, ?_⟩
  rw [word, if_neg (by decide), update_self]

/-- The only thread of a process joins 0, the id of the free entries. -/
def joinZero : List (Label 1) := goes 0 3 ++ [⟨0, .call (.kthreadJoin 0 0)⟩] ++ goes 0 14

/-- Two threads look up the id 2. One of them reaps it and creates another thread
in the entry, which exits. -/
def joinTwice : List (Label 4) :=
  goes 0 3 ++ [⟨0, .call (.kthreadCreate 0 0 0)⟩] ++ goes 0 3 ++
    [⟨0, .call (.kthreadCreate 0 0 0)⟩] ++ goes 0 4 ++ goes 1 4 ++ goes 2 5 ++
    [⟨0, .call (.kthreadJoin 2 0)⟩] ++ goes 0 11 ++ [⟨2, .call (.kthreadJoin 2 0)⟩] ++ goes 2 11 ++
    [⟨1, .call (.kthreadExit 7)⟩] ++ goes 1 2 ++ goes 2 3 ++
    [⟨2, .call (.kthreadCreate 0 0 0)⟩] ++ goes 2 2 ++ goes 3 4 ++
    [⟨3, .call (.kthreadExit 9)⟩] ++ goes 3 2 ++ goes 0 2

theorem joins_wait_for_entries :
    (∃ s, Run step Free (init 1 onlyChild) joinZero s ∧
      (∀ i, (s.kt (child, i)).tState ≠ .unused → (s.kt (child, i)).tid ≠ 0) ∧
      (s.kt (child, slot0)).tState = .sleeping ∧
      (s.kt (child, slot0)).chan = some (.kthread (child, slot9))) ∧
    ∃ s, Run step Free (init 4 onlyChild) joinTwice s ∧
      s.cpu 0 = .thread (child, slot0) (.joinReap ⟨2, 0, .user⟩ slot1) ∧
      (s.kt (child, slot1)).tid = 4 ∧
      (step s ⟨0, .go⟩).any (fun s' => s'.cpu 0 = .thread (child, slot0) (.user 0)) = true :=
  ⟨Run.exists_of_execute (by decide +kernel), Run.exists_of_execute (by decide +kernel)⟩

end Xv6
