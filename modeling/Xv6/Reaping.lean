import Xv6.ProcTree

/-! What `wait` returns in a system of processes with one thread each. The status that a zombie
holds was passed to a call of `exit` that its process has made, and the process has been in use
since that call. `wait` ends this use, so no two calls of `wait` return the same exit. -/
namespace Xv6.Lifecycle
open Interleaving List Option Lifecycle.State
open Function (update update_apply update_of_ne update_self)

/-- The status of a thread that is on its way through `exit` and has not stored it yet. -/
def Pc.exits : Pc → Option Int
  | .exitScan _ st | .exitLock st | .reparent _ st | .exitWake st | .setZombie st => some st
  | _ => none

/-- The step number `n` of the schedule is a call of `exit` by a thread of the process, which
has been in use since. -/
def ExitedAt (as : List Label) (s : State) (q : ProcId) (status : Int) (n : Nat) : Prop :=
  ∃ bs i cs t t', as = bs ++ .call (q, i) (.exit status) :: cs ∧ bs.length = n ∧
    Run step SingleThreaded init bs t ∧ step t (.call (q, i) (.exit status)) = some t' ∧
    Run step (fun u x => SingleThreaded u x ∧ (u.proc q).state ≠ .unused) t' cs s ∧
    (s.proc q).state ≠ .unused

variable {s s' : State} {me k : KtId} {as : List Label} {x : Label} {q : ProcId} {status : Int}
  {n : Nat}

lemma ExitedAt.snoc (h : ExitedAt as s q status n) (single : SingleThreaded s x)
    (next : step s x = some s') (used : (s'.proc q).state ≠ .unused) :
    ExitedAt (as ++ [x]) s' q status n := by
  obtain ⟨bs, i, cs, t, t', rfl, len, before, call, after, now⟩ := h
  exact ⟨bs, i, cs ++ [x], t, t', by rw [append_assoc, cons_append], len, before, call,
    after.snoc ⟨single, now⟩ next, used⟩

/-- Two exits that are the same step of the schedule have the same process, which has been in
use in between. -/
lemma ExitedAt.used_between {cs : List Label} {u : State} {q' : ProcId} {status' : Int}
    (first : ExitedAt as s q status n) (run : Run step SingleThreaded init (as ++ [x]) s')
    (second : ExitedAt (as ++ x :: cs) u q' status' n) : q' = q ∧ (s'.proc q).state ≠ .unused := by
  obtain ⟨bs, i, ds, t, t', rfl, len, before, call, during, -⟩ := first
  obtain ⟨bs', i', ds', r, r', split, len', before', call', during', now'⟩ := second
  rw [append_assoc, cons_append] at split
  obtain ⟨rfl, tails⟩ := append_inj split (len.trans len'.symm)
  obtain ⟨same, rfl⟩ := cons_eq_cons.mp tails
  cases same
  cases before.unique before'
  cases Option.some.inj (call.symm.trans call')
  refine ⟨rfl, ?_⟩
  -- the run after the call passes through the state `s'`
  rw [append_cons] at during'
  obtain ⟨v, toV, rest⟩ := during'.split
  have here : v = s' := by
    have single : SingleThreaded t (.call (q, i) (.exit status)) := trivial
    have whole := before.append (.cons single call (toV.mono fun _ _ h => h.1))
    rw [← cons_append, ← append_assoc] at whole
    exact whole.unique run
  subst here
  cases rest with
  | nil => exact now'
  | cons guard _ _ => exact guard.2

/-- Where the exits of a state come from: a status on its way through `exit` was on its way
before, or comes from the call; that of a zombie was its status before, or on its way. -/
structure Traced (s : State) (x : Label) (s' : State) : Prop where
  pc : ∀ k status, (s'.pc k).exits = some status →
    (s.pc k).exits = some status ∨ x = .call k (.exit status)
  zombie : ∀ q, (s'.proc q).state = .zombie →
    ((s.proc q).state = .zombie ∧ (s'.proc q).xstate = (s.proc q).xstate) ∨
      ∃ k, k.1 = q ∧ (s.pc k).exits = some (s'.proc q).xstate

lemma exits_kept (pc : ∀ k, (s'.pc k).exits = none ∨ (s'.pc k).exits = (s.pc k).exits)
    (k : KtId) (status : Int) (out : (s'.pc k).exits = some status) :
    (s.pc k).exits = some status ∨ x = .call k (.exit status) := by
  rcases pc k with none | same
  · exact nomatch none.symm.trans out
  exact .inl (same.symm.trans out)

lemma Traced.of_zombie (pc : ∀ k, (s'.pc k).exits = none ∨ (s'.pc k).exits = (s.pc k).exits)
    (zombie : ∀ q, (s'.proc q).state = .zombie → (s'.proc q).state = (s.proc q).state ∧
    (s'.proc q).xstate = (s.proc q).xstate) : Traced s x s' :=
  ⟨exits_kept pc, fun q dead => .inl ⟨(zombie q dead).1.symm.trans dead, (zombie q dead).2⟩⟩

variable {pc : Pc} {p : ProcId} {fault : Bool}

lemma exits_update (h : pc.exits = none ∨ pc.exits = (s.pc me).exits) (k : KtId) :
    (update s.pc me pc k).exits = none ∨ (update s.pc me pc k).exits = (s.pc k).exits := by
  rw [update_apply]
  split_ifs with eq
  · rw [eq]
    exact h
  exact .inr rfl

lemma Traced.goto (h : pc.exits = none ∨ pc.exits = (s.pc me).exits) :
    Traced s x (s.goto me pc) := .of_zombie (exits_update h) fun _ _ => ⟨rfl, rfl⟩

lemma Traced.lockWait (h : pc.exits = none ∨ pc.exits = (s.pc me).exits)
    (next : lockWait s me pc = some s') : Traced s x s' := by
  obtain ⟨-, rfl⟩ := guarded.mp next
  exact .of_zombie (exits_update h) fun _ _ => ⟨rfl, rfl⟩

lemma Traced.freeproc {t : State} (pc : ∀ k, (t.pc k).exits = none ∨ t.pc k = s.pc k)
    (proc : ∀ q, q ≠ p → t.proc q = s.proc q) (freed : s'.proc = (t.freeproc p).proc)
    (pc' : s'.pc = update (t.freeproc p).pc me .user) : Traced s x s' := by
  refine .of_zombie (fun k => ?_) fun q dead => ?_
  · rw [pc', update_apply]
    split_ifs with mine
    · exact .inl rfl
    rw [freeproc_pc]
    split_ifs
    · exact (pc k).imp_right (congrArg Pc.exits)
    · exact .inl rfl
    exact (pc k).imp_right (congrArg Pc.exits)
  by_cases eq : q = p
  · subst eq
    rw [freed, freeproc_proc, update_self] at dead
    exact nomatch dead
  rw [freed, freeproc_proc, update_of_ne eq, proc q eq]
  exact ⟨rfl, rfl⟩

lemma take_pc (p : ProcId) (i : Fin NKT) (k : KtId) : (((s.allocpid p).take (p, i)).pc k).exits =
    none ∨ ((s.allocpid p).take (p, i)).pc k = s.pc k := by
  rw [State.take_pc, update_apply]
  split_ifs
  · exact .inl rfl
  exact .inr rfl

lemma take_proc (i : Fin NKT) (away : q ≠ p) :
    ((s.allocpid p).take (p, i)).proc q = s.proc q := by
  rw [State.take_proc, update_of_ne away, State.allocpid_proc, update_of_ne away]

lemma Traced.take {i : Fin NKT} (proc : s'.proc = ((s.allocpid p).take (p, i)).proc) (pc : ∀ k,
    (s'.pc k).exits = none ∨ s'.pc k = ((s.allocpid p).take (p, i)).pc k) : Traced s x s' := by
  refine .of_zombie (fun k => ?_) fun q dead => ?_
  · rcases pc k with none | same
    · exact .inl none
    rw [same]
    exact (take_pc p i k).imp_right (congrArg Pc.exits)
  by_cases eq : q = p
  · subst eq
    rw [proc, State.take_proc] at dead
    simp only [State.allocpid_proc, update_self] at dead
    exact nomatch dead
  rw [proc, take_proc i eq]
  exact ⟨rfl, rfl⟩

lemma Tree.traced_forkAlloc (tree : Tree s) (unused : (s.proc p).state = .unused) (mem : Memory) :
    Traced s x (Lifecycle.forkAlloc s me p mem) := by
  unfold Lifecycle.forkAlloc
  dsimp only
  rw [freeKt_allocpid (tree.free p unused).2]
  dsimp only
  split_ifs with noTrapframe noPagetable stop
  · exact .freeproc (t := s.allocpid p) (fun _ => .inr rfl)
      (fun q away => update_of_ne away ..) rfl rfl
  · exact .freeproc (take_pc p slot0) (fun q away => take_proc slot0 away) rfl rfl
  · exact .take rfl fun _ => .inr rfl
  refine .take rfl fun k => ?_
  rw [goto_pc, update_apply]
  split_ifs
  · exact .inl rfl
  exact .inr rfl

lemma Tree.traced_forkStep {mem : Memory} (tree : Tree s)
    (next : Lifecycle.forkStep s me mem (s.pc me) = some s') : Traced s x s' := by
  generalize here : s.pc me = pos at next
  cases pos with
  | forkScan j =>
    rw [Lifecycle.forkStep] at next
    split_ifs at next with inTable unused <;> cases next
    · exact tree.traced_forkAlloc unused mem
    · exact .goto (.inl rfl)
    exact .of_zombie (exits_update (.inl rfl)) fun _ _ => ⟨rfl, rfl⟩
  | forkLock np pid => exact .lockWait (.inl rfl) next
  | forkLink np pid =>
    cases next
    refine .of_zombie (exits_update (.inl rfl)) fun q _ => ?_
    rw [goto_proc, setWaitLock_proc, setProc_proc, update_apply]
    split_ifs with eq
    · rw [eq]
      exact ⟨rfl, rfl⟩
    exact ⟨rfl, rfl⟩
  | forkRun np pid =>
    cases next
    exact .of_zombie (exits_update (.inl rfl)) fun _ _ => ⟨rfl, rfl⟩
  | _ => cases next

lemma traced_exitStep (next : exitStep s me (s.pc me) = some s') : Traced s x s' := by
  generalize here : s.pc me = pos at next
  cases pos with
  | exitScan i status =>
    rw [exitStep] at next
    split_ifs at next with inTable mine live <;> cases next
    · exact .goto (.inr (here ▸ rfl))
    · exact .of_zombie (exits_update (.inl rfl)) fun _ _ => ⟨rfl, rfl⟩
    · exact .goto (.inr (here ▸ rfl))
    exact .goto (.inr (here ▸ rfl))
  | exitLock status => exact .lockWait (.inr (here ▸ rfl)) next
  | reparent j status =>
    rw [exitStep] at next
    split_ifs at next with inTable child <;> cases next
    · refine .of_zombie (exits_update (s := s) (.inr (here ▸ rfl))) fun q _ => ?_
      rw [goto_proc, wakeup_proc, setProc_proc, update_apply]
      split_ifs with eq
      · rw [eq]
        exact ⟨rfl, rfl⟩
      exact ⟨rfl, rfl⟩
    · exact .goto (.inr (here ▸ rfl))
    exact .goto (.inr (here ▸ rfl))
  | exitWake status =>
    rw [exitStep] at next
    cases next
    cases (s.proc me.1).parent with
    | none => exact .goto (.inr (here ▸ rfl))
    | some q =>
      exact .of_zombie (exits_update (s := s) (.inr (here ▸ rfl))) fun _ _ => ⟨rfl, rfl⟩
  | setZombie status =>
    cases next
    refine ⟨exits_kept (exits_update (.inl rfl)), fun q dead => ?_⟩
    by_cases own : q = me.1
    · refine .inr ⟨me, own.symm, ?_⟩
      rw [here, own, goto_proc, setProc_proc, update_self]
      rfl
    left
    rw [goto_proc, setProc_proc, update_of_ne own] at dead ⊢
    exact ⟨dead, rfl⟩
  | exitThreads i status =>
    rw [exitStep] at next
    split_ifs at next with inTable <;> cases next
    · exact .of_zombie (exits_update (.inl rfl)) fun _ _ => ⟨rfl, rfl⟩
    exact .goto (.inl rfl)
  | exitSched =>
    cases next
    exact .of_zombie (exits_update (.inl rfl)) fun _ _ => ⟨rfl, rfl⟩
  | _ => cases next

/-- The child that a call of `wait` returns, at the step that frees it. -/
structure Reaps (s s' : State) (me : KtId) (store : Bool) (q : ProcId) : Prop where
  child : (s.proc q).parent = some me.1
  zombie : (s.proc q).state = .zombie
  proc : s'.proc = (s.freeproc q).proc
  pc : s'.pc = update (s.freeproc q).pc me .user
  a0 : s'.a0 me = (s.proc q).pid
  stored : s'.stored me = if store then some (s.proc q).xstate else none

def Pc.waits : Pc → Option Bool
  | .waitLock store | .waitScan store _ _ | .waitTest store _ | .waitWoken store => some store
  | _ => none

lemma waitStep_cases (next : waitStep s me fault (s.pc me) = some s') : ((s'.proc = s.proc ∧
    ∃ pc, s'.pc = update s.pc me pc ∧ pc.exits = none ∧ (pc ≠ .user ∨ s'.a0 me = -1))) ∨ ∃ store q,
    (s.pc me).waits = some store ∧ Reaps s s' me store q := by
  generalize here : s.pc me = pos at next
  cases pos with
  | waitLock store =>
    obtain ⟨-, rfl⟩ := guarded.mp next
    exact .inl ⟨rfl, .waitScan store 0 false, rfl, rfl, .inl Pc.noConfusion⟩
  | waitScan store j havekids =>
    rw [waitStep] at next
    by_cases inTable : j < NPROC
    · rw [dif_pos inTable] at next
      cases next
      by_cases child : (s.proc ⟨j, inTable⟩).parent = some me.1
      · rw [if_pos child]
        by_cases zombie : (s.proc ⟨j, inTable⟩).state = .zombie
        · rw [if_pos zombie]
          by_cases stop : store = true ∧ fault = true
          · rw [if_pos stop]
            exact .inl ⟨rfl, .user, rfl, rfl, .inr (update_self ..)⟩
          rw [if_neg stop]
          exact .inr ⟨store, ⟨j, inTable⟩, rfl, child, zombie, rfl, rfl,
            update_self .., update_self ..⟩
        rw [if_neg zombie]
        exact .inl ⟨rfl, .waitScan store (j + 1) true, rfl, rfl, .inl Pc.noConfusion⟩
      rw [if_neg child]
      exact .inl ⟨rfl, .waitScan store (j + 1) havekids, rfl, rfl, .inl Pc.noConfusion⟩
    rw [dif_neg inTable] at next
    cases next
    exact .inl ⟨rfl, .waitTest store havekids, rfl, rfl, .inl Pc.noConfusion⟩
  | waitTest store havekids =>
    rw [waitStep] at next
    split_ifs at next with stop <;> cases next
    · exact .inl ⟨rfl, .user, rfl, rfl, .inr (update_self ..)⟩
    exact .inl ⟨rfl, .waitWoken store, rfl, rfl, .inl Pc.noConfusion⟩
  | waitWoken store =>
    cases next
    exact .inl ⟨rfl, .waitLock store, rfl, rfl, .inl Pc.noConfusion⟩
  | _ => cases next

lemma traced_waitStep (next : waitStep s me fault (s.pc me) = some s') : Traced s x s' := by
  rcases waitStep_cases next with ⟨proc, pc, moved, out, -⟩ | ⟨store, q, -, reaps⟩
  · refine .of_zombie (fun k => ?_) fun q _ => ?_
    · rw [moved]
      exact exits_update (.inl out) k
    rw [proc]
    exact ⟨rfl, rfl⟩
  exact .freeproc (fun _ => .inr rfl) (fun _ _ => rfl) reaps.proc reaps.pc

lemma Tree.traced_goStep {mem : Memory} (tree : Tree s) (on : s.onCpu me = true)
    (next : Lifecycle.goStep s me mem fault = some s') : Traced s x s' := by
  unfold Lifecycle.goStep at next
  cases part : (s.pc me).part with
  | none =>
    rw [part] at next
    cases next
  | some f =>
    rw [part] at next
    cases f with
    | fork => exact tree.traced_forkStep next
    | exit => exact traced_exitStep next
    | wait => exact traced_waitStep next
    | thread =>
      rcases tree.no_threadStep on with no | no
      · exact absurd next no
      exact absurd part no

lemma exits_callStep {c : Call} (single : SingleThreaded s (.call me c))
    (h : ((callStep s me c).pc k).exits = some status) :
    (s.pc k).exits = some status ∨ Label.call me c = .call k (.exit status) := by
  by_cases mine : k = me
  · subst mine
    cases c with
    | fork | wait =>
      rw [callStep, goto_pc, update_self] at h
      exact nomatch h
    | exit st =>
      unfold callStep exitCall at h
      split_ifs at h with root
      · exact .inl h
      rw [goto_pc, update_self] at h
      cases h
      exact .inr rfl
    | kthreadCreate | kthreadExit | kthreadJoin => exact single.elim
  left
  cases c with
  | fork | wait => rwa [callStep, goto_pc, update_of_ne mine] at h
  | exit st =>
    unfold callStep exitCall at h
    split_ifs at h with root
    · exact h
    rwa [goto_pc, update_of_ne mine] at h
  | kthreadCreate | kthreadExit | kthreadJoin => exact single.elim

lemma callStep_proc {c : Call} : (callStep s me c).proc = s.proc := by
  cases c with
  | exit status =>
    unfold callStep exitCall
    split_ifs <;> rfl
  | _ => rfl

lemma Tree.traced (tree : Tree s) (single : SingleThreaded s x)
    (next : Lifecycle.step s x = some s') : Traced s x s' := by
  obtain ⟨running, next⟩ := ite_none_left_eq_some.mp next
  cases x with
  | go me mem fault =>
    obtain ⟨on, next⟩ := ite_none_right_eq_some.mp next
    exact tree.traced_goStep on next
  | call me c =>
    obtain ⟨⟨on, here⟩, rfl⟩ := guarded.mp next
    split_ifs with mine
    · refine ⟨fun k status => exits_callStep single, fun q dead => .inl ?_⟩
      rw [callStep_proc] at dead ⊢
      exact ⟨dead, rfl⟩
    exact ⟨fun k status => .inl, fun q dead => .inl ⟨dead, rfl⟩⟩
  | dispatch k =>
    obtain ⟨-, rfl⟩ := guarded.mp next
    exact ⟨fun k status => .inl, fun q dead => .inl ⟨dead, rfl⟩⟩
  | kill p =>
    cases next
    refine ⟨fun k status => .inl, fun q dead => .inl ?_⟩
    rw [setProc_proc, update_apply] at dead ⊢
    split_ifs at dead ⊢ with eq
    · rw [eq]
      exact ⟨dead, rfl⟩
    exact ⟨dead, rfl⟩

/-- Every exit of a state is that of a call in the schedule. -/
structure Exits (as : List Label) (s : State) : Prop where
  pc : ∀ k status, (s.pc k).exits = some status → ∃ n, ExitedAt as s k.1 status n
  zombie : ∀ q, (s.proc q).state = .zombie → ∃ n, ExitedAt as s q (s.proc q).xstate n

lemma At.used_of_exits (h : At s k pc) (exits : pc.exits = some status) :
    (s.proc k.1).state ≠ .unused := by
  have live : pc.gone = false := by
    cases pc with
    | idle | zombieExit => exact nomatch exits
    | _ => rfl
  rcases h.used_or live with used | ⟨zombie, -⟩
  · rw [used]
    exact nofun
  rw [zombie]
  exact nofun

lemma Exits.step (exits : Exits as s) (tree : Tree s) (run : Run step SingleThreaded init as s)
    (single : SingleThreaded s x) (next : step s x = some s') : Exits (as ++ [x]) s' := by
  obtain ⟨pc, zombie⟩ := tree.traced single next
  have tree' := tree.step single next
  refine ⟨fun k status out => ?_, fun q dead => ?_⟩
  · have used := (tree'.at' k).used_of_exits out
    rcases pc k status out with old | rfl
    · obtain ⟨n, exited⟩ := exits.pc k status old
      exact ⟨n, exited.snoc single next used⟩
    exact ⟨as.length, as, k.2, [], s, s', rfl, rfl, run, next, .nil s', used⟩
  have used : (s'.proc q).state ≠ .unused := by
    rw [dead]
    exact nofun
  rcases zombie q dead with ⟨old, same⟩ | ⟨k, rfl, old⟩
  · obtain ⟨n, exited⟩ := exits.zombie q old
    rw [same]
    exact ⟨n, exited.snoc single next used⟩
  obtain ⟨n, exited⟩ := exits.pc k _ old
  exact ⟨n, exited.snoc single next used⟩

lemma run_spec (run : Run step SingleThreaded init as s) : Tree s ∧ Exits as s := by
  have start : Exits [] init := by
    refine ⟨fun k status out => ?_, fun q dead => ?_⟩
    · have pc : init.pc k = if k = (initproc, slot0) then .user else .idle := rfl
      rw [pc] at out
      split_ifs at out <;> exact nomatch out
    have none : (init.proc q).state ≠ .zombie := by
      revert q
      decide
    exact absurd dead none
  exact run.history (P := fun as s => Tree s ∧ Exits as s) ⟨tree_init, start⟩
    fun _ _ _ _ run h single next => ⟨h.1.step single next, h.2.step h.1 run single next⟩

def Returns (s : State) (x : Label) (s' : State) (me : KtId) (r : Int) : Prop :=
  ∃ mem fault, x = .go me mem fault ∧ (s.pc me).part = some .wait ∧ s'.pc me = .user ∧
    s'.a0 me = r

/-- The call of `wait` returns a child of the caller whose `exit` is the step number `n` of the
schedule, with the status of that call, and frees it. -/
def ReturnsExit (as : List Label) (s s' : State) (me : KtId) (r : Int) (n : Nat) : Prop :=
  ∃ q status store, (s.proc q).parent = some me.1 ∧ (s.proc q).pid = r ∧
    ExitedAt as s q status n ∧ (s.pc me).waits = some store ∧
    s'.stored me = (if store then some status else none) ∧ (s'.proc q).state = .unused

lemma returns_of_wait {r : Int} (next : step s x = some s') (returns : Returns s x s' me r)
    (pos : 0 < r) : ∃ store q, (s.pc me).waits = some store ∧ Reaps s s' me store q ∧
    (s.proc q).pid = r := by
  obtain ⟨mem, fault, rfl, part, user, result⟩ := returns
  obtain ⟨-, next⟩ := ite_none_left_eq_some.mp next
  obtain ⟨-, next⟩ := ite_none_right_eq_some.mp next
  unfold goStep at next
  rw [part] at next
  rcases waitStep_cases next with ⟨-, pc, moved, -, failed⟩ | ⟨store, q, waits, reaps⟩
  · rw [moved, update_self] at user
    have := failed.resolve_left (not_not.mpr user)
    omega
  exact ⟨store, q, waits, reaps, reaps.a0.symm.trans result⟩

/-- In every run of processes with one thread each, every process other than `initproc` has a
parent in use, unless `fork` has not made it a child yet. A call of `wait` that returns an id
returns that of a child that has called `exit`, with its status, and frees it; and two calls of
`wait` never return the same call of `exit`. -/
theorem children_are_reaped_once (run : Run step SingleThreaded init as s) :
    (∀ q, (s.proc q).state ≠ .unused → q ≠ initproc → ¬ InForkWindow s q →
      ∃ p, (s.proc q).parent = some p ∧ (s.proc p).state = .used) ∧
    ∀ x s' me r, SingleThreaded s x → step s x = some s' → Returns s x s' me r → 0 < r →
      (∃ n, ReturnsExit as s s' me r n) ∧
      ∀ n, ReturnsExit as s s' me r n → ∀ bs t t' me' r' n', Run step SingleThreaded s' bs t →
        ReturnsExit (as ++ x :: bs) t t' me' r' n' → n ≠ n' := by
  obtain ⟨tree, exits⟩ := run_spec run
  refine ⟨fun q alive other outside => ?_, fun x s' me r single next returns pos => ⟨?_, ?_⟩⟩
  · exact (tree.parent q alive other).resolve_left outside
  · obtain ⟨store, q, waits, reaps, pid⟩ := returns_of_wait next returns pos
    obtain ⟨n, exited⟩ := exits.zombie q reaps.zombie
    refine ⟨n, q, (s.proc q).xstate, store, reaps.child, pid, exited, waits, reaps.stored, ?_⟩
    rw [reaps.proc, State.freeproc_proc, update_self]
  rintro n ⟨q, status, store, -, -, exited, -, -, freed⟩ bs t t' me' r' n' later
    ⟨q', status', store', -, -, exited', -⟩ rfl
  have passes := run.snoc single next
  exact (exited.used_between passes exited').2 freed

def initThread : KtId := (initproc, slot0)

def goes (k : KtId) (n : Nat) : List Label := List.replicate n (.go k .enough false)

/-- `initproc` forks a child, which exits with status 7. `initproc` then waits and has come to
the entry of the child. -/
def childExits : List Label :=
  [.dispatch initThread, .call initThread .fork] ++ goes initThread 5 ++
  [.dispatch (child, slot0), .call (child, slot0) (.exit 7)] ++ goes (child, slot0) 91 ++
  [.call initThread (.wait true)] ++ goes initThread 2

theorem initproc_reaps_child : ∃ s s', Run step SingleThreaded init childExits s ∧
    step s (.go initThread .enough false) = some s' ∧
      Returns s (.go initThread .enough false) s' initThread 2 ∧
        ∃ n, ReturnsExit childExits s s' initThread 2 n := by
  refine Run.exists_two_with (P := fun s => (s.pc initThread).part = some .wait ∧
      ((step s (.go initThread .enough false)).any fun s' =>
        s'.pc initThread = .user ∧ s'.a0 initThread = 2) = true)
    (by decide +kernel) fun s run ⟨part, rest⟩ => ?_
  obtain ⟨s', next, rest⟩ := (Option.any_eq_true _ _).mp rest
  obtain ⟨user, result⟩ := of_decide_eq_true rest
  have returns : Returns s (.go initThread .enough false) s' initThread 2 :=
    ⟨.enough, false, rfl, part, user, result⟩
  have main := (children_are_reaped_once run).2 (.go initThread .enough false) _ _ _ trivial next
    returns (by decide)
  exact ⟨s', next, returns, main.1⟩

end Xv6.Lifecycle
