import Xv6.Reaping

/-! Process and thread ids. `allocpid` and `alloctid` count up, and `freeproc` and `freethread`
reset the ids of entries that are free from then on, so ids are unique as long as no thread
goes on in an entry that has been freed. Nothing ensures this: a thread that is created behind
the loop of `exit` over its siblings goes on, and the parent frees the process under it. -/
namespace Xv6.Lifecycle
open Interleaving Option Lifecycle.State
open Function (update update_apply update_of_ne update_self)

structure UniqueIds (s : State) : Prop where
  pid : ∀ p, (s.proc p).state ≠ .unused → 0 < (s.proc p).pid
  pids : ∀ p q, (s.proc p).state ≠ .unused → (s.proc q).state ≠ .unused →
    (s.proc p).pid = (s.proc q).pid → p = q
  tid : ∀ k, (s.proc k.1).state = .used → (s.kt k).tState ≠ .unused →
    0 < (s.kt k).tid ∧ (s.kt k).tid < (s.proc k.1).pCounter
  tids : ∀ k k', k.1 = k'.1 → (s.proc k.1).state = .used → (s.kt k).tState ≠ .unused →
    (s.kt k').tState ≠ .unused → (s.kt k).tid = (s.kt k').tid → k = k'

/-- The thread has stored its state in `kthread_exit` and is on its way to `sched`. -/
def Pc.ending : Pc → Bool
  | .threadWake | .threadSched => true
  | _ => false

/-- The entries that the step of `me` at the position frees: none if its `copyout` fails. -/
def frees (s : State) (me : KtId) (fault : Bool) : Pc → List KtId
  | .waitScan store j _ =>
    if h : j < NPROC then
      if (s.proc ⟨j, h⟩).parent = some me.1 ∧ (s.proc ⟨j, h⟩).state = .zombie ∧
          ¬ (store = true ∧ fault = true) then
        (List.finRange NKT).map fun i => (⟨j, h⟩, i)
      else []
    else []
  | .joinLoop t store _ =>
    if (s.kt (me.1, t)).tState = .zombie ∧ ¬ (store = true ∧ fault = true) then [(me.1, t)] else []
  | _ => []

/-- `wait` and `kthread_join` free no entry whose thread is on a CPU, other than one that is
on its way out of `kthread_exit`. -/
def FreesEnded (s : State) (x : Label) : Prop :=
  match x with
  | .go me _ fault => ∀ k ∈ frees s me fault (s.pc me), s.onCpu k = true → (s.pc k).ending = true
  | _ => True

instance (s : State) (x : Label) : Decidable (FreesEnded s x) := by
  unfold FreesEnded
  split <;> infer_instance

def Pc.sweeps : Pc → Bool
  | .exitThreads _ _ => true
  | _ => false

/-- A process that `fork` has allocated and not yet started. -/
structure Window (s : State) (np : ProcId) : Prop where
  used : (s.proc np).state = .used
  first : (s.kt (np, slot0)).tState = .used
  off : s.onCpu (np, slot0) = false
  others : ∀ i, i ≠ slot0 → (s.kt (np, i)).tState = .unused

structure Ids (s : State) : Prop extends UniqueIds s where
  next : 0 < s.nextpid ∧ s.nextpid ≤ s.allocs
  counter : ∀ p, (s.proc p).pCounter ≤ s.allocs ∧
    ((s.proc p).state ≠ .unused → 0 < (s.proc p).pCounter)
  below : ∀ p, (s.proc p).state ≠ .unused → (s.proc p).pid < s.nextpid
  free : ∀ k, (s.proc k.1).state = .unused → (s.kt k).tState = .unused
  running : ∀ k, s.onCpu k = true → (s.pc k).ending = false → (s.kt k).tState ≠ .unused
  zombie : ∀ k, (s.pc k).sweeps = true → (s.proc k.1).state = .zombie
  window : ∀ k np, (s.pc k).forks = some np → Window s np
  windows : ∀ k k' np, (s.pc k).forks = some np → (s.pc k').forks = some np → k = k'

variable {s s' : State} {me k : KtId} {np : ProcId}

/-- The thread belongs to a process that has been started. -/
structure Live (s : State) (me : KtId) : Prop where
  alive : (s.proc me.1).state ≠ .unused
  started : ∀ np, Window s np → me.1 ≠ np

lemma Ids.live (ids : Ids s) (on : s.onCpu me = true) (here : (s.pc me).ending = false) :
    Live s me := by
  have runs := ids.running me on here
  refine ⟨fun unused => runs (ids.free me unused), ?_⟩
  rintro np window rfl
  by_cases first : me.2 = slot0
  · have eq : me = (me.1, slot0) := Prod.ext rfl first
    rw [eq] at on
    exact nomatch window.off.symm.trans on
  exact runs (window.others me.2 first)

/-- What a step of the thread `me` can do to the thread in the entry `k`: nothing, change the
state of a started thread, end or free a thread of its own process, or start the thread of a
process it has made. -/
inductive KtStep (s s' : State) (me k : KtId) : Prop where
  | same (tid : (s'.kt k).tid = (s.kt k).tid) (h : (s'.kt k).tState = (s.kt k).tState)
  | moved (tid : (s'.kt k).tid = (s.kt k).tid)
      (old : (s.kt k).tState ≠ .unused ∧ (s.kt k).tState ≠ .used)
      (new : (s'.kt k).tState ≠ .unused)
  | own (live : Live s me) (eq : k.1 = me.1) (tid : (s'.kt k).tid = (s.kt k).tid)
      (old : (s.kt k).tState ≠ .unused) (new : (s'.kt k).tState ≠ .unused)
  | ended (live : Live s me) (eq : k.1 = me.1) (zombie : (s'.proc me.1).state = .zombie)
      (new : (s'.kt k).tState ≠ .unused)
  | freed (live : Live s me) (eq : k.1 = me.1)
      (idle : s.onCpu k = true → (s.pc k).ending = true) (new : (s'.kt k).tState = .unused)
  | made (np : ProcId) (eq : k = (np, slot0)) (mine : (s.pc me).forks = some np)
      (done : (s'.pc me).forks = none) (tid : (s'.kt k).tid = (s.kt k).tid)
      (new : (s'.kt k).tState ≠ .unused)

lemma KtStep.old (h : KtStep s s' me k) (ids : Ids s) (used : (s'.proc k.1).state = .used) (new :
    (s'.kt k).tState ≠ .unused) : (s.kt k).tState ≠ .unused ∧ (s'.kt k).tid = (s.kt k).tid := by
  cases h with
  | same tid h => exact ⟨h ▸ new, tid⟩
  | moved tid old _ => exact ⟨old.1, tid⟩
  | own _ _ tid old _ => exact ⟨old, tid⟩
  | ended _ eq zombie _ =>
    rw [eq] at used
    exact nomatch used.symm.trans zombie
  | freed _ _ _ free => exact absurd free new
  | made np eq mine _ tid _ =>
    refine ⟨?_, tid⟩
    rw [eq, (ids.window me np mine).first]
    exact nofun

lemma KtStep.unused (h : KtStep s s' me k) (ids : Ids s) (unused : (s.proc k.1).state = .unused) :
    (s'.kt k).tState = .unused := by
  have free := ids.free k unused
  cases h with
  | same _ h => exact h.trans free
  | moved _ old _ => exact absurd free old.1
  | own live eq | ended live eq | freed live eq =>
    rw [eq] at unused
    exact absurd unused live.alive
  | made np eq mine =>
    have used := (ids.window me np mine).used
    rw [eq] at unused
    exact nomatch unused.symm.trans used

lemma KtStep.running (h : KtStep s s' me k) (on : s.onCpu k = true) (here : (s.pc k).ending =
    false) (runs : (s.kt k).tState ≠ .unused) : (s'.kt k).tState ≠ .unused := by
  cases h with
  | same _ h => rwa [h]
  | moved _ _ new | own _ _ _ _ new | ended _ _ _ new | made _ _ _ _ _ new => exact new
  | freed _ _ idle _ => exact nomatch here.symm.trans (idle on)

lemma Window.congr (window : Window s np) (used : (s'.proc np).state = .used)
    (kt : ∀ i, (s'.kt (np, i)).tState = (s.kt (np, i)).tState)
    (off : s'.onCpu (np, slot0) = false) : Window s' np :=
  ⟨used, (kt slot0).trans window.first, off, fun i other => (kt i).trans (window.others i other)⟩

lemma KtStep.window {i : Fin NKT} (h : KtStep s s' me (np, i)) (window : Window s np)
    (other : (s.pc me).forks = some np → (s'.pc me).forks ≠ none) :
    (s'.kt (np, i)).tState = (s.kt (np, i)).tState := by
  cases h with
  | same _ h => exact h
  | moved _ old _ =>
    by_cases first : i = slot0
    · rw [first] at old
      exact absurd window.first old.2
    exact absurd (window.others i first) old.1
  | own live eq | ended live eq | freed live eq => exact absurd eq.symm (live.started np window)
  | made q eq mine done =>
    cases eq
    exact absurd done (other mine)

lemma Ids.of_step (ids : Ids s) (nextpid : s'.nextpid = s.nextpid) (allocs : s'.allocs = s.allocs)
    (proc : ∀ p, (s'.proc p).pid = (s.proc p).pid ∧ (s'.proc p).pCounter = (s.proc p).pCounter)
    (state : ∀ p, (s'.proc p).state = (s.proc p).state ∨
    (p = me.1 ∧ Live s me ∧ (s'.proc p).state = .zombie)) (kt : ∀ k, KtStep s s' me k)
    (pc : ∀ k, k ≠ me → s'.pc k = s.pc k) (onCpu : ∀ k, k ≠ me → s'.onCpu k = s.onCpu k)
    (on : s'.onCpu me = true → s.onCpu me = true ∨ (s.kt me).tState = .runnable)
    (runs : s'.onCpu me = true → (s'.pc me).ending = false → (s'.kt me).tState ≠ .unused)
    (sweeps : (s'.pc me).sweeps = true → (s'.proc me.1).state = .zombie)
    (forks : ∀ np, (s'.pc me).forks = some np → (s.pc me).forks = some np) : Ids s' := by
  have alive : ∀ p, (s'.proc p).state ≠ .unused → (s.proc p).state ≠ .unused := by
    intro p used
    rcases state p with same | ⟨rfl, live, -⟩
    · rwa [same] at used
    exact live.alive
  have used : ∀ p, (s'.proc p).state = .used → (s.proc p).state = .used := by
    intro p used
    rcases state p with same | ⟨-, -, zombie⟩
    · exact same.symm.trans used
    exact nomatch used.symm.trans zombie
  have oldForks : ∀ k np, (s'.pc k).forks = some np → (s.pc k).forks = some np := by
    intro k np h
    by_cases mine : k = me
    · subst mine
      exact forks np h
    rwa [pc k mine] at h
  have kept : ∀ k np, (s'.pc k).forks = some np → Window s' np := by
    intro k np h
    have old := oldForks k np h
    have window := ids.window k np old
    refine window.congr ?_ (fun i => (kt (np, i)).window window fun mine => ?_) ?_
    · rcases state np with same | ⟨eq, live, -⟩
      · exact same.trans window.used
      exact absurd eq.symm (live.started np window)
    · cases ids.windows k me np old mine
      rw [h]
      exact nofun
    by_cases mine : (np, slot0) = me
    · by_contra run
      rw [Bool.not_eq_false, mine] at run
      rcases on run with old | ready
      · rw [← mine] at old
        exact nomatch window.off.symm.trans old
      rw [← mine] at ready
      exact nomatch window.first.symm.trans ready
    exact (onCpu _ mine).trans window.off
  have old := fun k => (kt k).old ids
  have unused := fun k => (kt k).unused ids
  have still : ∀ k, s'.onCpu k = true → (s'.pc k).ending = false →
      (s'.kt k).tState ≠ .unused := by
    intro k runsK here
    by_cases mine : k = me
    · subst mine
      exact runs runsK here
    rw [onCpu k mine] at runsK
    rw [pc k mine] at here
    exact (kt k).running runsK here (ids.running k runsK here)
  have swept : ∀ k, (s'.pc k).sweeps = true → (s'.proc k.1).state = .zombie := by
    intro k h
    by_cases mine : k = me
    · subst mine
      exact sweeps h
    rw [pc k mine] at h
    rcases state k.1 with same | ⟨-, -, ended⟩
    · exact same.trans (ids.zombie k h)
    exact ended
  obtain ⟨⟨pid, pids, tid, tids⟩, next, counter, below, free, -, -, -, windows⟩ := ids
  refine ⟨⟨?_, ?_, ?_, ?_⟩, ?_, ?_, ?_, ?_, still, swept, kept, ?_⟩ <;> grind -ring -linarith

def ids (e : ProcEntry) : ProcState × Int × Int := (e.state, e.pid, e.pCounter)

variable {p : ProcId} {mem : Memory} {fault : Bool}

lemma ids_update {e : ProcEntry} (h : ids e = ids (s.proc p)) (q : ProcId) :
    ids (update s.proc p e q) = ids (s.proc q) := by
  rw [update_apply]
  split_ifs with eq
  · rw [h, eq]
  rfl

lemma KtStep.of_eq (kt : s'.kt k = s.kt k) : KtStep s s' me k :=
  .same (congrArg Kthread.tid kt) (congrArg Kthread.tState kt)

lemma Ids.move (h : Ids s) (pc : Pc) (nextpid : s'.nextpid = s.nextpid)
    (allocs : s'.allocs = s.allocs) (proc : ∀ p, ids (s'.proc p) = ids (s.proc p))
    (kt : ∀ k, KtStep s s' me k) (pcs : s'.pc = update s.pc me pc)
    (onCpu : s'.onCpu = s.onCpu ∨ s'.onCpu = update s.onCpu me false)
    (runs : s'.onCpu me = false ∨ pc.ending = true ∨ (s'.kt me).tState ≠ .unused)
    (sweeps : pc.sweeps = false ∨ (s.proc me.1).state = .zombie)
    (forks : pc.forks = none ∨ pc.forks = (s.pc me).forks) : Ids s' := by
  have here : s'.pc me = pc := by rw [pcs, update_self]
  have state : ∀ p, (s'.proc p).state = (s.proc p).state := fun p => congrArg Prod.fst (proc p)
  have rest : ∀ p, (s'.proc p).pid = (s.proc p).pid ∧ (s'.proc p).pCounter = (s.proc p).pCounter :=
    fun p => Prod.ext_iff.mp (Prod.ext_iff.mp (proc p)).2
  refine h.of_step nextpid allocs rest (fun p => .inl (state p)) kt (fun k other => ?_)
    (fun k other => ?_) (fun on => .inl ?_) ?_ ?_ ?_
  · rw [pcs, update_of_ne other]
  · rcases onCpu with same | left
    · rw [same]
    rw [left, update_of_ne other]
  · rcases onCpu with same | left
    · rwa [same] at on
    rw [left, update_self] at on
    exact nomatch on
  · intro on active
    rw [here] at active
    rcases runs with off | ending | taken
    · exact nomatch off.symm.trans on
    · exact nomatch active.symm.trans ending
    exact taken
  · grind
  intro np child
  rw [here] at child
  rcases forks with none | same
  · exact nomatch none.symm.trans child
  exact same.symm.trans child

variable {pc : Pc}

lemma Ids.goto (h : Ids s) (on : s.onCpu me = true) (here : (s.pc me).ending = false)
    (sweeps : pc.sweeps = false) (forks : pc.forks = none) : Ids (s.goto me pc) :=
  h.move pc rfl rfl (fun _ => rfl) (fun _ => .of_eq rfl) rfl (.inl rfl)
    (.inr (.inr (h.running me on here))) (.inl sweeps) (.inl forks)

lemma Ids.ret (h : Ids s) (on : s.onCpu me = true) (here : (s.pc me).ending = false) (r : Int) :
    Ids (s.ret me r) :=
  h.move .user rfl rfl (fun _ => rfl) (fun _ => .of_eq rfl) rfl (.inl rfl)
    (.inr (.inr (h.running me on here))) (.inl rfl) (.inl rfl)

lemma Ids.panic (h : Ids s) : Ids s.panic :=
  ⟨⟨h.pid, h.pids, h.tid, h.tids⟩, h.next, h.counter, h.below, h.free, h.running, h.zombie, fun k np
    forks => ⟨(h.window k np forks).used, (h.window k np forks).first, (h.window k np forks).off,
    (h.window k np forks).others⟩, h.windows⟩

lemma succInt_eq {n : Int} (pos : 0 ≤ n) (small : n < 2 ^ 31 - 1) : succInt n = n + 1 := by
  rw [succInt, Int.bmod_eq_of_le] <;> omega

lemma Pc.not_ending {f : Part} (part : pc.part = some f) (other : f ≠ .thread) :
    pc.ending = false := by
  cases pc with
  | threadWake | threadSched => exact absurd (Option.some.inj part).symm other
  | _ => rfl

lemma Pc.quiet_of_ending (h : pc.ending = true) :
    pc.sweeps = false ∧ pc.forks = none := by
  cases pc with
  | threadWake | threadSched => exact ⟨rfl, rfl⟩
  | _ => exact nomatch h

variable {p : ProcId}

lemma Ids.freeproc (h : Ids s) (alone : ∀ k, (s.pc k).forks ≠ some p)
    (ended : ∀ k, k.1 = p → s.onCpu k = true → (s.pc k).ending = true) : Ids (s.freeproc p) := by
  have alive : ∀ q, ((s.freeproc p).proc q).state ≠ .unused → q ≠ p := by
    rintro q used rfl
    rw [freeproc_proc, update_self] at used
    exact used rfl
  have used : ∀ q, ((s.freeproc p).proc q).state = .used → q ≠ p :=
    fun q used => alive q (used ▸ nofun)
  have proc : ∀ q, q ≠ p → (s.freeproc p).proc q = s.proc q := fun q away => update_of_ne away ..
  have kt : ∀ k : KtId, k.1 ≠ p → (s.freeproc p).kt k = s.kt k := fun k away => if_neg away
  have quiet : ∀ k : KtId, k.1 = p →
      ((s.freeproc p).pc k).sweeps = false ∧ ((s.freeproc p).pc k).forks = none := by
    intro k own
    rw [freeproc_pc, if_pos own]
    split_ifs with on
    · exact Pc.quiet_of_ending (ended k own on)
    exact ⟨rfl, rfl⟩
  have pc : ∀ k : KtId, k.1 ≠ p → (s.freeproc p).pc k = s.pc k := fun k away => if_neg away
  have oldForks : ∀ k np, ((s.freeproc p).pc k).forks = some np → (s.pc k).forks = some np := by
    intro k np forks
    have away : k.1 ≠ p := fun own => nomatch (quiet k own).2.symm.trans forks
    rwa [pc k away] at forks
  have made : ∀ k np, ((s.freeproc p).pc k).forks = some np → Window (s.freeproc p) np := by
    intro k np forks
    have window := h.window k np (oldForks k np forks)
    have away : np ≠ p := by
      rintro rfl
      exact alone k (oldForks k np forks)
    exact window.congr (by rw [proc np away]; exact window.used) (fun i => by rw [kt (np, i) away])
      window.off
  obtain ⟨⟨pid, pids, tid, tids⟩, next, counter, below, free, running, zombie, window, windows⟩ := h
  refine ⟨⟨?_, ?_, ?_, ?_⟩, next, ?_, ?_, ?_, ?_, ?_, made, ?_⟩ <;>
    grind -ring -linarith [freeproc_proc, freeproc_allocs, freeproc_nextpid, freeproc_kt,
      Kthread.freethread, freeproc_pc, freeproc_onCpu]

lemma Ids.allocpid (h : Ids s) (unused : (s.proc p).state = .unused)
    (few : s.allocs < 2 ^ 31 - 1) : Ids (s.allocpid p) := by
  have bound := h.next
  have succ : succInt s.nextpid = s.nextpid + 1 := succInt_eq (by omega) (by omega)
  have made : (s.allocpid p).proc p =
      { s.proc p with pCounter := 1, pid := s.nextpid, state := .used } := update_self ..
  have proc : ∀ q, q ≠ p → (s.allocpid p).proc q = s.proc q := fun q away => update_of_ne away ..
  have started : ∀ k : KtId, (s.kt k).tState ≠ .unused → k.1 ≠ p := by
    rintro k new rfl
    exact new (h.free k unused)
  have kept : ∀ k np, (s.pc k).forks = some np → Window (s.allocpid p) np := by
    intro k np forks
    have window := h.window k np forks
    have away : np ≠ p := by
      rintro rfl
      exact nomatch unused.symm.trans window.used
    exact window.congr (by rw [proc np away]; exact window.used) (fun _ => rfl) window.off
  obtain ⟨⟨pid, pids, tid, tids⟩, -, counter, below, free, running, zombie, window, windows⟩ := h
  have allocs := allocpid_allocs s p
  have nextpid := (allocpid_nextpid s p).trans succ
  have threads := allocpid_kt s p
  refine ⟨⟨?_, ?_, ?_, ?_⟩, ?_, ?_, ?_, ?_, running, ?_, kept, windows⟩ <;>
    grind -ring -linarith [allocpid_pc]

lemma Ids.take (h : Ids s) (alive : (s.proc k.1).state ≠ .unused)
    (free : (s.kt k).tState = .unused) (apart : ∀ np, Window s np → k.1 ≠ np)
    (few : s.allocs < 2 ^ 31 - 1) : Ids (s.take k) := by
  have counter := h.counter k.1
  have started := counter.2 alive
  have succ : succInt (s.proc k.1).pCounter = (s.proc k.1).pCounter + 1 :=
    succInt_eq (by omega) (by omega)
  have same : ∀ q, ((s.take k).proc q).state = (s.proc q).state ∧
      ((s.take k).proc q).pid = (s.proc q).pid ∧ ((s.take k).proc q).pCounter =
        if q = k.1 then (s.proc q).pCounter + 1 else (s.proc q).pCounter := by
    intro q
    rw [State.take_proc, update_apply]
    split_ifs with eq
    · rw [eq, succ]
      exact ⟨rfl, rfl, rfl⟩
    exact ⟨rfl, rfl, rfl⟩
  have kt : ∀ k', k' ≠ k → (s.take k).kt k' = s.kt k' := fun k' away => update_of_ne away ..
  have taken : ∀ k', ((s.take k).kt k').tState ≠ .unused → (s.proc k'.1).state = .used →
      (k' = k ∧ ((s.take k).kt k').tid = (s.proc k'.1).pCounter) ∨
      ((s.kt k').tState ≠ .unused ∧ ((s.take k).kt k').tid = (s.kt k').tid ∧
        ((s.take k).kt k').tid < (s.proc k'.1).pCounter) := by
    intro k' new used
    by_cases eq : k' = k
    · subst eq
      refine .inl ⟨rfl, ?_⟩
      rw [take_kt, update_self]
      rfl
    rw [kt k' eq] at new ⊢
    exact .inr ⟨new, rfl, (h.tid k' used new).2⟩
  have pcs : ∀ k', (s.take k).pc k' = .user ∨ (s.take k).pc k' = s.pc k' := by
    intro k'
    rw [State.take_pc, update_apply]
    split_ifs
    · exact .inl rfl
    exact .inr rfl
  have oldForks : ∀ k' np, ((s.take k).pc k').forks = some np → (s.pc k').forks = some np := by
    intro k' np forks
    rcases pcs k' with user | old
    · rw [user] at forks
      exact nomatch forks
    rwa [old] at forks
  have kept : ∀ k' np, ((s.take k).pc k').forks = some np → Window (s.take k) np := by
    intro k' np forks
    have window := h.window k' np (oldForks k' np forks)
    have away : ∀ i, (np, i) ≠ k := by
      rintro i rfl
      exact apart np window rfl
    refine window.congr ((same np).1.trans window.used) (fun i => by rw [kt _ (away i)]) ?_
    rw [take_onCpu, update_of_ne (away slot0)]
    exact window.off
  have unstarted : ∀ k' : KtId, ((s.take k).proc k'.1).state = .unused →
      ((s.take k).kt k').tState = .unused := by
    intro k' unused
    rw [(same _).1] at unused
    have other : k' ≠ k := by
      rintro rfl
      exact alive unused
    rw [kt k' other]
    exact h.free k' unused
  have runs : ∀ k', (s.take k).onCpu k' = true → ((s.take k).pc k').ending = false →
      ((s.take k).kt k').tState ≠ .unused := by
    intro k' on here
    have other : k' ≠ k := by
      rintro rfl
      rw [State.take_onCpu, update_self] at on
      exact nomatch on
    rw [State.take_onCpu, update_of_ne other] at on
    rw [State.take_pc, update_of_ne other] at here
    rw [kt k' other]
    exact h.running k' on here
  obtain ⟨⟨pid, pids, tid, tids⟩, next, counter', below, -, -, zombie, window, windows⟩ := h
  have allocs := take_allocs s k
  have nextpid := take_nextpid s k
  refine ⟨⟨?_, ?_, ?_, ?_⟩, ?_, ?_, ?_, unstarted, runs, ?_, kept, ?_⟩ <;>
    grind -ring -linarith [Pc.sweeps]

lemma Ids.opens (h : Ids s) (on : s.onCpu me = true) (here : (s.pc me).ending = false)
    (window : Window s np) (alone : ∀ k, (s.pc k).forks ≠ some np) (sweeps : pc.sweeps = false)
    (forks : pc.forks = some np) : Ids (s.goto me pc) := by
  have cases : ∀ k, k = me ∧ (s.goto me pc).pc k = pc ∨ k ≠ me ∧ (s.goto me pc).pc k = s.pc k := by
    intro k
    rw [goto_pc, update_apply]
    split_ifs with mine
    · exact .inl ⟨mine, rfl⟩
    exact .inr ⟨mine, rfl⟩
  have kept : ∀ k q, ((s.goto me pc).pc k).forks = some q → Window (s.goto me pc) q := by
    intro k q hq
    have old : Window s q := by grind [h.window k q]
    exact old.congr old.used (fun _ => rfl) old.off
  refine ⟨⟨h.pid, h.pids, h.tid, h.tids⟩, h.next, h.counter, h.below, h.free,
    fun k onK hereK => ?_, fun k hk => ?_, kept, by grind [h.windows]⟩
  · rcases cases k with ⟨rfl, -⟩ | ⟨-, same⟩
    · exact h.running k on here
    exact h.running k onK (same ▸ hereK)
  rcases cases k with ⟨-, same⟩ | ⟨-, same⟩
  · rw [same, sweeps] at hk
    exact nomatch hk
  exact h.zombie k (same ▸ hk)

lemma Ids.forkAlloc (h : Ids s) (on : s.onCpu me = true)
    (here : s.pc me = .forkScan p) (unused : (s.proc p).state = .unused) (mem : Memory)
    (few : (forkAlloc s me p mem).allocs < 2 ^ 31 - 1) : Ids (forkAlloc s me p mem) := by
  have runs : (s.pc me).ending = false := here ▸ rfl
  have other : me.1 ≠ p := by
    rintro rfl
    exact (h.live on runs).alive unused
  have mine : me ≠ (p, slot0) := fun eq => other (congrArg Prod.fst eq)
  have alone : ∀ k, (s.pc k).forks ≠ some p :=
    fun k forks => nomatch unused.symm.trans (h.window k p forks).used
  have gone : ∀ k, k.1 = p → s.onCpu k = true → (s.pc k).ending = true := by
    intro k own onK
    by_contra active
    rw [Bool.not_eq_true] at active
    exact h.running k onK active (h.free k (own ▸ unused))
  unfold Lifecycle.forkAlloc at few ⊢
  dsimp only at few ⊢
  rw [freeKt_allocpid (h.free (p, slot0) unused)] at few ⊢
  dsimp only at few ⊢
  by_cases noTrapframe : mem = .noTrapframe
  · rw [if_pos noTrapframe] at few ⊢
    replace few : s.allocs + 1 < 2 ^ 31 - 1 := few
    refine ((h.allocpid unused (by omega)).freeproc alone gone).ret on ?_ (-1)
    rw [freeproc_pc, if_neg other]
    exact runs
  rw [if_neg noTrapframe] at few ⊢
  have bound : s.allocs + 1 + 1 < 2 ^ 31 - 1 := by split_ifs at few <;> exact few
  have made : ((s.allocpid p).proc p).state = .used := by rw [allocpid_proc, update_self]
  have taken : Ids ((s.allocpid p).take (p, slot0)) := by
    refine (h.allocpid unused (by omega)).take ?_ (h.free (p, slot0) unused) ?_ (by
      rw [allocpid_allocs]
      omega)
    · rw [made]
      exact nofun
    rintro np window rfl
    exact nomatch (h.free (p, slot0) unused).symm.trans window.first
  have pcMe : ((s.allocpid p).take (p, slot0)).pc me = s.pc me := update_of_ne mine ..
  have onMe : ((s.allocpid p).take (p, slot0)).onCpu me = true := (update_of_ne mine ..).trans on
  have alone' : ∀ k, (((s.allocpid p).take (p, slot0)).pc k).forks ≠ some p := by
    intro k
    rw [State.take_pc, update_apply]
    split_ifs
    · exact nofun
    exact alone k
  split_ifs with noPagetable stop
  · refine (taken.freeproc alone' fun k own onK => ?_).ret onMe ?_ (-1)
    · rw [State.take_onCpu, update_apply] at onK
      rw [State.take_pc, update_apply]
      split_ifs at onK ⊢ with first
      exact gone k own onK
    rw [State.freeproc_pc, if_neg other, pcMe]
    exact runs
  · exact taken.panic
  refine taken.opens onMe (by rwa [pcMe]) ⟨?_, ?_, ?_, fun i second => ?_⟩ alone' rfl rfl
  · rw [State.take_proc, update_self]
    exact made
  · rw [State.take_kt, update_self]
    rfl
  · rw [take_onCpu, update_self]
  rw [take_kt, update_of_ne fun eq => second (congrArg Prod.snd eq)]
  exact h.free (p, i) unused

lemma KtStep.wakeup {chan : Chan} (kt : s'.kt = (s.wakeup me chan).kt) : KtStep s s' me k := by
  have eq : s'.kt k = if k = me then s.kt k else (s.kt k).wakeup chan := by
    rw [kt]
    rfl
  unfold Kthread.wakeup at eq
  split_ifs at eq with mine wakes
  · exact .of_eq eq
  · refine .moved (by rw [eq]) ⟨?_, ?_⟩ ?_
    · rw [wakes.1]
      exact nofun
    · rw [wakes.1]
      exact nofun
    rw [eq]
    exact nofun
  exact .of_eq eq

lemma KtStep.store {j : KtId} {t : Kthread} (kt : s'.kt = update s.kt j t)
    (h : s'.kt j = t → KtStep s s' me j) (k : KtId) : KtStep s s' me k := by
  by_cases eq : k = j
  · subst eq
    exact h (by rw [kt, update_self])
  exact .of_eq (by rw [kt, update_of_ne eq])

section
variable (h : Ids s) (on : s.onCpu me = true)
include h on

lemma Ids.storeMe {t : Kthread} (here : (s.pc me).ending = false) (kt : s'.kt = update s.kt me t)
    (tid : t.tid = (s.kt me).tid) (new : t.tState ≠ .unused) (k : KtId) : KtStep s s' me k := by
  refine KtStep.store kt (fun eq => ?_) k
  exact .own (h.live on here) rfl (by rw [eq, tid]) (h.running me on here) (by rwa [eq])

lemma Ids.lockWait (here : (s.pc me).ending = false) (next : lockWait s me pc = some s')
    (sweeps : pc.sweeps = false) (forks : pc.forks = none ∨ pc.forks = (s.pc me).forks) :
    Ids s' := by
  obtain ⟨-, rfl⟩ := guarded.mp next
  exact h.move pc rfl rfl (fun _ => rfl) (fun _ => .of_eq rfl) rfl (.inl rfl)
    (.inr (.inr (h.running me on here))) (.inl sweeps) forks

lemma Ids.forkStep (runs : (s.pc me).ending = false)
    (next : forkStep s me mem (s.pc me) = some s') (few : s'.allocs < 2 ^ 31 - 1) : Ids s' := by
  generalize here : s.pc me = pos at next
  cases pos with
  | forkScan j =>
    rw [Lifecycle.forkStep] at next
    split_ifs at next with inTable unused <;> cases next
    · exact h.forkAlloc on here unused mem few
    · exact h.goto on runs rfl rfl
    exact h.ret on runs (-1)
  | forkLock np pid =>
    exact h.lockWait on runs next rfl (.inr (here ▸ rfl))
  | forkLink np pid =>
    cases next
    exact h.move (.forkRun np pid) rfl rfl (ids_update rfl) (fun _ => .of_eq rfl) rfl (.inl rfl)
      (.inr (.inr (h.running me on runs))) (.inl rfl) (.inr (here ▸ rfl))
  | forkRun np pid =>
    cases next
    have mine : (s.pc me).forks = some np := here ▸ rfl
    have window := h.window me np mine
    have other : me ≠ (np, slot0) := fun eq => h.live on runs |>.started np window
      (congrArg Prod.fst eq)
    refine h.move .user rfl rfl (fun _ => rfl) (KtStep.store rfl fun eq => ?_) rfl (.inl rfl)
      (.inr (.inr ?_)) (.inl rfl) (.inl rfl)
    · refine .made np rfl mine ?_ (by rw [eq]) ?_
      · rw [ret_pc, update_self]
        rfl
      rw [eq]
      exact ThreadState.noConfusion
    rw [ret_kt, setKt_kt, update_of_ne other]
    exact h.running me on runs
  | _ => cases next

lemma Ids.exitStep (runs : (s.pc me).ending = false)
    (next : exitStep s me (s.pc me) = some s') : Ids s' := by
  generalize here : s.pc me = pos at next
  cases pos with
  | exitScan i status =>
    rw [Lifecycle.exitStep] at next
    split_ifs at next with inTable mine live <;> cases next
    · exact h.goto on runs rfl rfl
    · refine h.move (.joinScan 0 (s.kt me).tid none false .exit) rfl rfl (fun _ => rfl)
        (KtStep.store rfl fun eq => ?_) rfl (.inl rfl) (.inr (.inr ?_)) (.inl rfl) (.inl rfl)
      · exact .same (by rw [eq]) (by rw [eq])
      have other : me ≠ (me.1, ⟨i, inTable⟩) := by
        intro eq
        exact mine (congrArg (fun k : KtId => (k.2 : Nat)) eq).symm
      rw [goto_kt, setKt_kt, update_of_ne other]
      exact h.running me on runs
    · exact h.goto on runs rfl rfl
    exact h.goto on runs rfl rfl
  | exitLock status =>
    exact h.lockWait on runs next rfl (.inl rfl)
  | reparent j status =>
    rw [Lifecycle.exitStep] at next
    split_ifs at next with inTable child <;> cases next
    · refine h.move (.reparent (j + 1) status) rfl rfl (ids_update rfl) (fun _ => .wakeup rfl) rfl
        (.inl rfl) (.inr (.inr ?_)) (.inl rfl) (.inl rfl)
      rw [goto_kt, wakeup_kt, if_pos rfl]
      exact h.running me on runs
    · exact h.goto on runs rfl rfl
    exact h.goto on runs rfl rfl
  | exitWake status =>
    rw [Lifecycle.exitStep] at next
    cases next
    cases (s.proc me.1).parent with
    | none => exact h.goto on runs rfl rfl
    | some q =>
      refine h.move (.setZombie status) rfl rfl (fun _ => rfl) (fun _ => .wakeup rfl) rfl
        (.inl rfl) (.inr (.inr ?_)) (.inl rfl) (.inl rfl)
      rw [goto_kt, wakeup_kt, if_pos rfl]
      exact h.running me on runs
  | setZombie status =>
    cases next
    refine h.of_step rfl rfl (fun p => ?_) (fun p => ?_) (fun _ => .of_eq rfl)
      (fun k other => update_of_ne other ..) (fun _ _ => rfl) .inl
      (fun _ _ => h.running me on runs) (fun _ => ?_) ?_
    · rw [goto_proc, setProc_proc, update_apply]
      split_ifs with own
      · rw [own]
        exact ⟨rfl, rfl⟩
      exact ⟨rfl, rfl⟩
    · rw [goto_proc, setProc_proc, update_apply]
      split_ifs with own
      · exact .inr ⟨own, h.live on runs, rfl⟩
      exact .inl rfl
    · rw [goto_proc, setProc_proc, update_self]
    rw [goto_pc, update_self]
    intro np child
    cases child
  | exitThreads i status =>
    have zombie := h.zombie me (here ▸ rfl)
    rw [Lifecycle.exitStep] at next
    split_ifs at next with inTable <;> cases next
    · refine h.move (.exitThreads (i + 1) status) rfl rfl (fun _ => rfl)
        (KtStep.store rfl fun eq => ?_) rfl (.inl rfl) (.inr (.inr ?_)) (.inr zombie) (.inl rfl)
      · refine .ended (h.live on runs) rfl zombie ?_
        rw [eq]
        exact ThreadState.noConfusion
      rw [goto_kt, setKt_kt, update_apply]
      split_ifs
      · exact ThreadState.noConfusion
      exact h.running me on runs
    exact h.goto on runs rfl rfl
  | exitSched =>
    cases next
    exact h.move .zombieExit rfl rfl (fun _ => rfl) (fun _ => .of_eq rfl) rfl (.inr rfl)
      (.inl (update_self ..)) (.inl rfl) (.inl rfl)
  | _ => cases next

lemma Ids.waitStep (runs : (s.pc me).ending = false)
    (ended : ∀ k ∈ frees s me fault (s.pc me), s.onCpu k = true → (s.pc k).ending = true)
    (next : waitStep s me fault (s.pc me) = some s') : Ids s' := by
  generalize here : s.pc me = pos at next
  cases pos with
  | waitLock store =>
    exact h.lockWait on runs next rfl (.inl rfl)
  | waitScan store j havekids =>
    rw [here] at ended
    rw [Lifecycle.waitStep] at next
    by_cases inTable : j < NPROC
    · rw [dif_pos inTable] at next
      cases next
      by_cases child : (s.proc ⟨j, inTable⟩).parent = some me.1
      · rw [if_pos child]
        by_cases zombie : (s.proc ⟨j, inTable⟩).state = .zombie
        · rw [if_pos zombie]
          by_cases stop : store = true ∧ fault = true
          · rw [if_pos stop]
            exact h.move .user rfl rfl (fun _ => rfl) (fun _ => .of_eq rfl) rfl (.inl rfl)
              (.inr (.inr (h.running me on runs))) (.inl rfl) (.inl rfl)
          rw [if_neg stop]
          have gone : ∀ k, k.1 = ⟨j, inTable⟩ → s.onCpu k = true → (s.pc k).ending = true := by
            refine fun k own => ended k ?_
            rw [frees, dif_pos inTable, if_pos ⟨child, zombie, stop⟩]
            exact List.mem_map.mpr ⟨k.2, List.mem_finRange _, Prod.ext own.symm rfl⟩
          have other : me.1 ≠ ⟨j, inTable⟩ := by
            intro own
            cases runs.symm.trans (gone me own on)
          have freed := h.freeproc (p := ⟨j, inTable⟩)
            (fun k forks => ProcState.noConfusion (zombie.symm.trans (h.window k _ forks).used)) gone
          exact freed.move .user rfl rfl (fun _ => rfl) (fun _ => .of_eq rfl) rfl (.inl rfl)
            (.inr (.inr (freed.running me on (by rwa [freeproc_pc, if_neg other])))) (.inl rfl)
            (.inl rfl)
        rw [if_neg zombie]
        exact h.goto on runs rfl rfl
      rw [if_neg child]
      exact h.goto on runs rfl rfl
    rw [dif_neg inTable] at next
    cases next
    exact h.goto on runs rfl rfl
  | waitTest store havekids =>
    rw [Lifecycle.waitStep] at next
    split_ifs at next with stop <;> cases next
    · exact h.move .user rfl rfl (fun _ => rfl) (fun _ => .of_eq rfl) rfl (.inl rfl)
        (.inr (.inr (h.running me on runs))) (.inl rfl) (.inl rfl)
    exact h.move (.waitWoken store) rfl rfl (fun _ => rfl) (h.storeMe on runs rfl rfl ThreadState.noConfusion) rfl
      (.inr rfl) (.inl (update_self ..)) (.inl rfl) (.inl rfl)
  | waitWoken store =>
    cases next
    refine h.move (.waitLock store) rfl rfl (fun _ => rfl)
      (h.storeMe on runs rfl rfl (h.running me on runs)) rfl (.inl rfl) (.inr (.inr ?_)) (.inl rfl) (.inl rfl)
    rw [goto_kt, setKt_kt, update_self]
    exact h.running me on runs
  | _ => cases next

lemma Ids.joinRet {back : Back} (here : (s.pc me).ending = false) (r : Int) :
    Ids (joinRet s me r back) := by
  cases back with
  | user => exact h.ret on here r
  | exit => exact h.panic

lemma Ids.exitCall {status : Int} (here : (s.pc me).ending = false) :
    Ids (exitCall s me status) := by
  unfold Lifecycle.exitCall
  split_ifs
  · exact h.panic
  exact h.goto on here rfl rfl

lemma Ids.freethread {t : Fin NKT} {stored : KtId → Option Int} (here : (s.pc me).ending = false)
    (ended : s.onCpu (me.1, t) = true → (s.pc (me.1, t)).ending = true) :
    Ids { (s.setKt (me.1, t) (s.kt (me.1, t)).freethread) with stored := stored } := by
  have other : me ≠ (me.1, t) := by
    intro eq
    rw [← eq] at ended
    exact nomatch here.symm.trans (ended on)
  have kt : ∀ k, KtStep s { (s.setKt (me.1, t) (s.kt (me.1, t)).freethread) with
      stored := stored } me k :=
    KtStep.store rfl fun eq => .freed (h.live on here) rfl ended (by rw [eq]; rfl)
  refine h.of_step rfl rfl (fun _ => ⟨rfl, rfl⟩) (fun _ => .inl rfl) kt (fun _ _ => rfl)
    (fun _ _ => rfl) .inl (fun _ _ => ?_) (h.zombie me) fun _ => id
  rw [setKt_kt, update_of_ne other]
  exact h.running me on here

lemma Ids.threadStep
    (ended : ∀ k ∈ frees s me fault (s.pc me), s.onCpu k = true → (s.pc k).ending = true)
    (next : threadStep s me fault (s.pc me) = some s') (few : s'.allocs < 2 ^ 31 - 1) : Ids s' := by
  generalize here : s.pc me = pos at next
  cases pos with
  | createScan i =>
    have runs : (s.pc me).ending = false := here ▸ rfl
    rw [Lifecycle.threadStep] at next
    split_ifs at next with inTable unused <;> cases next
    · replace few : s.allocs + 1 < 2 ^ 31 - 1 := few
      have live := h.live on runs
      have mine : me ≠ (me.1, ⟨i, inTable⟩) := by
        intro eq
        exact h.running me on runs (eq ▸ unused)
      have taken := h.take (k := (me.1, ⟨i, inTable⟩)) live.alive unused live.started (by omega)
      have onMe : (s.take (me.1, ⟨i, inTable⟩)).onCpu me = true := (update_of_ne mine ..).trans on
      have runsMe : ((s.take (me.1, ⟨i, inTable⟩)).pc me).ending = false := by
        rwa [State.take_pc, update_of_ne mine]
      refine taken.move .user rfl rfl (fun _ => rfl) (KtStep.store rfl fun eq => ?_) rfl (.inl rfl)
        (.inr (.inr ?_)) (.inl rfl) (.inl rfl)
      · refine .own (taken.live onMe runsMe) rfl (by rw [eq]) ?_ ?_
        · rw [take_kt, update_self]
          exact nofun
        rw [eq]
        exact nofun
      rw [ret_kt, setKt_kt, update_of_ne mine]
      exact taken.running me onMe runsMe
    · exact h.goto on runs rfl rfl
    exact h.ret on runs (-1)
  | lastScan i status =>
    have runs : (s.pc me).ending = false := here ▸ rfl
    rw [Lifecycle.threadStep] at next
    split_ifs at next with inTable live <;> cases next
    · exact h.goto on runs rfl rfl
    · exact h.goto on runs rfl rfl
    exact h.exitCall on runs
  | threadZombie status =>
    have runs : (s.pc me).ending = false := here ▸ rfl
    cases next
    exact h.move .threadWake rfl rfl (fun _ => rfl) (h.storeMe on runs rfl rfl nofun) rfl (.inl rfl)
      (.inr (.inl rfl)) (.inl rfl) (.inl rfl)
  | threadWake =>
    cases next
    exact h.move .threadSched rfl rfl (fun _ => rfl) (fun _ => .wakeup rfl) rfl (.inl rfl)
      (.inr (.inl rfl)) (.inl rfl) (.inl rfl)
  | threadSched =>
    rw [Lifecycle.threadStep] at next
    split_ifs at next with running <;> cases next
    · exact h.panic
    exact h.move .zombieExit rfl rfl (fun _ => rfl) (fun _ => .of_eq rfl) rfl (.inr rfl)
      (.inl (update_self ..)) (.inl rfl) (.inl rfl)
  | joinScan i ktid found store back =>
    have runs : (s.pc me).ending = false := here ▸ rfl
    unfold Lifecycle.threadStep at next
    dsimp only at next
    by_cases inTable : i < NKT
    · rw [dif_pos inTable] at next
      cases next
      exact h.goto on runs rfl rfl
    rw [dif_neg inTable] at next
    cases found with
    | none =>
      cases next
      exact h.joinRet on runs (-1)
    | some t =>
      cases next
      exact h.goto on runs rfl rfl
  | joinLoop t store back =>
    have runs : (s.pc me).ending = false := here ▸ rfl
    rw [here] at ended
    rw [Lifecycle.threadStep] at next
    cases next
    by_cases zombie : (s.kt (me.1, t)).tState = .zombie
    · rw [if_pos zombie]
      by_cases stop : store = true ∧ fault = true
      · rw [if_pos stop]
        exact h.joinRet on runs (-1)
      rw [if_neg stop]
      have mem : (me.1, t) ∈ frees s me fault (.joinLoop t store back) := by
        rw [frees, if_pos ⟨zombie, stop⟩]
        exact List.mem_singleton_self _
      exact (h.freethread on runs (ended (me.1, t) mem)).joinRet on runs 0
    rw [if_neg zombie]
    exact h.move (.joinWoken t store back) rfl rfl (fun _ => rfl) (h.storeMe on runs rfl rfl nofun)
      rfl (.inr rfl) (.inl (update_self ..)) (.inl rfl) (.inl rfl)
  | joinWoken t store back =>
    have runs : (s.pc me).ending = false := here ▸ rfl
    cases next
    refine h.move (.joinLoop t store back) rfl rfl (fun _ => rfl)
      (h.storeMe on runs rfl rfl (h.running me on runs)) rfl (.inl rfl) (.inr (.inr ?_)) (.inl rfl) (.inl rfl)
    rw [goto_kt, setKt_kt, update_self]
    exact h.running me on runs
  | zombieExit =>
    cases next
    exact h.panic
  | _ => cases next

lemma Ids.goStep (ended : ∀ k ∈ frees s me fault (s.pc me), s.onCpu k = true → (s.pc k).ending = true)
    (next : goStep s me mem fault = some s') (few : s'.allocs < 2 ^ 31 - 1) : Ids s' := by
  unfold Lifecycle.goStep at next
  cases part : (s.pc me).part with
  | none =>
    rw [part] at next
    cases next
  | some f =>
    rw [part] at next
    cases f with
    | fork => exact h.forkStep on (Pc.not_ending part nofun) next few
    | exit => exact h.exitStep on (Pc.not_ending part nofun) next
    | wait => exact h.waitStep on (Pc.not_ending part nofun) ended next
    | thread => exact h.threadStep on ended next few

lemma Ids.callStep {c : Call} (here : s.pc me = .user) : Ids (callStep s me c) := by
  have runs : (s.pc me).ending = false := here ▸ rfl
  cases c with
  | exit status => exact h.exitCall on runs
  | _ => exact h.goto on runs rfl rfl

end

lemma Ids.dispatch (h : Ids s) (runnable : (s.kt k).tState = .runnable) :
    Ids { (s.setKt k { s.kt k with tState := .running }) with
      onCpu := update s.onCpu k true } := by
  have kt : ∀ k', KtStep s { (s.setKt k { s.kt k with tState := .running }) with
      onCpu := update s.onCpu k true } k k' := by
    refine KtStep.store rfl fun eq => .moved (by rw [eq]) ⟨?_, ?_⟩ ?_
    · rw [runnable]
      exact nofun
    · rw [runnable]
      exact nofun
    rw [eq]
    exact nofun
  refine h.of_step rfl rfl (fun _ => ⟨rfl, rfl⟩) (fun _ => .inl rfl) kt (fun _ _ => rfl)
    (fun k' other => update_of_ne other ..) (fun _ => .inr runnable) (fun _ _ => ?_)
    (h.zombie k) fun _ => id
  rw [setKt_kt, update_self]
  exact nofun

lemma Ids.kill (h : Ids s) :
    Ids { (s.setProc p { s.proc p with killed := true }) with
      kt := fun k => if k.1 = p ∧ (s.kt k).tState = .sleeping then
        { s.kt k with tState := .runnable } else s.kt k } := by
  have same : ∀ q, ids (update s.proc p { s.proc p with killed := true } q) =
      ids (s.proc q) := ids_update rfl
  have kt : ∀ k, KtStep s { (s.setProc p { s.proc p with killed := true }) with
      kt := fun k => if k.1 = p ∧ (s.kt k).tState = .sleeping then
        { s.kt k with tState := .runnable } else s.kt k } (initproc, slot0) k := by
    intro k
    by_cases asleep : k.1 = p ∧ (s.kt k).tState = .sleeping
    · refine .moved ?_ ⟨?_, ?_⟩ ?_
      · dsimp only
        rw [if_pos asleep]
      · rw [asleep.2]
        exact nofun
      · rw [asleep.2]
        exact nofun
      dsimp only
      rw [if_pos asleep]
      exact nofun
    exact .of_eq (if_neg asleep)
  refine h.of_step rfl rfl (fun q => Prod.ext_iff.mp (Prod.ext_iff.mp (same q)).2)
    (fun q => .inl (congrArg Prod.fst (same q))) kt (fun _ _ => rfl) (fun _ _ => rfl) .inl
    (fun on here => (kt _).running on here (h.running _ on here)) (fun sweeps => ?_) fun _ => id
  exact (congrArg Prod.fst (same _)).trans (h.zombie _ sweeps)

lemma allocs_forkAlloc : s.allocs ≤ (forkAlloc s me p mem).allocs := by
  unfold forkAlloc
  dsimp only
  split_ifs <;> (try split) <;> (try split_ifs) <;>
    first | exact Nat.le_succ _ | exact Nat.le_add_right _ 2

lemma allocs_forkStep (next : forkStep s me mem (s.pc me) = some s') : s.allocs ≤ s'.allocs := by
  unfold forkStep lockWait at next
  split at next <;> (try split_ifs at next) <;> cases next <;>
    first | exact le_rfl | exact allocs_forkAlloc

lemma allocs_exitStep (next : exitStep s me (s.pc me) = some s') : s.allocs ≤ s'.allocs := by
  unfold exitStep lockWait at next
  split at next <;> (try split_ifs at next) <;> cases next <;> try exact le_rfl
  cases (s.proc me.1).parent <;> exact le_rfl

lemma allocs_waitStep (next : waitStep s me fault (s.pc me) = some s') :
    s.allocs ≤ s'.allocs := by
  unfold waitStep lockWait at next
  split at next <;> (try split_ifs at next) <;> cases next <;> exact le_rfl

lemma allocs_joinRet {r : Int} {back : Back} : (joinRet s me r back).allocs = s.allocs := by
  cases back <;> rfl

lemma allocs_exitCall {status : Int} : (exitCall s me status).allocs = s.allocs := by
  unfold exitCall
  split_ifs <;> rfl

lemma allocs_threadStep (next : threadStep s me fault (s.pc me) = some s') :
    s.allocs ≤ s'.allocs := by
  unfold threadStep at next
  split at next <;> (try split_ifs at next) <;> (try split at next) <;> cases next <;>
    first
    | exact le_rfl
    | exact Nat.le_succ _
    | exact allocs_exitCall.ge
    | exact allocs_joinRet.ge
    | (rw [allocs_joinRet]; exact le_rfl)

lemma allocs_le {x : Label} (next : step s x = some s') : s.allocs ≤ s'.allocs := by
  obtain ⟨-, next⟩ := ite_none_left_eq_some.mp next
  cases x with
  | go me mem fault =>
    obtain ⟨-, next⟩ := ite_none_right_eq_some.mp next
    unfold goStep at next
    cases part : (s.pc me).part with
    | none =>
      rw [part] at next
      cases next
    | some f =>
      rw [part] at next
      cases f with
      | fork => exact allocs_forkStep next
      | exit => exact allocs_exitStep next
      | wait => exact allocs_waitStep next
      | thread => exact allocs_threadStep next
  | call me c =>
    obtain ⟨-, rfl⟩ := guarded.mp next
    split_ifs
    · cases c with
      | exit status => exact allocs_exitCall.ge
      | _ => exact le_rfl
    exact le_rfl
  | dispatch k =>
    obtain ⟨-, rfl⟩ := guarded.mp next
    exact le_rfl
  | kill p =>
    cases next
    exact le_rfl

lemma Ids.step {x : Label} (h : Ids s) (guard : FreesEnded s x) (next : step s x = some s')
    (few : s'.allocs < 2 ^ 31 - 1) : Ids s' := by
  obtain ⟨-, next⟩ := ite_none_left_eq_some.mp next
  cases x with
  | go me mem fault =>
    obtain ⟨on, next⟩ := ite_none_right_eq_some.mp next
    exact h.goStep on guard next few
  | call me c =>
    obtain ⟨⟨on, here⟩, rfl⟩ := guarded.mp next
    split_ifs with mine
    · exact h.callStep on here
    exact h.panic
  | dispatch k =>
    obtain ⟨runnable, rfl⟩ := guarded.mp next
    exact h.dispatch runnable
  | kill p =>
    cases next
    exact h.kill

lemma ids_init : Ids init := by
  have kts : ∀ k, k ≠ (initproc, slot0) → (init.kt k).tState = .unused := by
    intro k other
    rw [show init.kt k = Kthread.kthreadinit k from if_neg other]
    rfl
  have procs : ∀ p, (init.proc p).state ≠ .unused → p = initproc := by
    intro p used
    by_contra other
    rw [show init.proc p = _ from if_neg other] at used
    exact used rfl
  have pcs : ∀ k, (init.pc k).forks = none ∧ (init.pc k).sweeps = false := by
    intro k
    rw [show init.pc k = if k = (initproc, slot0) then .user else .idle from rfl]
    split_ifs <;> exact ⟨rfl, rfl⟩
  refine ⟨⟨fun p used => ?_, fun p q hp hq _ => ?_, fun k used new => ?_,
    fun k k' _ _ new new' _ => ?_⟩, ⟨by decide, by decide⟩, fun p => ⟨?_, fun used => ?_⟩,
    fun p used => ?_, fun k unused => ?_, fun k on => ?_, fun k sweeps => ?_, fun k np forks => ?_,
    fun k k' np forks => ?_⟩
  · cases procs p used
    decide
  · exact (procs p hp).trans (procs q hq).symm
  · have first : k = (initproc, slot0) := by
      by_contra other
      exact new (kts k other)
    rw [first]
    decide
  · grind
  · revert p
    decide
  · cases procs p used
    decide
  · cases procs p used
    decide
  · refine kts k ?_
    rintro rfl
    exact nomatch unused
  · exact nomatch on
  · exact nomatch (pcs k).2.symm.trans sweeps
  · exact nomatch (pcs k).1.symm.trans forks
  exact nomatch (pcs k).1.symm.trans forks

/-- In every run with fewer than `2 ^ 31 - 1` allocations in which `wait` and `kthread_join` free
only entries of threads that have ended, process ids and thread ids are unique. -/
theorem ids_are_unique (as : List Label) (s : State) (run : Run step FreesEnded init as s)
    (few : s.allocs < 2 ^ 31 - 1) : UniqueIds s := by
  have kept : s.allocs < 2 ^ 31 - 1 → Ids s := by
    refine run.invariant (I := fun s => s.allocs < 2 ^ 31 - 1 → Ids s)
      (fun s x s' ih guard next few => ?_) fun _ => ids_init
    exact (ih ((allocs_le next).trans_lt few)).step guard next few
  exact (kept few).toUniqueIds

def slot2 : Fin NKT := ⟨2, by decide⟩

def twoThreads : List Label :=
  [.dispatch initThread, .call initThread .fork] ++ goes initThread 5 ++
  [.dispatch (child, slot0), .call (child, slot0) .kthreadCreate] ++ goes (child, slot0) 2 ++
  [.call (child, slot0) .kthreadCreate] ++ goes (child, slot0) 3 ++
  [.dispatch (child, slot1), .call (child, slot1) (.kthreadExit 0)] ++ goes (child, slot1) 4 ++
  [.call (child, slot0) (.kthreadJoin 2 false)] ++ goes (child, slot0) 12

/-- The freed entry is taken again. -/
theorem reused_entry_has_new_id : ∃ s, Run step FreesEnded init
    (twoThreads ++ [.call (child, slot0) .kthreadCreate] ++ goes (child, slot0) 2) s ∧
      (s.kt (child, slot1)).tid = 4 ∧ UniqueIds s := by
  refine Run.exists_with (P := fun s => (s.kt (child, slot1)).tid = 4 ∧ s.allocs < 2 ^ 31 - 1)
    (by decide +kernel) fun s run ⟨tid, few⟩ => ?_
  exact ⟨tid, ids_are_unique _ s run few⟩

/-- The first thread exits. When it is past the second entry, the third thread creates a thread
there and ends. The new thread calls `kthread_join`, the first thread becomes a zombie and its
parent frees the process. The new thread then sleeps in its freed entry, and `fork` takes the
process. -/
def createdBehindExit : List Label :=
  twoThreads ++ [.dispatch (child, slot2), .call (child, slot0) (.exit 7)] ++
  goes (child, slot0) 2 ++ [.call (child, slot2) .kthreadCreate] ++ goes (child, slot2) 2 ++
  [.dispatch (child, slot1), .call (child, slot2) (.kthreadExit 0)] ++ goes (child, slot2) 4 ++
  [.call (child, slot1) (.kthreadJoin 1 false)] ++ goes (child, slot1) 11 ++
  goes (child, slot0) 89 ++ [.call initThread (.wait true)] ++ goes initThread 3 ++
  goes (child, slot1) 1 ++ [.call initThread .fork] ++ goes initThread 2

theorem sleeper_in_new_process_has_no_id : ∃ s, Run step Free init createdBehindExit s ∧
    s.allocs < 2 ^ 31 - 1 ∧ s.panicked = false ∧ (s.proc child).state = .used ∧
      (s.kt (child, slot1)).tState = .sleeping ∧ (s.kt (child, slot1)).tid = 0 ∧ ¬ UniqueIds s := by
  refine Run.exists_with (P := fun s => s.allocs < 2 ^ 31 - 1 ∧ s.panicked = false ∧
      (s.proc child).state = .used ∧ (s.kt (child, slot1)).tState = .sleeping ∧
      (s.kt (child, slot1)).tid = 0)
    (by decide +kernel) fun s run ⟨few, running, used, asleep, tid⟩ => ?_
  refine ⟨few, running, used, asleep, tid, fun unique => ?_⟩
  have started : (s.kt (child, slot1)).tState ≠ .unused := by
    rw [asleep]
    exact nofun
  have := (unique.tid (child, slot1) used started).1
  omega

end Xv6.Lifecycle
