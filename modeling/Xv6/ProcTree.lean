import Xv6.Lifecycle

/-! The process tree under `fork`, `exit` and `wait` of processes with one thread each. A
process that becomes a zombie has given its children to `initproc` before, and only its own
`fork` could have added any, so every process has a parent that is in use. `wait` frees the
zombie whose id it returns, and ids are never used twice. -/
namespace Xv6.Lifecycle
open Interleaving Bool Lifecycle.State
open Function (update update_apply update_of_ne update_self)

def SingleThreaded (_ : State) (x : Label) : Prop :=
  match x with
  | .call _ .fork | .call _ (.exit _) | .call _ (.wait _) => True
  | .call _ _ => False
  | _ => True

instance (s : State) (x : Label) : Decidable (SingleThreaded s x) := by
  unfold SingleThreaded
  split <;> infer_instance

def Pc.forks : Pc → Option ProcId
  | .forkLock np _ | .forkLink np _ | .forkRun np _ => some np
  | _ => none

def Pc.gone : Pc → Bool
  | .idle | .zombieExit => true
  | _ => false

/-- A process that has been allocated and not yet run. -/
structure Fresh (s : State) (np : ProcId) : Prop where
  used : (s.proc np).state = .used
  off : s.onCpu (np, slot0) = false
  waits : (s.kt (np, slot0)).tState = .used
  start : s.pc (np, slot0) = .user

def At (s : State) (k : KtId) : Pc → Prop
  | .idle | .zombieExit => True
  | .user | .forkScan _ | .waitLock _ | .waitWoken _ => (s.proc k.1).state = .used
  | .forkLock np _ => (s.proc k.1).state = .used ∧ Fresh s np ∧ (s.proc np).parent = none
  | .forkLink np _ =>
    (s.proc k.1).state = .used ∧ Fresh s np ∧ (s.proc np).parent = none ∧ s.waitLock = some k
  | .forkRun np _ => (s.proc k.1).state = .used ∧ Fresh s np
  | .exitScan _ _ | .exitLock _ => (s.proc k.1).state = .used ∧ k.1 ≠ initproc
  | .reparent j _ => (s.proc k.1).state = .used ∧ k.1 ≠ initproc ∧ s.waitLock = some k ∧
      ∀ q : ProcId, q < j → (s.proc q).parent ≠ some k.1
  | .exitWake _ | .setZombie _ => (s.proc k.1).state = .used ∧ k.1 ≠ initproc ∧
      s.waitLock = some k ∧ ∀ q, (s.proc q).parent ≠ some k.1
  | .exitThreads i _ => (s.proc k.1).state = .zombie ∧ s.waitLock = some k ∧
      (0 < i → (s.kt k).tState = .zombie)
  | .exitSched => (s.proc k.1).state = .zombie ∧ s.waitLock = some k ∧
      (s.kt k).tState = .zombie
  | .waitScan _ _ _ | .waitTest _ _ => (s.proc k.1).state = .used ∧ s.waitLock = some k
  | _ => False

/-- The process has been allocated by a `fork` that has not made it a child yet. -/
def InForkWindow (s : State) (q : ProcId) : Prop :=
  (s.proc q).parent = none ∧ ∃ k pid, s.pc k = .forkLock q pid ∨ s.pc k = .forkLink q pid ∨
    (s.panicked = true ∧ s.pc k = .forkScan q)

structure Tree (s : State) : Prop where
  at' : ∀ k, At s k (s.pc k)
  off : ∀ k, (s.pc k).gone = true → s.onCpu k = false ∧
    ((s.kt k).tState = .unused ∨ (s.kt k).tState = .zombie)
  alone : ∀ p i, i ≠ slot0 → s.pc (p, i) = .idle
  windows : ∀ k k' np, (s.pc k).forks = some np → (s.pc k').forks = some np → k = k'
  free : ∀ q, (s.proc q).state = .unused →
    (s.proc q).parent = none ∧ (s.kt (q, slot0)).tState = .unused
  parent : ∀ q, (s.proc q).state ≠ .unused → q ≠ initproc →
    InForkWindow s q ∨ ∃ p, (s.proc q).parent = some p ∧ (s.proc p).state = .used
  root : (s.proc initproc).state = .used

variable {s s' : State} {me k : KtId} {pc : Pc}

lemma At.congr (h : At s k pc) (state : (s'.proc k.1).state = (s.proc k.1).state)
    (lock : s.waitLock = some k → s'.waitLock = some k) (zombie : (s.kt k).tState = .zombie →
    (s'.kt k).tState = .zombie) (fresh : ∀ np, pc.forks = some np → Fresh s np → Fresh s' np ∧
    ((s.proc np).parent = none → (s'.proc np).parent = none)) (swept : s.waitLock = some k → ∀ q,
    (s'.proc q).parent = some k.1 → (s.proc q).parent = some k.1) : At s' k pc := by
  cases pc with
  | idle | zombieExit => trivial
  | user | forkScan | waitLock | waitWoken =>
    rw [At] at h ⊢
    rw [state, h]
  | forkLock np pid =>
    obtain ⟨used, new, none⟩ := h
    exact ⟨state.trans used, (fresh np rfl new).1, (fresh np rfl new).2 none⟩
  | forkLink np pid =>
    obtain ⟨used, new, none, held⟩ := h
    exact ⟨state.trans used, (fresh np rfl new).1, (fresh np rfl new).2 none, lock held⟩
  | forkRun np pid =>
    obtain ⟨used, new⟩ := h
    exact ⟨state.trans used, (fresh np rfl new).1⟩
  | exitScan | exitLock => exact ⟨state.trans h.1, h.2⟩
  | reparent j status =>
    obtain ⟨used, other, held, before⟩ := h
    exact ⟨state.trans used, other, lock held, fun q below child =>
      before q below (swept held q child)⟩
  | exitWake | setZombie =>
    obtain ⟨used, other, held, before⟩ := h
    exact ⟨state.trans used, other, lock held, fun q child => before q (swept held q child)⟩
  | exitThreads i status =>
    obtain ⟨dead, held, mine⟩ := h
    exact ⟨state.trans dead, lock held, fun past => zombie (mine past)⟩
  | exitSched =>
    obtain ⟨dead, held, mine⟩ := h
    exact ⟨state.trans dead, lock held, zombie mine⟩
  | waitScan | waitTest => exact ⟨state.trans h.1, lock h.2⟩
  | _ => exact h

lemma At.used_or (h : At s k pc) (live : pc.gone = false) :
    (s.proc k.1).state = .used ∨ ((s.proc k.1).state = .zombie ∧ s.waitLock = some k) := by
  cases pc with
  | idle | zombieExit => exact nomatch live
  | user | forkScan | waitLock | waitWoken => exact .inl h
  | forkLock | forkLink | forkRun | exitScan | exitLock | reparent | exitWake | setZombie
  | waitScan | waitTest => exact .inl h.1
  | exitThreads | exitSched => exact .inr ⟨h.1, h.2.1⟩
  | _ => exact h.elim

lemma InForkWindow.congr {q : ProcId} (h : InForkWindow s q) (running : s.panicked = false)
    (parent : (s.proc q).parent = none → (s'.proc q).parent = none)
    (pc : ∀ k pid, s.pc k = .forkLock q pid ∨ s.pc k = .forkLink q pid → s'.pc k = .forkLock q pid ∨
    s'.pc k = .forkLink q pid) : InForkWindow s' q := by
  obtain ⟨none, k, pid, lock | link | ⟨panicked, -⟩⟩ := h
  · rcases pc k pid (.inl lock) with lock | link
    · exact ⟨parent none, k, pid, .inl lock⟩
    exact ⟨parent none, k, pid, .inr (.inl link)⟩
  · rcases pc k pid (.inr link) with lock | link
    · exact ⟨parent none, k, pid, .inl lock⟩
    exact ⟨parent none, k, pid, .inr (.inl link)⟩
  exact nomatch running.symm.trans panicked

lemma Tree.live (tree : Tree s) (on : s.onCpu me = true) : (s.pc me).gone = false := by
  by_contra gone
  rw [not_eq_false] at gone
  exact nomatch (tree.off me gone).1.symm.trans on

lemma Tree.slot_eq (tree : Tree s) (on : s.onCpu me = true) : me.2 = slot0 := by
  by_contra other
  have live := tree.live on
  rw [tree.alone me.1 me.2 other] at live
  exact nomatch live

lemma ne_of_off (off : s.onCpu k = false) (on : s.onCpu me = true) : k ≠ me := by
  rintro rfl
  rw [on] at off
  exact nomatch off

structure Acts (s : State) (me : KtId) : Prop where
  live : (s.pc me).gone = false
  started : ∀ np, Fresh s np → (np, slot0) ≠ me

lemma Tree.acts (tree : Tree s) (on : s.onCpu me = true) : Acts s me :=
  ⟨tree.live on, fun _ new => ne_of_off new.off on⟩

/-- A process gets a parent in a step under `wait_lock`. -/
structure Adopted (s s' : State) (me : KtId) (q : ProcId) : Prop where
  held : s.waitLock = some me
  taken : (s.proc q).state ≠ .unused
  mine : ∀ k, k ≠ me → (s.pc k).forks = some q → (s.proc q).parent ≠ none
  parent : ∃ p, (s'.proc q).parent = some p ∧ (s.proc p).state = .used

/-- What a step of the thread `me` can do to the state of another thread: wake it, start the
thread of the process it has made, or end a thread that does not exist. -/
inductive KtKept (s s' : State) (me k : KtId) : Prop where
  | same (h : (s'.kt k).tState = (s.kt k).tState)
  | asleep (h : (s.kt k).tState = .sleeping)
  | made (np : ProcId) (eq : k = (np, slot0)) (mine : (s.pc me).forks = some np)
      (h : (s.kt k).tState = .used)
  | swept (other : k.2 ≠ slot0) (h : (s'.kt k).tState = .zombie)

lemma KtKept.zombie (h : KtKept s s' me k) (eq : (s.kt k).tState = .zombie) :
    (s'.kt k).tState = .zombie := by
  cases h with
  | same h => exact h.trans eq
  | asleep h | made _ _ _ h => exact nomatch eq.symm.trans h
  | swept _ h => exact h

lemma KtKept.unused (h : KtKept s s' me k) (eq : (s.kt k).tState = .unused) :
    (s'.kt k).tState = .unused ∨ (k.2 ≠ slot0 ∧ (s'.kt k).tState = .zombie) := by
  cases h with
  | same h => exact .inl (h.trans eq)
  | asleep h | made _ _ _ h => exact nomatch eq.symm.trans h
  | swept other h => exact .inr ⟨other, h⟩

lemma Tree.of_step (tree : Tree s) (running : s.panicked = false) (acts : Acts s me)
    (state : ∀ q, (s'.proc q).state = (s.proc q).state) (parent : ∀ q, (s'.proc q).parent =
    (s.proc q).parent ∨ Adopted s s' me q) (kt : ∀ k, k ≠ me → KtKept s s' me k)
    (pc : ∀ k, k ≠ me → s'.pc k = s.pc k) (onCpu : ∀ k, k ≠ me → s'.onCpu k = s.onCpu k)
    (lock : ∀ k, k ≠ me → s.waitLock = some k → s'.waitLock = some k) (here : At s' me (s'.pc me))
    (gone : (s'.pc me).gone = true → s'.onCpu me = false ∧ (s'.kt me).tState = .zombie)
    (forks : ∀ np, (s'.pc me).forks = some np → (s.pc me).forks = some np)
    (window : ∀ q pid, s.pc me = .forkLock q pid ∨ s.pc me = .forkLink q pid → (s'.proc q).parent =
    none → s'.pc me = .forkLock q pid ∨ s'.pc me = .forkLink q pid) : Tree s' := by
  have first : me.2 = slot0 := by
    by_contra other
    have live := acts.live
    rw [tree.alone me.1 me.2 other] at live
    exact nomatch live
  have fresh : ∀ k, k ≠ me → ∀ np, (s.pc k).forks = some np → Fresh s np →
      Fresh s' np ∧ ((s.proc np).parent = none → (s'.proc np).parent = none) := by
    intro k notMe np h new
    have other := acts.started np new
    refine ⟨⟨(state np).trans new.used, (onCpu _ other).trans new.off, ?_,
      (pc _ other).trans new.start⟩, fun none => ?_⟩
    · cases kt _ other with
      | same h => exact h.trans new.waits
      | asleep h => exact nomatch h.symm.trans new.waits
      | made q eq mine _ =>
        cases eq
        exact absurd (tree.windows k me np h mine) notMe
      | swept second _ => exact absurd rfl second
    rcases parent np with same | adopted
    · exact same.trans none
    exact absurd none (adopted.mine k notMe h)
  have oldForks : ∀ k np, (s'.pc k).forks = some np → (s.pc k).forks = some np := by
    intro k np h
    by_cases mine : k = me
    · subst mine
      exact forks np h
    rwa [pc k mine] at h
  refine ⟨fun k => ?_, fun k away => ?_, fun p i other => ?_, fun k k' np h h' => ?_,
    fun q unused => ?_, fun q used other => ?_, (state _).trans tree.root⟩
  · by_cases mine : k = me
    · exact mine ▸ here
    rw [pc k mine]
    refine (tree.at' k).congr (state k.1) (lock k mine) (kt k mine).zombie (fresh k mine)
      fun held q child => ?_
    rcases parent q with same | adopted
    · exact same.symm.trans child
    exact absurd (Option.some.inj (held.symm.trans adopted.held)) mine
  · by_cases mine : k = me
    · subst mine
      exact ⟨(gone away).1, .inr (gone away).2⟩
    rw [pc k mine] at away
    obtain ⟨off, unused | zombie⟩ := tree.off k away
    · exact ⟨(onCpu k mine).trans off, ((kt k mine).unused unused).imp_right And.right⟩
    exact ⟨(onCpu k mine).trans off, .inr ((kt k mine).zombie zombie)⟩
  · have mine : (p, i) ≠ me := fun eq => other ((congrArg Prod.snd eq).trans first)
    exact (pc _ mine).trans (tree.alone p i other)
  · exact tree.windows k k' np (oldForks k np h) (oldForks k' np h')
  · rw [state q] at unused
    obtain ⟨none, free⟩ := tree.free q unused
    have other : (q, slot0) ≠ me := by
      rintro rfl
      rcases (tree.at' (q, slot0)).used_or acts.live with used | ⟨zombie, -⟩
      · exact nomatch unused.symm.trans used
      exact nomatch unused.symm.trans zombie
    refine ⟨?_, ((kt _ other).unused free).resolve_right fun second => second.1 rfl⟩
    rcases parent q with same | adopted
    · exact same.trans none
    exact absurd unused adopted.taken
  rw [state q] at used
  rcases parent q with same | adopted
  · rcases tree.parent q used other with ⟨none, open'⟩ | ⟨p, child, alive⟩
    · have none' := same.trans none
      refine .inl (InForkWindow.congr ⟨none, open'⟩ running (fun _ => none') fun k pid h => ?_)
      by_cases mine : k = me
      · subst mine
        exact window q pid h none'
      rwa [pc k mine]
    exact .inr ⟨p, same.trans child, (state p).trans alive⟩
  obtain ⟨p, child, alive⟩ := adopted.parent
  exact .inr ⟨p, child, (state p).trans alive⟩

lemma Tree.panic (tree : Tree s) (running : s.panicked = false) : Tree s.panic where
  at' k := (tree.at' k).congr rfl id id
    (fun _ _ new => ⟨⟨new.used, new.off, new.waits, new.start⟩, id⟩) fun _ _ => id
  off := tree.off
  alone := tree.alone
  windows := tree.windows
  free := tree.free
  parent q used other := by
    rcases tree.parent q used other with open' | child
    · exact .inl (open'.congr running id fun _ _ => id)
    exact .inr child
  root := tree.root

lemma Tree.move (tree : Tree s) (running : s.panicked = false) (on : s.onCpu me = true)
    (pc : Pc) (proc : s'.proc = s.proc) (kt : ∀ k, k ≠ me → KtKept s s' me k)
    (onCpu : ∀ k, k ≠ me → s'.onCpu k = s.onCpu k) (pcs : s'.pc = update s.pc me pc)
    (lock : ∀ k, k ≠ me → s.waitLock = some k → s'.waitLock = some k) (here : At s' me pc)
    (gone : pc.gone = true → s'.onCpu me = false ∧ (s'.kt me).tState = .zombie)
    (forks : ∀ np, pc.forks = some np → (s.pc me).forks = some np) (window : ∀ q pid,
    s.pc me = .forkLock q pid ∨ s.pc me = .forkLink q pid → pc = .forkLink q pid) : Tree s' := by
  have moved : s'.pc me = pc := by rw [pcs, update_self]
  refine tree.of_step running (tree.acts on) (fun q => by rw [proc]) (fun q => .inl (by rw [proc]))
    kt (fun k other => by rw [pcs, update_of_ne other]) onCpu lock ?_ ?_ ?_ ?_
  · rwa [moved]
  · rwa [moved]
  · rwa [moved]
  rw [moved]
  exact fun q pid h _ => .inr (window q pid h)

lemma not_window (out : (s.pc me).forks = none) (q : ProcId) (pid : Int)
    (h : s.pc me = .forkLock q pid ∨ s.pc me = .forkLink q pid) : pc = .forkLink q pid := by
  rcases h with h | h
  · rw [h] at out
    exact nomatch out
  rw [h] at out
  exact nomatch out

lemma lock_mine {l : Option KtId} (held : s.waitLock = some me) (k : KtId) (other : k ≠ me)
    (yours : s.waitLock = some k) : l = some k :=
  absurd (Option.some.inj (yours.symm.trans held)) other

section
variable (tree : Tree s) (running : s.panicked = false) (on : s.onCpu me = true)
include tree running on

lemma Tree.goto (out : (s.pc me).forks = none) (forks : pc.forks = none) (live : pc.gone = false)
    (here : At (s.goto me pc) me pc) : Tree (s.goto me pc) :=
  tree.move running on pc rfl (fun _ _ => .same rfl) (fun _ _ => rfl) rfl (fun _ _ => id) here
    (fun h => nomatch live.symm.trans h) (fun _ h => nomatch forks.symm.trans h) (not_window out)

lemma Tree.ret (out : (s.pc me).forks = none) (used : (s.proc me.1).state = .used) (r : Int) :
    Tree (s.ret me r) :=
  tree.move running on .user rfl (fun _ _ => .same rfl) (fun _ _ => rfl) rfl (fun _ _ => id) used
    nofun nofun (not_window out)

lemma Tree.unlock (out : (s.pc me).forks = none) (held : s.waitLock = some me)
    (used : (s.proc me.1).state = .used) (r : Int) : Tree ((s.setWaitLock none).ret me r) :=
  tree.move running on .user rfl (fun _ _ => .same rfl) (fun _ _ => rfl) rfl (lock_mine held) used
    nofun nofun (not_window out)

lemma Tree.lockWait (next : lockWait s me pc = some s') (forks : pc.forks = (s.pc me).forks)
    (window : ∀ q pid, s.pc me = .forkLock q pid ∨ s.pc me = .forkLink q pid → pc = .forkLink q pid)
    (live : pc.gone = false) (here : At ((s.setWaitLock (some me)).goto me pc) me pc) :
    Tree s' := by
  obtain ⟨free, rfl⟩ := guarded.mp next
  exact tree.move running on pc rfl (fun _ _ => .same rfl) (fun _ _ => rfl) rfl
    (fun k _ yours => nomatch free.symm.trans yours) here (fun h => nomatch live.symm.trans h)
    (fun np h => forks ▸ h) window

end

variable {j : ProcId} {fault : Bool}

/-- A process that is not in use has no thread that could still run, apart from one that ends
it under `wait_lock`. -/
lemma Tree.gone (tree : Tree s) (dead : (s.proc j).state ≠ .used)
    (lock : (s.proc j).state = .zombie → ∀ k, s.waitLock = some k → k.1 ≠ j) (k : KtId)
    (own : k.1 = j) : (s.pc k).gone = true := by
  by_contra live
  rw [not_eq_true] at live
  subst own
  rcases (tree.at' k).used_or live with used | ⟨zombie, held⟩
  · exact dead used
  exact lock zombie k held rfl

lemma Tree.freeproc (tree : Tree s) (running : s.panicked = false)
    (dead : (s.proc j).state ≠ .used) (lock : (s.proc j).state = .zombie → ∀ k,
    s.waitLock = some k → k.1 ≠ j) : Tree (s.freeproc j) := by
  have gone := tree.gone dead lock
  have live : ∀ np, (s.proc np).state = .used → np ≠ j := by
    rintro np alive rfl
    exact dead alive
  have proc : ∀ q, q ≠ j → (s.freeproc j).proc q = s.proc q := fun q away => update_of_ne away ..
  have kt : ∀ k : KtId, k.1 ≠ j → (s.freeproc j).kt k = s.kt k := fun k away => if_neg away
  have pc : ∀ k : KtId, k.1 ≠ j → (s.freeproc j).pc k = s.pc k := fun k away => if_neg away
  have idle : ∀ k : KtId, k.1 = j → (s.freeproc j).pc k = .idle := by
    intro k own
    rw [freeproc_pc, if_pos own, (tree.off k (gone k own)).1]
    rfl
  have fresh : ∀ np, Fresh s np → Fresh (s.freeproc j) np := by
    intro np new
    have away := live np new.used
    exact ⟨proc np away ▸ new.used, new.off, kt (np, slot0) away ▸ new.waits,
      pc (np, slot0) away ▸ new.start⟩
  have oldForks : ∀ k np, ((s.freeproc j).pc k).forks = some np → (s.pc k).forks = some np := by
    intro k np h
    by_cases own : k.1 = j
    · rw [idle k own] at h
      exact nomatch h
    rwa [pc k own] at h
  refine ⟨fun k => ?_, fun k away => ?_, fun p i second => ?_, fun k k' np h h' => ?_,
    fun q unused => ?_, fun q alive notInit => ?_, ?_⟩
  · by_cases own : k.1 = j
    · rw [idle k own]
      trivial
    rw [pc k own]
    refine (tree.at' k).congr (by rw [proc _ own]) id (fun zombie => by rwa [kt k own])
      (fun np _ new => ⟨fresh np new, fun none => by rwa [proc np (live np new.used)]⟩)
      fun _ q child => ?_
    by_cases eq : q = j
    · rw [eq, freeproc_proc, update_self] at child
      exact nomatch child
    rwa [proc q eq] at child
  · grind [tree.off k, freeproc_kt, freeproc_onCpu, Kthread.freethread]
  · by_cases own : p = j
    · exact idle (p, i) own
    exact (pc (p, i) own).trans (tree.alone p i second)
  · exact tree.windows k k' np (oldForks k np h) (oldForks k' np h')
  · grind [tree.free q, freeproc_proc, freeproc_kt, Kthread.freethread]
  · have eq : q ≠ j := by
      rintro rfl
      rw [freeproc_proc, update_self] at alive
      exact alive rfl
    rw [proc q eq] at alive
    rcases tree.parent q alive notInit with open' | ⟨p, child, usedP⟩
    · refine .inl (open'.congr running (fun none => by rwa [proc q eq]) fun k pid h => ?_)
      have away : k.1 ≠ j := by
        intro own
        have := gone k own
        rcases h with h | h <;> rw [h] at this <;> exact nomatch this
      rwa [pc k away]
    exact .inr ⟨p, by rwa [proc q eq], by rwa [proc p (live p usedP)]⟩
  rw [proc _ (live _ tree.root)]
  exact tree.root

/-- A free process is allocated in a step of the thread `me`, which then is in the window of
`fork`, or has panicked in it. -/
lemma Tree.of_alloc {np : ProcId} (tree : Tree s) (running : s.panicked = false)
    (on : s.onCpu me = true) (used : (s.proc me.1).state = .used) (free : (s.proc np).state =
    .unused) (made : (s'.proc np).state = .used) (none : (s'.proc np).parent = none)
    (proc : ∀ q, q ≠ np → s'.proc q = s.proc q) (kt : ∀ k, k ≠ (np, slot0) → s'.kt k = s.kt k)
    (new : (s'.kt (np, slot0)).tState = .used) (onCpu : s'.onCpu = update s.onCpu (np, slot0) false)
    (pc : ∀ k, k ≠ me → s'.pc k = update s.pc (np, slot0) .user k) (lock : s'.waitLock = s.waitLock)
    (old : (s.pc me).forks = Option.none) (here : (∃ pid, s'.pc me = .forkLock np pid) ∨
    (s'.panicked = true ∧ s'.pc me = .forkScan np)) : Tree s' := by
  have idle : s.onCpu (np, slot0) = false := by
    by_contra runs
    rw [not_eq_false] at runs
    rcases (tree.at' _).used_or (tree.live runs) with alive | ⟨zombie, -⟩
    · exact nomatch free.symm.trans alive
    exact nomatch free.symm.trans zombie
  have mine : (np, slot0) ≠ me := ne_of_off idle on
  have apart : ∀ q, (s.proc q).state = .used → q ≠ np := by
    rintro q alive rfl
    exact nomatch free.symm.trans alive
  have onCpu' : ∀ k, s'.onCpu k = s.onCpu k := by
    intro k
    rw [onCpu, update_apply]
    split_ifs with eq
    · rw [eq, idle]
    rfl
  have newborn : Fresh s' np := by
    refine ⟨made, (onCpu' _).trans idle, new, ?_⟩
    rw [pc _ mine, update_self]
  have fresh : ∀ q, Fresh s q → Fresh s' q := by
    intro q old
    have away := apart q old.used
    have ne : (q, slot0) ≠ (np, slot0) := fun eq => away (congrArg Prod.fst eq)
    refine ⟨proc q away ▸ old.used, (onCpu' _).trans old.off, kt _ ne ▸ old.waits, ?_⟩
    rw [pc _ (ne_of_off old.off on), update_of_ne ne]
    exact old.start
  have state : ∀ q, (s.proc q).state ≠ .unused → s'.proc q = s.proc q := by
    intro q alive
    exact proc q fun eq => alive (eq ▸ free)
  have liveMe : (s'.pc me).gone = false ∧ ∀ q, (s'.pc me).forks = some q → q = np := by
    rcases here with ⟨pid, at'⟩ | ⟨-, at'⟩
    · rw [at']
      exact ⟨rfl, fun q h => (Option.some.inj h).symm⟩
    rw [at']
    exact ⟨rfl, nofun⟩
  have noForks : ∀ k, (s.pc k).forks ≠ some np := by
    intro k h
    have at' := tree.at' k
    cases pos : s.pc k with
    | forkLock q pid | forkLink q pid =>
      rw [pos] at h at'
      cases h
      exact apart np at'.2.1.used rfl
    | forkRun q pid =>
      rw [pos] at h at'
      cases h
      exact apart np at'.2.used rfl
    | _ =>
      rw [pos] at h
      exact nomatch h
  have others : ∀ k, k ≠ me → k ≠ (np, slot0) → s'.pc k = s.pc k := by
    intro k notMe notNew
    rw [pc k notMe, update_of_ne notNew]
  have oldForks : ∀ k q, (s'.pc k).forks = some q → k ≠ me → (s.pc k).forks = some q := by
    grind [newborn.start, Pc.forks]
  refine ⟨fun k => ?_, fun k away => ?_, fun p i second => ?_, fun k k' q h h' => ?_,
    fun q unused => ?_, fun q alive notInit => ?_, ?_⟩
  · by_cases notMe : k = me
    · subst notMe
      have alive : (s'.proc k.1).state = .used := by
        rw [proc _ (apart _ used)]
        exact used
      rcases here with ⟨pid, at'⟩ | ⟨-, at'⟩
      · rw [at']
        exact ⟨alive, newborn, none⟩
      rw [at']
      exact alive
    by_cases notNew : k = (np, slot0)
    · subst notNew
      rw [newborn.start]
      exact made
    rw [others k notMe notNew]
    by_cases own : k.1 = np
    · have second : k.2 ≠ slot0 := fun eq => notNew (Prod.ext own eq)
      have idle : s.pc k = .idle := tree.alone k.1 k.2 second
      rw [idle]
      trivial
    refine (tree.at' k).congr (by rw [proc _ own]) (fun h => lock.trans h) (fun zombie => ?_)
      (fun q _ old => ⟨fresh q old, fun none => ?_⟩) fun _ q child => ?_
    · rw [kt k notNew]
      exact zombie
    · rw [proc q (apart q old.used)]
      exact none
    by_cases eq : q = np
    · subst eq
      exact nomatch none.symm.trans child
    rwa [proc q eq] at child
  · by_cases notMe : k = me
    · subst notMe
      exact nomatch away.symm.trans liveMe.1
    by_cases notNew : k = (np, slot0)
    · rw [notNew, newborn.start] at away
      exact nomatch away
    rw [others k notMe notNew] at away
    rw [onCpu', kt k notNew]
    exact tree.off k away
  · have notMe : (p, i) ≠ me := fun eq => second ((congrArg Prod.snd eq).trans (tree.slot_eq on))
    have notNew : (p, i) ≠ (np, slot0) := fun eq => second (congrArg Prod.snd eq)
    exact (others _ notMe notNew).trans (tree.alone p i second)
  · have := tree.windows k k' q
    by_cases first : k = me <;> by_cases second : k' = me <;> grind
  · have away : q ≠ np := by
      rintro rfl
      exact nomatch made.symm.trans unused
    rw [proc q away] at unused ⊢
    rw [kt _ fun eq => away (congrArg Prod.fst eq)]
    exact tree.free q unused
  · by_cases eq : q = np
    · subst eq
      rcases here with ⟨pid, at'⟩ | ⟨stopped, at'⟩
      · exact .inl ⟨none, me, pid, .inl at'⟩
      exact .inl ⟨none, me, 0, .inr (.inr ⟨stopped, at'⟩)⟩
    rw [proc q eq] at alive
    rcases tree.parent q alive notInit with open' | ⟨p, child, usedP⟩
    · refine .inl (open'.congr running (fun none => by rw [proc q eq]; exact none) fun k pid h => ?_)
      have notMe : k ≠ me := by
        rintro rfl
        rcases h with h | h <;> rw [h] at old <;> exact nomatch old
      have notNew : k ≠ (np, slot0) := by
        rintro rfl
        have at' := tree.at' (np, slot0)
        rcases h with h | h <;> rw [h] at at' <;> exact nomatch free.symm.trans at'.1
      rwa [others k notMe notNew]
    exact .inr ⟨p, proc q eq ▸ child, proc p (apart p usedP) ▸ usedP⟩
  exact proc _ (apart _ tree.root) ▸ tree.root

variable {p : ProcId}

/-- `allocproc` fails in the free process `p`, after stores to this process only. -/
lemma Tree.undo (s₁ : State) (freed : Tree (s.freeproc p)) (running : s.panicked = false)
    (on : s.onCpu me = true) (out : (s.pc me).forks = none) (used : (s.proc me.1).state = .used)
    (other : me.1 ≠ p) (proc : ∀ q, q ≠ p → s₁.proc q = s.proc q)
    (kt : ∀ k, k.1 ≠ p → s₁.kt k = s.kt k) (pc : ∀ k, k.1 ≠ p → s₁.pc k = s.pc k)
    (onCpu : ∀ k, s₁.onCpu k = s.onCpu k) (idle : ∀ k, k.1 = p → s.onCpu k = false)
    (lock : s₁.waitLock = s.waitLock) : Tree ((s₁.freeproc p).ret me (-1)) := by
  have procs : (s₁.freeproc p).proc = (s.freeproc p).proc := by
    funext q
    rw [freeproc_proc, freeproc_proc, update_apply, update_apply]
    split_ifs with eq
    · rfl
    exact proc q eq
  have pcs : (s₁.freeproc p).pc = (s.freeproc p).pc := by
    funext k
    rw [freeproc_pc, freeproc_pc, onCpu]
    by_cases own : k.1 = p
    · rw [if_pos own, if_pos own, idle k own]
      rfl
    rw [if_neg own, if_neg own, pc k own]
  refine freed.move running on .user procs (fun k _ => .same ?_) (fun k _ => onCpu k)
    (by rw [← pcs]; rfl) (fun _ _ => lock.trans) ?_ nofun nofun (not_window ?_)
  · rw [ret_kt, freeproc_kt, freeproc_kt]
    split_ifs with own
    · rfl
    rw [kt k own]
  · show ((s₁.freeproc p).proc me.1).state = .used
    rw [procs, freeproc_proc, update_of_ne other, used]
  rw [freeproc_pc, if_neg other, out]

section
variable (tree : Tree s) (running : s.panicked = false) (on : s.onCpu me = true)
include tree running on

lemma Tree.take {np : ProcId} (used : (s.proc me.1).state = .used) (old : (s.pc me).forks = none)
    (free : (s.proc np).state = .unused) (proc : s'.proc = ((s.allocpid np).take (np, slot0)).proc)
    (kt : s'.kt = ((s.allocpid np).take (np, slot0)).kt)
    (onCpu : s'.onCpu = update s.onCpu (np, slot0) false)
    (pc : ∀ k, k ≠ me → s'.pc k = update s.pc (np, slot0) .user k) (lock : s'.waitLock = s.waitLock)
    (here : (∃ pid, s'.pc me = .forkLock np pid) ∨ (s'.panicked = true ∧ s'.pc me = .forkScan np)) :
    Tree s' := by
  have made : s'.proc np =
      { s.proc np with pCounter := succInt 1, pid := s.nextpid, state := .used } := by
    rw [proc]
    simp only [take_proc, allocpid_proc, update_self]
  refine tree.of_alloc running on used free ?_ ?_ (fun q away => ?_) (fun k away => ?_) ?_ onCpu pc
    lock old here
  · rw [made]
  · rw [made]
    exact (tree.free np free).1
  · rw [proc, take_proc, update_of_ne away, allocpid_proc, update_of_ne away]
  · rw [kt, take_kt, update_of_ne away]
    rfl
  rw [kt, take_kt, update_self]
  rfl

lemma Tree.forkAlloc (here : s.pc me = .forkScan p) (unused : (s.proc p).state = .unused)
    (mem : Memory) : Tree (forkAlloc s me p mem) := by
  have used : (s.proc me.1).state = .used := by
    have at' := tree.at' me
    rwa [here] at at'
  have out : (s.pc me).forks = none := here ▸ rfl
  have dead : (s.proc p).state ≠ .used := by
    rw [unused]
    exact nofun
  have noZombie : (s.proc p).state = .zombie → ∀ k, s.waitLock = some k → k.1 ≠ p :=
    fun zombie => nomatch unused.symm.trans zombie
  have other : me.1 ≠ p := by
    rintro rfl
    exact dead used
  have idle : ∀ k, k.1 = p → s.onCpu k = false :=
    fun k own => (tree.off k (tree.gone dead noZombie k own)).1
  have freed := tree.freeproc running dead noZombie
  unfold Lifecycle.forkAlloc
  dsimp only
  rw [freeKt_allocpid (tree.free p unused).2]
  dsimp only
  split_ifs with noTrapframe noPagetable stop
  · exact freed.undo (s.allocpid p) running on out used other (fun q away => update_of_ne away ..)
      (fun _ _ => rfl) (fun _ _ => rfl) (fun _ => rfl) idle rfl
  · refine freed.undo ((s.allocpid p).take (p, slot0)) running on out used other (fun q away => ?_)
      (fun k away => ?_) (fun k away => ?_) (fun k => ?_) idle rfl
    · rw [take_proc, update_of_ne away, allocpid_proc, update_of_ne away]
    · exact update_of_ne (fun eq => away (congrArg Prod.fst eq)) ..
    · exact update_of_ne (fun eq => away (congrArg Prod.fst eq)) ..
    rw [take_onCpu, update_apply]
    split_ifs with eq
    · rw [eq, idle _ rfl]
    rfl
  · refine tree.take running on used out unused rfl rfl rfl (fun _ _ => rfl) rfl (.inr ⟨rfl, ?_⟩)
    exact (update_of_ne (fun eq => other (congrArg Prod.fst eq)) ..).trans here
  refine tree.take running on used out unused rfl rfl rfl (fun k other => ?_) rfl
    (.inl ⟨_, update_self ..⟩)
  exact update_of_ne other ..

lemma Tree.forkStep {mem : Memory} (next : forkStep s me mem (s.pc me) = some s') : Tree s' := by
  have at' := tree.at' me
  generalize here : s.pc me = pos at next at'
  cases pos with
  | forkScan j =>
    have out : (s.pc me).forks = none := here ▸ rfl
    rw [Lifecycle.forkStep] at next
    split_ifs at next with inTable unused <;> cases next
    · exact tree.forkAlloc running on here unused mem
    · exact tree.goto running on out rfl rfl at'
    exact tree.ret running on out at' (-1)
  | forkLock np pid =>
    obtain ⟨used, new, none⟩ := at'
    refine tree.lockWait running on next (here ▸ rfl) (fun q n h => ?_) rfl
      ⟨used, ⟨new.used, new.off, new.waits, ?_⟩, none, rfl⟩
    · rw [here] at h
      rcases h with h | h <;> cases h
      rfl
    exact (update_of_ne (ne_of_off new.off on) ..).trans new.start
  | forkLink np pid =>
    obtain ⟨used, new, none, held⟩ := at'
    cases next
    have mine : (s.pc me).forks = some np := here ▸ rfl
    have state : ∀ q, (update s.proc np { s.proc np with parent := some me.1 } q).state =
        (s.proc q).state := by
      intro q
      rw [update_apply]
      split_ifs with eq
      · rw [eq]
      rfl
    have adopted : (update s.proc np { s.proc np with parent := some me.1 } np).parent =
        some me.1 := by rw [update_self]
    refine tree.of_step running (tree.acts on) state (fun q => ?_) (fun _ _ => .same rfl)
      (fun k other => update_of_ne other ..) (fun _ _ => rfl) (lock_mine held) ?_ ?_ ?_ ?_
    · by_cases eq : q = np
      · subst eq
        refine .inr ⟨held, ?_, fun k other h => ?_, me.1, adopted, used⟩
        · rw [new.used]
          exact nofun
        exact absurd (tree.windows k me q h mine) other
      exact .inl (congrArg ProcEntry.parent (update_of_ne eq ..))
    · rw [goto_pc, update_self]
      refine ⟨(state _).trans used, (state _).trans new.used, new.off, new.waits, ?_⟩
      exact (update_of_ne (ne_of_off new.off on) ..).trans new.start
    · rw [goto_pc, update_self]
      exact nofun
    · rw [goto_pc, update_self, mine]
      exact fun _ => id
    intro q n h none'
    rw [here] at h
    rcases h with h | h <;> cases h
    exact nomatch adopted.symm.trans none'
  | forkRun np pid =>
    obtain ⟨used, new⟩ := at'
    cases next
    have mine : (s.pc me).forks = some np := here ▸ rfl
    refine tree.move running on .user rfl (fun k other => ?_) (fun _ _ => rfl) rfl (fun _ _ => id)
      used nofun nofun fun q n h => ?_
    · by_cases eq : k = (np, slot0)
      · exact .made np eq mine (eq ▸ new.waits)
      exact .same (congrArg Kthread.tState (update_of_ne eq ..))
    rw [here] at h
    rcases h with h | h <;> cases h
  | _ => exact nomatch next

lemma Tree.setZombie {status : Int} (here : s.pc me = .setZombie status) :
    Tree ((s.setProc me.1 { s.proc me.1 with xstate := status, state := .zombie }).goto me
      (.exitThreads 0 status)) := by
  have at' := tree.at' me
  rw [here] at at'
  obtain ⟨used, notInit, held, childless⟩ := at'
  have parent : ∀ q, (update s.proc me.1
      { s.proc me.1 with xstate := status, state := .zombie } q).parent = (s.proc q).parent := by
    intro q
    rw [update_apply]
    split_ifs with eq
    · rw [eq]
    rfl
  have state : ∀ q, q ≠ me.1 → (update s.proc me.1
    { s.proc me.1 with xstate := status, state := .zombie } q).state = (s.proc q).state := fun q
    away => congrArg ProcEntry.state (update_of_ne away ..)
  have zombie : (update s.proc me.1
      { s.proc me.1 with xstate := status, state := .zombie } me.1).state = .zombie := by
    rw [update_self]
  have away : ∀ np, Fresh s np → np ≠ me.1 := by
    rintro np new rfl
    have first := tree.slot_eq on
    exact ne_of_off new.off on (Prod.ext rfl first.symm)
  have pc : ∀ k, k ≠ me → (update s.pc me (.exitThreads 0 status)) k = s.pc k :=
    fun k other => update_of_ne other ..
  refine ⟨fun k => ?_, fun k gone => ?_, fun p i second => ?_, fun k k' np h h' => ?_,
    fun q unused => ?_, fun q alive other => ?_, (state _ (Ne.symm notInit)).trans tree.root⟩
  · by_cases mine : k = me
    · subst mine
      rw [goto_pc, update_self]
      exact ⟨zombie, held, nofun⟩
    rw [goto_pc, update_of_ne mine, setProc_pc]
    by_cases own : k.1 = me.1
    · have second : k.2 ≠ slot0 := fun eq => mine (Prod.ext own (eq.trans (tree.slot_eq on).symm))
      have idle : s.pc k = .idle := tree.alone k.1 k.2 second
      rw [idle]
      trivial
    refine (tree.at' k).congr (state _ own) id id (fun np _ new => ?_)
      fun _ q child => (parent q).symm.trans child
    refine ⟨⟨(state np (away np new)).trans new.used, new.off, new.waits, ?_⟩,
      fun none => (parent np).trans none⟩
    exact (pc _ (ne_of_off new.off on)).trans new.start
  · rw [goto_pc] at gone
    have mine : k ≠ me := by
      rintro rfl
      rw [update_self] at gone
      exact nomatch gone
    exact tree.off k (pc k mine ▸ gone)
  · have mine : (p, i) ≠ me := fun eq => second ((congrArg Prod.snd eq).trans (tree.slot_eq on))
    exact (pc _ mine).trans (tree.alone p i second)
  · have old : ∀ k, ((update s.pc me (.exitThreads 0 status)) k).forks = some np →
        (s.pc k).forks = some np := by
      intro k h
      by_cases mine : k = me
      · subst mine
        rw [update_self] at h
        exact nomatch h
      rwa [pc k mine] at h
    exact tree.windows k k' np (old k h) (old k' h')
  · have other : q ≠ me.1 := by
      rintro rfl
      exact nomatch zombie.symm.trans unused
    obtain ⟨none, free⟩ := tree.free q ((state q other).symm.trans unused)
    exact ⟨(parent q).trans none, free⟩
  have old : (s.proc q).state ≠ .unused := by
    by_cases own : q = me.1
    · rw [own, used]
      exact nofun
    exact fun h => alive ((state q own).trans h)
  rcases tree.parent q old other with open' | ⟨p, child, usedP⟩
  · refine .inl (open'.congr running (fun none => (parent q).trans none) fun k pid h => ?_)
    have mine : k ≠ me := by
      rintro rfl
      rw [here] at h
      rcases h with h | h <;> exact nomatch h
    rwa [goto_pc, update_of_ne mine]
  have notMe : p ≠ me.1 := by
    rintro rfl
    exact childless q child
  exact .inr ⟨p, (parent q).trans child, (state p notMe).trans usedP⟩

end

lemma KtKept.wakeup {chan : Chan} (kt : s'.kt = (s.wakeup me chan).kt) : KtKept s s' me k := by
  by_cases asleep : (s.kt k).tState = .sleeping
  · exact .asleep asleep
  refine .same ?_
  rw [kt, wakeup_kt]
  split_ifs
  · rfl
  rw [Kthread.wakeup, if_neg fun h => asleep h.1]

section
variable (tree : Tree s) (running : s.panicked = false) (on : s.onCpu me = true)
include tree running on

lemma Tree.reparent {status : Int} (here : s.pc me = .reparent j status)
    (child : (s.proc j).parent = some me.1) :
    Tree (((s.setProc j { s.proc j with parent := some initproc }).wakeup me
      (.proc initproc)).goto me (.reparent (j + 1) status)) := by
  have at' := tree.at' me
  rw [here] at at'
  obtain ⟨used, notInit, held, before⟩ := at'
  have out : (s.pc me).forks = none := here ▸ rfl
  have state : ∀ q, (update s.proc j { s.proc j with parent := some initproc } q).state =
      (s.proc q).state := by
    intro q
    rw [update_apply]
    split_ifs with eq
    · rw [eq]
    rfl
  have adopted : (update s.proc j { s.proc j with parent := some initproc } j).parent =
      some initproc := by rw [update_self]
  have parent : ∀ q, q ≠ j → (update s.proc j { s.proc j with parent := some initproc } q).parent =
    (s.proc q).parent := fun q away => congrArg ProcEntry.parent (update_of_ne away ..)
  refine tree.of_step running (tree.acts on) state (fun q => ?_) (fun _ _ => .wakeup rfl)
    (fun k other => update_of_ne other ..) (fun _ _ => rfl) (fun _ _ => id) ?_ ?_ ?_
    fun q n h _ => .inr (not_window out q n h)
  · by_cases eq : q = j
    · subst eq
      refine .inr ⟨held, fun unused => ?_, fun k _ _ => ?_, initproc, adopted, tree.root⟩
      · exact nomatch (tree.free q unused).1.symm.trans child
      rw [child]
      exact nofun
    exact .inl (parent q eq)
  · rw [goto_pc, update_self]
    refine ⟨(state _).trans used, notInit, held, fun q below mine => ?_⟩
    by_cases eq : q = j
    · subst eq
      exact notInit (Option.some.inj (adopted.symm.trans mine)).symm
    have : (q : Nat) ≠ j := fun same => eq (Fin.ext same)
    exact before q (by omega) ((parent q eq).symm.trans mine)
  · rw [goto_pc, update_self]
    exact nofun
  rw [goto_pc, update_self]
  exact nofun

lemma Tree.exitStep (next : exitStep s me (s.pc me) = some s') : Tree s' := by
  have at' := tree.at' me
  have first := tree.slot_eq on
  generalize here : s.pc me = pos at next at'
  have out : (s.pc me).forks = none := by
    rw [here]
    cases pos <;> first | rfl | cases next
  cases pos with
  | exitScan i status =>
    rw [Lifecycle.exitStep] at next
    split_ifs at next with inTable mine live <;> cases next
    · exact tree.goto running on out rfl rfl at'
    · -- the entry of a sibling: it has no thread
      have second : (⟨i, inTable⟩ : Fin NKT) ≠ slot0 := by
        intro eq
        rw [first] at mine
        exact mine (congrArg Fin.val eq)
      have off := tree.off (me.1, ⟨i, inTable⟩) (by rw [tree.alone _ _ second]; rfl)
      exact absurd live (Kthread.dead_iff.mpr off.2)
    · exact tree.goto running on out rfl rfl at'
    exact tree.goto running on out rfl rfl at'
  | exitLock status =>
    exact tree.lockWait running on next out.symm (not_window out) rfl ⟨at'.1, at'.2, rfl, nofun⟩
  | reparent j status =>
    obtain ⟨used, notInit, held, before⟩ := at'
    rw [Lifecycle.exitStep] at next
    split_ifs at next with inTable child <;> cases next
    · exact tree.reparent running on here child
    · refine tree.goto running on out rfl rfl ⟨used, notInit, held, fun q below => ?_⟩
      rcases Nat.lt_succ_iff_lt_or_eq.mp below with below | eq
      · exact before q below
      have eq : q = ⟨j, inTable⟩ := Fin.ext eq
      rw [eq]
      exact child
    exact tree.goto running on out rfl rfl
      ⟨used, notInit, held, fun q => before q (q.2.trans_le (Nat.le_of_not_lt inTable))⟩
  | exitWake status =>
    rw [Lifecycle.exitStep] at next
    cases next
    cases (s.proc me.1).parent with
    | none => exact tree.goto running on out rfl rfl at'
    | some q =>
      exact tree.move running on (.setZombie status) rfl (fun _ _ => .wakeup rfl) (fun _ _ => rfl)
        rfl (fun _ _ => id) at' nofun nofun (not_window out)
  | setZombie status =>
    cases next
    exact tree.setZombie running on here
  | exitThreads i status =>
    obtain ⟨dead, held, mine⟩ := at'
    rw [Lifecycle.exitStep] at next
    split_ifs at next with inTable <;> cases next
    · refine tree.move running on (.exitThreads (i + 1) status) rfl (fun k other => ?_)
        (fun _ _ => rfl) rfl (fun _ _ => id) ⟨dead, held, fun _ => ?_⟩ nofun nofun (not_window out)
      · by_cases eq : k = (me.1, ⟨i, inTable⟩)
        · refine .swept (fun second => other ?_) ?_
          · rw [eq] at second ⊢
            exact Prod.ext rfl (second.trans first.symm)
          rw [eq, goto_kt, setKt_kt, update_self]
          rfl
        exact .same (congrArg Kthread.tState (update_of_ne eq ..))
      rw [goto_kt, setKt_kt, update_apply]
      split_ifs with eq
      · rfl
      refine mine (Nat.pos_of_ne_zero fun zero => eq (Prod.ext rfl ?_))
      subst zero
      exact first
    refine tree.goto running on out rfl rfl ⟨dead, held, mine ?_⟩
    have : 0 < NKT := by decide
    omega
  | exitSched =>
    obtain ⟨dead, held, mine⟩ := at'
    cases next
    exact tree.move running on .zombieExit rfl (fun _ _ => .same rfl)
      (fun k other => update_of_ne other ..) rfl (lock_mine held) trivial
      (fun _ => ⟨update_self .., mine⟩) nofun (not_window out)
  | _ => exact nomatch next

lemma Tree.reap (out : (s.pc me).forks = none) (held : s.waitLock = some me)
    (used : (s.proc me.1).state = .used) (zombie : (s.proc j).state = .zombie)
    (proc : s'.proc = (s.freeproc j).proc) (kt : s'.kt = (s.freeproc j).kt)
    (pc : s'.pc = update (s.freeproc j).pc me .user) (onCpu : s'.onCpu = s.onCpu) : Tree s' := by
  have dead : (s.proc j).state ≠ .used := by
    rw [zombie]
    exact nofun
  have other : me.1 ≠ j := by
    rintro rfl
    exact dead used
  have freed : Tree (s.freeproc j) := by
    refine tree.freeproc running dead fun _ k locked => ?_
    cases Option.some.inj (locked.symm.trans held)
    exact other
  refine freed.move running on .user proc (fun k _ => .same (by rw [kt]))
    (fun k _ => congrFun onCpu k) pc (lock_mine held) ?_ nofun nofun (not_window ?_)
  · show (s'.proc me.1).state = .used
    rw [proc, freeproc_proc, update_of_ne other, used]
  rw [freeproc_pc, if_neg other, out]

lemma Tree.waitStep (next : waitStep s me fault (s.pc me) = some s') : Tree s' := by
  have at' := tree.at' me
  generalize here : s.pc me = pos at next at'
  have out : (s.pc me).forks = none := by
    rw [here]
    cases pos <;> first | rfl | cases next
  cases pos with
  | waitLock store =>
    exact tree.lockWait running on next out.symm (not_window out) rfl ⟨at', rfl⟩
  | waitScan store j havekids =>
    obtain ⟨used, held⟩ := at'
    rw [Lifecycle.waitStep] at next
    split_ifs at next with inTable child zombie stop stored <;> cases next
    · exact tree.unlock running on out held used (-1)
    · exact tree.reap running on out held used zombie rfl rfl rfl rfl
    · exact tree.reap running on out held used zombie rfl rfl rfl rfl
    · exact tree.goto running on out rfl rfl ⟨used, held⟩
    · exact tree.goto running on out rfl rfl ⟨used, held⟩
    exact tree.goto running on out rfl rfl ⟨used, held⟩
  | waitTest store havekids =>
    obtain ⟨used, held⟩ := at'
    rw [Lifecycle.waitStep] at next
    split_ifs at next with stop <;> cases next
    · exact tree.unlock running on out held used (-1)
    refine tree.move running on (.waitWoken store) rfl (fun k other => ?_) (fun k other =>
      update_of_ne other ..) rfl (lock_mine held) used nofun nofun (not_window out)
    exact .same (congrArg Kthread.tState (update_of_ne other ..))
  | waitWoken store =>
    cases next
    refine tree.move running on (.waitLock store) rfl (fun k other => ?_) (fun _ _ => rfl) rfl
      (fun _ _ => id) at' nofun nofun (not_window out)
    exact .same (congrArg Kthread.tState (update_of_ne other ..))
  | _ => exact nomatch next

end

lemma Tree.no_threadStep (tree : Tree s) (on : s.onCpu me = true) :
    threadStep s me fault (s.pc me) ≠ some s' ∨ (s.pc me).part ≠ some .thread := by
  have at' := tree.at' me
  have live := tree.live on
  cases here : s.pc me with
  | zombieExit =>
    rw [here] at live
    exact nomatch live
  | createScan | lastScan | threadZombie | threadWake | threadSched | joinScan | joinLoop
  | joinWoken =>
    rw [here] at at'
    exact at'.elim
  | _ => exact .inr nofun

section
variable (tree : Tree s) (running : s.panicked = false)
include tree running

lemma Tree.goStep {mem : Memory} (on : s.onCpu me = true)
    (next : goStep s me mem fault = some s') : Tree s' := by
  unfold Lifecycle.goStep at next
  cases part : (s.pc me).part with
  | none =>
    rw [part] at next
    exact nomatch next
  | some f =>
    rw [part] at next
    cases f with
    | fork => exact tree.forkStep running on next
    | exit => exact tree.exitStep running on next
    | wait => exact tree.waitStep running on next
    | thread =>
      rcases tree.no_threadStep on with no | no
      · exact absurd next no
      exact absurd part no

lemma Tree.dispatch (runnable : (s.kt k).tState = .runnable) :
    Tree { (s.setKt k { s.kt k with tState := .running }) with
      onCpu := update s.onCpu k true } := by
  have acts : Acts s k := by
    refine ⟨?_, ?_⟩
    · by_contra gone
      rw [not_eq_false] at gone
      rcases (tree.off k gone).2 with h | h
      · exact nomatch runnable.symm.trans h
      exact nomatch runnable.symm.trans h
    rintro np new rfl
    exact nomatch runnable.symm.trans new.waits
  have kept : ∀ k', k' ≠ k → KtKept s { (s.setKt k { s.kt k with tState := .running }) with
      onCpu := update s.onCpu k true } k k' := by
    intro k' other
    exact .same (congrArg Kthread.tState (update_of_ne other ..))
  refine tree.of_step running acts (fun _ => rfl) (fun _ => .inl rfl) kept (fun _ _ => rfl)
    (fun k' other => update_of_ne other ..) (fun _ _ => id) ?_ ?_ (fun _ => id) ?_
  · refine (tree.at' k).congr rfl id (fun zombie => nomatch runnable.symm.trans zombie)
      (fun np _ new => ?_) fun _ _ => id
    have other := acts.started np new
    refine ⟨⟨new.used, (update_of_ne other ..).trans new.off, ?_, new.start⟩, id⟩
    exact (congrArg Kthread.tState (update_of_ne other ..)).trans new.waits
  · exact fun gone => nomatch acts.live.symm.trans gone
  exact fun _ _ h _ => h

lemma Tree.kill : Tree { (s.setProc p { s.proc p with killed := true }) with
      kt := fun k => if k.1 = p ∧ (s.kt k).tState = .sleeping then
        { s.kt k with tState := .runnable } else s.kt k } := by
  have proc : ∀ q,
      (update s.proc p { s.proc p with killed := true } q).state = (s.proc q).state ∧
      (update s.proc p { s.proc p with killed := true } q).parent =
        (s.proc q).parent := by
    intro q
    rw [update_apply]
    split_ifs with eq
    · rw [eq]
      exact ⟨rfl, rfl⟩
    exact ⟨rfl, rfl⟩
  have kt : ∀ k t, (s.kt k).tState = t → t ≠ .sleeping →
      (if k.1 = p ∧ (s.kt k).tState = .sleeping then
        { s.kt k with tState := .runnable } else s.kt k).tState = t := by
    intro k t eq awake
    rw [if_neg fun h => awake (eq.symm.trans h.2)]
    exact eq
  refine ⟨fun k => ?_, fun k gone => ?_, tree.alone, tree.windows, fun q unused => ?_,
    fun q alive other => ?_, (proc _).1.trans tree.root⟩
  · refine (tree.at' k).congr (proc _).1 id (fun zombie => kt k _ zombie nofun) (fun np _ new => ?_)
      fun _ q child => (proc q).2.symm.trans child
    exact ⟨⟨(proc np).1.trans new.used, new.off, kt _ _ new.waits nofun, new.start⟩,
      fun none => (proc np).2.trans none⟩
  · obtain ⟨off, unused | zombie⟩ := tree.off k gone
    · exact ⟨off, .inl (kt k _ unused nofun)⟩
    exact ⟨off, .inr (kt k _ zombie nofun)⟩
  · obtain ⟨none, free⟩ := tree.free q ((proc q).1.symm.trans unused)
    exact ⟨(proc q).2.trans none, kt _ _ free nofun⟩
  rcases tree.parent q (fun h => alive ((proc q).1.trans h)) other with open' | ⟨r, child, used⟩
  · exact .inl (open'.congr running (fun none => (proc q).2.trans none) fun _ _ => id)
  exact .inr ⟨r, (proc q).2.trans child, (proc r).1.trans used⟩

lemma Tree.callStep {c : Call} (on : s.onCpu me = true) (here : s.pc me = .user)
    (single : SingleThreaded s (.call me c)) : Tree (callStep s me c) := by
  have used := tree.at' me
  rw [here] at used
  have out : (s.pc me).forks = none := here ▸ rfl
  cases c with
  | fork => exact tree.goto running on out rfl rfl used
  | exit status =>
    unfold Lifecycle.callStep exitCall
    split_ifs with root
    · exact tree.panic running
    exact tree.goto running on out rfl rfl ⟨used, root⟩
  | wait store => exact tree.goto running on out rfl rfl used
  | kthreadCreate | kthreadExit | kthreadJoin => exact single.elim

end

lemma Tree.step {x : Label} (tree : Tree s) (single : SingleThreaded s x)
    (next : step s x = some s') : Tree s' := by
  obtain ⟨running, next⟩ := Option.ite_none_left_eq_some.mp next
  rw [not_eq_true] at running
  cases x with
  | go me mem fault =>
    obtain ⟨on, next⟩ := Option.ite_none_right_eq_some.mp next
    exact tree.goStep running on next
  | call me c =>
    obtain ⟨⟨on, here⟩, rfl⟩ := guarded.mp next
    split_ifs with mine
    · exact tree.callStep running on here single
    exact tree.panic running
  | dispatch k =>
    obtain ⟨runnable, rfl⟩ := guarded.mp next
    exact tree.dispatch running runnable
  | kill p =>
    cases next
    exact tree.kill running

lemma tree_init : Tree init where
  at' k := by
    by_cases first : k = (initproc, slot0)
    · subst first
      exact rfl
    rw [show init.pc k = .idle from if_neg first]
    trivial
  off k gone := by
    by_cases first : k = (initproc, slot0)
    · subst first
      exact nomatch gone
    refine ⟨rfl, .inl ?_⟩
    rw [show init.kt k = Kthread.kthreadinit k from if_neg first]
    rfl
  alone p i second := if_neg fun eq => second (congrArg Prod.snd eq)
  windows k _ np h := by
    have none : (init.pc k).forks = none := by
      rw [show init.pc k = if k = (initproc, slot0) then .user else .idle from rfl]
      split_ifs <;> rfl
    exact nomatch none.symm.trans h
  free q unused := by
    have other : q ≠ initproc := by
      rintro rfl
      exact nomatch unused
    refine ⟨?_, ?_⟩
    · rw [show init.proc q = _ from if_neg other]
    rw [show init.kt (q, slot0) = _ from if_neg fun eq => other (congrArg Prod.fst eq)]
    rfl
  parent q alive other := by
    refine absurd ?_ alive
    rw [show init.proc q = _ from if_neg other]
  root := rfl

end Xv6.Lifecycle
