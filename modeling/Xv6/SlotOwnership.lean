import Xv6.KthreadScan
import Xv6.KthreadContext

/-! A thread slot belongs to the CPU that runs it. `kthread_exit` publishes
`ZOMBIE_t` and drops `t_lock` while its thread is still on a CPU and on its kernel
stack, so a joiner can free the slot and a creator can hand it out again before the
thread has switched away. The property holds in the runs in which no slot is
reaped in that window and no slot is allocated behind the back of `exit`. -/
namespace Xv6
open Interleaving State Option
variable {n : Nat} {s s' : State n} {c d : Fin n} {k me : KtId} {p : ProcId} {pc pc' : Pc}

/-- The thread has published itself and has not switched away. -/
def Cpu.inTail (k : KtId) (x : Cpu) : Bool :=
  match x.pos with
  | some (me, .wakeLock) | some (me, .wakeScan _) | some (me, .exitSched) => me = k
  | _ => false

def Cpu.reaps (p : ProcId) : Cpu → Option KtId
  | .thread me (.joinReap _ t) => if me.1 = p then some (p, t) else none
  | _ => none

/-- No slot is reaped before its thread has switched away, and no slot is
allocated that a caller of `exit` has passed. -/
def UnracedReap (p : ProcId) (s : State n) (l : Label n) : Prop :=
  (∀ k ∈ (s.cpu l.cpu).reaps p, ∀ c, (s.cpu c).inTail k = false) ∧
    NotBehind Pc.exitScanned p s l.cpu

instance (p : ProcId) : ∀ (s : State n) (l : Label n), Decidable (UnracedReap p s l) :=
  fun _ _ => inferInstanceAs (Decidable (_ ∧ _))

lemma inTail_of_on (on : On s c k pc) (tail : pc.Tail) : (s.cpu c).inTail k = true := by
  rw [On] at on
  unfold Cpu.inTail
  rw [on]
  cases pc <;> first | exact absurd tail id | exact decide_eq_true rfl

structure Owned (s : State n) (p : ProcId) : Prop extends Based s p where
  tail : ∀ c k pc, On s c k pc → k.1 = p → pc.Tail → (s.kt k).tState = .zombie
  unique : ∀ c d k pc pc', On s c k pc → On s d k pc' → k.1 = p → c = d
  ready : ∀ k, k.1 = p → (s.kt k).Waiting → s.context k ≠ .zombie

lemma Owned.state (inv : Owned s p) (on : On s c k pc) (own : k.1 = p) :
    (s.kt k).tState = .running ∨ (s.kt k).tState = .zombie := by
  by_cases tail : pc.Tail
  · exact .inr (inv.tail c k pc on own tail)
  exact .inl (inv.core.running c k pc on own tail)

lemma Owned.not_waiting (inv : Owned s p) (on : On s c k pc) (own : k.1 = p) :
    ¬ (s.kt k).Waiting := by
  intro waiting
  rcases inv.state on own with eq | eq <;> rcases waiting with eq' | eq' <;>
    rw [eq] at eq' <;> cases eq'

lemma Owned.resumes (inv : Owned s p) (own : k.1 = p) (ready : (s.kt k).tState = .runnable)
    (resumed : Resumes s k pc) : ¬ pc.Tail := by
  cases resumed with
  | zombie ctx => exact absurd ctx (inv.ready k own (.inl ready))
  | _ => exact fun h => h

lemma Arrives.tail (h : Arrives s me pc pc') (tail : pc'.Tail) :
    pc.Tail ∨ ∃ status, pc = .setZombie status := by
  cases h with
  | stay => exact .inl tail
  | zombie status => exact .inr ⟨status, rfl⟩
  | wakeLock | wakeNext | wakeDone => exact .inl trivial
  | go l => exact absurd tail l.not_tail.2
  | reap r eq =>
    subst eq
    unfold Join.back at tail
    split at tail <;> exact absurd tail id
  | _ => exact absurd tail id

variable {l : Label n}

lemma Owned.tail_step (inv : Owned s p) (guard : UnracedReap p s l) (h : Steps s l.cpu s')
    (on : On s' d k pc) (own : k.1 = p) (tail : pc.Tail) : (s'.kt k).tState = .zombie := by
  by_cases same : d = l.cpu
  · subst same
    rcases h.on_own on with ⟨ready, resumed, -⟩ | ⟨pc', cpu, m, arrives⟩
    · exact absurd tail (inv.resumes own ready resumed)
    rcases arrives.tail tail with before | ⟨status, rfl⟩
    · have dead := inv.tail l.cpu k pc' (on_of_thread cpu) own before
      rcases (h.entry k).zombie_kept dead with kept | ⟨me, j, cpu', -⟩ | ⟨pc'', cpu', out⟩
      · exact kept
      · rw [cpu] at cpu'
        cases cpu'
        exact absurd before id
      rw [cpu] at cpu'
      cases cpu'
      exact absurd before out
    cases m with
    | goto l => cases l
    | panic fault => cases fault
    | zombie => simp only [State.goto, setCpu_kt, setKt_kt, Function.update_self, Kthread.exit]
  have old := (h.on_other same).mp on
  have dead := inv.tail d k pc old own tail
  rcases (h.entry k).zombie_kept dead with kept | ⟨me, j, cpu, eq⟩ | ⟨pc', cpu, -⟩
  · exact kept
  · have window := guard.1 (p, k.2) (by simp only [cpu, Cpu.reaps, ← eq, own, if_true, mem_def]) d
    rw [← own, inTail_of_on old tail] at window
    cases window
  exact absurd (inv.unique d l.cpu k pc pc' old (on_of_thread cpu) own) same

lemma Owned.unique_step (inv : Owned s p) (h : Steps s c s') (on : On s' d k pc) (ne : d ≠ c)
    (on' : On s' c k pc') (own : k.1 = p) : False := by
  have old := (h.on_other ne).mp on
  rcases h.on_own on' with ⟨ready, -, -⟩ | ⟨pc'', cpu, -, -⟩
  · exact inv.not_waiting old own (.inl ready)
  exact ne (inv.unique d c k pc pc'' old (on_of_thread cpu) own)

lemma Owned.ready_step (inv : Owned s p) (h : Steps s c s') (own : k.1 = p)
    (waiting : (s'.kt k).Waiting) : s'.context k ≠ .zombie := by
  rcases (h.entry k).waiting waiting with before | ⟨me, f, cpu, eq, free⟩ | ⟨pc, chan, cpu, asleep⟩
  · have old := inv.ready k own before
    rcases h.context k with kept | ⟨me, f, cpu, eq, free⟩ | ⟨pc, cpu, -⟩
    · rwa [kept]
    · rw [h.context_created cpu eq free]
      exact nofun
    exact absurd before (inv.not_waiting (on_of_thread cpu) own)
  · rw [h.context_created cpu eq free]
    exact nofun
  intro zombie
  have saved := h.context_saved cpu asleep
  rw [zombie] at saved
  cases pc with
  | joinSleep | sleepOn => cases saved
  | _ => cases asleep

lemma Owned.step (inv : Owned s p) (guard : UnracedReap p s l) (h : Steps s l.cpu s') :
    Owned s' p where
  toBased := inv.toBased.step guard.2 h
  tail _ _ _ on own tail := inv.tail_step guard h on own tail
  ready _ own waiting := inv.ready_step h own waiting
  unique a b k pc pc' on on' own := by
    by_cases first : a = l.cpu
    · subst first
      by_contra ne
      exact inv.unique_step h on' (Ne.symm ne) on own
    by_cases second : b = l.cpu
    · subst second
      exact (inv.unique_step h on first on' own).elim
    exact inv.unique a b k pc pc' ((h.on_other first).mp on) ((h.on_other second).mp on') own

lemma owned_init (live : ProcId → Bool) (p : ProcId) : Owned (init n live) p where
  toBased := based_init live p
  tail _ _ _ on := nomatch on
  unique _ _ _ _ _ on := nomatch on
  ready _ _ _ := nofun

lemma EntryStep.allocated {t : Kthread} (h : EntryStep s c k t)
    (used : (s.kt k).tState ≠ .unused) : (t.tState ≠ .unused ∧ t.tid = (s.kt k).tid) ∨ ∃ me j,
    s.cpu c = .thread me (.joinReap j k.2) ∧ k.1 = me.1 := by
  cases h with
  | same | doom => exact .inl ⟨used, rfl⟩
  | create _ _ free => exact absurd free used
  | zombie | mark | wake | sleep | dispatch => exact .inl ⟨ThreadState.noConfusion, rfl⟩
  | reap cpu own => exact .inr ⟨_, _, cpu, own⟩
  | kill =>
    refine .inl ⟨?_, rfl⟩
    unfold Kthread.kthreadKill
    split_ifs
    · exact nofun
    exact used

lemma kthread_eq_some : (s.cpu c).kthread = some k ↔ ∃ pc, On s c k pc := by
  simp only [Cpu.kthread, On, map_eq_some_iff]
  constructor
  · rintro ⟨⟨me, pc⟩, here, rfl⟩
    exact ⟨pc, here⟩
  rintro ⟨pc, here⟩
  exact ⟨(k, pc), here, rfl⟩

lemma Owned.used (inv : Owned s p) (on : On s c k pc) (own : k.1 = p) :
    (s.kt k).tState ≠ .unused := by rcases inv.state on own with eq | eq <;> rw [eq] <;> exact nofun

/-- A slot on a CPU is not reaped: a joiner looks for a zombie, and it is running
or in the window. -/
lemma Owned.not_reaped {j : Join} (inv : Owned s p) (guard : UnracedReap p s l) (on : On s c k pc)
    (own : k.1 = p) (cpu : s.cpu l.cpu = .thread me (.joinReap j k.2)) (eq : k.1 = me.1) :
    False := by
  have dead := inv.core.target l.cpu me j k.2 (on_of_thread cpu) (eq.symm.trans own)
  rw [← own] at dead
  by_cases tail : pc.Tail
  · have window := guard.1 (p, k.2) (by simp only [cpu, Cpu.reaps, ← eq, own, if_true, mem_def]) c
    rw [← own, inTail_of_on on tail] at window
    cases window
  have run := inv.core.running c k pc on own tail
  rw [dead] at run
  cases run

theorem running_slot_has_one_owner (n : Nat) (live : ProcId → Bool) (p : ProcId)
    (as : List (Label n)) (s : State n) (run : Run step (UnracedReap p) (init n live) as s) :
    (∀ c d i, (s.cpu c).kthread = some (p, i) → (s.cpu d).kthread = some (p, i) → c = d) ∧
    ∀ l s', UnracedReap p s l → step s l = some s' → ∀ c i, (s.cpu c).kthread = some (p, i) →
      (s'.kt (p, i)).tState ≠ .unused ∧ (s'.kt (p, i)).tid = (s.kt (p, i)).tid ∧
      s'.frame (p, i) = s.frame (p, i) ∧
      ((s'.cpu c).kthread = some (p, i) → s'.context (p, i) = s.context (p, i)) := by
  have inv : Owned s p := run.invariant (I := fun s => Owned s p)
    (fun _ _ _ inv guard h => inv.step guard (steps_of_step h)) (owned_init live p)
  constructor
  · intro c d i first second
    obtain ⟨pc, on⟩ := kthread_eq_some.mp first
    obtain ⟨pc', on'⟩ := kthread_eq_some.mp second
    exact inv.unique c d (p, i) pc pc' on on' rfl
  intro l s' guard next c i here
  have h := steps_of_step next
  obtain ⟨pc, on⟩ := kthread_eq_some.mp here
  have used := inv.used on rfl
  rcases (h.entry (p, i)).allocated used with ⟨kept, tid⟩ | ⟨me, j, cpu, eq⟩
  · refine ⟨kept, tid, ?_, fun still => ?_⟩
    · rcases h.frame (p, i) with same | ⟨_, _, _, _, free⟩
      · exact same
      · exact absurd free used
    rcases h.context (p, i) with same | ⟨_, _, _, _, free⟩ | ⟨pc', cpu, off, -⟩
    · exact same
    · exact absurd free used
    obtain rfl := inv.unique c l.cpu (p, i) pc pc' on (on_of_thread cpu) rfl
    simp only [Cpu.kthread, off, map_none] at still
    cases still
  · exact (inv.not_reaped guard on rfl cpu eq).elim

def twoThreads : List (Label 3) :=
  [⟨0, .go⟩, ⟨0, .go⟩, ⟨0, .go⟩, ⟨0, .call (.kthreadCreate 0 0 0)⟩, ⟨0, .go⟩, ⟨0, .go⟩, ⟨0, .go⟩,
    ⟨1, .go⟩, ⟨1, .go⟩, ⟨1, .go⟩, ⟨1, .go⟩]

theorem twoThreads_own_their_slots : ∃ s s', Run step (UnracedReap child) (init 3 onlyChild) twoThreads s ∧
    step s ⟨1, .call (.kthreadExit 7)⟩ = some s' ∧ (s.cpu 1).kthread = some (child, slot1) ∧
    (∀ d, (s.cpu d).kthread = some (child, slot1) → d = 1) ∧
    (s'.kt (child, slot1)).tState ≠ .unused ∧
    (s'.kt (child, slot1)).tid = (s.kt (child, slot1)).tid := by
  refine Run.exists_two_with (P := fun s => (s.cpu 1).kthread = some (child, slot1) ∧
      UnracedReap child s ⟨1, .call (.kthreadExit 7)⟩ ∧
      (step s ⟨1, .call (.kthreadExit 7)⟩).isSome = true)
    (by decide +kernel) fun s run ⟨here, fair, next⟩ => ?_
  obtain ⟨s', next⟩ := isSome_iff_exists.mp next
  have main := running_slot_has_one_owner 3 onlyChild child twoThreads s run
  have kept := main.2 _ s' fair next 1 slot1 here
  exact ⟨s', next, here, fun d there => main.1 d 1 slot1 there here, kept.1, kept.2.1⟩

/-- The second thread exits and is joined and replaced before it has left its
CPU; a third CPU takes the new thread of the slot. -/
def earlyReap : List (Label 3) :=
  twoThreads ++ [⟨1, .call (.kthreadExit 7)⟩, ⟨1, .go⟩, ⟨1, .go⟩, ⟨0, .call (.kthreadJoin 2 0)⟩] ++
  List.replicate 14 ⟨0, .go⟩ ++
  [⟨0, .call (.kthreadCreate 0 0 0)⟩, ⟨0, .go⟩, ⟨0, .go⟩, ⟨2, .go⟩, ⟨2, .go⟩, ⟨2, .go⟩, ⟨2, .go⟩]

theorem earlyReap_shares_slot : ∃ s, Run step Free (init 3 onlyChild) earlyReap s ∧
    (s.cpu 1).kthread = some (child, slot1) ∧ (s.cpu 2).kthread = some (child, slot1) :=
  Run.exists_of_execute (by decide +kernel)

end Xv6
