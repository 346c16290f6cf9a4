import Xv6.KthreadTids
import Xv6.KthreadContext

/-! The loops of `exit` and `exec` that kill the siblings of the caller. For a live
sibling they call `kthread_join` with the id of the caller instead of the sibling's,
and release the sibling's `t_lock` once more after the join. So they do what they are
for exactly if there is no live sibling when they start. -/
namespace Xv6
open Interleaving State
open Function (update_eq_self update_idem update_self)
variable {n : Nat} {s s' : State n} {c d : Fin n} {k me : KtId} {p : ProcId} {pc pc' : Pc}
  {l : Label n}

inductive Teardown where
  | exit (status : Int)
  | exec

def Teardown.loop (i : Nat) : Teardown → Pc
  | .exit status => .exitLoop i status
  | .exec => .execLoop i

def Teardown.ret (i : Nat) : Teardown → Ret
  | .exit status => .exit i status
  | .exec => .exec i

def Teardown.release (i : Nat) : Teardown → Pc
  | .exit status => .exitRelease i status
  | .exec => .execRelease i

/-- The thread is in one of the loops, or in the join that the loop has called. -/
def Pc.TearsDown : Pc → Prop
  | .exitLoop _ _ | .execLoop _ | .exitRelease _ _ | .execRelease _ => True
  | .joinScan _ j _ | .joinLock j _ | .joinTest j _ | .joinReap j _ | .joinSleep j _ =>
    j.ret ≠ .user
  | _ => False

def InTeardown (me : KtId) (s : State n) : Prop :=
  (∃ c pc, On s c me pc ∧ pc.TearsDown) ∨
    (s.kt me).Waiting ∧ ∃ j t, s.context me = .join j t ∧ j.ret ≠ .user

/-- What the loop of the caller `me` is for, in one state. -/
structure Proper (w : Teardown) (me : KtId) (s : State n) : Prop where
  awake : ¬ ((s.kt me).tState = .sleeping ∧ (s.kt me).chan = some (.kthread me))
  locked : ∀ c i, ¬ On s c me (w.release i)
  joins : ∀ c (i : Fin NKT), s.cpu c = .thread me (w.loop i) → i ≠ me.2 →
    (s.kt (me.1, i)).Live → ∀ l s', l.cpu = c → step s l = some s' →
      (s'.kt (me.1, i)).tKilled = true ∧
        ∃ j, s'.cpu c = .thread me (.joinScan 0 j none) ∧ j.ktid = (s.kt (me.1, i)).tid
  done : ∀ c i, s.cpu c = .thread me (w.loop i) → ¬ i < NKT →
    ∀ j, j ≠ me.2 → (s.kt (me.1, j)).Dead

variable {i : Nat}

lemma loop_step (w : Teardown) (cpu : s.cpu c = .thread me (w.loop i)) (h : i < NKT) :
    step s ⟨c, .go⟩ = some (doomSibling s c me ⟨i, h⟩ (w.loop (i + 1)) (w.ret i)) := by
  cases w <;> simp only [step, cpu, Teardown.loop, threadStep, h, dif_pos, Teardown.ret]

lemma doomSibling_dead (s : State n) {i : Fin NKT} {next : Pc} {ret : Ret} (dead : i ≠ me.2 →
    (s.kt (me.1, i)).Dead) : doomSibling s c me i next ret = s.goto c me next := by
  unfold doomSibling
  split_ifs with own live
  · rfl
  · exact absurd live (dead own)
  rfl

lemma goto_goto (s : State n) : (s.goto c me pc).goto c me pc' = s.goto c me pc' := by
  simp only [State.goto, setCpu, update_idem]

lemma goto_self (cpu : s.cpu c = .thread me pc) : s.goto c me pc = s := by
  simp only [State.goto, setCpu, ← cpu, update_eq_self]

lemma Teardown.at_tearsDown (w : Teardown) (i : Nat) : (w.loop i).TearsDown := by
  cases w <;> trivial

lemma loop_run (w : Teardown) (cpu : s.cpu c = .thread me (w.loop 0)) {m : Nat}
    (bound : m ≤ NKT) (dead : ∀ i : Fin NKT, i < m → i ≠ me.2 → (s.kt (me.1, i)).Dead) :
    Run step (fun x _ => InTeardown me x) s (goes c m) (s.goto c me (w.loop m)) := by
  induction m with
  | zero =>
    rw [goto_self cpu]
    exact .nil s
  | succ m ih =>
    have before := ih (by omega) fun i early => dead i (by omega)
    have here : (s.goto c me (w.loop m)).cpu c = .thread me (w.loop m) := update_self _ _ _
    have last := loop_step w here (show m < NKT by omega)
    rw [doomSibling_dead _ fun other => dead ⟨m, by omega⟩ (Nat.lt_succ_self m) other, goto_goto] at last
    have run := before.snoc (.inl ⟨c, _, on_of_thread here, w.at_tearsDown m⟩) last
    rwa [goes, ← List.replicate_succ'] at run

lemma Pc.TearsDown.not_tail (h : pc.TearsDown) : ¬ pc.Tail := by
  cases pc <;> first | exact fun tail => tail | exact absurd h fun no => no

lemma Teardown.release_not_tail (w : Teardown) (i : Nat) : ¬ (w.release i).Tail := by
  cases w <;> exact fun tail => tail

/-- Nothing of the process is live but the caller, which is not before a release. -/
structure Sole (w : Teardown) (c : Fin n) (me : KtId) (pc : Pc) (s : State n) : Prop where
  used : (s.proc me.1).state = .used
  sound : Sound s me.1
  dead : ∀ j, j ≠ me.2 → (s.kt (me.1, j)).Dead
  here : s.cpu c = .thread me pc
  out : ¬ pc.Tail
  held : ∀ i, pc ≠ w.release i

variable {w : Teardown}

section
variable (inv : Sole w c me pc s)
include inv

lemma Sole.core : Core s me.1 := inv.sound.core inv.used

lemma Sole.only (on : On s d k pc') (own : k.1 = me.1) (out : ¬ pc'.Tail) :
    k = me ∧ d = c ∧ pc' = pc := by
  have live := inv.core.live_of_on on own out
  have same : k = me := by
    by_contra other
    have dead := inv.dead k.2 fun idx => other (Prod.ext own idx)
    rw [← own] at dead
    exact dead live
  subst same
  obtain rfl := inv.core.single d c k pc' pc on (on_of_thread inv.here) rfl out inv.out
  rw [On, inv.here] at on
  cases on
  exact ⟨rfl, rfl, rfl⟩

lemma Sole.proper : Proper w me s where
  awake := by
    rintro ⟨asleep, -⟩
    rw [inv.core.running c me pc (on_of_thread inv.here) rfl inv.out] at asleep
    cases asleep
  locked d i on := inv.held i (inv.only on rfl (w.release_not_tail i)).2.2.symm
  joins _ i _ other live := absurd live (inv.dead i other)
  done _ _ _ _ := inv.dead

lemma Sole.inTeardown (loops : InTeardown me s) : pc.TearsDown := by
  rcases loops with ⟨d, pc', on, tears⟩ | ⟨waiting, -⟩
  · rwa [← (inv.only on rfl tears.not_tail).2.2]
  have run := inv.core.running c me pc (on_of_thread inv.here) rfl inv.out
  rcases waiting with eq | eq <;> rw [run] at eq <;> cases eq

lemma Sole.frame (tears : pc.TearsDown) (h : Steps s l.cpu s') :
    (s'.proc me.1).state = .used ∧ Sound s' me.1 ∧ ∀ j, j ≠ me.2 → (s'.kt (me.1, j)).Dead := by
  refine ⟨?_, inv.sound.step h, fun j other => ?_⟩
  · rcases h.procState me.1 with kept | ⟨-, k, status, cpu, own⟩
    · exact kept.trans inv.used
    obtain ⟨-, -, rfl⟩ := inv.only (on_of_thread cpu) own id
    exact nomatch tears
  rcases inv.core.dead_step (k := (me.1, j)) h rfl (inv.dead j other) with kept |
    ⟨k, f, cpu, own, -⟩
  · exact kept
  obtain ⟨-, -, rfl⟩ := inv.only (on_of_thread cpu) own.symm id
  exact nomatch tears

end

lemma Sole.step (inv : Sole w c me (w.loop i) s) (h : Steps s l.cpu s') :
    (∃ i, Sole w c me (w.loop i) s') ∨ ∃ pc, ¬ pc.TearsDown ∧ Sole w c me pc s' := by
  obtain ⟨used, sound, dead⟩ := inv.frame (w.at_tearsDown i) h
  by_cases acts : c = l.cpu
  · subst acts
    have m := h.move_of inv.here
    cases w with
    | exit status =>
      cases m with
      | panic fault => cases fault
      | exitDoom inside other live => exact absurd live (inv.dead _ other)
      | @goto _ next move =>
        have now : (s.goto l.cpu me next).cpu l.cpu = .thread me next :=
          update_self _ _ _
        cases move with
        | exitSkip => exact .inl ⟨i + 1, used, sound, dead, now, id, nofun⟩
        | exitDone =>
          exact .inr ⟨.exitZombie status, id, used, sound, dead, now, id, nofun⟩
    | exec =>
      cases m with
      | panic fault => cases fault
      | execDoom inside other live => exact absurd live (inv.dead _ other)
      | @goto _ next move =>
        have now : (s.goto l.cpu me next).cpu l.cpu = .thread me next :=
          update_self _ _ _
        cases move with
        | execSkip => exact .inl ⟨i + 1, used, sound, dead, now, id, nofun⟩
        | execDone => exact .inr ⟨.user 0, id, used, sound, dead, now, id, nofun⟩
  exact .inl ⟨i, used, sound, dead, by rw [h.other acts, inv.here], inv.out, inv.held⟩

lemma Sole.run (inv : Sole w c me (w.loop i) s) {bs : List (Label n)}
    (run : Run Xv6.step (fun x _ => InTeardown me x) s bs s') : Proper w me s' := by
  have reached : (∃ i, Sole w c me (w.loop i) s') ∨ ∃ pc, ¬ pc.TearsDown ∧ Sole w c me pc s' :=
    run.invariant
      (I := fun x => (∃ i, Sole w c me (w.loop i) x) ∨ ∃ pc, ¬ pc.TearsDown ∧ Sole w c me pc x)
      (fun x l y here loops next => by
        rcases here with ⟨i, sole⟩ | ⟨pc, left_, sole⟩
        · exact sole.step (steps_of_step next)
        exact absurd (sole.inTeardown loops) left_)
      (.inl ⟨i, inv⟩)
  rcases reached with ⟨i, sole⟩ | ⟨pc, -, sole⟩
  · exact sole.proper
  exact sole.proper

lemma not_proper_of_live (w : Teardown) (cpu : s.cpu c = .thread me (w.loop 0))
    (tids : Tids s me.1) (core : Core s me.1) {i : Fin NKT}
    (other : i ≠ me.2) (live : (s.kt (me.1, i)).Live) :
    ∃ bs x, Run step (fun x _ => InTeardown me x) s bs x ∧ ¬ Proper w me x := by
  have some_ : ∃ m, ∃ h : m < NKT, (⟨m, h⟩ : Fin NKT) ≠ me.2 ∧ (s.kt (me.1, ⟨m, h⟩)).Live :=
    ⟨i, i.isLt, other, live⟩
  obtain ⟨inside, first, alive⟩ := Nat.find_spec some_
  have run := loop_run w cpu (m := Nat.find some_) (by omega) fun j early ne dead =>
    Nat.find_min some_ early ⟨j.isLt, ne, dead⟩
  refine ⟨_, _, run, fun proper => ?_⟩
  have here : (s.goto c me (w.loop (Nat.find some_))).cpu c = .thread me (w.loop (Nat.find some_)) :=
    update_self _ _ _
  obtain ⟨-, j, joined, same⟩ := proper.joins c ⟨_, inside⟩ here first alive ⟨c, .go⟩ _ rfl
    (loop_step w here inside)
  have mine : j.ktid = (s.kt me).tid := by
    have eq := joined
    unfold doomSibling at eq
    rw [if_neg first, if_pos (show ((s.goto c me _).kt _).Live from alive)] at eq
    simp only [State.goto, setCpu_cpu, update_self, Cpu.thread.injEq, Pc.joinScan.injEq] at eq
    rw [← eq.2.2.1]
    rfl
  have run := core.running c me _ (on_of_thread cpu) rfl (w.at_tearsDown 0).not_tail
  exact first (tids.distinct me.2 _ (tids.live me.2 (Kthread.live_of_running run))
    (mine.symm.trans same)).symm

theorem teardown_proper_iff (n : Nat) (live : ProcId → Bool) (as : List (Label n)) (s : State n)
    (run : Run step Free (init n live) as s) (w : Teardown) (c : Fin n) (me : KtId)
    (used : (s.proc me.1).state = .used) (start : s.cpu c = .thread me (w.loop 0)) :
    (∀ bs x, Run step (fun x _ => InTeardown me x) s bs x → Proper w me x) ↔
      ∀ i, i ≠ me.2 → (s.kt (me.1, i)).Dead := by
  have sound := sound_of_run run me.1
  constructor
  · intro proper i other live
    obtain ⟨bs, x, reach, bad⟩ :=
      not_proper_of_live w start (tids_of_run run used) (sound.core used) other live
    exact bad (proper bs x reach)
  intro dead bs x reach
  have sole : Sole w c me (w.loop 0) s := ⟨used, sound, dead, start, (w.at_tearsDown 0).not_tail,
    by cases w <;> exact nofun⟩
  exact sole.run reach

def execAlone : List (Label 1) := goes 0 3 ++ [⟨0, .call .exec⟩]

theorem execAlone_proper : ∃ s, Run step Free (init 1 onlyChild) execAlone s ∧
    ∀ bs x, Run step (fun x _ => InTeardown (child, slot0) x) s bs x →
      Proper .exec (child, slot0) x := by
  refine Run.exists_with (P := fun s => (s.proc child).state = .used ∧
      s.cpu 0 = .thread (child, slot0) (.execLoop 0) ∧ ∀ i, i ≠ slot0 → (s.kt (child, i)).Dead)
    (by decide +kernel) fun s run ⟨used, start, dead⟩ => ?_
  exact (teardown_proper_iff 1 onlyChild execAlone s run .exec 0 (child, slot0) used
    start).mpr dead

def callWithSibling (k : Call) (steps : Nat) : List (Label 1) :=
  goes 0 3 ++ [⟨0, .call (.kthreadCreate 0 0 0)⟩] ++ goes 0 3 ++ [⟨0, .call k⟩] ++ goes 0 steps

theorem caller_sleeps_on_itself :
    (∃ s, Run step Free (init 1 onlyChild) (callWithSibling (.exit 0) 17) s ∧
      (s.kt (child, slot0)).tState = .sleeping ∧
      (s.kt (child, slot0)).chan = some (.kthread (child, slot0))) ∧
    ∃ s, Run step Free (init 1 onlyChild) (callWithSibling .exec 16) s ∧
      (s.kt (child, slot0)).tState = .sleeping ∧
      (s.kt (child, slot0)).chan = some (.kthread (child, slot0)) :=
  ⟨Run.exists_of_execute (by decide +kernel), Run.exists_of_execute (by decide +kernel)⟩

end Xv6
