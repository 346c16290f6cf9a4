import Xv6.Interleaving
import Mathlib.Data.Fintype.Basic

/-! The sleep-locks of `kernel/sleeplock.c`, for any threads and any locks, and the ownership
checks of `bwrite`, `brelse` and `iunlock`. Every access to the spin lock `lk->lk` and every
load and store under it is a step. `sleep` gives up the spin lock and puts the thread to
sleep in one step, and a thread that is woken takes the spin lock and tests the lock again.
The owner of a lock is recorded as the pid of its process, so the threads of one process are
the same to `holdingsleep`. -/
namespace Xv6.Sleeplock
open Interleaving Option
open Function (update update_eq_self update_of_ne update_self)

/-- `struct sleeplock`, with the thread that has its spin lock. -/
structure Lock (T : Type) where
  locked : Bool
  pid : Int
  lk : Option T
  deriving DecidableEq

inductive Caller where
  | user
  | bwrite
  | brelse
  | iunlock
  deriving DecidableEq

/-- The next step of a thread: the steps of `acquiresleep`, of `releasesleep` and of
`holdingsleep`. `leave` and `holdingLeave` release the spin lock and return. -/
inductive Pc (L : Type) where
  | user
  | panicked (c : Caller)
  | leave (l : L)
  | acquire (l : L)
  | test (l : L)
  | asleep (l : L)
  | setLocked (l : L)
  | setPid (l : L)
  | releaseAcquire (l : L)
  | clearLocked (l : L)
  | clearPid (l : L)
  | wakeup (l : L)
  | holdingAcquire (c : Caller) (l : L)
  | holdingTest (c : Caller) (l : L)
  | holdingLeave (c : Caller) (l : L) (r : Bool)
  deriving DecidableEq

/-- `owns` says which locks a thread has taken in `acquiresleep` and not given up in
`releasesleep`. -/
structure State (T L : Type) where
  lock : L → Lock T
  pc : T → Pc L
  owns : T → L → Bool

inductive Call (L : Type) where
  | acquiresleep (l : L)
  | releasesleep (l : L)
  | holdingsleep (c : Caller) (l : L)
  deriving DecidableEq

inductive Act (L : Type) where
  | call (c : Call L)
  | go
  | kill
  deriving DecidableEq

structure Label (T L : Type) where
  thread : T
  act : Act L
  deriving DecidableEq

def Call.entry {L : Type} : Call L → Pc L
  | .acquiresleep l => .acquire l
  | .releasesleep l => .releaseAcquire l
  | .holdingsleep c l => .holdingAcquire c l

/-- What the callers do with the result: `bwrite`, `brelse` and `iunlock` panic unless it is
true, and the last two then call `releasesleep`. -/
def Caller.resume {L : Type} (l : L) : Caller → Bool → Pc L
  | .user, _ => .user
  | .bwrite, r => if r then .user else .panicked .bwrite
  | .brelse, r => if r then .releaseAcquire l else .panicked .brelse
  | .iunlock, r => if r then .releaseAcquire l else .panicked .iunlock

variable {T L : Type}

section
variable [DecidableEq T] [DecidableEq L]

namespace State
@[simps] def goto (s : State T L) (t : T) (pc : Pc L) : State T L :=
  { s with pc := update s.pc t pc }

@[simps] def setLock (s : State T L) (l : L) (x : Lock T) : State T L :=
  { s with lock := update s.lock l x }

@[simps] def setOwns (s : State T L) (t : T) (l : L) (o : Bool) : State T L :=
  { s with owns := update s.owns t (update (s.owns t) l o) }

@[simps] def wake (s : State T L) (l : L) : State T L :=
  { s with pc := fun u => if s.pc u = .asleep l then .acquire l else s.pc u }

end State

def acquire (s : State T L) (t : T) (l : L) (pc : Pc L) : Option (State T L) :=
  if (s.lock l).lk = none then some ((s.setLock l { s.lock l with lk := some t }).goto t pc)
  else none

def release (s : State T L) (t : T) (l : L) (pc : Pc L) : State T L :=
  (s.setLock l { s.lock l with lk := none }).goto t pc

def goStep (pid : T → Int) (s : State T L) (t : T) : Pc L → Option (State T L)
  | .user | .panicked _ | .asleep _ => none
  | .leave l => some (release s t l .user)
  | .acquire l => acquire s t l (.test l)
  | .test l =>
    some (if (s.lock l).locked then release s t l (.asleep l) else s.goto t (.setLocked l))
  | .setLocked l =>
    some (((s.setLock l { s.lock l with locked := true }).setOwns t l true).goto t (.setPid l))
  | .setPid l => some ((s.setLock l { s.lock l with pid := pid t }).goto t (.leave l))
  | .releaseAcquire l => acquire s t l (.clearLocked l)
  | .clearLocked l =>
    some (((s.setLock l { s.lock l with locked := false }).setOwns t l false).goto t
      (.clearPid l))
  | .clearPid l => some ((s.setLock l { s.lock l with pid := 0 }).goto t (.wakeup l))
  | .wakeup l => some ((s.wake l).goto t (.leave l))
  | .holdingAcquire c l => acquire s t l (.holdingTest c l)
  | .holdingTest c l =>
    some (s.goto t (.holdingLeave c l ((s.lock l).locked && (s.lock l).pid == pid t)))
  | .holdingLeave c l r => some (release s t l (c.resume l r))

def step (pid : T → Int) (s : State T L) (x : Label T L) : Option (State T L) :=
  match x.act with
  | .call c => if s.pc x.thread = .user then some (s.goto x.thread c.entry) else none
  | .go => goStep pid s x.thread (s.pc x.thread)
  | .kill => match s.pc x.thread with
    | .asleep l => some (s.goto x.thread (.acquire l))
    | _ => none

end

def init : State T L where
  lock _ := ⟨false, 0, none⟩
  pc _ := .user
  owns _ _ := false

def releases (s : State T L) (x : Label T L) : Option L :=
  match x.act, s.pc x.thread with
  | .call (.releasesleep l), _ => some l
  | .go, .holdingLeave .brelse l true => some l
  | .go, .holdingLeave .iunlock l true => some l
  | _, _ => none

/-- `releasesleep` is called only by the thread that has acquired the lock. -/
def OwnerReleases (s : State T L) (x : Label T L) : Prop :=
  ∀ l ∈ releases s x, s.owns x.thread l = true

instance (s : State T L) (x : Label T L) : Decidable (OwnerReleases s x) := by
  unfold OwnerReleases
  infer_instance

def Pc.locks : Pc L → Option L
  | .leave l | .test l | .setLocked l | .setPid l | .clearLocked l | .clearPid l | .wakeup l
  | .holdingTest _ l | .holdingLeave _ l _ => some l
  | .user | .panicked _ | .acquire _ | .asleep _ | .releaseAcquire _ | .holdingAcquire _ _ => none

def Knows (pid : T → Int) (s : State T L) (t : T) : Pc L → Prop
  | .holdingLeave _ l r => r = true ↔ (s.lock l).locked = true ∧ (s.lock l).pid = pid t
  | .setLocked l | .clearPid l => (s.lock l).locked = false
  | .setPid l | .releaseAcquire l | .clearLocked l => s.owns t l = true
  | _ => True

structure Sound (pid : T → Int) (s : State T L) : Prop where
  spin : ∀ t l, (s.pc t).locks = some l → (s.lock l).lk = some t
  locked : ∀ l, (s.lock l).locked = true ↔ ∃ t, s.owns t l = true
  unique : ∀ t u l, s.owns t l = true → s.owns u l = true → t = u
  owner : ∀ t l, s.owns t l = true → s.pc t = .setPid l ∨ (s.lock l).pid = pid t
  knows : ∀ t, Knows pid s t (s.pc t)

variable {pid : T → Int} {s s' : State T L} {t : T} {l : L}

lemma sound_init : Sound pid (init : State T L) where
  spin _ _ h := nomatch h
  locked _ := ⟨nofun, fun ⟨_, h⟩ => nomatch h⟩
  unique _ _ _ h := nomatch h
  owner _ _ h := nomatch h
  knows _ := trivial

variable {pc : Pc L}

lemma Knows.congr {u : T} (knows : Knows pid s u pc) (lock : ∀ m, pc.locks = some m →
    (s'.lock m).locked = (s.lock m).locked ∧ (s'.lock m).pid = (s.lock m).pid)
    (owns : s'.owns u = s.owns u) : Knows pid s' u pc := by
  cases pc with
  | holdingLeave _ m _ =>
    rw [Knows, (lock m rfl).1, (lock m rfl).2]
    exact knows
  | setLocked m | clearPid m =>
    rw [Knows, (lock m rfl).1]
    exact knows
  | setPid m | releaseAcquire m | clearLocked m =>
    rw [Knows, owns]
    exact knows
  | _ => trivial

section
variable (sound : Sound pid s)
include sound

lemma Sound.of_quiet (rest : ∀ u, u ≠ t → s'.pc u = s.pc u) (owns : s'.owns = s.owns)
    (data : ∀ m, (s'.lock m).locked = (s.lock m).locked ∧ (s'.lock m).pid = (s.lock m).pid)
    (lk : ∀ m, (s'.lock m).lk = (s.lock m).lk ∨ (s.lock m).lk = none ∨ (s.lock m).lk = some t)
    (spin : ∀ m, (s'.pc t).locks = some m → (s'.lock m).lk = some t)
    (here : ∀ m, s.pc t ≠ .setPid m) (knows : Knows pid s t (s'.pc t)) : Sound pid s' := by
  refine ⟨?_, ?_, ?_, ?_, ?_⟩
  · intro u m has
    by_cases mine : u = t
    · exact mine ▸ spin m (mine ▸ has)
    have held := sound.spin u m (rest u mine ▸ has)
    rcases lk m with same | free | own
    · rw [same, held]
    · exact nomatch held.symm.trans free
    exact absurd (some.inj (held.symm.trans own)) mine
  · intro m
    rw [(data m).1, owns]
    exact sound.locked m
  · rw [owns]
    exact sound.unique
  · intro u m has
    rw [(data m).2]
    rcases sound.owner u m (owns ▸ has) with pc | eq
    · have other : u ≠ t := fun mine => here m (mine ▸ pc)
      exact .inl ((rest u other).trans pc)
    exact .inr eq
  intro u
  by_cases mine : u = t
  · exact mine ▸ knows.congr (fun m _ => data m) (congrFun owns t)
  rw [rest u mine]
  exact (sound.knows u).congr (fun m _ => data m) (congrFun owns u)

/-- A step of the thread `t` that changes nothing but the lock `l` and the thread's own
entries. -/
lemma Sound.of_local (rest : ∀ u, u ≠ t → s'.pc u = s.pc u ∧ s'.owns u = s.owns u)
    (others : ∀ m, m ≠ l → s'.lock m = s.lock m ∧ s'.owns t m = s.owns t m ∧ s.pc t ≠ .setPid m)
    (alone : ∀ u, u ≠ t → (s.pc u).locks = some l → s'.lock l = s.lock l)
    (spin : ∀ m, (s'.pc t).locks = some m → (s'.lock m).lk = some t) (locked : (s'.lock l).locked =
    true ↔ ∃ u, s'.owns u l = true) (unique : s'.owns t l = true → ∀ u, s.owns u l = true → u = t)
    (owner : ∀ u, s'.owns u l = true → s'.pc u = .setPid l ∨ (s'.lock l).pid = pid u)
    (knows : Knows pid s' t (s'.pc t)) : Sound pid s' := by
  have owns : ∀ u m, m ≠ l → s'.owns u m = s.owns u m := by
    intro u m other
    by_cases mine : u = t
    · exact mine ▸ (others m other).2.1
    rw [(rest u mine).2]
  have lock : ∀ u m, u ≠ t → (s.pc u).locks = some m → s'.lock m = s.lock m := by
    intro u m other has
    by_cases same : m = l
    · exact same ▸ alone u other (same ▸ has)
    exact (others m same).1
  refine ⟨?_, ?_, ?_, ?_, ?_⟩
  · intro u m has
    by_cases mine : u = t
    · exact mine ▸ spin m (mine ▸ has)
    rw [(rest u mine).1] at has
    rw [lock u m mine has]
    exact sound.spin u m has
  · intro m
    by_cases same : m = l
    · exact same ▸ locked
    simp only [(others m same).1, owns _ m same]
    exact sound.locked m
  · intro u v m hu hv
    by_cases same : m = l
    · subst same
      by_cases mine : u = t
      · subst mine
        by_cases yours : v = u
        · exact yours.symm
        rw [(rest v yours).2] at hv
        exact (unique hu v hv).symm
      rw [(rest u mine).2] at hu
      by_cases yours : v = t
      · exact yours ▸ unique (yours ▸ hv) u hu
      rw [(rest v yours).2] at hv
      exact sound.unique u v m hu hv
    rw [owns _ m same] at hu hv
    exact sound.unique u v m hu hv
  · intro u m hu
    by_cases same : m = l
    · exact same ▸ owner u (same ▸ hu)
    rw [owns u m same] at hu
    rw [(others m same).1]
    rcases sound.owner u m hu with pc | eq
    · by_cases mine : u = t
      · exact absurd (mine ▸ pc) (others m same).2.2
      exact .inl ((rest u mine).1.trans pc)
    exact .inr eq
  intro u
  by_cases mine : u = t
  · exact mine ▸ knows
  rw [(rest u mine).1]
  exact (sound.knows u).congr
    (fun m has => by rw [lock u m mine has]; exact ⟨rfl, rfl⟩) (rest u mine).2

lemma Sound.goto [DecidableEq T] (here : ∀ m, s.pc t ≠ .setPid m) (locks : pc.locks = none ∨
    pc.locks = (s.pc t).locks) (knows : Knows pid s t pc) : Sound pid (s.goto t pc) := by
  refine sound.of_quiet (t := t) (fun u other => update_of_ne other ..) rfl
    (fun m => ⟨rfl, rfl⟩) (fun m => .inl rfl) (fun m has => ?_) here ?_
  · rw [State.goto_pc, update_self] at has
    rcases locks with none | same
    · exact nomatch has.symm.trans none
    exact sound.spin t m (same ▸ has)
  rwa [State.goto_pc, update_self]

lemma Sound.wake [DecidableEq L] (l : L) : Sound pid (s.wake l) := by
  refine ⟨fun t m has => ?_, sound.locked, sound.unique, fun t m has => ?_, fun t => ?_⟩
  · by_cases sleeps : s.pc t = .asleep l
    · rw [State.wake_pc, if_pos sleeps] at has
      exact nomatch has
    rw [State.wake_pc, if_neg sleeps] at has
    exact sound.spin t m has
  · rcases sound.owner t m has with pc | eq
    · exact .inl (by rw [State.wake_pc, if_neg (by rw [pc]; nofun), pc])
    exact .inr eq
  by_cases sleeps : s.pc t = .asleep l
  · rw [State.wake_pc, if_pos sleeps]
    trivial
  rw [State.wake_pc, if_neg sleeps]
  exact (sound.knows t).congr (fun _ _ => ⟨rfl, rfl⟩) rfl

lemma Sound.not_owned (free : (s.lock l).locked = false) (u : T) : s.owns u l ≠ true := by
  intro own
  have := (sound.locked l).mpr ⟨u, own⟩
  rw [free] at this
  exact nomatch this

lemma Sound.holdingsleep_result {c : Caller} {r : Bool} (pc : s.pc t = .holdingLeave c l r) :
    r = true ↔ ∃ h, s.owns h l = true ∧ pid h = pid t := by
  have knows := sound.knows t
  rw [pc, Knows, sound.locked l] at knows
  have owner : ∀ h, s.owns h l = true → (s.lock l).pid = pid h := by
    intro h own
    rcases sound.owner h l own with here | eq
    · have his := sound.spin h l (here ▸ rfl)
      have mine := sound.spin t l (pc ▸ rfl)
      cases his.symm.trans mine
      exact nomatch here.symm.trans pc
    exact eq
  refine knows.trans ⟨fun ⟨⟨h, own⟩, eq⟩ => ⟨h, own, (owner h own).symm.trans eq⟩, ?_⟩
  rintro ⟨h, own, eq⟩
  exact ⟨⟨h, own⟩, (owner h own).trans eq⟩

end

variable [DecidableEq T] [DecidableEq L]

lemma Sound.setLk {k : Option T} (sound : Sound pid s)
    (here : ∀ m, s.pc t ≠ .setPid m) (lk : (s.lock l).lk = none ∨ (s.lock l).lk = some t)
    (locks : ∀ m, pc.locks = some m → m = l ∧ k = some t) (knows : Knows pid s t pc) :
    Sound pid ((s.setLock l { s.lock l with lk := k }).goto t pc) := by
  refine sound.of_quiet (t := t) (fun u other => update_of_ne other ..) rfl
    (fun m => ?_) (fun m => ?_) (fun m has => ?_) here ?_
  · by_cases same : m = l
    · subst same
      simp only [State.goto_lock, State.setLock_lock, update_self, and_self]
    simp only [State.goto_lock, State.setLock_lock, update_of_ne same, and_self]
  · by_cases same : m = l
    · exact .inr (same ▸ lk)
    exact .inl (congrArg Lock.lk (update_of_ne same ..))
  · rw [State.goto_pc, update_self] at has
    obtain ⟨rfl, rfl⟩ := locks m has
    simp only [State.goto_lock, State.setLock_lock, update_self]
  rwa [State.goto_pc, update_self]

lemma Sound.acquire (sound : Sound pid s) (next : acquire s t l pc = some s') (here : ∀ m,
    s.pc t ≠ .setPid m) (locks : pc.locks = some l) (knows : Knows pid s t pc) : Sound pid s' := by
  obtain ⟨free, rfl⟩ := guarded.mp next
  exact sound.setLk here (.inl free) (fun m has => ⟨some.inj (has.symm.trans locks), rfl⟩)
    knows

lemma Sound.release (sound : Sound pid s) (here : ∀ m, s.pc t ≠ .setPid m)
    (mine : (s.pc t).locks = some l) (locks : pc.locks = none) (knows : Knows pid s t pc) :
    Sound pid (release s t l pc) :=
  sound.setLk here (.inr (sound.spin t l mine)) (fun _ has => nomatch has.symm.trans locks) knows

lemma Sound.write {x : Lock T} {o : Bool} (sound : Sound pid s) (mine : (s.pc t).locks = some l)
    (sole : ∀ u, s.owns u l = true → u = t) (lk : x.lk = (s.lock l).lk) (locks : pc.locks = some l)
    (locked : x.locked = o) (owner : o = true → pc = .setPid l ∨ x.pid = pid t)
    (knows : Knows pid ((s.setLock l x).setOwns t l o) t pc) :
    Sound pid (((s.setLock l x).setOwns t l o).goto t pc) := by
  have held := sound.spin t l mine
  have others : ∀ u, u ≠ t → s.owns u l ≠ true := fun u other has => other (sole u has)
  refine sound.of_local (t := t) (l := l) ?_ ?_ ?_ ?_ ?_ ?_ ?_ ?_
  · intro u other
    exact ⟨update_of_ne other .., update_of_ne other ..⟩
  · intro m other
    refine ⟨update_of_ne other .., ?_, fun pc => ?_⟩
    · simp only [State.goto_owns, State.setOwns_owns, State.setLock_owns, update_self,
        update_of_ne other]
    rw [pc] at mine
    exact other (some.inj mine)
  · intro u other has
    exact absurd (some.inj ((sound.spin u l has).symm.trans held)) other
  · intro m has
    rw [State.goto_pc, update_self, locks] at has
    cases has
    rw [State.goto_lock, State.setOwns_lock, State.setLock_lock, update_self, lk, held]
  · simp only [State.goto_lock, State.setOwns_lock, State.setLock_lock, State.goto_owns,
      State.setOwns_owns, update_self, locked]
    refine ⟨fun own => ⟨t, ?_⟩, fun ⟨u, own⟩ => ?_⟩
    · rwa [update_self, update_self]
    by_cases me : u = t
    · rwa [me, update_self, update_self] at own
    rw [update_of_ne me] at own
    exact absurd own (others u me)
  · exact fun _ => sole
  · intro u own
    simp only [State.goto_owns, State.setOwns_owns] at own
    by_cases me : u = t
    · subst me
      rw [update_self, update_self] at own
      simpa only [State.goto_pc, State.goto_lock, State.setOwns_lock, State.setLock_lock,
        update_self] using owner own
    rw [update_of_ne me] at own
    exact absurd own (others u me)
  rw [State.goto_pc, update_self]
  exact knows.congr (fun _ _ => ⟨rfl, rfl⟩) rfl

lemma setOwns_setLock_self (s : State T L) (t : T) (l : L) (x : Lock T) :
    (s.setLock l x).setOwns t l (s.owns t l) = s.setLock l x := by
  simp only [State.setOwns, State.setLock, update_eq_self]

lemma Sound.goStep (sound : Sound pid s) (owner : OwnerReleases s ⟨t, .go⟩)
    (next : goStep pid s t (s.pc t) = some s') : Sound pid s' := by
  have knows := sound.knows t
  generalize pc : s.pc t = pos at next
  cases pos with
  | user | panicked _ | asleep _ => exact nomatch next
  | leave l =>
    cases next
    exact sound.release (by rw [pc]; nofun) (pc ▸ rfl) rfl trivial
  | acquire l => exact sound.acquire next (by rw [pc]; nofun) rfl trivial
  | test l =>
    cases next
    split
    · exact sound.release (by rw [pc]; nofun) (pc ▸ rfl) rfl trivial
    rename_i free
    exact sound.goto (by rw [pc]; nofun) (.inr (pc ▸ rfl))
      (Bool.eq_false_of_not_eq_true free)
  | setLocked l =>
    rw [pc] at knows
    cases next
    have free := sound.not_owned knows
    refine sound.write (pc ▸ rfl) (fun u own => absurd own (free u)) rfl rfl rfl
      (fun _ => .inl rfl) ?_
    simp only [Knows, State.setOwns_owns, update_self]
  | setPid l =>
    rw [pc] at knows
    cases next
    rw [← setOwns_setLock_self s t l]
    refine sound.write (pc ▸ rfl) (fun u own => sound.unique u t l own knows) rfl rfl ?_
      (fun _ => .inr rfl) trivial
    exact ((sound.locked l).mpr ⟨t, knows⟩).trans knows.symm
  | releaseAcquire l =>
    rw [pc] at knows
    exact sound.acquire next (by rw [pc]; nofun) rfl knows
  | clearLocked l =>
    rw [pc] at knows
    cases next
    refine sound.write (pc ▸ rfl) (fun u own => sound.unique u t l own knows) rfl rfl rfl
      nofun ?_
    simp only [Knows, State.setOwns_lock, State.setLock_lock, update_self]
  | clearPid l =>
    rw [pc] at knows
    cases next
    rw [← setOwns_setLock_self s t l]
    have free := sound.not_owned knows
    exact sound.write (pc ▸ rfl) (fun u own => absurd own (free u)) rfl rfl (knows.trans
      (Bool.eq_false_of_not_eq_true (free t)).symm) (fun own => absurd own (free t)) trivial
  | wakeup l =>
    cases next
    have here : (s.wake l).pc t = .wakeup l := by rw [State.wake_pc, if_neg (by rw [pc]; nofun), pc]
    exact (sound.wake l).goto (by rw [here]; nofun) (.inr (here ▸ rfl)) trivial
  | holdingAcquire c l => exact sound.acquire next (by rw [pc]; nofun) rfl trivial
  | holdingTest c l =>
    cases next
    refine sound.goto (by rw [pc]; nofun) (.inr (pc ▸ rfl)) ?_
    simp only [Knows, Bool.and_eq_true, beq_iff_eq]
  | holdingLeave c l r =>
    cases next
    have mine : (s.pc t).locks = some l := pc ▸ rfl
    have owns : ∀ m, releases s ⟨t, .go⟩ = some m → s.owns t m = true := owner
    simp only [releases, pc] at owns
    refine sound.release (by rw [pc]; nofun) mine ?_ ?_
    · cases c <;> cases r <;> rfl
    cases c <;> cases r <;> first | trivial | exact owns l rfl

lemma Sound.step {x : Label T L} (sound : Sound pid s) (owner : OwnerReleases s x)
    (next : step pid s x = some s') : Sound pid s' := by
  obtain ⟨t, act⟩ := x
  cases act with
  | call c =>
    obtain ⟨pc, rfl⟩ := guarded.mp next
    have here : ∀ m, s.pc t ≠ .setPid m := by rw [pc]; nofun
    cases c with
    | acquiresleep l => exact sound.goto here (.inl rfl) trivial
    | releasesleep l => exact sound.goto here (.inl rfl) (owner l rfl)
    | holdingsleep c l => exact sound.goto here (.inl rfl) trivial
  | go => exact sound.goStep owner next
  | kill =>
    cases pc : s.pc t with
    | asleep l =>
      simp only [Sleeplock.step, pc] at next
      cases next
      exact sound.goto (by rw [pc]; nofun) (.inl rfl) trivial
    | _ =>
      simp only [Sleeplock.step, pc] at next
      exact nomatch next

/-- At most one thread is between `acquiresleep` and `releasesleep`, `holdingsleep` is true
exactly for the threads of that thread's process, and the checks of `bwrite`, `brelse` and
`iunlock` panic exactly for the threads of other processes. -/
theorem sleeplocks_belong_to_processes (pid : T → Int) (s : State T L) (as : List (Label T L))
    (run : Run (step pid) OwnerReleases init as s) :
    (∀ l t u, s.owns t l = true → s.owns u l = true → t = u) ∧
    (∀ t c l r, s.pc t = .holdingLeave c l r →
      (r = true ↔ ∃ h, s.owns h l = true ∧ pid h = pid t)) ∧
    ∀ t c l r s', s.pc t = .holdingLeave c l r → c ≠ .user → step pid s ⟨t, .go⟩ = some s' →
      (s'.pc t = .panicked c ↔ ∀ h, s.owns h l = true → pid h ≠ pid t) := by
  have sound : Sound pid s :=
    run.invariant (fun _ _ _ sound owner next => sound.step owner next) sound_init
  refine ⟨fun l t u => sound.unique t u l, fun t c l r => sound.holdingsleep_result, ?_⟩
  intro t c l r s' pc check next
  have result := sound.holdingsleep_result pc
  have resumed : s'.pc t = c.resume l r := by
    simp only [Sleeplock.step, pc] at next
    cases next
    exact update_self ..
  have panics : s'.pc t = .panicked c ↔ r = false := by
    rw [resumed]
    cases c <;> cases r <;> simp [Caller.resume] at check ⊢
  rw [panics, ← Bool.not_eq_true, result]
  simp only [not_exists, not_and, ne_eq]

def acquired : List (Label (Fin 2) Unit) :=
  [⟨0, .call (.acquiresleep ())⟩, ⟨0, .go⟩, ⟨0, .go⟩, ⟨0, .go⟩, ⟨0, .go⟩, ⟨0, .go⟩]

def asked (c : Caller) : List (Label (Fin 2) Unit) :=
  acquired ++ [⟨1, .call (.holdingsleep c ())⟩, ⟨1, .go⟩, ⟨1, .go⟩]

def apart (t : Fin 2) : Int := t.val + 1

theorem other_process_rejected :
    ∃ s : State (Fin 2) Unit, Run (step apart) OwnerReleases init (asked .bwrite) s ∧
      s.owns 0 () = true ∧ s.pc 1 = .holdingLeave .bwrite () false ∧
      ¬ ∃ h, s.owns h () = true ∧ apart h = apart 1 := by
  refine Run.exists_with (P := fun s => s.owns 0 () = true ∧
      s.pc 1 = .holdingLeave .bwrite () false)
    (by decide +kernel) fun s run ⟨owns, pc⟩ => ?_
  have main := sleeplocks_belong_to_processes apart s (asked .bwrite) run
  exact ⟨owns, pc, fun own => nomatch (main.2.1 1 .bwrite () false pc).mpr own⟩

/-- `holdingsleep` is true for a sibling of the thread that has the lock, and `bwrite` lets it
pass. -/
theorem sibling_passes_for_owner :
    (∃ s : State (Fin 2) Unit, Run (step fun _ => 1) OwnerReleases init (asked .user) s ∧
      s.owns 0 () = true ∧ s.owns 1 () = false ∧ s.pc 1 = .holdingLeave .user () true) ∧
    ∃ s : State (Fin 2) Unit,
      Run (step fun _ => 1) OwnerReleases init (asked .bwrite ++ [⟨1, .go⟩]) s ∧
        s.owns 0 () = true ∧ s.owns 1 () = false ∧ s.pc 1 = .user :=
  ⟨Run.exists_of_execute (by decide +kernel), Run.exists_of_execute (by decide +kernel)⟩

end Xv6.Sleeplock
