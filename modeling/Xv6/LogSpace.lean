import Xv6.Log
import Mathlib.Algebra.Order.BigOperators.Group.Finset

/-! The space that `begin_op` reserves in the log, against the size of the log region that `mkfs`
writes into the superblock. -/
namespace Xv6.Log
open Interleaving Option Finset
open Function (update update_of_ne update_self)

structure Superblock where
  nlog : Nat
  logstart : Nat

def mkfsSuperblock : Superblock := ⟨LOGSIZE, 2⟩

/-- Every operation calls `log_write` on at most `k` distinct blocks. -/
def Within {α : Type} (k : Nat) (s : State α) : Label α → Prop
  | .call t (.logWrite b) => (List.insert b (s.logged t)).length ≤ k
  | _ => True

instance {α : Type} (k : Nat) (s : State α) (a : Label α) : Decidable (Within k s a) := by
  unfold Within
  split <;> infer_instance

variable {α : Type} {s s' : State α} {t : Tid} {a : Label α} {as : List (Label α)} {b k : Nat}

/-- No transaction is too big, and `write_log` stays inside the log region. -/
structure Fits (sb : Superblock) (s : State α) : Prop where
  panic : s.panicked ≠ some .tooBigATransaction
  inside : ∀ t o tail, s.pc t = .writeLog o tail → tail < s.lh.length →
    sb.logstart + tail + 1 < sb.logstart + sb.nlog

/-- What remains of the reservation of a thread whose operation logs one block less than
`MAXOPBLOCKS`. -/
def left (s : State α) (t : Tid) : Nat := MAXOPBLOCKS - 1 - (s.logged t).length

/-- The log and what is left of the reservations fit below the two places at which `log_write`
refuses. -/
structure Room (s : State α) : Prop where
  booting : s.boot ≠ .up → s.outstanding = 0 ∧ ∀ t, s.pc t = .outside
  idle : s.boot = .up → s.outstanding = 0 → s.committing = false → s.lh = []
  finished : ∀ t o, s.pc t = .finish o → s.lh = []
  own : ∀ t, (s.pc t).inOp = true → ∀ b ∈ s.logged t, b ∈ s.lh
  room : s.boot = .up → ∀ ts : Finset Tid, (∀ t, t ∈ ts ↔ (s.pc t).inOp = true) →
    s.lh.length + ∑ t ∈ ts, left s t ≤ LOGSIZE - 2

lemma Room.of_down (down : s.boot ≠ .up) (out : s.outstanding = 0) (pc : ∀ t, s.pc t = .outside) :
    Room s := by
  refine ⟨fun _ => ⟨out, pc⟩, fun up => absurd up down, fun t o here => ?_, fun t op => ?_,
    fun up => absurd up down⟩
  · rw [pc t] at here
    cases here
  rw [pc t] at op
  cases op

lemma room_init (home slot : Nat → α) : Room (init home slot) :=
  .of_down Boot.noConfusion rfl fun _ => rfl

lemma room_crash (s : State α) : Room s.crash := .of_down Boot.noConfusion rfl fun _ => rfl

lemma sum_left_congr {ts : Finset Tid} (same : ∀ u, u ≠ t → left s' u = left s u) :
    ∑ u ∈ ts.erase t, left s' u = ∑ u ∈ ts.erase t, left s u :=
  sum_congr rfl fun u mem => same u (ne_of_mem_erase mem)

namespace Room
lemma of_eq (h : Room s) (boot : s'.boot = s.boot) (out : s'.outstanding = s.outstanding)
    (commit : s'.committing = s.committing) (pc : s'.pc = s.pc) (lh : s'.lh = s.lh)
    (logged : s'.logged = s.logged) : Room s' := by
  have same : left s' = left s := by
    funext t
    rw [left, left, logged]
  refine ⟨?_, ?_, ?_, ?_, ?_⟩
  · rw [boot, out, pc]
    exact h.booting
  · rw [boot, out, commit, lh]
    exact h.idle
  · rw [pc, lh]
    exact h.finished
  · rw [pc, lh, logged]
    exact h.own
  rw [boot, pc, lh, same]
  exact h.room

section
variable (h : Room s) (control : Control s) (up : s.boot = .up)
include h control up

lemma of_commit (now : (s.pc t).inCommit = true) {p : Pc} (boot : s'.boot = s.boot)
    (pc : s'.pc = update s.pc t p) (ended : p.inOp = false) (lh : s'.lh.length ≤ s.lh.length)
    (finish : (∃ o, p = .finish o) → s'.lh = []) (idle : s'.committing = false → s'.lh = []) :
    Room s' := by
  have none : ∀ u, (s'.pc u).inOp = false := by
    intro u
    rw [pc]
    by_cases same : u = t
    · rw [same, update_self, ended]
    rw [update_of_ne same]
    exact control.not_inOp now u
  refine ⟨fun down => absurd (boot.trans up) down, fun _ _ => idle, fun u o here => ?_,
    fun u op => ?_, fun _ ts mem => ?_⟩
  · rw [pc] at here
    by_cases same : u = t
    · rw [same, update_self] at here
      exact finish ⟨o, here⟩
    rw [update_of_ne same] at here
    exact absurd (control.unique u t (here ▸ rfl) now) same
  · cases op.symm.trans (none u)
  have empty : ts = ∅ := eq_empty_iff_forall_notMem.mpr fun u is => by
    cases ((mem u).mp is).symm.trans (none u)
  have before := h.room up ∅ fun u => by simp [control.not_inOp now u]
  rw [empty]
  simp only [sum_empty] at before ⊢
  omega

lemma beginOp (next : Log.beginOp s t = some s') : Room s' := by
  obtain ⟨⟨out, idle, room⟩, rfl⟩ := guarded.mp next
  obtain ⟨ts₀, mem₀, card⟩ := control.ops
  refine ⟨fun down => absurd up down, fun _ zero => absurd zero (Nat.succ_ne_zero _),
    fun u o here => ?_, fun u op b mem => ?_, fun _ ts mem => ?_⟩
  · by_cases same : u = t
    · rw [same] at here
      simp at here
    simp only [update_of_ne same] at here
    exact h.finished u o here
  · by_cases same : u = t
    · subst same
      simp at mem
    simp only [update_of_ne same] at op mem
    exact h.own u op b mem
  -- a new reservation is made only while there is space for all of them
  have here : t ∈ ts := (mem t).mpr (by simp [Pc.inOp])
  have rest : ts.erase t = ts₀ := by
    ext u
    rw [mem_erase, mem, mem₀]
    by_cases same : u = t
    · simp [same, out, Pc.inOp]
    simp [same]
  have mine : left { s with
      outstanding := s.outstanding + 1
      pc := update s.pc t (.op s.nextOp)
      nextOp := s.nextOp + 1
      logged := update s.logged t [] } t = MAXOPBLOCKS - 1 := by simp [left]
  have others : ∑ u ∈ ts₀, left s u ≤ ts₀.card * (MAXOPBLOCKS - 1) :=
    sum_le_card_nsmul _ _ _ fun u _ => Nat.sub_le _ _
  rw [← add_sum_erase ts _ here, mine, sum_left_congr (s := s) fun u ne => by
    simp [left, update_of_ne ne], rest]
  rw [card] at others
  simp only [MAXOPBLOCKS, LOGSIZE] at others room ⊢
  by_cases first : s.outstanding = 0
  · have empty := h.idle up first idle
    simp only [empty, List.length_nil, first] at *
    omega
  omega

lemma record {o : Nat} (now : (s.pc t).inOp = true)
    (few : (List.insert b (s.logged t)).length < MAXOPBLOCKS) : Room (s.record t o b) := by
  refine ⟨h.booting, fun _ zero idle => ?_, fun u p here => ?_, fun u op c mem => ?_,
    fun _ ts mem => ?_⟩
  · obtain ⟨ts, mem, card⟩ := control.ops
    have some := card_pos.mpr ⟨t, (mem t).mpr now⟩
    change s.outstanding = 0 at zero
    omega
  · have commits : (s.pc u).inCommit = true := by
      change s.pc u = _ at here
      rw [here]
      rfl
    cases commits.symm.trans (control.not_inCommit now u)
  · by_cases same : u = t
    · subst same
      change c ∈ update s.logged u (List.insert b (s.logged u)) u at mem
      rw [update_self, List.mem_insert_iff] at mem
      rw [mem_record_lh]
      exact mem.symm.imp_left (h.own u now c)
    change c ∈ update s.logged t (List.insert b (s.logged t)) u at mem
    rw [update_of_ne same] at mem
    exact (mem_record_lh ..).mpr (.inl (h.own u op c mem))
  have before := h.room up ts mem
  have here : t ∈ ts := (mem t).mpr now
  have mine : left (s.record t o b) t =
      MAXOPBLOCKS - 1 - (List.insert b (s.logged t)).length := by simp [left, State.record]
  rw [← add_sum_erase ts _ here] at before
  rw [← add_sum_erase ts _ here, mine, sum_left_congr (s := s) fun u ne => by
    simp [left, State.record, update_of_ne ne]]
  change (if b ∈ s.lh then s.lh else s.lh ++ [b]).length + _ ≤ _
  by_cases old : b ∈ s.logged t
  · rw [if_pos (h.own t now b old), List.insert_of_mem old]
    exact before
  rw [List.insert_of_not_mem old, List.length_cons] at few ⊢
  have longer : (if b ∈ s.lh then s.lh else s.lh ++ [b]).length ≤ s.lh.length + 1 := by
    split_ifs
    · omega
    simp
  simp only [left, MAXOPBLOCKS, LOGSIZE] at before few ⊢
  omega

end

lemma of_endOp (h : Room s) (up : s.boot = .up) (now : (s.pc t).inOp = true) {p : Pc}
    (boot : s'.boot = s.boot) (pc : s'.pc = update s.pc t p) (ended : p.inOp = false)
    (lh : s'.lh = s.lh) (logged : s'.logged = s.logged) (finish : (∃ o, p = .finish o) → s.lh = [])
    (busy : s'.outstanding = 0 → s'.committing = false → False) : Room s' := by
  have same : left s' = left s := by
    funext u
    rw [left, left, logged]
  refine ⟨fun down => absurd (boot.trans up) down, fun _ zero idle => (busy zero idle).elim,
    fun u o here => ?_, fun u op b mem => ?_, fun _ ts mem => ?_⟩
  · rw [pc] at here
    rw [lh]
    by_cases same : u = t
    · rw [same, update_self] at here
      exact finish ⟨o, here⟩
    rw [update_of_ne same] at here
    exact h.finished u o here
  · rw [pc] at op
    rw [logged] at mem
    rw [lh]
    by_cases same : u = t
    · rw [same, update_self, ended] at op
      cases op
    rw [update_of_ne same] at op
    exact h.own u op b mem
  have before := h.room up (insert t ts) fun u => by
    rw [mem_insert, mem, pc]
    by_cases same : u = t
    · simp [same, now]
    simp [same]
  have fresh : t ∉ ts := fun is => by
    have := (mem t).mp is
    rw [pc, update_self, ended] at this
    cases this
  rw [sum_insert fresh] at before
  rw [lh, same]
  omega

lemma commit (h : Room s) (control : Control s) (up : s.boot = .up) (next : CommitStep s t s') :
    Room s' := by
  have idle : (s.pc t).inCommit = true → s.committing = false → s.lh = [] := fun now no => by
    cases (control.alone t now).1.symm.trans no
  cases next with
  | copy here | copied here | head here | installed here | install here =>
    have now : (s.pc t).inCommit = true := here ▸ rfl
    exact h.of_commit control up now rfl rfl rfl le_rfl (fun ⟨o, h⟩ => by cases h) (idle now)
  | clear here =>
    exact h.of_commit control up (here ▸ rfl) rfl rfl rfl (Nat.zero_le _) (fun _ => rfl)
      fun _ => rfl
  | finish here =>
    exact h.of_commit control up (here ▸ rfl) rfl rfl rfl le_rfl
      (fun ⟨o, h⟩ => by cases h) fun _ => h.finished t _ here

lemma recover (h : Room s) (next : RecoverStep s s') : Room s' := by
  have down : s.boot ≠ .up := by
    cases next with
    | readHead here | install here | installed here | clear here =>
      rw [here]
      exact Boot.noConfusion
  obtain ⟨out, pc⟩ := h.booting down
  cases next with
  | readHead | install | installed => exact .of_down Boot.noConfusion out pc
  | clear =>
    refine ⟨fun down => absurd rfl down, fun _ _ _ => rfl, fun _ _ _ => rfl, fun t op => ?_,
      fun _ ts mem => ?_⟩
    · change (s.pc t).inOp = true at op
      rw [pc t] at op
      cases op
    have empty : ts = ∅ := eq_empty_iff_forall_notMem.mpr fun u is => by
      have op : (s.pc u).inOp = true := (mem u).mp is
      rw [pc u] at op
      cases op
    rw [empty]
    exact Nat.zero_le _

lemma length_le (h : Room s) (control : Control s) (up : s.boot = .up) :
    s.lh.length ≤ LOGSIZE - 2 := by
  obtain ⟨ts, mem, -⟩ := control.ops
  have room := h.room up ts mem
  omega

lemma step (h : Room s) (control : Control s) (alive : s.panicked = none) (few : k < MAXOPBLOCKS)
    (within : Within k s a) (next : Log.step mkfsSuperblock.nlog s a = some s') :
    s'.panicked = none ∧ Room s' := by
  cases a with
  | crash =>
    cases next
    exact ⟨rfl, room_crash s⟩
  | recover =>
    have steps := recoverStep_of_recover next
    refine ⟨?_, h.recover steps⟩
    cases steps with
    | readHead | install | installed | clear => exact alive
  | evict b =>
    obtain ⟨-, next⟩ := ite_none_right_eq_some.mp next
    obtain ⟨-, rfl⟩ := guarded.mp next
    exact ⟨alive, h.of_eq rfl rfl rfl rfl rfl rfl⟩
  | call t c =>
    obtain ⟨⟨up, -⟩, next⟩ := ite_none_right_eq_some.mp next
    cases c with
    | beginOp =>
      refine ⟨?_, h.beginOp control up next⟩
      obtain ⟨-, rfl⟩ := guarded.mp next
      exact alive
    | bread b =>
      obtain ⟨-, rfl⟩ := guarded.mp next
      exact ⟨alive, h.of_eq rfl rfl rfl rfl rfl rfl⟩
    | modify b d =>
      obtain ⟨o, -, -, rfl⟩ := modify_cases next
      exact ⟨alive, h.of_eq rfl rfl rfl rfl rfl rfl⟩
    | brelse b =>
      obtain ⟨-, rfl⟩ := guarded.mp next
      exact ⟨alive, h.of_eq rfl rfl rfl rfl rfl rfl⟩
    | commit =>
      have steps := commitStep_of_commit next
      refine ⟨?_, h.commit control up steps⟩
      cases steps with
      | copy | copied | head | install | installed | clear | finish => exact alive
    | logWrite b =>
      obtain ⟨o, here, -, ⟨full, -⟩ | rfl⟩ := logWrite_cases next
      · have short := h.length_le control up
        have busy := control.outstanding_pos (t := t) (here ▸ rfl)
        simp only [mkfsSuperblock, LOGSIZE, MAXOPBLOCKS] at short full
        omega
      exact ⟨alive, h.record control up (here ▸ rfl) (lt_of_le_of_lt within few)⟩
    | endOp =>
      obtain ⟨o, here, -, ⟨busy, -⟩ | ⟨-, ⟨-, rfl⟩ | ⟨more, rfl⟩⟩⟩ := endOp_cases next
      · cases busy.symm.trans (control.not_committing (t := t) (here ▸ rfl))
      · refine ⟨alive, h.of_endOp up (here ▸ rfl) rfl rfl ?_ rfl rfl ?_ nofun⟩
        · split_ifs
          · rfl
          rfl
        rintro ⟨p, finish⟩
        by_contra some
        rw [if_neg some] at finish
        cases finish
      exact ⟨alive, h.of_endOp up (here ▸ rfl) rfl rfl rfl rfl rfl
        (fun ⟨o, h⟩ => by cases h) fun zero => absurd zero more⟩

end Room

lemma fits_of_within {home slot : Nat → α} (few : k < MAXOPBLOCKS) (run :
    Run (step mkfsSuperblock.nlog) (Within k) (init home slot) as s) : Fits mkfsSuperblock s := by
  obtain ⟨alive, control, room⟩ : s.panicked = none ∧ Control s ∧ Room s := by
    refine run.invariant (I := fun s => s.panicked = none ∧ Control s ∧ Room s) ?_
      ⟨rfl, control_crash (init home slot), room_init home slot⟩
    rintro s a s' ⟨alive, control, room⟩ within next
    obtain ⟨alive', room'⟩ := room.step control alive few within next
    exact ⟨alive', Control.step (fun _ => control) next alive', room'⟩
  refine ⟨by rw [alive]; exact (some_ne_none _).symm, fun t o tail here inside => ?_⟩
  have up : s.boot = .up := by
    by_contra down
    cases here.symm.trans ((room.booting down).2 t)
  have short := room.length_le control up
  simp only [mkfsSuperblock, LOGSIZE, MAXOPBLOCKS] at short ⊢
  omega

/-- The schedule of a first boot and of three operations that log ten blocks each. -/
def threeFullOperations : List (Label (List UInt8)) :=
  [.recover, .recover, .recover, .call 0 .beginOp, .call 1 .beginOp, .call 2 .beginOp] ++
    (List.range 3).flatMap fun t => (List.range MAXOPBLOCKS).flatMap fun i =>
      [.call t (.bread (45 + MAXOPBLOCKS * t + i)), .call t (.logWrite (45 + MAXOPBLOCKS * t + i))]

lemma three_full_operations_overflow : ∃ s, Run (step mkfsSuperblock.nlog) (Within MAXOPBLOCKS)
    (init (fun _ => []) fun _ => []) threeFullOperations s ∧ s.outstanding = 3 ∧
    s.panicked = some .tooBigATransaction := Run.exists_of_execute (by decide +kernel)

/-- The reservations suffice exactly for operations that log fewer than `MAXOPBLOCKS` distinct
blocks: the region of `LOGSIZE` blocks includes the header. -/
theorem reservations_suffice_iff (k : Nat) :
    (∀ (home slot : Nat → List UInt8) as s,
      Run (step mkfsSuperblock.nlog) (Within k) (init home slot) as s → Fits mkfsSuperblock s) ↔
    k < MAXOPBLOCKS := by
  constructor
  · intro always
    by_contra many
    obtain ⟨s, run, -, panic⟩ := three_full_operations_overflow
    refine (always _ _ _ s (run.mono fun s a within => ?_)).panic panic
    unfold Within at within ⊢
    split
    · exact within.trans (not_lt.mp many)
    · trivial
  intro few home slot as s run
  exact fits_of_within few run

/-- Three operations of `MAXOPBLOCKS` distinct blocks each, all admitted by `begin_op`: the last
block finds the log full. -/
theorem admitted_operations_overflow_log :
    ∃ s, Run (step mkfsSuperblock.nlog) (Within MAXOPBLOCKS) (init (fun _ => []) fun _ => [])
      threeFullOperations s ∧ s.outstanding = 3 ∧ ¬ Fits mkfsSuperblock s := by
  obtain ⟨s, run, three, panic⟩ := three_full_operations_overflow
  exact ⟨s, run, three, fun fits => fits.panic panic⟩

end Xv6.Log
