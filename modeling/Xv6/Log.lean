import Xv6.Interleaving
import Xv6.RedoLog
import Mathlib.Data.Finset.Card

/-! The log of `kernel/log.c`, with the part of the buffer cache that it uses. A step is a section
under `log.lock`, an access to a locked buffer, or one disk write. The log region of the disk is
disjoint from the home blocks: a header, whose list of block numbers has the length `n`, and one
slot for each of them. Buffers of the log region are written as soon as they are changed, so only
those of home blocks are kept in the cache here. -/
namespace Xv6.Log
open Interleaving RedoLog Option Finset Log
open Function (update update_of_ne update_self)

def MAXOPBLOCKS : Nat := 10
def LOGSIZE : Nat := MAXOPBLOCKS * 3

abbrev Tid := Nat

/-- Where a thread is in `begin_op`, `end_op` and `commit`; `o` numbers its operation. -/
inductive Pc where
  | outside
  | op (o : Nat)
  | writeLog (o tail : Nat)
  | writeHead (o : Nat)
  | installTrans (o tail : Nat)
  | clear (o : Nat)
  | finish (o : Nat)
  deriving DecidableEq, Repr

inductive Boot where
  | readHead
  | installTrans (tail : Nat)
  | clear
  | up
  deriving DecidableEq, Repr

inductive Panic where
  | tooBigATransaction
  | logWriteOutsideOfTrans
  | logCommitting
  deriving DecidableEq, Repr

/-- The blocks `dirty t` were changed by the thread `t` since their last `log_write`. The last six
fields are not in the program: the number of the next operation, the blocks that the operation of
a thread has logged, the logged writes with those that wait for a commit and the groups that were
committed, and the operations that have returned from a commit. -/
structure State (α : Type) where
  disk : Disk Nat α
  boot : Boot
  lh : List Nat
  outstanding : Nat
  committing : Bool
  cache : Nat → Option α
  pins : Nat → Nat
  held : Nat → Option Tid
  dirty : Tid → List Nat
  pc : Tid → Pc
  panicked : Option Panic
  nextOp : Nat
  logged : Tid → List Nat
  all : List (Write Nat Nat α)
  pending : List (Write Nat Nat α)
  groups : List (List (Write Nat Nat α))
  returned : List Nat

variable {α : Type}

/-- What is left after a loss of power: the disk. -/
def State.crash (s : State α) : State α :=
  { s with
    boot := .readHead
    lh := []
    outstanding := 0
    committing := false
    cache := fun _ => none
    pins := fun _ => 0
    held := fun _ => none
    dirty := fun _ => []
    pc := fun _ => .outside
    panicked := none
    logged := fun _ => []
    pending := [] }

def init (home slot : Nat → α) : State α where
  disk := ⟨[], slot, home⟩
  boot := .readHead
  lh := []
  outstanding := 0
  committing := false
  cache _ := none
  pins _ := 0
  held _ := none
  dirty _ := []
  pc _ := .outside
  panicked := none
  nextOp := 0
  logged _ := []
  all := []
  pending := []
  groups := []
  returned := []

def State.read (s : State α) (b : Nat) : α := (s.cache b).getD (s.disk.home b)

/-- `begin_op`, when it does not have to wait. -/
def beginOp (s : State α) (t : Tid) : Option (State α) :=
  if s.pc t = .outside ∧ s.committing = false ∧
      s.lh.length + (s.outstanding + 1) * MAXOPBLOCKS ≤ LOGSIZE then
    some { s with
      outstanding := s.outstanding + 1
      pc := update s.pc t (.op s.nextOp)
      nextOp := s.nextOp + 1
      logged := update s.logged t [] }
  else none

def bread (s : State α) (t : Tid) (b : Nat) : Option (State α) :=
  if s.held b = none then
    some { s with
      held := update s.held b (some t)
      cache := update s.cache b (some (s.read b)) }
  else none

def modify (s : State α) (t : Tid) (b : Nat) (d : α) : Option (State α) :=
  match s.pc t with
  | .op _ =>
    if s.held b = some t then
      some { s with
        cache := update s.cache b (some d)
        dirty := update s.dirty t (b :: s.dirty t) }
    else none
  | _ => none

/-- The effect of `log_write`: a block that is not in the header yet is added and pinned. -/
def State.record (s : State α) (t : Tid) (o b : Nat) : State α :=
  { s with
    lh := if b ∈ s.lh then s.lh else s.lh ++ [b]
    pins := if b ∈ s.lh then s.pins else update s.pins b (s.pins b + 1)
    dirty := update s.dirty t ((s.dirty t).filter (· ≠ b))
    logged := update s.logged t (List.insert b (s.logged t))
    all := s.all ++ [⟨o, b, s.read b⟩]
    pending := s.pending ++ [⟨o, b, s.read b⟩] }

def logWrite (size : Nat) (s : State α) (t : Tid) (b : Nat) : Option (State α) :=
  match s.pc t with
  | .op o =>
    if s.held b = some t then
      if s.lh.length ≥ LOGSIZE ∨ s.lh.length ≥ size - 1 then
        some { s with panicked := some .tooBigATransaction }
      else if s.outstanding < 1 then
        some { s with panicked := some .logWriteOutsideOfTrans }
      else some (s.record t o b)
    else none
  | _ => none

/-- `brelse` of a buffer whose last change was followed by `log_write`. -/
def brelse (s : State α) (t : Tid) (b : Nat) : Option (State α) :=
  if s.held b = some t ∧ b ∉ s.dirty t then
    some { s with held := update s.held b none }
  else none

def State.leave (s : State α) (t : Tid) : State α :=
  { s with outstanding := s.outstanding - 1, pc := update s.pc t .outside }

/-- `end_op` of the last outstanding operation, which commits. There is nothing to do for an empty
log. -/
def State.startCommit (s : State α) (t : Tid) (o : Nat) : State α :=
  { s with
    outstanding := s.outstanding - 1
    committing := true
    pc := update s.pc t (if s.lh = [] then .finish o else .writeLog o 0) }

/-- `end_op` up to its first `release`, when every change was followed by `log_write`. -/
def endOp (s : State α) (t : Tid) : Option (State α) :=
  match s.pc t with
  | .op o =>
    if s.dirty t = [] then
      if s.committing then
        some { s with outstanding := s.outstanding - 1, panicked := some .logCommitting }
      else if s.outstanding - 1 = 0 then some (s.startCommit t o)
      else some (s.leave t)
    else none
  | _ => none

/-- One pass of the loop of `install_trans`: the home block is written from its slot. -/
def State.install (s : State α) (tail b : Nat) : State α :=
  { s with
    disk := { s.disk with home := update s.disk.home b (s.disk.slot tail) }
    cache := update s.cache b (some (s.disk.slot tail)) }

/-- The next step of `commit` and of the end of `end_op`. A pass of a loop waits for a buffer that
somebody holds. -/
def commit (s : State α) (t : Tid) : Option (State α) :=
  match s.pc t with
  | .writeLog o tail =>
    match s.lh[tail]? with
    | some b =>
      if s.held b = none then
        some { s with
          disk := { s.disk with slot := update s.disk.slot tail (s.read b) }
          pc := update s.pc t (.writeLog o (tail + 1)) }
      else none
    | none => some { s with pc := update s.pc t (.writeHead o) }
  | .writeHead o =>
    some { s with
      disk := { s.disk with header := s.lh }
      pc := update s.pc t (.installTrans o 0)
      pending := []
      groups := s.groups ++ [s.pending] }
  | .installTrans o tail =>
    match s.lh[tail]? with
    | some b =>
      if s.held b = none then
        some { s.install tail b with
          pins := update s.pins b (s.pins b - 1)
          pc := update s.pc t (.installTrans o (tail + 1)) }
      else none
    | none => some { s with pc := update s.pc t (.clear o) }
  | .clear o =>
    some { s with
      lh := []
      disk := { s.disk with header := [] }
      pc := update s.pc t (.finish o) }
  | .finish o =>
    some { s with
      committing := false
      pc := update s.pc t .outside
      returned := o :: s.returned }
  | _ => none

def recover (s : State α) : Option (State α) :=
  match s.boot with
  | .readHead => some { s with lh := s.disk.header, boot := .installTrans 0 }
  | .installTrans tail =>
    match s.lh[tail]? with
    | some b => some { s.install tail b with boot := .installTrans (tail + 1) }
    | none => some { s with boot := .clear }
  | .clear => some { s with lh := [], disk := { s.disk with header := [] }, boot := .up }
  | .up => none

/-- A buffer without references is reused for another block. -/
def evict (s : State α) (b : Nat) : Option (State α) :=
  if s.pins b = 0 ∧ s.held b = none then
    some { s with cache := update s.cache b none }
  else none

inductive Call (α : Type) where
  | beginOp
  | bread (b : Nat)
  | modify (b : Nat) (d : α)
  | logWrite (b : Nat)
  | brelse (b : Nat)
  | endOp
  | commit

inductive Label (α : Type) where
  | call (t : Tid) (c : Call α)
  | evict (b : Nat)
  | recover
  | crash

def call (size : Nat) (s : State α) (t : Tid) : Call α → Option (State α)
  | .beginOp => beginOp s t
  | .bread b => bread s t b
  | .modify b d => modify s t b d
  | .logWrite b => logWrite size s t b
  | .brelse b => brelse s t b
  | .endOp => endOp s t
  | .commit => commit s t

/-- The kernel does not run before recovery is complete nor after a panic. A crash can happen at
any time. -/
def step (size : Nat) (s : State α) : Label α → Option (State α)
  | .call t c => if s.boot = .up ∧ s.panicked = none then call size s t c else none
  | .evict b => if s.boot = .up ∧ s.panicked = none then evict s b else none
  | .recover => recover s
  | .crash => some s.crash

/-- A panic stops the kernel with its memory as it is. -/
def State.Panics (s s' : State α) : Prop :=
  ∃ n p, s' = { s with outstanding := n, panicked := some p }

lemma State.Panics.panicked {s s' : State α} (h : s.Panics s') : s'.panicked ≠ none := by
  obtain ⟨n, p, rfl⟩ := h
  exact some_ne_none p

lemma mem_record_lh (s : State α) (t : Tid) (o b c : Nat) :
    c ∈ (s.record t o b).lh ↔ c ∈ s.lh ∨ c = b := by
  change (c ∈ if b ∈ s.lh then s.lh else s.lh ++ [b]) ↔ _
  split_ifs with old
  · refine ⟨.inl, ?_⟩
    rintro (mem | rfl)
    · exact mem
    exact old
  simp

section
variable {s s' : State α} {t : Tid} {b size : Nat}

lemma modify_cases {d : α} (next : modify s t b d = some s') :
    ∃ o, s.pc t = .op o ∧ s.held b = some t ∧
      s' = { s with
        cache := update s.cache b (some d)
        dirty := update s.dirty t (b :: s.dirty t) } := by
  unfold modify at next
  split at next
  case h_2 => cases next
  case h_1 o here =>
    obtain ⟨mine, rfl⟩ := guarded.mp next
    exact ⟨o, here, mine, rfl⟩

lemma logWrite_cases (next : logWrite size s t b = some s') : ∃ o, s.pc t = .op o ∧
    s.held b = some t ∧ ((LOGSIZE ≤ s.lh.length ∨ size - 1 ≤ s.lh.length ∨ s.outstanding = 0) ∧
    s.Panics s' ∨ s' = s.record t o b) := by
  unfold logWrite at next
  split at next
  case h_2 => cases next
  case h_1 o here =>
    obtain ⟨mine, next⟩ := ite_none_right_eq_some.mp next
    refine ⟨o, here, mine, ?_⟩
    split_ifs at next with full stray
    · cases next
      exact .inl ⟨full.imp_right .inl, _, _, rfl⟩
    · cases next
      exact .inl ⟨.inr (.inr (Nat.lt_one_iff.mp stray)), _, _, rfl⟩
    cases next
    exact .inr rfl

lemma endOp_cases (next : endOp s t = some s') : ∃ o, s.pc t = .op o ∧
    s.dirty t = [] ∧ (s.committing = true ∧ s.Panics s' ∨ s.committing = false ∧
    (s.outstanding - 1 = 0 ∧ s' = s.startCommit t o ∨ s.outstanding - 1 ≠ 0 ∧ s' = s.leave t)) := by
  unfold endOp at next
  split at next
  case h_2 => cases next
  case h_1 o here =>
    obtain ⟨clean, next⟩ := ite_none_right_eq_some.mp next
    refine ⟨o, here, clean, ?_⟩
    split_ifs at next with busy last
    · cases next
      exact .inl ⟨busy, _, _, rfl⟩
    · cases next
      exact .inr ⟨Bool.eq_false_iff.mpr busy, .inl ⟨last, rfl⟩⟩
    cases next
    exact .inr ⟨Bool.eq_false_iff.mpr busy, .inr ⟨last, rfl⟩⟩

inductive CommitStep (s : State α) (t : Tid) : State α → Prop
  | copy {o tail b : Nat} (here : s.pc t = .writeLog o tail) (block : s.lh[tail]? = some b) :
      CommitStep s t { s with
        disk := { s.disk with slot := update s.disk.slot tail (s.read b) }
        pc := update s.pc t (.writeLog o (tail + 1)) }
  | copied {o tail : Nat} (here : s.pc t = .writeLog o tail) (ended : s.lh[tail]? = none) :
      CommitStep s t { s with pc := update s.pc t (.writeHead o) }
  | head {o : Nat} (here : s.pc t = .writeHead o) :
      CommitStep s t { s with
        disk := { s.disk with header := s.lh }
        pc := update s.pc t (.installTrans o 0)
        pending := []
        groups := s.groups ++ [s.pending] }
  | install {o tail b : Nat} (here : s.pc t = .installTrans o tail)
      (block : s.lh[tail]? = some b) :
      CommitStep s t { s.install tail b with
        pins := update s.pins b (s.pins b - 1)
        pc := update s.pc t (.installTrans o (tail + 1)) }
  | installed {o tail : Nat} (here : s.pc t = .installTrans o tail) (ended : s.lh[tail]? = none) :
      CommitStep s t { s with pc := update s.pc t (.clear o) }
  | clear {o : Nat} (here : s.pc t = .clear o) :
      CommitStep s t { s with
        lh := []
        disk := { s.disk with header := [] }
        pc := update s.pc t (.finish o) }
  | finish {o : Nat} (here : s.pc t = .finish o) :
      CommitStep s t { s with
        committing := false
        pc := update s.pc t .outside
        returned := o :: s.returned }

lemma commitStep_of_commit (next : commit s t = some s') : CommitStep s t s' := by
  unfold commit at next
  split at next
  case h_1 o tail here =>
    split at next
    · obtain ⟨-, rfl⟩ := guarded.mp next
      exact .copy here (by assumption)
    cases next
    exact .copied here (by assumption)
  case h_2 o here =>
    cases next
    exact .head here
  case h_3 o tail here =>
    split at next
    · obtain ⟨-, rfl⟩ := guarded.mp next
      exact .install here (by assumption)
    cases next
    exact .installed here (by assumption)
  case h_4 o here =>
    cases next
    exact .clear here
  case h_5 o here =>
    cases next
    exact .finish here
  case h_6 => cases next

inductive RecoverStep (s : State α) : State α → Prop
  | readHead (here : s.boot = .readHead) :
      RecoverStep s { s with lh := s.disk.header, boot := .installTrans 0 }
  | install {tail b : Nat} (here : s.boot = .installTrans tail) (block : s.lh[tail]? = some b) :
      RecoverStep s { s.install tail b with boot := .installTrans (tail + 1) }
  | installed {tail : Nat} (here : s.boot = .installTrans tail) (ended : s.lh[tail]? = none) :
      RecoverStep s { s with boot := .clear }
  | clear (here : s.boot = .clear) :
      RecoverStep s { s with lh := [], disk := { s.disk with header := [] }, boot := .up }

lemma recoverStep_of_recover (next : recover s = some s') : RecoverStep s s' := by
  unfold recover at next
  split at next
  case h_1 here =>
    cases next
    exact .readHead here
  case h_2 tail here =>
    split at next
    · cases next
      exact .install here (by assumption)
    cases next
    exact .installed here (by assumption)
  case h_3 here =>
    cases next
    exact .clear here
  case h_4 => cases next

end

def Pc.inOp : Pc → Bool
  | .op _ => true
  | _ => false

def Pc.inCommit : Pc → Bool
  | .outside => false
  | .op _ => false
  | _ => true

structure Control (s : State α) : Prop where
  ops : ∃ ts : Finset Tid, (∀ t, t ∈ ts ↔ (s.pc t).inOp = true) ∧ ts.card = s.outstanding
  alone : ∀ t, (s.pc t).inCommit = true → s.committing = true ∧ s.outstanding = 0
  unique : ∀ t u, (s.pc t).inCommit = true → (s.pc u).inCommit = true → t = u
  flag : s.committing = true → ∃ t, (s.pc t).inCommit = true
  dirty : ∀ t b, b ∈ s.dirty t → (s.pc t).inOp = true ∧ s.held b = some t

variable {s s' : State α} {t u : Tid} {b o : Nat} {size : Nat} {a : Label α}

lemma control_crash (s : State α) : Control s.crash := by
  refine ⟨⟨∅, fun t => ?_, rfl⟩, fun t now => ?_, fun t u now => ?_, fun now => ?_, fun t b mem => ?_⟩
  · simp [State.crash, Pc.inOp]
  · cases now
  · cases now
  · cases now
  cases mem

namespace Control
section
variable (h : Control s)
include h

lemma not_inOp (now : (s.pc t).inCommit = true) (u : Tid) : (s.pc u).inOp = false := by
  obtain ⟨ts, mem, card⟩ := h.ops
  rw [(h.alone t now).2, card_eq_zero] at card
  refine Bool.eq_false_iff.mpr fun op => ?_
  have := (mem u).mpr op
  rw [card] at this
  exact absurd this (notMem_empty u)

lemma not_inCommit (now : (s.pc t).inOp = true) (u : Tid) : (s.pc u).inCommit = false := by
  refine Bool.eq_false_iff.mpr fun commits => ?_
  cases now.symm.trans (h.not_inOp commits t)

lemma not_committing (now : (s.pc t).inOp = true) : s.committing = false := by
  refine Bool.eq_false_iff.mpr fun commits => ?_
  obtain ⟨u, commits⟩ := h.flag commits
  cases commits.symm.trans (h.not_inCommit now u)

lemma outstanding_pos (now : (s.pc t).inOp = true) : 0 < s.outstanding := by
  obtain ⟨ts, mem, card⟩ := h.ops
  rw [← card]
  exact card_pos.mpr ⟨t, (mem t).mpr now⟩

lemma clean (now : (s.pc t).inCommit = true) (u : Tid) : s.dirty u = [] := by
  refine List.eq_nil_iff_forall_not_mem.mpr fun b mem => ?_
  cases (h.dirty u b mem).1.symm.trans (h.not_inOp now u)

lemma of_pc_eq (pc : s'.pc = s.pc) (out : s'.outstanding = s.outstanding)
    (commit : s'.committing = s.committing)
    (dirty : ∀ t b, b ∈ s'.dirty t → (s.pc t).inOp = true ∧ s'.held b = some t) : Control s' := by
  refine ⟨?_, ?_, ?_, ?_, ?_⟩
  · rw [pc, out]
    exact h.ops
  · rw [pc, out, commit]
    exact h.alone
  · rw [pc]
    exact h.unique
  · rw [pc, commit]
    exact h.flag
  rw [pc]
  exact dirty

lemma of_commit {p : Pc} (now : (s.pc t).inCommit = true) (pc : s'.pc = update s.pc t p)
    (commits : p.inOp = false) (out : s'.outstanding = s.outstanding) (commit : p.inCommit = true ∧
    s'.committing = s.committing ∨ s'.committing = false ∧ p = .outside)
    (dirty : s'.dirty = s.dirty) : Control s' := by
  have others : ∀ u, (s'.pc u).inCommit = true → u = t := by
    intro u commits
    by_contra ne
    rw [pc, update_of_ne ne] at commits
    exact ne (h.unique u t commits now)
  refine ⟨⟨∅, fun u => ?_, ?_⟩, fun u commits => ?_, fun u v hu hv => ?_, fun flag => ?_,
    fun u b mem => ?_⟩
  · rw [pc]
    by_cases same : u = t
    · subst same
      simp [commits]
    rw [update_of_ne same]
    simp [h.not_inOp now u]
  · rw [out, (h.alone t now).2]
    rfl
  · cases others u commits
    rw [pc, update_self] at commits
    rcases commit with ⟨-, same⟩ | ⟨-, rfl⟩
    · rw [same, out]
      exact h.alone t now
    cases commits
  · rw [others u hu, others v hv]
  · rcases commit with ⟨commits, -⟩ | ⟨off, -⟩
    · refine ⟨t, ?_⟩
      rw [pc, update_self, commits]
    cases flag.symm.trans off
  rw [dirty, h.clean now u] at mem
  cases mem

lemma beginOp (next : beginOp s t = some s') : Control s' := by
  obtain ⟨⟨out, idle, -⟩, rfl⟩ := guarded.mp next
  obtain ⟨ts, mem, card⟩ := h.ops
  have fresh : t ∉ ts := fun now => by
    rw [mem, out] at now
    cases now
  have none : ∀ u, (update s.pc t (.op s.nextOp) u).inCommit = true → False := by
    intro u commits
    by_cases same : u = t
    · rw [same, update_self] at commits
      cases commits
    rw [update_of_ne same] at commits
    cases (h.alone u commits).1.symm.trans idle
  refine ⟨⟨insert t ts, fun u => ?_, ?_⟩, fun u commits => (none u commits).elim, fun u v commits =>
    (none u commits).elim, fun flag => (by cases flag.symm.trans idle), fun u b dirt => ?_⟩
  · by_cases same : u = t
    · subst same
      simp [Pc.inOp]
    simp only [mem_insert, same, false_or, update_of_ne same]
    exact mem u
  · rw [card_insert_of_notMem fresh, card]
  have before := h.dirty u b dirt
  refine ⟨?_, before.2⟩
  by_cases same : u = t
  · rw [same, out] at before
    cases before.1
  simp only [update_of_ne same]
  exact before.1

lemma bread (next : bread s t b = some s') : Control s' := by
  obtain ⟨free, rfl⟩ := guarded.mp next
  refine h.of_pc_eq rfl rfl rfl fun u c dirt => ?_
  obtain ⟨op, held⟩ := h.dirty u c dirt
  refine ⟨op, ?_⟩
  by_cases same : c = b
  · rw [same, free] at held
    cases held
  simp only [update_of_ne same]
  exact held

lemma modify {d : α} (next : modify s t b d = some s') : Control s' := by
  obtain ⟨o, here, mine, rfl⟩ := modify_cases next
  refine h.of_pc_eq rfl rfl rfl fun u c dirt => ?_
  by_cases same : u = t
  · subst same
    simp only [update_self, List.mem_cons] at dirt
    rcases dirt with rfl | dirt
    · rw [here]
      exact ⟨rfl, mine⟩
    exact h.dirty u c dirt
  simp only [update_of_ne same] at dirt
  exact h.dirty u c dirt

lemma brelse (next : brelse s t b = some s') : Control s' := by
  obtain ⟨⟨mine, logged⟩, rfl⟩ := guarded.mp next
  refine h.of_pc_eq rfl rfl rfl fun u c dirt => ?_
  obtain ⟨op, held⟩ := h.dirty u c dirt
  refine ⟨op, ?_⟩
  by_cases same : c = b
  · grind
  simp only [update_of_ne same]
  exact held

lemma record (now : (s.pc t).inOp = true) (mine : s.held b = some t) :
    Control (s.record t o b) := by
  refine h.of_pc_eq rfl rfl rfl fun u c dirt => ?_
  by_cases same : u = t
  · subst same
    simp only [State.record, update_self, List.mem_filter] at dirt
    exact h.dirty u c dirt.1
  simp only [State.record, update_of_ne same] at dirt
  exact h.dirty u c dirt

lemma of_endOp {p : Pc} (now : (s.pc t).inOp = true) (clean : s.dirty t = [])
    (pc : s'.pc = update s.pc t p) (ended : p.inOp = false)
    (out : s'.outstanding = s.outstanding - 1) (commit : p.inCommit = true →
    s'.committing = true ∧ s'.outstanding = 0) (flag : s'.committing = true → p.inCommit = true)
    (dirty : s'.dirty = s.dirty) (held : s'.held = s.held) : Control s' := by
  have others : ∀ u, (s'.pc u).inCommit = true → u = t := by
    intro u commits
    by_contra ne
    rw [pc, update_of_ne ne, h.not_inCommit now u] at commits
    cases commits
  obtain ⟨ts, mem, card⟩ := h.ops
  refine ⟨⟨ts.erase t, fun u => ?_, ?_⟩, fun u commits => ?_, fun u v hu hv => ?_,
    fun now => ⟨t, ?_⟩, fun u b dirt => ?_⟩
  · rw [pc]
    by_cases same : u = t
    · subst same
      simp [ended]
    rw [update_of_ne same, mem_erase]
    exact ⟨fun both => (mem u).mp both.2, fun op => ⟨same, (mem u).mpr op⟩⟩
  · rw [card_erase_of_mem ((mem t).mpr now), card, out]
  · cases others u commits
    rw [pc, update_self] at commits
    exact commit commits
  · rw [others u hu, others v hv]
  · rw [pc, update_self, flag now]
  rw [dirty] at dirt
  rw [pc, held]
  by_cases same : u = t
  · rw [same, clean] at dirt
    cases dirt
  rw [update_of_ne same]
  exact h.dirty u b dirt

lemma commit (next : CommitStep s t s') : Control s' := by
  have now : (s.pc t).inCommit = true := by
    cases next with
    | copy here | copied here | head here | install here | installed here | clear here
    | finish here =>
      rw [here]
      rfl
  cases next with
  | copy | copied | head | install | installed | clear =>
    exact h.of_commit now rfl rfl rfl (.inl ⟨rfl, rfl⟩) rfl
  | finish => exact h.of_commit now rfl rfl rfl (.inr ⟨rfl, rfl⟩) rfl

end

lemma step (h : s.panicked = none → Control s) (next : step size s a = some s')
    (fine : s'.panicked = none) : Control s' := by
  cases a with
  | crash =>
    cases next
    exact control_crash s
  | recover =>
    cases recoverStep_of_recover next with
    | readHead | install | installed | clear => exact (h fine).of_pc_eq rfl rfl rfl (h fine).dirty
  | evict b =>
    obtain ⟨⟨-, alive⟩, next⟩ := ite_none_right_eq_some.mp next
    obtain ⟨-, rfl⟩ := guarded.mp next
    exact (h alive).of_pc_eq rfl rfl rfl (h alive).dirty
  | call t c =>
    obtain ⟨⟨-, alive⟩, next⟩ := ite_none_right_eq_some.mp next
    have now := h alive
    cases c with
    | beginOp => exact now.beginOp next
    | bread b => exact now.bread next
    | modify b d => exact now.modify next
    | brelse b => exact now.brelse next
    | commit => exact now.commit (commitStep_of_commit next)
    | logWrite b =>
      obtain ⟨o, here, mine, ⟨-, panic⟩ | rfl⟩ := logWrite_cases next
      · exact absurd fine panic.panicked
      exact now.record (by rw [here]; rfl) mine
    | endOp =>
      obtain ⟨o, here, clean, ⟨-, panic⟩ | ⟨idle, ⟨last, rfl⟩ | ⟨-, rfl⟩⟩⟩ := endOp_cases next
      · exact absurd fine panic.panicked
      · refine now.of_endOp (by rw [here]; rfl) clean rfl ?_ rfl (fun _ => ⟨rfl, last⟩)
          (fun _ => ?_) rfl rfl
        · split_ifs
          · rfl
          rfl
        split_ifs
        · rfl
        rfl
      exact now.of_endOp (by rw [here]; rfl) clean rfl rfl rfl (nofun)
        (fun flag => by cases flag.symm.trans idle) rfl rfl

end Control

end Xv6.Log
