import Xv6.Interleaving
import Xv6.FirstMax
import Mathlib.Data.List.Iterate
import Mathlib.Data.Fintype.Basic

/-! The user-thread library: `user/uthread.c`, `user/uthread.h` and `user/uswtch.S`. A step is a
call of one function of the library by whichever thread executes, with the registers that
`uswtch` finds. What a read behind the last entry of `uthreads_arr` finds is part of the call.
The contents of the stacks are not modelled. -/
namespace Xv6.UserThread
open Interleaving FirstMax Option
open Function (update update_idem update_of_ne update_self)

abbrev MAX_UTHREADS : Nat := 4
def STACK_SIZE : Nat := 4000

abbrev Entry := Fin MAX_UTHREADS

inductive SchedPriority where
  | low
  | medium
  | high
  deriving DecidableEq, Repr

def SchedPriority.toNat : SchedPriority → Nat
  | .low => 0
  | .medium => 1
  | .high => 2

inductive Tstate where
  | free
  | running
  | runnable
  deriving DecidableEq, Repr

def Tstate.toNat : Tstate → Nat
  | .free => 0
  | .running => 1
  | .runnable => 2

inductive Reg where
  | ra
  | sp
  | s0
  | s1
  | s2
  | s3
  | s4
  | s5
  | s6
  | s7
  | s8
  | s9
  | s10
  | s11
  deriving DecidableEq, Repr

def Reg.all : List Reg := [.ra, .sp, .s0, .s1, .s2, .s3, .s4, .s5, .s6, .s7, .s8, .s9, .s10, .s11]

lemma Reg.mem_all (r : Reg) : r ∈ Reg.all := by cases r <;> decide

abbrev Context := Reg → UInt64

inductive ContextPtr where
  | entry (i : Entry)
  | garbageContext
  deriving DecidableEq

/-- `struct uthread` less its stack and its context. -/
structure Uthread where
  id : Nat
  state : Tstate
  priority : SchedPriority
  deriving DecidableEq, Repr

/-- Values of `curr_thread` and of `next_thread`, which starts at the address 1. -/
inductive Ptr where
  | null
  | one
  | entry (i : Entry)
  | beyond
  deriving DecidableEq, Repr

def Ptr.at (k : Nat) : Ptr := if h : k < MAX_UTHREADS then .entry ⟨k, h⟩ else .beyond

/-- Who executes: the main program, the thread created in an entry, or nobody that is known after
a write or a switch through a pointer that points to no entry. -/
inductive Exec where
  | main
  | thread (i : Entry)
  | lost
  deriving DecidableEq, Repr

/-- The last four fields are not in the program: who executes, whose registers a context holds,
the registers that a thread had at its own last `uswtch`, and the function it was created
with. -/
structure State where
  arr : Entry → Uthread
  context : ContextPtr → Context
  curr : Ptr
  started : Bool
  exited : Bool
  regs : Context
  exec : Exec
  owner : ContextPtr → Exec
  saved : Exec → Option Context
  start : Entry → UInt64

def init : State where
  arr _ := ⟨0, .free, .low⟩
  context _ _ := 0
  curr := .null
  started := false
  exited := false
  regs _ := 0
  exec := .main
  owner _ := .lost
  saved _ := none
  start _ := 0

/-- The address of `uthreads_arr[i].ustack[STACK_SIZE]`, for the table at `base`. An entry takes
4128 bytes and its stack follows its `id`. -/
def stackEnd (base : UInt64) (i : Entry) : UInt64 :=
  base + 4128 * UInt64.ofNat i + 4 + UInt64.ofNat STACK_SIZE

/-- Store every register at `a0`, then load every register from `a1`. -/
def uswtch (mem : ContextPtr → Context) (regs : Context) (a0 a1 : ContextPtr) :
    (ContextPtr → Context) × Context :=
  let mem := Reg.all.foldl
    (fun m r => update m a0 (update (m a0) r (regs r))) mem
  (mem, Reg.all.foldl (fun regs r => update regs r (mem a1 r)) regs)

lemma foldl_store (l : List Reg) (mem : ContextPtr → Context) (regs : Context) (a : ContextPtr) :
    l.foldl (fun m r => update m a (update (m a) r (regs r))) mem =
    update mem a fun r => if r ∈ l then regs r else mem a r := by
  induction l generalizing mem with
  | nil => simp
  | cons r l ih =>
    rw [List.foldl_cons, ih, update_idem, update_self]
    congr 1
    funext q
    by_cases same : q = r
    · subst same
      simp
    simp [same]

lemma foldl_load (l : List Reg) (regs ctx : Context) :
    l.foldl (fun regs r => update regs r (ctx r)) regs =
    fun r => if r ∈ l then ctx r else regs r := by
  induction l generalizing regs with
  | nil => simp
  | cons r l ih =>
    rw [List.foldl_cons, ih]
    funext q
    by_cases same : q = r
    · subst same
      simp
    simp [same]

/-- `uswtch` replaces the whole context at `a0` by the registers, and the registers by the
context at `a1`. -/
lemma uswtch_eq (mem : ContextPtr → Context) (regs : Context) (a0 a1 : ContextPtr) :
    uswtch mem regs a0 a1 = (update mem a0 regs, update mem a0 regs a1) := by
  have store := foldl_store Reg.all mem regs a0
  have load := foldl_load Reg.all regs (update mem a0 regs a1)
  simp only [Reg.mem_all, if_true] at store load
  rw [uswtch, store, load]

namespace State
@[simps] def setState (s : State) (i : Entry) (t : Tstate) : State :=
  { s with arr := update s.arr i { s.arr i with state := t } }

@[simps] def setPriority (s : State) (i : Entry) (priority : SchedPriority) : State :=
  { s with arr := update s.arr i { s.arr i with priority := priority } }

@[simps] def setStarted (s : State) : State := { s with started := true }

@[simps] def setExited (s : State) : State := { s with exited := true }

@[simps] def setCurr (s : State) (p : Ptr) : State := { s with curr := p }

@[simps] def lose (s : State) : State := { s with exec := .lost }

/-- `uswtch` with the given registers, from one context to another: who executes afterwards is
whose registers the second one holds. -/
@[simps] def switch (s : State) (out : Context) (old new : ContextPtr) : State :=
  { s with
    context := (uswtch s.context out old new).1
    regs := (uswtch s.context out old new).2
    exec := update s.owner old s.exec new
    owner := update s.owner old s.exec
    saved := update s.saved s.exec (some out) }

/-- How every switch ends: the entry `j` becomes the running one and `uswtch` loads its context. -/
def select (s : State) (out : Context) (old : ContextPtr) (j : Entry) : State :=
  ((s.setState j .running).setCurr (.entry j)).switch out old (.entry j)

/-- What a read of the state and of the priority of `uthreads_arr[i]` finds. -/
def read (s : State) (mem : Nat × Nat) (i : Nat) : Nat × Nat :=
  if h : i < MAX_UTHREADS then ((s.arr ⟨i, h⟩).state.toNat, (s.arr ⟨i, h⟩).priority.toNat) else mem

end State

/-- The values of `i` in the loops that look for the next thread. -/
def scanIndices (id : Nat) : List Nat :=
  List.iterate (fun i => (i + 1) % MAX_UTHREADS) (id + 1) MAX_UTHREADS

/-- The loops that look for the next thread, with `curr_thread` at the entry `c`. -/
def nextThread (mem : Nat × Nat) (s : State) (c : Entry) : Ptr :=
  (((scanIndices (s.arr c).id).foldl
    (better (fun i => (s.read mem i).1 = Tstate.runnable.toNat) fun i => (s.read mem i).2)
    (none, SchedPriority.low.toNat)).1.map Ptr.at).getD .one

def uthreadCreate (base : UInt64) (s : State) (startFunc : UInt64) (priority : SchedPriority) :
    State × Int :=
  match (List.finRange MAX_UTHREADS).find? fun i => (s.arr i).state = .free with
  | none => (s, -1)
  | some i =>
    ({ s with
      curr := .entry i
      arr := update s.arr i ⟨i, .runnable, priority⟩
      context := update s.context (.entry i)
        (update (update (s.context (.entry i)) .ra startFunc) .sp
          (stackEnd base i))
      owner := update s.owner (.entry i) (.thread i)
      saved := update s.saved (.thread i) none
      start := update s.start i startFunc }, 0)

def yieldTo (s : State) (c : Entry) (out : Context) : Ptr → State
  | .one => s
  | .entry j => (s.setState c .runnable).select out (.entry c) j
  | p => ((s.setState c .runnable).setCurr p).lose

def exitTo (s : State) (c : Entry) (out : Context) : Ptr → State
  | .one => s.setExited
  | .entry j => s.select out (.entry c) j
  | p => (s.setCurr p).lose

/-- `uthread_start_all` after its loop. With no thread found the address 1 is taken for a
thread. -/
def startTo (s : State) (out : Context) : Ptr → State
  | .entry j => s.select out .garbageContext j
  | p => (s.setCurr p).lose

/-- What a call does through `curr_thread`. Nothing is known after a use of a pointer to no
entry. -/
def State.atCurr (s : State) (f : Entry → State) : State :=
  match s.curr with
  | .entry c => f c
  | _ => s.lose

lemma State.atCurr_entry {s : State} {c : Entry} (h : s.curr = .entry c) (f : Entry → State) :
    s.atCurr f = f c := by rw [State.atCurr, h]

lemma State.atCurr_cases (s : State) (f : Entry → State) :
    (∃ c, s.curr = .entry c ∧ s.atCurr f = f c) ∨ s.atCurr f = s.lose := by
  unfold State.atCurr
  cases s.curr with
  | entry c => exact .inl ⟨c, rfl, rfl⟩
  | null => exact .inr rfl
  | one => exact .inr rfl
  | beyond => exact .inr rfl

def uthreadSelf (s : State) : Ptr := s.curr

def uthreadGetPriority (s : State) : Option SchedPriority :=
  match s.curr with
  | .entry c => some (s.arr c).priority
  | _ => none

def uthreadSetPriority (s : State) (priority : SchedPriority) : State × Option SchedPriority :=
  (s.atCurr fun c => s.setPriority c priority, uthreadGetPriority s)

section
variable {μ : Type} (scan : μ → State → Entry → Ptr)

def uthreadYield (s : State) (out : Context) (m : μ) : State :=
  s.atCurr fun c => yieldTo s c out (scan m s c)

def uthreadExit (s : State) (out : Context) (m : μ) : State :=
  s.atCurr fun c => exitTo (s.setState c .free) c out (scan m (s.setState c .free) c)

/-- The first call does not return: nothing loads `garbageContext`. -/
def uthreadStartAll (s : State) (out : Context) (m : μ) : State × Option Int :=
  if s.started then (s, some (-1))
  else (s.setStarted.atCurr fun c => startTo s.setStarted out (scan m s.setStarted c), none)

inductive Label (μ : Type) where
  | create (startFunc : UInt64) (priority : SchedPriority)
  | yield (out : Context) (m : μ)
  | exit (out : Context) (m : μ)
  | setPriority (priority : SchedPriority)
  | startAll (out : Context) (m : μ)

def call (base : UInt64) (s : State) : Label μ → State
  | .create startFunc priority => (uthreadCreate base s startFunc priority).1
  | .yield out m => uthreadYield scan s out m
  | .exit out m => uthreadExit scan s out m
  | .setPriority priority => (uthreadSetPriority s priority).1
  | .startAll out m => (uthreadStartAll scan s out m).1

/-- A call of the library, which a lost program or one that has ended does not make. -/
def step (base : UInt64) (s : State) (a : Label μ) : Option State :=
  if s.exited ∨ s.exec = .lost then none else some (call scan base s a)

variable {scan} {base : UInt64} {s t : State} {a : Label μ}

lemma call_of_step (next : step scan base s a = some t) : call scan base s a = t :=
  some.inj (ite_none_left_eq_some.mp next).2

lemma not_exited_of_step (next : step scan base s a = some t) : s.exited ≠ true :=
  fun ended => (ite_none_left_eq_some.mp next).1 (.inl ended)

end

lemma Tstate.toNat_eq_runnable {t : Tstate} : t.toNat = Tstate.runnable.toNat ↔ t = .runnable := by
  cases t <;> decide

lemma State.read_entry (s : State) (mem : Nat × Nat) (i : Entry) :
    s.read mem i = ((s.arr i).state.toNat, (s.arr i).priority.toNat) := dif_pos i.2

lemma Ptr.at_entry (i : Entry) : Ptr.at i = .entry i := dif_pos i.2

lemma Ptr.at_eq_entry {k : Nat} {i : Entry} (h : Ptr.at k = .entry i) : k = i := by
  rw [Ptr.at] at h
  split_ifs at h with low
  cases h
  rfl

section
variable {mem : Nat × Nat} {s : State} {c j : Entry}

lemma nextThread_cases (mem : Nat × Nat) (s : State) (c : Entry) :
    (nextThread mem s c = .one ∧ ∀ k ∈ scanIndices (s.arr c).id, (s.read mem k).1 =
    Tstate.runnable.toNat → (s.read mem k).2 ≤ SchedPriority.low.toNat) ∨ ∃ k, nextThread mem s c =
    Ptr.at k ∧ SchedPriority.low.toNat < (s.read mem k).2 ∧ IsFirstMax (fun i => (s.read mem i).1 =
    Tstate.runnable.toNat) (fun i => (s.read mem i).2) (scanIndices (s.arr c).id) k := by
  unfold nextThread
  rcases foldl_better (fun i => (s.read mem i).1 = Tstate.runnable.toNat)
    (fun i => (s.read mem i).2) (scanIndices (s.arr c).id) none SchedPriority.low.toNat with
    ⟨kept, low⟩ | ⟨k, found, high, first⟩
  · rw [kept]
    exact .inl ⟨rfl, low⟩
  rw [found]
  exact .inr ⟨k, rfl, high, first⟩

lemma nextThread_runnable (h : nextThread mem s c = .entry j) : (s.arr j).state = .runnable := by
  rcases nextThread_cases mem s c with ⟨none, -⟩ | ⟨k, found, -, first⟩
  · rw [none] at h
    cases h
  cases Ptr.at_eq_entry (found.symm.trans h)
  have chosen := first.chosen
  rw [s.read_entry] at chosen
  exact Tstate.toNat_eq_runnable.mp chosen

lemma setState_id (s : State) (i j : Entry) (u : Tstate) :
    ((s.setState i u).arr j).id = (s.arr j).id := by
  rw [State.setState_arr]
  by_cases same : j = i
  · rw [same, update_self]
  rw [update_of_ne same]

lemma nextThread_free (running : (s.arr c).state = .running) (mem : Nat × Nat) :
    nextThread mem (s.setState c .free) c = nextThread mem s c := by
  unfold nextThread
  have same : ∀ k, (((s.setState c .free).read mem k).1 = Tstate.runnable.toNat ↔
      (s.read mem k).1 = Tstate.runnable.toNat) ∧
      ((s.setState c .free).read mem k).2 = (s.read mem k).2 := by
    intro k
    rw [State.read, State.read]
    split_ifs with low
    · rw [State.setState_arr]
      by_cases same : (⟨k, low⟩  : Entry) = c
      · rw [same, update_self, running]
        exact ⟨iff_of_false (by simp [Tstate.toNat]) (by simp [Tstate.toNat]), rfl⟩
      rw [update_of_ne same]
      exact ⟨Iff.rfl, rfl⟩
    exact ⟨Iff.rfl, rfl⟩
  rw [setState_id, better_congr same]

end
end Xv6.UserThread
