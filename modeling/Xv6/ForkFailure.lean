import Xv6.Kthread
import Xv6.PageCalls

/-! `fork`, `allocproc`, `allockthread` and `freeproc` with the spinlocks that they take, on one
CPU. `kmem.lock`, which `kalloc` and `kfree` take and release, and the files of the parent are left
out. -/
namespace Xv6.Vm.Forking
open Interleaving PageTable List Option
open Function (update update_eq_self update_idem update_of_ne update_self)

/-- `pid_lock`, `wait_lock`, and the locks of a process and of its threads. -/
inductive Lock
  | pid
  | wait
  | proc (p : ProcId)
  | alloc (p : ProcId)
  | thread (p : ProcId) (i : Fin NKT)
  deriving DecidableEq

/-- A panic of `vm.c`, the panics of `acquire` and `release`, and the use of a null pointer. -/
inductive Stop
  | vm
  | acquire
  | release
  | null
  deriving DecidableEq

/-- A process: `frame` is `base_trapframes`, and `none` is a null pointer. -/
structure Slot where
  state : ProcState
  pid : Int
  frame : Option Nat
  pagetable : Option Nat
  sz : Nat
  thread : Fin NKT → ThreadState

def Slot.blank : Slot := ⟨.unused, 0, none, none, 0, fun _ => .unused⟩

structure Machine where
  mem : Mem
  slot : ProcId → Slot
  held : Lock → Bool
  nextpid : Int

namespace Machine
def setMem (m : Machine) (k : Mem) : Machine := { m with mem := k }

def setSlot (m : Machine) (p : ProcId) (s : Slot) : Machine :=
  { m with slot := update m.slot p s }

def setThread (m : Machine) (p : ProcId) (i : Fin NKT) (t : ThreadState) : Machine :=
  m.setSlot p { m.slot p with thread := update (m.slot p).thread i t }

def setHeld (m : Machine) (l : Lock) (b : Bool) : Machine :=
  { m with held := update m.held l b }

def acquire (m : Machine) (l : Lock) : Except Stop Machine :=
  if m.held l then .error .acquire else .ok (m.setHeld l true)

def release (m : Machine) (l : Lock) : Except Stop Machine :=
  if m.held l then .ok (m.setHeld l false) else .error .release

end Machine

/-- The loop of `freeproc` over the threads; `freethread` releases the lock. -/
def freethreads (p : ProcId) : List (Fin NKT) → Machine → Except Stop Machine
  | [], m => .ok m
  | i :: is, m => do
    let m ← m.acquire (.thread p i)
    let m ← (m.setThread p i .unused).release (.thread p i)
    freethreads p is m

def freeproc (m : Machine) (p : ProcId) : Except Stop Machine := do
  let m ← freethreads p (List.finRange NKT) m
  let k := (m.slot p).frame.elim m.mem (kfree m.mem)
  match (m.slot p).pagetable with
  | none => .ok ((m.setMem k).setSlot p { Slot.blank with thread := (m.slot p).thread })
  | some root =>
    match procFreepagetable k root (m.slot p).sz with
    | none => .error .vm
    | some k => .ok ((m.setMem k).setSlot p { Slot.blank with thread := (m.slot p).thread })

def allockthread (p : ProcId) : List (Fin NKT) → Machine → Except Stop (Option (Fin NKT) × Machine)
  | [], m => .ok (none, m)
  | i :: is, m => do
    let m ← m.acquire (.thread p i)
    if (m.slot p).thread i = .unused then
      -- `alloctid`
      let m ← m.acquire (.alloc p)
      let m ← m.release (.alloc p)
      .ok (some i, m.setThread p i .used)
    else
      let m ← m.release (.thread p i)
      allockthread p is m

def allocScan : List ProcId → Machine → Except Stop (Option ProcId × Machine)
  | [], m => .ok (none, m)
  | p :: ps, m => do
    let m ← m.acquire (.proc p)
    if (m.slot p).state = .unused then .ok (some p, m)
    else
      let m ← m.release (.proc p)
      allocScan ps m

def allocMemory (code : Nat) (m : Machine) (p : ProcId) : Except Stop (Option ProcId × Machine) :=
  match kalloc m.mem with
  | none => do
    let m ← freeproc m p
    let m ← m.release (.proc p)
    .ok (none, m)
  | some (frame, k) => do
    let m := (m.setMem k).setSlot p { m.slot p with frame := some frame }
    let r ← allockthread p (List.finRange NKT) m
    match r.1 with
    | none => .error .null
    | some t =>
      match procPagetable r.2.mem code frame with
      | none => .error .vm
      | some (none, k) =>
        let m ← (r.2.setMem k).release (.thread p t)
        let m ← freeproc m p
        let m ← m.release (.proc p)
        .ok (none, m)
      | some (some root, k) =>
        .ok (some p, (r.2.setMem k).setSlot p { r.2.slot p with pagetable := some root })

def Machine.name (m : Machine) (p : ProcId) : Machine :=
  { m with nextpid := m.nextpid + 1 }.setSlot p { m.slot p with state := .used, pid := m.nextpid }

/-- `allocproc` from the label `found` on. -/
def allocFound (code : Nat) (m : Machine) (p : ProcId) : Except Stop (Option ProcId × Machine) := do
  -- `allocpid`
  let m ← m.acquire .pid
  let m ← (m.name p).release .pid
  allocMemory code m p

def allocproc (code : Nat) (m : Machine) : Except Stop (Option ProcId × Machine) := do
  let r ← allocScan (List.finRange NPROC) m
  match r.1 with
  | none => .ok r
  | some p => allocFound code r.2 p

lemma NKT_pos : 0 < NKT := by decide

def firstThread : Fin NKT := ⟨0, NKT_pos⟩

def fork (code : Nat) (m : Machine) (me : ProcId) : Except Stop (Int × Machine) := do
  let r ← allocproc code m
  match r.1 with
  | none => .ok (-1, r.2)
  | some np =>
    match (r.2.slot me).pagetable, (r.2.slot np).pagetable with
    | some old, some new =>
      match uvmcopy r.2.mem old new (r.2.slot me).sz with
      | none => .error .vm
      | some (false, k) =>
        let m ← freeproc (r.2.setMem k) np
        let m ← m.release (.thread np firstThread)
        let m ← m.release (.proc np)
        .ok (-1, m)
      | some (true, k) =>
        let m := (r.2.setMem k).setSlot np { r.2.slot np with sz := (r.2.slot me).sz }
        let m ← m.release (.thread np firstThread)
        let m ← m.release (.proc np)
        let m ← m.acquire .wait
        let m ← m.release .wait
        let m ← m.acquire (.thread np firstThread)
        let m ← (m.setThread np firstThread .runnable).release (.thread np firstThread)
        .ok ((m.slot np).pid, m)
    | _, _ => .error .null

/-- Where `kalloc` returns 0. -/
inductive Point
  | trapframe
  | pagetable
  | copy
  deriving DecidableEq

/-- The first allocation of `fork` that fails, for a parent with the given page table and size. -/
def failure (k : Mem) (code root sz : Nat) : Option Point :=
  match kalloc k with
  | none => some .trapframe
  | some (frame, k) =>
    match procPagetable k code frame with
    | none => none
    | some (none, _) => some .pagetable
    | some (some new, k) =>
      match uvmcopy k root new sz with
      | some (false, _) => some .copy
      | _ => none

/-- A state in which the process `me` calls `fork`: the CPU holds no lock, and the slots that are
not in use, of which there is one, are as `freeproc` leaves them. -/
structure Ready (m : Machine) (me : ProcId) (root sz : Nat) : Prop where
  nodup : m.mem.free.Nodup
  small : ∀ x ∈ m.mem.free, x < phystop
  locks : ∀ l, m.held l = false
  blank : ∀ p, (m.slot p).state = .unused → m.slot p = Slot.blank
  room : ∃ p, (m.slot p).state = .unused
  parent : (m.slot me).state ≠ .unused ∧ (m.slot me).pagetable = some root ∧ (m.slot me).sz = sz

/-- The call returns -1 and leaves the locks, the processes and the set of free pages as they were,
and no page but the free ones is written. -/
structure Clean (m : Machine) (r : Int × Machine) : Prop where
  result : r.1 = -1
  slots : r.2.slot = m.slot
  locks : r.2.held = m.held
  free : ∀ x, x ∈ r.2.mem.free ↔ x ∈ m.mem.free
  nodup : r.2.mem.free.Nodup
  words : ∀ x ∉ m.mem.free, r.2.mem.words x = m.mem.words x

variable {m : Machine} {l : Lock} {p c me : ProcId} {root sz code : Nat}

lemma ok_bind {α β : Type} (a : α) (f : α → Except Stop β) : (Except.ok a >>= f) = f a := rfl

lemma acquire_ok (free : m.held l = false) : m.acquire l = .ok (m.setHeld l true) := by
  rw [Machine.acquire, if_neg (free ▸ Bool.false_ne_true)]

lemma release_ok (here : m.held l = true) : m.release l = .ok (m.setHeld l false) := if_pos here

lemma setHeld_self (b : Bool) : (m.setHeld l b).held l = b := update_self ..

lemma setHeld_of_ne {l' : Lock} (other : l' ≠ l) (b : Bool) :
    (m.setHeld l b).held l' = m.held l' := update_of_ne other ..

lemma setHeld_back (free : m.held l = false) : (m.setHeld l true).setHeld l false = m := by
  unfold Machine.setHeld
  rw [update_idem, ← free, update_eq_self]

lemma freethreads_ok (is : List (Fin NKT))
    (free : ∀ i ∈ is, m.held (.thread p i) = false) : freethreads p is m = .ok (m.setSlot p
    { m.slot p with thread := fun i => if i ∈ is then .unused else (m.slot p).thread i }) := by
  induction is generalizing m with
  | nil =>
    simp only [not_mem_nil, if_false, Machine.setSlot, update_eq_self]
    rfl
  | cons i is ih =>
    have first := free i mem_cons_self
    have held : ((m.setHeld (.thread p i) true).setThread p i .unused).held (.thread p i) = true :=
      setHeld_self true
    rw [freethreads, acquire_ok first, ok_bind, release_ok held, ok_bind]
    change freethreads p is (((m.setThread p i .unused).setHeld (.thread p i) true).setHeld
      (.thread p i) false) = _
    rw [setHeld_back (m := m.setThread p i .unused) first,
      ih (m := m.setThread p i .unused) fun j mem => free j (mem_cons_of_mem i mem)]
    unfold Machine.setThread Machine.setSlot
    simp only [update_self, update_idem]
    refine congrArg (fun t => Except.ok ({ m with slot := update m.slot p t })) ?_
    refine congrArg (fun t => { m.slot p with thread := t }) (funext fun j => ?_)
    by_cases later : j ∈ is
    · rw [if_pos later, if_pos (mem_cons_of_mem i later)]
    rw [if_neg later]
    by_cases same : j = i
    · rw [same, update_self, if_pos mem_cons_self]
    rw [update_of_ne same, if_neg fun mem => (mem_cons.mp mem).elim same later]

lemma freethreads_all (free : ∀ i, m.held (.thread p i) = false) : freethreads p (finRange NKT)
    m = .ok (m.setSlot p { m.slot p with thread := fun _ => .unused }) := by
  rw [freethreads_ok _ fun i _ => free i]
  simp only [mem_finRange, if_true]

lemma finRange_threads :
    finRange NKT = firstThread :: (finRange 9).map Fin.succ := finRange_succ

lemma freeproc_held (held : m.held (.thread p firstThread) = true) :
    freeproc m p = .error .acquire := by
  unfold freeproc
  rw [finRange_threads, freethreads, Machine.acquire, if_pos held]
  rfl

lemma freeproc_ok (free : ∀ i, m.held (.thread p i) = false)
    (none : (m.slot p).pagetable = none) : freeproc m p =
    .ok ((m.setMem ((m.slot p).frame.elim m.mem (kfree m.mem))).setSlot p Slot.blank) := by
  unfold freeproc
  rw [freethreads_all free, ok_bind]
  simp only [Machine.setSlot, Machine.setMem, update_self, none, update_idem]
  rfl

lemma allocScan_ok (locks : ∀ l, m.held l = false)
    (ps : List ProcId) (room : ∃ p ∈ ps, (m.slot p).state = .unused) :
    ∃ c, (m.slot c).state = .unused ∧ allocScan ps m = .ok (some c, m.setHeld (.proc c) true) := by
  induction ps with
  | nil =>
    obtain ⟨p, mem, -⟩ := room
    exact absurd mem not_mem_nil
  | cons p ps ih =>
    rw [allocScan, acquire_ok (locks _), ok_bind]
    by_cases here : (m.slot p).state = .unused
    · exact ⟨p, here, if_pos here⟩
    obtain ⟨q, mem, there⟩ := room
    have later : q ∈ ps := (mem_cons.mp mem).resolve_left fun eq => here (eq ▸ there)
    obtain ⟨c, unused, scan⟩ := ih ⟨q, later, there⟩
    refine ⟨c, unused, (if_neg here).trans ?_⟩
    rw [release_ok (setHeld_self true), ok_bind, setHeld_back (locks _)]
    exact scan

lemma allockthread_ok (locks : ∀ i, m.held (.thread p i) = false)
    (alloc : m.held (.alloc p) = false) (unused : (m.slot p).thread firstThread = .unused) :
    allockthread p (finRange NKT) m = .ok (some firstThread,
    (m.setThread p firstThread .used).setHeld (.thread p firstThread) true) := by
  have free : (m.setHeld (.thread p firstThread) true).held (.alloc p) = false := by
    rw [setHeld_of_ne Lock.noConfusion]
    exact alloc
  rw [finRange_threads, allockthread, acquire_ok (locks _), ok_bind]
  refine (if_pos unused).trans ?_
  rw [acquire_ok free, ok_bind, release_ok (setHeld_self true), ok_bind, setHeld_back free]
  rfl

/-- What holds at the label `found` of `allocproc`. -/
structure Found (m : Machine) (c : ProcId) : Prop where
  own : m.held (.proc c) = true
  others : ∀ l, l ≠ .proc c → m.held l = false
  blank : m.slot c = Slot.blank

namespace Found
lemma allocpid (h : Found m c) (code : Nat) :
    allocFound code m c = allocMemory code (m.name c) c := by
  have free := h.others .pid Lock.noConfusion
  have held : (m.setHeld .pid true).held .pid = true := setHeld_self true
  replace held : ((m.setHeld .pid true).name c).held .pid = true := held
  rw [allocFound, acquire_ok free, ok_bind, release_ok held, ok_bind]
  exact congrArg (fun m => allocMemory code m c) (setHeld_back (m := m.name c) free)

lemma undo (h : Found m c) (k : Mem) (s : Slot) {n : Machine}
    (eq : n = { m with nextpid := m.nextpid + 1, mem := k }.setSlot c s) (none : s.pagetable = none) :
    (do let m ← freeproc n c
        let m ← m.release (.proc c)
        .ok (Option.none, m)) =
      (.ok (Option.none, { m with nextpid := m.nextpid + 1, mem := s.frame.elim k (kfree k) }.setHeld
        (.proc c) false) : Except Stop (Option ProcId × Machine)) := by
  have here : n.slot c = s := by
    rw [eq]
    exact update_self ..
  have locks : n.held = m.held := by
    rw [eq]
    rfl
  have clean : freeproc n c = .ok (n.setMem (s.frame.elim n.mem (kfree n.mem)) |>.setSlot c
      Slot.blank) := by
    have done := freeproc_ok (m := n) (p := c) (fun i => by
      rw [locks]
      exact h.others _ Lock.noConfusion) (here ▸ none)
    rwa [here] at done
  have own : (n.setMem (s.frame.elim n.mem (kfree n.mem)) |>.setSlot c Slot.blank).held (.proc c) =
      true := by
    rw [← h.own, ← locks]
    rfl
  rw [clean, ok_bind, release_ok own, ok_bind, eq]
  simp only [Machine.setSlot, Machine.setMem, Machine.setHeld, update_idem]
  rw [← h.blank, update_eq_self]

lemma noTrapframe (h : Found m c) (full : kalloc m.mem = none) (code : Nat) : allocFound code m
    c = .ok (none, { m with nextpid := m.nextpid + 1 }.setHeld (.proc c) false) := by
  have empty : kalloc (m.name c).mem = none := full
  rw [h.allocpid, allocMemory, empty]
  exact h.undo m.mem { m.slot c with state := .used, pid := m.nextpid } rfl
    (by rw [h.blank]; rfl) |>.trans (by rw [h.blank]; rfl)

def framed (m : Machine) (c : ProcId) (frame : Nat) (k : Mem) : Machine :=
  ((((m.name c).setMem k).setSlot c { (m.name c).slot c with frame := some frame }).setThread c
    firstThread .used).setHeld (.thread c firstThread) true

variable {frame : Nat}

lemma thread (h : Found m c) {k : Mem} :
    allockthread c (finRange NKT)
      (((m.name c).setMem k).setSlot c { (m.name c).slot c with frame := some frame }) =
      .ok (some firstThread, framed m c frame k) := by
  refine allockthread_ok (fun i => h.others _ Lock.noConfusion) (h.others _ Lock.noConfusion) ?_
  simp only [Machine.setSlot, Machine.setMem, Machine.name, update_self, h.blank, Slot.blank]

lemma noPagetable (h : Found m c) {k k' : Mem} (taken : kalloc m.mem = some (frame, k))
    (full : procPagetable k code frame = some (none, k')) : allocFound code m c = .ok (none,
    { m with nextpid := m.nextpid + 1, mem := kfree k' frame }.setHeld (.proc c) false) := by
  have taken' : kalloc (m.name c).mem = some (frame, k) := taken
  have full' : procPagetable (framed m c frame k).mem code frame = some (none, k') := full
  have held : ((framed m c frame k).setMem k').held (.thread c firstThread) = true :=
    setHeld_self true
  have free : m.held (.thread c firstThread) = false := h.others _ Lock.noConfusion
  rw [h.allocpid, allocMemory, taken']
  dsimp only
  rw [h.thread, ok_bind]
  dsimp only
  rw [full']
  dsimp only
  rw [release_ok held, ok_bind]
  refine (h.undo k' { m.slot c with
    state := .used
    pid := m.nextpid
    frame := some frame
    thread := update (m.slot c).thread firstThread .used } ?_ (by rw [h.blank]; rfl)).trans rfl
  simp only [framed, Machine.setSlot, Machine.setMem, Machine.setThread, Machine.setHeld,
    Machine.name, update_self, update_idem]
  rw [← free, update_eq_self]

/-- With the memory it needs `allocproc` returns with the locks of the process and of its first
thread. -/
lemma allocated (h : Found m c) {new : Nat} {k k' : Mem} (taken : kalloc m.mem = some (frame, k))
    (made : procPagetable k code frame = some (some new, k')) : ∃ n,
    allocFound code m c = .ok (some c, n) ∧ n.mem = k' ∧ n.held (.thread c firstThread) = true ∧
    (n.slot c).pagetable = some new ∧ ∀ p, p ≠ c → n.slot p = m.slot p := by
  have taken' : kalloc (m.name c).mem = some (frame, k) := taken
  have made' : procPagetable (framed m c frame k).mem code frame = some (some new, k') := made
  rw [h.allocpid, allocMemory, taken']
  dsimp only
  rw [h.thread, ok_bind]
  dsimp only
  rw [made']
  refine ⟨_, rfl, rfl, setHeld_self true, ?_, fun p other => ?_⟩
  · simp only [Machine.setSlot, update_self]
  simp only [framed, Machine.setSlot, Machine.setMem, Machine.setThread, Machine.setHeld,
    Machine.name, update_of_ne other]

end Found

/-- A `fork` for which there is not enough memory is clean exactly if the allocation that fails is
that of the trapframe or of the page table. In `uvmcopy` it panics: `freeproc` acquires the lock of
the first thread, which `allockthread` has acquired. -/
theorem failing_fork_is_clean_iff (ready : Ready m me root sz) {point : Point}
    (fails : failure m.mem code root sz = some point) :
    (∃ r, fork code m me = .ok r ∧ Clean m r) ↔ point ≠ .copy := by
  obtain ⟨p, unused⟩ := ready.room
  obtain ⟨c, unused, scan⟩ := allocScan_ok ready.locks (List.finRange NPROC)
    ⟨p, mem_finRange p, unused⟩
  obtain ⟨live, table, size⟩ := ready.parent
  have other : me ≠ c := fun eq => live (eq ▸ unused)
  have found : Found (m.setHeld (.proc c) true) c := by
    refine ⟨setHeld_self true, fun l ne => ?_, ready.blank c unused⟩
    rw [setHeld_of_ne ne]
    exact ready.locks l
  have alloc : allocproc code m = allocFound code (m.setHeld (.proc c) true) c := by
    rw [allocproc, scan, ok_bind]
  have back : ∀ k, Undone m.mem k →
      Clean m (-1, { m.setHeld (.proc c) true with
        nextpid := m.nextpid + 1, mem := k }.setHeld (.proc c) false) := by
    intro k undone
    refine ⟨rfl, rfl, ?_, undone.mem, undone.nodup, undone.frame⟩
    have same := congrArg Machine.held (setHeld_back (m := m) (ready.locks (.proc c)))
    exact same
  unfold failure at fails
  cases free : m.mem.free with
  | nil =>
    have full := kalloc_none free
    rw [full] at fails
    cases fails
    refine iff_of_true ⟨_, ?_, back m.mem ⟨ready.nodup, fun _ => Iff.rfl, fun _ _ => rfl⟩⟩
      Point.noConfusion
    rw [fork, alloc, found.noTrapframe full, ok_bind]
    rfl
  | cons frame rest =>
    obtain ⟨k, run, taken⟩ := kalloc_some free
    obtain ⟨-, nodup, -⟩ := taken.nodup ready.nodup
    rw [run] at fails
    dsimp only at fails
    rcases procPagetable_spec nodup (fun x mem => ready.small x ((taken.mem x).mpr (.inr mem))) code
        frame with ⟨k', full, undone⟩ | ⟨new, k', t, map, made, -, -⟩
    · rw [full] at fails
      cases fails
      refine iff_of_true ⟨_, ?_, back (kfree k' frame) (taken.undone ready.nodup undone)⟩
        Point.noConfusion
      rw [fork, alloc, found.noPagetable run full, ok_bind]
      rfl
    rw [made] at fails
    dsimp only at fails
    obtain ⟨n, allocated, mem, held, child, others⟩ := found.allocated run made
    have parent : n.slot me = m.slot me := others me other
    cases copy : uvmcopy k' root new sz with
    | none =>
      rw [copy] at fails
      cases fails
    | some r =>
      obtain ⟨done, k''⟩ := r
      rw [copy] at fails
      cases done with
      | true => cases fails
      | false =>
        cases fails
        refine iff_of_false ?_ fun ne => ne rfl
        rintro ⟨r, run, -⟩
        rw [fork, alloc, allocated, ok_bind] at run
        dsimp only at run
        rw [parent, table, child, mem, size] at run
        dsimp only at run
        rw [copy] at run
        dsimp only at run
        rw [freeproc_held (m := n.setMem k'') held] at run
        cases run

def machineOf (s : Kernel) : Machine where
  mem := s.mem
  slot p := (s.proc p).elim Slot.blank fun q =>
    ⟨.used, p.val, some q.frame, some q.root, q.sz,
      fun i => if i = firstThread then .running else .unused⟩
  held _ := false
  nextpid := 2

lemma one_lt_NPROC : 1 < NPROC := by decide

def initproc : ProcId := ⟨1, one_lt_NPROC⟩

lemma ready_machineOf {s : Kernel} {q : Proc} (nodup : s.mem.free.Nodup)
    (small : ∀ x ∈ s.mem.free, x < phystop) (here : s.proc 1 = some q) (room : s.proc 0 = none) :
    Ready (machineOf s) initproc q.root q.sz := by
  have parent : (machineOf s).slot initproc = ⟨.used, 1, some q.frame, some q.root, q.sz,
      fun i => if i = firstThread then .running else .unused⟩ := by
    change (s.proc 1).elim _ _ = _
    rw [here]
    rfl
  refine ⟨nodup, small, fun _ => rfl, fun p unused => ?_, ⟨⟨0, by decide⟩, ?_⟩, ?_⟩
  · change (s.proc p).elim _ _ = _
    cases there : s.proc p with
    | none => rfl
    | some q =>
      change ((s.proc p).elim Slot.blank _).state = .unused at unused
      rw [there] at unused
      cases unused
  · change ((s.proc 0).elim Slot.blank _).state = .unused
    rw [room]
    rfl
  rw [parent]
  exact ⟨ProcState.noConfusion, rfl, rfl⟩

/-- With two pages left the page table of the child cannot be made. -/
theorem fork_with_two_pages_is_clean :
    ∃ s q, Run (Vm.step 50) Free (boot (fun _ _ => 0) (List.range' 100 9)) [.userinit fun _ => 7] s ∧
      s.proc 1 = some q ∧ failure s.mem 50 q.root q.sz = some .pagetable ∧
      ∃ r, fork 50 (machineOf s) initproc = .ok r ∧ Clean (machineOf s) r := by
  refine Run.exists_two_with (P := fun s => s.mem.free.Nodup ∧ (∀ x ∈ s.mem.free, x < phystop) ∧
      (s.proc 0).isNone = true ∧
      (s.proc 1).map (fun q => failure s.mem 50 q.root q.sz) = some (some .pagetable))
    (by decide +kernel) fun s run ⟨nodup, small, room, fails⟩ => ?_
  obtain ⟨q, here, fails⟩ := map_eq_some_iff.mp fails
  exact ⟨q, here, fails, (failing_fork_is_clean_iff (ready_machineOf nodup small here
    (isNone_iff_eq_none.mp room)) fails).mpr Point.noConfusion⟩

/-- With five pages left the first user page cannot be copied, and the call panics. -/
theorem fork_with_five_pages_panics :
    ∃ s q, Run (Vm.step 50) Free (boot (fun _ _ => 0) (List.range' 100 12)) [.userinit fun _ => 7] s ∧
      s.proc 1 = some q ∧ failure s.mem 50 q.root q.sz = some .copy ∧
      Ready (machineOf s) initproc q.root q.sz ∧
      fork 50 (machineOf s) initproc = .error .acquire := by
  refine Run.exists_two_with (P := fun s => s.mem.free.Nodup ∧ (∀ x ∈ s.mem.free, x < phystop) ∧
      (s.proc 0).isNone = true ∧
      (s.proc 1).map (fun q => failure s.mem 50 q.root q.sz) = some (some .copy) ∧
      (match fork 50 (machineOf s) initproc with | .error .acquire => true | _ => false) = true)
    (by decide +kernel) fun s run ⟨nodup, small, room, fails, panics⟩ => ?_
  obtain ⟨q, here, fails⟩ := map_eq_some_iff.mp fails
  refine ⟨q, here, fails, ready_machineOf nodup small here
    (isNone_iff_eq_none.mp room), ?_⟩
  split at panics
  · assumption
  · cases panics

end Xv6.Vm.Forking
