import Mathlib.Data.List.Infix
import Xv6.Interleaving
import Xv6.RingBuffer

/-! Pipes (pipe.c): any number of threads in `pipewrite` and `piperead`, which sleep with the lock
released, and the closing of the ends. The copies from and to user memory succeed. A pipe that is
closed at both ends is freed, and nothing happens to it any more. -/
namespace Xv6.PipeFifo
open Interleaving RingBuffer List Option
open Function (update update_eq_self update_of_ne update_self)

abbrev PIPESIZE : Nat := 512

abbrev Tid := Nat

/-- Where a thread is. A write has its bytes and the number `i` of those stored; a read has `n` and
the number of those delivered. In `writing`, `waiting` and `copying` the thread has the lock. -/
inductive Pc where
  | user (a0 : Int)
  | writeLock (src : List UInt8) (i : Nat)
  | writing (src : List UInt8) (i : Nat)
  | writeSleep (src : List UInt8) (i : Nat)
  | readLock (n : Int)
  | waiting (n : Int)
  | readSleep (n : Int)
  | copying (n : Int) (i : Nat)
  deriving DecidableEq

/-- A byte that has been stored, with the thread that stored it. -/
structure Stored where
  thread : Tid
  byte : UInt8
  deriving DecidableEq

/-- `struct pipe` with its lock, the threads, and what has happened so far: the bytes stored and
delivered in lock order, and the write calls of each thread that are over, each with the number of
its bytes that were stored. -/
structure State where
  data : Nat → UInt8
  nread : BitVec 32
  nwrite : BitVec 32
  readopen : Bool
  writeopen : Bool
  freed : Bool
  lock : Option Tid
  pc : Tid → Pc
  killed : Tid → Bool
  stored : List Stored
  delivered : List UInt8
  calls : Tid → List (List UInt8 × Nat)

def init : State where
  data _ := 0
  nread := 0
  nwrite := 0
  readopen := true
  writeopen := true
  freed := false
  lock := none
  pc _ := .user 0
  killed _ := false
  stored := []
  delivered := []
  calls _ := []

inductive Act where
  | pipewrite (src : List UInt8)
  | piperead (n : Int)
  | pipeclose (writable : Bool)
  | kill
  | go
  deriving DecidableEq

def Pc.call : Pc → List (List UInt8 × Nat)
  | .writeLock src i | .writing src i | .writeSleep src i => [(src, i)]
  | _ => []

def Pc.locked : Pc → Bool
  | .writing _ _ | .waiting _ | .copying _ _ => true
  | _ => false

def wakeReaders : Pc → Pc
  | .readSleep n => .readLock n
  | pc => pc

def wakeWriters : Pc → Pc
  | .writeSleep src i => .writeLock src i
  | pc => pc

namespace State
def goto (s : State) (t : Tid) (pc : Pc) : State := { s with pc := update s.pc t pc }

def wakeupRead (s : State) : State := { s with pc := fun u => wakeReaders (s.pc u) }

def wakeupWrite (s : State) : State := { s with pc := fun u => wakeWriters (s.pc u) }

def acquire (s : State) (t : Tid) (pc : Pc) : Option State :=
  if s.lock = none then some ({ s with lock := some t }.goto t pc) else none

def release (s : State) (t : Tid) (pc : Pc) : State := { s with lock := none }.goto t pc

def finish (s : State) (t : Tid) (src : List UInt8) (i : Nat) (r : Int) : State :=
  { s with calls := update s.calls t (s.calls t ++ [(src, i)]) }.release t (.user r)

def store (s : State) (t : Tid) (src : List UInt8) (i : Nat) (ch : UInt8) : State :=
  { s with
    data := update s.data (s.nwrite.toNat % PIPESIZE) ch
    nwrite := s.nwrite + 1
    stored := s.stored ++ [Stored.mk t ch] }.goto t (.writing src (i + 1))

def deliver (s : State) (t : Tid) (n : Int) (i : Nat) : State :=
  { s with
    nread := s.nread + 1
    delivered := s.delivered ++ [s.data (s.nread.toNat % PIPESIZE)] }.goto t (.copying n (i + 1))

def pipewrite (s : State) (t : Tid) (src : List UInt8) (i : Nat) : State :=
  match src[i]? with
  | none => s.wakeupRead.finish t src i i
  | some ch =>
    if s.readopen = false ∨ s.killed t = true then s.finish t src i (-1)
    else if s.nwrite = s.nread + BitVec.ofNat 32 PIPESIZE then
      s.wakeupRead.release t (.writeSleep src i)
    else s.store t src i ch

def pipereadWait (s : State) (t : Tid) (n : Int) : State :=
  if s.nread = s.nwrite ∧ s.writeopen = true then
    if s.killed t = true then s.release t (.user (-1)) else s.release t (.readSleep n)
  else s.goto t (.copying n 0)

def pipereadCopy (s : State) (t : Tid) (n : Int) (i : Nat) : State :=
  if (i : Int) < n ∧ s.nread ≠ s.nwrite then s.deliver t n i
  else s.wakeupWrite.release t (.user i)

/-- `pipeclose`; the lock is taken and released in it. -/
def pipeclose (s : State) (writable : Bool) : State :=
  let s := if writable then { s with writeopen := false }.wakeupRead
    else { s with readopen := false }.wakeupWrite
  { s with freed := !s.readopen && !s.writeopen }

def kill (s : State) (t : Tid) : State :=
  { s with killed := update s.killed t true }.goto t (wakeReaders (wakeWriters (s.pc t)))

def thread (s : State) (t : Tid) : Option State :=
  match s.pc t with
  | .writeLock src i => s.acquire t (.writing src i)
  | .writing src i => some (s.pipewrite t src i)
  | .readLock n => s.acquire t (.waiting n)
  | .waiting n => some (s.pipereadWait t n)
  | .copying n i => some (s.pipereadCopy t n i)
  | _ => none

end State

def step (s : State) (a : Tid × Act) : Option State :=
  if s.freed = true then none
  else
    match a.2, s.pc a.1 with
    | .pipewrite src, .user _ => some (s.goto a.1 (.writeLock src 0))
    | .piperead n, .user _ => some (s.goto a.1 (.readLock n))
    | .pipeclose writable, .user _ => if s.lock = none then some (s.pipeclose writable) else none
    | .kill, _ => some (s.kill a.1)
    | .go, _ => s.thread a.1
    | _, _ => none

variable {s s' : State} {t u : Tid} {a : Tid × Act} {as : List (Tid × Act)}

def State.bytesOf (s : State) (t : Tid) : List UInt8 :=
  (s.stored.filter fun x => x.thread = t).map Stored.byte

def written (calls : List (List UInt8 × Nat)) : List UInt8 := calls.flatMap fun c => c.1.take c.2

/-- The counters and the buffer agree with what has been stored and delivered. -/
structure Buffer (s : State) : Prop where
  nread : s.nread = BitVec.ofNat 32 s.delivered.length
  nwrite : s.nwrite = BitVec.ofNat 32 s.stored.length
  le : s.delivered.length ≤ s.stored.length
  room : s.stored.length ≤ s.delivered.length + PIPESIZE
  data : Holds PIPESIZE s.data (s.stored.map Stored.byte) s.delivered.length
  order : s.delivered <+: s.stored.map Stored.byte

/-- A thread has the lock where the code says so, its bytes are those of its calls, and it copies
only when there is a byte or no writer. -/
structure Thread (s : State) (t : Tid) : Prop where
  lock : (s.pc t).locked = true → s.lock = some t
  bytes : s.bytesOf t = written (s.calls t ++ (s.pc t).call)
  inside : ∀ c ∈ (s.pc t).call, c.2 ≤ c.1.length
  ready : ∀ n, s.pc t = .copying n 0 → s.nread ≠ s.nwrite ∨ s.writeopen = false

structure Inv (s : State) : Prop where
  buffer : Buffer s
  thread : ∀ t, Thread s t

lemma buffer_init : Buffer init :=
  ⟨rfl, rfl, le_rfl, Nat.zero_le _, .nil _ 0, prefix_refl []⟩

lemma inv_init : Inv init :=
  ⟨buffer_init, fun _ => ⟨Bool.noConfusion, rfl, fun _ mem => absurd mem not_mem_nil,
    fun _ h => Pc.noConfusion h⟩⟩

lemma size_eq : PIPESIZE = 512 := rfl

namespace Buffer
lemma of_eq (h : Buffer s) (data : s'.data = s.data) (nread : s'.nread = s.nread)
    (nwrite : s'.nwrite = s.nwrite) (stored : s'.stored = s.stored)
    (delivered : s'.delivered = s.delivered) : Buffer s' := by
  obtain ⟨r, w, le, room, holds, order⟩ := h
  refine ⟨?_, ?_, ?_, ?_, ?_, ?_⟩
  · rw [nread, delivered, r]
  · rw [nwrite, stored, w]
  · rwa [stored, delivered]
  · rwa [stored, delivered]
  · rwa [data, stored, delivered]
  rwa [stored, delivered]

lemma empty_iff (h : Buffer s) : s.nread = s.nwrite ↔ s.delivered.length = s.stored.length := by
  rw [h.nread, h.nwrite, counter_eq_iff h.le (by have := h.room; have := size_eq; omega)]

lemma full_iff (h : Buffer s) : s.nwrite = s.nread + BitVec.ofNat 32 PIPESIZE ↔
    s.stored.length = s.delivered.length + PIPESIZE := by
  have le := h.le
  have size := size_eq
  rw [h.nread, h.nwrite, counter_add, counter_eq_iff h.room (by omega)]

lemma buffered (h : Buffer s) :
    (s.nwrite - s.nread).toNat = s.stored.length - s.delivered.length := by
  have room := h.room
  have size := size_eq
  rw [h.nwrite, h.nread, counter_sub h.le (by omega)]

lemma store (h : Buffer s) (space : s.nwrite ≠ s.nread + BitVec.ofNat 32 PIPESIZE)
    (src : List UInt8) (i : Nat) (ch : UInt8) : Buffer (s.store t src i ch) := by
  have room : s.stored.length < s.delivered.length + PIPESIZE :=
    Nat.lt_of_le_of_ne h.room fun full => space (h.full_iff.mpr full)
  have length : (s.stored ++ [Stored.mk t ch]).length = s.stored.length + 1 := length_append
  have bytes : (s.stored ++ [Stored.mk t ch]).map Stored.byte = s.stored.map Stored.byte ++ [ch] :=
    map_append
  have le := h.le
  refine ⟨h.nread, ?_, ?_, ?_, ?_, ?_⟩
  · change s.nwrite + 1 = BitVec.ofNat 32 (s.stored ++ [Stored.mk t ch]).length
    rw [h.nwrite, length, counter_succ]
  · change s.delivered.length ≤ (s.stored ++ [Stored.mk t ch]).length
    omega
  · change (s.stored ++ [Stored.mk t ch]).length ≤ s.delivered.length + PIPESIZE
    omega
  · have slot : s.nwrite.toNat % PIPESIZE = (s.stored.map Stored.byte).length % PIPESIZE := by
      rw [h.nwrite, counter_mod (by decide), length_map]
    change Holds PIPESIZE (update s.data (s.nwrite.toNat % PIPESIZE) ch)
      ((s.stored ++ [Stored.mk t ch]).map Stored.byte) s.delivered.length
    rw [bytes, slot]
    exact h.data.push (by rwa [length_map]) ch
  change s.delivered <+: (s.stored ++ [Stored.mk t ch]).map Stored.byte
  rw [bytes]
  exact h.order.trans (prefix_append _ _)

lemma deliver (h : Buffer s) (some : s.nread ≠ s.nwrite) (n : Int) (i : Nat) :
    Buffer (s.deliver t n i) := by
  obtain ⟨rest, split⟩ := h.order
  cases rest with
  | nil =>
    have lengths := congrArg List.length split
    rw [append_nil, length_map] at lengths
    exact absurd (h.empty_iff.mpr lengths) some
  | cons b rest =>
    have slot : s.nread.toNat % PIPESIZE = s.delivered.length % PIPESIZE := by
      rw [h.nread, counter_mod (by decide)]
    have next : s.data (s.nread.toNat % PIPESIZE) = b := by
      rw [slot]
      refine h.data.get ?_
      rw [← split, List.getElem?_append_right le_rfl, Nat.sub_self]
      rfl
    have lengths := congrArg List.length split
    rw [length_append, length_cons, length_map] at lengths
    have length : ∀ x, (s.delivered ++ [x]).length = s.delivered.length + 1 := fun _ =>
      length_append
    have room := h.room
    refine ⟨?_, h.nwrite, ?_, ?_, ?_, rest, ?_⟩
    · change s.nread + 1 = BitVec.ofNat 32 (s.delivered ++ [_]).length
      rw [h.nread, length, counter_succ]
    · change (s.delivered ++ [_]).length ≤ s.stored.length
      rw [length]
      omega
    · change s.stored.length ≤ (s.delivered ++ [_]).length + PIPESIZE
      rw [length]
      omega
    · change Holds PIPESIZE s.data (s.stored.map Stored.byte) (s.delivered ++ [_]).length
      rw [length]
      exact h.data.mono (Nat.le_succ _)
    change s.delivered ++ [s.data (s.nread.toNat % PIPESIZE)] ++ rest = _
    rw [next, append_assoc, singleton_append]
    exact split

end Buffer

lemma Thread.other (h : Thread s u) (pc : s'.pc u = s.pc u ∨ (s'.pc u).locked = false ∧
    (s'.pc u).call = (s.pc u).call) (calls : s'.calls u = s.calls u)
    (bytes : s'.bytesOf u = s.bytesOf u) (quiet : (s.pc u).locked = true → s'.lock = s.lock ∧
    s'.nread = s.nread ∧ s'.nwrite = s.nwrite ∧ s'.writeopen = s.writeopen) : Thread s' u := by
  have call : (s'.pc u).call = (s.pc u).call := by
    rcases pc with same | ⟨-, same⟩
    · rw [same]
    exact same
  have still : (s'.pc u).locked = true → s'.pc u = s.pc u := fun locked => by
    rcases pc with same | ⟨out, -⟩
    · exact same
    rw [out] at locked
    cases locked
  refine ⟨fun locked => ?_, ?_, by rw [call]; exact h.inside, fun n copies => ?_⟩
  · rw [still locked] at locked
    rw [(quiet locked).1]
    exact h.lock locked
  · rw [bytes, calls, call]
    exact h.bytes
  have locked : (s'.pc u).locked = true := by
    rw [copies]
    rfl
  rw [still locked] at copies locked
  obtain ⟨-, nread, nwrite, writeopen⟩ := quiet locked
  rw [nread, nwrite, writeopen]
  exact h.ready n copies

lemma wakeReaders_or (pc : Pc) :
    wakeReaders pc = pc ∨ (wakeReaders pc).locked = false ∧ (wakeReaders pc).call = pc.call := by
  cases pc with
  | readSleep n => exact .inr ⟨rfl, rfl⟩
  | _ => exact .inl rfl

lemma wakeWriters_or (pc : Pc) :
    wakeWriters pc = pc ∨ (wakeWriters pc).locked = false ∧ (wakeWriters pc).call = pc.call := by
  cases pc with
  | writeSleep src i => exact .inr ⟨rfl, rfl⟩
  | _ => exact .inl rfl

namespace Inv
lemma locked_unique (h : Inv s) (mine : (s.pc t).locked = true) (other : u ≠ t) :
    ¬ (s.pc u).locked = true := fun theirs =>
  other (some.inj (((h.thread u).lock theirs).symm.trans ((h.thread t).lock mine)))

lemma locked_none (h : Inv s) (free : s.lock = none) : ¬ (s.pc u).locked = true :=
  fun mine => some_ne_none u (((h.thread u).lock mine).symm.trans free)

lemma others (h : Inv s) (out : ∀ u, u ≠ t → ¬ (s.pc u).locked = true)
    (pc : ∀ u, u ≠ t → s'.pc u = s.pc u ∨ (s'.pc u).locked = false ∧ (s'.pc u).call = (s.pc u).call)
    (calls : ∀ u, u ≠ t → s'.calls u = s.calls u) (bytes : ∀ u, u ≠ t → s'.bytesOf u = s.bytesOf u)
    (mine : Thread s' t) (u : Tid) : Thread s' u := by
  by_cases same : u = t
  · rw [same]
    exact mine
  exact (h.thread u).other (pc u same) (calls u same) (bytes u same)
    fun locked => absurd locked (out u same)

lemma goto_pc (s : State) (t : Tid) (pc : Pc) : (s.goto t pc).pc t = pc := update_self ..

lemma goto_of_ne (s : State) (pc : Pc) (other : u ≠ t) : (s.goto t pc).pc u = s.pc u :=
  update_of_ne other ..

variable {pc : Pc} {i : Nat} {n : Int}

lemma enter (h : Inv s) (out : pc.locked = false)
    (call : written (s.calls t ++ pc.call) = written (s.calls t ++ (s.pc t).call))
    (inside : ∀ c ∈ pc.call, c.2 ≤ c.1.length) : Inv (s.goto t pc) := by
  refine ⟨h.buffer.of_eq rfl rfl rfl rfl rfl, fun u => ?_⟩
  by_cases same : u = t
  · subst same
    have here := goto_pc s u pc
    refine ⟨fun locked => ?_, ?_, by rw [here]; exact inside, fun n copies => ?_⟩
    · rw [here, out] at locked
      cases locked
    · rw [here]
      exact (h.thread u).bytes.trans call.symm
    rw [here] at copies
    rw [copies] at out
    cases out
  exact (h.thread u).other (.inl (goto_of_ne s pc same)) rfl rfl fun _ => ⟨rfl, rfl, rfl, rfl⟩

lemma kill (h : Inv s) (t : Tid) : Inv (s.kill t) := by
  refine ⟨h.buffer.of_eq rfl rfl rfl rfl rfl, fun u => (h.thread u).other ?_ rfl rfl
    fun _ => ⟨rfl, rfl, rfl, rfl⟩⟩
  by_cases same : u = t
  · subst same
    have here : (s.kill u).pc u = wakeReaders (wakeWriters (s.pc u)) := update_self ..
    rw [here]
    cases s.pc u with
    | readSleep n => exact .inr ⟨rfl, rfl⟩
    | writeSleep src i => exact .inr ⟨rfl, rfl⟩
    | _ => exact .inl rfl
  exact .inl (update_of_ne same ..)

lemma pipeclose (h : Inv s) (free : s.lock = none) (writable : Bool) :
    Inv (s.pipeclose writable) := by
  cases writable with
  | true =>
    exact ⟨h.buffer.of_eq rfl rfl rfl rfl rfl, fun u => (h.thread u).other (wakeReaders_or (s.pc u))
      rfl rfl fun locked => absurd locked (h.locked_none free)⟩
  | false =>
    exact ⟨h.buffer.of_eq rfl rfl rfl rfl rfl, fun u => (h.thread u).other (wakeWriters_or (s.pc u))
      rfl rfl fun locked => absurd locked (h.locked_none free)⟩

lemma acquire (h : Inv s) (next : s.acquire t pc = some s') (call : pc.call = (s.pc t).call)
    (enters : ∀ n, pc ≠ .copying n 0) : Inv s' := by
  obtain ⟨free, rfl⟩ := guarded.mp next
  refine ⟨h.buffer.of_eq rfl rfl rfl rfl rfl, h.others (t := t) (fun u _ => h.locked_none free)
    (fun u other => .inl (goto_of_ne _ pc other)) (fun _ _ => rfl) (fun _ _ => rfl) ?_⟩
  have here : ({ s with lock := some t }.goto t pc).pc t = pc := goto_pc ..
  refine ⟨fun _ => rfl, ?_, ?_, fun n copies => absurd (here.symm.trans copies) (enters n)⟩
  · rw [here, call]
    exact (h.thread t).bytes
  rw [here, call]
  exact (h.thread t).inside

lemma release (h : Inv s) (mine : (s.pc t).locked = true) (out : pc.locked = false)
    (wake : Pc → Pc) (wakes : ∀ p, wake p = p ∨ (wake p).locked = false ∧ (wake p).call = p.call)
    (calls : List (List UInt8 × Nat)) (call : calls ++ pc.call = s.calls t ++ (s.pc t).call)
    (inside : ∀ c ∈ pc.call, c.2 ≤ c.1.length) :
    Inv ({ s with
      pc := fun u => wake (s.pc u)
      calls := update s.calls t calls }.release t pc) := by
  refine ⟨h.buffer.of_eq rfl rfl rfl rfl rfl, h.others (t := t) (fun u other => h.locked_unique mine
    other) (fun u other => ?_) (fun u other => update_of_ne other ..) (fun _ _ => rfl) ?_⟩
  · have there := goto_of_ne { s with
      pc := fun u => wake (s.pc u)
      calls := update s.calls t calls, lock := none } pc other
    rw [State.release, there]
    exact wakes (s.pc u)
  have here := goto_pc { s with
    pc := fun u => wake (s.pc u)
    calls := update s.calls t calls, lock := none } t pc
  have own : update s.calls t calls t = calls := update_self ..
  refine ⟨fun locked => ?_, ?_, ?_, fun n copies => ?_⟩
  · rw [State.release, here, out] at locked
    cases locked
  · rw [State.release, here]
    change s.bytesOf t = written (update s.calls t calls t ++ pc.call)
    rw [own, call]
    exact (h.thread t).bytes
  · rw [State.release, here]
    exact inside
  rw [State.release, here] at copies
  rw [copies] at out
  cases out

lemma bytesOf_store (s : State) (src : List UInt8) (i : Nat) (ch : UInt8) (u : Tid) :
    (s.store t src i ch).bytesOf u = s.bytesOf u ++ if t = u then [ch] else [] := by
  change ((s.stored ++ [Stored.mk t ch]).filter _).map _ = _
  rw [filter_append, map_append]
  refine congrArg (s.bytesOf u ++ ·) ?_
  by_cases same : t = u
  · simp [same]
  simp [same]

lemma written_append (calls : List (List UInt8 × Nat)) (src : List UInt8) (i : Nat) :
    written (calls ++ [(src, i)]) = written calls ++ src.take i := by simp [written]

lemma store (h : Inv s) {src : List UInt8} {ch : UInt8} (pc : s.pc t = .writing src i)
    (byte : src[i]? = some ch) (space : s.nwrite ≠ s.nread + BitVec.ofNat 32 PIPESIZE) :
    Inv (s.store t src i ch) := by
  have mine : (s.pc t).locked = true := pc ▸ rfl
  obtain ⟨inside, value⟩ := List.getElem?_eq_some_iff.mp byte
  have here : (s.store t src i ch).pc t = .writing src (i + 1) := goto_pc ..
  refine ⟨h.buffer.store space src i ch, h.others (t := t) (fun u other => h.locked_unique mine
    other) (fun u other => .inl (goto_of_ne _ _ other)) (fun _ _ => rfl) (fun u other => ?_) ?_⟩
  · rw [bytesOf_store, if_neg other.symm, append_nil]
  refine ⟨fun _ => (h.thread t).lock mine, ?_, ?_, fun n copies => ?_⟩
  · have before := (h.thread t).bytes
    rw [pc] at before
    rw [bytesOf_store, if_pos rfl, before, here]
    change written (s.calls t ++ [(src, i)]) ++ [ch] = written (s.calls t ++ [(src, i + 1)])
    rw [written_append, written_append, append_assoc, ← value, take_append_getElem]
  · rw [here]
    intro c mem
    rw [mem_singleton.mp mem]
    exact inside
  rw [here] at copies
  cases copies

lemma deliver (h : Inv s) (pc : s.pc t = .copying n i) (some : s.nread ≠ s.nwrite) :
    Inv (s.deliver t n i) := by
  have mine : (s.pc t).locked = true := pc ▸ rfl
  have here : (s.deliver t n i).pc t = .copying n (i + 1) := goto_pc ..
  refine ⟨h.buffer.deliver some n i, h.others (t := t) (fun u other => h.locked_unique mine other)
    (fun u other => .inl (goto_of_ne _ _ other)) (fun _ _ => rfl) (fun _ _ => rfl) ?_⟩
  refine ⟨fun _ => (h.thread t).lock mine, ?_, ?_, fun m copies => ?_⟩
  · have before := (h.thread t).bytes
    rw [pc] at before
    rw [here]
    exact before
  · rw [here]
    exact fun _ mem => absurd mem not_mem_nil
  rw [here] at copies
  cases copies

lemma leave (h : Inv s) (mine : (s.pc t).locked = true) (out : pc.locked = false)
    (call : pc.call = (s.pc t).call) : Inv (s.release t pc) := by
  have left := h.release mine out (fun p => p) (fun _ => .inl rfl) (s.calls t) (by rw [call])
    (by rw [call]; exact (h.thread t).inside)
  rw [update_eq_self] at left
  exact left

lemma pipewrite (h : Inv s) {src : List UInt8} (pc : s.pc t = .writing src i) :
    Inv (s.pipewrite t src i) := by
  have mine : (s.pc t).locked = true := pc ▸ rfl
  have ended : (s.calls t ++ [(src, i)]) ++ Pc.call (.user 0) = s.calls t ++ (s.pc t).call := by
    rw [pc]
    exact append_nil _
  have none : ∀ (r : Int), ∀ c ∈ Pc.call (.user r), c.2 ≤ c.1.length := fun _ _ mem =>
    absurd mem not_mem_nil
  unfold State.pipewrite
  cases byte : src[i]? with
  | none => exact h.release mine rfl wakeReaders wakeReaders_or (s.calls t ++ [(src, i)]) ended (none i)
  | some ch =>
    dsimp only
    split_ifs with stop full
    · exact h.release mine rfl (fun p => p) (fun _ => .inl rfl) (s.calls t ++ [(src, i)]) ended
        (none (-1))
    · have slept := h.release mine (show Pc.locked (.writeSleep src i) = false from rfl) wakeReaders
        wakeReaders_or (s.calls t) (pc ▸ rfl)
        (by have inside := (h.thread t).inside; rw [pc] at inside; exact inside)
      rw [update_eq_self] at slept
      exact slept
    exact h.store pc byte full

lemma pipereadWait (h : Inv s) (pc : s.pc t = .waiting n) : Inv (s.pipereadWait t n) := by
  have mine : (s.pc t).locked = true := pc ▸ rfl
  unfold State.pipereadWait
  split_ifs with empty dead
  · exact h.leave mine rfl (pc ▸ rfl)
  · exact h.leave mine rfl (pc ▸ rfl)
  have here : (s.goto t (.copying n 0)).pc t = .copying n 0 := goto_pc ..
  refine ⟨h.buffer.of_eq rfl rfl rfl rfl rfl, h.others (t := t) (fun u other => h.locked_unique mine
    other) (fun u other => .inl (goto_of_ne _ _ other)) (fun _ _ => rfl) (fun _ _ => rfl) ?_⟩
  refine ⟨fun _ => (h.thread t).lock mine, ?_, ?_, fun _ _ => ?_⟩
  · have before := (h.thread t).bytes
    rw [pc] at before
    rw [here]
    exact before
  · rw [here]
    exact fun _ mem => absurd mem not_mem_nil
  change s.nread ≠ s.nwrite ∨ s.writeopen = false
  by_cases bytes : s.nread = s.nwrite
  · exact .inr (Bool.eq_false_iff.mpr fun opened => empty ⟨bytes, opened⟩)
  exact .inl bytes

lemma pipereadCopy (h : Inv s) (pc : s.pc t = .copying n i) : Inv (s.pipereadCopy t n i) := by
  have mine : (s.pc t).locked = true := pc ▸ rfl
  unfold State.pipereadCopy
  split_ifs with more
  · exact h.deliver pc more.2
  have left := h.release mine (show Pc.locked (.user i) = false from rfl) wakeWriters wakeWriters_or
    (s.calls t) (pc ▸ rfl) fun _ mem => absurd mem not_mem_nil
  rw [update_eq_self] at left
  exact left

lemma step (h : Inv s) (next : PipeFifo.step s a = some s') : Inv s' := by
  obtain ⟨t, act⟩ := a
  obtain ⟨-, next⟩ := ite_none_left_eq_some.mp next
  cases act with
  | kill =>
    cases next
    exact h.kill t
  | go =>
    change s.thread t = some s' at next
    unfold State.thread at next
    generalize pc : s.pc t = pos at next
    cases pos with
    | writeLock src i => exact h.acquire next (pc ▸ rfl) fun n => Pc.noConfusion
    | writing src i =>
      cases next
      exact h.pipewrite pc
    | readLock n => exact h.acquire next (pc ▸ rfl) fun n => Pc.noConfusion
    | waiting n =>
      cases next
      exact h.pipereadWait pc
    | copying n i =>
      cases next
      exact h.pipereadCopy pc
    | user a0 | writeSleep src i | readSleep n => cases next
  | pipewrite src =>
    cases pc : s.pc t with
    | user a0 =>
      rw [pc] at next
      cases next
      refine h.enter rfl ?_ fun c mem => ?_
      · rw [pc]
        change written (s.calls t ++ [(src, 0)]) = written (s.calls t ++ [])
        rw [written_append, append_nil]
        exact append_nil _
      rw [mem_singleton.mp mem]
      exact Nat.zero_le _
    | _ =>
      rw [pc] at next
      cases next
  | piperead n =>
    cases pc : s.pc t with
    | user a0 =>
      rw [pc] at next
      cases next
      exact h.enter rfl (pc ▸ rfl) fun c mem => absurd mem not_mem_nil
    | _ =>
      rw [pc] at next
      cases next
  | pipeclose writable =>
    cases pc : s.pc t with
    | user a0 =>
      rw [pc] at next
      obtain ⟨free, rfl⟩ := guarded.mp next
      exact h.pipeclose free writable
    | _ =>
      rw [pc] at next
      cases next

end Inv

lemma Inv.end_of_file (h : Inv s) (pc : s.pc t = .copying n i) (wants : 0 < n)
    (next : PipeFifo.step s (t, .go) = some s') (zero : s'.pc t = .user 0) :
    s.nread = s.nwrite ∧ s.writeopen = false := by
  obtain ⟨-, next⟩ := ite_none_left_eq_some.mp next
  change s.thread t = some s' at next
  rw [State.thread, pc] at next
  cases next
  unfold State.pipereadCopy at zero
  split_ifs at zero with more
  · rw [State.deliver, Inv.goto_pc] at zero
    cases zero
  rw [State.release, Inv.goto_pc] at zero
  obtain rfl : i = 0 := by
    have value := Pc.user.inj zero
    omega
  have empty : s.nread = s.nwrite := not_not.mp fun bytes => more ⟨wants, bytes⟩
  rcases (h.thread t).ready n pc with bytes | closed
  · exact absurd empty bytes
  exact ⟨empty, closed⟩

/-- A pipe is a FIFO: at most `PIPESIZE` bytes are buffered, the bytes delivered are the first ones
stored, each thread stores the first bytes of each of its calls in order, the buffer has the bytes
that are not delivered, and a read returns 0 only from an empty pipe whose write end is closed. -/
theorem pipe_is_fifo (run : Run step Free init as s) :
    (s.nwrite - s.nread).toNat ≤ PIPESIZE ∧
    s.delivered <+: s.stored.map Stored.byte ∧
    (∀ t, s.bytesOf t = written (s.calls t ++ (s.pc t).call)) ∧
    (∀ k x, k < (s.nwrite - s.nread).toNat → s.stored[s.delivered.length + k]? = some x →
      s.data ((s.nread + BitVec.ofNat 32 k).toNat % PIPESIZE) = x.byte) ∧
    ∀ t n i s', s.pc t = .copying n i → 0 < n → step s (t, .go) = some s' → s'.pc t = .user 0 →
      s.nread = s.nwrite ∧ s.writeopen = false := by
  have h : Inv s := run.invariant (I := Inv) (fun _ _ _ h _ next => h.step next) inv_init
  refine ⟨?_, h.buffer.order, fun t => (h.thread t).bytes, fun k x _ here => ?_,
    fun t n i s' pc wants next zero => h.end_of_file pc wants next zero⟩
  · have room := h.buffer.room
    rw [h.buffer.buffered]
    omega
  rw [h.buffer.nread, counter_add, counter_mod (by decide)]
  refine h.buffer.data (s.delivered.length + k) x.byte (Nat.le_add_right _ k) ?_
  rw [List.getElem?_map, here]
  rfl

/-- Two writers, the second of which waits for the lock, and a reader of five bytes. -/
theorem interleaved_writers_are_read_in_order :
    ∃ s, Run step Free init
      ([(0, .pipewrite [1, 2, 3]), (1, .pipewrite [7, 8]), (2, .piperead 5), (2, .go), (2, .go)] ++
        List.replicate 5 (0, .go) ++ List.replicate 4 (1, .go) ++ List.replicate 8 (2, .go)) s ∧
      s.delivered = [1, 2, 3, 7, 8] ∧ s.pc 2 = .user 5 ∧
      s.delivered <+: s.stored.map Stored.byte ∧ s.bytesOf 1 = written (s.calls 1 ++ (s.pc 1).call) := by
  refine Run.exists_with (P := fun s => s.delivered = [1, 2, 3, 7, 8] ∧ s.pc 2 = .user 5)
    (by decide +kernel) fun s run ⟨delivered, returned⟩ => ?_
  obtain ⟨-, order, bytes, -⟩ := pipe_is_fifo run
  exact ⟨delivered, returned, order, bytes 1⟩

end Xv6.PipeFifo
