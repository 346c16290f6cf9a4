import Mathlib.Data.List.Infix
import Xv6.Interleaving
import Xv6.RingBuffer

/-! Console input (console.c): `consoleintr` edits the current line in a ring buffer, and any number
of threads in `consoleread` take what has been committed. The copies to user memory succeed; the
echo is left out. -/
namespace Xv6.Console
open Interleaving RingBuffer List Prod
open Function (update update_of_ne update_self)

abbrev INPUT_BUF_SIZE : Nat := 128

/-- `C('P')`, `C('U')`, `C('H')`, the delete key, `C('D')`, and the ends of a line. -/
abbrev ctrlP : UInt8 := 16
abbrev ctrlU : UInt8 := 21
abbrev ctrlH : UInt8 := 8
abbrev del : UInt8 := 127
abbrev ctrlD : UInt8 := 4
abbrev newline : UInt8 := 10
abbrev carriageReturn : UInt8 := 13

structure Cons where
  buf : Nat → UInt8
  r : BitVec 32
  w : BitVec 32
  e : BitVec 32

/-- The loop for `C('U')`, which ends at the latest when `e` has come back to `w`. -/
def Cons.killLine : Nat → Cons → Cons
  | 0, s => s
  | k + 1, s =>
    if s.e ≠ s.w ∧ s.buf ((s.e - 1).toNat % INPUT_BUF_SIZE) ≠ newline then
      killLine k { s with e := s.e - 1 }
    else s

/-- The default case of `consoleintr`, and whether it calls `wakeup`. -/
def Cons.input (s : Cons) (c : UInt8) : Cons × Bool :=
  if c ≠ 0 ∧ (s.e - s.r).toNat < INPUT_BUF_SIZE then
    let c := if c = carriageReturn then newline else c
    let s := { s with
      buf := update s.buf (s.e.toNat % INPUT_BUF_SIZE) c
      e := s.e + 1 }
    if c = newline ∨ c = ctrlD ∨ (s.e - s.r).toNat = INPUT_BUF_SIZE then ({ s with w := s.e }, true)
    else (s, false)
  else (s, false)

def Cons.consoleintr (s : Cons) (c : UInt8) : Cons × Bool :=
  if c = ctrlP then (s, false)
  else if c = ctrlU then (s.killLine (s.e - s.w).toNat, false)
  else if c = ctrlH ∨ c = del then (if s.e ≠ s.w then { s with e := s.e - 1 } else s, false)
  else s.input c

/-! The specification: a line editor on lists that never wrap. -/

/-- The input that is committed, how much of it has been read, and the line being edited. -/
structure Editor where
  committed : List UInt8
  line : List UInt8
  taken : Nat

namespace Editor
def empty : Editor := ⟨[], [], 0⟩

def append (d : Editor) (c : UInt8) : Editor :=
  if c = newline ∨ c = ctrlD ∨ d.committed.length + d.line.length + 1 = d.taken + INPUT_BUF_SIZE then
    { d with committed := d.committed ++ d.line ++ [c], line := [] }
  else { d with line := d.line ++ [c] }

def key (d : Editor) (c : UInt8) : Editor :=
  if c = ctrlP then d
  else if c = ctrlU then { d with line := [] }
  else if c = ctrlH ∨ c = del then { d with line := d.line.dropLast }
  else if c ≠ 0 ∧ d.committed.length + d.line.length < d.taken + INPUT_BUF_SIZE then
    d.append (if c = carriageReturn then newline else c)
  else d

def take (d : Editor) : Editor := { d with taken := d.taken + 1 }

end Editor

inductive Event where
  | key (c : UInt8)
  | take
  deriving DecidableEq

def Editor.event (d : Editor) : Event → Editor
  | .key c => d.key c
  | .take => d.take

def edit (events : List Event) : Editor := events.foldl Editor.event .empty

lemma edit_append (events : List Event) (e : Event) :
    edit (events ++ [e]) = (edit events).event e := by
  rw [edit, foldl_append]
  rfl

structure Shows (s : Cons) (d : Editor) : Prop where
  r : s.r = BitVec.ofNat 32 d.taken
  w : s.w = BitVec.ofNat 32 d.committed.length
  e : s.e = BitVec.ofNat 32 (d.committed ++ d.line).length
  taken : d.taken ≤ d.committed.length
  room : (d.committed ++ d.line).length ≤ d.taken + INPUT_BUF_SIZE
  holds : Holds INPUT_BUF_SIZE s.buf (d.committed ++ d.line) d.taken
  open_line : newline ∉ d.line

variable {s : Cons} {d : Editor} {c : UInt8}

lemma size_eq : INPUT_BUF_SIZE = 128 := rfl

namespace Shows
lemma length (h : Shows s d) : (s.e - s.r).toNat = d.committed.length + d.line.length - d.taken ∧
    (s.w - s.r).toNat = d.committed.length - d.taken ∧ (s.e - s.w).toNat = d.line.length := by
  obtain ⟨r, w, e, taken, room, -, -⟩ := h
  have size := size_eq
  rw [length_append] at e room
  rw [r, w, e, counter_sub (by omega) (by omega), counter_sub taken (by omega),
    counter_sub (by omega) (by omega)]
  omega

lemma edit_empty_iff (h : Shows s d) : s.e = s.w ↔ d.line = [] := by
  obtain ⟨-, w, e, taken, room, -, -⟩ := h
  have size := size_eq
  rw [length_append] at e room
  rw [w, e, eq_comm, counter_eq_iff (by omega) (by omega), ← length_eq_zero_iff]
  omega

lemma read_empty_iff (h : Shows s d) : s.r = s.w ↔ d.taken = d.committed.length := by
  obtain ⟨r, w, -, taken, room, -, -⟩ := h
  have size := size_eq
  rw [length_append] at room
  rw [r, w, counter_eq_iff taken (by omega)]

lemma erase {com line : List UInt8} {taken : Nat} {x : UInt8}
    (h : Shows s ⟨com, line ++ [x], taken⟩) :
    Shows { s with e := s.e - 1 } ⟨com, line, taken⟩ ∧ s.e ≠ s.w ∧
      s.buf ((s.e - 1).toNat % INPUT_BUF_SIZE) = x := by
  have some : s.e ≠ s.w := fun eq =>
    absurd (h.edit_empty_iff.mp eq) (append_ne_nil_of_right_ne_nil line (cons_ne_nil x []))
  obtain ⟨r, w, e, le, room, holds, open_line⟩ := h
  dsimp only at r w e le room holds open_line
  have longer : (com ++ (line ++ [x])).length = (com ++ line).length + 1 := by
    rw [← append_assoc, length_append]
    rfl
  have back : s.e - 1 = BitVec.ofNat 32 (com ++ line).length := by rw [e, longer, counter_pred]
  have shorter : (com ++ (line ++ [x])).take (com ++ line).length = com ++ line := by
    rw [← append_assoc, take_left]
  refine ⟨⟨r, w, back, le, by dsimp only; omega, ?_, fun mem => open_line (mem_append_left _ mem)⟩,
    some, ?_⟩
  · have held := holds.take (com ++ line).length
    rwa [shorter] at held
  rw [back, counter_mod (by decide)]
  refine holds _ x (by rw [length_append]; omega) ?_
  rw [← append_assoc, List.getElem?_concat_length]

lemma killLine (h : Shows s d) : Shows (s.killLine d.line.length) { d with line := [] } := by
  obtain ⟨com, line, taken⟩ := d
  induction line using List.reverseRecOn generalizing s with
  | nil => exact h
  | append_singleton line x ih =>
    obtain ⟨shorter, some, last⟩ := h.erase
    have inside : x ≠ newline := fun eq => h.open_line (by rw [eq]; simp)
    dsimp only
    rw [length_append, length_singleton, Cons.killLine,
      if_pos ⟨some, by rw [last]; exact inside⟩]
    exact ih shorter

lemma backspace (h : Shows s d) :
    Shows (if s.e ≠ s.w then { s with e := s.e - 1 } else s)
      { d with line := d.line.dropLast } := by
  obtain ⟨com, line, taken⟩ := d
  cases line using List.reverseRecOn with
  | nil =>
    rw [if_neg fun some => some (h.edit_empty_iff.mpr rfl)]
    exact h
  | append_singleton line x =>
    obtain ⟨shorter, some, -⟩ := h.erase
    rw [if_pos some]
    dsimp only
    rw [dropLast_concat]
    exact shorter

lemma input (h : Shows s d) (c : UInt8) :
    Shows (s.input c).1 (if c ≠ 0 ∧ d.committed.length + d.line.length < d.taken +
    INPUT_BUF_SIZE then d.append (if c = carriageReturn then newline else c) else d) := by
  have size := size_eq
  obtain ⟨filled, -, -⟩ := h.length
  have room := h.room
  have taken := h.taken
  rw [length_append] at room
  have space : (s.e - s.r).toNat < INPUT_BUF_SIZE ↔
      d.committed.length + d.line.length < d.taken + INPUT_BUF_SIZE := by
    rw [filled]
    omega
  unfold Cons.input
  by_cases accepted : c ≠ 0 ∧ d.committed.length + d.line.length < d.taken + INPUT_BUF_SIZE
  swap
  · rw [if_neg accepted, if_neg fun both => accepted ⟨both.1, space.mp both.2⟩]
    exact h
  rw [if_pos accepted, if_pos ⟨accepted.1, space.mpr accepted.2⟩]
  dsimp only
  generalize (if c = carriageReturn then newline else c) = x
  have longer : (d.committed ++ d.line ++ [x]).length = d.committed.length + d.line.length + 1 := by
    rw [length_append, length_append]
    rfl
  have e : s.e + 1 = BitVec.ofNat 32 (d.committed ++ d.line ++ [x]).length := by
    rw [h.e, counter_succ, longer, length_append]
  have holds : Holds INPUT_BUF_SIZE (update s.buf (s.e.toNat % INPUT_BUF_SIZE) x)
      (d.committed ++ d.line ++ [x]) d.taken := by
    rw [h.e, counter_mod (by decide)]
    exact h.holds.push (length_append ▸ accepted.2) x
  have full : (s.e + 1 - s.r).toNat = INPUT_BUF_SIZE ↔
      d.committed.length + d.line.length + 1 = d.taken + INPUT_BUF_SIZE := by
    rw [e, h.r, counter_sub (by omega) (by omega)]
    omega
  unfold Editor.append
  by_cases commit : x = newline ∨ x = ctrlD ∨
      d.committed.length + d.line.length + 1 = d.taken + INPUT_BUF_SIZE
  · rw [if_pos commit, if_pos (commit.imp_right (Or.imp_right full.mpr))]
    refine ⟨h.r, e, ?_, ?_, ?_, ?_, not_mem_nil⟩
    · dsimp only
      rw [append_nil]
      exact e
    · dsimp only
      omega
    · dsimp only
      rw [append_nil]
      omega
    dsimp only
    rw [append_nil]
    exact holds
  rw [if_neg commit, if_neg fun wakes => commit (wakes.imp_right (Or.imp_right full.mp))]
  refine ⟨h.r, h.w, ?_, taken, ?_, ?_, fun mem => ?_⟩
  · dsimp only
    rw [← append_assoc]
    exact e
  · dsimp only
    rw [← append_assoc]
    omega
  · dsimp only
    rw [← append_assoc]
    exact holds
  rcases mem_append.mp mem with old | new
  · exact h.open_line old
  exact commit (.inl (mem_singleton.mp new).symm)

lemma consoleintr (h : Shows s d) (c : UInt8) : Shows (s.consoleintr c).1 (d.key c) := by
  unfold Cons.consoleintr Editor.key
  by_cases print : c = ctrlP
  · rw [if_pos print, if_pos print]
    exact h
  rw [if_neg print, if_neg print]
  by_cases kill : c = ctrlU
  · rw [if_pos kill, if_pos kill]
    dsimp only
    rw [h.length.2.2]
    exact h.killLine
  rw [if_neg kill, if_neg kill]
  by_cases back : c = ctrlH ∨ c = del
  · rw [if_pos back, if_pos back]
    exact h.backspace
  rw [if_neg back, if_neg back]
  exact h.input c

lemma next (h : Shows s d) (some : s.r ≠ s.w) :
    d.committed[d.taken]? = .some (s.buf (s.r.toNat % INPUT_BUF_SIZE)) := by
  have more : d.taken < d.committed.length :=
    Nat.lt_of_le_of_ne h.taken fun eq => some (h.read_empty_iff.mpr eq)
  rw [List.getElem?_eq_getElem more, h.r, counter_mod (by decide)]
  refine congrArg Option.some (Eq.symm ?_)
  refine h.holds.get ?_
  rw [List.getElem?_append_left more, List.getElem?_eq_getElem more]

lemma read (h : Shows s d) (some : s.r ≠ s.w) : Shows { s with r := s.r + 1 } d.take := by
  have more : d.taken < d.committed.length :=
    Nat.lt_of_le_of_ne h.taken fun eq => some (h.read_empty_iff.mpr eq)
  have room := h.room
  refine ⟨?_, h.w, h.e, more, ?_, h.holds.mono (Nat.le_succ _), h.open_line⟩
  · dsimp only
    rw [h.r, counter_succ]
    rfl
  change _ ≤ d.taken + 1 + INPUT_BUF_SIZE
  exact room.trans (by omega)

end Shows

/-! The threads that read. -/

abbrev Tid := Nat

/-- Where a thread is: a read has its count and the bytes that it has copied so far. In `reading` it
has the lock. -/
inductive Pc where
  | user (a0 : Int)
  | readLock (n : Int) (got : List UInt8)
  | reading (n : Int) (got : List UInt8)
  | sleeping (n : Int) (got : List UInt8)
  deriving DecidableEq

/-- The console with its lock, the threads, and what has happened so far: the history of the line
editor, the bytes delivered in lock order, and the bytes of the reads of each thread that are
over. -/
structure State where
  cons : Cons
  lock : Option Tid
  pc : Tid → Pc
  killed : Tid → Bool
  events : List Event
  delivered : List (Tid × UInt8)
  reads : Tid → List (List UInt8)

def init : State where
  cons := ⟨fun _ => 0, 0, 0, 0⟩
  lock := none
  pc _ := .user 0
  killed _ := false
  events := []
  delivered := []
  reads _ := []

inductive Label where
  | intr (c : UInt8)
  | consoleread (t : Tid) (n : Int)
  | kill (t : Tid)
  | go (t : Tid)
  deriving DecidableEq

def Pc.got : Pc → List UInt8
  | .user _ => []
  | .readLock _ got | .reading _ got | .sleeping _ got => got

def Pc.locked : Pc → Bool
  | .reading _ _ => true
  | _ => false

def Pc.wakeup : Pc → Pc
  | .sleeping n got => .readLock n got
  | pc => pc

namespace State
def goto (s : State) (t : Tid) (pc : Pc) : State := { s with pc := update s.pc t pc }

def finish (s : State) (t : Tid) (got : List UInt8) (r : Int) : State :=
  { s with
    lock := none
    reads := update s.reads t (s.reads t ++ [got]) }.goto t (.user r)

def takeByte (s : State) : State :=
  { s with cons := { s.cons with r := s.cons.r + 1 }, events := s.events ++ [.take] }

def deliver (s : State) (t : Tid) (c : UInt8) : State :=
  { s with delivered := s.delivered ++ [(t, c)] }

/-- `consoleread` with a byte in the buffer. The byte `C('D')` stays there unless it is the first
one of the read. -/
def readByte (s : State) (t : Tid) (n : Int) (got : List UInt8) (c : UInt8) : State :=
  if c = ctrlD then
    if got = [] then s.takeByte.finish t [] 0 else s.finish t got got.length
  else
    let s := s.takeByte.deliver t c
    if c = newline then s.finish t (got ++ [c]) (got.length + 1)
    else s.goto t (.reading n (got ++ [c]))

def read (s : State) (t : Tid) (n : Int) (got : List UInt8) : State :=
  if (got.length : Int) < n then
    if s.cons.r = s.cons.w then
      if s.killed t = true then s.finish t got (-1)
      else { s with lock := none }.goto t (.sleeping n got)
    else s.readByte t n got (s.cons.buf (s.cons.r.toNat % INPUT_BUF_SIZE))
  else s.finish t got got.length

def consoleintr (s : State) (c : UInt8) : State :=
  { s with
    cons := (s.cons.consoleintr c).1
    pc := if (s.cons.consoleintr c).2 then fun t => (s.pc t).wakeup else s.pc
    events := s.events ++ [.key c] }

def kill (s : State) (t : Tid) : State :=
  { s with killed := update s.killed t true }.goto t (s.pc t).wakeup

end State

def step (s : State) : Label → Option State
  | .intr c => if s.lock = none then some (s.consoleintr c) else none
  | .consoleread t n =>
    match s.pc t with
    | .user _ => some (s.goto t (.readLock n []))
    | _ => none
  | .kill t => some (s.kill t)
  | .go t =>
    match s.pc t with
    | .readLock n got =>
      if s.lock = none then some ({ s with lock := some t }.goto t (.reading n got)) else none
    | .reading n got => some (s.read t n got)
    | _ => none

def State.bytesOf (s : State) (t : Tid) : List UInt8 :=
  (s.delivered.filter fun x => x.1 = t).map Prod.snd

/-- How a read ends: at its count, after the end of a line, or at a `C('D')`, which it takes if it
has no other byte and leaves otherwise. -/
structure Stops (n : Int) (line : List UInt8) (d : Editor) : Prop where
  noEof : ctrlD ∉ line
  oneLine : newline ∉ line.dropLast
  count : line = [] ∨ (line.length : Int) ≤ n
  reason : n ≤ line.length ∨ line.getLast? = some newline ∨
    (line = [] ∧ ∃ k, d.taken = k + 1 ∧ d.committed[k]? = some ctrlD) ∨
    (line ≠ [] ∧ d.committed[d.taken]? = some ctrlD)

/-- A thread has the lock where the code says so, and what it has copied is part of one line. -/
structure Thread (s : State) (t : Tid) : Prop where
  lock : (s.pc t).locked = true → s.lock = some t
  bytes : s.bytesOf t = (s.reads t).flatten ++ (s.pc t).got
  plain : ctrlD ∉ (s.pc t).got ∧ newline ∉ (s.pc t).got
  count : ∀ n got, s.pc t = .reading n got ∨ s.pc t = .readLock n got ∨ s.pc t = .sleeping n got →
    got = [] ∨ (got.length : Int) ≤ n

structure Inv (s : State) : Prop where
  shows' : Shows s.cons (edit s.events)
  order : s.delivered.map Prod.snd =
    ((edit s.events).committed.take (edit s.events).taken).filter fun c => c ≠ ctrlD
  thread : ∀ t, Thread s t

section Machine
variable {s s' : State} {t u : Tid} {as : List Label} {l : Label} {n : Int} {got : List UInt8}

lemma inv_init : Inv init := by
  refine ⟨⟨rfl, rfl, rfl, Nat.le_refl 0, Nat.zero_le _, .nil _ 0, not_mem_nil⟩, rfl,
    fun t => ⟨Bool.noConfusion, rfl, ⟨not_mem_nil, not_mem_nil⟩, ?_⟩⟩
  rintro n got (h | h | h) <;> cases h

lemma append_committed (d : Editor) (c : UInt8) :
    (d.append c).taken = d.taken ∧ d.committed <+: (d.append c).committed := by
  unfold Editor.append
  split_ifs
  · exact ⟨rfl, by rw [append_assoc]; exact prefix_append _ _⟩
  exact ⟨rfl, prefix_refl _⟩

lemma key_committed (d : Editor) (c : UInt8) :
    (d.key c).taken = d.taken ∧ d.committed <+: (d.key c).committed := by
  have same : ∀ line, ({ d with line } : Editor).taken = d.taken ∧
      d.committed <+: ({ d with line } : Editor).committed := fun _ => ⟨rfl, prefix_refl _⟩
  unfold Editor.key
  by_cases print : c = ctrlP
  · rw [if_pos print]
    exact same d.line
  rw [if_neg print]
  by_cases kill : c = ctrlU
  · rw [if_pos kill]
    exact same []
  rw [if_neg kill]
  by_cases back : c = ctrlH ∨ c = del
  · rw [if_pos back]
    exact same d.line.dropLast
  rw [if_neg back]
  by_cases accepted : c ≠ 0 ∧ d.committed.length + d.line.length < d.taken + INPUT_BUF_SIZE
  · rw [if_pos accepted]
    exact append_committed d _
  rw [if_neg accepted]
  exact same d.line

lemma take_key {d : Editor} (le : d.taken ≤ d.committed.length) (c : UInt8) :
    (d.key c).committed.take (d.key c).taken = d.committed.take d.taken := by
  obtain ⟨taken, rest, eq⟩ := key_committed d c
  rw [taken, ← eq, take_append_of_le_length le]

lemma take_succ {d : Editor} {c : UInt8} (here : d.committed[d.taken]? = some c) :
    d.take.committed.take d.take.taken = d.committed.take d.taken ++ [c] := by
  obtain ⟨inside, value⟩ := List.getElem?_eq_some_iff.mp here
  rw [← value, take_append_getElem]
  rfl

lemma goto_pc (s : State) (t : Tid) (pc : Pc) : (s.goto t pc).pc t = pc := update_self ..

lemma goto_of_ne (s : State) (pc : Pc) (other : u ≠ t) : (s.goto t pc).pc u = s.pc u :=
  update_of_ne other ..

lemma Thread.other (h : Thread s u) (pc : s'.pc u = s.pc u ∨ s'.pc u = (s.pc u).wakeup)
    (reads : s'.reads u = s.reads u) (bytes : s'.bytesOf u = s.bytesOf u)
    (lock : (s.pc u).locked = true → s'.lock = s.lock) : Thread s' u := by
  have same : (s'.pc u).got = (s.pc u).got ∧ ((s'.pc u).locked = true → (s.pc u).locked = true) := by
    rcases pc with same | woken
    · rw [same]
      exact ⟨rfl, fun locked => locked⟩
    rw [woken]
    cases s.pc u <;> exact ⟨rfl, fun locked => locked⟩
  refine ⟨fun locked => ?_, ?_, by rw [same.1]; exact h.plain, fun n got here => h.count n got ?_⟩
  · rw [lock (same.2 locked)]
    exact h.lock (same.2 locked)
  · rw [bytes, reads, same.1]
    exact h.bytes
  rcases pc with same | woken
  · rwa [same] at here
  rw [woken] at here
  cases pc : s.pc u with
  | sleeping m g =>
    rw [pc] at here
    rcases here with h | h | h <;> cases h
    exact .inr (.inr rfl)
  | user a0 | readLock m g | reading m g =>
    rw [pc] at here
    exact here

namespace Inv
lemma locked_unique (h : Inv s) (mine : (s.pc t).locked = true) (other : u ≠ t) :
    ¬ (s.pc u).locked = true := fun theirs =>
  other (Option.some.inj (((h.thread u).lock theirs).symm.trans ((h.thread t).lock mine)))

lemma locked_none (h : Inv s) (free : s.lock = none) : ¬ (s.pc u).locked = true :=
  fun mine => Option.some_ne_none u (((h.thread u).lock mine).symm.trans free)

lemma consoleintr (h : Inv s) (free : s.lock = none) (c : UInt8) : Inv (s.consoleintr c) := by
  have events : edit (s.consoleintr c).events = (edit s.events).key c := edit_append s.events (.key c)
  refine ⟨?_, ?_, fun u => (h.thread u).other ?_ rfl rfl fun locked =>
    absurd locked (h.locked_none free)⟩
  · rw [events]
    exact h.shows'.consoleintr c
  · rw [events, take_key h.shows'.taken]
    exact h.order
  unfold State.consoleintr
  cases (s.cons.consoleintr c).2 with
  | true => exact .inr rfl
  | false => exact .inl rfl

lemma kill (h : Inv s) (t : Tid) : Inv (s.kill t) := by
  refine ⟨h.shows', h.order, fun u => (h.thread u).other ?_ rfl rfl fun _ => rfl⟩
  by_cases same : u = t
  · subst same
    exact .inr (update_self ..)
  exact .inl (update_of_ne same ..)

lemma enter (h : Inv s) {a0 : Int} (pc : s.pc t = .user a0) (n : Int) :
    Inv (s.goto t (.readLock n [])) := by
  refine ⟨h.shows', h.order, fun u => ?_⟩
  by_cases same : u = t
  · subst same
    have here := goto_pc s u (.readLock n [])
    have before := (h.thread u).bytes
    rw [pc] at before
    refine ⟨fun locked => ?_, ?_, ?_, fun m got now => ?_⟩
    · rw [here] at locked
      cases locked
    · rw [here]
      exact before
    · rw [here]
      exact ⟨not_mem_nil, not_mem_nil⟩
    rw [here] at now
    rcases now with h | h | h <;> cases h
    exact .inl rfl
  exact (h.thread u).other (.inl (goto_of_ne s _ same)) rfl rfl fun _ => rfl

lemma acquire (h : Inv s) (free : s.lock = none) (pc : s.pc t = .readLock n got) :
    Inv ({ s with lock := some t }.goto t (.reading n got)) := by
  refine ⟨h.shows', h.order, fun u => ?_⟩
  by_cases same : u = t
  · subst same
    have here := goto_pc { s with lock := some u } u (.reading n got)
    have before := (h.thread u).bytes
    have plain := (h.thread u).plain
    rw [pc] at before plain
    refine ⟨fun _ => rfl, ?_, ?_, fun m g now => (h.thread u).count m g ?_⟩
    · rw [here]
      exact before
    · rw [here]
      exact plain
    rw [here] at now
    rcases now with h | h | h <;> cases h
    exact .inr (.inl pc)
  exact (h.thread u).other (.inl (goto_of_ne _ _ same)) rfl rfl
    fun locked => absurd locked (h.locked_none free)

lemma round (h : Inv s) (mine : (s.pc t).locked = true) (shows' : Shows s'.cons (edit s'.events))
    (order : s'.delivered.map snd =
      ((edit s'.events).committed.take (edit s'.events).taken).filter fun c => c ≠ ctrlD)
    (pc : ∀ u, u ≠ t → s'.pc u = s.pc u) (reads : ∀ u, u ≠ t → s'.reads u = s.reads u)
    (bytes : ∀ u, u ≠ t → s'.bytesOf u = s.bytesOf u) (own : Thread s' t) : Inv s' := by
  refine ⟨shows', order, fun u => ?_⟩
  by_cases same : u = t
  · rw [same]
    exact own
  exact (h.thread u).other (.inl (pc u same)) (reads u same) (bytes u same)
    fun locked => absurd locked (h.locked_unique mine same)

lemma thread_finish {line : List UInt8} {r : Int}
    (bytes : s.bytesOf t = (s.reads t).flatten ++ line) : Thread (s.finish t line r) t := by
  have here : (s.finish t line r).pc t = .user r := goto_pc ..
  have own : (s.finish t line r).reads t = s.reads t ++ [line] := update_self ..
  refine ⟨fun locked => ?_, ?_, ?_, fun m got now => ?_⟩
  · rw [here] at locked
    cases locked
  · rw [here, own, flatten_append]
    change s.bytesOf t = _
    rw [bytes]
    simp [Pc.got]
  · rw [here]
    exact ⟨not_mem_nil, not_mem_nil⟩
  rw [here] at now
  rcases now with h | h | h <;> cases h

lemma bytesOf_deliver (s : State) (c : UInt8) (u : Tid) :
    (s.deliver t c).bytesOf u = s.bytesOf u ++ if t = u then [c] else [] := by
  change ((s.delivered ++ [(t, c)]).filter _).map _ = _
  rw [filter_append, map_append]
  refine congrArg (s.bytesOf u ++ ·) ?_
  by_cases same : t = u
  · simp [same]
  simp [same]

section
variable (h : Inv s) (pc : s.pc t = .reading n got)
include h pc

lemma stop (r : Int) : Inv (s.finish t got r) := by
  have mine : (s.pc t).locked = true := pc ▸ rfl
  have before := (h.thread t).bytes
  rw [pc] at before
  exact h.round mine h.shows' h.order (fun u other => goto_of_ne _ _ other)
    (fun u other => update_of_ne other ..) (fun _ _ => rfl) (thread_finish before)

lemma sleep : Inv ({ s with lock := none }.goto t (.sleeping n got)) := by
  have mine : (s.pc t).locked = true := pc ▸ rfl
  have here := goto_pc { s with lock := none } t (.sleeping n got)
  have before := (h.thread t).bytes
  have plain := (h.thread t).plain
  rw [pc] at before plain
  refine h.round mine h.shows' h.order (fun u other => goto_of_ne _ _ other) (fun _ _ => rfl)
    (fun _ _ => rfl) ⟨fun locked => ?_, ?_, ?_, fun m g now => (h.thread t).count m g ?_⟩
  · rw [here] at locked
    cases locked
  · rw [here]
    exact before
  · rw [here]
    exact plain
  rw [here] at now
  rcases now with h | h | h <;> cases h
  exact .inl pc

lemma readByte (short : (got.length : Int) < n) (some : s.cons.r ≠ s.cons.w) {c : UInt8} (byte :
    (edit s.events).committed[(edit s.events).taken]? = .some c) : Inv (s.readByte t n got c) := by
  have mine : (s.pc t).locked = true := pc ▸ rfl
  have before := (h.thread t).bytes
  have plain := (h.thread t).plain
  rw [pc] at before plain
  have events : edit s.takeByte.events = (edit s.events).take := edit_append s.events .take
  have taken : Shows s.takeByte.cons (edit s.takeByte.events) := by
    rw [events]
    exact h.shows'.read some
  unfold State.readByte
  by_cases eof : c = ctrlD
  · rw [if_pos eof]
    split_ifs with first
    · rw [first] at before
      refine h.round mine taken ?_ (fun u other => goto_of_ne _ _ other)
        (fun u other => update_of_ne other ..) (fun _ _ => rfl) (thread_finish before)
      change s.delivered.map snd = ((edit s.takeByte.events).committed.take
        (edit s.takeByte.events).taken).filter _
      rw [events, take_succ byte, filter_append, h.order, eof]
      simp
    exact h.stop pc got.length
  rw [if_neg eof]
  have bytes : (s.takeByte.deliver t c).bytesOf t = (s.reads t).flatten ++ (got ++ [c]) := by
    rw [bytesOf_deliver, if_pos rfl]
    change s.bytesOf t ++ [c] = _
    rw [before, append_assoc]
    rfl
  have others : ∀ u, u ≠ t → (s.takeByte.deliver t c).bytesOf u = s.bytesOf u := fun u other => by
    rw [bytesOf_deliver, if_neg other.symm, append_nil]
    rfl
  have order : (s.takeByte.deliver t c).delivered.map snd =
      ((edit s.takeByte.events).committed.take (edit s.takeByte.events).taken).filter
        fun c => c ≠ ctrlD := by
    change (s.delivered ++ [(t, c)]).map snd = _
    rw [events, take_succ byte, filter_append, map_append, h.order]
    simp [eof]
  dsimp only
  split_ifs with ends
  · exact h.round mine taken order (fun u other => goto_of_ne _ _ other)
      (fun u other => update_of_ne other ..) others (thread_finish bytes)
  have here := goto_pc (s.takeByte.deliver t c) t (.reading n (got ++ [c]))
  refine h.round mine taken order (fun u other => goto_of_ne _ _ other) (fun _ _ => rfl) others
    ⟨fun _ => (h.thread t).lock mine, ?_, ?_, fun m g now => ?_⟩
  · rw [here]
    exact bytes
  · rw [here]
    refine ⟨fun mem => ?_, fun mem => ?_⟩
    · rcases mem_append.mp mem with old | new
      · exact plain.1 old
      exact eof (mem_singleton.mp new).symm
    rcases mem_append.mp mem with old | new
    · exact plain.2 old
    exact ends (mem_singleton.mp new).symm
  rw [here] at now
  rcases now with h | h | h <;> cases h
  right
  rw [length_append, length_singleton]
  omega

lemma read : Inv (s.read t n got) := by
  unfold State.read
  split_ifs with short empty dead
  · exact h.stop pc (-1)
  · exact h.sleep pc
  · exact h.readByte pc short empty (h.shows'.next empty)
  exact h.stop pc got.length

end

lemma step (h : Inv s) (next : Console.step s l = some s') : Inv s' := by
  cases l with
  | intr c =>
    obtain ⟨free, rfl⟩ := guarded.mp next
    exact h.consoleintr free c
  | kill t =>
    cases next
    exact h.kill t
  | consoleread t n =>
    unfold Console.step at next
    cases pc : s.pc t with
    | user a0 =>
      simp only [pc] at next
      cases next
      exact h.enter pc n
    | _ =>
      simp only [pc] at next
      cases next
  | go t =>
    unfold Console.step at next
    cases pc : s.pc t with
    | readLock n got =>
      simp only [pc] at next
      obtain ⟨free, rfl⟩ := guarded.mp next
      exact h.acquire free pc
    | reading n got =>
      simp only [pc] at next
      cases next
      exact h.read pc
    | user a0 | sleeping n got =>
      simp only [pc] at next
      cases next

lemma returns (h : Inv s) (pc : s.pc t = .reading n got) (next : Console.step s (.go t) = some s')
    {v : Int} (done : s'.pc t = .user v) (alive : v ≠ -1) :
    ∃ line, s'.reads t = s.reads t ++ [line] ∧ v = line.length ∧ Stops n line (edit s'.events) := by
  have plain := (h.thread t).plain
  have count := (h.thread t).count n got (.inl pc)
  rw [pc] at plain
  have finished : ∀ (x : State) (line : List UInt8) (r : Int), s' = x.finish t line r →
      x.reads t = s.reads t → s'.reads t = s.reads t ++ [line] ∧ v = r := by
    rintro x line r rfl same
    refine ⟨?_, ?_⟩
    · rw [← same]
      exact update_self ..
    have here : (x.finish t line r).pc t = .user r := goto_pc ..
    exact Pc.user.inj (done.symm.trans here)
  have whole : newline ∉ got.dropLast := fun mem => plain.2 (mem_of_mem_dropLast mem)
  unfold Console.step at next
  simp only [pc] at next
  have eq := (Option.some.inj next).symm
  unfold State.read at eq
  by_cases short : (got.length : Int) < n
  swap
  · rw [if_neg short] at eq
    obtain ⟨reads, value⟩ := finished s got got.length eq rfl
    exact ⟨got, reads, value, plain.1, whole, count, .inl (by omega)⟩
  rw [if_pos short] at eq
  by_cases empty : s.cons.r = s.cons.w
  · rw [if_pos empty] at eq
    split_ifs at eq
    · exact absurd (finished s got (-1) eq rfl).2 alive
    rw [eq, goto_pc] at done
    cases done
  rw [if_neg empty] at eq
  have byte := h.shows'.next empty
  generalize s.cons.buf (s.cons.r.toNat % INPUT_BUF_SIZE) = c at eq byte
  unfold State.readByte at eq
  by_cases eof : c = ctrlD
  · subst eof
    rw [if_pos rfl] at eq
    split_ifs at eq with first
    · obtain ⟨reads, value⟩ := finished s.takeByte [] 0 eq rfl
      refine ⟨[], reads, value, not_mem_nil, not_mem_nil, .inl rfl, .inr (.inr (.inl ?_))⟩
      have events : edit s'.events = (edit s.events).take := by
        rw [eq]
        exact edit_append s.events .take
      rw [events]
      exact ⟨rfl, (edit s.events).taken, rfl, byte⟩
    obtain ⟨reads, value⟩ := finished s got got.length eq rfl
    have events : s'.events = s.events := by
      rw [eq]
      rfl
    refine ⟨got, reads, value, plain.1, whole, count, .inr (.inr (.inr ⟨first, ?_⟩))⟩
    rw [events]
    exact byte
  rw [if_neg eof] at eq
  dsimp only at eq
  split_ifs at eq with ends
  · obtain ⟨reads, value⟩ := finished (s.takeByte.deliver t c) (got ++ [c]) (got.length + 1) eq rfl
    refine ⟨got ++ [c], reads, ?_, fun mem => ?_, ?_, .inr ?_, .inr (.inl ?_)⟩
    · rw [value, length_append, length_singleton]
      rfl
    · rcases mem_append.mp mem with old | new
      · exact plain.1 old
      exact eof (mem_singleton.mp new).symm
    · rw [dropLast_concat]
      exact plain.2
    · rw [length_append, length_singleton]
      omega
    rw [List.getLast?_concat, ends]
  rw [eq, goto_pc] at done
  cases done

end Inv

/-- The console refines the line editor: its indices are in order and at most a buffer apart, the
bytes delivered are the committed input without the `C('D')`s taken, each thread gets the bytes of
its reads in order, and each read stops at its count, after a line or at a `C('D')`. -/
theorem console_reads_committed_input (run : Run step Free init as s) :
    ((s.cons.e - s.cons.r).toNat ≤ INPUT_BUF_SIZE ∧
      (s.cons.w - s.cons.r).toNat ≤ (s.cons.e - s.cons.r).toNat) ∧
    s.delivered.map Prod.snd =
      ((edit s.events).committed.take (edit s.events).taken).filter (fun c => c ≠ ctrlD) ∧
    (∀ t, s.bytesOf t = (s.reads t).flatten ++ (s.pc t).got) ∧
    ∀ t n got s' v, s.pc t = .reading n got → step s (.go t) = some s' → s'.pc t = .user v → v ≠ -1 →
      ∃ line, s'.reads t = s.reads t ++ [line] ∧ v = line.length ∧
        Stops n line (edit s'.events) := by
  have h : Inv s := run.invariant (I := Inv) (fun _ _ _ h _ next => h.step next) inv_init
  refine ⟨?_, h.order, fun t => (h.thread t).bytes,
    fun t n got s' v pc next done alive => h.returns pc next done alive⟩
  obtain ⟨filled, readable, -⟩ := h.shows'.length
  have room := h.shows'.room
  rw [length_append] at room
  rw [filled, readable]
  omega

/-- A line with a mistake in it and an end of file, and the two reads that take them. -/
def editedLine : List Label :=
  [97, 120, 127, 98, 13, 4].map Label.intr ++ [.consoleread 0 10] ++ List.replicate 4 (.go 0) ++
    [.consoleread 0 10] ++ List.replicate 2 (.go 0)

theorem edited_line_is_read :
    ∃ s, Run step Free init editedLine s ∧ s.delivered.map Prod.snd = [97, 98, 10] ∧
      s.reads 0 = [[97, 98, 10], []] ∧ (edit s.events).committed = [97, 98, 10, 4] ∧
      s.delivered.map Prod.snd =
        ((edit s.events).committed.take (edit s.events).taken).filter (fun c => c ≠ ctrlD) := by
  refine Run.exists_with (P := fun s => s.delivered.map Prod.snd = [97, 98, 10] ∧
      s.reads 0 = [[97, 98, 10], []] ∧ (edit s.events).committed = [97, 98, 10, 4])
    (by decide +kernel) fun s run ⟨delivered, reads, committed⟩ => ?_
  exact ⟨delivered, reads, committed, (console_reads_committed_input run).2.1⟩

end Machine
end Xv6.Console
