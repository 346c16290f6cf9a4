import Mathlib.Data.List.FinRange
import Xv6.Interleaving
import Xv6.FsImage

/-! The inode table of fs.c: `iget`, `idup`, `ilock`, `iupdate`, `iunlock`, `iput`, `ialloc` and
`itrunc` by many processes. A section under `itable.lock` is one step; a section under the sleep
lock of an inode is a sequence of steps of its holder. -/
namespace Xv6.Itable
open Fs (Kind)
open Function (update update_of_ne update_self)

abbrev ninode : Nat := 50

abbrev Slot := Fin ninode

/-- The fields of an inode on the disk. `body` stands for those besides the type and the number of
links. -/
structure Dinode (α : Type) where
  type : Kind
  nlink : Int
  body : α

/-- `struct inode` with the holder of its sleep lock. `holders` records the processes that got a
reference and have not put it back, `dirty` whether the copy was changed after `iupdate`. -/
structure Entry (τ α : Type) where
  dev : Nat
  inum : Nat
  ref : Nat
  valid : Bool
  copy : Dinode α
  lock : Option τ
  holders : List τ
  dirty : Bool

/-- Where a process is: before `acquiresleep` and before the test of `valid` in `ilock`, between
the two halves of `ialloc`, or in the part of `iput` that frees the inode: before `itrunc`, before
the type is cleared, before the lock is released, before `ref--`. `blocked` is the `acquiresleep`
of `iput` when it has to sleep. -/
inductive Pos
  | idle
  | locking (i : Slot)
  | loading (i : Slot)
  | allocated (dev inum : Nat)
  | trunc (i : Slot)
  | erase (i : Slot)
  | unlock (i : Slot)
  | drop (i : Slot)
  | blocked (i : Slot)
  deriving DecidableEq

structure State (τ α : Type) where
  inode : Slot → Entry τ α
  disk : Nat → Nat → Dinode α
  pc : τ → Pos

inductive Act (τ α : Type)
  | iget (t : τ) (dev inum : Nat)
  | idup (t u : τ) (i : Slot)
  | ilock (t : τ) (i : Slot)
  | change (t : τ) (i : Slot) (nlink : Int) (body : α)
  | iupdate (t : τ) (i : Slot)
  | itrunc (t : τ) (i : Slot)
  | iunlock (t : τ) (i : Slot)
  | iput (t : τ) (i : Slot)
  | ialloc (t : τ) (dev inum : Nat) (type : Kind)
  | resume (t : τ)

variable {τ α : Type}

def State.setEntry (s : State τ α) (i : Slot) (e : Entry τ α) : State τ α :=
  { s with inode := update s.inode i e }

def State.goto [DecidableEq τ] (s : State τ α) (t : τ) (p : Pos) : State τ α :=
  { s with pc := update s.pc t p }

def State.setDisk (s : State τ α) (dev inum : Nat) (d : Dinode α) : State τ α :=
  { s with disk := update s.disk dev (update (s.disk dev) inum d) }

/-- The loop of `iget`: an entry in use for the inode, or else the first free one. -/
def State.findSlot (s : State τ α) (dev inum : Nat) : Option Slot :=
  (List.finRange ninode).find? fun i =>
    0 < (s.inode i).ref && (s.inode i).dev == dev && (s.inode i).inum == inum

def State.freeSlot (s : State τ α) : Option Slot :=
  (List.finRange ninode).find? fun i => (s.inode i).ref == 0

def Entry.addRef (e : Entry τ α) (t : τ) : Entry τ α :=
  { e with ref := e.ref + 1, holders := t :: e.holders }

def Entry.recycle (e : Entry τ α) (t : τ) (dev inum : Nat) : Entry τ α :=
  { e with dev := dev, inum := inum, ref := 1, valid := false, holders := [t] }

/-- `iget`; `none` is the panic "iget: no inodes". -/
def State.iget (s : State τ α) (t : τ) (dev inum : Nat) : Option (State τ α) :=
  match s.findSlot dev inum with
  | some i => some (s.setEntry i ((s.inode i).addRef t))
  | none => s.freeSlot.map fun i => s.setEntry i ((s.inode i).recycle t dev inum)

def State.iupdate (s : State τ α) (i : Slot) : State τ α :=
  (s.setEntry i { s.inode i with dirty := false }).setDisk (s.inode i).dev (s.inode i).inum
    (s.inode i).copy

variable [DecidableEq τ]

def Entry.dropRef (e : Entry τ α) (t : τ) : Entry τ α :=
  { e with ref := e.ref - 1, holders := e.holders.erase t }

/-- The next step of a process inside a routine. `trunc` is the effect of `itrunc` on the body. -/
def State.resume (trunc : α → α) (s : State τ α) (t : τ) : Option (State τ α) :=
  match s.pc t with
  | .idle => none
  | .locking i =>
    if (s.inode i).lock = none then
      some ((s.setEntry i { s.inode i with lock := some t }).goto t (.loading i))
    else none
  | .loading i =>
    if (s.inode i).valid then some (s.goto t .idle)
    else
      let d := s.disk (s.inode i).dev (s.inode i).inum
      -- the panic "ilock: no type"
      if d.type = .none then none
      else some ((s.setEntry i { s.inode i with copy := d, valid := true }).goto t .idle)
  | .allocated dev inum => (s.iget t dev inum).map fun s => s.goto t .idle
  | .trunc i =>
    let e := s.inode i
    some (((s.setEntry i { e with copy := { e.copy with body := trunc e.copy.body } }).iupdate
      i).goto t (.erase i))
  | .erase i =>
    let e := s.inode i
    some (((s.setEntry i { e with copy := { e.copy with type := .none } }).iupdate i).goto t
      (.unlock i))
  | .unlock i =>
    some ((s.setEntry i { s.inode i with valid := false, lock := none }).goto t (.drop i))
  | .drop i => some ((s.setEntry i ((s.inode i).dropRef t)).goto t .idle)
  | .blocked _ => none

def State.iput (s : State τ α) (t : τ) (i : Slot) : State τ α :=
  let e := s.inode i
  if e.ref = 1 ∧ e.valid = true ∧ e.copy.nlink = 0 then
    if e.lock = none then (s.setEntry i { e with lock := some t }).goto t (.trunc i)
    else s.goto t (.blocked i)
  else s.setEntry i (e.dropRef t)

/-- One step. A process uses an inode that it has a reference to, changes it under its lock and
calls `iupdate` before `iunlock`, and keeps a reference while it holds the lock. -/
def step (trunc : α → α) (zero : α) (s : State τ α) : Act τ α → Option (State τ α)
  | .iget t dev inum => if s.pc t = .idle then s.iget t dev inum else none
  | .idup t u i =>
    if s.pc t = .idle ∧ t ∈ (s.inode i).holders then
      some (s.setEntry i ((s.inode i).addRef u))
    else none
  | .ilock t i =>
    if s.pc t = .idle ∧ t ∈ (s.inode i).holders then some (s.goto t (.locking i)) else none
  | .change t i nlink body =>
    if s.pc t = .idle ∧ (s.inode i).lock = some t then
      some (s.setEntry i { s.inode i with
        copy := { (s.inode i).copy with nlink := nlink, body := body }, dirty := true })
    else none
  | .iupdate t i =>
    if s.pc t = .idle ∧ (s.inode i).lock = some t then some (s.iupdate i) else none
  | .itrunc t i =>
    if s.pc t = .idle ∧ (s.inode i).lock = some t then
      let e := s.inode i
      some ((s.setEntry i { e with copy := { e.copy with body := trunc e.copy.body } }).iupdate i)
    else none
  | .iunlock t i =>
    if s.pc t = .idle ∧ (s.inode i).lock = some t ∧ (s.inode i).dirty = false then
      some (s.setEntry i { s.inode i with lock := none })
    else none
  | .iput t i =>
    if s.pc t = .idle ∧ t ∈ (s.inode i).holders ∧
        ((s.inode i).lock = some t → 2 ≤ (s.inode i).holders.count t) then
      some (s.iput t i)
    else none
  | .ialloc t dev inum type =>
    if s.pc t = .idle ∧ (s.disk dev inum).type = .none ∧ type ≠ .none then
      some ((s.setDisk dev inum ⟨type, 0, zero⟩).goto t (.allocated dev inum))
    else none
  | .resume t => s.resume trunc t

def init (zero : α) (disk : Nat → Nat → Dinode α) : State τ α where
  inode _ := ⟨0, 0, 0, false, ⟨.none, 0, zero⟩, none, [], false⟩
  disk := disk
  pc _ := .idle

section
variable (s : State τ α) {i j : Slot} {t : τ} {p : Pos} {dev inum : Nat} {d : Dinode α}
  {e : Entry τ α}

omit [DecidableEq τ] in
@[simp] lemma setEntry_self : (s.setEntry i e).inode i = e := update_self ..

omit [DecidableEq τ] in
lemma setEntry_of_ne (other : j ≠ i) : (s.setEntry i e).inode j = s.inode j :=
  update_of_ne other ..

omit [DecidableEq τ] in
@[simp] lemma setEntry_disk : (s.setEntry i e).disk = s.disk := rfl

omit [DecidableEq τ] in
@[simp] lemma setEntry_pc : (s.setEntry i e).pc = s.pc := rfl

@[simp] lemma goto_inode : (s.goto t p).inode = s.inode := rfl
@[simp] lemma goto_disk : (s.goto t p).disk = s.disk := rfl

omit [DecidableEq τ] in
@[simp] lemma setDisk_inode : (s.setDisk dev inum d).inode = s.inode := rfl

omit [DecidableEq τ] in
@[simp] lemma setDisk_pc : (s.setDisk dev inum d).pc = s.pc := rfl

omit [DecidableEq τ] in
lemma setDisk_self : (s.setDisk dev inum d).disk dev inum = d := by
  change update s.disk dev (update (s.disk dev) inum d) dev inum = d
  rw [update_self, update_self]

omit [DecidableEq τ] in
lemma setDisk_of_ne {dev' inum' : Nat} (other : ¬ (dev' = dev ∧ inum' = inum)) :
    (s.setDisk dev inum d).disk dev' inum' = s.disk dev' inum' := by
  change update s.disk dev (update (s.disk dev) inum d) dev' inum' = _
  by_cases same : dev' = dev
  · subst same
    rw [update_self, update_of_ne fun eq => other ⟨rfl, eq⟩]
  rw [update_of_ne same]

end

section
variable {s : State τ α} {dev inum : Nat} {i : Slot}

omit [DecidableEq τ]

lemma findSlot_some (found : s.findSlot dev inum = some i) :
    0 < (s.inode i).ref ∧ (s.inode i).dev = dev ∧ (s.inode i).inum = inum := by
  have test := List.find?_some found
  simpa [and_assoc] using test

lemma findSlot_none (absent : s.findSlot dev inum = none) (i : Slot)
    (used : 0 < (s.inode i).ref) : ¬ ((s.inode i).dev = dev ∧ (s.inode i).inum = inum) := by
  have test := List.find?_eq_none.mp absent i (List.mem_finRange i)
  simpa [used] using test

lemma freeSlot_some (found : s.freeSlot = some i) : (s.inode i).ref = 0 := by
  have test := List.find?_some found
  simpa using test

end
end Xv6.Itable
