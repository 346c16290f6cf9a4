import Mathlib.Data.Fintype.Option
import Xv6.Interleaving
import Xv6.Ring

/-! The buffer cache of bio.c: buffers on a circular list in the order of their last use, with a
sleep lock each, between the callers of `bread` and the disk. -/
namespace Xv6.Bcache
open List Option Ring

abbrev nbuf : Nat := 30

abbrev BufId := Fin nbuf

/-- A node of the list: `none` is `bcache.head`. -/
abbrev Node := Option BufId

/-- `struct buf` with the holder of its sleep lock. The last three fields are bookkeeping: the pins
not yet taken back, the threads that got the buffer from `bget` and have not dropped it, and
whether the contents were changed after the last `bwrite`. -/
structure Buf (τ α : Type) where
  valid : Bool
  dev : Nat
  blockno : Nat
  refcnt : Nat
  data : α
  lock : Option τ
  pins : Nat
  users : List τ
  dirty : Bool

/-- Where a thread is: outside bio.c, before `acquiresleep` of `bget`, before the test of `valid`
in `bread`, or between `releasesleep` and the second half of `brelse`. -/
inductive Pos
  | idle
  | acquire (b : BufId) (dev blockno : Nat)
  | load (b : BufId) (dev blockno : Nat)
  | release (b : BufId)
  deriving DecidableEq

/-- `given` records the last contents that a holder gave a block. -/
structure State (τ α : Type) where
  link : Ring.Links Node
  buf : BufId → Buf τ α
  disk : Nat → α
  pc : τ → Pos
  given : Nat → Nat → Option α

inductive Act (τ α : Type)
  | bget (t : τ) (dev blockno : Nat)
  | acquire (t : τ)
  | load (t : τ)
  | update (t : τ) (b : BufId) (x : α)
  | bwrite (t : τ) (b : BufId)
  | bpin (t : τ) (b : BufId)
  | bunpin (t : τ) (b : BufId)
  | brelse (t : τ) (b : BufId)
  | drop (t : τ)

variable {τ α : Type}

/-- `b->refcnt++` of a `uint`. -/
def incr (r : Nat) : Nat := if r + 1 = 2 ^ 32 then 0 else r + 1

/-- `b->refcnt--` of a `uint`. -/
def decr (r : Nat) : Nat := if r = 0 then 2 ^ 32 - 1 else r - 1

lemma incr_of_lt {r : Nat} (fits : r + 1 < 2 ^ 32) : incr r = r + 1 := if_neg (Nat.ne_of_lt fits)

lemma decr_of_pos {r : Nat} (pos : 0 < r) : decr r = r - 1 := if_neg (Nat.ne_of_gt pos)

def binit : Ring.Links Node :=
  (List.finRange nbuf).foldl (fun k b => Ring.linkFirst k none (some b))
    ⟨fun _ => none, fun _ => none⟩

/-- Static storage is zero; `zero` stands for a block of zero bytes. -/
def init (zero : α) (disk : Nat → α) : State τ α where
  link := binit
  buf _ := ⟨false, 0, 0, 0, zero, none, 0, [], false⟩
  disk := disk
  pc _ := .idle
  given _ _ := none

def State.cached (s : State τ α) (dev blockno : Nat) : Option BufId :=
  (Ring.search s.link.next none
    (fun v => v.any fun b => (s.buf b).dev == dev && (s.buf b).blockno == blockno)
    (nbuf + 1) (s.link.next none)).join

def State.unused (s : State τ α) : Option BufId :=
  (Ring.search s.link.prev none (fun v => v.any fun b => (s.buf b).refcnt == 0)
    (nbuf + 1) (s.link.prev none)).join

@[simps] def State.setBuf (s : State τ α) (b : BufId) (v : Buf τ α) : State τ α :=
  { s with buf := Function.update s.buf b v }

lemma State.setBuf_self (s : State τ α) (b : BufId) (v : Buf τ α) : (s.setBuf b v).buf b = v :=
  Function.update_self ..

lemma State.setBuf_of_ne {s : State τ α} {b c : BufId} {v : Buf τ α} (other : c ≠ b) :
    (s.setBuf b v).buf c = s.buf c := Function.update_of_ne other ..

section
variable [DecidableEq τ]

@[simps] def State.goto (s : State τ α) (t : τ) (p : Pos) : State τ α :=
  { s with pc := Function.update s.pc t p }

@[simps] def State.give (s : State τ α) (dev blockno : Nat) (x : α) : State τ α :=
  { s with given := Function.update s.given dev (Function.update (s.given dev) blockno (some x)) }

@[simps] def State.store (s : State τ α) (blockno : Nat) (x : α) : State τ α :=
  { s with disk := Function.update s.disk blockno x }

@[simps] def State.setLink (s : State τ α) (k : Ring.Links Node) : State τ α :=
  { s with link := k }

@[simps] def Buf.addUser (v : Buf τ α) (t : τ) : Buf τ α :=
  { v with refcnt := incr v.refcnt, users := t :: v.users }

@[simps] def Buf.recycle (v : Buf τ α) (t : τ) (dev blockno : Nat) : Buf τ α :=
  { v with dev := dev, blockno := blockno, valid := false, refcnt := 1, users := [t] }

@[simps] def Buf.dropUser (v : Buf τ α) (t : τ) : Buf τ α :=
  { v with refcnt := decr v.refcnt, users := v.users.erase t }

/-- The section of `bget` under `bcache.lock`; `none` is the panic "bget: no buffers". -/
def State.bget (s : State τ α) (t : τ) (dev blockno : Nat) : Option (State τ α) :=
  match s.cached dev blockno with
  | some b => some ((s.setBuf b ((s.buf b).addUser t)).goto t (.acquire b dev blockno))
  | none => s.unused.map fun b =>
    (s.setBuf b ((s.buf b).recycle t dev blockno)).goto t (.acquire b dev blockno)

/-- The test of `valid` in `bread`; the disk driver finds the sector by `b->blockno` alone. -/
def State.load (s : State τ α) (b : BufId) : State τ α :=
  if (s.buf b).valid then s
  else s.setBuf b { s.buf b with data := s.disk (s.buf b).blockno, valid := true }

/-- The section of `brelse` under `bcache.lock`. -/
def State.drop (s : State τ α) (t : τ) (b : BufId) : State τ α :=
  let s' := s.setBuf b ((s.buf b).dropUser t)
  if (s'.buf b).refcnt = 0 then
    s'.setLink (Ring.linkFirst (Ring.unlink s.link (some b)) none (some b))
  else s'

/-- One atomic step. A buffer is changed, written, pinned and released by the holder of its sleep
lock; one that was changed is written or pinned before it is released, and a pin is taken back
after the contents were written. -/
def step (s : State τ α) : Act τ α → Option (State τ α)
  | .bget t dev blockno => if s.pc t = .idle then s.bget t dev blockno else none
  | .acquire t =>
    match s.pc t with
    | .acquire b dev blockno =>
      if (s.buf b).lock = none then
        some ((s.setBuf b { s.buf b with lock := some t }).goto t (.load b dev blockno))
      else none
    | _ => none
  | .load t =>
    match s.pc t with
    | .load b _ _ => some ((s.load b).goto t .idle)
    | _ => none
  | .update t b x =>
    if s.pc t = .idle ∧ (s.buf b).lock = some t then
      some ((s.setBuf b { s.buf b with data := x, dirty := true }).give
        (s.buf b).dev (s.buf b).blockno x)
    else none
  | .bwrite t b =>
    if s.pc t = .idle ∧ (s.buf b).lock = some t then
      some ((s.setBuf b { s.buf b with dirty := false }).store (s.buf b).blockno (s.buf b).data)
    else none
  | .bpin t b =>
    if s.pc t = .idle ∧ (s.buf b).lock = some t then
      some (s.setBuf b
        { s.buf b with refcnt := incr (s.buf b).refcnt, pins := (s.buf b).pins + 1 })
    else none
  | .bunpin t b =>
    if s.pc t = .idle ∧ 0 < (s.buf b).pins ∧ (s.buf b).dirty = false then
      some (s.setBuf b
        { s.buf b with refcnt := decr (s.buf b).refcnt, pins := (s.buf b).pins - 1 })
    else none
  | .brelse t b =>
    if s.pc t = .idle ∧ (s.buf b).lock = some t ∧ ((s.buf b).dirty → 0 < (s.buf b).pins) then
      some ((s.setBuf b { s.buf b with lock := none }).goto t (.release b))
    else none
  | .drop t =>
    match s.pc t with
    | .release b => some ((s.drop t b).goto t .idle)
    | _ => none

/-- All calls are for the device `d`. -/
def ForDevice (d : Nat) (_ : State τ α) : Act τ α → Prop
  | .bget _ dev _ => dev = d
  | _ => True

instance (d : Nat) (s : State τ α) (a : Act τ α) : Decidable (ForDevice d s a) := by
  cases a <;> unfold ForDevice <;> infer_instance

/-- All calls are for the device `d`, and no reference count passes the range of a `uint`. -/
def OneDevice (d : Nat) (s : State τ α) : Act τ α → Prop
  | .bget _ dev blockno =>
    dev = d ∧ (s.cached dev blockno).all fun b => (s.buf b).refcnt + 1 < 2 ^ 32
  | .bpin _ b => (s.buf b).refcnt + 1 < 2 ^ 32
  | _ => True

instance (d : Nat) (s : State τ α) (a : Act τ α) : Decidable (OneDevice d s a) := by
  cases a <;> unfold OneDevice <;> infer_instance

end

def WellLinked (k : Ring.Links Node) : Prop :=
  ∃ xs, Ring.IsRing k none xs ∧ ∀ b : BufId, some b ∈ xs

variable {k : Ring.Links Node}

lemma isRing_foldl {xs : List Node} (bs : List BufId) (r : Ring.IsRing k none xs)
    (distinct : bs.Nodup) (new : ∀ b ∈ bs, some b ∉ xs) : Ring.IsRing
    (bs.foldl (fun k b => linkFirst k none (some b)) k) none ((bs.reverse.map some) ++ xs) := by
  induction bs generalizing k xs with
  | nil => exact r
  | cons b bs ih =>
    obtain ⟨fresh, distinct⟩ := nodup_cons.mp distinct
    have first : some b ∉ (none : Node) :: xs := by
      rw [mem_cons, not_or]
      exact ⟨some_ne_none b, new b mem_cons_self⟩
    have rest := ih (r.linkFirst first) distinct fun c mem => by
      rw [mem_cons, not_or]
      refine ⟨fun eq => fresh (Option.some.inj eq ▸ mem), new c (mem_cons_of_mem _ mem)⟩
    rw [foldl_cons, reverse_cons, map_append, append_assoc]
    exact rest

lemma binit_wellLinked : WellLinked binit := by
  have empty : Ring.IsRing (⟨fun _ => none, fun _ => none⟩ : Ring.Links Node) none [] :=
    ⟨⟨rfl, rfl⟩, nodup_nil, not_mem_nil⟩
  refine ⟨_, isRing_foldl (finRange nbuf) empty (nodup_finRange nbuf)
    (fun _ _ => not_mem_nil), fun b => ?_⟩
  simp

lemma WellLinked.toFront (w : WellLinked k) (b : BufId) :
    WellLinked (linkFirst (unlink k (some b)) none (some b)) := by
  obtain ⟨xs, ring, all⟩ := w
  obtain ⟨ys, ring, same⟩ := ring.moveFirst (all b)
  exact ⟨ys, ring, fun c => (same _).mpr (all c)⟩

lemma length_lt {xs : List Node} (r : Ring.IsRing k none xs) : xs.length < nbuf + 1 := by
  have all : ((none : Node) :: xs).Nodup := nodup_cons.mpr ⟨r.head, r.nodup⟩
  have bound := all.length_le_card
  rw [Fintype.card_option, Fintype.card_fin] at bound
  exact bound

section
variable {s : State τ α} {dev blockno : Nat} {b : BufId}

lemma cached_some (w : WellLinked s.link) (found : s.cached dev blockno = some b) :
    (s.buf b).dev = dev ∧ (s.buf b).blockno = blockno := by
  obtain ⟨xs, ring, -⟩ := w
  rw [State.cached, search_next ring.path ring.head (length_lt ring)] at found
  have test := find?_some (join_eq_some_iff.mp found)
  simpa using test

lemma cached_none (w : WellLinked s.link) (absent : s.cached dev blockno = none) (b : BufId)
    (sameDev : (s.buf b).dev = dev) : (s.buf b).blockno ≠ blockno := by
  obtain ⟨xs, ring, all⟩ := w
  rw [State.cached, search_next ring.path ring.head (length_lt ring)] at absent
  intro sameBlock
  cases found : xs.find? (fun v => v.any fun b =>
    (s.buf b).dev == dev && (s.buf b).blockno == blockno) with
  | none =>
    have test := find?_eq_none.mp found (some b) (all b)
    simp [sameDev, sameBlock] at test
  | some v =>
    rw [found, join_some] at absent
    subst absent
    exact ring.head (mem_of_find?_eq_some found)

lemma unused_some (w : WellLinked s.link) (found : s.unused = some b) : (s.buf b).refcnt = 0 := by
  obtain ⟨xs, ring, -⟩ := w
  rw [State.unused, search_prev ring.path ring.head (length_lt ring)] at found
  have test := find?_some (join_eq_some_iff.mp found)
  simpa using test

end
end Xv6.Bcache
