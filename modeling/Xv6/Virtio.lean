import Xv6.Interleaving
import Xv6.RingBuffer

/-! The disk driver (virtio_disk.c) and the device: any number of threads in `virtio_disk_rw` and
`virtio_disk_intr`, and a device that takes the chains in order and completes them in any order.
What a request asks the device for (`disk.ops`) and the data have no part in this. -/
namespace Xv6.Virtio
open Interleaving RingBuffer
open Function (update)

abbrev NUM : Nat := 8
abbrev BSIZE : Nat := 1024

abbrev Tid := Nat
abbrev Buf := Nat

/-- What the address in a descriptor points to: `disk.ops[i]`, `b->data` or
`disk.info[i].status`. -/
inductive Addr where
  | null
  | op (i : Nat)
  | data (b : Buf)
  | status (i : Nat)
  deriving DecidableEq

structure Desc where
  addr : Addr
  len : Nat
  flags : Nat
  next : Nat
  deriving DecidableEq

def VRING_DESC_F_NEXT : Nat := 1
def VRING_DESC_F_WRITE : Nat := 2

def Desc.hasNext (d : Desc) : Bool := d.flags &&& VRING_DESC_F_NEXT ≠ 0

structure Chain where
  fst : Nat
  snd : Nat
  trd : Nat
  deriving DecidableEq

def Chain.list (c : Chain) : List Nat := [c.fst, c.snd, c.trd]

/-- Where a thread is. A request that the device can see has its number in `r`. -/
inductive Pc where
  | idle
  | lock (b : Buf) (write : Bool)
  | alloc (b : Buf) (write : Bool)
  | allocSleep (b : Buf) (write : Bool)
  | format (b : Buf) (write : Bool) (idx : Chain)
  | publish (b : Buf) (idx : Chain)
  | bump (b : Buf) (idx : Chain)
  | wait (b : Buf) (idx : Chain) (r : Nat)
  | waitSleep (b : Buf) (idx : Chain) (r : Nat)
  | waitLock (b : Buf) (idx : Chain) (r : Nat)
  | intrLock
  | intr
  deriving DecidableEq

inductive Panic where
  | freeDesc1 | freeDesc2 | status | nullBuf | endlessChain
  deriving DecidableEq

structure Req where
  thread : Tid
  buf : Buf
  idx : Chain
  deriving DecidableEq

/-- `disk`, the flags `b->disk`, the device and the threads; then what has happened so far. -/
structure State where
  desc : Nat → Desc
  free : Nat → Bool
  /-- `disk.info[i].b` and `disk.info[i].status` -/
  infoB : Nat → Option Buf
  status : Nat → UInt8
  /-- `disk.avail->ring` and `disk.avail->idx` -/
  ring : Nat → Nat
  idx : BitVec 16
  /-- `disk.used->ring[i].id`, `disk.used->idx` and `disk.used_idx` -/
  usedRing : Nat → Nat
  usedIdx : BitVec 16
  seenIdx : BitVec 16
  disk : Buf → Bool
  vdiskLock : Option Tid
  pc : Tid → Pc
  panic : Option Panic
  /-- How far the device has come in the avail ring, and the chains it works on: the number of the
  request and the head that it read. -/
  lastAvail : BitVec 16
  device : List (Nat × Nat)
  /-- The buffers that a caller of `virtio_disk_rw` has locked. -/
  busy : Buf → Bool
  /-- The requests in the order of the avail ring, and how many the device has taken. -/
  published : List Req
  taken : Nat
  /-- The completed requests in the order of the used ring, and how many the driver has seen. -/
  completed : List Nat
  seen : Nat
  /-- The requests whose callers have returned. -/
  returned : List Nat

def init : State where
  desc _ := ⟨.null, 0, 0, 0⟩
  free i := i < NUM
  infoB _ := none
  status _ := 0
  ring _ := 0
  idx := 0
  usedRing _ := 0
  usedIdx := 0
  seenIdx := 0
  disk _ := false
  vdiskLock := none
  pc _ := .idle
  panic := none
  lastAvail := 0
  device := []
  busy _ := false
  published := []
  taken := 0
  completed := []
  seen := 0
  returned := []

/-- `wakeup(&disk.free[0])` -/
def wakeFree : Pc → Pc
  | .allocSleep b write => .lock b write
  | pc => pc

def wakeBuf (b : Buf) : Pc → Pc
  | .waitSleep b' idx r => if b' = b then .waitLock b' idx r else .waitSleep b' idx r
  | pc => pc

def walk : Nat → (Nat → Desc) → Nat → List Nat
  | 0, _, _ => []
  | n + 1, desc, i => i :: if (desc i).hasNext then walk n desc (desc i).next else []

namespace State
def goto (s : State) (t : Tid) (pc : Pc) : State := { s with pc := update s.pc t pc }

def acquire (s : State) (t : Tid) (pc : Pc) : Option State :=
  if s.vdiskLock = none then some ({ s with vdiskLock := some t }.goto t pc) else none

/-- `release`, on the way to `pc`; `sleep` is this and the sleep in one. -/
def release (s : State) (t : Tid) (pc : Pc) : State := { s with vdiskLock := none }.goto t pc

def allocDesc (s : State) : State × Option Nat :=
  match (List.range NUM).find? s.free with
  | some i => ({ s with free := update s.free i false }, some i)
  | none => (s, none)

def clear (s : State) (i : Nat) : State :=
  { s with
    desc := update s.desc i ⟨.null, 0, 0, 0⟩
    free := update s.free i true
    pc := fun t => wakeFree (s.pc t) }

def freeDesc (s : State) (i : Nat) : Except Panic State :=
  if NUM ≤ i then .error .freeDesc1
  else if s.free i then .error .freeDesc2
  else .ok (s.clear i)

/-- `free_chain`. No chain can be longer than the bound: `free_desc` panics when it comes to a
descriptor again. -/
def freeChain : Nat → State → Nat → Except Panic State
  | 0, _, _ => .error .endlessChain
  | n + 1, s, i =>
    let d := s.desc i
    match s.freeDesc i with
    | .error p => .error p
    | .ok s => if d.hasNext then freeChain n s d.next else .ok s

def alloc3Desc (s : State) : Except Panic (State × Option Chain) :=
  match s.allocDesc with
  | (s, none) => .ok (s, none)
  | (s, some i) =>
    match s.allocDesc with
    | (s, none) => (s.freeDesc i).map fun s => (s, none)
    | (s, some j) =>
      match s.allocDesc with
      | (s, none) => ((s.freeDesc i).bind fun s => s.freeDesc j).map fun s => (s, none)
      | (s, some k) => .ok (s, some ⟨i, j, k⟩)

def format (s : State) (b : Buf) (write : Bool) (c : Chain) : State :=
  { s with
    desc := update (update (update s.desc
        c.fst ⟨.op c.fst, 16, VRING_DESC_F_NEXT, c.snd⟩)
        c.snd ⟨.data b, BSIZE, (if write then 0 else VRING_DESC_F_WRITE) ||| VRING_DESC_F_NEXT, c.trd⟩)
        c.trd ⟨.status c.fst, 1, VRING_DESC_F_WRITE, 0⟩
    status := update s.status c.fst 0xff
    disk := update s.disk b true
    infoB := update s.infoB c.fst (some b) }

def publish (s : State) (c : Chain) : State :=
  { s with ring := update s.ring (s.idx.toNat % NUM) c.fst }

def bump (s : State) (t : Tid) (b : Buf) (c : Chain) : State :=
  { s with idx := s.idx + 1, published := s.published ++ [⟨t, b, c⟩] }

def finish (s : State) (t : Tid) (b : Buf) (c : Chain) (r : Nat) : State :=
  match freeChain (NUM + 1) { s with infoB := update s.infoB c.fst none } c.fst with
  | .error p => { s with panic := some p }
  | .ok s =>
    { s with busy := update s.busy b false, returned := s.returned ++ [r] }.release t .idle

def handle (s : State) : State :=
  let id := s.usedRing (s.seenIdx.toNat % NUM)
  if s.status id ≠ 0 then { s with panic := some .status }
  else match s.infoB id with
    | none => { s with panic := some .nullBuf }
    | some b =>
      { s with
        disk := update s.disk b false
        pc := fun t => wakeBuf b (s.pc t)
        seenIdx := s.seenIdx + 1
        seen := s.seen + 1 }

def go (s : State) (t : Tid) : Option State :=
  match s.pc t with
  | .idle | .allocSleep _ _ | .waitSleep _ _ _ => none
  | .lock b write => s.acquire t (.alloc b write)
  | .alloc b write =>
    match s.alloc3Desc with
    | .error p => some { s with panic := some p }
    | .ok (s, none) => some (s.release t (.allocSleep b write))
    | .ok (s, some idx) => some (s.goto t (.format b write idx))
  | .format b write idx => some ((s.format b write idx).goto t (.publish b idx))
  | .publish b idx => some ((s.publish idx).goto t (.bump b idx))
  | .bump b idx => some ((s.bump t b idx).goto t (.wait b idx s.published.length))
  | .wait b idx r =>
    if s.disk b then some (s.release t (.waitSleep b idx r)) else some (s.finish t b idx r)
  | .waitLock b idx r => s.acquire t (.wait b idx r)
  | .intrLock => s.acquire t .intr
  | .intr => if s.seenIdx ≠ s.usedIdx then some s.handle else some (s.release t .idle)

def take (s : State) : State :=
  { s with
    device := s.device ++ [(s.taken, s.ring (s.lastAvail.toNat % NUM))]
    lastAvail := s.lastAvail + 1
    taken := s.taken + 1 }

def writeStatus (s : State) (head : Nat) : Nat → UInt8 :=
  match (walk NUM s.desc head).getLast?.map fun i => (s.desc i).addr with
  | some (.status i) => update s.status i 0
  | _ => s.status

def complete (s : State) (j : Nat) (r head : Nat) : State :=
  { s with
    status := s.writeStatus head
    usedRing := update s.usedRing (s.usedIdx.toNat % NUM) head
    usedIdx := s.usedIdx + 1
    device := s.device.eraseIdx j
    completed := s.completed ++ [r] }

end State

/-- `virtio_disk_rw` is called with a buffer that no other caller has locked. -/
inductive Label where
  | rw (t : Tid) (b : Buf) (write : Bool)
  | interrupt (t : Tid)
  | go (t : Tid)
  | take
  | complete (j : Nat)
  deriving DecidableEq

def step (s : State) (l : Label) : Option State :=
  if s.panic ≠ none then none
  else match l with
    | .rw t b write =>
      if s.pc t = .idle ∧ s.busy b = false then
        some ({ s with busy := update s.busy b true }.goto t (.lock b write))
      else none
    | .interrupt t => if s.pc t = .idle then some (s.goto t .intrLock) else none
    | .go t => s.go t
    | .take => if s.lastAvail ≠ s.idx then some s.take else none
    | .complete j => s.device[j]?.map fun p => s.complete j p.1 p.2

/-- What a thread has: its buffer, its chain, and how far the chain is on its way. -/
inductive View where
  | out
  | called (b : Buf)
  | chained (b : Buf) (idx : Chain)
  | ready (b : Buf) (idx : Chain)
  | stored (b : Buf) (idx : Chain)
  | waiting (b : Buf) (idx : Chain) (r : Nat)
  deriving DecidableEq

def Pc.view : Pc → View
  | .idle | .intrLock | .intr => .out
  | .lock b _ | .alloc b _ | .allocSleep b _ => .called b
  | .format b _ idx => .chained b idx
  | .publish b idx => .ready b idx
  | .bump b idx => .stored b idx
  | .wait b idx r | .waitSleep b idx r | .waitLock b idx r => .waiting b idx r

def Pc.locked : Pc → Bool
  | .alloc _ _ | .format _ _ _ | .publish _ _ | .bump _ _ | .wait _ _ _ | .intr => true
  | _ => false

def View.buf : View → Option Buf
  | .out => none
  | .called b | .chained b _ | .ready b _ | .stored b _ | .waiting b _ _ => some b

def View.chain : View → Option Chain
  | .out | .called _ => none
  | .chained _ c | .ready _ c | .stored _ c | .waiting _ c _ => some c

def View.formatted : View → Option (Buf × Chain)
  | .out | .called _ | .chained _ _ => none
  | .ready b c | .stored b c | .waiting b c _ => some (b, c)

def State.view (s : State) (t : Tid) : View := (s.pc t).view

def State.head (s : State) (r : Nat) : Nat := (s.published[r]?.map fun q => q.idx.fst).getD 0

end Xv6.Virtio
