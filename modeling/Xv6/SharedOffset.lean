import Xv6.Interleaving
import Xv6.Tiling

/-! Reads and writes through one shared `struct file` of type FD_INODE (file.c). Each section from
`ilock` to `iunlock` is one step; a `filewrite` is a sequence of such sections with the lock
dropped in between. No copy and no allocation fails. A call with a negative count, or for a file
that is not open for it, transfers nothing and is left out. -/
namespace Xv6.SharedOffset
open Interleaving Tiling List
open Function (update update_of_ne update_self)

abbrev bsize : Nat := 1024
abbrev maxfile : Nat := 12 + 256
abbrev maxopblocks : Nat := 10

abbrev maxChunk : Nat := (maxopblocks - 1 - 1 - 2) / 2 * bsize

/-- A transfer of bytes by a call: `start` is `f->off` before it. -/
structure Chunk where
  call : Nat
  written : Bool
  start : Nat
  bytes : List UInt8

def Chunk.len (c : Chunk) : Nat := c.bytes.length

/-- A thread in the loop of `filewrite`, with the bytes it was given and the variable `i`. -/
inductive Pos
  | idle
  | writing (call : Nat) (src : List UInt8) (i : Nat)
  deriving DecidableEq

structure Returned where
  call : Nat
  src : List UInt8
  ret : Int

/-- The file with its bytes and the shared offset. `calls`, `log` and `returned` record the calls,
the transfers in their order and the results of `filewrite`. -/
structure State (τ : Type) where
  data : List UInt8
  off : Nat
  pc : τ → Pos
  calls : Nat
  log : List Chunk
  returned : List Returned

inductive Act (τ : Type)
  | filewrite (t : τ) (src : List UInt8)
  | chunk (t : τ)
  | fileread (t : τ) (n : Int)

/-- The offset after `f->off += r`, a `uint`. -/
def advance (off r : Nat) : Nat := (off + r) % 2 ^ 32

/-- `writei` without failures: the file after the write, or `none` for the result -1. -/
def writei (data : List UInt8) (off : Nat) (src : List UInt8) : Option (List UInt8) :=
  if data.length < off ∨ 2 ^ 32 ≤ off + src.length then none
  else if maxfile * bsize < off + src.length then none
  else some (writeAt data off src)

/-- `readi` without failures: the bytes read. The count is converted to `uint`. -/
def readi (data : List UInt8) (off : Nat) (n : Int) : List UInt8 :=
  let m := (n % 2 ^ 32).toNat
  if data.length < off ∨ 2 ^ 32 ≤ off + m then []
  else slice data off (if data.length < off + m then data.length - off else m)

variable {τ : Type} [DecidableEq τ]

def State.goto (s : State τ) (t : τ) (p : Pos) : State τ :=
  { s with pc := update s.pc t p }

def State.finish (s : State τ) (t : τ) (call : Nat) (src : List UInt8) (ret : Int) : State τ :=
  { s.goto t .idle with returned := ⟨call, src, ret⟩ :: s.returned }

def State.transfer (s : State τ) (call : Nat) (written : Bool) (data bytes : List UInt8) :
    State τ :=
  if 0 < bytes.length then
    { s with
      data := data
      off := advance s.off bytes.length
      log := s.log ++ [⟨call, written, s.off, bytes⟩] }
  else { s with data := data }

def part (src : List UInt8) (i : Nat) : List UInt8 :=
  slice src i (min (src.length - i) maxChunk)

def State.chunk (s : State τ) (t : τ) (call : Nat) (src : List UInt8) (i : Nat) : State τ :=
  if i < src.length then
    match writei s.data s.off (part src i) with
    | none => s.finish t call src (-1)
    | some data =>
      (s.transfer call true data (part src i)).goto t
        (.writing call src (i + (part src i).length))
  else s.finish t call src src.length

def step (s : State τ) : Act τ → Option (State τ)
  | .filewrite t src =>
    if s.pc t = .idle ∧ src.length < 2 ^ 31 then
      some { s.goto t (.writing s.calls src 0) with calls := s.calls + 1 }
    else none
  | .chunk t =>
    match s.pc t with
    | .writing call src i => some (s.chunk t call src i)
    | .idle => none
  | .fileread t n =>
    if s.pc t = .idle then
      some { s.transfer s.calls false s.data (readi s.data s.off n) with calls := s.calls + 1 }
    else none

def init (data : List UInt8) (off : Nat) : State τ := ⟨data, off, fun _ => .idle, 0, [], []⟩

def State.bytesOf (s : State τ) (call : Nat) : List UInt8 :=
  (s.log.filter fun c => c.call == call).flatMap Chunk.bytes

structure Shared (off : Nat) (s : State τ) : Prop where
  tiled : Tiled Chunk.start Chunk.len off s.log s.off
  appear : ∀ c ∈ s.log, slice s.data c.start c.len = c.bytes
  size : s.data.length ≤ maxfile * bsize
  known : ∀ c ∈ s.log, c.call < s.calls
  active : ∀ t k src i, s.pc t = .writing k src i →
    k < s.calls ∧ i ≤ src.length ∧ s.bytesOf k = src.take i
  apart : ∀ t u k src src' i i', s.pc t = .writing k src i → s.pc u = .writing k src' i' → t = u
  results : ∀ r ∈ s.returned, r.call < s.calls ∧ (∀ t src i, s.pc t ≠ .writing r.call src i) ∧
    s.bytesOf r.call <+: r.src ∧ (r.ret = r.src.length → s.bytesOf r.call = r.src)

variable {data src : List UInt8}

section
variable {s s' : State τ} {off : Nat} {t : τ}

omit [DecidableEq τ] in
lemma bytesOf_snoc (s : State τ) (c : Chunk) (k : Nat) :
    { s with log := s.log ++ [c] }.bytesOf k =
      s.bytesOf k ++ if c.call = k then c.bytes else [] := by
  rw [State.bytesOf, State.bytesOf, filter_append, flatMap_append]
  congr 1
  by_cases same : c.call = k
  · simp [same]
  simp [same]

omit [DecidableEq τ] in
lemma Shared.bytesOf_new (h : Shared off s) : s.bytesOf s.calls = [] := by
  have none : s.log.filter (fun c => c.call == s.calls) = [] := by
    refine filter_eq_nil_iff.mpr fun c mem => ?_
    have less := h.known c mem
    simp only [beq_iff_eq]
    omega
  rw [State.bytesOf, none, flatMap_nil]

omit [DecidableEq τ] in
lemma transfer_spec (call : Nat) (written : Bool) {bytes : List UInt8}
    (tiled : Tiled Chunk.start Chunk.len off s.log s.off)
    (appear : ∀ c ∈ s.log, slice s.data c.start c.len = c.bytes)
    (fits : s.off + bytes.length < 2 ^ 32) (here : slice data s.off bytes.length = bytes)
    (before : ∀ j n, j + n ≤ s.off → slice data j n = slice s.data j n) :
    Tiled Chunk.start Chunk.len off (s.transfer call written data bytes).log
    (s.transfer call written data bytes).off ∧ (∀ c ∈ (s.transfer call written data bytes).log,
    slice (s.transfer call written data bytes).data c.start c.len = c.bytes) ∧
    (s.transfer call written data bytes).data = data ∧ (s.transfer call written data bytes).pc =
    s.pc ∧ (s.transfer call written data bytes).calls = s.calls ∧
    (s.transfer call written data bytes).returned = s.returned ∧
    (∀ c ∈ (s.transfer call written data bytes).log, c ∈ s.log ∨ c.call = call) ∧ ∀ k, (s.transfer
    call written data bytes).bytesOf k = s.bytesOf k ++ if call = k then bytes else [] := by
  have old : ∀ c ∈ s.log, slice data c.start c.len = c.bytes := fun c mem =>
    (before _ _ (tiled.mem mem).2).trans (appear c mem)
  rw [State.transfer]
  split_ifs with some
  · refine ⟨?_, fun c mem => ?_, rfl, rfl, rfl, rfl, fun c mem => ?_, fun k => ?_⟩
    · have next := tiled.snoc (c := ⟨call, written, s.off, bytes⟩) rfl
      rw [advance, Nat.mod_eq_of_lt fits]
      exact next
    · rcases mem_append.mp mem with mem | mem
      · exact old c mem
      obtain rfl := mem_singleton.mp mem
      exact here
    · rcases mem_append.mp mem with mem | mem
      · exact .inl mem
      exact .inr (congrArg Chunk.call (mem_singleton.mp mem))
    exact bytesOf_snoc s ⟨call, written, s.off, bytes⟩ k
  have none : bytes = [] := eq_nil_of_length_eq_zero (by omega)
  refine ⟨tiled, old, rfl, rfl, rfl, rfl, fun c mem => .inl mem, fun k => ?_⟩
  rw [none, ite_self, append_nil]
  rfl

lemma Shared.filewrite (h : Shared off s) (idle : s.pc t = .idle) :
    Shared off { s.goto t (.writing s.calls src 0) with calls := s.calls + 1 } := by
  have position : ∀ u k src' i, update s.pc t (.writing s.calls src 0) u =
      .writing k src' i → u = t ∧ k = s.calls ∧ src' = src ∧ i = 0 ∨
        u ≠ t ∧ s.pc u = .writing k src' i := by
    intro u k src' i here
    by_cases same : u = t
    · grind
    rw [update_of_ne same] at here
    exact .inr ⟨same, here⟩
  refine ⟨h.tiled, h.appear, h.size, fun c mem => Nat.lt_succ_of_lt (h.known c mem),
    fun u k src' i here => ?_, fun u v k a b i j first second => ?_, fun r mem => ?_⟩
  · rcases position u k src' i here with ⟨-, rfl, rfl, rfl⟩ | ⟨-, here⟩
    · exact ⟨Nat.lt_succ_self _, Nat.zero_le _, h.bytesOf_new⟩
    obtain ⟨less, le, bytes⟩ := h.active u k src' i here
    exact ⟨Nat.lt_succ_of_lt less, le, bytes⟩
  · rcases position u k a i first with ⟨eq, new, -, -⟩ | ⟨-, old⟩
    · rcases position v k b j second with ⟨eq', -, -, -⟩ | ⟨-, old'⟩
      · exact eq.trans eq'.symm
      exact absurd (h.active v k b j old').1 (new ▸ Nat.lt_irrefl _)
    rcases position v k b j second with ⟨-, new, -, -⟩ | ⟨-, old'⟩
    · exact absurd (h.active u k a i old).1 (new ▸ Nat.lt_irrefl _)
    exact h.apart u v k a b i j old old'
  obtain ⟨less, gone, sub, all⟩ := h.results r mem
  refine ⟨Nat.lt_succ_of_lt less, fun u src' i here => ?_, sub, all⟩
  rcases position u r.call src' i here with ⟨-, eq, -, -⟩ | ⟨-, here⟩
  · exact Nat.ne_of_lt less eq
  exact gone u src' i here

omit [DecidableEq τ] in
lemma slice_readi (s : State τ) (n : Int) :
    slice s.data s.off (readi s.data s.off n).length = readi s.data s.off n ∧
    (s.off + (readi s.data s.off n).length ≤ s.data.length ∨ readi s.data s.off n = []) := by
  rw [readi]
  split_ifs with bad short
  · exact ⟨rfl, .inr rfl⟩
  · refine ⟨?_, .inl ?_⟩
    · rw [slice, slice, length_take, length_drop, Nat.min_self]
    rw [slice, length_take, length_drop]
    omega
  refine ⟨?_, .inl ?_⟩
  · rw [slice, slice, length_take, length_drop, Nat.min_eq_left (by omega)]
  rw [slice, length_take, length_drop]
  omega

omit [DecidableEq τ] in
lemma Shared.fileread {n : Int} (h : Shared off s) : Shared off
    { s.transfer s.calls false s.data (readi s.data s.off n) with calls := s.calls + 1 } := by
  obtain ⟨here, inside⟩ := slice_readi s n
  have size := h.size
  have fits : s.off + (readi s.data s.off n).length < 2 ^ 32 ∨ readi s.data s.off n = [] := by
    rcases inside with inside | none
    · left
      simp only [maxfile, bsize] at size
      omega
    exact .inr none
  rcases fits with fits | none
  · obtain ⟨tiled, appear, data, pc, calls, returned, known, bytes⟩ := transfer_spec s.calls false
      h.tiled h.appear fits here fun _ _ _ => rfl
    have kept : ∀ k < s.calls, (s.transfer s.calls false s.data (readi s.data s.off n)).bytesOf k =
        s.bytesOf k := by
      intro k less
      rw [bytes, if_neg (by omega), append_nil]
    refine ⟨tiled, appear, Nat.le_trans (Nat.le_of_eq (congrArg List.length data)) size, fun c mem
      => ?_, fun u k src i at' => ?_, fun u v k a b i j first second => ?_, fun r mem => ?_⟩
    · rcases known c mem with mem | eq
      · exact Nat.lt_succ_of_lt (h.known c mem)
      exact eq ▸ Nat.lt_succ_self _
    · obtain ⟨less, le, eq⟩ := h.active u k src i (pc ▸ at')
      exact ⟨Nat.lt_succ_of_lt less, le, (kept k less).trans eq⟩
    · exact h.apart u v k a b i j (pc ▸ first) (pc ▸ second)
    obtain ⟨less, gone, sub, all⟩ := h.results r (returned ▸ mem)
    have eq := kept r.call less
    exact ⟨Nat.lt_succ_of_lt less, fun u src i at' => gone u src i (pc ▸ at'),
      (show _ <+: _ from eq ▸ sub), fun ret => eq.trans (all ret)⟩
  rw [none]
  exact ⟨h.tiled, h.appear, h.size, fun c mem => Nat.lt_succ_of_lt (h.known c mem), fun u k src i
    at' => ⟨Nat.lt_succ_of_lt (h.active u k src i at').1, (h.active u k src i at').2⟩, h.apart, fun
    r mem => ⟨Nat.lt_succ_of_lt (h.results r mem).1, (h.results r mem).2⟩⟩

lemma Shared.finish {call i : Nat} {ret : Int} (h : Shared off s)
    (here : s.pc t = .writing call src i) (all : ret = src.length → i = src.length) :
    Shared off (s.finish t call src ret) := by
  obtain ⟨less, le, bytes⟩ := h.active t call src i here
  have position : ∀ u k src' j, update s.pc t .idle u = .writing k src' j →
      u ≠ t ∧ s.pc u = .writing k src' j := by
    intro u k src' j at'
    by_cases same : u = t
    · subst same
      rw [update_self] at at'
      cases at'
    rw [update_of_ne same] at at'
    exact ⟨same, at'⟩
  refine ⟨h.tiled, h.appear, h.size, h.known, fun u k src' j at' => h.active u k src' j (position u
    k src' j at').2, fun u v k a b j l first second => h.apart u v k a b j l (position u k a j
    first).2 (position v k b l second).2, fun r mem => ?_⟩
  rcases mem_cons.mp mem with rfl | mem
  · refine ⟨less, fun u src' j at' => ?_, ?_, fun eq => ?_⟩
    · obtain ⟨ne, at'⟩ := position u call src' j at'
      exact ne (h.apart u t call src' src j i at' here)
    · exact (bytes ▸ take_prefix i src : s.bytesOf call <+: src)
    change s.bytesOf call = src
    rw [bytes, all eq, take_length]
  obtain ⟨less', gone, sub, whole⟩ := h.results r mem
  exact ⟨less', fun u src' j at' => gone u src' j (position u r.call src' j at').2, sub, whole⟩

omit [DecidableEq τ] in
lemma writei_some (done : writei s.data s.off src = some data) : s.off ≤ s.data.length ∧
    s.off + src.length ≤ maxfile * bsize ∧ data = writeAt s.data s.off src := by
  rw [writei] at done
  split_ifs at done with bad large
  cases done
  exact ⟨by omega, by omega, rfl⟩

lemma Shared.section {call i : Nat} (h : Shared off s) (here : s.pc t = .writing call src i)
    (more : i < src.length) (done : writei s.data s.off (part src i) = some data) : Shared off
    ((s.transfer call true data (part src i)).goto t (.writing call src (i + (part src i).length)))
    := by
  obtain ⟨less, le, bytes⟩ := h.active t call src i here
  obtain ⟨inside, small, rfl⟩ := writei_some done
  have size := h.size
  obtain ⟨tiled, appear, data, pc, calls, returned, known, grown⟩ :=
    transfer_spec call true h.tiled h.appear
      (show s.off + (part src i).length < 2 ^ 32 by simp only [maxfile, bsize] at small; omega)
      (slice_writeAt_self inside) fun _ _ before => slice_writeAt_before inside before
  have position : ∀ u k src' j, update
      (s.transfer call true (writeAt s.data s.off (part src i)) (part src i)).pc t
      (.writing call src (i + (part src i).length)) u = .writing k src' j →
      u = t ∧ k = call ∧ src' = src ∧ j = i + (part src i).length ∨
        u ≠ t ∧ s.pc u = .writing k src' j := by
    intro u k src' j at'
    rw [pc] at at'
    by_cases same : u = t
    · grind
    rw [update_of_ne same] at at'
    exact .inr ⟨same, at'⟩
  have length : (part src i).length = min (src.length - i) maxChunk := by
    rw [part, slice, length_take, length_drop]
    omega
  refine ⟨tiled, appear, ?_, fun c mem => ?_, fun u k src' j at' => ?_,
    fun u v k a b j l first second => ?_, fun r mem => ?_⟩
  · refine Nat.le_trans (Nat.le_of_eq (congrArg List.length data)) ?_
    rw [length_writeAt inside]
    omega
  · rcases known c mem with mem | eq
    · exact Nat.lt_of_lt_of_eq (h.known c mem) calls.symm
    exact Nat.lt_of_lt_of_eq (eq ▸ less) calls.symm
  · rcases position u k src' j at' with ⟨-, rfl, rfl, rfl⟩ | ⟨ne, at'⟩
    · refine ⟨Nat.lt_of_lt_of_eq less calls.symm, by omega, (grown k).trans ?_⟩
      rw [if_pos rfl, bytes, take_add]
      congr 1
      rw [part, slice, length_take, length_drop, Nat.min_eq_left (Nat.min_le_left _ _)]
    obtain ⟨less', le', bytes'⟩ := h.active u k src' j at'
    have other : call ≠ k := by
      rintro rfl
      exact ne (h.apart u t call src' src j i at' here)
    refine ⟨Nat.lt_of_lt_of_eq less' calls.symm, le', (grown k).trans ?_⟩
    rw [if_neg other, append_nil, bytes']
  · rcases position u k a j first with ⟨eq, rfl, -, -⟩ | ⟨-, old⟩
    · rcases position v k b l second with ⟨eq', -, -, -⟩ | ⟨-, old'⟩
      · exact eq.trans eq'.symm
      exact eq.trans (h.apart t v k src b i l here old')
    rcases position v k b l second with ⟨eq', rfl, -, -⟩ | ⟨-, old'⟩
    · exact (h.apart u t k a src j i old here).trans eq'.symm
    exact h.apart u v k a b j l old old'
  obtain ⟨less', gone, sub, whole⟩ := h.results r (returned ▸ mem)
  have other : call ≠ r.call := by
    rintro rfl
    exact gone t src i here
  have same : (s.transfer call true (writeAt s.data s.off (part src i))
      (part src i)).bytesOf r.call = s.bytesOf r.call := by rw [grown, if_neg other, append_nil]
  refine ⟨Nat.lt_of_lt_of_eq less' calls.symm, fun u src' j at' => ?_,
    (same ▸ sub : _ <+: _), fun eq => same.trans (whole eq)⟩
  rcases position u r.call src' j at' with ⟨-, eq, -, -⟩ | ⟨-, at'⟩
  · exact other eq.symm
  exact gone u src' j at'

lemma Shared.step {a : Act τ} (h : Shared off s) (next : SharedOffset.step s a = some s') :
    Shared off s' := by
  cases a with
  | filewrite t src =>
    obtain ⟨⟨idle, -⟩, rfl⟩ := guarded.mp next
    exact h.filewrite idle
  | fileread t n =>
    obtain ⟨-, rfl⟩ := guarded.mp next
    exact h.fileread
  | chunk t =>
    rw [SharedOffset.step] at next
    cases here : s.pc t with
    | idle =>
      rw [here] at next
      cases next
    | writing call src i =>
      rw [here] at next
      cases next
      obtain ⟨-, le, -⟩ := h.active t call src i here
      rw [State.chunk]
      split_ifs with more
      · cases done : writei s.data s.off (part src i) with
        | none => exact h.finish here fun eq => absurd eq (by omega)
        | some data => exact h.section here more done
      exact h.finish here fun _ => by omega

end

/-- The transfers through a shared file lie one behind the other from the initial offset, each of
them stands in the file as it was transferred, and a `filewrite` that returns its count has
transferred its bytes in order; one that fails, a first part of them. -/
theorem shared_transfers_never_overlap {τ : Type} [DecidableEq τ] {data : List UInt8} {off : Nat}
    {as : List (Act τ)} {s : State τ} (size : data.length ≤ maxfile * bsize)
    (run : Run SharedOffset.step Free (init data off) as s) :
    Tiled Chunk.start Chunk.len off s.log s.off ∧
    (s.log.Pairwise fun c d => c.start + c.bytes.length ≤ d.start) ∧
    s.off = off + (s.log.map Chunk.len).sum ∧
    (∀ c ∈ s.log, slice s.data c.start c.bytes.length = c.bytes) ∧
    (∀ t call src i, s.pc t = .writing call src i → s.bytesOf call = src.take i) ∧
    ∀ r ∈ s.returned, s.bytesOf r.call <+: r.src ∧
      (r.ret = r.src.length → s.bytesOf r.call = r.src) := by
  have start : Shared off (init data off : State τ) := by
    refine ⟨rfl, fun c mem => absurd mem not_mem_nil, size,
      fun c mem => absurd mem not_mem_nil, fun t k src i here => ?_,
      fun t u k a b i j here => ?_, fun r mem => absurd mem not_mem_nil⟩
    · cases here
    · cases here
  have h : Shared off s :=
    run.invariant (I := Shared off) (fun _ _ _ h _ next => h.step next) start
  exact ⟨h.tiled, h.tiled.pairwise, h.tiled.sum, h.appear,
    fun t call src i here => (h.active t call src i here).2.2,
    fun r mem => (h.results r mem).2.2⟩

/-- Two writers and a reader take turns; both writers return their count. -/
theorem two_writers_and_a_reader :
    ∃ s : State Nat, Run SharedOffset.step Free (init [1, 2, 3] 0)
        [.filewrite 0 [7, 8], .filewrite 1 [9], .chunk 1, .fileread 2 1, .chunk 0, .chunk 0,
          .chunk 1] s ∧
      s.data = [9, 2, 7, 8] ∧ s.off = 0 + (s.log.map Chunk.len).sum ∧
      ∀ c ∈ s.log, slice s.data c.start c.bytes.length = c.bytes := by
  refine Run.exists_with (P := fun s => s.data = [9, 2, 7, 8])
    (by decide +kernel) fun s run data => ?_
  obtain ⟨-, -, sum, appear, -⟩ := shared_transfers_never_overlap (by decide) run
  exact ⟨data, sum, appear⟩

end Xv6.SharedOffset
