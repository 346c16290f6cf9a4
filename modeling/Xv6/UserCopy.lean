import Xv6.UserVm

/-! Copies between the kernel and user memory: `copyout`, `copyin` and `copyinstr` of vm.c, and
`fetchstr` of syscall.c. The words of the page-table pages and the bytes of the other pages are
kept apart: no page of a page table is mapped for the user, and the kernel's own buffer is no user
page. -/
namespace Xv6.UserCopy
open PageTable Option
open Function (update update_of_ne update_self)

abbrev Bytes := Nat → UInt8

def memmove (m : Bytes) (dst : Nat) (src : Bytes) (n : Nat) : Bytes :=
  fun x => if dst ≤ x ∧ x < dst + n then src (x - dst) else m x

lemma exists_byte_ne (c : UInt8) : ∃ d, d ≠ c := ⟨c + 1, by simp⟩

def pgrounddown (va : Nat) : Nat := va / pgsize * pgsize

/-- The bytes that a round of the loops takes from the page of `va`, at most `len`. -/
def piece (va len : Nat) : Nat := min (pgsize - (va - pgrounddown va)) len

variable {len n va k : Nat}

lemma piece_pos (va : Nat) (some : len ≠ 0) : 0 < piece va len := by
  rw [piece, pgrounddown]
  simp only [pgsize]
  omega

lemma piece_le (va len : Nat) : piece va len ≤ len := Nat.min_le_right ..

def copyout (w : Words) (root dstva : Nat) (src : Bytes) (len : Nat) (m : Bytes) : Int × Bytes :=
  if none : len = 0 then (0, m)
  else
    let va0 := pgrounddown dstva
    let pa0 := walkaddr w root va0
    if pa0 = 0 then (-1, m)
    else
      let n := piece dstva len
      copyout w root ((va0 + pgsize) % 2 ^ 64) (fun i => src (n + i)) (len - n)
        (memmove m (pa0 + (dstva - va0)) src n)
termination_by len
decreasing_by
  have := piece_pos dstva none
  omega

/-- The kernel buffer `buf` is written from the index `dst` on. -/
def copyin (w : Words) (root : Nat) (m : Bytes) (dst srcva len : Nat) (buf : Bytes) : Int × Bytes :=
  if none : len = 0 then (0, buf)
  else
    let va0 := pgrounddown srcva
    let pa0 := walkaddr w root va0
    if pa0 = 0 then (-1, buf)
    else
      let n := piece srcva len
      copyin w root m (dst + n) ((va0 + pgsize) % 2 ^ 64) (len - n)
        (memmove buf dst (fun i => m (pa0 + (srcva - va0) + i)) n)
termination_by len
decreasing_by
  have := piece_pos srcva none
  omega

/-- The inner loop of `copyinstr`: `got_null`, `max`, the index in the buffer and the buffer. -/
def copyinstrPage (m : Bytes) : Nat → Nat → Nat → Nat → Bytes → Bool × Nat × Nat × Bytes
  | 0, _, max, dst, buf => (false, max, dst, buf)
  | n + 1, p, max, dst, buf =>
    if m p = 0 then (true, max, dst, update buf dst 0)
    else copyinstrPage m n (p + 1) (max - 1) (dst + 1) (update buf dst (m p))

lemma copyinstrPage_max {m : Bytes} {p max dst max' dst' : Nat} {buf buf' : Bytes}
    (run : copyinstrPage m n p max dst buf = (false, max', dst', buf')) : max' = max - n := by
  induction n generalizing p max dst buf with
  | zero =>
    cases run
    rfl
  | succ n ih =>
    rw [copyinstrPage] at run
    split_ifs at run with null
    · cases run
    rw [ih run]
    omega

def copyinstrLoop (w : Words) (root : Nat) (m : Bytes) (dst srcva max : Nat) (buf : Bytes) :
    Int × Bytes :=
  if none : max = 0 then (-1, buf)
  else
    let va0 := pgrounddown srcva
    let pa0 := walkaddr w root va0
    if pa0 = 0 then (-1, buf)
    else
      match round : copyinstrPage m (piece srcva max) (pa0 + (srcva - va0)) max dst buf with
      | (true, _, _, buf) => (0, buf)
      | (false, max', dst, buf) =>
        copyinstrLoop w root m dst ((va0 + pgsize) % 2 ^ 64) max' buf
termination_by max
decreasing_by
  have := piece_pos srcva none
  have := copyinstrPage_max round
  omega

def copyinstr (w : Words) (root : Nat) (m : Bytes) (srcva max : Nat) (buf : Bytes) : Int × Bytes :=
  copyinstrLoop w root m 0 srcva max buf

/-- `strlen`, whose counter is an `int`; `none` where it would leave its range. -/
def strlenLoop (s : Bytes) : Nat → Nat → Option Nat
  | 0, _ => none
  | fuel + 1, n => if s n = 0 then some n else strlenLoop s fuel (n + 1)

def strlen (s : Bytes) : Option Nat := strlenLoop s (2 ^ 31) 0

/-- `fetchstr`; the `int` becomes the `uint64` of `copyinstr`. -/
def fetchstr (w : Words) (root : Nat) (m : Bytes) (addr : Nat) (max : Int) (buf : Bytes) :
    Option Int × Bytes :=
  let r := copyinstr w root m addr (max % 2 ^ 64).toNat buf
  if r.1 < 0 then (some (-1), r.2) else ((strlen r.2).map fun n => (n : Int), r.2)

def entry (w : Words) (root v : Nat) : Option Nat :=
  (walk w root (v * pgsize)).map fun r => w r.1 r.2

/-- The physical page of a user page: its entry has `PTE_V` and `PTE_U`. -/
def userPage (w : Words) (root v : Nat) : Option Nat :=
  match entry w root v with
  | none => none
  | some pte => if valid pte && pte &&& pteU != 0 then some (pte2pa pte) else none

def paddr (w : Words) (root va : Nat) : Option Nat :=
  (userPage w root (va / pgsize)).map fun page => page * pgsize + va % pgsize

/-- No user page is the physical page 0, which is no memory. -/
def Backed (w : Words) (root : Nat) : Prop := ∀ v, userPage w root v ≠ some 0

def Apart (w : Words) (root : Nat) : Prop :=
  ∀ v v' page, userPage w root v = some page → userPage w root v' = some page → v = v'

lemma walkaddr_eq (w : Words) (root v : Nat) :
    walkaddr w root (v * pgsize) = (userPage w root v).getD 0 * pgsize := by
  rw [walkaddr, userPage, entry]
  cases walk w root (v * pgsize) with
  | none => exact (Nat.zero_mul pgsize).symm
  | some r =>
    dsimp only [map_some]
    by_cases here : valid (w r.1 r.2) = true
    · by_cases user : (w r.1 r.2 &&& pteU != 0) = true
      · rw [if_pos here, if_pos user, if_pos (by rw [here, user]; rfl), Nat.shiftLeft_eq, getD_some]
      rw [if_pos here, if_neg user, if_neg (by simp [user]), getD_none, Nat.zero_mul]
    rw [if_neg here, if_neg (by simp [here]), getD_none, Nat.zero_mul]

lemma userPage_lt {w : Words} {root v page : Nat} (here : userPage w root v = some page) :
    v * pgsize < maxva := by
  rw [userPage, entry, walk] at here
  split_ifs at here with low
  · exact low
  cases here

section
variable {w : Words} {root : Nat}

lemma paddr_lt {x : Nat} (here : paddr w root va = some x) : va < maxva := by
  rw [paddr, map_eq_some_iff] at here
  obtain ⟨page, here, -⟩ := here
  have low := userPage_lt here
  have top : maxva = 67108864 * pgsize := by decide
  rw [top] at low ⊢
  have := Nat.lt_of_mul_lt_mul_right low
  exact (Nat.div_lt_iff_lt_mul (by decide)).mp this

lemma paddr_inj (apart : Apart w root) {va' x : Nat} (one : paddr w root va = some x)
    (two : paddr w root va' = some x) : va = va' := by
  rw [paddr, map_eq_some_iff] at one two
  obtain ⟨page, one, rfl⟩ := one
  obtain ⟨page', two, eq⟩ := two
  simp only [pgsize] at *
  have same : page' = page := by omega
  have := apart _ _ _ one (same ▸ two)
  omega

/-- What the page of `va` gives a round: nothing, or the physical addresses of the bytes from `va`
on to the end of the page. -/
lemma round_cases (w : Words) (root va : Nat) :
    (walkaddr w root (pgrounddown va) = 0 ∧ (Backed w root → paddr w root va = none)) ∨
    (walkaddr w root (pgrounddown va) ≠ 0 ∧ (pgrounddown va + pgsize) % 2 ^ 64 =
    pgrounddown va + pgsize ∧ ∀ i < pgsize - (va - pgrounddown va), paddr w root (va + i) =
    some (walkaddr w root (pgrounddown va) + (va - pgrounddown va) + i)) := by
  rw [pgrounddown, walkaddr_eq]
  cases here : userPage w root (va / pgsize) with
  | none =>
    refine .inl ⟨by rw [getD_none, Nat.zero_mul], fun _ => ?_⟩
    rw [paddr, here, map_none]
  | some page =>
    have low := userPage_lt here
    have top : maxva + pgsize < 2 ^ 64 := by decide
    have next : va / pgsize * pgsize + pgsize < 2 ^ 64 :=
      lt_of_le_of_lt (Nat.add_le_add_right (le_of_lt low) _) top
    by_cases zero : page = 0
    · refine .inl ⟨by rw [zero, getD_some, Nat.zero_mul], fun backed => ?_⟩
      exact absurd (zero ▸ here) (backed _)
    refine .inr ⟨?_, Nat.mod_eq_of_lt next, fun i less => ?_⟩
    · rw [getD_some]
      exact Nat.mul_ne_zero zero (by decide)
    rw [getD_some]
    simp only [pgsize] at *
    have quotient : (va + i) / 4096 = va / 4096 := by omega
    rw [paddr, quotient, here, map_some]
    refine congrArg some ?_
    simp only [pgsize]
    omega

lemma piece_next (va len i : Nat) (more : 0 < len - piece va len) :
    pgrounddown va + pgsize + i = va + (piece va len + i) := by
  rw [piece, pgrounddown] at *
  simp only [pgsize] at *
  omega

lemma piece_le_page (va len : Nat) : piece va len ≤ pgsize - (va - pgrounddown va) :=
  Nat.min_le_left ..

end

section
variable {w : Words} {root : Nat}

/-- What `copyout` has done: the first `done` bytes are copied, and it has stopped at the first
address that is none of the user's. -/
structure CopiedOut (w : Words) (root va : Nat) (src : Bytes) (len : Nat) (m : Bytes)
    (r : Int × Bytes) (done : Nat) : Prop where
  le : done ≤ len
  here : ∀ i < done, ∃ x, paddr w root (va + i) = some x
  bytes : Apart w root → ∀ i < done, ∃ x, paddr w root (va + i) = some x ∧ r.2 x = src i
  frame : ∀ x, (∀ i < done, paddr w root (va + i) ≠ some x) → r.2 x = m x
  result : r.1 = 0 ∧ done = len ∨
    r.1 = -1 ∧ done < len ∧ (Backed w root → paddr w root (va + done) = none)

lemma copyout_spec (w : Words) (root va : Nat) (src : Bytes) (len : Nat) (m : Bytes) :
    ∃ done, CopiedOut w root va src len m (copyout w root va src len m) done := by
  induction len using Nat.strong_induction_on generalizing va src m with
  | _ len ih =>
    rw [copyout.eq_def]
    split_ifs with none
    · exact ⟨0, Nat.zero_le _, fun i less => absurd less (Nat.not_lt_zero i), fun _ i less => absurd
        less (Nat.not_lt_zero i), fun _ _ => rfl, .inl ⟨rfl, none.symm⟩⟩
    dsimp only
    rcases round_cases w root va with ⟨zero, stop⟩ | ⟨zero, wrap, here⟩
    · rw [if_pos zero]
      exact ⟨0, Nat.zero_le _, fun i less => absurd less (Nat.not_lt_zero i),
      fun _ i less => absurd less (Nat.not_lt_zero i), fun _ _ => rfl,
        .inr ⟨rfl, Nat.pos_of_ne_zero none, stop⟩⟩
    rw [if_neg zero, wrap]
    have pos := piece_pos va none
    have le := piece_le va len
    have inPage := piece_le_page va len
    generalize walkaddr w root (pgrounddown va) + (va - pgrounddown va) = pa at here ⊢
    obtain ⟨done, le', mapped, bytes, frame, result⟩ := ih (len - piece va len) (by omega)
      (pgrounddown va + pgsize) (fun i => src (piece va len + i)) (memmove m pa src (piece va len))
    generalize copyout w root (pgrounddown va + pgsize) _ _ _ = r at bytes frame result ⊢
    have next := fun i => piece_next va len i
    refine ⟨piece va len + done, by omega, fun i less => ?_, fun apart i less => ?_,
      fun x other => ?_, ?_⟩
    · by_cases first : i < piece va len
      · exact ⟨pa + i, here i (by omega)⟩
      have := mapped (i - piece va len) (by omega)
      rwa [next _ (by omega), Nat.add_sub_cancel' (by omega)] at this
    · by_cases first : i < piece va len
      · refine ⟨pa + i, here i (by omega), ?_⟩
        rw [frame (pa + i) fun j small eq => ?_, memmove, if_pos (by omega),
          Nat.add_sub_cancel_left]
        have := paddr_inj apart eq (here i (by omega))
        have := next j (by omega)
        omega
      obtain ⟨x, at', byte⟩ := bytes apart (i - piece va len) (by omega)
      rw [next _ (by omega), Nat.add_sub_cancel' (by omega)] at at'
      refine ⟨x, at', byte.trans ?_⟩
      rw [Nat.add_sub_cancel' (by omega)]
    · rw [frame x fun j small eq => ?_, memmove, if_neg ?_]
      · rintro ⟨low, high⟩
        refine other (x - pa) (by omega) ?_
        rw [here _ (by omega), Nat.add_sub_cancel' low]
      refine other (piece va len + j) (by omega) ?_
      rw [← next j (by omega)]
      exact eq
    rcases result with ⟨ok, all⟩ | ⟨bad, less, stop⟩
    · exact .inl ⟨ok, by omega⟩
    refine .inr ⟨bad, by omega, ?_⟩
    rw [← next done (by omega)]
    exact stop

/-- What `copyin` has done, with the buffer written from the index `dst` on. -/
structure CopiedIn (w : Words) (root : Nat) (m : Bytes) (dst va len : Nat) (buf : Bytes)
    (r : Int × Bytes) (done : Nat) : Prop where
  le : done ≤ len
  bytes : ∀ i < done, ∃ x, paddr w root (va + i) = some x ∧ r.2 (dst + i) = m x
  frame : ∀ j, j < dst ∨ dst + done ≤ j → r.2 j = buf j
  result : r.1 = 0 ∧ done = len ∨
    r.1 = -1 ∧ done < len ∧ (Backed w root → paddr w root (va + done) = none)

lemma copyin_spec (w : Words) (root : Nat) (m : Bytes) (dst va len : Nat) (buf : Bytes) :
    ∃ done, CopiedIn w root m dst va len buf (copyin w root m dst va len buf) done := by
  induction len using Nat.strong_induction_on generalizing dst va buf with
  | _ len ih =>
    rw [copyin.eq_def]
    split_ifs with none
    · exact ⟨0, Nat.zero_le _, fun i less => absurd less (Nat.not_lt_zero i), fun _ _ => rfl,
        .inl ⟨rfl, none.symm⟩⟩
    dsimp only
    rcases round_cases w root va with ⟨zero, stop⟩ | ⟨zero, wrap, here⟩
    · rw [if_pos zero]
      exact ⟨0, Nat.zero_le _, fun i less => absurd less (Nat.not_lt_zero i), fun _ _ => rfl,
        .inr ⟨rfl, Nat.pos_of_ne_zero none, stop⟩⟩
    rw [if_neg zero, wrap]
    have pos := piece_pos va none
    have le := piece_le va len
    have inPage := piece_le_page va len
    have next := fun i => piece_next va len i
    generalize walkaddr w root (pgrounddown va) + (va - pgrounddown va) = pa at here ⊢
    obtain ⟨done, le', bytes, frame, result⟩ := ih (len - piece va len) (by omega) (dst + piece va
      len) (pgrounddown va + pgsize) (memmove buf dst (fun i => m (pa + i)) (piece va len))
    generalize copyin w root m _ (pgrounddown va + pgsize) _ _ = r at bytes frame result ⊢
    refine ⟨piece va len + done, by omega, fun i less => ?_, fun j other => ?_, ?_⟩
    · by_cases first : i < piece va len
      · refine ⟨pa + i, here i (by omega), ?_⟩
        rw [frame (dst + i) (by omega), memmove, if_pos (by omega), Nat.add_sub_cancel_left]
      obtain ⟨x, at', byte⟩ := bytes (i - piece va len) (by omega)
      rw [next _ (by omega), Nat.add_sub_cancel' (by omega)] at at'
      rw [Nat.add_assoc, Nat.add_sub_cancel' (by omega)] at byte
      exact ⟨x, at', byte⟩
    · rw [frame j (by omega), memmove, if_neg (by omega)]
    rcases result with ⟨ok, all⟩ | ⟨bad, less, stop⟩
    · exact .inl ⟨ok, by omega⟩
    refine .inr ⟨bad, by omega, ?_⟩
    rw [← next done (by omega)]
    exact stop

end

section
variable {w : Words} {root : Nat} {m : Bytes}

lemma copyinstrPage_spec (n p max dst : Nat) (buf : Bytes) : (∃ k < n, ∃ max' dst' buf',
    copyinstrPage m n p max dst buf = (true, max', dst', buf') ∧ (∀ i < k, m (p + i) ≠ 0) ∧
    m (p + k) = 0 ∧ (∀ i ≤ k, buf' (dst + i) = m (p + i)) ∧ ∀ j, j < dst ∨ dst + k < j → buf' j =
    buf j) ∨ ∃ buf', copyinstrPage m n p max dst buf = (false, max - n, dst + n, buf') ∧ (∀ i < n,
    m (p + i) ≠ 0 ∧ buf' (dst + i) = m (p + i)) ∧ ∀ j, j < dst ∨ dst + n ≤ j → buf' j = buf j := by
  induction n generalizing p max dst buf with
  | zero => exact .inr ⟨buf, rfl, fun i less => absurd less (Nat.not_lt_zero i), fun _ _ => rfl⟩
  | succ n ih =>
    rw [copyinstrPage]
    split_ifs with null
    · refine .inl ⟨0, Nat.succ_pos n, _, _, _, rfl, fun i less => absurd less (Nat.not_lt_zero i),
        null, fun i small => ?_, fun j other => update_of_ne (by omega) ..⟩
      rw [Nat.le_zero.mp small, Nat.add_zero, Nat.add_zero, update_self, null]
    have step : ∀ i, p + 1 + i = p + (i + 1) := by omega
    have step' : ∀ i, dst + 1 + i = dst + (i + 1) := by omega
    rcases ih (p + 1) (max - 1) (dst + 1) (update buf dst (m p)) with
      ⟨k, less, max', dst', buf', run, before, last, bytes, frame⟩ | ⟨buf', run, bytes, frame⟩
    · refine .inl ⟨k + 1, Nat.succ_lt_succ less, max', dst', buf', run, fun i small => ?_, ?_,
        fun i small => ?_, fun j other => ?_⟩
      · cases i with
        | zero => exact null
        | succ i => exact step i ▸ before i (by omega)
      · exact step k ▸ last
      · cases i with
        | zero => rw [Nat.add_zero, Nat.add_zero, frame dst (by omega), update_self]
        | succ i => rw [← step, ← step', bytes i (by omega)]
      rw [frame j (by omega), update_of_ne (by omega)]
    refine .inr ⟨buf', ?_, fun i small => ?_, fun j other => ?_⟩
    · rw [run, Nat.sub_sub, Nat.add_comm 1 n, step' n]
    · cases i with
      | zero => grind
      | succ i =>
        rw [← step, ← step']
        exact bytes i (by omega)
    rw [frame j (by omega), update_of_ne (by omega)]

/-- The user memory holds a string of `k` bytes and its NUL at `va`, all in user pages. -/
def Text (w : Words) (root : Nat) (m : Bytes) (va k : Nat) : Prop :=
  (∀ i < k, ∃ x, paddr w root (va + i) = some x ∧ m x ≠ 0) ∧
    ∃ x, paddr w root (va + k) = some x ∧ m x = 0

lemma Text.unique {k' : Nat} (one : Text w root m va k) (two : Text w root m va k') : k = k' := by
  have le : ∀ {k k'}, Text w root m va k → Text w root m va k' → ¬ k < k' := by
    intro k k' one two less
    obtain ⟨x, here, null⟩ := one.2
    obtain ⟨y, there, some⟩ := two.1 k less
    rw [here] at there
    cases there
    exact some null
  exact Nat.le_antisymm (Nat.not_lt.mp (le two one)) (Nat.not_lt.mp (le one two))

lemma Text.drop (text : Text w root m va (n + k)) : Text w root m (va + n) k := by
  refine ⟨fun i less => ?_, ?_⟩
  · rw [Nat.add_assoc]
    exact text.1 (n + i) (by omega)
  rw [Nat.add_assoc]
  exact text.2

lemma Text.append (text : Text w root m (va + n) k) (first : ∀ i < n, ∃ x,
    paddr w root (va + i) = some x ∧ m x ≠ 0) : Text w root m va (n + k) := by
  refine ⟨fun i less => ?_, Nat.add_assoc va n k ▸ text.2⟩
  by_cases low : i < n
  · exact first i low
  have := text.1 (i - n) (by omega)
  rwa [Nat.add_assoc, Nat.add_sub_cancel' (by omega)] at this

/-- What `copyinstr` has done: the buffer holds the string, or there is none within `max`. -/
inductive Fetched (w : Words) (root : Nat) (m : Bytes) (dst va max : Nat) (buf : Bytes) :
    Int × Bytes → Prop
  | text {k : Nat} {buf' : Bytes} (less : k < max) (here : Text w root m va k)
      (bytes : ∀ i ≤ k, ∃ x, paddr w root (va + i) = some x ∧ buf' (dst + i) = m x)
      (frame : ∀ j, j < dst ∨ dst + k < j → buf' j = buf j) :
      Fetched w root m dst va max buf (0, buf')
  | none {buf' : Bytes} (none : ∀ k < max, ¬ Text w root m va k)
      (frame : ∀ j, j < dst ∨ dst + max ≤ j → buf' j = buf j) :
      Fetched w root m dst va max buf (-1, buf')

lemma copyinstrLoop_spec (backed : Backed w root) (dst va max : Nat) (buf : Bytes) :
    Fetched w root m dst va max buf (copyinstrLoop w root m dst va max buf) := by
  induction max using Nat.strong_induction_on generalizing dst va buf with
  | _ max ih =>
    rw [copyinstrLoop.eq_def]
    split_ifs with none
    · exact .none (fun k less => absurd less (by omega)) fun _ _ => rfl
    dsimp only
    rcases round_cases w root va with ⟨zero, stop⟩ | ⟨zero, wrap, here⟩
    · have stop := stop backed
      rw [if_pos zero]
      refine .none (fun k less text => ?_) fun _ _ => rfl
      cases k with
      | zero =>
        obtain ⟨x, there, -⟩ := text.2
        exact absurd (stop.symm.trans there).symm (some_ne_none x)
      | succ k =>
        obtain ⟨x, there, -⟩ := text.1 0 (Nat.succ_pos k)
        exact absurd (stop.symm.trans there).symm (some_ne_none x)
    rw [if_neg zero, wrap]
    have pos := piece_pos va none
    have le := piece_le va max
    have inPage := piece_le_page va max
    have next := piece_next va max 0
    generalize walkaddr w root (pgrounddown va) + (va - pgrounddown va) = pa at here ⊢
    rcases copyinstrPage_spec (m := m) (piece va max) pa max dst buf with
      ⟨k, less, max', dst', buf', run, before, last, bytes, frame⟩ | ⟨buf', run, bytes, frame⟩
    · rw [run]
      refine .text (k := k) (by omega) ⟨fun i small => ?_, ?_⟩ (fun i small => ?_) frame
      · exact ⟨_, here i (by omega), before i small⟩
      · exact ⟨_, here k (by omega), last⟩
      exact ⟨_, here i (by omega), bytes i small⟩
    rw [run]
    have first : ∀ i < piece va max, ∃ x, paddr w root (va + i) = some x ∧ m x ≠ 0 :=
      fun i less => ⟨_, here i (by omega), (bytes i less).1⟩
    have after : 0 < max - piece va max → pgrounddown va + pgsize = va + piece va max := by
      intro more
      rw [Nat.add_zero, Nat.add_zero] at next
      exact next more
    have rest := ih (max - piece va max) (by omega) (dst + piece va max)
      (pgrounddown va + pgsize) buf'
    dsimp only
    generalize copyinstrLoop w root m _ _ _ buf' = r at rest ⊢
    cases rest with
    | @text k buf'' less text bytes' frame' =>
      rw [after (by omega)] at text bytes'
      refine .text (k := piece va max + k) (by omega) (text.append first)
        (fun i small => ?_) fun j other => ?_
      · by_cases low : i < piece va max
        · grind
        have := bytes' (i - piece va max) (by omega)
        rwa [Nat.add_assoc, Nat.add_assoc, Nat.add_sub_cancel' (by omega)] at this
      rw [frame' j (by omega), frame j (by omega)]
    | @none buf'' none frame' =>
      refine .none (fun k less text => ?_) fun j other => ?_
      · by_cases low : k < piece va max
        · obtain ⟨x, there, null⟩ := text.2
          rw [here k (by omega)] at there
          cases there
          exact (bytes k low).1 null
        refine none (k - piece va max) (by omega) ?_
        rw [after (by omega)]
        exact (show piece va max + (k - piece va max) = k by omega) ▸ text |>.drop
      rw [frame' j (by omega), frame j (by omega)]

lemma strlenLoop_eq {s : Bytes} (fuel n : Nat) (some : ∀ i < k, s (n + i) ≠ 0)
    (null : s (n + k) = 0) (enough : k < fuel) : strlenLoop s fuel n = .some (n + k) := by
  induction fuel generalizing n k with
  | zero => exact absurd enough (Nat.not_lt_zero k)
  | succ fuel ih =>
    rw [strlenLoop]
    cases k with
    | zero => rw [if_pos (show s n = 0 from null), Nat.add_zero]
    | succ k =>
      have step : ∀ i, n + 1 + i = n + (i + 1) := by omega
      rw [if_neg (show s n ≠ 0 from some 0 (Nat.succ_pos k)), ih (n + 1) (fun i less => step i ▸
        some (i + 1) (by omega)) (step k ▸ null) (by omega), step]

lemma strlen_text {buf : Bytes} (text : Text w root m va k) (bytes : ∀ i ≤ k, ∃ x,
    paddr w root (va + i) = some x ∧ buf i = m x) (small : k < 2 ^ 31) : strlen buf = some k := by
  have := strlenLoop_eq (s := buf) (2 ^ 31) 0 (fun i low => ?_) ?_ small
  · rwa [Nat.zero_add] at this
  · obtain ⟨x, here, byte⟩ := bytes i (le_of_lt low)
    obtain ⟨y, there, some⟩ := text.1 i low
    rw [here] at there
    cases there
    rwa [Nat.zero_add, byte]
  obtain ⟨x, here, byte⟩ := bytes k le_rfl
  obtain ⟨y, there, null⟩ := text.2
  rw [here] at there
  cases there
  rwa [Nat.zero_add, byte]

lemma fetchstr_cases (backed : Backed w root) (m : Bytes) (va : Nat) {max : Nat}
    (small : max < 2 ^ 31) (buf : Bytes) :
    (∃ k < max, (fetchstr w root m va max buf).1 = some (k : Int) ∧
      ∀ i < k, (fetchstr w root m va max buf).2 i ≠ 0) ∨
    (fetchstr w root m va max buf).1 = some (-1) := by
  have fetched : Fetched w root m 0 va max buf (copyinstr w root m va max buf) :=
    copyinstrLoop_spec backed 0 va max buf
  have same : ((max : Int) % 2 ^ 64).toNat = max := by omega
  rw [fetchstr, same]
  generalize copyinstr w root m va max buf = r at fetched ⊢
  cases fetched with
  | @text k buf' less text bytes frame =>
    simp only [Nat.zero_add] at bytes
    dsimp only
    rw [if_neg (show ¬ (0 : Int) < 0 by decide), strlen_text text bytes (by omega)]
    refine .inl ⟨k, less, rfl, fun i low => ?_⟩
    obtain ⟨x, here, byte⟩ := bytes i (le_of_lt low)
    obtain ⟨y, there, some⟩ := text.1 i low
    rw [here] at there
    cases there
    show buf' i ≠ 0
    rwa [byte]
  | none => exact .inr (by rw [if_pos (show (-1 : Int) < 0 by decide)])

end

section
variable {w : Words} {root : Nat}

/-- Every page that overlaps `[va, va + len)` is below `MAXVA`, valid and the user's. -/
def UserRange (w : Words) (root va len : Nat) : Prop :=
  ∀ a, va ≤ a → a < va + len → a < maxva ∧
    ∃ pte, entry w root (a / pgsize) = some pte ∧ valid pte = true ∧ pte &&& pteU ≠ 0

lemma userPage_ne_none {v : Nat} : userPage w root v ≠ none ↔ ∃ pte, entry w root v = some pte ∧
    valid pte = true ∧ pte &&& pteU ≠ 0 := by
  rw [userPage]
  cases entry w root v with
  | none => simp
  | some pte =>
    dsimp only
    split_ifs with user
    · simp only [Bool.and_eq_true, bne_iff_ne] at user
      exact iff_of_true (some_ne_none _) ⟨pte, rfl, user⟩
    simp only [Bool.and_eq_true, bne_iff_ne] at user
    refine iff_of_false (fun ne => ne rfl) ?_
    rintro ⟨pte', eq, here⟩
    cases eq
    exact user here

lemma userRange_iff : UserRange w root va len ↔ ∀ i < len, paddr w root (va + i) ≠ none := by
  have user : ∀ a, paddr w root a ≠ none ↔ a < maxva ∧
      ∃ pte, entry w root (a / pgsize) = some pte ∧ valid pte = true ∧ pte &&& pteU ≠ 0 := by
    intro a
    rw [← userPage_ne_none]
    constructor
    · intro here
      obtain ⟨x, at'⟩ := ne_none_iff_exists'.mp here
      refine ⟨paddr_lt at', fun none => here ?_⟩
      rw [paddr, none, map_none]
    rintro ⟨-, here⟩ none
    rw [paddr, map_eq_none_iff] at none
    exact here none
  constructor
  · intro range i less
    exact (user _).mpr (range (va + i) (by omega) (by omega))
  intro range a low high
  have := range (a - va) (by omega)
  rw [Nat.add_sub_cancel' low] at this
  exact (user a).mp this

lemma result_iff {done : Nat} {r : Int} (backed : Backed w root) (bytes : ∀ i < done, ∃ x,
    paddr w root (va + i) = some x) (result : r = 0 ∧ done = len ∨ r = -1 ∧ done < len ∧
    (Backed w root → paddr w root (va + done) = none)) : (r = 0 ↔ UserRange w root va len) ∧
    (¬ UserRange w root va len → r = -1) ∧ (UserRange w root va len → done = len) := by
  rw [userRange_iff]
  rcases result with ⟨rfl, rfl⟩ | ⟨rfl, less, stop⟩
  · grind
  have not : ¬ ∀ i < len, paddr w root (va + i) ≠ none := fun range => range done less (stop backed)
  exact ⟨iff_of_false (by decide) not, fun _ => rfl, fun range => absurd range not⟩

/-- Copies across pages. A copy succeeds exactly if all of the range is user memory, and then
moves it all; otherwise it ends with -1. In all cases only bytes of the range change. -/
theorem copies_across_pages (backed : Backed w root) (apart : Apart w root) (va len : Nat)
    (src m buf : Bytes) :
    ((copyout w root va src len m).1 = 0 ↔ UserRange w root va len) ∧
    (¬ UserRange w root va len → (copyout w root va src len m).1 = -1) ∧
    (UserRange w root va len →
      ∀ i < len, ∃ x, paddr w root (va + i) = some x ∧ (copyout w root va src len m).2 x = src i) ∧
    (∀ x, (∀ i < len, paddr w root (va + i) ≠ some x) → (copyout w root va src len m).2 x = m x) ∧
    ((copyin w root m 0 va len buf).1 = 0 ↔ UserRange w root va len) ∧
    (¬ UserRange w root va len → (copyin w root m 0 va len buf).1 = -1) ∧
    (UserRange w root va len →
      ∀ i < len, ∃ x, paddr w root (va + i) = some x ∧ (copyin w root m 0 va len buf).2 i = m x) ∧
    (∀ j ≥ len, (copyin w root m 0 va len buf).2 j = buf j) ∧
    (UserRange w root va len → ∀ i < len,
      (copyin w root (copyout w root va src len m).2 0 va len buf).2 i = src i) := by
  obtain ⟨out, le, here, bytes, frame, result⟩ := copyout_spec w root va src len m
  have ended := result_iff backed here result
  have bytesIn : ∀ m', UserRange w root va len → ∀ i < len, ∃ x, paddr w root (va + i) = some x ∧
      (copyin w root m' 0 va len buf).2 i = m' x := by
    intro m' range i less
    obtain ⟨read, -, bytes, -, result⟩ := copyin_spec w root m' 0 va len buf
    have all := (result_iff backed (fun i less => (bytes i less).imp fun _ => And.left) result).2.2
      range
    have := bytes i (by omega)
    rwa [Nat.zero_add] at this
  obtain ⟨read, le', bytes', frame', result'⟩ := copyin_spec w root m 0 va len buf
  have ended' := result_iff backed (fun i less => (bytes' i less).imp fun _ => And.left) result'
  have written : UserRange w root va len → ∀ i < len, ∃ x, paddr w root (va + i) = some x ∧
      (copyout w root va src len m).2 x = src i := by
    intro range i less
    have all := ended.2.2 range
    exact bytes apart i (by omega)
  refine ⟨ended.1, ended.2.1, written, fun x other => ?_, ended'.1, ended'.2.1, bytesIn m,
    fun j above => ?_, fun range i less => ?_⟩
  · exact frame x fun i less => other i (by omega)
  · exact frame' j (by omega)
  obtain ⟨x, here, byte⟩ := written range i less
  obtain ⟨y, there, same⟩ := bytesIn _ range i less
  rw [here] at there
  cases there
  exact same.trans byte

/-- `copyinstr` succeeds exactly if a string with its NUL is in the user's memory within `max`
bytes, and then the buffer holds it; `fetchstr` gives its length, which is an `int`. -/
theorem strings_are_fetched (backed : Backed w root) (m : Bytes) (va max : Nat) (buf : Bytes) :
    ((copyinstr w root m va max buf).1 = 0 ↔ ∃ k < max, Text w root m va k) ∧
    (∀ k < max, Text w root m va k →
      (∀ i ≤ k, ∃ x, paddr w root (va + i) = some x ∧ (copyinstr w root m va max buf).2 i = m x) ∧
      ∀ j > k, (copyinstr w root m va max buf).2 j = buf j) ∧
    ((¬ ∃ k < max, Text w root m va k) → (copyinstr w root m va max buf).1 = -1 ∧
      ∀ j ≥ max, (copyinstr w root m va max buf).2 j = buf j) ∧
    ∀ max' : Int, -2 ^ 31 ≤ max' → max' < 2 ^ 31 → (max' % 2 ^ 64).toNat = max →
      (∀ k < max, Text w root m va k → k < 2 ^ 31 → fetchstr w root m va max' buf =
        (some (k : Int), (copyinstr w root m va max buf).2)) ∧
      ((¬ ∃ k < max, Text w root m va k) → (fetchstr w root m va max' buf).1 = some (-1)) := by
  have fetched : Fetched w root m 0 va max buf (copyinstr w root m va max buf) :=
    copyinstrLoop_spec backed 0 va max buf
  have unfolded : ∀ max' : Int, (max' % 2 ^ 64).toNat = max → fetchstr w root m va max' buf =
      if (copyinstr w root m va max buf).1 < 0 then (some (-1), (copyinstr w root m va max buf).2)
      else ((strlen (copyinstr w root m va max buf).2).map fun n => (n : Int),
        (copyinstr w root m va max buf).2) := by
    intro max' eq
    rw [fetchstr, eq]
  generalize copyinstr w root m va max buf = r at fetched unfolded ⊢
  cases fetched with
  | @text k buf' less text bytes frame =>
    have exists' : ∃ k < max, Text w root m va k := ⟨k, less, text⟩
    simp only [Nat.zero_add] at bytes frame
    refine ⟨iff_of_true rfl exists', fun k' _ text' => ?_, fun none => absurd exists' none,
      fun max' _ _ eq => ⟨fun k' _ text' small => ?_, fun none => absurd exists' none⟩⟩
    · cases text.unique text'
      exact ⟨bytes, fun j above => frame j (.inr above)⟩
    cases text.unique text'
    have length := strlen_text text bytes small
    rw [unfolded max' eq, if_neg (show ¬ (0 : Int) < 0 by decide), length]
    rfl
  | @none buf' none frame =>
    have not : ¬ ∃ k < max, Text w root m va k := fun ⟨k, less, text⟩ => none k less text
    refine ⟨iff_of_false (show (-1 : Int) ≠ 0 by decide) not,
      fun k less text => absurd text (none k less),
      fun _ => ⟨rfl, fun j above => frame j (by omega)⟩,
      fun max' _ _ eq => ⟨fun k less text => absurd text (none k less), fun _ => ?_⟩⟩
    rw [unfolded max' eq, if_pos (show (-1 : Int) < 0 by decide)]

end

/-- A page table with the root in page 1, in which only the page 0 is mapped, to page 4. -/
def onePage : Words := fun pt i =>
  if i = 0 then
    if pt = 1 then pa2pte 2 ||| pteV
    else if pt = 2 then pa2pte 3 ||| pteV
    else if pt = 3 then pa2pte 4 ||| pteR ||| pteW ||| pteU ||| pteV
    else 0
  else 0

lemma lookup_onePage (i : Index) : lookup onePage 1 i = (if i = 0 then some 2 else none) ∧
    lookup onePage 2 i = (if i = 0 then some 3 else none) := by
  rw [lookup, lookup, onePage, onePage]
  by_cases zero : i = 0
  · rw [if_pos zero, if_pos zero, if_pos zero, if_pos zero]
    exact ⟨by decide, by decide⟩
  rw [if_neg zero, if_neg zero, if_neg zero, if_neg zero]
  exact ⟨by decide, by decide⟩

lemma entry_onePage (v : Nat) : entry onePage 1 v = if v < 512 then some
    (if v = 0 then pa2pte 4 ||| pteR ||| pteW ||| pteU ||| pteV else 0) else none := by
  have top : maxva = 67108864 * pgsize := by decide
  have values : ∀ level, px level (v * pgsize) = 0 ↔ v * 4096 / 2 ^ (12 + 9 * level) % 512 = 0 := by
    intro level
    rw [← px_val]
    exact Fin.ext_iff
  rw [entry, walk, top]
  by_cases below : v * pgsize < 67108864 * pgsize
  · have less := Nat.lt_of_mul_lt_mul_right below
    rw [if_pos below, (lookup_onePage _).1]
    by_cases second : px 2 (v * pgsize) = 0
    · rw [if_pos second, bind_some, (lookup_onePage _).2]
      rw [values] at second
      by_cases first : px 1 (v * pgsize) = 0
      · rw [if_pos first]
        rw [values] at first
        have small : v < 512 := by omega
        rw [if_pos small, map_some, map_some]
        refine congrArg some ?_
        dsimp only [onePage]
        refine if_congr ?_ rfl rfl
        rw [values]
        omega
      rw [if_neg first]
      rw [values] at first
      rw [if_neg (by omega)]
      rfl
    rw [if_neg second]
    rw [values] at second
    rw [if_neg (by omega)]
    rfl
  rw [if_neg below, if_neg]
  · rfl
  intro small
  exact below (Nat.mul_lt_mul_of_pos_right (by omega) (by decide))

lemma userPage_onePage (v : Nat) : userPage onePage 1 v = if v = 0 then some 4 else none := by
  rw [userPage, entry_onePage]
  by_cases zero : v = 0
  · rw [zero]
    decide
  rw [if_neg zero, if_neg zero]
  split_ifs with small
  · decide
  rfl

lemma onePage_backed : Backed onePage 1 := by
  intro v zero
  rw [userPage_onePage] at zero
  split_ifs at zero
  cases zero

lemma onePage_apart : Apart onePage 1 := by
  intro v v' page one two
  rw [userPage_onePage] at one two
  split_ifs at one two with zero zero'
  exact zero.trans zero'.symm

/-- The last two bytes of a page, and one more. -/
theorem onePage_copies :
    (copyout onePage 1 4094 (fun _ => 7) 2 fun _ => 0).1 = 0 ∧
      (copyout onePage 1 4094 (fun _ => 7) 3 fun _ => 0).1 = -1 := by
  have range : UserRange onePage 1 4094 2 := by
    rw [userRange_iff]
    decide +kernel
  have short : ¬ UserRange onePage 1 4094 3 := by
    rw [userRange_iff]
    decide +kernel
  exact ⟨(copies_across_pages onePage_backed onePage_apart 4094 2 (fun _ => 7) (fun _ => 0)
      fun _ => 0).1.mpr range,
    (copies_across_pages onePage_backed onePage_apart 4094 3 (fun _ => 7) (fun _ => 0)
      fun _ => 0).2.1 short⟩

theorem onePage_string :
    (copyinstr onePage 1 (fun x => if x = 4 * pgsize + 4095 then 0 else 97) 4094 100
      fun _ => 1).1 = 0 ∧
      (copyinstr onePage 1 (fun _ => 97) 4094 100 fun _ => 1).1 = -1 := by
  refine ⟨(strings_are_fetched onePage_backed _ 4094 100 fun _ => 1).1.mpr ⟨1, by decide, ?_⟩,
    ((strings_are_fetched onePage_backed _ 4094 100 fun _ => 1).2.2.1 ?_).1⟩
  · refine ⟨fun i less => ?_, ⟨4 * pgsize + 4095, by decide +kernel, by decide⟩⟩
    cases Nat.lt_one_iff.mp less
    exact ⟨4 * pgsize + 4094, by decide +kernel, by decide⟩
  rintro ⟨k, -, -, x, -, null⟩
  exact absurd null (show (97 : UInt8) ≠ 0 by decide)

def Writable (w : Words) (root v : Nat) : Prop :=
  ∃ pte, entry w root v = some pte ∧ valid pte = true ∧ pte &&& pteU ≠ 0 ∧ pte &&& pteW ≠ 0

/-- `copyout` writes to writable user pages only, and fails if the range has any other, exactly if
every page of the range that it reaches is writable: the pages up to the first that is not the
user's. -/
theorem copyout_keeps_to_writable_iff {w : Words} {root : Nat} (backed : Backed w root)
    (apart : Apart w root) (va len : Nat) :
    (∀ src m, (∀ x, (copyout w root va src len m).2 x ≠ m x → ∃ a, va ≤ a ∧ a < va + len ∧
        paddr w root a = some x ∧ Writable w root (a / pgsize)) ∧
      ((∃ a, va ≤ a ∧ a < va + len ∧ ¬ Writable w root (a / pgsize)) →
        (copyout w root va src len m).1 = -1)) ↔
    ∀ i < len, (∀ j ≤ i, paddr w root (va + j) ≠ none) → Writable w root ((va + i) / pgsize) := by
  constructor
  · intro all i less mapped
    obtain ⟨done, le, -, bytes, -, result⟩ := copyout_spec w root va (fun _ => 1) len fun _ => 0
    have reached : i < done := by
      rcases result with ⟨-, rfl⟩ | ⟨-, -, stop⟩
      · exact less
      · exact not_le.mp fun early => mapped done early (stop backed)
    obtain ⟨x, here, byte⟩ := bytes apart i reached
    obtain ⟨a, -, -, there, writable⟩ := (all (fun _ => 1) fun _ => 0).1 x (byte.trans_ne (by decide))
    rwa [paddr_inj apart here there]
  · intro writable src m
    obtain ⟨done, le, mapped, -, frame, result⟩ := copyout_spec w root va src len m
    have written : ∀ i < done, Writable w root ((va + i) / pgsize) := fun i less =>
      writable i (by omega) fun j low => ne_none_iff_exists'.mpr (mapped j (by omega))
    constructor
    · grind
    · rintro ⟨a, low, high, not⟩
      rcases result with ⟨-, rfl⟩ | ⟨bad, -⟩
      · have := written (a - va) (by omega)
        rw [Nat.add_sub_cancel' low] at this
        exact absurd this not
      · exact bad

theorem onePage_copyout : (copyout onePage 1 4094 (fun _ => 7) 3 fun _ => 0).1 = -1 := by
  refine ((copyout_keeps_to_writable_iff onePage_backed onePage_apart 4094 3).mpr
    (fun i less user => ?_) (fun _ => 7) fun _ => 0).2 ⟨4096, by decide, by decide, ?_⟩
  · have zero : (4094 + i) / pgsize = 0 := by
      by_contra other
      refine user i le_rfl ?_
      rw [paddr, userPage_onePage, if_neg other]
      rfl
    rw [zero]
    exact ⟨_, entry_onePage 0, by decide⟩
  rintro ⟨pte, here, valid, -⟩
  rw [entry_onePage] at here
  cases here
  exact absurd valid (by decide)

lemma copyout_byte {w : Words} {root : Nat} (src m : Bytes)
    (here : walkaddr w root (pgrounddown va) ≠ 0) : copyout w root va src 1 m =
    (0, memmove m (walkaddr w root (pgrounddown va) + (va - pgrounddown va)) src 1) := by
  have one : piece va 1 = 1 := by
    have pos := piece_pos va Nat.one_ne_zero
    have le := piece_le va 1
    omega
  rw [copyout.eq_def, dif_neg (by decide)]
  dsimp only
  rw [if_neg here, one, copyout.eq_def, dif_pos rfl]

/-- The address space that `exec` builds from a program with one segment of one page, with the
flags of text: readable and executable. -/
def textImage : Option (Option (Nat × Nat) × Vm.Mem) :=
  Vm.execImage ⟨fun _ _ => 0, [11, 12, 13, 14, 15, 16, 17, 18, 19]⟩ 5 6 [.load 0 4096 4096 5 true]
    true

/-- `copyout` writes to the text of a program: the page 0 of the image has no `PTE_W`, and the call
returns 0 with its first byte changed. -/
theorem copyout_writes_text : ∃ root sz k pte, textImage = some (some (root, sz), k) ∧
    entry k.words root 0 = some pte ∧ valid pte = true ∧ pte &&& pteU ≠ 0 ∧ pte &&& pteW = 0 ∧
    (copyout k.words root 0 (fun _ => 7) 1 fun _ => 0).1 = 0 ∧
    ∃ x, paddr k.words root 0 = some x ∧
      (copyout k.words root 0 (fun _ => 7) 1 fun _ => 0).2 x ≠ 0 := by
  have built : (textImage.map fun r => (r.1, entry r.2.words 11 0, walkaddr r.2.words 11 0,
      paddr r.2.words 11 0)) = some (some (11, 12288), some (14 * 1024 + 27), 57344, some 57344) := by
    decide +kernel
  obtain ⟨⟨image, k⟩, run, facts⟩ := map_eq_some_iff.mp built
  simp only [Prod.mk.injEq] at facts
  obtain ⟨rfl, leaf, address, here⟩ := facts
  have start : walkaddr k.words 11 (pgrounddown 0) = 57344 := address
  refine ⟨11, 12288, k, _, run, leaf, by decide, by decide, by decide, ?_, 57344, here, ?_⟩
  · rw [copyout_byte _ _ (by rw [start]; decide)]
  rw [copyout_byte _ _ (by rw [start]; decide), start]
  decide

end Xv6.UserCopy
