import Xv6.VirtioChains

/-! Every step of the threads and of the device keeps the invariant of the disk driver. -/
namespace Xv6.Virtio
open Interleaving RingBuffer List Option Prod View State
open Function (update update_apply update_comm update_eq_self update_idem update_of_ne update_self)
variable {s s' : State} {t u : Tid} {b : Buf} {c : Chain} {r : Nat} {v : Tid → View} {x : View}
  {desc desc' : Nat → Desc} {infoB infoB' : Nat → Option Buf} {as : List Label}

/-! ### Parts of the state that an invariant does not read -/

lemma Rings.frame (h : Rings s) (desc : Nat → Desc) (free : Nat → Bool)
    (infoB : Nat → Option Buf) (status : Nat → UInt8) (disk busy : Buf → Bool) (lock : Option Tid)
    (pc : Tid → Pc) :
    Rings { s with
      desc := desc
      free := free
      infoB := infoB
      status := status
      disk := disk
      busy := busy
      vdiskLock := lock
      pc := pc } :=
  ⟨h.idx, h.lastAvail, h.taken, h.ring, h.usedIdx, h.seenIdx, h.seen, h.usedRing, h.perm, h.heads,
    h.nodup, h.returned⟩

lemma Requests.frame (h : Requests s v) (desc : Nat → Desc) (free : Nat → Bool)
    (infoB : Nat → Option Buf) (busy : Buf → Bool) (lock : Option Tid) (pc : Tid → Pc) :
    Requests { s with
      desc := desc
      free := free
      infoB := infoB
      busy := busy
      vdiskLock := lock
      pc := pc } v := ⟨h.owner, h.waiting, h.stored, h.disk, h.flag, h.status⟩

lemma Core.frame (h : Core s v) (lock : Option Tid) (pc : Tid → Pc) :
    Core { s with vdiskLock := lock, pc := pc } v :=
  ⟨h.owned, h.formats, h.rings.frame _ _ _ _ _ _ _ _, h.requests.frame _ _ _ _ _ _⟩

lemma Formats.update (h : Formats desc infoB v) (new : ∀ b c, x.formatted = some (b, c) →
    Formatted desc infoB b c) : Formats desc infoB (update v t x) := by
  intro u b c has
  by_cases me : u = t
  · rw [me, update_self] at has
    exact new b c has
  rw [update_of_ne me] at has
  exact h u b c has

lemma Requests.quiet (h : Requests s v) (old : (v t).formatted = none)
    (new : x.formatted = none) : Requests s (update v t x) := by
  have other {u : Tid} {y : View} (has : update v t x u = y) (is : y.formatted ≠ none) : v u = y :=
    (of_update has fun eq => is (eq ▸ new)).2
  refine ⟨?_, ?_, ?_, ?_, ?_, h.status⟩
  · intro r q here
    refine h.owner_update (fun b c r waits => ?_) here
    rw [waits] at old
    cases old
  · intro u b c r has
    exact h.waiting u b c r (other has (by simp [formatted]))
  · intro u b c has
    exact h.stored u b c (other has (by simp [formatted]))
  · intro u b c has
    exact h.disk u b c (has.imp (fun has => other has (by simp [formatted]))
      fun has => other has (by simp [formatted]))
  intro u b c r has
  exact h.flag u b c r (other has (by simp [formatted]))

/-! ### The descriptors -/

lemma allocDesc_cases (s : State) :
    (∃ i, i < NUM ∧ s.free i = true ∧
      s.allocDesc = ({ s with free := update s.free i false }, some i)) ∨
    s.allocDesc = (s, none) := by
  rw [allocDesc]
  cases found : (range NUM).find? s.free with
  | none => exact .inr rfl
  | some i => exact .inl ⟨i, mem_range.mp (mem_of_find?_eq_some found), find?_some found, rfl⟩

variable {i j : Nat} {write : Bool} {y : State} {pc : Pc}

lemma freeDesc_ok (lt : i < NUM) (held : s.free i = false) : s.freeDesc i = .ok (s.clear i) := by
  rw [freeDesc, if_neg (by omega), held]
  rfl

lemma freeChain_succ {n : Nat} (lt : i < NUM) (held : s.free i = false) :
    freeChain (n + 1) s i = if (s.desc i).hasNext then freeChain n (s.clear i) (s.desc i).next else
    .ok (s.clear i) := by rw [freeChain, freeDesc_ok lt held]

lemma clear_desc (ne : j ≠ i) : (s.clear i).desc j = s.desc j := update_of_ne ne _ _

lemma clear_free (ne : j ≠ i) : (s.clear i).free j = s.free j := update_of_ne ne _ _

lemma wakeFree_twice (pc : Pc) : wakeFree (wakeFree pc) = wakeFree pc := by cases pc <;> rfl

variable {free : Nat → Bool}

lemma restored (was : free i = true) :
    update (update free i false) i true = free := by rw [update_idem, ← was, update_eq_self]

lemma alloc3Desc_cases (s : State) :
    (∃ (c : Chain) (free' : Nat → Bool), c.list.Nodup ∧ (∀ i ∈ c.list, i < NUM ∧ s.free i = true) ∧
      (∀ i, free' i = if i ∈ c.list then false else s.free i) ∧
      s.alloc3Desc = .ok ({ s with free := free' }, some c)) ∨
    ∃ (desc' : Nat → Desc) (pc' : Tid → Pc), (∀ i, s.free i = false → desc' i = s.desc i) ∧
      (∀ u, pc' u = s.pc u ∨ pc' u = wakeFree (s.pc u)) ∧
      s.alloc3Desc = .ok ({ s with desc := desc', pc := pc' }, none) := by
  rw [alloc3Desc]
  rcases allocDesc_cases s with ⟨i, lt, was, first⟩ | first
  swap
  · rw [first]
    exact .inr ⟨s.desc, s.pc, fun _ _ => rfl, fun _ => .inl rfl, rfl⟩
  rw [first]
  dsimp only
  rcases allocDesc_cases { s with free := update s.free i false } with
    ⟨j, lt', was', second⟩ | second
  swap
  · rw [second]
    dsimp only
    rw [freeDesc_ok lt (update_self i false s.free)]
    refine .inr ⟨update s.desc i ⟨.null, 0, 0, 0⟩, fun u => wakeFree (s.pc u), ?_,
      fun u => .inr rfl, ?_⟩
    · grind
    simp only [Except.map, clear, restored was]
  rw [second]
  dsimp only at was' ⊢
  have ne : j ≠ i := by
    rintro rfl
    rw [update_self] at was'
    cases was'
  rw [update_of_ne ne] at was'
  rcases allocDesc_cases { s with free := update (update s.free i false) j false }
    with ⟨k, lt'', was'', third⟩ | third
  swap
  · rw [third]
    dsimp only
    rw [freeDesc_ok lt (by
      show update (update s.free i false) j false i = false
      rw [update_of_ne (Ne.symm ne), update_self])]
    simp only [Except.bind]
    rw [freeDesc_ok lt' (by
      show update (update (update s.free i false) j false) i true j = false
      rw [update_of_ne ne, update_self])]
    refine .inr ⟨update (update s.desc i ⟨.null, 0, 0, 0⟩) j ⟨.null, 0, 0, 0⟩,
      fun u => wakeFree (s.pc u), ?_, fun u => .inr rfl, ?_⟩
    · grind
    have same : update (update (update (update s.free i false)
        j false) i true) j true = s.free := by grind
    simp only [Except.map, clear, same, wakeFree_twice]
  rw [third]
  dsimp only at was'' ⊢
  have ne_j : k ≠ j := by
    rintro rfl
    rw [update_self] at was''
    cases was''
  rw [update_of_ne ne_j] at was''
  have ne_i : k ≠ i := by
    rintro rfl
    rw [update_self] at was''
    cases was''
  rw [update_of_ne ne_i] at was''
  refine .inl ⟨⟨i, j, k⟩, _, ?_, ?_, ?_, rfl⟩
  · simp only [Chain.list, nodup_cons, mem_cons, not_mem_nil, or_false, not_or,
      nodup_nil, not_false_eq_true, and_true]
    exact ⟨⟨ne.symm, ne_i.symm⟩, ne_j.symm⟩
  · intro m mem
    simp only [Chain.list, mem_cons, not_mem_nil, or_false] at mem
    rcases mem with rfl | rfl | rfl
    · exact ⟨lt, was⟩
    · exact ⟨lt', was'⟩
    exact ⟨lt'', was''⟩
  intro m
  simp only [Chain.list, mem_cons, not_mem_nil, or_false, update_apply]
  by_cases m = k <;> by_cases m = j <;> by_cases m = i <;> simp_all

lemma freeChain_ok (h : Formatted s.desc infoB b c) (nodup : c.list.Nodup) (held : ∀ i ∈ c.list, i
    < NUM ∧ s.free i = false) : ∃ (desc' : Nat → Desc) (free' : Nat → Bool), (∀ i, i ∉ c.list →
    desc' i = s.desc i) ∧ (∀ i, free' i = if i ∈ c.list then true else s.free i) ∧ freeChain
    (NUM + 1) s c.fst = .ok
    { s with desc := desc', free := free', pc := fun u => wakeFree (s.pc u) } := by
  obtain ⟨ne, ne', ne''⟩ := Chain.ne nodup
  obtain ⟨lt, one⟩ := held _ c.fst_mem
  obtain ⟨lt', two⟩ := held _ c.snd_mem
  obtain ⟨lt'', three⟩ := held _ c.trd_mem
  refine ⟨update (update (update s.desc c.fst ⟨.null, 0, 0, 0⟩) c.snd ⟨.null, 0, 0, 0⟩) c.trd
    ⟨.null, 0, 0, 0⟩, update (update (update s.free c.fst true) c.snd true) c.trd true, ?_, ?_, ?_⟩
  · intro i out
    simp only [Chain.list, mem_cons, not_mem_nil, or_false, not_or] at out
    rw [update_of_ne out.2.2, update_of_ne out.2.1, update_of_ne out.1]
  · intro i
    simp only [Chain.list, mem_cons, not_mem_nil, or_false, update_apply]
    by_cases i = c.fst <;> by_cases i = c.snd <;> by_cases i = c.trd <;> simp_all
  have two' : (s.clear c.fst).free c.snd = false := (clear_free ne.symm).trans two
  have three' : ((s.clear c.fst).clear c.snd).free c.trd = false :=
    (clear_free ne''.symm).trans ((clear_free ne'.symm).trans three)
  rw [freeChain_succ lt one, h.fst.1, h.fst.2, if_pos rfl, freeChain_succ lt' two',
    clear_desc ne.symm, h.snd.1, h.snd.2, if_pos rfl, freeChain_succ lt'' three',
    clear_desc ne''.symm, clear_desc ne'.symm, h.trd.1, if_neg (by decide)]
  simp only [clear, wakeFree_twice]

/-! ### One lemma for each step -/

lemma Core.call (h : Core s v) (out : v t = .out) (idle : s.busy b = false) :
    Core { s with busy := update s.busy b true } (update v t (.called b)) :=
  ⟨h.owned.call out idle, h.formats.update (nofun), h.rings.frame _ _ _ _ _ _ _ _, (h.requests.quiet
    (out ▸ rfl) rfl).frame _ _ _ _ _ _⟩

variable {free' : Nat → Bool}

lemma Core.alloc (h : Core s v) (called : v t = .called b) (nodup : c.list.Nodup)
    (were : ∀ i ∈ c.list, i < NUM ∧ s.free i = true) (now : ∀ i, free' i = if i ∈
    c.list then false else s.free i) : Core { s with free := free' } (update v t (.chained b c)) :=
  ⟨h.owned.alloc called nodup were now, h.formats.update (nofun), h.rings.frame _ _ _ _ _ _ _ _,
    (h.requests.quiet (called ▸ rfl) rfl).frame _ _ _ _ _ _⟩

lemma Core.rollback (h : Core s v) (same : ∀ i, s.free i = false → desc' i = s.desc i) :
    Core { s with desc := desc' } v := by
  refine ⟨h.owned, ?_, h.rings.frame _ _ _ _ _ _ _ _, h.requests.frame _ _ _ _ _ _⟩
  intro u d e has
  have chain := (formatted_chain has).2
  exact (h.formats u d e has).congr (fun i mem => same i (h.owned.held u e chain i mem).2) rfl

lemma formatted_format (nodup : c.list.Nodup) :
    Formatted (s.format b write c).desc (s.format b write c).infoB b c := by
  obtain ⟨ne, ne', ne''⟩ := Chain.ne nodup
  have fst : (s.format b write c).desc c.fst = ⟨.op c.fst, 16, VRING_DESC_F_NEXT, c.snd⟩ := by
    dsimp only [State.format]
    rw [update_of_ne ne', update_of_ne ne, update_self]
  have snd : (s.format b write c).desc c.snd = ⟨.data b, BSIZE,
      (if write then 0 else VRING_DESC_F_WRITE) ||| VRING_DESC_F_NEXT, c.trd⟩ := by
    dsimp only [State.format]
    rw [update_of_ne ne'', update_self]
  have trd : (s.format b write c).desc c.trd = ⟨.status c.fst, 1, VRING_DESC_F_WRITE, 0⟩ :=
    update_self _ _ _
  refine ⟨?_, ?_, ?_, update_self _ _ _⟩
  · rw [fst]
    exact ⟨by simp [Desc.hasNext, VRING_DESC_F_NEXT], rfl⟩
  · rw [snd]
    cases write <;> exact ⟨by simp [Desc.hasNext, VRING_DESC_F_NEXT, VRING_DESC_F_WRITE], rfl⟩
  rw [trd]
  exact ⟨by simp [Desc.hasNext, VRING_DESC_F_NEXT, VRING_DESC_F_WRITE], rfl⟩

lemma Owned.ne_of_mem {busy : Buf → Bool} {d : Chain} (h : Owned busy free v)
    (mine : (v t).chain = some c) (other : (v u).chain = some d) (ne : u ≠ t) (mem : i ∈ d.list)
    (mem' : j ∈ c.list) : i ≠ j := by
  rintro rfl
  exact ne (h.apart u t d c i other mine mem mem')

lemma Core.format (h : Core s v) (chained : v t = .chained b c) :
    Core (s.format b write c) (update v t (.ready b c)) := by
  have chain : (v t).chain = some c := chained ▸ rfl
  have buf : (v t).buf = some b := chained ▸ rfl
  have nodup := h.owned.nodup t c chain
  have otherBuf {u : Tid} {d : Buf} (ne : u ≠ t) (has : (v u).buf = some d) : d ≠ b := by
    rintro rfl
    exact ne (h.owned.bufs u t d has buf)
  refine ⟨h.owned.same (chained ▸ rfl) (chained ▸ rfl), ?_,
    h.rings.frame _ _ _ _ _ _ _ _, ?_⟩
  · intro u d e has
    by_cases me : u = t
    · rw [me, update_self] at has
      cases has
      exact formatted_format nodup
    rw [update_of_ne me] at has
    have apart {i j : Nat} (mem : i ∈ e.list) (mem' : j ∈ c.list) : i ≠ j :=
      h.owned.ne_of_mem chain (formatted_chain has).2 me mem mem'
    refine (h.formats u d e has).congr (fun i mem => ?_) ?_
    · simp only [State.format, update_of_ne (apart mem c.fst_mem),
        update_of_ne (apart mem c.snd_mem), update_of_ne (apart mem c.trd_mem)]
    exact update_of_ne (apart e.fst_mem c.fst_mem) _ _
  refine ⟨?_, ?_, ?_, ?_, ?_, ?_⟩
  · intro r q here
    exact h.requests.owner_update (by simp [chained]) here
  · intro u d e r has
    exact h.requests.waiting u d e r (of_update has (by simp)).2
  · intro u d e has
    exact h.requests.stored u d e (of_update has (by simp)).2
  · intro u d e has
    show update s.disk b true d = true
    by_cases eq : d = b
    · rw [eq, update_self]
    rw [update_of_ne eq]
    have ne : ready d e ≠ .ready b c := fun same => eq (ready.inj same).1
    exact h.requests.disk u d e
      (has.imp (fun has => (of_update has ne).2) fun has => (of_update has (by simp)).2)
  · intro u d e r has
    obtain ⟨ne, has⟩ := of_update has (by simp)
    have eq : update s.disk b true d = s.disk d := update_of_ne (otherBuf ne (has ▸ rfl)) _ _
    show update s.disk b true d = true ↔ _
    rw [eq]
    exact h.requests.flag u d e r has
  intro r done open_
  have lt := (h.rings.completed_lt done).trans_le h.rings.taken
  obtain ⟨u, d, e, waits, head⟩ := h.caller lt open_
  have ne : u ≠ t := by
    rintro rfl
    rw [chained] at waits
    cases waits
  have apart : s.head r ≠ c.fst := by
    rw [head]
    exact h.owned.ne_of_mem chain (waits ▸ rfl) ne e.fst_mem c.fst_mem
  exact (update_of_ne apart _ _).trans (h.requests.status r done open_)

lemma Rings.slot (h : Rings s) : s.idx.toNat % NUM = s.published.length % NUM := by
  rw [h.idx, counter_mod (by decide)]

lemma Core.publish (h : Core s v) (ready : v t = .ready b c)
    (alone : ∀ u d e, v u ≠ .stored d e) : Core (s.publish c) (update v t (.stored b c)) := by
  have slot := h.rings.slot
  have room := h.room ready
  refine ⟨h.owned.same (ready ▸ rfl) (ready ▸ rfl),
    h.formats.update (fun d e has => h.formats t d e (ready ▸ has)), ?_, ?_⟩
  · have items : (s.published.map fun q => q.idx.fst).length = s.published.length := length_map _
    have pushed := (h.rings.ring.push (items ▸ room) c.fst).take s.published.length
    rw [items, take_append_of_le_length (by rw [items]), take_of_length_le (by rw [items]),
      ← slot] at pushed
    exact ⟨h.rings.idx, h.rings.lastAvail, h.rings.taken, pushed, h.rings.usedIdx, h.rings.seenIdx,
      h.rings.seen, h.rings.usedRing, h.rings.perm, h.rings.heads, h.rings.nodup, h.rings.returned⟩
  refine ⟨?_, ?_, ?_, ?_, ?_, h.requests.status⟩
  · intro r q here
    exact h.requests.owner_update (by simp [ready]) here
  · intro u d e r has
    exact h.requests.waiting u d e r (of_update has (by simp)).2
  · intro u d e has
    by_cases same : stored d e = .stored b c
    · cases same
      show update s.ring (s.idx.toNat % NUM) c.fst (s.published.length % NUM) = c.fst
      rw [slot, update_self]
    exact absurd (of_update has same).2 (alone u d e)
  · intro u d e has
    by_cases same : stored d e = .stored b c
    · cases same
      exact h.requests.disk t b c (.inl ready)
    exact h.requests.disk u d e
      (has.imp (fun has => (of_update has (by simp)).2) fun has => (of_update has same).2)
  intro u d e r has
  exact h.requests.flag u d e r (of_update has (by simp)).2

lemma head_bump (lt : r < s.published.length) : (s.bump t b c).head r = s.head r := by
  show ((s.published ++ [Req.mk t b c])[r]?.map fun q => q.idx.fst).getD 0 = _
  rw [getElem?_append_left lt]
  rfl

lemma Core.bump (h : Core s v) (stored : v t = .stored b c) (alone : ∀ u d e, v u = .stored d e →
    u = t) : Core (s.bump t b c) (update v t (.waiting b c s.published.length)) := by
  have below {r : Nat} (done : r ∈ s.completed) : r < s.published.length :=
    (h.rings.completed_lt done).trans_le h.rings.taken
  have fresh : s.published.length ∉ s.returned := fun done =>
    Nat.lt_irrefl _ (below (h.rings.returned_completed done))
  refine ⟨h.owned.same (stored ▸ rfl) (stored ▸ rfl),
    h.formats.update (fun d e has => h.formats t d e (stored ▸ has)), ?_, ?_⟩
  · have pushed : Holds NUM s.ring ((s.published ++ [Req.mk t b c]).map fun q => q.idx.fst)
        s.taken := by
      rw [map_append]
      exact h.rings.ring.snoc (by rw [length_map]; exact h.requests.stored t b c stored)
    have heads : s.completed.map (s.bump t b c).head = s.completed.map s.head :=
      map_congr_left fun r done => head_bump (below done)
    refine ⟨?_, h.rings.lastAvail, ?_, pushed, h.rings.usedIdx, h.rings.seenIdx, h.rings.seen, ?_,
      h.rings.perm, ?_, h.rings.nodup, h.rings.returned⟩
    · show s.idx + 1 = BitVec.ofNat 16 (s.published ++ [_]).length
      rw [h.rings.idx, counter_succ, length_append]
      rfl
    · show s.taken ≤ (s.published ++ [_]).length
      rw [length_append]
      exact h.rings.taken.trans (Nat.le_add_right _ _)
    · show Holds NUM s.usedRing (s.completed.map (s.bump t b c).head) s.seen
      rw [heads]
      exact h.rings.usedRing
    intro p mem
    rw [head_bump ((h.rings.device_lt mem).trans_le h.rings.taken)]
    exact h.rings.heads p mem
  refine ⟨?_, ?_, ?_, ?_, ?_, ?_⟩
  · intro r q here
    change (s.published ++ [Req.mk t b c])[r]? = some q at here
    rcases Nat.lt_trichotomy r s.published.length with before | rfl | after
    · rw [getElem?_append_left before] at here
      exact h.requests.owner_update (by simp [stored]) here
    · grind
    rw [getElem?_eq_none (length_append ▸ after)] at here
    cases here
  · intro u d e r has
    show (s.published ++ [Req.mk t b c])[r]? = _ ∧ r ∉ s.returned
    by_cases me : u = t
    · grind
    rw [update_of_ne me] at has
    obtain ⟨here, open_⟩ := h.requests.waiting u d e r has
    refine ⟨?_, open_⟩
    rw [List.getElem?_append_left (List.getElem?_eq_some_iff.mp here).1]
    exact here
  · grind
  · intro u d e has
    exact h.requests.disk u d e
      (has.imp (fun has => (of_update has (by simp)).2) fun has => (of_update has (by simp)).2)
  · intro u d e r has
    by_cases me : u = t
    · rw [me, update_self] at has
      cases has
      exact iff_of_true (h.requests.disk t b c (.inr stored))
        fun done => Nat.lt_irrefl _ (below (mem_of_mem_take done))
    rw [update_of_ne me] at has
    exact h.requests.flag u d e r has
  intro r done open_
  rw [head_bump (below done)]
  exact h.requests.status r done open_

lemma Core.finish (h : Core s v) (waits : v t = .waiting b c r)
    (done : s.disk b = false) (same : ∀ i, i ∉ c.list → desc' i = s.desc i)
    (now : ∀ i, free' i = if i ∈ c.list then true else s.free i) :
    Core { s with
      desc := desc'
      free := free'
      infoB := update s.infoB c.fst none
      busy := update s.busy b false
      returned := s.returned ++ [r] } (update v t .out) := by
  have chain : (v t).chain = some c := waits ▸ rfl
  have seen : r ∈ s.completed.take s.seen := by
    by_contra unseen
    have := (h.requests.flag t b c r waits).mpr unseen
    rw [done] at this
    cases this
  have open_ := (h.requests.waiting t b c r waits).2
  refine ⟨h.owned.drop (waits ▸ rfl) chain now, ?_, ?_, ?_⟩
  · intro u d e has
    by_cases me : u = t
    · rw [me, update_self] at has
      cases has
    rw [update_of_ne me] at has
    have apart {i j : Nat} (mem : i ∈ e.list) (mem' : j ∈ c.list) : i ≠ j :=
      h.owned.ne_of_mem chain (formatted_chain has).2 me mem mem'
    exact (h.formats u d e has).congr (fun i mem => same i fun mine => apart mem mine rfl)
      (update_of_ne (apart e.fst_mem c.fst_mem) _ _)
  · refine ⟨h.rings.idx, h.rings.lastAvail, h.rings.taken, h.rings.ring, h.rings.usedIdx,
      h.rings.seenIdx, h.rings.seen, h.rings.usedRing, h.rings.perm, h.rings.heads, ?_, ?_⟩
    · exact nodup_append.mpr ⟨h.rings.nodup, nodup_singleton r, fun i mem j mem' eq =>
      open_ (mem_singleton.mp mem' ▸ eq ▸ mem)⟩
    intro q mem
    rcases mem_append.mp mem with old | new
    · exact h.rings.returned q old
    exact mem_singleton.mp new ▸ seen
  refine ⟨?_, ?_, ?_, ?_, ?_, ?_⟩
  · intro q req here
    rcases h.requests.owner q req here with old | waits'
    · exact .inl (mem_append_left _ old)
    by_cases me : req.thread = t
    · grind
    exact .inr (by rw [update_of_ne me]; exact waits')
  · intro u d e q has
    obtain ⟨ne, has⟩ := of_update has (by simp)
    obtain ⟨here, opened⟩ := h.requests.waiting u d e q has
    refine ⟨here, fun mem => ?_⟩
    rcases mem_append.mp mem with old | new
    · exact opened old
    rw [mem_singleton.mp new, (h.requests.waiting t b c r waits).1] at here
    cases here
    exact ne rfl
  · intro u d e has
    exact h.requests.stored u d e (of_update has (by simp)).2
  · intro u d e has
    exact h.requests.disk u d e
      (has.imp (fun has => (of_update has (by simp)).2) fun has => (of_update has (by simp)).2)
  · intro u d e q has
    exact h.requests.flag u d e q (of_update has (by simp)).2
  intro q mem opened
  exact h.requests.status q mem fun old => opened (mem_append_left _ old)

lemma Core.nextUsed (h : Core s v) (more : s.seen < s.completed.length) :
    ∃ t b c r, v t = .waiting b c r ∧ s.completed[s.seen]? = some r ∧ r ∉ s.returned ∧
    s.usedRing (s.seenIdx.toNat % NUM) = c.fst ∧ s.status c.fst = 0 ∧ s.infoB c.fst = some b := by
  have here := getElem?_eq_getElem more
  have mem := mem_of_getElem? here
  have open_ : s.completed[s.seen] ∉ s.returned := by
    intro old
    obtain ⟨j, lt, eq⟩ := mem_iff_getElem.mp (h.rings.returned _ old)
    rw [length_take] at lt
    rw [getElem_take] at eq
    have := (List.Nodup.getElem_inj_iff h.rings.completed_nodup).mp eq
    omega
  obtain ⟨t, b, c, waits, head⟩ := h.caller ((h.rings.completed_lt mem).trans_le h.rings.taken) open_
  refine ⟨t, b, c, _, waits, here, open_, ?_, ?_, (h.formats t b c (waits ▸ rfl)).info⟩
  · rw [h.rings.seenIdx, counter_mod (by decide), ← head]
    exact h.rings.usedRing.get (by rw [getElem?_map, here]; rfl)
  rw [← head]
  exact h.requests.status _ mem open_

lemma Core.seen (h : Core s v) (waits : v t = .waiting b c r)
    (here : s.completed[s.seen]? = some r) :
    Core { s with
      disk := update s.disk b false
      seenIdx := s.seenIdx + 1
      seen := s.seen + 1 } v := by
  have more := (List.getElem?_eq_some_iff.mp here).1
  have take : s.completed.take (s.seen + 1) = s.completed.take s.seen ++ [r] := by
    rw [take_add_one, here]
    rfl
  have grows {q : Nat} (mem : q ∈ s.completed.take s.seen) : q ∈ s.completed.take (s.seen + 1) := by
    rw [take]
    exact mem_append_left _ mem
  have otherBuf {u : Tid} {d : Buf} (ne : u ≠ t) (has : (v u).buf = some d) :
      update s.disk b false d = s.disk d := by
    refine update_of_ne ?_ _ _
    rintro rfl
    exact ne (h.owned.bufs u t d has (waits ▸ rfl))
  refine ⟨h.owned, h.formats, ?_, ?_⟩
  · refine ⟨h.rings.idx, h.rings.lastAvail, h.rings.taken, h.rings.ring, h.rings.usedIdx, ?_, more,
      h.rings.usedRing.mono (Nat.le_succ _), h.rings.perm, h.rings.heads, h.rings.nodup,
      fun q mem => grows (h.rings.returned q mem)⟩
    show s.seenIdx + 1 = _
    rw [h.rings.seenIdx, counter_succ]
  refine ⟨h.requests.owner, h.requests.waiting, h.requests.stored, ?_, ?_, h.requests.status⟩
  · intro u d e has
    have ne : u ≠ t := by
      rintro rfl
      rw [waits] at has
      rcases has with has | has <;> cases has
    have buf : (v u).buf = some d := by rcases has with has | has <;> rw [has] <;> rfl
    exact (otherBuf ne buf).trans (h.requests.disk u d e has)
  intro u d e q has
  show update s.disk b false d = true ↔ q ∉ s.completed.take (s.seen + 1)
  by_cases me : u = t
  · rw [me, waits] at has
    cases has
    rw [update_self, take]
    simp
  have ne : q ≠ r := by
    rintro rfl
    have := (h.requests.waiting u d e q has).1
    rw [(h.requests.waiting t b c q waits).1] at this
    cases this
    exact me rfl
  rw [otherBuf me (has ▸ rfl), take, mem_append, mem_singleton, or_iff_left ne]
  exact h.requests.flag u d e q has

lemma Core.take (h : Core s v) (more : s.lastAvail ≠ s.idx) : Core s.take v := by
  have lt : s.taken < s.published.length := by
    refine Nat.lt_of_le_of_ne h.rings.taken fun eq => more ?_
    rw [h.rings.lastAvail, h.rings.idx, eq]
  have here := getElem?_eq_getElem lt
  have head : s.ring (s.lastAvail.toNat % NUM) = s.head s.taken := by
    rw [h.rings.lastAvail, counter_mod (by decide), head_eq here]
    exact h.rings.ring.get (by rw [getElem?_map, here]; rfl)
  refine ⟨h.owned, h.formats, ?_, ⟨h.requests.owner, h.requests.waiting, h.requests.stored,
    h.requests.disk, h.requests.flag, h.requests.status⟩⟩
  refine ⟨h.rings.idx, ?_, lt, h.rings.ring.mono (Nat.le_succ _), h.rings.usedIdx, h.rings.seenIdx,
    h.rings.seen, h.rings.usedRing, ?_, ?_, h.rings.nodup, h.rings.returned⟩
  · show s.lastAvail + 1 = _
    rw [h.rings.lastAvail, counter_succ]
    rfl
  · show ((s.device ++ [_]).map fst ++ s.completed).Perm (range (s.taken + 1))
    rw [map_append, append_assoc, range_succ]
    exact ((perm_append_comm_assoc _ _ _).trans perm_append_comm).trans
      (h.rings.perm.append_right _)
  intro p mem
  rcases mem_append.mp mem with old | new
  · exact h.rings.heads p old
  rw [mem_singleton.mp new]
  exact head.symm

lemma Core.complete {p : Nat × Nat} (h : Core s v) (here : s.device[j]? = some p) :
    Core (s.complete j p.1 p.2) v := by
  have mem := mem_of_getElem? here
  have open_ : p.1 ∉ s.returned := fun done =>
    h.rings.device_not_completed mem (h.rings.returned_completed done)
  obtain ⟨t, b, c, waits, head⟩ := h.caller ((h.rings.device_lt mem).trans_le h.rings.taken) open_
  rw [h.rings.heads p mem] at head
  have formatted := h.formats t b c (waits ▸ rfl)
  have status : s.writeStatus p.2 = update s.status p.2 0 := by
    rw [writeStatus, head, formatted.walk]
    simp only [Chain.list, getLast?_cons_cons, getLast?_singleton, map_some,
      formatted.trd.2]
  have taken : (s.completed ++ [p.1]).take s.seen = s.completed.take s.seen :=
    take_append_of_le_length h.rings.seen
  refine ⟨h.owned, h.formats, ?_, ?_⟩
  · refine ⟨h.rings.idx, h.rings.lastAvail, h.rings.taken, h.rings.ring, ?_, h.rings.seenIdx, ?_,
      ?_, ?_, ?_, h.rings.nodup, ?_⟩
    · show s.usedIdx + 1 = BitVec.ofNat 16 (s.completed ++ [p.1]).length
      rw [h.rings.usedIdx, counter_succ, length_append]
      rfl
    · show s.seen ≤ (s.completed ++ [p.1]).length
      rw [length_append]
      exact h.rings.seen.trans (Nat.le_add_right _ _)
    · show Holds NUM (update s.usedRing (s.usedIdx.toNat % NUM) p.2)
        ((s.completed ++ [p.1]).map s.head) s.seen
      have pushed := h.rings.usedRing.push (by rw [length_map]; exact h.usedRoom mem) p.2
      rw [length_map] at pushed
      rw [h.rings.usedIdx, counter_mod (by decide), map_append, map_singleton, h.rings.heads p mem]
      exact pushed
    · show ((s.device.eraseIdx j).map fst ++ (s.completed ++ [p.1])).Perm _
      obtain ⟨lt, eq⟩ := List.getElem?_eq_some_iff.mp here
      have erased : (p :: s.device.eraseIdx j).Perm s.device := eq ▸ getElem_cons_eraseIdx_perm lt
      have moved : ((s.device.eraseIdx j).map fst ++ (s.completed ++ [p.1])).Perm
          ((p :: s.device.eraseIdx j).map fst ++ s.completed) := by
        rw [← append_assoc]
        exact perm_append_comm
      exact (moved.trans ((erased.map _).append_right _)).trans h.rings.perm
    · intro q old
      exact h.rings.heads q (mem_of_mem_eraseIdx old)
    intro q done
    show q ∈ (s.completed ++ [p.1]).take s.seen
    rw [taken]
    exact h.rings.returned q done
  refine ⟨h.requests.owner, h.requests.waiting, h.requests.stored, h.requests.disk, ?_, ?_⟩
  · intro u d e q has
    show s.disk d = true ↔ q ∉ (s.completed ++ [p.1]).take s.seen
    rw [taken]
    exact h.requests.flag u d e q has
  intro q done opened
  show s.writeStatus p.2 (s.head q) = 0
  rw [status]
  by_cases eq : s.head q = p.2
  · rw [eq, update_self]
  rw [update_of_ne eq]
  rcases mem_append.mp done with old | new
  · exact h.requests.status q old opened
  rw [mem_singleton.mp new] at eq
  exact absurd (h.rings.heads p mem) eq

/-! ### The invariant -/

structure Inv (s : State) : Prop where
  lock : ∀ t, (s.pc t).locked = true ↔ s.vdiskLock = some t
  core : Core s s.view
  panic : s.panic = none

lemma view_goto (s : State) (t : Tid) (pc : Pc) :
    (s.goto t pc).view = update s.view t pc.view := by
  funext u
  by_cases me : u = t
  · rw [me, update_self]
    exact congrArg Pc.view (update_self _ _ _)
  rw [update_of_ne me]
  exact congrArg Pc.view (update_of_ne me _ _)

lemma wakeFree_view (pc : Pc) : (wakeFree pc).view = pc.view := by cases pc <;> rfl

lemma wakeFree_locked (pc : Pc) : (wakeFree pc).locked = pc.locked := by cases pc <;> rfl

lemma wakeBuf_view (b : Buf) (pc : Pc) : (wakeBuf b pc).view = pc.view := by
  cases pc with
  | waitSleep b' idx r =>
    rw [wakeBuf]
    split_ifs <;> rfl
  | _ => rfl

lemma wakeBuf_locked (b : Buf) (pc : Pc) : (wakeBuf b pc).locked = pc.locked := by
  cases pc with
  | waitSleep b' idx r =>
    rw [wakeBuf]
    split_ifs <;> rfl
  | _ => rfl

/-- The threads of `y` are where those of `s` are, but for some that were woken. -/
def Woken (s y : State) : Prop :=
  ∀ u, (y.pc u).view = (s.pc u).view ∧ (y.pc u).locked = (s.pc u).locked

lemma Woken.view_goto (h : Woken s y) (t : Tid) (pc : Pc) :
    (y.goto t pc).view = update s.view t pc.view := by
  rw [Virtio.view_goto]
  exact congrArg (fun v => update v t pc.view) (funext fun u => (h u).1)

lemma goto_pc (s : State) (t : Tid) (pc : Pc) : (s.goto t pc).pc t = pc := update_self _ _ _

lemma goto_pc_of_ne (s : State) (pc : Pc) (ne : u ≠ t) : (s.goto t pc).pc u = s.pc u :=
  update_of_ne ne _ _

lemma Inv.moves (h : Inv s) (woken : Woken s y) (lock : y.vdiskLock = s.vdiskLock)
    (panic : y.panic = none) (core : Core y (update s.view t pc.view))
    (same : pc.locked = (s.pc t).locked) : Inv (y.goto t pc) := by
  refine ⟨fun u => ?_, ?_, panic⟩
  · show _ ↔ y.vdiskLock = some u
    rw [lock]
    by_cases me : u = t
    · rw [me, goto_pc, same]
      exact h.lock t
    rw [goto_pc_of_ne y pc me, (woken u).2]
    exact h.lock u
  rw [woken.view_goto]
  exact core.frame _ _

lemma Inv.acquires (h : Inv s) (next : s.acquire t pc = some s') (view : pc.view = (s.pc t).view)
    (locked : pc.locked = true) : Inv s' := by
  obtain ⟨free, rfl⟩ := guarded.mp next
  refine ⟨fun u => ?_, ?_, h.panic⟩
  · show _ ↔ some t = some u
    by_cases me : u = t
    · rw [me, goto_pc, locked]
      exact iff_of_true rfl rfl
    rw [goto_pc_of_ne _ pc me]
    have unlocked : ¬ (s.pc u).locked = true := by
      rw [h.lock u, free]
      simp
    exact iff_of_false unlocked fun eq => me (some.inj eq).symm
  rw [view_goto, view]
  exact (update_eq_self t s.view).symm ▸ h.core.frame _ _

lemma Inv.releases (h : Inv s) (mine : (s.pc t).locked = true) (woken : Woken s y)
    (panic : y.panic = none) (core : Core y (update s.view t pc.view))
    (unlocked : pc.locked = false) : Inv (y.release t pc) := by
  refine ⟨fun u => ?_, ?_, panic⟩
  · show ((y.goto t pc).pc u).locked = true ↔ none = some u
    refine iff_of_false ?_ (by simp)
    by_cases me : u = t
    · rw [me, goto_pc, unlocked]
      simp
    rw [goto_pc_of_ne y pc me, (woken u).2, h.lock u, (h.lock t).mp mine]
    exact fun eq => me (some.inj eq).symm
  have := core.frame none (y.goto t pc).pc
  show Core _ (y.goto t pc).view
  rw [woken.view_goto]
  exact this

lemma Inv.locked_unique (h : Inv s) (mine : (s.pc t).locked = true)
    (other : (s.pc u).locked = true) : u = t :=
  some.inj (((h.lock u).mp other).symm.trans ((h.lock t).mp mine))

lemma Pc.locked_of_stored {b : Buf} {c : Chain} (h : pc.view = .stored b c) :
    pc.locked = true := by cases pc <;> first | rfl | cases h

lemma Inv.finish (h : Inv s) (pc : s.pc t = .wait b c r) (done : s.disk b = false) :
    Inv (s.finish t b c r) := by
  have waits : s.view t = .waiting b c r := by rw [view, pc]; rfl
  have chain : (s.view t).chain = some c := waits ▸ rfl
  have formatted := h.core.formats t b c (waits ▸ rfl)
  obtain ⟨desc', free', same, now, freed⟩ := freeChain_ok (s :=
    { s with infoB := update s.infoB c.fst none }) formatted (h.core.owned.nodup t c chain)
    (h.core.owned.held t c chain)
  rw [State.finish, freed]
  have core := h.core.finish waits done same now
  exact h.releases (pc ▸ rfl) (fun u => ⟨wakeFree_view _, wakeFree_locked _⟩) h.panic
    (core.frame _ _) rfl

lemma Inv.handle (h : Inv s) (more : s.seenIdx ≠ s.usedIdx) : Inv s.handle := by
  have lt : s.seen < s.completed.length := by
    refine Nat.lt_of_le_of_ne h.core.rings.seen fun eq => more ?_
    rw [h.core.rings.seenIdx, h.core.rings.usedIdx, eq]
  obtain ⟨t, b, c, r, waits, here, -, id, status, info⟩ := h.core.nextUsed lt
  rw [State.handle, id, if_neg (not_not.mpr status), info]
  have core := h.core.seen waits here
  refine ⟨fun u => ?_, ?_, h.panic⟩
  · show (wakeBuf b (s.pc u)).locked = true ↔ _
    rw [wakeBuf_locked]
    exact h.lock u
  have view : (fun u => (wakeBuf b (s.pc u)).view) = s.view := funext fun u => wakeBuf_view b _
  show Core _ (fun u => (wakeBuf b (s.pc u)).view)
  rw [view]
  exact core.frame _ _

lemma Inv.alloc (h : Inv s) (pc : s.pc t = .alloc b write) (next : s.go t = some s') :
    Inv s' := by
  have called : s.view t = .called b := by rw [view, pc]; rfl
  rw [go, pc] at next
  dsimp only at next
  rcases alloc3Desc_cases s with ⟨c, free', nodup, were, now, eq⟩ | ⟨desc', pc', same, woken, eq⟩
  · rw [eq] at next
    cases next
    exact h.moves (fun u => ⟨rfl, rfl⟩) rfl h.panic (h.core.alloc called nodup were now)
      (pc ▸ rfl)
  rw [eq] at next
  cases next
  refine h.releases (pc ▸ rfl) (fun u => ?_) h.panic ?_ rfl
  · rcases woken u with eq | eq
    · exact ⟨congrArg Pc.view eq, congrArg Pc.locked eq⟩
    exact ⟨(congrArg Pc.view eq).trans (wakeFree_view _),
      (congrArg Pc.locked eq).trans (wakeFree_locked _)⟩
  have stays : update s.view t (Pc.allocSleep b write).view = s.view := by
    rw [← show s.view t = (Pc.allocSleep b write).view from called, update_eq_self]
  rw [stays]
  exact (h.core.rollback same).frame _ _

lemma Inv.go (h : Inv s) (next : s.go t = some s') : Inv s' := by
  have whole := next
  rw [State.go] at next
  cases pc : s.pc t with
  | idle => rw [pc] at next; cases next
  | allocSleep b write => rw [pc] at next; cases next
  | waitSleep b c r => rw [pc] at next; cases next
  | lock b write =>
    rw [pc] at next
    exact h.acquires next (pc ▸ rfl) rfl
  | alloc b write => exact h.alloc pc whole
  | format b write c =>
    rw [pc] at next
    cases next
    exact h.moves (fun u => ⟨rfl, rfl⟩) rfl h.panic (h.core.format (by rw [view, pc]; rfl))
      (pc ▸ rfl)
  | publish b c =>
    rw [pc] at next
    cases next
    have mine : (s.pc t).locked = true := pc ▸ rfl
    have ready : s.view t = .ready b c := by rw [view, pc]; rfl
    have alone : ∀ u d e, s.view u ≠ .stored d e := by
      intro u d e has
      have := h.locked_unique mine (Pc.locked_of_stored has)
      subst this
      cases ready.symm.trans has
    exact h.moves (fun u => ⟨rfl, rfl⟩) rfl h.panic (h.core.publish ready alone) (pc ▸ rfl)
  | bump b c =>
    rw [pc] at next
    cases next
    have mine : (s.pc t).locked = true := pc ▸ rfl
    exact h.moves (fun u => ⟨rfl, rfl⟩) rfl h.panic (h.core.bump (by rw [view, pc]; rfl)
      fun u d e has => h.locked_unique mine (Pc.locked_of_stored has)) (pc ▸ rfl)
  | wait b c r =>
    rw [pc] at next
    dsimp only at next
    split_ifs at next with flag
    · cases next
      refine h.releases (pc ▸ rfl) (fun u => ⟨rfl, rfl⟩) h.panic ?_ rfl
      have waits : s.view t = (Pc.waitSleep b c r).view := by rw [view, pc]; rfl
      rw [← waits, update_eq_self]
      exact h.core
    cases next
    exact h.finish pc (Bool.not_eq_true _ ▸ flag)
  | waitLock b c r =>
    rw [pc] at next
    exact h.acquires next (pc ▸ rfl) rfl
  | intrLock =>
    rw [pc] at next
    exact h.acquires next (pc ▸ rfl) rfl
  | intr =>
    rw [pc] at next
    dsimp only at next
    split_ifs at next with more
    · cases next
      exact h.handle more
    cases next
    refine h.releases (pc ▸ rfl) (fun u => ⟨rfl, rfl⟩) h.panic ?_ rfl
    have out : s.view t = Pc.idle.view := by rw [view, pc]; rfl
    rw [← out, update_eq_self]
    exact h.core

lemma Inv.step {l : Label} (h : Inv s) (next : step s l = some s') : Inv s' := by
  unfold Virtio.step at next
  rw [if_neg (not_not.mpr h.panic)] at next
  cases l with
  | rw t b write =>
    obtain ⟨⟨pc, idle⟩, rfl⟩ := guarded.mp next
    exact h.moves (fun u => ⟨rfl, rfl⟩) rfl h.panic
      (h.core.call (by rw [view, pc]; rfl) idle) (pc ▸ rfl)
  | interrupt t =>
    obtain ⟨pc, rfl⟩ := guarded.mp next
    refine h.moves (fun u => ⟨rfl, rfl⟩) rfl h.panic ?_ (pc ▸ rfl)
    have out : s.view t = Pc.intrLock.view := by rw [view, pc]; rfl
    rw [← out, update_eq_self]
    exact h.core
  | go t => exact h.go next
  | take =>
    obtain ⟨more, rfl⟩ := guarded.mp next
    exact ⟨h.lock, h.core.take more, h.panic⟩
  | complete j =>
    obtain ⟨p, here, eq⟩ := map_eq_some_iff.mp next
    cases eq
    exact ⟨h.lock, h.core.complete here, h.panic⟩

lemma inv_init : Inv init := by
  have out : init.view = fun _ => .out := rfl
  refine ⟨fun t => iff_of_false (by simp [init, Pc.locked]) (by simp [init]), ⟨?_, ?_, ?_, ?_⟩, rfl⟩
  · refine ⟨?_, ?_, ?_, ?_, ?_, ?_⟩
    · intro t b has; cases has
    · intro t u b has; cases has
    · intro t c has; cases has
    · intro t c has; cases has
    · intro t u c d i has; cases has
    intro i lt held
    simp [init] at held
    omega
  · intro t b c has; cases has
  · exact ⟨rfl, rfl, le_rfl, .nil _ _, rfl, rfl, le_rfl, .nil _ _, .refl _, fun p mem => absurd mem
      not_mem_nil, nodup_nil, fun r mem => absurd mem not_mem_nil⟩
  refine ⟨?_, ?_, ?_, ?_, ?_, ?_⟩
  · intro r q here; cases here
  · intro t b c r has; cases has
  · intro t b c has; cases has
  · intro t b c has; rcases has with has | has <;> cases has
  · intro t b c r has; cases has
  intro r done; cases done

/-- In every run: the chains of the requests in flight have three descriptors each and none in
common with another chain or with the free ones, the device finds exactly these from the head on,
no entry of the avail ring is lost before the device takes it, a caller returns once and after the
device completed its request, all descriptors are free and all callers have returned when no request
is in flight, and nothing panics. -/
theorem virtio_requests_are_safe (run : Run step Free init as s) :
    (∀ t c, (s.view t).chain = some c → c.list.Nodup ∧
      (∀ i ∈ c.list, i < NUM ∧ s.free i = false) ∧
      ∀ u d, u ≠ t → (s.view u).chain = some d → List.Disjoint c.list d.list) ∧
    (∀ t b c, (s.view t).formatted = some (b, c) → walk NUM s.desc c.fst = c.list) ∧
    (∀ k q, s.taken ≤ k → s.published[k]? = some q → s.ring (k % NUM) = q.idx.fst) ∧
    s.completed.Nodup ∧ s.returned.Nodup ∧ (∀ r ∈ s.returned, r ∈ s.completed) ∧
    ((∀ t, (s.view t).chain = none) →
      (∀ i, i < NUM → s.free i = true) ∧ ∀ r, r < s.published.length → r ∈ s.returned) ∧
    s.panic = none := by
  have h : Inv s := run.invariant (I := Inv) (fun _ _ _ h _ next => h.step next) inv_init
  refine ⟨?_, ?_, ?_, h.core.rings.completed_nodup, h.core.rings.nodup,
    fun r done => h.core.rings.returned_completed done, ?_, h.panic⟩
  · intro t c has
    refine ⟨h.core.owned.nodup t c has, h.core.owned.held t c has, ?_⟩
    intro u d ne has' i mem mem'
    exact ne (h.core.owned.apart u t d c i has' has mem' mem)
  · intro t b c has
    exact (h.core.formats t b c has).walk
  · intro k q untaken here
    exact h.core.rings.ring k _ untaken (by rw [List.getElem?_map, here]; rfl)
  intro none
  refine ⟨fun i lt => ?_, fun r lt => ?_⟩
  · by_contra held
    obtain ⟨t, c, has, -⟩ := h.core.owned.used i lt (Bool.not_eq_true _ ▸ held)
    rw [none t] at has
    cases has
  by_contra open_
  obtain ⟨t, b, c, waits, -⟩ := h.core.caller lt open_
  have := none t
  rw [waits] at this
  cases this

/-- Two requests, the second of which the device completes first, and a third caller that finds too
few descriptors. -/
def twoOfThree : List Label :=
  [.rw 0 10 false] ++ List.replicate 6 (.go 0) ++ [.rw 1 11 true] ++ List.replicate 6 (.go 1) ++
    [.rw 2 12 false, .go 2, .go 2, .take, .take, .complete 1, .complete 0, .interrupt 3] ++
    List.replicate 4 (.go 3) ++ [.go 1, .go 1, .go 0, .go 0]

theorem out_of_order_completion_is_safe :
    ∃ s, Run step Free init twoOfThree s ∧ s.completed = [1, 0] ∧ s.returned = [1, 0] ∧
      s.pc 0 = .idle ∧ s.pc 1 = .idle ∧ s.pc 2 = .lock 12 false ∧ s.returned.Nodup ∧
      (∀ r ∈ s.returned, r ∈ s.completed) ∧ s.panic = none := by
  refine Run.exists_with (P := fun s => s.completed = [1, 0] ∧ s.returned = [1, 0] ∧
      s.pc 0 = .idle ∧ s.pc 1 = .idle ∧ s.pc 2 = .lock 12 false)
    (by decide +kernel) fun s run ⟨completed, returned, first, second, third⟩ => ?_
  obtain ⟨-, -, -, -, nodup, done, -, panic⟩ := virtio_requests_are_safe run
  exact ⟨completed, returned, first, second, third, nodup, done, panic⟩

end Xv6.Virtio
