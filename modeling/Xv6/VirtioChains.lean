import Mathlib.Data.List.Nodup
import Mathlib.Data.List.Perm.Subperm
import Mathlib.Data.List.Range
import Xv6.Virtio

/-! What every run of the disk driver keeps, in three parts: who has which buffer and which
descriptors, how far the requests have come in the two rings, and what each waiting thread can
rely on. -/
namespace Xv6.Virtio
open Interleaving RingBuffer List
open Function (update update_of_ne update_self)
variable {s s' : State} {t u : Tid} {b : Buf} {c : Chain} {r : Nat} {v : Tid → View} {x : View}
  {busy : Buf → Bool} {free free' : Nat → Bool} {desc desc' : Nat → Desc}
  {infoB infoB' : Nat → Option Buf}

lemma update_same {α : Type} (f : View → α) (h : f x = f (v t)) (u : Tid) :
    f (update v t x u) = f (v u) := by
  by_cases eq : u = t
  · subst eq
    rw [update_self, h]
  rw [update_of_ne eq]

lemma of_update {y : View} (has : update v t x u = y) (is : y ≠ x) : u ≠ t ∧ v u = y := by
  by_cases me : u = t
  · rw [me, update_self] at has
    exact absurd has.symm is
  rw [update_of_ne me] at has
  exact ⟨me, has⟩

/-! ### Buffers and descriptors -/

/-- Each buffer and each descriptor is with at most one thread, and the descriptors that are with
none are free. -/
structure Owned (busy : Buf → Bool) (free : Nat → Bool) (v : Tid → View) : Prop where
  busy : ∀ t b, (v t).buf = some b → busy b = true
  bufs : ∀ t u b, (v t).buf = some b → (v u).buf = some b → t = u
  nodup : ∀ t c, (v t).chain = some c → c.list.Nodup
  held : ∀ t c, (v t).chain = some c → ∀ i ∈ c.list, i < NUM ∧ free i = false
  apart : ∀ t u c d i, (v t).chain = some c → (v u).chain = some d → i ∈ c.list → i ∈ d.list →
    t = u
  used : ∀ i, i < NUM → free i = false → ∃ t c, (v t).chain = some c ∧ i ∈ c.list

section
variable (h : Owned busy free v)
include h

lemma Owned.of_chains {busy' : Buf → Bool} {v' : Tid → View}
    (chains : ∀ u, (v' u).chain = (v u).chain) (busy : ∀ t b, (v' t).buf = some b → busy' b = true)
    (bufs : ∀ t u b, (v' t).buf = some b → (v' u).buf = some b → t = u) : Owned busy' free v' := by
  refine ⟨busy, bufs, ?_, ?_, ?_, ?_⟩
  · intro u c has
    exact h.nodup u c ((chains u).symm.trans has)
  · intro u c has
    exact h.held u c ((chains u).symm.trans has)
  · intro u w c d i has has'
    exact h.apart u w c d i ((chains u).symm.trans has) ((chains w).symm.trans has')
  intro i lt taken
  obtain ⟨u, c, has, mem⟩ := h.used i lt taken
  exact ⟨u, c, (chains u).trans has, mem⟩

lemma Owned.same (buf : x.buf = (v t).buf) (chain : x.chain = (v t).chain) :
    Owned busy free (update v t x) := by
  have bufs := update_same View.buf buf
  refine h.of_chains (update_same View.chain chain) ?_ ?_
  · intro u b has
    exact h.busy u b ((bufs u).symm.trans has)
  intro u w b has has'
  exact h.bufs u w b ((bufs u).symm.trans has) ((bufs w).symm.trans has')

lemma Owned.call (out : v t = .out) (idle : busy b = false) :
    Owned (update busy b true) free (update v t (.called b)) := by
  have other {u : Tid} (has : (v u).buf = some b) : False := by
    rw [h.busy u b has] at idle
    cases idle
  refine h.of_chains (update_same View.chain (out ▸ rfl)) ?_ ?_
  · intro u d has
    by_cases eq : d = b
    · rw [eq, update_self]
    rw [update_of_ne eq]
    by_cases me : u = t
    · rw [me, update_self] at has
      exact absurd (Option.some.inj has).symm eq
    rw [update_of_ne me] at has
    exact h.busy u d has
  intro u w d has has'
  by_cases me : u = t
  · subst me
    rw [update_self] at has
    cases has
    by_contra ne
    rw [update_of_ne (Ne.symm ne)] at has'
    exact other has'
  rw [update_of_ne me] at has
  by_cases me' : w = t
  · subst me'
    rw [update_self] at has'
    cases has'
    exact absurd has (fun has => other has)
  rw [update_of_ne me'] at has'
  exact h.bufs u w d has has'

lemma Owned.alloc (called : v t = .called b) (nodup : c.list.Nodup) (were : ∀ i ∈ c.list,
    i < NUM ∧ free i = true) (now : ∀ i, free' i = if i ∈ c.list then false else free i) :
    Owned busy free' (update v t (.chained b c)) := by
  have bufs := update_same (t := t) (v := v) (x := .chained b c) View.buf (called ▸ rfl)
  have gone {i : Nat} (was : free i = false) : free' i = false := by
    rw [now]
    split_ifs
    · rfl
    exact was
  have other {u : Tid} {d : Chain} (has : (v u).chain = some d) {i : Nat} (mem : i ∈ d.list)
      (mine : i ∈ c.list) : False := by
    have := (were i mine).2
    rw [(h.held u d has i mem).2] at this
    cases this
  refine ⟨?_, ?_, ?_, ?_, ?_, ?_⟩
  · intro u d has
    exact h.busy u d ((bufs u).symm.trans has)
  · intro u w d has has'
    exact h.bufs u w d ((bufs u).symm.trans has) ((bufs w).symm.trans has')
  · intro u d has
    by_cases me : u = t
    · rw [me, update_self] at has
      cases has
      exact nodup
    rw [update_of_ne me] at has
    exact h.nodup u d has
  · intro u d has i mem
    by_cases me : u = t
    · rw [me, update_self] at has
      cases has
      exact ⟨(were i mem).1, by rw [now, if_pos mem]⟩
    rw [update_of_ne me] at has
    exact ⟨(h.held u d has i mem).1, gone (h.held u d has i mem).2⟩
  · intro u w d e i has has' mem mem'
    by_cases me : u = t
    · subst me
      rw [update_self] at has
      cases has
      by_contra ne
      rw [update_of_ne (Ne.symm ne)] at has'
      exact other has' mem' mem
    rw [update_of_ne me] at has
    by_cases me' : w = t
    · subst me'
      rw [update_self] at has'
      cases has'
      exact absurd mem' (fun mem' => other has mem mem')
    rw [update_of_ne me'] at has'
    exact h.apart u w d e i has has' mem mem'
  intro i lt taken
  by_cases mine : i ∈ c.list
  · exact ⟨t, c, by rw [update_self]; rfl, mine⟩
  rw [now, if_neg mine] at taken
  obtain ⟨u, d, has, mem⟩ := h.used i lt taken
  have ne : u ≠ t := by
    rintro rfl
    rw [called] at has
    cases has
  exact ⟨u, d, by rw [update_of_ne ne]; exact has, mem⟩

lemma Owned.drop (buf : (v t).buf = some b) (chain : (v t).chain = some c) (now : ∀ i, free' i =
    if i ∈ c.list then true else free i) : Owned (update busy b false) free' (update v t .out) := by
  have kept {α : Type} (f : View → Option α) (none : f .out = none) {u : Tid} {a : α}
      (has : f (update v t .out u) = some a) : u ≠ t ∧ f (v u) = some a := by
    by_cases me : u = t
    · rw [me, update_self, none] at has
      cases has
    rw [update_of_ne me] at has
    exact ⟨me, has⟩
  have still {u : Tid} {d : Chain} (ne : u ≠ t) (has : (v u).chain = some d) {i : Nat} (mem : i ∈
    d.list) : i ∉ c.list := fun mine => ne (h.apart u t d c i has chain mem mine)
  refine ⟨?_, ?_, ?_, ?_, ?_, ?_⟩
  · intro u d has
    obtain ⟨ne, has⟩ := kept View.buf rfl has
    have other : d ≠ b := fun eq => ne (h.bufs u t d has (eq ▸ buf))
    rw [update_of_ne other]
    exact h.busy u d has
  · intro u w d has has'
    exact h.bufs u w d (kept View.buf rfl has).2 (kept View.buf rfl has').2
  · intro u d has
    exact h.nodup u d (kept View.chain rfl has).2
  · intro u d has i mem
    obtain ⟨ne, has⟩ := kept View.chain rfl has
    exact ⟨(h.held u d has i mem).1, by rw [now, if_neg (still ne has mem)]; exact (h.held u d has i mem).2⟩
  · intro u w d e i has has'
    exact h.apart u w d e i (kept View.chain rfl has).2 (kept View.chain rfl has').2
  intro i lt taken
  rw [now] at taken
  split_ifs at taken with mine
  obtain ⟨u, d, has, mem⟩ := h.used i lt taken
  have ne : u ≠ t := by
    rintro rfl
    cases chain.symm.trans has
    exact mine mem
  exact ⟨u, d, by rw [update_of_ne ne]; exact has, mem⟩

end

/-- The three descriptors of a request and what the interrupt handler finds for it. -/
structure Formatted (desc : Nat → Desc) (infoB : Nat → Option Buf) (b : Buf) (c : Chain) :
    Prop where
  fst : (desc c.fst).hasNext = true ∧ (desc c.fst).next = c.snd
  snd : (desc c.snd).hasNext = true ∧ (desc c.snd).next = c.trd
  trd : (desc c.trd).hasNext = false ∧ (desc c.trd).addr = .status c.fst
  info : infoB c.fst = some b

lemma Chain.fst_mem (c : Chain) : c.fst ∈ c.list := by simp [Chain.list]
lemma Chain.snd_mem (c : Chain) : c.snd ∈ c.list := by simp [Chain.list]
lemma Chain.trd_mem (c : Chain) : c.trd ∈ c.list := by simp [Chain.list]

lemma Chain.ne (nodup : c.list.Nodup) : c.fst ≠ c.snd ∧ c.fst ≠ c.trd ∧ c.snd ≠ c.trd := by
  simp only [Chain.list, nodup_cons, mem_cons, not_mem_nil, or_false, not_or,
    nodup_nil, not_false_eq_true, and_true] at nodup
  exact ⟨nodup.1.1, nodup.1.2, nodup.2⟩

lemma Formatted.congr (h : Formatted desc infoB b c) (same : ∀ i ∈ c.list, desc' i = desc i)
    (info : infoB' c.fst = infoB c.fst) : Formatted desc' infoB' b c := by
  refine ⟨?_, ?_, ?_, info.trans h.info⟩
  · rw [same _ c.fst_mem]; exact h.fst
  · rw [same _ c.snd_mem]; exact h.snd
  rw [same _ c.trd_mem]; exact h.trd

lemma Formatted.walk (h : Formatted desc infoB b c) : walk NUM desc c.fst = c.list := by
  simp only [Virtio.walk, h.fst, h.snd, h.trd, if_true]
  rfl

def Formats (desc : Nat → Desc) (infoB : Nat → Option Buf) (v : Tid → View) : Prop :=
  ∀ t b c, (v t).formatted = some (b, c) → Formatted desc infoB b c

lemma View.formatted_chain {b : Buf} {c : Chain} (h : x.formatted = some (b, c)) :
    x.buf = some b ∧ x.chain = some c := by cases x <;> cases h <;> exact ⟨rfl, rfl⟩

/-! ### The rings -/

structure Rings (s : State) : Prop where
  idx : s.idx = BitVec.ofNat 16 s.published.length
  lastAvail : s.lastAvail = BitVec.ofNat 16 s.taken
  taken : s.taken ≤ s.published.length
  ring : Holds NUM s.ring (s.published.map fun q => q.idx.fst) s.taken
  usedIdx : s.usedIdx = BitVec.ofNat 16 s.completed.length
  seenIdx : s.seenIdx = BitVec.ofNat 16 s.seen
  seen : s.seen ≤ s.completed.length
  usedRing : Holds NUM s.usedRing (s.completed.map s.head) s.seen
  /-- A request that was taken is in the device or completed, and not twice. -/
  perm : (s.device.map Prod.fst ++ s.completed).Perm (List.range s.taken)
  heads : ∀ p ∈ s.device, s.head p.1 = p.2
  nodup : s.returned.Nodup
  returned : ∀ r ∈ s.returned, r ∈ s.completed.take s.seen

lemma Rings.completed_nodup (h : Rings s) : s.completed.Nodup :=
  (nodup_append.mp (h.perm.nodup_iff.mpr nodup_range)).2.1

lemma Rings.completed_lt (h : Rings s) (mem : r ∈ s.completed) : r < s.taken :=
  mem_range.mp (h.perm.subset (mem_append_right _ mem))

variable {p : Nat × Nat}

lemma Rings.device_lt (h : Rings s) (mem : p ∈ s.device) : p.1 < s.taken :=
  mem_range.mp (h.perm.subset (mem_append_left _ (mem_map_of_mem mem)))

lemma Rings.device_not_completed (h : Rings s) (mem : p ∈ s.device) :
    p.1 ∉ s.completed := fun done =>
  (nodup_append.mp (h.perm.nodup_iff.mpr nodup_range)).2.2 _ (mem_map_of_mem mem) _ done rfl

lemma Rings.returned_completed (h : Rings s) (mem : r ∈ s.returned) : r ∈ s.completed :=
  mem_of_mem_take (h.returned r mem)

lemma head_eq {q : Req} (h : s.published[r]? = some q) : s.head r = q.idx.fst := by
  rw [State.head, h]
  rfl

/-! ### Requests -/

/-- Every request that was not returned has its caller waiting for it. -/
structure Requests (s : State) (v : Tid → View) : Prop where
  owner : ∀ r q, s.published[r]? = some q → r ∈ s.returned ∨ v q.thread = .waiting q.buf q.idx r
  waiting : ∀ t b c r, v t = .waiting b c r → s.published[r]? = some ⟨t, b, c⟩ ∧ r ∉ s.returned
  stored : ∀ t b c, v t = .stored b c → s.ring (s.published.length % NUM) = c.fst
  disk : ∀ t b c, v t = .ready b c ∨ v t = .stored b c → s.disk b = true
  /-- The flag of a buffer says whether the driver has seen the request completed. -/
  flag : ∀ t b c r, v t = .waiting b c r → (s.disk b = true ↔ r ∉ s.completed.take s.seen)
  status : ∀ r ∈ s.completed, r ∉ s.returned → s.status (s.head r) = 0

lemma Requests.owner_update {q : Req} (h : Requests s v)
    (busy : ∀ b c r, v t ≠ .waiting b c r) (here : s.published[r]? = some q) :
    r ∈ s.returned ∨ update v t x q.thread = .waiting q.buf q.idx r := by
  rcases h.owner r q here with done | waits
  · exact .inl done
  have ne : q.thread ≠ t := fun eq => busy _ _ _ (eq ▸ waits)
  exact .inr (by rw [update_of_ne ne]; exact waits)

structure Core (s : State) (v : Tid → View) : Prop where
  owned : Owned s.busy s.free v
  formats : Formats s.desc s.infoB v
  rings : Rings s
  requests : Requests s v

lemma length_le_of_nodup {l : List Nat} {n : Nat} (nodup : l.Nodup) (lt : ∀ i ∈ l, i < n) :
    l.length ≤ n := by
  have := (subperm_of_subset nodup fun i mem => mem_range.mpr (lt i mem)).length_le
  rwa [length_range] at this

lemma Core.caller (h : Core s v) (lt : r < s.published.length) (open_ : r ∉ s.returned) :
    ∃ t b c, v t = .waiting b c r ∧ s.head r = c.fst := by
  have here := getElem?_eq_getElem lt
  rcases h.requests.owner r _ here with done | waits
  · exact absurd done open_
  exact ⟨_, _, _, waits, head_eq here⟩

lemma Core.head_inj (h : Core s v) {r r' : Nat} (lt : r < s.published.length)
    (lt' : r' < s.published.length) (open_ : r ∉ s.returned) (open' : r' ∉ s.returned)
    (eq : s.head r = s.head r') : r = r' := by
  obtain ⟨t, b, c, waits, head⟩ := h.caller lt open_
  obtain ⟨t', b', c', waits', head'⟩ := h.caller lt' open'
  have same : t = t' := h.owned.apart t t' c c' c.fst (waits ▸ rfl) (waits' ▸ rfl)
    c.fst_mem (by rw [← head, eq, head']; exact c'.fst_mem)
  subst same
  cases waits.symm.trans waits'
  rfl

lemma Core.head_lt (h : Core s v) (lt : r < s.published.length) (open_ : r ∉ s.returned) :
    s.head r < NUM := by
  obtain ⟨t, b, c, waits, head⟩ := h.caller lt open_
  rw [head]
  exact (h.owned.held t c (waits ▸ rfl) _ c.fst_mem).1

lemma Core.heads_nodup (h : Core s v) {l : List Nat} (nodup : l.Nodup)
    (all : ∀ r ∈ l, r < s.published.length ∧ r ∉ s.returned) : (l.map s.head).Nodup :=
  List.Nodup.map_on (fun r mem r' mem' eq =>
    h.head_inj (all r mem).1 (all r' mem').1 (all r mem).2 (all r' mem').2 eq) nodup

lemma Core.room (h : Core s v) (ready : v t = .ready b c) :
    s.published.length < s.taken + NUM := by
  have le := h.rings.taken
  have all : ∀ r ∈ range' s.taken (s.published.length - s.taken),
      r < s.published.length ∧ r ∉ s.returned := by
    intro r mem
    obtain ⟨from_taken, lt⟩ := mem_range'_1.mp mem
    refine ⟨by omega, fun done => ?_⟩
    have := h.rings.completed_lt (h.rings.returned_completed done)
    omega
  have fresh : c.fst ∉ (range' s.taken (s.published.length - s.taken)).map s.head := by
    intro mem
    obtain ⟨r, mem, eq⟩ := mem_map.mp mem
    obtain ⟨u, d, e, waits, head⟩ := h.caller (all r mem).1 (all r mem).2
    have same : t = u := h.owned.apart t u c e c.fst (ready ▸ rfl) (waits ▸ rfl)
      c.fst_mem (by rw [← eq, head]; exact e.fst_mem)
    subst same
    cases ready.symm.trans waits
  have bound := length_le_of_nodup (n := NUM)
    (nodup_cons.mpr ⟨fresh, h.heads_nodup nodup_range' all⟩) (by
      intro i mem
      rcases mem_cons.mp mem with rfl | mem
      · exact (h.owned.held t c (ready ▸ rfl) _ c.fst_mem).1
      obtain ⟨r, here, rfl⟩ := mem_map.mp mem
      exact h.head_lt (all r here).1 (all r here).2)
  rw [length_cons, length_map, length_range'] at bound
  omega

lemma Core.usedRoom (h : Core s v) (mem : p ∈ s.device) : s.completed.length < s.seen + NUM := by
  have le := h.rings.taken
  have nodup := h.rings.completed_nodup
  have fresh := h.rings.device_not_completed mem
  have unseen : ∀ r ∈ s.completed.drop s.seen, r ∉ s.returned := by
    intro r after done
    exact disjoint_take_drop nodup le_rfl (h.rings.returned r done) after
  have all : ∀ r ∈ p.1 :: s.completed.drop s.seen, r < s.published.length ∧ r ∉ s.returned := by
    intro r here
    rcases mem_cons.mp here with rfl | after
    · exact ⟨(h.rings.device_lt mem).trans_le le, fun done => fresh (h.rings.returned_completed done)⟩
    exact ⟨(h.rings.completed_lt (mem_of_mem_drop after)).trans_le le, unseen r after⟩
  have bound := length_le_of_nodup (n := NUM) (h.heads_nodup
    (nodup_cons.mpr ⟨fun after => fresh (mem_of_mem_drop after), nodup.sublist (drop_sublist _ _)⟩)
    all) (by
      intro i mem
      obtain ⟨r, here, rfl⟩ := mem_map.mp mem
      exact h.head_lt (all r here).1 (all r here).2)
  rw [length_map, length_cons, length_drop] at bound
  omega

end Xv6.Virtio
