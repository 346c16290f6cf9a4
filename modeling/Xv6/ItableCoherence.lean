import Xv6.Itable

/-! Coherence of the inode table: one entry in use per inode, counted references, a valid unlocked
entry equal to the disk, and freeing by the last reference. -/
namespace Xv6.Itable
open Interleaving List Option
open Function (update update_eq_self update_of_ne update_self forall_update_iff)

def Pos.slot : Pos → Option Slot
  | .idle => none
  | .locking i => some i
  | .loading i => some i
  | .allocated _ _ => none
  | .trunc i => some i
  | .erase i => some i
  | .unlock i => some i
  | .drop i => some i
  | .blocked i => some i

/-- The positions inside the part of `iput` that frees the inode under its lock. -/
def Pos.Frees (i : Slot) (p : Pos) : Prop := p = .trunc i ∨ p = .erase i ∨ p = .unlock i

variable {τ α : Type} {disk : Nat → Nat → Dinode α} {pc : τ → Pos} {i : Slot} {e : Entry τ α}
  {t : τ} {p : Pos}

structure Sound (disk : Nat → Nat → Dinode α) (pc : τ → Pos) (i : Slot) (e : Entry τ α) :
    Prop where
  count : e.ref = e.holders.length
  owner : ∀ t, e.lock = some t → t ∈ e.holders
  user : ∀ t, (pc t).slot = some i → t ∈ e.holders
  locked : ∀ t, pc t = .loading i ∨ (pc t).Frees i → e.lock = some t
  dropped : ∀ t, pc t = .drop i → e.lock ≠ some t
  awake : ∀ t, pc t ≠ .blocked i
  freeing : ∀ t, (pc t).Frees i → e.valid = true ∧ e.dirty = false
  unlinked : ∀ t, pc t = .trunc i ∨ pc t = .erase i → e.copy.nlink = 0
  held : ∀ t, e.lock = some t → e.valid = true ∨ pc t = .loading i
  clean : e.lock = none → e.dirty = false
  typed : e.valid = true → 0 < e.ref → (∀ t, pc t ≠ .unlock i) →
    e.copy.type ≠ .none ∧ (disk e.dev e.inum).type = e.copy.type
  same : e.valid = true → 0 < e.ref → (∀ t, pc t ≠ .unlock i) → e.dirty = false →
    disk e.dev e.inum = e.copy

lemma Frees.slot (frees : p.Frees i) : p.slot = some i := by
  rcases frees with rfl | rfl | rfl <;> rfl

lemma Sound.unused (h : Sound disk pc i e) (free : e.ref = 0) :
    e.holders = [] ∧ e.lock = none ∧ e.dirty = false ∧ ∀ t, (pc t).slot ≠ some i := by
  have none : e.holders = [] := eq_nil_of_length_eq_zero (h.count ▸ free)
  have unlocked : e.lock = Option.none := by
    refine eq_none_iff_forall_ne_some.mpr fun t lock => ?_
    have mem := h.owner t lock
    rw [none] at mem
    exact not_mem_nil mem
  refine ⟨none, unlocked, h.clean unlocked, fun t at' => ?_⟩
  have mem := h.user t at'
  rw [none] at mem
  exact not_mem_nil mem

lemma Sound.ref_pos (h : Sound disk pc i e) (mem : t ∈ e.holders) : 0 < e.ref := by
  rw [h.count]
  exact length_pos_of_mem mem

lemma Sound.awake_of_lock (h : Sound disk pc i e) (lock : e.lock = some t)
    (before : pc t ≠ .unlock i) (u : τ) : pc u ≠ .unlock i := by
  intro at'
  have eq := some.inj (lock.symm.trans (h.locked u (.inr (.inr (.inr at')))))
  exact before (eq ▸ at')

section
variable [DecidableEq τ]

structure Sits (i : Slot) (e : Entry τ α) (t : τ) (p : Pos) : Prop where
  user : p.slot = some i → t ∈ e.holders
  locked : p = .loading i ∨ p.Frees i → e.lock = some t
  dropped : p = .drop i → e.lock ≠ some t
  awake : p ≠ .blocked i
  freeing : p.Frees i → e.valid = true ∧ e.dirty = false
  unlinked : p = .trunc i ∨ p = .erase i → e.copy.nlink = 0
  held : e.lock = some t → e.valid = true ∨ p = .loading i

omit [DecidableEq τ] in
lemma Sound.sits (h : Sound disk pc i e) (t : τ) : Sits i e t (pc t) :=
  ⟨h.user t, h.locked t, h.dropped t, h.awake t, h.freeing t, h.unlinked t, h.held t⟩

variable {disk' : Nat → Nat → Dinode α}

lemma Sound.of_sits (count : e.ref = e.holders.length)
    (owner : ∀ u, e.lock = some u → u ∈ e.holders) (mine : Sits i e t p)
    (others : ∀ u, u ≠ t → Sits i e u (pc u)) (clean : e.lock = none → e.dirty = false)
    (typed : e.valid = true → 0 < e.ref → (∀ u, update pc t p u ≠ .unlock i) → e.copy.type ≠ .none ∧
    (disk' e.dev e.inum).type = e.copy.type) (same : e.valid = true → 0 < e.ref →
    (∀ u, update pc t p u ≠ .unlock i) → e.dirty = false → disk' e.dev e.inum = e.copy) :
    Sound disk' (update pc t p) i e := by
  have all := (forall_update_iff pc fun u q => Sits i e u q).mpr ⟨mine, others⟩
  exact ⟨count, owner, fun u => (all u).user, fun u => (all u).locked, fun u => (all u).dropped,
    fun u => (all u).awake, fun u => (all u).freeing, fun u => (all u).unlinked,
    fun u => (all u).held, clean, typed, same⟩

omit [DecidableEq τ] in
lemma Sits.away (held : e.lock = some t → e.valid = true) (after : p.slot ≠ some i) :
    Sits i e t p := by
  have unlocked : ¬ (p = .loading i ∨ p.Frees i) := by
    rintro (rfl | frees)
    · exact after rfl
    exact after (Frees.slot frees)
  refine ⟨fun at' => absurd at' after, fun at' => absurd at' unlocked, ?_, ?_,
    fun frees => absurd (.inr frees) unlocked, ?_, fun lock => .inl (held lock)⟩
  · rintro rfl
    exact absurd rfl after
  · rintro rfl
    exact after rfl
  rintro (rfl | rfl) <;> exact absurd rfl after

lemma none_unlocks (before : pc t ≠ .unlock i) (none : ∀ u, update pc t p u ≠ .unlock i) (u : τ) :
    pc u ≠ .unlock i := by
  intro at'
  refine none u ?_
  rw [update_of_ne, at']
  rintro rfl
  exact before at'

/-- A move of a process that is about another entry before and after, and a disk that is the same
for the inode of this entry. -/
lemma Sound.other (h : Sound disk pc i e) (before : (pc t).slot ≠ some i)
    (after : p.slot ≠ some i) (kept : 0 < e.ref → e.valid = true → (∀ t, pc t ≠ .unlock i) →
    disk' e.dev e.inum = disk e.dev e.inum) : Sound disk' (update pc t p) i e := by
  have still := none_unlocks (p := p) fun at' : pc t = .unlock i => before (at' ▸ rfl)
  have held (lock : e.lock = some t) : e.valid = true :=
    (h.held t lock).resolve_right fun at' => before (at' ▸ rfl)
  refine .of_sits h.count h.owner (.away held after) (fun u _ => h.sits u) h.clean
    (fun valid pos none => ?_) fun valid pos none clean => ?_
  · rw [kept pos valid (still none)]
    exact h.typed valid pos (still none)
  rw [kept pos valid (still none)]
  exact h.same valid pos (still none) clean

end

section
variable {disk' : Nat → Nat → Dinode α}

lemma Sound.addRef (h : Sound disk pc i e) (used : 0 < e.ref) (t : τ) :
    Sound disk pc i (e.addRef t) :=
  ⟨congrArg (· + 1) h.count, fun u lock => mem_cons_of_mem _ (h.owner u lock), fun u at' =>
    mem_cons_of_mem _ (h.user u at'), h.locked, h.dropped, h.awake, h.freeing, h.unlinked, h.held,
    h.clean, fun valid _ => h.typed valid used, fun valid _ => h.same valid used⟩

lemma Sound.recycle (h : Sound disk pc i e) (free : e.ref = 0) (t : τ) (dev inum : Nat) :
    Sound disk pc i (e.recycle t dev inum) := by
  obtain ⟨-, unlocked, clean, nobody⟩ := h.unused free
  have noLock : ∀ u, e.lock ≠ some u := fun u lock => by
    rw [unlocked] at lock
    exact some_ne_none u lock.symm
  have frees : ∀ u, ¬ (pc u).Frees i := fun u frees => nobody u (Frees.slot frees)
  exact ⟨rfl, fun u lock => absurd lock (noLock u), fun u at' => absurd at' (nobody u), h.locked,
    fun u _ => noLock u, h.awake, fun u at' => absurd at' (frees u), h.unlinked, fun u lock =>
    absurd lock (noLock u), fun _ => clean, nofun, nofun⟩

section
variable (h : Sound disk pc i e) (idle : pc t = .idle) (lock : e.lock = some t)
include h idle lock

lemma Sound.change (nlink : Int) (body : α) : Sound disk pc i
    { e with copy := { e.copy with nlink := nlink, body := body }, dirty := true } := by
  have only : ∀ u, ¬ (pc u).Frees i := by
    intro u frees
    have eq := some.inj (lock.symm.trans (h.locked u (.inr frees)))
    rw [← eq, idle] at frees
    rcases frees with at' | at' | at' <;> cases at'
  refine ⟨h.count, h.owner, h.user, h.locked, h.dropped, h.awake, fun u frees => absurd frees (only
    u), fun u at' => absurd ?_ (only u), h.held, fun free => ?_, h.typed, nofun⟩
  · exact at'.elim .inl fun at' => .inr (.inl at')
  rw [show e.lock = none from free] at lock
  exact absurd lock.symm (some_ne_none t)

lemma Sound.idle_holder : e.valid = true ∧ 0 < e.ref ∧ ∀ u, pc u ≠ .unlock i := by
  refine ⟨?_, h.ref_pos (h.owner t lock), fun u at' => ?_⟩
  · rcases h.held t lock with valid | at'
    · exact valid
    rw [idle] at at'
    cases at'
  have eq := some.inj (lock.symm.trans (h.locked u (.inr (.inr (.inr at')))))
  rw [← eq, idle] at at'
  cases at'

lemma Sound.stored (body : α) (stored : disk' e.dev e.inum = { e.copy with body := body }) :
    Sound disk' pc i { e with copy := { e.copy with body := body }, dirty := false } := by
  obtain ⟨valid, used, none⟩ := h.idle_holder idle lock
  have type := (h.typed valid used none).1
  refine ⟨h.count, h.owner, h.user, h.locked, h.dropped, h.awake, fun u frees => ⟨valid, rfl⟩,
    h.unlinked, h.held, fun _ => rfl, fun _ _ _ => ⟨type, ?_⟩, fun _ _ _ _ => stored⟩
  change (disk' e.dev e.inum).type = e.copy.type
  rw [stored]

lemma Sound.iunlock (clean : e.dirty = false) : Sound disk pc i { e with lock := none } := by
  have alone : ∀ u, ¬ (pc u = .loading i ∨ (pc u).Frees i) := by
    intro u at'
    have eq := some.inj (lock.symm.trans (h.locked u at'))
    rw [← eq, idle] at at'
    rcases at' with at' | at' | at' | at' <;> cases at'
  exact ⟨h.count, fun u lock => absurd lock (some_ne_none u).symm, h.user, fun u at' => absurd at'
    (alone u), fun u _ => (some_ne_none u).symm, h.awake, h.freeing, h.unlinked, fun u lock =>
    absurd lock (some_ne_none u).symm, fun _ => clean, h.typed, h.same⟩

end

variable [DecidableEq τ]

lemma Sound.dropRef (h : Sound disk pc i e) (mem : t ∈ e.holders) (idle : pc t = .idle)
    (keeps : e.lock = some t → 2 ≤ e.holders.count t) : Sound disk pc i (e.dropRef t) := by
  have stays : ∀ u, u ≠ t → u ∈ e.holders → u ∈ e.holders.erase t := fun u ne mem =>
    (mem_erase_of_ne ne).mpr mem
  refine ⟨?_, fun u lock => ?_, fun u at' => ?_, h.locked, h.dropped, h.awake, h.freeing,
    h.unlinked, h.held, h.clean, fun valid pos => h.typed valid (lt_of_lt_of_le pos (Nat.sub_le _ _)),
    fun valid pos => h.same valid (lt_of_lt_of_le pos (Nat.sub_le _ _))⟩
  · change e.ref - 1 = (e.holders.erase t).length
    rw [length_erase_of_mem mem, h.count]
  · by_cases same : u = t
    · subst same
      have twice := keeps lock
      refine count_pos_iff.mp ?_
      change 0 < (e.holders.erase u).count u
      rw [count_erase_self]
      omega
    exact stays u same (h.owner u lock)
  refine stays u ?_ (h.user u at')
  rintro rfl
  rw [idle] at at'
  cases at'

lemma Sound.locking (h : Sound disk pc i e) (idle : pc t = .idle) (mem : t ∈ e.holders) :
    Sound disk (update pc t (.locking i)) i e := by
  have still := none_unlocks (i := i) (p := .locking i) fun at' : pc t = .unlock i =>
    nomatch idle.symm.trans at'
  have held (lock : e.lock = some t) : e.valid = true :=
    (h.held t lock).resolve_right fun at' => nomatch idle.symm.trans at'
  refine .of_sits h.count h.owner ⟨fun _ => mem, ?_, nofun, nofun, ?_, nofun, fun lock => .inl (held
    lock)⟩ (fun u _ => h.sits u) h.clean (fun valid pos none => h.typed valid pos (still none)) fun
    valid pos none => h.same valid pos (still none)
  · rintro (at' | at' | at' | at') <;> cases at'
  rintro (at' | at' | at') <;> cases at'

lemma Sound.moved {e' : Entry τ α} (h : Sound disk pc i e)
    (alone : ∀ u, u ≠ t → ¬ (pc u = .loading i ∨ (pc u).Frees i))
    (count : e'.ref = e'.holders.length) (holders : e'.holders = e.holders) (mem : t ∈ e'.holders)
    (lock : ∀ u, e'.lock = some u → u = t) (locks : p = .loading i ∨ p.Frees i → e'.lock = some t)
    (dropped : p = .drop i → e'.lock ≠ some t) (awake : p ≠ .blocked i)
    (freeing : p.Frees i → e'.valid = true ∧ e'.dirty = false) (unlinked : p = .trunc i ∨
    p = .erase i → e'.copy.nlink = 0) (held : e'.lock = some t → e'.valid = true ∨ p = .loading i)
    (clean : e'.lock = none → e'.dirty = false) (typed : e'.valid = true →
    p ≠ .unlock i → e'.copy.type ≠ .none ∧ (disk' e'.dev e'.inum).type = e'.copy.type)
    (same : e'.valid = true → p ≠ .unlock i → e'.dirty = false → disk' e'.dev e'.inum = e'.copy) :
    Sound disk' (update pc t p) i e' := by
  have self : update pc t p t = p := update_self ..
  refine .of_sits count (fun u at' => lock u at' ▸ mem) ⟨fun _ => mem, locks, dropped, awake,
    freeing, unlinked, held⟩ (fun u ne => ⟨fun at' => holders ▸ h.user u at', fun at' => absurd at'
    (alone u ne), fun _ owner => ne (lock u owner), h.awake u, fun at' => absurd (.inr at') (alone u
    ne), fun at' => absurd (.inr ?_) (alone u ne), fun owner => absurd (lock u owner) ne⟩) clean
    (fun valid _ none => typed valid (self ▸ none t)) fun valid _ none => same valid (self ▸ none t)
  exact at'.elim .inl fun at' => .inr (.inl at')

omit [DecidableEq τ] in
lemma Sound.alone (h : Sound disk pc i e) (lock : e.lock = none ∨ e.lock = some t) (u : τ)
    (ne : u ≠ t) : ¬ (pc u = .loading i ∨ (pc u).Frees i) := by
  intro at'
  have owner := h.locked u at'
  rcases lock with lock | lock
  · exact some_ne_none u (owner.symm.trans lock)
  exact ne (some.inj (owner.symm.trans lock))

section
variable (h : Sound disk pc i e)
include h

lemma Sound.acquire (here : pc t = .locking i) (free : e.lock = none) :
    Sound disk (update pc t (.loading i)) i { e with lock := some t } := by
  have none : ∀ u, pc u ≠ .unlock i := fun u at' =>
    some_ne_none u ((h.locked u (.inr (.inr (.inr at')))).symm.trans free)
  have mem := h.user t (here ▸ rfl)
  refine h.moved (h.alone (.inl free)) h.count rfl mem (fun u lock => (some.inj lock).symm)
    (fun _ => rfl) (by simp) (by simp) (fun frees => ?_) (by simp) (fun _ => .inr rfl) (fun lock =>
    absurd lock (some_ne_none t)) (fun valid _ => ?_) fun valid _ clean => ?_
  · rcases frees with at' | at' | at' <;> cases at'
  · exact h.typed valid (h.ref_pos mem) none
  exact h.same valid (h.ref_pos mem) none clean

variable {copy : Dinode α}

lemma Sound.loaded (here : pc t = .loading i) (type : copy.type ≠ .none)
    (fresh : e.valid = true ∧ copy = e.copy ∨ copy = disk e.dev e.inum) :
    Sound disk (update pc t .idle) i { e with copy := copy, valid := true } := by
  have lock := h.locked t (.inl here)
  have mem := h.owner t lock
  have none := h.awake_of_lock lock (here ▸ nofun)
  refine h.moved (h.alone (.inr lock)) h.count rfl mem (fun u lock' => some.inj
    (lock'.symm.trans lock)) (fun at' => ?_) (by simp) (by simp) (fun frees => ?_) (by simp) (fun _
    => .inl rfl) (fun lock' => absurd (lock.symm.trans lock') (some_ne_none t)) (fun _ _ => ⟨type,
    ?_⟩) fun _ _ clean => ?_
  · rcases at' with at' | at' | at' | at' <;> cases at'
  · rcases frees with at' | at' | at' <;> cases at'
  · rcases fresh with ⟨valid, rfl⟩ | rfl
    · exact (h.typed valid (h.ref_pos mem) none).2
    rfl
  rcases fresh with ⟨valid, rfl⟩ | rfl
  · exact h.same valid (h.ref_pos mem) none clean
  rfl

lemma Sound.startFree (mem : t ∈ e.holders) (free : e.lock = none)
    (valid : e.valid = true) (nlink : e.copy.nlink = 0) :
    Sound disk (update pc t (.trunc i)) i { e with lock := some t } := by
  have none : ∀ u, pc u ≠ .unlock i := fun u at' =>
    some_ne_none u ((h.locked u (.inr (.inr (.inr at')))).symm.trans free)
  exact h.moved (h.alone (.inl free)) h.count rfl mem (fun u lock => (some.inj lock).symm)
    (fun _ => rfl) (by simp) (by simp) (fun _ => ⟨valid, h.clean free⟩) (fun _ => nlink) (fun _ =>
    .inl valid) (fun lock => absurd lock (some_ne_none t)) (fun valid _ => h.typed valid (h.ref_pos
    mem) none) fun valid _ clean => h.same valid (h.ref_pos mem) none clean

lemma Sound.freeStored (frees : (pc t).Frees i)
    (nlink : p = .erase i → copy.nlink = 0) (next : p = .erase i ∨ p = .unlock i)
    (type : p = .erase i → copy.type ≠ .none) (stored : disk' e.dev e.inum = copy) :
    Sound disk' (update pc t p) i { e with copy := copy, dirty := false } := by
  have lock := h.locked t (.inr frees)
  have valid := (h.freeing t frees).1
  refine h.moved (h.alone (.inr lock)) h.count rfl (h.owner t lock) (fun u lock' => some.inj
    (lock'.symm.trans lock)) (fun _ => lock) (fun at' => ?_) (fun at' => ?_) (fun _ => ⟨valid, rfl⟩)
    (fun at' => ?_) (fun _ => .inl valid) (fun _ => rfl) (fun _ ne => ?_) fun _ _ _ => stored
  · rcases next with eq | eq
    · exact absurd (eq.symm.trans at') (by simp)
    exact absurd (eq.symm.trans at') (by simp)
  · rcases next with eq | eq
    · exact absurd (eq.symm.trans at') (by simp)
    exact absurd (eq.symm.trans at') (by simp)
  · rcases next with eq | eq
    · exact nlink eq
    rcases at' with at' | at'
    · exact absurd (eq.symm.trans at') (by simp)
    exact absurd (eq.symm.trans at') (by simp)
  have eq := next.resolve_right ne
  exact ⟨type eq, congrArg Dinode.type stored⟩

lemma Sound.freeUnlock (here : pc t = .unlock i) :
    Sound disk (update pc t (.drop i)) i { e with valid := false, lock := none } := by
  have lock := h.locked t (.inr (.inr (.inr here)))
  refine h.moved (h.alone (.inr lock)) h.count rfl (h.owner t lock) (fun u lock' => absurd lock'
    (some_ne_none u).symm) (fun at' => ?_) (fun _ => (some_ne_none t).symm) (by simp) (fun frees =>
    ?_) (by simp) (fun lock' => absurd lock' (some_ne_none t).symm) (fun _ => (h.freeing t (.inr
    (.inr here))).2) (nofun) nofun
  · rcases at' with at' | at' | at' | at' <;> cases at'
  rcases frees with at' | at' | at' <;> cases at'

lemma Sound.freeDrop (here : pc t = .drop i) :
    Sound disk (update pc t .idle) i (e.dropRef t) := by
  have mem := h.user t (here ▸ rfl)
  have unlocked := h.dropped t here
  have stays : ∀ u, u ≠ t → u ∈ e.holders → u ∈ e.holders.erase t := fun u ne mem =>
    (mem_erase_of_ne ne).mpr mem
  have still := none_unlocks (i := i) (p := .idle) fun at' : pc t = .unlock i =>
    nomatch here.symm.trans at'
  refine .of_sits ?_ (fun u lock => stays u ?_ (h.owner u lock)) (.away (fun lock => absurd lock
    unlocked) nofun) (fun u ne => { h.sits u with user := fun at' => stays u ne (h.user u at') })
    h.clean (fun valid pos none => h.typed valid (lt_of_lt_of_le pos (Nat.sub_le _ _)) (still
    none)) fun valid pos none => h.same valid (lt_of_lt_of_le pos (Nat.sub_le _ _)) (still none)
  · change e.ref - 1 = (e.holders.erase t).length
    rw [length_erase_of_mem mem, h.count]
  rintro rfl
  exact unlocked lock

end

end

structure Coherent (s : State τ α) : Prop where
  sound : ∀ i, Sound s.disk s.pc i (s.inode i)
  unique : ∀ i j, 0 < (s.inode i).ref → 0 < (s.inode j).ref →
    (s.inode i).dev = (s.inode j).dev → (s.inode i).inum = (s.inode j).inum → i = j

section Table
variable [DecidableEq τ] {s s' : State τ α} {dev inum : Nat}

omit [DecidableEq τ] in
lemma Coherent.unique_setEntry (h : Coherent s) {i : Slot} {e : Entry τ α}
    (inode : ∀ j, s'.inode j = (s.setEntry i e).inode j) (dev : e.dev = (s.inode i).dev)
    (inum : e.inum = (s.inode i).inum) (used : 0 < e.ref → 0 < (s.inode i).ref) (j k : Slot)
    (first : 0 < (s'.inode j).ref) (second : 0 < (s'.inode k).ref) (sameDev : (s'.inode j).dev =
    (s'.inode k).dev) (sameInum : (s'.inode j).inum = (s'.inode k).inum) : j = k := by
  have back : ∀ l, (0 < (s'.inode l).ref → 0 < (s.inode l).ref) ∧
      (s'.inode l).dev = (s.inode l).dev ∧ (s'.inode l).inum = (s.inode l).inum := by
    intro l
    rw [inode]
    by_cases same : l = i
    · rw [same, setEntry_self]
      exact ⟨used, dev, inum⟩
    rw [setEntry_of_ne s same]
    exact ⟨id, rfl, rfl⟩
  refine h.unique j k ((back j).1 first) ((back k).1 second) ?_ ?_
  · rw [← (back j).2.1, ← (back k).2.1, sameDev]
  rw [← (back j).2.2, ← (back k).2.2, sameInum]

omit [DecidableEq τ] in
lemma Coherent.iget (h : Coherent s) (t : τ) (next : s.iget t dev inum = some s') :
    Coherent s' ∧ s'.pc = s.pc ∧ s'.disk = s.disk := by
  rw [State.iget] at next
  cases found : s.findSlot dev inum with
  | some i =>
    rw [found] at next
    cases next
    have used := (findSlot_some found).1
    refine ⟨⟨fun j => ?_, h.unique_setEntry (fun _ => rfl) rfl rfl fun _ => used⟩, rfl, rfl⟩
    by_cases same : j = i
    · rw [same, setEntry_self]
      exact (h.sound i).addRef used t
    rw [setEntry_of_ne s same]
    exact h.sound j
  | none =>
    rw [found] at next
    obtain ⟨i, free, rfl⟩ := map_eq_some_iff.mp next
    have unused := freeSlot_some free
    refine ⟨⟨fun j => ?_, fun j k first second sameDev sameInum => ?_⟩, rfl, rfl⟩
    · by_cases same : j = i
      · rw [same, setEntry_self]
        exact (h.sound i).recycle unused t dev inum
      rw [setEntry_of_ne s same]
      exact h.sound j
    by_cases a : j = i <;> by_cases b : k = i
    · exact a.trans b.symm
    · rw [a, setEntry_self, setEntry_of_ne s b] at sameDev sameInum
      rw [setEntry_of_ne s b] at second
      exact absurd ⟨sameDev.symm, sameInum.symm⟩ (findSlot_none found k second)
    · rw [b, setEntry_self, setEntry_of_ne s a] at sameDev sameInum
      rw [setEntry_of_ne s a] at first
      exact absurd ⟨sameDev, sameInum⟩ (findSlot_none found j first)
    rw [setEntry_of_ne s a] at first sameDev sameInum
    rw [setEntry_of_ne s b] at second sameDev sameInum
    exact h.unique j k first second sameDev sameInum

variable {t : τ}

lemma Coherent.move {i : Slot} {e : Entry τ α} {p : Pos} (h : Coherent s) (inode : ∀ j,
    s'.inode j = (s.setEntry i e).inode j) (pc : s'.pc = update s.pc t p) (disk : s'.disk = s.disk ∨
    0 < (s.inode i).ref ∧ ∃ d, s'.disk = (s.setDisk (s.inode i).dev (s.inode i).inum d).disk)
    (before : ∀ j, (s.pc t).slot = some j → j = i) (after : ∀ j, p.slot = some j → j = i)
    (dev : e.dev = (s.inode i).dev) (inum : e.inum = (s.inode i).inum) (used : 0 < e.ref →
    0 < (s.inode i).ref) (here : Sound s'.disk (update s.pc t p) i e) : Coherent s' := by
  refine ⟨fun j => ?_, h.unique_setEntry inode dev inum used⟩
  rw [inode, pc]
  by_cases same : j = i
  · rw [same, setEntry_self]
    exact here
  rw [setEntry_of_ne s same]
  refine (h.sound j).other (fun at' => same (before j at')) (fun at' => same (after j at'))
    fun pos _ _ => ?_
  rcases disk with eq | ⟨pos', d, eq⟩
  · rw [eq]
  rw [eq, setDisk_of_ne]
  exact fun clash => same (h.unique j i pos pos' clash.1 clash.2)

omit [DecidableEq τ] in
lemma disk_iupdate (s : State τ α) (i : Slot) (e : Entry τ α) (dev : e.dev = (s.inode i).dev)
    (inum : e.inum = (s.inode i).inum) : ((s.setEntry i e).iupdate i).disk =
    (s.setDisk (s.inode i).dev (s.inode i).inum e.copy).disk := by
  rw [State.iupdate, setEntry_self, dev, inum]
  rfl

omit [DecidableEq τ] in
lemma disk_iupdate_self (s : State τ α) (i : Slot) (e : Entry τ α)
    (dev : e.dev = (s.inode i).dev) (inum : e.inum = (s.inode i).inum) :
    ((s.setEntry i e).iupdate i).disk (s.inode i).dev (s.inode i).inum = e.copy := by
  rw [disk_iupdate s i e dev inum]
  exact setDisk_self s

omit [DecidableEq τ] in
lemma inode_iupdate (s : State τ α) (i : Slot) (e : Entry τ α) (j : Slot) :
    ((s.setEntry i e).iupdate i).inode j = (s.setEntry i { e with dirty := false }).inode j := by
  rw [State.iupdate, setEntry_self, setDisk_inode]
  by_cases same : j = i
  · rw [same, setEntry_self, setEntry_self]
  rw [setEntry_of_ne _ same, setEntry_of_ne _ same, setEntry_of_ne _ same]

lemma Coherent.resume (trunc : α → α) (h : Coherent s) (next : s.resume trunc t = some s') :
    Coherent s' := by
  rw [State.resume] at next
  have about : ∀ {i : Slot}, (s.pc t).slot = some i → ∀ j, (s.pc t).slot = some j → j = i :=
    fun at' j at'' => some.inj (at''.symm.trans at')
  generalize here : s.pc t = pos at next
  cases pos with
  | idle | blocked i => cases next
  | locking i =>
    obtain ⟨free, rfl⟩ := guarded.mp next
    exact h.move (fun _ => rfl) rfl (.inl rfl) (about (here ▸ rfl))
      (fun j at' => (some.inj at').symm) rfl rfl id ((h.sound i).acquire here free)
  | loading i =>
    have lock := (h.sound i).locked t (.inl here)
    have used := (h.sound i).ref_pos ((h.sound i).owner t lock)
    simp only at next
    split_ifs at next with valid type
    · cases next
      have none := (h.sound i).awake_of_lock lock (here ▸ nofun)
      refine h.move (i := i) (e := s.inode i) (fun j => ?_) rfl (.inl rfl) (about (here ▸ rfl))
        (fun j at' => absurd at' (some_ne_none j).symm) rfl rfl id ?_
      · by_cases same : j = i
        · rw [same, setEntry_self]
          rfl
        rw [setEntry_of_ne s same]
        rfl
      have loaded := (h.sound i).loaded here ((h.sound i).typed valid used none).1
        (.inl ⟨valid, rfl⟩)
      rw [← valid] at loaded
      exact loaded
    cases next
    exact h.move (fun _ => rfl) rfl (.inl rfl) (about (here ▸ rfl)) (fun j at' => absurd at'
      (some_ne_none j).symm) rfl rfl id ((h.sound i).loaded here type (.inr rfl))
  | allocated dev inum =>
    obtain ⟨s₁, got, rfl⟩ := map_eq_some_iff.mp next
    obtain ⟨h₁, pc, -⟩ := h.iget t got
    refine ⟨fun j => ?_, h₁.unique⟩
    refine (h₁.sound j).other ?_ (some_ne_none j).symm fun _ _ _ => rfl
    rw [pc, here]
    exact (some_ne_none j).symm
  | trunc i =>
    cases next
    have frees : (s.pc t).Frees i := .inl here
    have lock := (h.sound i).locked t (.inr frees)
    have used := (h.sound i).ref_pos ((h.sound i).owner t lock)
    have valid := ((h.sound i).freeing t frees).1
    have none := (h.sound i).awake_of_lock lock (here ▸ nofun)
    refine h.move (inode_iupdate s i _) rfl (.inr ⟨used, _, disk_iupdate s i _ rfl rfl⟩)
      (about (here ▸ rfl)) (fun j at' => (some.inj at').symm) rfl rfl id ?_
    refine (h.sound i).freeStored frees (fun _ => (h.sound i).unlinked t (.inl here)) (.inl rfl)
      (fun _ => ((h.sound i).typed valid used none).1) ?_
    exact disk_iupdate_self s i _ rfl rfl
  | erase i =>
    cases next
    have frees : (s.pc t).Frees i := .inr (.inl here)
    have lock := (h.sound i).locked t (.inr frees)
    have used := (h.sound i).ref_pos ((h.sound i).owner t lock)
    refine h.move (inode_iupdate s i _) rfl (.inr ⟨used, _, disk_iupdate s i _ rfl rfl⟩)
      (about (here ▸ rfl)) (fun j at' => (some.inj at').symm) rfl rfl id ?_
    refine (h.sound i).freeStored frees (fun eq => Pos.noConfusion eq) (.inr rfl)
      (fun eq => Pos.noConfusion eq) ?_
    exact disk_iupdate_self s i _ rfl rfl
  | unlock i =>
    cases next
    exact h.move (fun _ => rfl) rfl (.inl rfl) (about (here ▸ rfl))
      (fun j at' => (some.inj at').symm) rfl rfl id ((h.sound i).freeUnlock here)
  | drop i =>
    cases next
    exact h.move (fun _ => rfl) rfl (.inl rfl) (about (here ▸ rfl))
      (fun j at' => absurd at' (some_ne_none j).symm) rfl rfl
      (fun pos => lt_of_lt_of_le pos (Nat.sub_le _ _)) ((h.sound i).freeDrop here)

lemma Coherent.iput_unlocked {i : Slot} (h : Coherent s) (mem : t ∈ (s.inode i).holders)
    (keeps : (s.inode i).lock = some t → 2 ≤ (s.inode i).holders.count t)
    (last : (s.inode i).ref = 1) : (s.inode i).lock = none := by
  refine eq_none_iff_forall_ne_some.mpr fun u lock => ?_
  have count := (h.sound i).count
  rw [last] at count
  obtain ⟨r, only⟩ := length_eq_one_iff.mp count.symm
  have owner := (h.sound i).owner u lock
  rw [only, mem_singleton] at mem owner
  subst mem
  subst owner
  have twice := keeps lock
  rw [only, count_singleton_self] at twice
  exact absurd twice (by decide)

lemma Coherent.step (trunc : α → α) (zero : α) {a : Act τ α} (h : Coherent s)
    (next : step trunc zero s a = some s') : Coherent s' := by
  have still : ∀ {t : τ}, s.pc t = .idle → update s.pc t .idle = s.pc := by
    intro t idle
    rw [← idle, update_eq_self]
  have nowhere : ∀ {t : τ} {i : Slot}, s.pc t = .idle → ∀ j, (s.pc t).slot = some j → j = i := by
    intro t i idle j at'
    rw [idle] at at'
    exact absurd at' (some_ne_none j).symm
  have none : ∀ {i : Slot} j, Pos.slot .idle = some j → j = i :=
    fun j at' => absurd at' (some_ne_none j).symm
  cases a with
  | iget t dev inum =>
    obtain ⟨-, next⟩ := ite_none_right_eq_some.mp next
    exact (h.iget t next).1
  | idup t u i =>
    obtain ⟨⟨idle, mem⟩, rfl⟩ := guarded.mp next
    have used := (h.sound i).ref_pos mem
    exact h.move (fun _ => rfl) (still idle).symm (.inl rfl) (nowhere idle) none rfl rfl
      (fun _ => used) (by rw [still idle]; exact (h.sound i).addRef used u)
  | ilock t i =>
    obtain ⟨⟨idle, mem⟩, rfl⟩ := guarded.mp next
    refine h.move (i := i) (e := s.inode i) (fun j => ?_) rfl (.inl rfl) (nowhere idle)
      (fun j at' => (some.inj at').symm) rfl rfl id ((h.sound i).locking idle mem)
    by_cases same : j = i
    · rw [same, setEntry_self]
      rfl
    rw [setEntry_of_ne s same]
    rfl
  | change t i nlink body =>
    obtain ⟨⟨idle, lock⟩, rfl⟩ := guarded.mp next
    exact h.move (fun _ => rfl) (still idle).symm (.inl rfl) (nowhere idle) none rfl rfl id
      (by rw [still idle]; exact (h.sound i).change idle lock nlink body)
  | iupdate t i =>
    obtain ⟨⟨idle, lock⟩, rfl⟩ := guarded.mp next
    have used := (h.sound i).ref_pos ((h.sound i).owner t lock)
    refine h.move (i := i) (e := { s.inode i with dirty := false }) (fun _ => rfl)
      (still idle).symm (.inr ⟨used, (s.inode i).copy, rfl⟩) (nowhere idle) none rfl rfl id ?_
    rw [still idle]
    exact (h.sound i).stored idle lock (s.inode i).copy.body (setDisk_self _)
  | itrunc t i =>
    obtain ⟨⟨idle, lock⟩, rfl⟩ := guarded.mp next
    have used := (h.sound i).ref_pos ((h.sound i).owner t lock)
    refine h.move (inode_iupdate s i _) (still idle).symm
      (.inr ⟨used, _, disk_iupdate s i _ rfl rfl⟩) (nowhere idle) none rfl rfl id ?_
    rw [still idle]
    exact (h.sound i).stored idle lock _ (disk_iupdate_self s i _ rfl rfl)
  | iunlock t i =>
    obtain ⟨⟨idle, lock, clean⟩, rfl⟩ := guarded.mp next
    exact h.move (fun _ => rfl) (still idle).symm (.inl rfl) (nowhere idle) none rfl rfl id
      (by rw [still idle]; exact (h.sound i).iunlock idle lock clean)
  | iput t i =>
    obtain ⟨⟨idle, mem, keeps⟩, rfl⟩ := guarded.mp next
    rw [State.iput]
    split_ifs with last free
    · exact h.move (fun _ => rfl) rfl (.inl rfl) (nowhere idle) (fun j at' => (some.inj
        at').symm) rfl rfl id ((h.sound i).startFree mem free last.2.1 last.2.2)
    · exact absurd (h.iput_unlocked mem keeps last.1) free
    exact h.move (fun _ => rfl) (still idle).symm (.inl rfl) (nowhere idle) none rfl rfl
      (fun pos => lt_of_lt_of_le pos (Nat.sub_le _ _))
      (by rw [still idle]; exact (h.sound i).dropRef mem idle keeps)
  | ialloc t dev inum type =>
    obtain ⟨⟨idle, free, -⟩, rfl⟩ := guarded.mp next
    refine ⟨fun j => ?_, h.unique⟩
    refine (h.sound j).other (t := t) ?_ (some_ne_none j).symm fun used valid awake => ?_
    · rw [idle]
      exact (some_ne_none j).symm
    -- a valid entry of the inode would have its type
    refine setDisk_of_ne s fun clash => ?_
    have typed := (h.sound j).typed valid used awake
    rw [clash.1, clash.2, free] at typed
    exact typed.1 typed.2.symm
  | resume t => exact h.resume trunc next

omit [DecidableEq τ] in
lemma type_setDisk {dev' inum' : Nat} {d : Dinode α} (type : d.type ≠ .none) (before :
    (s.disk dev inum).type ≠ .none) : ((s.setDisk dev' inum' d).disk dev inum).type ≠ .none := by
  by_cases same : dev = dev' ∧ inum = inum'
  · obtain ⟨rfl, rfl⟩ := same
    rw [setDisk_self]
    exact type
  rw [setDisk_of_ne s same]
  exact before

omit [DecidableEq τ] in
lemma type_iupdate (i : Slot) (e : Entry τ α) (same : e.dev = (s.inode i).dev) (same' : e.inum =
    (s.inode i).inum) (type : e.copy.type ≠ .none) (before : (s.disk dev inum).type ≠ .none) :
    (((s.setEntry i e).iupdate i).disk dev inum).type ≠ .none := by
  rw [disk_iupdate s i e same same']
  exact type_setDisk type before

omit [DecidableEq τ] in
lemma disk_iget (t : τ) (next : s.iget t dev inum = some s') : s'.disk = s.disk := by
  rw [State.iget] at next
  cases found : s.findSlot dev inum with
  | some i =>
    rw [found] at next
    cases next
    rfl
  | none =>
    rw [found] at next
    obtain ⟨i, -, rfl⟩ := map_eq_some_iff.mp next
    rfl

/-- An inode becomes free on the disk only where `iput` clears the type of an inode without
links. -/
lemma Coherent.freed (trunc : α → α) (zero : α) {a : Act τ α} (h : Coherent s)
    (next : Itable.step trunc zero s a = some s') (before : (s.disk dev inum).type ≠ .none)
    (after : (s'.disk dev inum).type = .none) : ∃ t i, a = .resume t ∧ s.pc t = .erase i ∧
    (s.inode i).dev = dev ∧ (s.inode i).inum = inum ∧ (s.inode i).copy.nlink = 0 := by
  have kept : s'.disk = s.disk → False := fun eq => before (eq ▸ after)
  have holder : ∀ {t : τ} {i : Slot}, s.pc t = .idle → (s.inode i).lock = some t →
      (s.inode i).copy.type ≠ .none := by
    intro t i idle lock
    obtain ⟨valid, used, awake⟩ := (h.sound i).idle_holder idle lock
    exact ((h.sound i).typed valid used awake).1
  cases a with
  | iget t dev' inum' =>
    obtain ⟨-, next⟩ := ite_none_right_eq_some.mp next
    exact (kept (disk_iget t next)).elim
  | idup t u i | ilock t i | change t i nlink body | iunlock t i =>
    obtain ⟨-, rfl⟩ := guarded.mp next
    exact (kept rfl).elim
  | iupdate t i =>
    obtain ⟨⟨idle, lock⟩, rfl⟩ := guarded.mp next
    exact absurd after (type_setDisk (s := s) (holder idle lock) before)
  | itrunc t i =>
    obtain ⟨⟨idle, lock⟩, rfl⟩ := guarded.mp next
    exact absurd after (type_iupdate i _ rfl rfl (holder idle lock) before)
  | iput t i =>
    obtain ⟨-, rfl⟩ := guarded.mp next
    refine (kept ?_).elim
    rw [State.iput]
    split_ifs <;> rfl
  | ialloc t dev' inum' type =>
    obtain ⟨⟨-, -, type⟩, rfl⟩ := guarded.mp next
    exact absurd after (type_setDisk (s := s) type before)
  | resume t =>
    rw [Itable.step, State.resume] at next
    generalize here : s.pc t = pos at next
    cases pos with
    | idle | blocked i => cases next
    | locking i =>
      obtain ⟨-, rfl⟩ := guarded.mp next
      exact (kept rfl).elim
    | loading i =>
      simp only at next
      split_ifs at next
      · cases next
        exact (kept rfl).elim
      cases next
      exact (kept rfl).elim
    | allocated dev' inum' =>
      obtain ⟨s₁, got, rfl⟩ := map_eq_some_iff.mp next
      exact (kept ((goto_disk s₁).trans (disk_iget t got))).elim
    | trunc i =>
      cases next
      have frees : (s.pc t).Frees i := .inl here
      have lock := (h.sound i).locked t (.inr frees)
      have awake := (h.sound i).awake_of_lock lock (here ▸ nofun)
      have typed := (h.sound i).typed ((h.sound i).freeing t frees).1
        ((h.sound i).ref_pos ((h.sound i).owner t lock)) awake
      exact absurd after (type_iupdate i _ rfl rfl typed.1 before)
    | erase i =>
      cases next
      refine ⟨t, i, rfl, here, ?_⟩
      by_cases same : dev = (s.inode i).dev ∧ inum = (s.inode i).inum
      · exact ⟨same.1.symm, same.2.symm, (h.sound i).unlinked t (.inr here)⟩
      have eq := congrFun (congrFun (disk_iupdate s i { s.inode i with
        copy := { (s.inode i).copy with type := .none } } rfl rfl) dev) inum
      rw [setDisk_of_ne s same] at eq
      exact absurd (eq ▸ after) before
    | unlock i | drop i =>
      cases next
      exact (kept rfl).elim

omit [DecidableEq τ] in
lemma init_coherent (zero : α) (disk : Nat → Nat → Dinode α) :
    Coherent (init zero disk : State τ α) := by
  refine ⟨fun i => ⟨rfl, fun t lock => absurd lock (some_ne_none t).symm, fun t at' => absurd at'
    (some_ne_none i).symm, fun t at' => ?_, fun t at' => ?_, fun t at' => ?_, fun t at' => ?_, fun t
    at' => ?_, fun t lock => absurd lock (some_ne_none t).symm, fun _ => rfl, nofun, nofun⟩, fun i j
    used => absurd used (Nat.lt_irrefl 0)⟩
  · rcases at' with at' | at' | at' | at' <;> cases at'
  · cases at'
  · cases at'
  · rcases at' with at' | at' | at' <;> cases at'
  rcases at' with at' | at' <;> cases at'

end Table

/-- In every state of the inode table: an inode has one entry in use, `ref` counts the references,
a valid entry in use that nobody has locked equals the disk; an inode becomes free on the disk
exactly on the way of an `iput` that found its only reference to a valid entry without links, and
the `acquiresleep` of `iput` never sleeps. -/
theorem inode_table_is_coherent [DecidableEq τ] (trunc : α → α) (zero : α)
    {disk : Nat → Nat → Dinode α} {as : List (Act τ α)} {s : State τ α}
    (run : Run (step trunc zero) Free (init zero disk) as s) :
    (∀ i j, 0 < (s.inode i).ref → 0 < (s.inode j).ref → (s.inode i).dev = (s.inode j).dev →
      (s.inode i).inum = (s.inode j).inum → i = j) ∧
    (∀ i, (s.inode i).ref = (s.inode i).holders.length) ∧
    (∀ i, 0 < (s.inode i).ref → (s.inode i).lock = none → (s.inode i).valid = true →
      s.disk (s.inode i).dev (s.inode i).inum = (s.inode i).copy) ∧
    (∀ a s' dev inum, step trunc zero s a = some s' → (s.disk dev inum).type ≠ .none →
      (s'.disk dev inum).type = .none → ∃ t i, a = .resume t ∧ s.pc t = .erase i ∧
        (s.inode i).dev = dev ∧ (s.inode i).inum = inum ∧ (s.inode i).copy.nlink = 0) ∧
    (∀ t i s', step trunc zero s (.iput t i) = some s' →
      if (s.inode i).ref = 1 ∧ (s.inode i).valid = true ∧ (s.inode i).copy.nlink = 0 then
        s'.pc t = .trunc i ∧ (s'.inode i).lock = some t
      else s'.disk = s.disk ∧ (s'.inode i).ref = (s.inode i).ref - 1) ∧
    (∀ t i s', s.pc t = .trunc i → step trunc zero s (.resume t) = some s' →
      s'.pc t = .erase i) ∧
    (∀ t i s', s.pc t = .erase i → step trunc zero s (.resume t) = some s' →
      (s'.disk (s.inode i).dev (s.inode i).inum).type = .none) ∧
    ∀ t i, s.pc t ≠ .blocked i := by
  have h : Coherent s :=
    run.invariant (I := Coherent) (fun _ _ _ h _ next => h.step trunc zero next)
      (init_coherent zero disk)
  refine ⟨h.unique, fun i => (h.sound i).count, fun i used unlocked valid => ?_,
    fun a s' dev inum next before after => h.freed trunc zero next before after,
    fun t i s' next => ?_, fun t i s' here next => ?_, fun t i s' here next => ?_,
    fun t i => (h.sound i).awake t⟩
  · refine (h.sound i).same valid used (fun t at' => ?_) ((h.sound i).clean unlocked)
    have lock := (h.sound i).locked t (.inr (.inr (.inr at')))
    exact some_ne_none t (lock.symm.trans unlocked)
  · obtain ⟨⟨-, mem, keeps⟩, rfl⟩ := guarded.mp next
    rw [State.iput]
    split_ifs with last free
    · exact ⟨update_self .., congrArg Entry.lock (setEntry_self s)⟩
    · exact absurd (h.iput_unlocked mem keeps last.1) free
    · exact ⟨rfl, congrArg Entry.ref (setEntry_self s)⟩
  · rw [step, State.resume, here] at next
    cases next
    exact update_self ..
  rw [step, State.resume, here] at next
  cases next
  exact congrArg Dinode.type (disk_iupdate_self s i
    { s.inode i with copy := { (s.inode i).copy with type := .none } } rfl rfl)

def oneFile : Nat → Nat → Dinode Nat := fun _ inum =>
  if inum = 5 then ⟨.file, 1, 7⟩ else ⟨.none, 0, 0⟩

def unlinkAndPut : List (Act Nat Nat) :=
  [.iget 0 1 5, .ilock 0 0, .resume 0, .resume 0, .change 0 0 0 7, .iupdate 0 0, .iunlock 0 0,
    .iput 0 0, .resume 0, .resume 0]

theorem unlinked_inode_is_freed :
    ∃ s : State Nat Nat, Run (step id 0) Free (init 0 oneFile) unlinkAndPut s ∧
      s.pc 0 = .unlock 0 ∧ (s.disk 1 5).type = .none ∧
      (s.inode 0).ref = (s.inode 0).holders.length ∧ ∀ t i, s.pc t ≠ .blocked i := by
  refine Run.exists_with (P := fun s => s.pc 0 = .unlock 0 ∧ (s.disk 1 5).type = .none)
    (by decide +kernel) fun s run ⟨here, type⟩ => ?_
  obtain ⟨-, count, -, -, -, -, -, awake⟩ := inode_table_is_coherent id 0 run
  exact ⟨here, type, count 0, awake⟩

/-- An inode from `ialloc` is put before it was locked: its only reference is gone and it has no
links, but `iput` does not look at an entry that is not valid, and the inode stays allocated. An
entry whose references are gone can still be valid, with a copy older than the inode on disk. -/
theorem allocated_inode_is_not_freed :
    (∃ s : State Nat Nat, Run (step id 0) Free (init 0 oneFile)
        [.ialloc 0 1 6 .file, .resume 0, .iput 0 0] s ∧
      (s.inode 0).dev = 1 ∧ (s.inode 0).inum = 6 ∧ (s.inode 0).ref = 0 ∧
      (s.disk 1 6).nlink = 0 ∧ (s.disk 1 6).type = .file ∧ s.pc 0 = .idle) ∧
    ∃ s : State Nat Nat, Run (step id 0) Free (init 0 oneFile)
        [.iget 0 1 6, .iget 0 1 5, .ilock 0 1, .resume 0, .resume 0, .iunlock 0 1, .iput 0 1,
          .iput 0 0, .iget 0 1 5, .ilock 0 0, .resume 0, .resume 0, .change 0 0 2 7,
          .iupdate 0 0] s ∧
      (s.inode 1).dev = 1 ∧ (s.inode 1).inum = 5 ∧ (s.inode 1).ref = 0 ∧
      (s.inode 1).valid = true ∧ (s.inode 1).copy.nlink ≠ (s.disk 1 5).nlink :=
  ⟨Run.exists_of_execute (by decide +kernel), Run.exists_of_execute (by decide +kernel)⟩

end Xv6.Itable
