import Xv6.Bcache

/-! Coherence of the buffer cache: the references to a buffer are counted, each block has one
buffer, and a valid buffer holds the last contents that its block was given. -/
namespace Xv6.Bcache
open Interleaving List Option State
open Function (update update_self update_of_ne forall_update_iff)

variable {τ α : Type} [DecidableEq τ] {d : Nat} {disk : Nat → α} {s s' : State τ α} {b : BufId}
  {t : τ}

/-- The references to `b` that a thread owes to its position. -/
def Pos.refs (b : BufId) : Pos → Nat
  | .acquire c _ _ => if c = b then 1 else 0
  | .release c => if c = b then 1 else 0
  | _ => 0

def Pos.buf : Pos → Option BufId
  | .idle => none
  | .acquire b _ _ => some b
  | .load b _ _ => some b
  | .release b => some b

def Buf.heldBy (v : Buf τ α) (t : τ) : Nat := if v.lock = some t then 1 else 0

structure Used (d : Nat) (pc : τ → Pos) (b : BufId) (v : Buf τ α) : Prop where
  count : v.refcnt = v.pins + v.users.length
  refs : ∀ t, (pc t).refs b + v.heldBy t ≤ v.users.count t
  loading : ∀ t dev bn, pc t = .load b dev bn → v.lock = some t
  wanted : ∀ t dev bn, pc t = .acquire b dev bn ∨ pc t = .load b dev bn →
    dev = d ∧ v.blockno = bn
  inUse : 0 < v.refcnt → v.dev = d
  held : ∀ t, v.lock = some t → v.valid = true ∨ ∃ dev bn, pc t = .load b dev bn
  unsaved : v.dirty = true → v.valid = true ∧ (v.lock ≠ none ∨ 0 < v.pins)

def State.current (s : State τ α) (d : Nat) (disk : Nat → α) (bn : Nat) : α :=
  (s.given d bn).getD (disk bn)

/-- The cached copies against the disk and the contents given by the holders. -/
structure Contents (d : Nat) (disk : Nat → α) (s : State τ α) : Prop where
  device : ∀ b, (s.buf b).dev = 0 ∨ (s.buf b).dev = d
  valid : ∀ b, (s.buf b).valid = true → (s.buf b).dev = d
  fresh : ∀ b, (s.buf b).valid = true → (s.buf b).data = s.current d disk (s.buf b).blockno
  clean : ∀ b, (s.buf b).valid = true → (s.buf b).dirty = false →
    s.disk (s.buf b).blockno = (s.buf b).data
  stored : ∀ bn, (∀ b, (s.buf b).valid = true → (s.buf b).blockno ≠ bn) →
    s.disk bn = s.current d disk bn

/-- The list is well formed, and a block has one buffer, whatever the devices are. -/
structure Shape (s : State τ α) : Prop where
  linked : WellLinked s.link
  unique : ∀ b c, (s.buf b).dev ≠ 0 → (s.buf b).dev = (s.buf c).dev →
    (s.buf b).blockno = (s.buf c).blockno → b = c

structure Coherent (d : Nat) (disk : Nat → α) (s : State τ α) : Prop where
  nonzero : d ≠ 0
  shape : Shape s
  used : ∀ b, Used d s.pc b (s.buf b)
  contents : Contents d disk s

variable {bn : Nat}

section
variable {pc : τ → Pos} {v : Buf τ α} {p : Pos}

lemma Used.refcnt_pos_of_lock (u : Used d pc b v) (lock : v.lock = some t) : 0 < v.refcnt := by
  have refs := u.refs t
  rw [Buf.heldBy, if_pos lock] at refs
  have some := count_le_length (a := t) (l := v.users)
  rw [u.count]
  omega

lemma Used.refs_eq_zero (u : Used d pc b v) (free : v.refcnt = 0) (t : τ) :
    (pc t).refs b = 0 ∧ v.lock ≠ some t := by
  have refs := u.refs t
  have some := count_le_length (a := t) (l := v.users)
  have count := u.count
  refine ⟨by omega, fun lock => ?_⟩
  exact absurd (u.refcnt_pos_of_lock lock) (by omega)

lemma Used.valid_of_idle (u : Used d pc b v) (idle : pc t = .idle) (lock : v.lock = some t) :
    v.valid = true := by
  rcases u.held t lock with valid | ⟨dev, bn, here⟩
  · exact valid
  rw [idle] at here
  cases here

lemma Used.heldBy_le (u : Used d pc b v) (t : τ) : v.heldBy t ≤ v.users.count t :=
  le_trans (Nat.le_add_left ..) (u.refs t)

structure Uses (d : Nat) (b : BufId) (v : Buf τ α) (t : τ) (p : Pos) : Prop where
  refs : p.refs b + v.heldBy t ≤ v.users.count t
  loading : ∀ dev bn, p = .load b dev bn → v.lock = some t
  wanted : ∀ dev bn, p = .acquire b dev bn ∨ p = .load b dev bn → dev = d ∧ v.blockno = bn
  held : v.lock = some t → v.valid = true ∨ ∃ dev bn, p = .load b dev bn

lemma Used.uses (u : Used d pc b v) (t : τ) : Uses d b v t (pc t) :=
  ⟨u.refs t, u.loading t, u.wanted t, u.held t⟩

lemma Used.of_uses (count : v.refcnt = v.pins + v.users.length) (inUse : 0 < v.refcnt → v.dev = d)
    (unsaved : v.dirty = true → v.valid = true ∧ (v.lock ≠ none ∨ 0 < v.pins)) (mine :
    Uses d b v t p) (others : ∀ r, r ≠ t → Uses d b v r (pc r)) : Used d (update pc t p) b v := by
  have all := (forall_update_iff pc fun r p => Uses d b v r p).mpr ⟨mine, others⟩
  exact ⟨count, fun r => (all r).refs, fun r => (all r).loading, fun r => (all r).wanted, inUse,
    fun r => (all r).held, unsaved⟩

lemma Uses.away (refs : v.heldBy t ≤ v.users.count t) (held : v.lock = some t → v.valid = true)
    (after : p.buf ≠ some b) : Uses d b v t p := by
  have none : p.refs b = 0 := by
    cases p with
    | idle | load => rfl
    | acquire c | release c => exact if_neg fun eq => after (congrArg some eq)
  refine ⟨by rwa [none, Nat.zero_add], fun dev bn here => absurd (congrArg Pos.buf here) after,
    fun dev bn here => ?_, fun lock => .inl (held lock)⟩
  rcases here with here | here <;> exact absurd (congrArg Pos.buf here) after

lemma Used.goto_other (u : Used d pc b v) (before : (pc t).buf ≠ some b)
    (after : p.buf ≠ some b) : Used d (update pc t p) b v := by
  have held (lock : v.lock = some t) : v.valid = true :=
    (u.held t lock).resolve_right fun ⟨_, _, here⟩ => before (congrArg Pos.buf here)
  exact .of_uses u.count u.inUse u.unsaved (.away (u.heldBy_le t) held after) fun r _ => u.uses r

lemma Used.addUser (u : Used d pc b v) (idle : pc t = .idle) (fits : v.refcnt + 1 < 2 ^ 32)
    (device : v.dev = d) : Used d (update pc t (.acquire b d v.blockno)) b (v.addUser t) := by
  have count := u.count
  have mine := u.heldBy_le t
  refine .of_uses ?_ (fun _ => device) u.unsaved ⟨?_, nofun, ?_, fun lock => .inl (u.valid_of_idle
    idle lock)⟩ fun r ne => { u.uses r with refs := ?_ }
  · rw [Buf.addUser_refcnt, incr_of_lt fits, Buf.addUser_users, length_cons,
      Buf.addUser_pins, count]
    omega
  · rw [Buf.addUser_users, count_cons_self, Pos.refs, if_pos rfl]
    change 1 + v.heldBy t ≤ _
    omega
  · rintro _ _ (here | here) <;> cases here
    exact ⟨rfl, rfl⟩
  exact le_trans (u.refs r) (count_le_count_cons ..)

lemma Used.recycle (u : Used d pc b v) (t : τ) (free : v.refcnt = 0) (bn : Nat) :
    Used d (update pc t (.acquire b d bn)) b (v.recycle t d bn) := by
  have count := u.count
  have unlocked : ∀ r, v.lock ≠ some r := fun r => (u.refs_eq_zero free r).2
  have released (r : τ) : (v.recycle t d bn).heldBy r = 0 := if_neg (unlocked r)
  have pins : v.pins = 0 := by omega
  refine .of_uses (by simp [pins]) (fun _ => rfl) (fun dirty => ?_) ⟨?_, nofun, ?_, fun lock =>
    absurd lock (unlocked t)⟩ fun r _ => ⟨?_, fun dev bn' here => absurd (u.loading r dev bn' here)
    (unlocked r), fun dev bn' here => ?_, fun lock => absurd lock (unlocked r)⟩
  · rcases (u.unsaved dirty).2 with lock | pinned
    · obtain ⟨r, lock⟩ := ne_none_iff_exists'.mp lock
      exact absurd lock (unlocked r)
    omega
  · simp [released, Pos.refs]
  · rintro _ _ (here | here) <;> cases here
    exact ⟨rfl, rfl⟩
  · rw [released, (u.refs_eq_zero free r).1]
    exact Nat.zero_le _
  rcases here with here | here
  · have refs := (u.refs_eq_zero free r).1
    rw [here] at refs
    simp [Pos.refs] at refs
  exact absurd (u.loading r dev bn' here) (unlocked r)

lemma Used.acquire {dev : Nat} (u : Used d pc b v) (here : pc t = .acquire b dev bn)
    (free : v.lock = none) : Used d (update pc t (.load b dev bn)) b { v with lock := some t } := by
  refine .of_uses u.count u.inUse (fun dirty => ⟨(u.unsaved dirty).1, .inl (some_ne_none _)⟩) ⟨?_,
    fun _ _ _ => rfl, ?_, fun _ => .inr ⟨dev, bn, rfl⟩⟩ fun r ne => ⟨?_, fun dev' bn' at' =>
    (nomatch free.symm.trans (u.loading r dev' bn' at')), u.wanted r, fun lock => absurd
    (some.inj lock).symm ne⟩
  · have refs := u.refs t
    rw [here] at refs
    simpa [Buf.heldBy, free, Pos.refs] using refs
  · rintro _ _ (at' | at') <;> cases at'
    exact u.wanted t dev bn (.inl here)
  have refs := u.refs r
  simp only [Buf.heldBy, free] at refs ⊢
  rw [if_neg fun eq => ne (some.inj eq).symm]
  simpa using refs

lemma Used.loaded {x : α} (u : Used d pc b v) (t : τ) :
    Used d (update pc t .idle) b { v with data := x, valid := true } :=
  .of_uses u.count u.inUse (fun dirty => ⟨rfl, (u.unsaved dirty).2⟩)
    (.away (u.heldBy_le t) (fun _ => rfl) nofun)
    fun r _ => { u.uses r with held := fun _ => .inl rfl }

lemma Used.pin (u : Used d pc b v) (fits : v.refcnt + 1 < 2 ^ 32) (lock : v.lock = some t) :
    Used d pc b { v with refcnt := incr v.refcnt, pins := v.pins + 1 } := by
  have count := u.count
  refine ⟨?_, u.refs, u.loading, u.wanted, fun _ => u.inUse (u.refcnt_pos_of_lock lock), u.held,
    fun dirty => ⟨(u.unsaved dirty).1, .inr (Nat.succ_pos _)⟩⟩
  change incr v.refcnt = v.pins + 1 + v.users.length
  rw [incr_of_lt fits]
  omega

lemma Used.unpin (u : Used d pc b v) (pinned : 0 < v.pins) (clean : v.dirty = false) :
    Used d pc b { v with refcnt := decr v.refcnt, pins := v.pins - 1 } := by
  have count := u.count
  have pos : 0 < v.refcnt := by omega
  refine ⟨?_, u.refs, u.loading, u.wanted, fun _ => u.inUse pos, u.held, fun dirty => ?_⟩
  · change decr v.refcnt = v.pins - 1 + v.users.length
    rw [decr_of_pos pos]
    omega
  exact absurd dirty (by simp [clean])

lemma Used.release (u : Used d pc b v) (idle : pc t = .idle) (lock : v.lock = some t) (saved :
    v.dirty = true → 0 < v.pins) : Used d (update pc t (.release b)) b { v with lock := none } := by
  refine .of_uses u.count u.inUse (fun dirty => ⟨(u.unsaved dirty).1, .inr (saved dirty)⟩) ⟨?_,
    nofun, nofun, nofun⟩ fun r ne => ⟨le_trans (by simp [Buf.heldBy]) (u.refs r), fun dev bn at'
    => ?_, u.wanted r, nofun⟩
  · have refs := u.refs t
    rw [idle] at refs
    simpa [Buf.heldBy, lock, Pos.refs] using refs
  have holder := u.loading r dev bn at'
  rw [lock] at holder
  exact absurd (some.inj holder).symm ne

lemma Used.dropUser (u : Used d pc b v) (here : pc t = .release b) :
    Used d (update pc t .idle) b (v.dropUser t) := by
  have mine := u.refs t
  rw [here] at mine
  simp only [Pos.refs, if_true] at mine
  have mem : t ∈ v.users := count_pos_iff.mp (by omega)
  have nonempty := length_pos_of_mem mem
  have count := u.count
  have pos : 0 < v.refcnt := by omega
  have held (lock : v.lock = some t) : v.valid = true :=
    (u.held t lock).resolve_right fun ⟨_, _, at'⟩ => nomatch here.symm.trans at'
  refine .of_uses ?_ (fun _ => u.inUse pos) u.unsaved (.away ?_ held nofun)
    fun r ne => { u.uses r with refs := ?_ }
  · rw [Buf.dropUser_refcnt, decr_of_pos pos, Buf.dropUser_users, length_erase_of_mem mem,
      Buf.dropUser_pins]
    omega
  · rw [Buf.dropUser_users, count_erase_self]
    change v.heldBy t ≤ _
    omega
  rw [Buf.dropUser_users, count_erase_of_ne ne]
  exact u.refs r

end

section
omit [DecidableEq τ]

lemma Contents.congr (c : Contents d disk s) (disk_eq : s'.disk = s.disk)
    (given_eq : s'.given = s.given) (buf_eq : ∀ b, (s'.buf b).valid = (s.buf b).valid ∧
    (s'.buf b).dev = (s.buf b).dev ∧ (s'.buf b).blockno = (s.buf b).blockno ∧ (s'.buf b).data =
    (s.buf b).data ∧ (s'.buf b).dirty = (s.buf b).dirty) : Contents d disk s' := by
  have current : s'.current d disk = s.current d disk := by
    funext bn
    rw [current, given_eq, current]
  refine ⟨fun b => ?_, fun b => ?_, fun b => ?_, fun b => ?_, fun bn => ?_⟩
  · rw [(buf_eq b).2.1]
    exact c.device b
  · rw [(buf_eq b).1, (buf_eq b).2.1]
    exact c.valid b
  · rw [(buf_eq b).1, (buf_eq b).2.2.1, (buf_eq b).2.2.2.1, current]
    exact c.fresh b
  · rw [(buf_eq b).1, (buf_eq b).2.2.1, (buf_eq b).2.2.2.1, (buf_eq b).2.2.2.2, disk_eq]
    exact c.clean b
  intro absent
  rw [disk_eq, current]
  refine c.stored bn fun b valid => ?_
  rw [← (buf_eq b).2.2.1]
  exact absent b ((buf_eq b).1.trans valid)

variable {v : Buf τ α}

lemma State.forall_setBuf {P : BufId → Buf τ α → Prop} (here : P b v)
    (others : ∀ c, c ≠ b → P c (s.buf c)) (c : BufId) : P c ((s.setBuf b v).buf c) :=
  (forall_update_iff s.buf P).mpr ⟨here, others⟩ c

lemma Contents.setBuf (c : Contents d disk s) (valid : v.valid = (s.buf b).valid) (dev : v.dev =
    (s.buf b).dev) (blockno : v.blockno = (s.buf b).blockno) (data : v.data = (s.buf b).data)
    (dirty : v.dirty = (s.buf b).dirty) : Contents d disk (s.setBuf b v) :=
  c.congr rfl rfl (forall_setBuf (P := fun i v => v.valid = (s.buf i).valid ∧
    v.dev = (s.buf i).dev ∧ v.blockno = (s.buf i).blockno ∧ v.data = (s.buf i).data ∧
    v.dirty = (s.buf i).dirty) ⟨valid, dev, blockno, data, dirty⟩
    fun _ _ => ⟨rfl, rfl, rfl, rfl, rfl⟩)

section
variable {v : Buf τ α}

lemma block_setBuf (dev : v.dev = (s.buf b).dev) (blockno : v.blockno = (s.buf b).blockno)
    (i : BufId) : ((s.setBuf b v).buf i).dev = (s.buf i).dev ∧
    ((s.setBuf b v).buf i).blockno = (s.buf i).blockno :=
  forall_setBuf (P := fun i v => v.dev = (s.buf i).dev ∧ v.blockno = (s.buf i).blockno)
    ⟨dev, blockno⟩ (fun _ _ => ⟨rfl, rfl⟩) i

lemma absent_of_setBuf (none : ∀ i, ((s.setBuf b v).buf i).valid = true →
      ((s.setBuf b v).buf i).blockno ≠ bn) (valid : v.valid = true)
    (blockno : v.blockno = (s.buf b).blockno) : bn ≠ (s.buf b).blockno ∧
    ∀ i, (s.buf i).valid = true → (s.buf i).blockno ≠ bn := by
  have here := none b
  rw [setBuf_self, blockno] at here
  refine ⟨(here valid).symm, fun i valid' => ?_⟩
  by_cases same : i = b
  · rw [same]
    exact here valid
  have other := none i
  rw [setBuf_of_ne same] at other
  exact other valid'

end

structure Copy (d : Nat) (disk current : Nat → α) (v : Buf τ α) : Prop where
  device : v.dev = 0 ∨ v.dev = d
  valid : v.valid = true → v.dev = d
  fresh : v.valid = true → v.data = current v.blockno
  clean : v.valid = true → v.dirty = false → disk v.blockno = v.data

lemma Contents.copy (c : Contents d disk s) (b : BufId) :
    Copy d s.disk (s.current d disk) (s.buf b) := ⟨c.device b, c.valid b, c.fresh b, c.clean b⟩

lemma Contents.of_copies (buf : s'.buf = update s.buf b v)
    (here : Copy d s'.disk (s'.current d disk) v)
    (others : ∀ i, i ≠ b → Copy d s'.disk (s'.current d disk) (s.buf i))
    (stored : ∀ bn, (∀ i, (s'.buf i).valid = true → (s'.buf i).blockno ≠ bn) →
    s'.disk bn = s'.current d disk bn) : Contents d disk s' := by
  have all : ∀ i, Copy d s'.disk (s'.current d disk) (s'.buf i) := by
    rw [buf]
    exact (forall_update_iff s.buf fun _ => Copy d s'.disk (s'.current d disk)).mpr ⟨here, others⟩
  exact ⟨fun i => (all i).device, fun i => (all i).valid, fun i => (all i).fresh,
    fun i => (all i).clean, stored⟩

lemma Contents.recycle (c : Contents d disk s) (clean : (s.buf b).dirty = false) :
    Contents d disk (s.setBuf b ((s.buf b).recycle t d bn)) := by
  refine .of_copies rfl ⟨.inr rfl, nofun, nofun, nofun⟩ (fun i _ => c.copy i) fun bn' none => ?_
  -- the block that the buffer held is up to date on the disk
  by_cases old : (s.buf b).valid = true ∧ (s.buf b).blockno = bn'
  · obtain ⟨valid, rfl⟩ := old
    exact (c.clean b valid clean).trans (c.fresh b valid)
  refine c.stored bn' fun b' valid eq => ?_
  by_cases same : b' = b
  · subst same
    exact old ⟨valid, eq⟩
  have other := none b'
  rw [setBuf_of_ne same] at other
  exact other valid eq

lemma State.current_give {x : α} :
    (s.give d bn x).current d disk = update (s.current d disk) bn x := by
  funext bn'
  rw [current, give_given, update_self]
  by_cases same : bn' = bn
  · rw [same, update_self, update_self]
    rfl
  rw [update_of_ne same, update_of_ne same]
  rfl

section
variable (c : Contents d disk s) (only : ∀ i, (s.buf i).valid = true →
  (s.buf i).blockno = (s.buf b).blockno → i = b)
include c only

lemma Contents.loaded
    (invalid : (s.buf b).valid = false) (dev : (s.buf b).dev = d) : Contents d disk
    (s.setBuf b { s.buf b with data := s.disk (s.buf b).blockno, valid := true }) := by
  have current : s.disk (s.buf b).blockno = s.current d disk (s.buf b).blockno := by
    refine c.stored _ fun b' valid eq => ?_
    rw [only b' valid eq, invalid] at valid
    cases valid
  refine .of_copies rfl ⟨.inr dev, fun _ => dev, fun _ => current, fun _ _ => rfl⟩
    (fun i _ => c.copy i) fun bn' none => ?_
  refine c.stored bn' fun b' valid eq => ?_
  have same : b' ≠ b := by
    rintro rfl
    exact nomatch invalid.symm.trans valid
  have other := none b'
  rw [setBuf_of_ne same] at other
  exact other valid eq

lemma Contents.update (valid : (s.buf b).valid = true) (x : α) :
    Contents d disk ((s.setBuf b { s.buf b with data := x, dirty := true }).give
      (s.buf b).dev (s.buf b).blockno x) := by
  have dev := c.valid b valid
  rw [dev]
  refine .of_copies rfl ⟨.inr dev, fun _ => dev, fun _ => ?_, nofun⟩ (fun i other =>
    { c.copy i with fresh := fun here => ?_ }) fun bn' none => ?_
  · rw [current_give, update_self]
  · -- another valid buffer is for another block
    rw [current_give, update_of_ne fun eq => other (only i here eq)]
    exact c.fresh i here
  obtain ⟨ne, absent⟩ := absent_of_setBuf none valid rfl
  rw [current_give, update_of_ne ne]
  exact c.stored bn' absent

lemma Contents.write (valid : (s.buf b).valid = true) :
    Contents d disk ((s.setBuf b { s.buf b with dirty := false }).store
      (s.buf b).blockno (s.buf b).data) := by
  have dev := c.valid b valid
  refine .of_copies rfl ⟨.inr dev, fun _ => dev, c.fresh b, fun _ _ => update_self ..⟩ (fun i other
    => { c.copy i with clean := fun here => ?_ }) fun bn' none => ?_
  · rw [store_disk, update_of_ne fun eq => other (only i here eq)]
    exact c.clean i here
  obtain ⟨ne, absent⟩ := absent_of_setBuf none valid rfl
  rw [store_disk, update_of_ne ne]
  exact c.stored bn' absent

end
end

/-- What a step does to the list and to the blocks of the buffers: at most one buffer, without
references, gets a block that is not cached. -/
lemma step_blocks {a : Act τ α} (linked : WellLinked s.link) (next : step s a = some s') :
    WellLinked s'.link ∧ ((∀ b, (s'.buf b).dev = (s.buf b).dev ∧
        (s'.buf b).blockno = (s.buf b).blockno) ∨
      ∃ c, (s.buf c).refcnt = 0 ∧ s.cached (s'.buf c).dev (s'.buf c).blockno = none ∧
        ∀ b, b ≠ c → s'.buf b = s.buf b) := by
  cases a with
  | bget t dev bn =>
    obtain ⟨-, next⟩ := ite_none_right_eq_some.mp next
    rw [bget] at next
    cases found : s.cached dev bn with
    | some c =>
      rw [found] at next
      cases next
      exact ⟨linked, .inl (block_setBuf rfl rfl)⟩
    | none =>
      rw [found] at next
      obtain ⟨c, unused, rfl⟩ := map_eq_some_iff.mp next
      refine ⟨linked, .inr ⟨c, unused_some linked unused, ?_, fun b other => setBuf_of_ne other⟩⟩
      rw [goto_buf, setBuf_self]
      exact found
  | acquire t =>
    rw [step] at next
    cases here : s.pc t with
    | acquire c dev bn =>
      rw [here] at next
      obtain ⟨-, rfl⟩ := guarded.mp next
      exact ⟨linked, .inl (block_setBuf rfl rfl)⟩
    | idle | load c dev bn | release c =>
      rw [here] at next
      cases next
  | load t =>
    rw [step] at next
    cases here : s.pc t with
    | load c dev bn =>
      rw [here] at next
      cases next
      rw [State.load]
      split_ifs
      · exact ⟨linked, .inl fun _ => ⟨rfl, rfl⟩⟩
      · exact ⟨linked, .inl (block_setBuf rfl rfl)⟩
    | idle | acquire c dev bn | release c =>
      rw [here] at next
      cases next
  | update t c x | bwrite t c | bpin t c | bunpin t c | brelse t c =>
    obtain ⟨-, rfl⟩ := guarded.mp next
    exact ⟨linked, .inl (block_setBuf rfl rfl)⟩
  | drop t =>
    rw [step] at next
    cases here : s.pc t with
    | release c =>
      rw [here] at next
      cases next
      rw [State.drop]
      split_ifs
      · exact ⟨linked.toFront c, .inl (block_setBuf rfl rfl)⟩
      · exact ⟨linked, .inl (block_setBuf rfl rfl)⟩
    | idle | acquire c dev bn | load c dev bn =>
      rw [here] at next
      cases next

lemma Shape.step {a : Act τ α} (h : Shape s) (next : step s a = some s') : Shape s' := by
  obtain ⟨linked, same | ⟨c, -, absent, others⟩⟩ := step_blocks h.linked next
  · refine ⟨linked, fun b b' => ?_⟩
    rw [(same b).1, (same b').1, (same b).2, (same b').2]
    exact h.unique b b'
  · have new : ∀ b, b ≠ c → (s'.buf b).dev = (s'.buf c).dev →
        (s'.buf b).blockno ≠ (s'.buf c).blockno := by
      intro b other dev
      rw [others b other] at dev ⊢
      exact cached_none h.linked absent b dev
    refine ⟨linked, fun b b' some dev block => ?_⟩
    by_cases first : b = c <;> by_cases second : b' = c
    · exact first.trans second.symm
    · exact absurd (first ▸ block.symm) (new b' second (first ▸ dev.symm))
    · exact absurd (second ▸ block) (new b first (second ▸ dev))
    · rw [others b first, others b' second] at *
      exact h.unique b b' some dev block

lemma keeps_block {a : Act τ α} (linked : WellLinked s.link)
    (next : step s a = some s') (inUse : 0 < (s.buf b).refcnt) :
    (s'.buf b).dev = (s.buf b).dev ∧ (s'.buf b).blockno = (s.buf b).blockno := by
  obtain ⟨-, same | ⟨c, free, -, others⟩⟩ := step_blocks linked next
  · exact same b
  · rw [others b fun eq => (eq ▸ inUse).ne' free]
    exact ⟨rfl, rfl⟩

lemma Coherent.only (h : Coherent d disk s) (dev : (s.buf b).dev = d) (i : BufId)
    (valid : (s.buf i).valid = true) (block : (s.buf i).blockno = (s.buf b).blockno) : i = b := by
  have own := h.contents.valid i valid
  exact h.shape.unique i b (own.trans_ne h.nonzero) (own.trans dev.symm) block

section
/-- A step that changes one buffer and the position of one thread, about this buffer before and
after. -/
lemma used_of_set {v : Buf τ α} {p : Pos} (u : ∀ b, Used d s.pc b (s.buf b))
    (buf : ∀ c, s'.buf c = (s.setBuf b v).buf c) (pc : s'.pc = update s.pc t p)
    (before : ∀ c, (s.pc t).buf = some c → c = b) (after : ∀ c, p.buf = some c → c = b)
    (here : Used d (update s.pc t p) b v) (c : BufId) : Used d s'.pc c (s'.buf c) := by
  rw [buf, pc]
  exact forall_setBuf here (fun c other => (u c).goto_other
    (fun eq => other (before c eq)) fun eq => other (after c eq)) c

lemma Coherent.bget (h : Coherent d disk s) (shape : Shape s') (idle : s.pc t = .idle)
    (fits : (s.cached d bn).all fun b => (s.buf b).refcnt + 1 < 2 ^ 32)
    (next : s.bget t d bn = some s') : Coherent d disk s' := by
  have nowhere : ∀ b c : BufId, (s.pc t).buf = some c → c = b := by
    intro b c at'
    rw [idle] at at'
    cases at'
  rw [State.bget] at next
  cases found : s.cached d bn with
  | some b =>
    rw [found] at next fits
    cases next
    obtain ⟨dev, rfl⟩ := cached_some h.shape.linked found
    refine ⟨h.nonzero, shape, used_of_set h.used (fun _ => rfl) rfl (nowhere b)
      (fun c eq => (some.inj eq).symm) ?_, ?_⟩
    · exact (h.used b).addUser idle (by simpa using fits) dev
    exact (h.contents.setBuf (v := (s.buf b).addUser t) rfl rfl rfl rfl rfl).congr rfl rfl
      fun _ => ⟨rfl, rfl, rfl, rfl, rfl⟩
  | none =>
    rw [found] at next
    obtain ⟨b, unused, rfl⟩ := map_eq_some_iff.mp next
    have free := unused_some h.shape.linked unused
    have clean : (s.buf b).dirty = false := by
      refine Bool.eq_false_iff.mpr fun dirty => ?_
      rcases ((h.used b).unsaved dirty).2 with lock | pinned
      · obtain ⟨r, lock⟩ := ne_none_iff_exists'.mp lock
        exact ((h.used b).refs_eq_zero free r).2 lock
      have count := (h.used b).count
      omega
    refine ⟨h.nonzero, shape, used_of_set h.used (fun _ => rfl) rfl (nowhere b)
      (fun c eq => (some.inj eq).symm) ((h.used b).recycle t free bn), ?_⟩
    exact (h.contents.recycle (t := t) clean).congr rfl rfl
      fun _ => ⟨rfl, rfl, rfl, rfl, rfl⟩

lemma Coherent.load {dev : Nat} (h : Coherent d disk s)
    (shape : Shape ((s.load b).goto t .idle)) (here : s.pc t = .load b dev bn) :
    Coherent d disk ((s.load b).goto t .idle) := by
  have about : ∀ c, (s.pc t).buf = some c → c = b := by
    intro c at'
    rw [here] at at'
    exact (some.inj at').symm
  have lock := (h.used b).loading t dev bn here
  have own := (h.used b).inUse ((h.used b).refcnt_pos_of_lock lock)
  rw [State.load] at shape ⊢
  split_ifs at shape ⊢ with valid
  · refine ⟨h.nonzero, shape, used_of_set (v := s.buf b) h.used (fun c => ?_) rfl about (fun c eq => absurd
      eq (some_ne_none c).symm) ?_, h.contents.congr rfl rfl fun _ => ⟨rfl, rfl, rfl, rfl, rfl⟩⟩
    · by_cases same : c = b
      · rw [same, setBuf_self]
        rfl
      rw [setBuf_of_ne same]
      rfl
    have loaded := (h.used b).loaded (x := (s.buf b).data) t
    rw [← valid] at loaded
    exact loaded
  refine ⟨h.nonzero, shape, used_of_set h.used (fun _ => rfl) rfl about
    (fun c eq => absurd eq (some_ne_none c).symm) ((h.used b).loaded t), ?_⟩
  exact (h.contents.loaded (h.only own) (Bool.eq_false_iff.mpr valid) own).congr rfl rfl fun _ => ⟨rfl, rfl, rfl, rfl, rfl⟩

lemma Coherent.drop (h : Coherent d disk s) (shape : Shape ((s.drop t b).goto t .idle)) (here : s.pc t = .release b) :
    Coherent d disk ((s.drop t b).goto t .idle) := by
  have about : ∀ c, (s.pc t).buf = some c → c = b := by
    intro c at'
    rw [here] at at'
    exact (some.inj at').symm
  have buf : (s.drop t b).buf = (s.setBuf b ((s.buf b).dropUser t)).buf := by
    rw [State.drop]
    split_ifs <;> rfl
  have pc : (s.drop t b).pc = s.pc := by
    rw [State.drop]
    split_ifs <;> rfl
  have disk_eq : (s.drop t b).disk = s.disk ∧ (s.drop t b).given = s.given := by
    rw [State.drop]
    split_ifs <;> exact ⟨rfl, rfl⟩
  refine ⟨h.nonzero, shape, used_of_set (p := .idle) h.used (fun c => congrFun buf c) ?_ about
    (fun c eq => absurd eq (some_ne_none c).symm) ((h.used b).dropUser here), ?_⟩
  · exact congrArg (fun f => update f t .idle) pc
  refine (h.contents.setBuf (v := (s.buf b).dropUser t) rfl rfl rfl rfl rfl).congr
    disk_eq.1 disk_eq.2 fun c => ?_
  rw [goto_buf, congrFun buf c]
  exact ⟨rfl, rfl, rfl, rfl, rfl⟩

lemma Coherent.used_setBuf (h : Coherent d disk s) {v : Buf τ α} (here : Used d s.pc b v)
    (c : BufId) : Used d s.pc c ((s.setBuf b v).buf c) :=
  forall_setBuf here (fun c _ => h.used c) c

lemma Coherent.step {a : Act τ α} (h : Coherent d disk s) (allowed : OneDevice d s a)
    (next : Bcache.step s a = some s') : Coherent d disk s' := by
  have shape := h.shape.step next
  cases a with
  | bget t dev bn =>
    obtain ⟨idle, next⟩ := ite_none_right_eq_some.mp next
    obtain ⟨rfl, fits⟩ := allowed
    exact h.bget shape idle fits next
  | acquire t =>
    rw [Bcache.step] at next
    cases here : s.pc t with
    | acquire b dev bn =>
      rw [here] at next
      obtain ⟨free, rfl⟩ := guarded.mp next
      refine ⟨h.nonzero, shape, used_of_set h.used (fun _ => rfl) rfl (fun c eq => ?_)
        (fun c eq => (some.inj eq).symm) ((h.used b).acquire here free), ?_⟩
      · rw [here] at eq
        exact (some.inj eq).symm
      exact (h.contents.setBuf (v := { s.buf b with lock := some t }) rfl rfl rfl rfl
        rfl).congr rfl rfl fun _ => ⟨rfl, rfl, rfl, rfl, rfl⟩
    | idle | load b dev bn | release b =>
      rw [here] at next
      cases next
  | load t =>
    rw [Bcache.step] at next
    cases here : s.pc t with
    | load b dev bn =>
      rw [here] at next
      cases next
      exact h.load shape here
    | idle | acquire b dev bn | release b =>
      rw [here] at next
      cases next
  | update t b x =>
    obtain ⟨⟨idle, lock⟩, rfl⟩ := guarded.mp next
    have u := h.used b
    have valid := u.valid_of_idle idle lock
    refine ⟨h.nonzero, shape, h.used_setBuf ?_, h.contents.update (h.only (h.contents.valid b valid)) valid x⟩
    exact ⟨u.count, u.refs, u.loading, u.wanted, u.inUse, u.held,
      fun _ => ⟨valid, .inl (lock ▸ some_ne_none t)⟩⟩
  | bwrite t b =>
    obtain ⟨⟨idle, lock⟩, rfl⟩ := guarded.mp next
    have u := h.used b
    have valid := u.valid_of_idle idle lock
    refine ⟨h.nonzero, shape, h.used_setBuf ?_,
      h.contents.write (h.only (h.contents.valid b valid)) valid⟩
    exact ⟨u.count, u.refs, u.loading, u.wanted, u.inUse, u.held, nofun⟩
  | bpin t b =>
    obtain ⟨⟨-, lock⟩, rfl⟩ := guarded.mp next
    exact ⟨h.nonzero, shape, h.used_setBuf ((h.used b).pin allowed lock),
      h.contents.setBuf rfl rfl rfl rfl rfl⟩
  | bunpin t b =>
    obtain ⟨⟨-, pinned, clean⟩, rfl⟩ := guarded.mp next
    exact ⟨h.nonzero, shape, h.used_setBuf ((h.used b).unpin pinned clean),
      h.contents.setBuf rfl rfl rfl rfl rfl⟩
  | brelse t b =>
    obtain ⟨⟨idle, lock, saved⟩, rfl⟩ := guarded.mp next
    refine ⟨h.nonzero, shape, used_of_set h.used (fun _ => rfl) rfl (fun c eq => ?_)
      (fun c eq => (some.inj eq).symm) ((h.used b).release idle lock saved), ?_⟩
    · rw [idle] at eq
      exact absurd eq (some_ne_none c).symm
    exact (h.contents.setBuf (v := { s.buf b with lock := none }) rfl rfl rfl rfl
      rfl).congr rfl rfl fun _ => ⟨rfl, rfl, rfl, rfl, rfl⟩
  | drop t =>
    rw [Bcache.step] at next
    cases here : s.pc t with
    | release b =>
      rw [here] at next
      cases next
      exact h.drop shape here
    | idle | acquire b dev bn | load b dev bn =>
      rw [here] at next
      cases next

omit [DecidableEq τ] in
lemma init_shape (zero : α) (disk : Nat → α) : Shape (init zero disk : State τ α) :=
  ⟨binit_wellLinked, fun _ _ some => absurd rfl some⟩

lemma init_coherent (zero : α) (disk : Nat → α) (nonzero : d ≠ 0) :
    Coherent d disk (init zero disk : State τ α) := by
  refine ⟨nonzero, init_shape zero disk, fun b => ?_, ?_⟩
  · refine ⟨rfl, fun _ => le_rfl, fun t dev bn here => ?_, fun t dev bn here => ?_, fun pos
      => absurd pos (Nat.lt_irrefl 0), fun t lock => absurd lock (some_ne_none t).symm, nofun⟩
    · cases here
    rcases here with here | here
    · cases here
    cases here
  exact ⟨fun _ => .inl rfl, nofun, nofun, nofun, fun _ _ => rfl⟩

end

lemma Coherent.bread {dev : Nat} (h : Coherent d disk s) (here : s.pc t = .load b dev bn)
    (next : Bcache.step s (.load t) = some s') : (s'.buf b).lock = some t ∧ (s'.buf b).dev = dev ∧
      (s'.buf b).blockno = bn ∧ (s'.buf b).valid = true ∧
      (s'.buf b).data = (s.given dev bn).getD (disk bn) := by
  have shape := h.shape.step next
  rw [Bcache.step, here] at next
  cases next
  have lock := (h.used b).loading t dev bn here
  obtain ⟨rfl, rfl⟩ := (h.used b).wanted t dev bn (.inr here)
  have own := (h.used b).inUse ((h.used b).refcnt_pos_of_lock lock)
  have after := (h.load shape here).contents
  have valid : ((s.load b).buf b).valid = true ∧
      ((s.load b).buf b).lock = (s.buf b).lock ∧ ((s.load b).buf b).dev = (s.buf b).dev ∧
      ((s.load b).buf b).blockno = (s.buf b).blockno ∧ (s.load b).given = s.given := by
    rw [State.load]
    split_ifs with valid
    · exact ⟨valid, rfl, rfl, rfl, rfl⟩
    rw [State.setBuf_self]
    exact ⟨rfl, rfl, rfl, rfl, rfl⟩
  obtain ⟨valid, lock', dev', block, given⟩ := valid
  refine ⟨lock'.trans lock, dev'.trans own, block, valid, ?_⟩
  have fresh := after.fresh b valid
  rw [State.current, State.goto_given, given, State.goto_buf, block] at fresh
  exact fresh

def readAgain (dev : Nat) : List (Act Nat Nat) :=
  [.bget 0 1 5, .acquire 0, .load 0, .update 0 0 7, .bwrite 0 0, .brelse 0 0, .drop 0,
    .bget 0 dev 5, .acquire 0]

lemma incr_eq_mod {r : Nat} (small : r < 2 ^ 32) : incr r = (r + 1) % 2 ^ 32 := by
  rw [incr]
  split_ifs with top
  · rw [top, Nat.mod_self]
  · exact (Nat.mod_eq_of_lt (by omega)).symm

/-- A holder pins its buffer `n` times. -/
lemma run_bpin {G : State τ α → Act τ α → Prop} (any : ∀ s, G s (.bpin t b)) (n : Nat)
    (idle : s.pc t = .idle) (lock : (s.buf b).lock = some t) (small : (s.buf b).refcnt < 2 ^ 32) :
    Run step G s (replicate n (.bpin t b)) (s.setBuf b { s.buf b with
      refcnt := ((s.buf b).refcnt + n) % 2 ^ 32
      pins := (s.buf b).pins + n }) := by
  induction n with
  | zero =>
    have same : s.setBuf b (s.buf b) = s := by rw [setBuf, Function.update_eq_self]
    rw [Nat.add_zero, Nat.mod_eq_of_lt small]
    show Run _ _ s [] (s.setBuf b (s.buf b))
    rw [same]
    exact .nil s
  | succ n ih =>
    rw [replicate_succ']
    refine ih.snoc (any _) ?_
    rw [step, if_pos ⟨idle, by rw [setBuf_self]; exact lock⟩, setBuf_self]
    dsimp only
    rw [incr_eq_mod (Nat.mod_lt _ (by decide)), Nat.mod_add_mod]
    exact congrArg some (congrArg (fun f => { s with buf := f }) (Function.update_idem ..))

/-- Thread 0 holds the block 5 with other contents, and the other 29 buffers are in use. -/
def allInUse : List (Act Nat Nat) :=
  [.bget 0 1 5, .acquire 0, .load 0, .update 0 0 7] ++
    (List.range 29).map fun i => .bget (i + 1) 1 (i + 6)

end Xv6.Bcache
