import Xv6.Log

/-! What is on the disk after a crash at any time. The groups whose header was written are
installed completely and in order, no operation is split between two of them, and an operation
that has returned from its commit is in one of them. -/
namespace Xv6.Log
open Interleaving RedoLog List Option Log
open Function (update update_of_ne update_self)

variable {α : Type} {s s' : State α} {t u : Tid} {a : Label α} {as : List (Label α)}
  {b o size : Nat} {h : Nat → α}

/-- The contents of the home blocks after every committed group, from the contents `h`. -/
def committed (h : Nat → α) (s : State α) : Nat → α := apply h s.groups.flatten

/-- What the operations see: the writes that wait for a commit are applied as well. -/
def current (h : Nat → α) (s : State α) : Nat → α := apply (committed h s) s.pending

def Pc.headed : Pc → Bool
  | .installTrans _ _ => true
  | .clear _ => true
  | _ => false

variable {p : Pc} {tail : Nat}

lemma Pc.inCommit_of_headed (headed : p.headed = true) : p.inCommit = true := by
  cases p with
  | installTrans | clear => rfl
  | outside | op | writeLog | writeHead | finish => cases headed

structure Booting (h : Nat → α) (s : State α) : Prop where
  outside : ∀ t, s.pc t = .outside
  pending : s.pending = []
  pins : ∀ b, s.pins b = 0
  held : ∀ b, s.held b = none
  cached : ∀ b d, s.cache b = some d → d = committed h s b
  installing : ∀ tail, s.boot = .installTrans tail → s.lh = s.disk.header ∧
    ∀ k b, k < tail → s.lh[k]? = some b → s.disk.home b = committed h s b
  clearing : s.boot = .clear → ∀ b, s.disk.home b = committed h s b

structure Logging (s : State α) : Prop where
  header : s.disk.header = []
  keys : ∀ w ∈ s.pending, w.key ∈ s.lh
  pins : ∀ b, s.pins b = if b ∈ s.lh then 1 else 0

def Stage (h : Nat → α) (s : State α) : Pc → Prop
  | .writeLog _ tail => ∀ k b, k < tail → s.lh[k]? = some b → s.disk.slot k = current h s b
  | .writeHead _ => ∀ k b, s.lh[k]? = some b → s.disk.slot k = current h s b
  | .installTrans _ tail => s.pending = [] ∧ s.disk.header = s.lh ∧
      ∀ b, s.pins b = if b ∈ s.lh.drop tail then 1 else 0
  | .clear _ => s.pending = [] ∧ ∀ b, s.pins b = 0
  | _ => True

lemma Stage.of_not_inCommit (out : p.inCommit = false) : Stage h s p := by
  cases p with
  | outside | op => trivial
  | writeLog | writeHead | installTrans | clear | finish => cases out

/-- While the kernel runs. A block that is not pinned is up to date on the disk, so its buffer can
be reused. -/
structure Running (h : Nat → α) (s : State α) : Prop where
  view : ∀ b, (∀ t, b ∉ s.dirty t) → s.read b = current h s b
  loaded : ∀ b, s.pins b ≠ 0 ∨ s.held b ≠ none → s.cache b ≠ none
  synced : ∀ b, s.pins b = 0 → s.disk.home b = current h s b
  nodup : s.lh.Nodup
  logging : (∀ t, (s.pc t).headed = false) → Logging s
  stage : ∀ t, Stage h s (s.pc t)

structure Consistent (h : Nat → α) (s : State α) : Prop where
  disk : s.disk.Holds (committed h s)
  booting : s.boot ≠ .up → Booting h s
  running : s.boot = .up → Running h s

lemma consistent_crash (holds : s.disk.Holds (committed h s)) : Consistent h s.crash := by
  refine ⟨holds, fun _ => ⟨fun _ => rfl, rfl, fun _ => rfl, fun _ => rfl, fun _ _ cached => ?_,
    fun _ here => ?_, fun here => ?_⟩, fun up => ?_⟩
  · cases cached
  · cases here
  · cases here
  cases up

lemma consistent_init (home slot : Nat → α) : Consistent home (init home slot) :=
  consistent_crash (s := init home slot) (.of_home_eq (fun _ => rfl) rfl)

namespace Running
section
variable (run : Running h s)
include run

lemma logging_of_inOp (control : Control s) (now : (s.pc t).inOp = true) : Logging s := by
  refine run.logging fun u => Bool.eq_false_iff.mpr fun headed => ?_
  cases (Pc.inCommit_of_headed headed).symm.trans (control.not_inCommit now u)

lemma logging_of_inCommit (control : Control s) (now : (s.pc t).inCommit = true)
    (here : (s.pc t).headed = false) : Logging s := by
  refine run.logging fun u => Bool.eq_false_iff.mpr fun headed => ?_
  cases control.unique u t (Pc.inCommit_of_headed headed) now
  cases headed.symm.trans here

lemma of_eq (disk : s'.disk = s.disk) (lh : s'.lh = s.lh) (pins : s'.pins = s.pins)
    (pending : s'.pending = s.pending) (groups : s'.groups = s.groups)
    (pc : ∀ t, s'.pc t = s.pc t ∨ (s'.pc t).inCommit = false ∧ (s.pc t).headed = false)
    (view : ∀ b, (∀ t, b ∉ s'.dirty t) → s'.read b = current h s b)
    (loaded : ∀ b, s.pins b ≠ 0 ∨ s'.held b ≠ none → s'.cache b ≠ none) : Running h s' := by
  have same : current h s' = current h s := by
    rw [current, current, committed, committed, pending, groups]
  have stages : ∀ p, Stage h s p → Stage h s' p := by
    intro p stage
    cases p with
    | outside | op | finish => trivial
    | writeLog | writeHead | installTrans | clear =>
      simpa only [Stage, disk, lh, same, pins, pending] using stage
  refine ⟨?_, ?_, ?_, ?_, fun calm => ?_, fun t => ?_⟩
  · rw [same]
    exact view
  · rw [pins]
    exact loaded
  · rw [pins, disk, same]
    exact run.synced
  · rw [lh]
    exact run.nodup
  · have log := run.logging fun t => by
      rcases pc t with eq | ⟨-, before⟩
      · rw [← eq]
        exact calm t
      exact before
    refine ⟨?_, ?_, ?_⟩
    · rw [disk]
      exact log.header
    · rw [pending, lh]
      exact log.keys
    rw [pins, lh]
    exact log.pins
  rcases pc t with eq | ⟨out, -⟩
  · rw [eq]
    exact stages _ (run.stage t)
  exact .of_not_inCommit out

lemma beginOp (next : beginOp s t = some s') : Running h s' := by
  obtain ⟨⟨out, -, -⟩, rfl⟩ := guarded.mp next
  refine run.of_eq rfl rfl rfl rfl rfl (fun u => ?_) run.view run.loaded
  by_cases same : u = t
  · subst same
    refine .inr ⟨?_, ?_⟩
    · simp [Pc.inCommit]
    rw [out]
    rfl
  exact .inl (update_of_ne same _ _)

lemma bread (next : bread s t b = some s') : Running h s' := by
  obtain ⟨-, rfl⟩ := guarded.mp next
  refine run.of_eq rfl rfl rfl rfl rfl (fun _ => .inl rfl) (fun c clean => ?_) fun c used => ?_
  · rw [← run.view c clean]
    by_cases same : c = b
    · subst same
      simp [State.read]
    simp [State.read, update_of_ne same]
  by_cases same : c = b
  · subst same
    simp
  simp only [update_of_ne same] at used ⊢
  exact run.loaded c used

lemma brelse (next : brelse s t b = some s') : Running h s' := by
  obtain ⟨-, rfl⟩ := guarded.mp next
  refine run.of_eq rfl rfl rfl rfl rfl (fun _ => .inl rfl) run.view fun c used => ?_
  by_cases same : c = b
  · subst same
    simp only [update_self, ne_eq, not_true_eq_false, or_false] at used
    exact run.loaded c (.inl used)
  simp only [update_of_ne same] at used
  exact run.loaded c used

lemma modify {d : α} (next : modify s t b d = some s') : Running h s' := by
  obtain ⟨o, here, mine, rfl⟩ := modify_cases next
  refine run.of_eq rfl rfl rfl rfl rfl (fun _ => .inl rfl) (fun c clean => ?_) fun c used => ?_
  · have other : c ≠ b := by
      rintro rfl
      exact clean t (by simp)
    have before : ∀ u, c ∉ s.dirty u := by
      intro u mem
      refine clean u ?_
      by_cases same : u = t
      · subst same
        simp [mem]
      simp only [update_of_ne same]
      exact mem
    rw [← run.view c before]
    simp [State.read, update_of_ne other]
  by_cases same : c = b
  · subst same
    simp
  simp only [update_of_ne same]
  exact run.loaded c used

lemma evict (next : evict s b = some s') : Running h s' := by
  obtain ⟨⟨free, idle⟩, rfl⟩ := guarded.mp next
  refine run.of_eq rfl rfl rfl rfl rfl (fun _ => .inl rfl) (fun c clean => ?_) fun c used => ?_
  · by_cases same : c = b
    · subst same
      rw [← run.synced c free]
      simp [State.read]
    rw [← run.view c clean]
    simp [State.read, update_of_ne same]
  by_cases same : c = b
  · subst same
    rcases used with pinned | held
    · exact absurd free pinned
    exact absurd idle held
  simp only [update_of_ne same]
  exact run.loaded c used

lemma record (control : Control s) (here : s.pc t = .op o) (mine : s.held b = some t) :
    Running h (s.record t o b) := by
  have now : (s.pc t).inOp = true := here ▸ rfl
  have log := run.logging_of_inOp control now
  have view' : current h (s.record t o b) = update (current h s) b (s.read b) := apply_snoc _ _ _
  have pins : ∀ c, (s.record t o b).pins c = if c ∈ (s.record t o b).lh then 1 else 0 := by
    intro c
    simp only [mem_record_lh]
    change (if b ∈ s.lh then s.pins else update s.pins b (s.pins b + 1)) c = _
    by_cases same : c = b
    · subst same
      by_cases old : c ∈ s.lh
      · simp [old, log.pins]
      simp [old, log.pins]
    by_cases old : b ∈ s.lh
    · simp [old, same, log.pins]
    simp [old, same, log.pins]
  refine ⟨fun c clean => ?_, fun c used => ?_, fun c free => ?_, ?_, fun _ => ⟨log.header, ?_, pins⟩,
    fun u => .of_not_inCommit (control.not_inCommit now u)⟩
  · rw [view']
    by_cases same : c = b
    · rw [same, update_self]
      rfl
    rw [update_of_ne same]
    refine run.view c fun u mem => clean u ?_
    change c ∈ update s.dirty t ((s.dirty t).filter (· ≠ b)) u
    by_cases me : u = t
    · subst me
      rw [update_self]
      exact mem_filter.mpr ⟨mem, decide_eq_true same⟩
    rw [update_of_ne me]
    exact mem
  · change s.cache c ≠ none
    by_cases same : c = b
    · rw [same]
      refine run.loaded b (.inr ?_)
      rw [mine]
      exact some_ne_none t
    refine run.loaded c (used.imp_left fun pinned => ?_)
    simp only [pins c, mem_record_lh] at pinned
    rw [log.pins]
    simpa [same] using pinned
  · simp only [pins c, mem_record_lh] at free
    have new : ¬ (c ∈ s.lh ∨ c = b) := by
      by_contra mem
      rw [if_pos mem] at free
      cases free
    rw [not_or] at new
    rw [view', update_of_ne new.2]
    refine run.synced c ?_
    rw [log.pins, if_neg new.1]
  · change (if b ∈ s.lh then s.lh else s.lh ++ [b]).Nodup
    split_ifs with old
    · exact run.nodup
    rw [← concat_eq_append]
    exact run.nodup.concat old
  intro w mem
  rw [mem_record_lh]
  rcases mem_append.mp mem with before | new
  · exact .inl (log.keys w before)
  cases mem_singleton.mp new
  exact .inr rfl

lemma of_endOp (control : Control s) (now : (s.pc t).inOp = true) (disk : s'.disk = s.disk)
    (lh : s'.lh = s.lh) (cache : s'.cache = s.cache) (held : s'.held = s.held)
    (dirty : s'.dirty = s.dirty) (pins : s'.pins = s.pins) (pending : s'.pending = s.pending)
    (groups : s'.groups = s.groups) (pc : s'.pc = update s.pc t p) (stage : Stage h s' p) :
    Running h s' := by
  have same : current h s' = current h s := by
    rw [current, current, committed, committed, pending, groups]
  have log := run.logging_of_inOp control now
  refine ⟨?_, ?_, ?_, ?_, fun _ => ⟨?_, ?_, ?_⟩, fun u => ?_⟩
  · rw [dirty, same]
    unfold State.read
    rw [cache, disk]
    exact run.view
  · rw [pins, held, cache]
    exact run.loaded
  · rw [pins, disk, same]
    exact run.synced
  · rw [lh]
    exact run.nodup
  · rw [disk]
    exact log.header
  · rw [pending, lh]
    exact log.keys
  · rw [pins, lh]
    exact log.pins
  rw [pc]
  by_cases me : u = t
  · rw [me, update_self]
    exact stage
  rw [update_of_ne me]
  exact .of_not_inCommit (control.not_inCommit now u)

end

end Running

lemma stage_of_commit (control : Control s) (now : (s.pc t).inCommit = true)
    (pc : s'.pc = update s.pc t p) (stage : Stage h s' p) (u : Tid) : Stage h s' (s'.pc u) := by
  rw [pc]
  by_cases same : u = t
  · rw [same, update_self]
    exact stage
  rw [update_of_ne same]
  exact .of_not_inCommit (Bool.eq_false_iff.mpr fun commits => same (control.unique u t commits now))

lemma not_calm_of_headed (pc : s'.pc = update s.pc t p) (headed : p.headed = true) :
    ¬ ∀ u, (s'.pc u).headed = false := by
  intro calm
  have mine := calm t
  rw [pc, update_self, headed] at mine
  cases mine

namespace Consistent
section
variable (c : Consistent h s) (control : Control s) (up : s.boot = .up)
include c control up

lemma copy (here : s.pc t = .writeLog o tail) (block : s.lh[tail]? = some b) :
    Consistent h { s with
      disk := { s.disk with slot := update s.disk.slot tail (s.read b) }
      pc := update s.pc t (.writeLog o (tail + 1)) } := by
  have now : (s.pc t).inCommit = true := here ▸ rfl
  have run := c.running up
  have log := run.logging_of_inCommit control now (here ▸ rfl)
  refine ⟨c.disk.setSlot log.header _, fun down => absurd up down, fun _ => ⟨run.view, run.loaded,
    run.synced, run.nodup, fun _ => ⟨log.header, log.keys, log.pins⟩, stage_of_commit control now
    rfl fun k d lt at_k => ?_⟩⟩
  change update s.disk.slot tail (s.read b) k = current h s d
  by_cases last : k = tail
  · subst last
    cases some.inj (block.symm.trans at_k)
    rw [update_self]
    refine run.view b fun u => ?_
    rw [control.clean now u]
    exact not_mem_nil
  have stage := run.stage t
  rw [here] at stage
  rw [update_of_ne last]
  exact stage k d (by omega) at_k

lemma copied (here : s.pc t = .writeLog o tail) (ended : s.lh[tail]? = none) :
    Consistent h { s with pc := update s.pc t (.writeHead o) } := by
  have now : (s.pc t).inCommit = true := here ▸ rfl
  have run := c.running up
  have log := run.logging_of_inCommit control now (here ▸ rfl)
  refine ⟨c.disk, fun down => absurd up down, fun _ => ⟨run.view, run.loaded, run.synced, run.nodup,
    fun _ => ⟨log.header, log.keys, log.pins⟩, stage_of_commit control now rfl fun k d at_k => ?_⟩⟩
  have stage := run.stage t
  rw [here] at stage
  have lt := (List.getElem?_eq_some_iff.mp at_k).1
  exact stage k d (lt_of_lt_of_le lt (List.getElem?_eq_none_iff.mp ended)) at_k

lemma head (here : s.pc t = .writeHead o) :
    Consistent h { s with
      disk := { s.disk with header := s.lh }
      pc := update s.pc t (.installTrans o 0)
      pending := []
      groups := s.groups ++ [s.pending] } := by
  have now : (s.pc t).inCommit = true := here ▸ rfl
  have run := c.running up
  have log := run.logging_of_inCommit control now (here ▸ rfl)
  have stage := run.stage t
  rw [here] at stage
  have moved : apply h (s.groups ++ [s.pending]).flatten = current h s := by
    rw [flatten_append, apply_append, current, committed]
    simp
  refine ⟨?_, fun down => absurd up down, fun _ => ⟨fun b clean => ?_, run.loaded, fun b free => ?_,
    run.nodup, fun calm => absurd calm (not_calm_of_headed rfl rfl), stage_of_commit control now rfl
    ⟨rfl, rfl, log.pins⟩⟩⟩
  · change Disk.Holds _ (apply h (s.groups ++ [s.pending]).flatten)
    rw [moved]
    exact c.disk.commit log.header stage fun b out =>
      apply_of_not_mem _ fun w mem same => out (same ▸ log.keys w mem)
  · change s.read b = apply h (s.groups ++ [s.pending]).flatten b
    rw [moved]
    exact run.view b clean
  change s.disk.home b = apply h (s.groups ++ [s.pending]).flatten b
  rw [moved]
  exact run.synced b free

lemma install (here : s.pc t = .installTrans o tail) (block : s.lh[tail]? = some b) :
    Consistent h { s.install tail b with
      pins := update s.pins b (s.pins b - 1)
      pc := update s.pc t (.installTrans o (tail + 1)) } := by
  have now : (s.pc t).inCommit = true := here ▸ rfl
  have run := c.running up
  obtain ⟨empty, header, pins⟩ : Stage h s (.installTrans o tail) := here ▸ run.stage t
  have seen : current h s = committed h s := by
    rw [current, empty]
    rfl
  have value : s.disk.slot tail = current h s b := by
    rw [seen]
    exact c.disk.slots tail b (header ▸ block)
  obtain ⟨lt, at_tail⟩ := List.getElem?_eq_some_iff.mp block
  have cut : s.lh.drop tail = b :: s.lh.drop (tail + 1) := by rw [drop_eq_getElem_cons lt, at_tail]
  have rest : b ∉ s.lh.drop (tail + 1) := by
    have nodup := run.nodup.sublist (drop_sublist tail s.lh)
    rw [cut] at nodup
    exact (nodup_cons.mp nodup).1
  refine ⟨c.disk.install (header ▸ block), fun down => absurd up down, fun _ => ⟨fun d
    clean => ?_, fun d used => ?_, fun d free => ?_, run.nodup, fun calm => absurd calm
    (not_calm_of_headed rfl rfl), stage_of_commit control now rfl ⟨empty, header, fun d => ?_⟩⟩⟩
  · change (update s.cache b (some (s.disk.slot tail)) d).getD
      (update s.disk.home b (s.disk.slot tail) d) = current h s d
    by_cases same : d = b
    · rw [same, update_self]
      exact value
    rw [update_of_ne same, update_of_ne same]
    exact run.view d clean
  · change update s.cache b (some (s.disk.slot tail)) d ≠ none
    by_cases same : d = b
    · rw [same, update_self]
      exact some_ne_none _
    rw [update_of_ne same]
    simp only [update_of_ne same] at used
    exact run.loaded d used
  · change update s.disk.home b (s.disk.slot tail) d = current h s d
    by_cases same : d = b
    · rw [same, update_self]
      exact value
    rw [update_of_ne same]
    simp only [update_of_ne same] at free
    exact run.synced d free
  change update s.pins b (s.pins b - 1) d = if d ∈ s.lh.drop (tail + 1) then 1 else 0
  by_cases same : d = b
  · rw [same, update_self, if_neg rest, pins b, cut, if_pos mem_cons_self]
  rw [update_of_ne same, pins d, cut]
  simp [same]

lemma installed (here : s.pc t = .installTrans o tail) (ended : s.lh[tail]? = none) :
    Consistent h { s with pc := update s.pc t (.clear o) } := by
  have now : (s.pc t).inCommit = true := here ▸ rfl
  have run := c.running up
  obtain ⟨empty, -, pins⟩ : Stage h s (.installTrans o tail) := here ▸ run.stage t
  refine ⟨c.disk, fun down => absurd up down, fun _ => ⟨run.view, run.loaded, run.synced, run.nodup,
    fun calm => absurd calm (not_calm_of_headed rfl rfl), stage_of_commit control now rfl ⟨empty,
    fun b => ?_⟩⟩⟩
  change s.pins b = 0
  rw [pins b, drop_eq_nil_of_le (getElem?_eq_none_iff.mp ended)]
  exact if_neg not_mem_nil

lemma clear (here : s.pc t = .clear o) :
    Consistent h { s with
      lh := []
      disk := { s.disk with header := [] }
      pc := update s.pc t (.finish o) } := by
  have now : (s.pc t).inCommit = true := here ▸ rfl
  have run := c.running up
  obtain ⟨empty, pins⟩ : Stage h s (.clear o) := here ▸ run.stage t
  have seen : current h s = committed h s := by
    rw [current, empty]
    rfl
  refine ⟨Disk.Holds.erase fun b => ?_, fun down => absurd up down, fun _ => ⟨run.view, run.loaded,
    run.synced, nodup_nil, fun _ => ⟨rfl, fun w mem => ?_, fun b => ?_⟩, stage_of_commit control now
    rfl trivial⟩⟩
  · exact (run.synced b (pins b)).trans (congrFun seen b)
  · change w ∈ s.pending at mem
    rw [empty] at mem
    cases mem
  exact (pins b).trans (if_neg not_mem_nil).symm

lemma finish (here : s.pc t = .finish o) :
    Consistent h { s with
      committing := false
      pc := update s.pc t .outside
      returned := o :: s.returned } := by
  have now : (s.pc t).inCommit = true := here ▸ rfl
  have run := c.running up
  have log := run.logging_of_inCommit control now (here ▸ rfl)
  exact ⟨c.disk, fun down => absurd up down, fun _ => ⟨run.view, run.loaded, run.synced, run.nodup,
    fun _ => ⟨log.header, log.keys, log.pins⟩, stage_of_commit control now rfl trivial⟩⟩

lemma commit (next : CommitStep s t s') : Consistent h s' := by
  cases next with
  | copy here block => exact c.copy control up here block
  | copied here ended => exact c.copied control up here ended
  | head here => exact c.head control up here
  | install here block => exact c.install control up here block
  | installed here ended => exact c.installed control up here ended
  | clear here => exact c.clear control up here
  | finish here => exact c.finish control up here

end

lemma recover (c : Consistent h s) (next : RecoverStep s s') : Consistent h s' := by
  have down : s.boot ≠ .up := by
    cases next with
    | readHead here | install here | installed here | clear here =>
      rw [here]
      exact Boot.noConfusion
  have boot := c.booting down
  cases next with
  | readHead =>
    refine ⟨c.disk, fun _ => ⟨boot.outside, boot.pending, boot.pins, boot.held, boot.cached,
      fun tail here => ?_, fun here => ?_⟩, fun up => ?_⟩
    · cases here
      exact ⟨rfl, fun k b lt => absurd lt (Nat.not_lt_zero k)⟩
    · cases here
    cases up
  | @install tail b here block =>
    obtain ⟨same, homes⟩ := boot.installing tail here
    have value : s.disk.slot tail = committed h s b :=
      c.disk.slots tail b (by rw [← same]; exact block)
    refine ⟨c.disk.install (by rw [← same]; exact block), fun _ => ⟨boot.outside, boot.pending,
      boot.pins, boot.held, fun d v cached => ?_, fun tail' here' => ?_, fun here => ?_⟩,
      fun up => ?_⟩
    · change update s.cache b (some (s.disk.slot tail)) d = some v at cached
      by_cases eq : d = b
      · rw [eq, update_self] at cached
        rw [eq, ← some.inj cached]
        exact value
      rw [update_of_ne eq] at cached
      exact boot.cached d v cached
    · cases here'
      refine ⟨same, fun k d lt at_k => ?_⟩
      change update s.disk.home b (s.disk.slot tail) d = committed h s d
      by_cases eq : d = b
      · rw [eq, update_self]
        exact value
      rw [update_of_ne eq]
      refine homes k d (lt_of_le_of_ne (Nat.lt_succ_iff.mp lt) ?_) at_k
      rintro rfl
      exact eq (some.inj (at_k.symm.trans block))
    · cases here
    cases up
  | @installed tail here ended =>
    obtain ⟨same, homes⟩ := boot.installing tail here
    refine ⟨c.disk, fun _ => ⟨boot.outside, boot.pending, boot.pins, boot.held, boot.cached,
      fun tail here => ?_, fun _ b => ?_⟩, fun up => ?_⟩
    · cases here
    · rcases c.disk.homes b with mem | home
      · rw [← same] at mem
        obtain ⟨k, lt, at_k⟩ := mem_iff_getElem.mp mem
        exact homes k b (lt_of_lt_of_le lt (List.getElem?_eq_none_iff.mp ended))
          (List.getElem?_eq_some_iff.mpr ⟨lt, at_k⟩)
      exact home
    cases up
  | clear here =>
    have homes := boot.clearing here
    have seen : current h s = committed h s := by
      rw [current, boot.pending]
      rfl
    refine ⟨Disk.Holds.erase homes, fun down => absurd rfl down, fun _ => ⟨fun b _ => ?_, fun b used
      => ?_, fun b _ => ?_, nodup_nil, fun _ => ⟨rfl, fun w mem => ?_, fun b => ?_⟩, fun t => ?_⟩⟩
    · change (s.cache b).getD (s.disk.home b) = current h s b
      rw [seen]
      cases cached : s.cache b with
      | none => exact homes b
      | some d => exact boot.cached b d cached
    · rcases used with pinned | held
      · exact absurd (boot.pins b) pinned
      exact absurd (boot.held b) held
    · exact (homes b).trans (congrFun seen b).symm
    · change w ∈ s.pending at mem
      rw [boot.pending] at mem
      cases mem
    · exact (boot.pins b).trans (if_neg not_mem_nil).symm
    exact .of_not_inCommit (by rw [boot.outside t]; rfl)

lemma panics (c : Consistent h s) (up : s.boot = .up) (panic : s.Panics s') :
    Consistent h s' := by
  obtain ⟨n, p, rfl⟩ := panic
  have run := c.running up
  exact ⟨c.disk, fun down => absurd up down, fun _ =>
    run.of_eq rfl rfl rfl rfl rfl (fun _ => .inl rfl) run.view run.loaded⟩

lemma step (c : Consistent h s) (control : s.panicked = none → Control s)
    (next : step size s a = some s') : Consistent h s' := by
  cases a with
  | crash =>
    cases next
    exact consistent_crash c.disk
  | recover => exact c.recover (recoverStep_of_recover next)
  | evict b =>
    obtain ⟨⟨up, -⟩, next⟩ := ite_none_right_eq_some.mp next
    have run := (c.running up).evict next
    obtain ⟨-, rfl⟩ := guarded.mp next
    exact ⟨c.disk, fun down => absurd up down, fun _ => run⟩
  | call t k =>
    obtain ⟨⟨up, alive⟩, next⟩ := ite_none_right_eq_some.mp next
    have control := control alive
    have run := c.running up
    cases k with
    | beginOp =>
      have run' := run.beginOp next
      obtain ⟨-, rfl⟩ := guarded.mp next
      exact ⟨c.disk, fun down => absurd up down, fun _ => run'⟩
    | bread b =>
      have run' := run.bread next
      obtain ⟨-, rfl⟩ := guarded.mp next
      exact ⟨c.disk, fun down => absurd up down, fun _ => run'⟩
    | modify b d =>
      have run' := run.modify next
      obtain ⟨o, -, -, rfl⟩ := modify_cases next
      exact ⟨c.disk, fun down => absurd up down, fun _ => run'⟩
    | brelse b =>
      have run' := run.brelse next
      obtain ⟨-, rfl⟩ := guarded.mp next
      exact ⟨c.disk, fun down => absurd up down, fun _ => run'⟩
    | commit => exact c.commit control up (commitStep_of_commit next)
    | logWrite b =>
      obtain ⟨o, here, mine, ⟨-, panic⟩ | rfl⟩ := logWrite_cases next
      · exact c.panics up panic
      exact ⟨c.disk, fun down => absurd up down, fun _ => run.record control here mine⟩
    | endOp =>
      obtain ⟨o, here, -, ⟨-, panic⟩ | ⟨-, ⟨-, rfl⟩ | ⟨-, rfl⟩⟩⟩ := endOp_cases next
      · exact c.panics up panic
      · refine ⟨c.disk, fun down => absurd up down, fun _ => run.of_endOp control
          (here ▸ rfl) rfl rfl rfl rfl rfl rfl rfl rfl rfl ?_⟩
        split_ifs
        · trivial
        exact fun k b lt => absurd lt (Nat.not_lt_zero k)
      exact ⟨c.disk, fun down => absurd up down, fun _ => run.of_endOp control
        (here ▸ rfl) rfl rfl rfl rfl rfl rfl rfl rfl rfl trivial⟩

end Consistent

/-- The operation of a thread whose writes are not committed yet. -/
def Pc.waiting : Pc → Option Nat
  | .op o => some o
  | .writeLog o _ => some o
  | .writeHead o => some o
  | _ => none

def Pc.done : Pc → Option Nat
  | .installTrans o _ => some o
  | .clear o => some o
  | .finish o => some o
  | _ => none

def Pc.id (p : Pc) : Option Nat := p.waiting.or p.done

/-- How the writes of the operations are distributed over the groups. -/
structure Grouped (s : State α) : Prop where
  grouping : Grouping (fun o => ∃ t, (s.pc t).waiting = some o) s.all s.pending s.groups
  tags : ∀ w ∈ s.all, w.tag < s.nextOp
  below : ∀ t o, (s.pc t).id = some o → o < s.nextOp
  distinct : ∀ t u o, (s.pc t).id = some o → (s.pc u).id = some o → t = u
  old : ∀ o ∈ s.returned, o < s.nextOp ∧ ∀ t, (s.pc t).id ≠ some o
  kept : ∀ o, (o ∈ s.returned ∨ ∃ t, (s.pc t).done = some o) → ∀ w ∈ s.all, w.tag = o →
    w ∈ s.groups.flatten

lemma grouped_init (home slot : Nat → α) : Grouped (init home slot) := by
  refine ⟨⟨fun o now => ?_, fun o => .inl rfl, fun g mem => ?_, List.Pairwise.nil⟩, fun w mem => ?_,
    fun t o here => ?_, fun t u o here => ?_, fun o mem => ?_, fun o _ w mem => ?_⟩
  · obtain ⟨t, now⟩ := now
    cases now
  · cases mem
  · cases mem
  · cases here
  · cases here
  · cases mem
  cases mem

lemma Pc.id_of_done (h : p.done = some o) : p.id = some o := by
  cases p with
  | outside | op | writeLog | writeHead => cases h
  | installTrans | clear | finish => exact h

namespace Grouped
lemma crash (g : Grouped s) : Grouped s.crash := by
  refine ⟨g.grouping.discard fun o now => ?_, g.tags, fun t o here => ?_, fun t u o here => ?_,
    fun o mem => ⟨(g.old o mem).1, fun t here => ?_⟩, fun o now => ?_⟩
  · obtain ⟨t, now⟩ := now
    cases now
  · cases here
  · cases here
  · cases here
  rcases now with mem | ⟨t, now⟩
  · exact g.kept o (.inl mem)
  cases now

lemma of_eq (g : Grouped s) (pc : s'.pc = s.pc) (all : s'.all = s.all)
    (pending : s'.pending = s.pending) (groups : s'.groups = s.groups) (op : s'.nextOp = s.nextOp)
    (returned : s'.returned = s.returned) : Grouped s' := by
  refine ⟨?_, ?_, ?_, ?_, ?_, ?_⟩
  · rw [pc, all, pending, groups]
    exact g.grouping
  · rw [all, op]
    exact g.tags
  · rw [pc, op]
    exact g.below
  · rw [pc]
    exact g.distinct
  · rw [returned, op, pc]
    exact g.old
  rw [returned, pc, all, groups]
  exact g.kept

lemma beginOp (g : Grouped s) (next : beginOp s t = some s') : Grouped s' := by
  obtain ⟨⟨out, -, -⟩, rfl⟩ := guarded.mp next
  have fresh : only s.nextOp s.all = [] := by
    refine filter_eq_nil_iff.mpr fun w mem eq => ?_
    have := g.tags w mem
    have := of_decide_eq_true eq
    omega
  have ids : ∀ u o, (update s.pc t (.op s.nextOp) u).id = some o →
      (s.pc u).id = some o ∨ u = t ∧ o = s.nextOp := by
    intro u o here
    by_cases same : u = t
    · rw [same, update_self] at here
      cases here
      exact .inr ⟨same, rfl⟩
    rw [update_of_ne same] at here
    exact .inl here
  refine ⟨g.grouping.start fun o now => ?_, fun w mem => Nat.lt_succ_of_lt (g.tags w mem),
    fun u o here => ?_, fun u v o hu hv => ?_, fun o mem => ?_, fun o now => ?_⟩
  · obtain ⟨u, now⟩ := now
    by_cases same : u = t
    · rw [same] at now
      simp only [update_self, Pc.waiting, some.injEq] at now
      exact .inr (now ▸ fresh)
    simp only [update_of_ne same] at now
    exact .inl ⟨u, now⟩
  · rcases ids u o here with before | ⟨-, rfl⟩
    · exact Nat.lt_succ_of_lt (g.below u o before)
    exact Nat.lt_succ_self _
  · rcases ids u o hu with before | ⟨eq, rfl⟩
    · rcases ids v o hv with before' | ⟨-, rfl⟩
      · exact g.distinct u v o before before'
      exact absurd (g.below u _ before) (lt_irrefl _)
    rcases ids v _ hv with before' | ⟨eq', -⟩
    · exact absurd (g.below v _ before') (lt_irrefl _)
    rw [eq, eq']
  · obtain ⟨lt, gone⟩ := g.old o mem
    refine ⟨Nat.lt_succ_of_lt lt, fun u here => ?_⟩
    rcases ids u o here with before | ⟨-, rfl⟩
    · exact gone u before
    exact absurd lt (lt_irrefl _)
  refine g.kept o (now.imp_right ?_)
  rintro ⟨u, done⟩
  refine ⟨u, ?_⟩
  by_cases same : u = t
  · rw [same] at done
    simp [Pc.done] at done
  simpa only [update_of_ne same] using done

lemma of_move (g : Grouped s) (pc : s'.pc = update s.pc t p)
    (same : p.id = none ∨ p.id = (s.pc t).id) (all : s'.all = s.all)
    (op : s'.nextOp = s.nextOp) (returned : s'.returned = s.returned)
    (grouping : Grouping (fun o => ∃ t, (s'.pc t).waiting = some o) s.all s'.pending s'.groups)
    (grows : ∀ w ∈ s.groups.flatten, w ∈ s'.groups.flatten) (kept : ∀ o, p.done = some o →
    ∀ w ∈ s.all, w.tag = o → w ∈ s'.groups.flatten) : Grouped s' := by
  have ids : ∀ u o, (s'.pc u).id = some o → (s.pc u).id = some o := by
    intro u o here
    rw [pc] at here
    by_cases me : u = t
    · subst me
      rw [update_self] at here
      rcases same with none | same
      · cases none.symm.trans here
      rw [← same]
      exact here
    rwa [update_of_ne me] at here
  refine ⟨?_, ?_, fun u o here => ?_, fun u v o hu hv => g.distinct u v o (ids u o hu) (ids v o hv),
    fun o mem => ?_, fun o now => ?_⟩
  · rw [all]
    exact grouping
  · rw [all, op]
    exact g.tags
  · rw [op]
    exact g.below u o (ids u o here)
  · rw [returned] at mem
    rw [op]
    exact ⟨(g.old o mem).1, fun u here => (g.old o mem).2 u (ids u o here)⟩
  rw [all]
  rw [returned, pc] at now
  rcases now with mem | ⟨u, done⟩
  · exact fun w inside tag => grows w (g.kept o (.inl mem) w inside tag)
  by_cases me : u = t
  · rw [me, update_self] at done
    exact kept o done
  rw [update_of_ne me] at done
  exact fun w inside tag => grows w (g.kept o (.inr ⟨u, done⟩) w inside tag)

lemma waiting_of_move (s' : State α) (pc : s'.pc = update s.pc t p)
    (same : p.waiting = none ∨ p.waiting = (s.pc t).waiting) (o : Nat)
    (now : ∃ u, (s'.pc u).waiting = some o) : ∃ u, (s.pc u).waiting = some o := by
  obtain ⟨u, now⟩ := now
  refine ⟨u, ?_⟩
  rw [pc] at now
  by_cases me : u = t
  · subst me
    rw [update_self] at now
    rcases same with none | same
    · cases none.symm.trans now
    rw [← same]
    exact now
  rwa [update_of_ne me] at now

section
variable (g : Grouped s)
include g

lemma record (here : s.pc t = .op o) : Grouped (s.record t o b) := by
  have mine : (s.pc t).waiting = some o := here ▸ rfl
  refine ⟨g.grouping.write ⟨t, mine⟩, fun w mem => ?_, g.below, g.distinct, g.old,
    fun p now w mem tag => ?_⟩
  · rcases mem_append.mp mem with before | new
    · exact g.tags w before
    cases mem_singleton.mp new
    exact g.below t o (here ▸ rfl)
  rcases mem_append.mp mem with before | new
  · exact g.kept p now w before tag
  cases mem_singleton.mp new
  cases tag
  have id : (s.pc t).id = some o := here ▸ rfl
  rcases now with mem | ⟨u, done⟩
  · exact absurd id ((g.old o mem).2 t)
  change (s.pc u).done = some o at done
  cases g.distinct t u o id (Pc.id_of_done done)
  rw [here] at done
  cases done

lemma startCommit (here : s.pc t = .op o) (empty : s.lh = [] → s.pending = []) :
    Grouped (s.startCommit t o) := by
  refine g.of_move rfl (.inr ?_) rfl rfl rfl (g.grouping.start fun p now => .inl ?_)
    (fun w mem => mem) fun p done w mem tag => ?_
  · rw [here]
    split_ifs
    · rfl
    rfl
  · refine waiting_of_move (s.startCommit t o) rfl ?_ p now
    rw [here]
    split_ifs
    · exact .inl rfl
    exact .inr rfl
  -- an empty log has nothing to commit
  split_ifs at done with none
  · cases done
    have same := (g.grouping.opened o ⟨t, here ▸ rfl⟩).1
    rw [empty none] at same
    have inside : w ∈ only o s.all := mem_filter.mpr ⟨mem, decide_eq_true tag⟩
    rw [← same] at inside
    cases inside
  cases done

lemma leave : Grouped (s.leave t) :=
  g.of_move rfl (.inl rfl) rfl rfl rfl
    (g.grouping.start fun o now => .inl (waiting_of_move (s.leave t) rfl (.inl rfl) o now))
    (fun w mem => mem) fun o done => by cases done

lemma head (control : Control s) (here : s.pc t = .writeHead o) :
    Grouped { s with
      disk := { s.disk with header := s.lh }
      pc := update s.pc t (.installTrans o 0)
      pending := []
      groups := s.groups ++ [s.pending] } := by
  have now : (s.pc t).inCommit = true := here ▸ rfl
  have closed : ∀ p, ¬ ∃ u, (update s.pc t (.installTrans o 0) u).waiting = some p := by
    rintro p ⟨u, waits⟩
    by_cases me : u = t
    · rw [me, update_self] at waits
      cases waits
    rw [update_of_ne me] at waits
    have op := control.not_inOp now u
    have alone : (s.pc u).inCommit = false :=
      Bool.eq_false_iff.mpr fun commits => me (control.unique u t commits now)
    cases place : s.pc u with
    | outside | installTrans | clear | finish =>
      rw [place] at waits
      cases waits
    | op =>
      rw [place] at op
      cases op
    | writeLog | writeHead =>
      rw [place] at alone
      cases alone
  have grows : ∀ w ∈ s.groups.flatten, w ∈ (s.groups ++ [s.pending]).flatten := by
    intro w mem
    rw [flatten_append]
    exact mem_append_left _ mem
  refine g.of_move rfl (.inr ?_) rfl rfl rfl (g.grouping.commit closed) grows
    fun p done w mem tag => ?_
  · rw [here]
    rfl
  cases done
  have same := (g.grouping.opened o ⟨t, here ▸ rfl⟩).1
  have inside : w ∈ only o s.all := mem_filter.mpr ⟨mem, decide_eq_true tag⟩
  rw [← same] at inside
  rw [flatten_append]
  refine mem_append_right _ ?_
  simpa using (mem_filter.mp inside).1

lemma of_commit (pc : s'.pc = update s.pc t p) (waiting : p.waiting = (s.pc t).waiting)
    (done : p.done = (s.pc t).done) (all : s'.all = s.all) (op : s'.nextOp = s.nextOp)
    (returned : s'.returned = s.returned) (pending : s'.pending = s.pending)
    (groups : s'.groups = s.groups) : Grouped s' := by
  refine g.of_move pc (.inr ?_) all op returned ?_ (fun w mem => ?_) fun o now => ?_
  · rw [Pc.id, Pc.id, waiting, done]
  · rw [pending, groups]
    exact g.grouping.start fun o now => .inl (waiting_of_move s' pc (.inr waiting) o now)
  · rw [groups]
    exact mem
  rw [groups]
  exact g.kept o (.inr ⟨t, done ▸ now⟩)

lemma finish (here : s.pc t = .finish o) :
    Grouped { s with
      committing := false
      pc := update s.pc t .outside
      returned := o :: s.returned } := by
  have left : Grouped { s with committing := false, pc := update s.pc t .outside } :=
    g.of_move rfl (.inl rfl) rfl rfl rfl
      (g.grouping.start fun p now => .inl (waiting_of_move
        { s with committing := false, pc := update s.pc t .outside } rfl (.inl rfl) p now))
      (fun w mem => mem) fun p done => by cases done
  have id : (s.pc t).id = some o := here ▸ rfl
  refine ⟨left.grouping, left.tags, left.below, left.distinct, fun p mem => ?_, fun p now => ?_⟩
  · rcases mem_cons.mp mem with rfl | mem
    · refine ⟨g.below t p id, fun u other => ?_⟩
      by_cases me : u = t
      · rw [me] at other
        simp [Pc.id, Pc.waiting, Pc.done] at other
      simp only [update_of_ne me] at other
      exact me (g.distinct u t p other id)
    exact left.old p mem
  rcases now with mem | done
  · rcases mem_cons.mp mem with rfl | mem
    · exact g.kept p (.inr ⟨t, here ▸ rfl⟩)
    exact left.kept p (.inl mem)
  exact left.kept p (.inr done)

lemma commit (control : Control s) (next : CommitStep s t s') : Grouped s' := by
  cases next with
  | head here => exact g.head control here
  | finish here => exact g.finish here
  | copy here | copied here | install here | installed here | clear here =>
    exact g.of_commit rfl (here ▸ rfl) (here ▸ rfl) rfl rfl rfl rfl rfl

lemma step (control : s.panicked = none → Control s) (c : Consistent h s)
    (next : step size s a = some s') : Grouped s' := by
  cases a with
  | crash =>
    cases next
    exact g.crash
  | recover =>
    cases recoverStep_of_recover next with
    | readHead | install | installed | clear => exact g.of_eq rfl rfl rfl rfl rfl rfl
  | evict b =>
    obtain ⟨-, next⟩ := ite_none_right_eq_some.mp next
    obtain ⟨-, rfl⟩ := guarded.mp next
    exact g.of_eq rfl rfl rfl rfl rfl rfl
  | call t k =>
    obtain ⟨⟨up, alive⟩, next⟩ := ite_none_right_eq_some.mp next
    have control := control alive
    cases k with
    | beginOp => exact g.beginOp next
    | bread b =>
      obtain ⟨-, rfl⟩ := guarded.mp next
      exact g.of_eq rfl rfl rfl rfl rfl rfl
    | modify b d =>
      obtain ⟨o, -, -, rfl⟩ := modify_cases next
      exact g.of_eq rfl rfl rfl rfl rfl rfl
    | brelse b =>
      obtain ⟨-, rfl⟩ := guarded.mp next
      exact g.of_eq rfl rfl rfl rfl rfl rfl
    | commit => exact g.commit control (commitStep_of_commit next)
    | logWrite b =>
      obtain ⟨o, here, -, ⟨-, n, p, rfl⟩ | rfl⟩ := logWrite_cases next
      · exact g.of_eq rfl rfl rfl rfl rfl rfl
      exact g.record here
    | endOp =>
      obtain ⟨o, here, -, ⟨-, n, p, rfl⟩ | ⟨-, ⟨-, rfl⟩ | ⟨-, rfl⟩⟩⟩ := endOp_cases next
      · exact g.of_eq rfl rfl rfl rfl rfl rfl
      · refine g.startCommit here fun empty => ?_
        have log := (c.running up).logging_of_inOp control (t := t) (here ▸ rfl)
        refine eq_nil_iff_forall_not_mem.mpr fun w mem => ?_
        have key := log.keys w mem
        rw [empty] at key
        cases key
      exact g.leave

end

end Grouped

lemma invariants_of_run {home slot : Nat → α} (run : Run (step size) Free (init home slot) as s) :
    (s.panicked = none → Control s) ∧ Consistent home s ∧ Grouped s := by
  refine run.invariant
    (I := fun s => (s.panicked = none → Control s) ∧ Consistent home s ∧ Grouped s) ?_
    ⟨fun _ => control_crash (init home slot), consistent_init home slot, grouped_init home slot⟩
  rintro s a s' ⟨control, consistent, grouped⟩ - next
  exact ⟨Control.step control next, consistent.step control next,
    grouped.step control consistent next⟩

lemma install_completes {n : Nat} (here : s.boot = .installTrans tail)
    (rest : s.lh.length = tail + n) : ∃ s', Run (step size) Free s (replicate (n + 2) .recover) s' ∧
    s'.boot = .up ∧ s'.disk.header = [] ∧ s'.groups = s.groups := by
  induction n generalizing s tail with
  | zero =>
    have ended : s.lh[tail]? = none := getElem?_eq_none (by omega)
    have first : step size s .recover = some { s with boot := .clear } := by
      simp only [step, recover, here, ended]
    exact ⟨_, .cons trivial first (.cons trivial rfl (.nil _)), rfl, rfl, rfl⟩
  | succ n ih =>
    have lt : tail < s.lh.length := by omega
    have first : step size s .recover =
        some { s.install tail s.lh[tail] with boot := .installTrans (tail + 1) } := by
      simp only [step, recover, here, getElem?_eq_getElem lt]
    obtain ⟨s', run, up, header, groups⟩ := ih
      (s := { s.install tail s.lh[tail] with boot := .installTrans (tail + 1) }) rfl
      (by change s.lh.length = _; omega)
    exact ⟨s', .cons trivial first run, up, header, groups⟩

lemma recovery_completes (size : Nat) (s : State α) :
    ∃ s', Run (step size) Free s (.crash :: replicate (s.disk.header.length + 3) .recover) s' ∧
    s'.boot = .up ∧ s'.disk.header = [] ∧ s'.groups = s.groups := by
  obtain ⟨s', run, rest⟩ : ∃ s', Run (step size) Free
    { s.crash with lh := s.disk.header, boot := .installTrans 0 } (replicate
    (s.disk.header.length + 2) .recover) s' ∧ s'.boot = .up ∧ s'.disk.header = [] ∧ s'.groups =
    s.groups := install_completes rfl (Nat.zero_add _).symm
  exact ⟨s', .cons trivial rfl (.cons trivial rfl run), rest⟩

/-- After any run, with any crashes in it, a crash and a recovery leave the home blocks with
exactly the committed groups. Each operation is in one group with all its writes or in none, and
in one if it has returned from its commit. -/
theorem recovery_applies_whole_groups {home slot : Nat → α}
    (run : Run (step size) Free (init home slot) as s) :
    (∃ s', Run (step size) Free s
        (.crash :: List.replicate (s.disk.header.length + 3) .recover) s' ∧ s'.boot = .up ∧
        s'.disk.home = apply home s.groups.flatten) ∧
      (∀ g ∈ s.groups, ∀ o, only o g = [] ∨ only o g = only o s.all) ∧
      (s.groups.Pairwise fun g g' => ∀ o, only o g = [] ∨ only o g' = []) ∧
      ∀ o ∈ s.returned, ∀ w ∈ s.all, w.tag = o → w ∈ s.groups.flatten := by
  obtain ⟨-, -, grouped⟩ := invariants_of_run run
  refine ⟨?_, grouped.grouping.whole, grouped.grouping.single,
    fun o mem => grouped.kept o (.inl mem)⟩
  obtain ⟨s', recovery, up, header, groups⟩ := recovery_completes size s
  obtain ⟨-, consistent, -⟩ := invariants_of_run (run.append recovery)
  refine ⟨s', recovery, up, funext fun b => ?_⟩
  rw [consistent.disk.home_eq header b, committed, groups]

/-- The power fails after the header is written and before the block is installed. -/
theorem committed_block_survives :
    ∃ s s' : State Nat, Run (step 30) Free (init (fun _ => 0) fun _ => 0)
      [.recover, .recover, .recover, .call 0 .beginOp, .call 0 (.bread 7),
        .call 0 (.modify 7 99), .call 0 (.logWrite 7), .call 0 (.brelse 7), .call 0 .endOp,
        .call 0 .commit, .call 0 .commit, .call 0 .commit] s ∧ s.disk.home 7 = 0 ∧
      Run (step 30) Free s (.crash :: List.replicate (s.disk.header.length + 3) .recover) s' ∧
        s'.disk.home 7 = 99 := by
  refine Run.exists_two_with (P := fun s => s.disk.home 7 = 0 ∧
      apply (fun _ => 0) s.groups.flatten 7 = 99)
    (by decide +kernel) fun s run ⟨before, after⟩ => ?_
  obtain ⟨⟨s', recovery, -, home⟩, -⟩ := recovery_applies_whole_groups run
  exact ⟨s', before, recovery, by rw [home]; exact after⟩

/-- Write-ahead logging: a read sees all logged writes, and so does the home block of a block that
is not pinned. While no commit has written its header, home blocks have only committed writes. -/
theorem reads_see_logged_writes {home slot : Nat → α}
    (run : Run (step size) Free (init home slot) as s) (up : s.boot = .up) (b : Nat) :
    ((∀ t, b ∉ s.dirty t) → s.read b = apply home (s.groups.flatten ++ s.pending) b) ∧
      (s.pins b = 0 → s.disk.home b = apply home (s.groups.flatten ++ s.pending) b) ∧
      ((∀ t, (s.pc t).headed = false) → s.disk.home b = apply home s.groups.flatten b) := by
  obtain ⟨-, consistent, -⟩ := invariants_of_run run
  have running := consistent.running up
  rw [apply_append]
  refine ⟨running.view b, running.synced b, fun out => ?_⟩
  exact consistent.disk.home_eq (running.logging out).header b

def uncommitted : List (Label Nat) :=
  [.recover, .recover, .recover, .call 0 .beginOp, .call 0 (.bread 7), .call 0 (.modify 7 99),
    .call 0 (.logWrite 7)]

theorem uncommitted_write_is_read : ∃ s, Run (step 30) Free (init (fun _ => 0) fun _ => 0)
    uncommitted s ∧ s.boot = .up ∧ s.read 7 = 99 ∧ s.disk.home 7 = 0 ∧ s.pins 8 = 0 ∧
      s.disk.home 8 = apply (fun _ => 0) (s.groups.flatten ++ s.pending) 8 := by
  refine Run.exists_with (P := fun s => s.boot = .up ∧ s.read 7 = 99 ∧ s.disk.home 7 = 0 ∧
      s.pins 8 = 0)
    (by decide +kernel) fun s run ⟨up, read, home, pins⟩ => ?_
  exact ⟨up, read, home, pins, (reads_see_logged_writes run up 8).2.1 pins⟩

end Xv6.Log
