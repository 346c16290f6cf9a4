import Xv6.ProcTable

/-! Which entries `kill` and `kthread_kill` reach. Both look only at the id, which is 0
in every free entry, and the allocators do not reset the kill flags. So a call with the
id 0 marks a free entry, and whatever is allocated there next starts killed. -/
namespace Xv6
open Interleaving List ThreadState Table
open Function (update update_of_ne update_self)

/-- A free entry of a thread table as `freethread` leaves it. -/
def Kthread.Clean (t : Kthread) : Prop :=
  t.tState = .unused ∧ t.tid = 0 ∧ t.tKilled = false ∧ t.chan = none

def Kthread.Taken (t : Kthread) : Prop := t.tState ≠ .unused ∧ 0 < t.tid

def ProcState.Fits : ProcState → Kthread → Prop
  | .unused, t => t.Clean
  | .used, t => t.Clean ∨ t.Taken
  | .zombie, t => t.tState = .zombie

def ProcEntry.Valid (e : ProcEntry) : Prop :=
  match e.state with
  | .unused => e.pid = 0 ∧ e.killed = false
  | .used => 0 < e.pid ∧ 0 < e.pCounter
  | .zombie => 0 < e.pid

variable {e : ProcEntry} {f : Kthread → Bool} {i : Fin NKT} {pid ktid : Int}

lemma ProcEntry.Valid.kill (h : e.Valid) (alloc : e.state ≠ .unused) :
    { e with killed := true }.Valid := by
  unfold Valid at h ⊢
  cases state : e.state with
  | unused => exact absurd state alloc
  | used =>
    rw [state] at h
    exact h
  | zombie =>
    rw [state] at h
    exact h

lemma ProcEntry.Valid.used (h : e.Valid) (used : e.state = .used) :
    0 < e.pid ∧ 0 < e.pCounter := by
  rw [Valid, used] at h
  exact h

lemma ProcEntry.Valid.pid_eq_zero (h : e.Valid) : e.pid = 0 ↔ e.state = .unused := by
  unfold Valid at h
  generalize state : e.state = pos at h
  cases pos with
  | unused => exact ⟨fun _ => rfl, fun _ => h.1⟩
  | used => exact ⟨fun zero => absurd h.1 (zero ▸ lt_irrefl _), nofun⟩
  | zombie => exact ⟨fun zero => absurd h (zero ▸ lt_irrefl _), nofun⟩

namespace ProcState.Fits
variable {st : ProcState} {t u : Kthread}

lemma used_of_live (fits : st.Fits t) (live : t.Live) : st = .used ∧ t.Taken := by
  cases st with
  | unused => exact absurd fits.1 live.1
  | used => exact ⟨rfl, fits.resolve_left fun clean => live.1 clean.1⟩
  | zombie => exact absurd fits live.2

lemma of_live (fits : st.Fits t) (live : t.Live) (kept : u.tState ≠ .unused)
    (tid : u.tid = t.tid) : st.Fits u := by
  obtain ⟨rfl, -, pos⟩ := fits.used_of_live live
  exact .inr ⟨kept, tid ▸ pos⟩

lemma of_sleeping (fits : st.Fits t) (asleep : t.tState = .sleeping) :
    st.Fits { t with tState := .runnable } := by
  refine fits.of_live ?_ ThreadState.noConfusion rfl
  unfold Kthread.Live
  rw [asleep]
  exact ⟨ThreadState.noConfusion, ThreadState.noConfusion⟩

lemma wakeup (fits : st.Fits t) (chan : Chan) : st.Fits (t.wakeup chan) := by
  rcases t.wakeup_eq_or chan with same | ⟨⟨asleep, -⟩, woken⟩
  · rwa [same]
  rw [woken]
  exact fits.of_sleeping asleep

end ProcState.Fits

lemma Kthread.clean_freethread (t : Kthread) : t.freethread.Clean := ⟨rfl, rfl, rfl, rfl⟩

namespace Table
/-- The free entries of both tables are as `freeproc` and `freethread` leave them, and
no other entry has the id 0. -/
structure Clean (s : Table) : Prop where
  nextpid : 0 < s.nextpid
  proc : ∀ p, (s.proc p).Valid
  kt : ∀ k, (s.proc k.1).state.Fits (s.kt k)

variable {s s' : Table} {k me : KtId} {p : ProcId} {t : Kthread}

section
variable (h : s.Clean)
include h

lemma Clean.congr (next : s'.nextpid = s.nextpid) (proc : s'.proc = s.proc) (kt : s'.kt = s.kt) :
    s'.Clean := ⟨next ▸ h.nextpid, proc ▸ h.proc, by rw [proc, kt]; exact h.kt⟩

lemma Clean.ret (r : Int) : (s.ret me r).Clean := h.congr rfl rfl rfl

lemma Clean.panic : s.panic.Clean := h.congr rfl rfl rfl

lemma Clean.setKt (fits : (s.proc k.1).state.Fits t) : (s.setKt k t).Clean where
  nextpid := h.nextpid
  proc := h.proc
  kt := (Function.forall_update_iff s.kt fun j x => (s.proc j.1).state.Fits x).mpr
    ⟨fits, fun j _ => h.kt j⟩

lemma Clean.setRow (next : s.nextpid ≤ s'.nextpid) (proc : s'.proc = update s.proc p e)
    (valid : e.Valid) (row : ∀ i, e.state.Fits (s'.kt (p, i)))
    (others : ∀ k, k.1 ≠ p → s'.kt k = s.kt k) :
    s'.Clean where
  nextpid := h.nextpid.trans_le next
  proc := by
    rw [proc]
    exact (Function.forall_update_iff s.proc fun _ x => x.Valid).mpr ⟨valid, fun q _ => h.proc q⟩
  kt k := by
    rw [proc]
    by_cases own : k.1 = p
    · subst own
      rw [update_self]
      exact row k.2
    rw [update_of_ne own, others k own]
    exact h.kt k

lemma Clean.setProc (valid : e.Valid) (state : e.state = (s.proc p).state) :
    (s.setProc p e).Clean := h.setRow le_rfl rfl valid (fun i => state ▸ h.kt (p, i)) fun _ _ => rfl

lemma Clean.wakeup (chan : Chan) : (s.wakeup me chan).Clean := by
  refine ⟨h.nextpid, h.proc, fun k => ?_⟩
  rw [wakeup_kt]
  split_ifs
  · exact h.kt k
  exact (h.kt k).wakeup chan

lemma Clean.sleep (live : (s.kt me).Live) (chan : Chan) (why : Asleep) :
    (s.sleep me chan why).Clean :=
  (h.setKt (t := (s.kt me).sleep chan) ((h.kt me).of_live live noConfusion rfl)).congr
    rfl rfl rfl

lemma Clean.freethread (used : (s.proc k.1).state = .used) :
    (s.setKt k (s.kt k).freethread).Clean :=
  h.setKt (by rw [used]; exact .inl (s.kt k).clean_freethread)

lemma Clean.freeproc : (s.freeproc p).Clean := by
  refine h.setRow le_rfl rfl ⟨rfl, rfl⟩ (fun i => ?_) fun k other => ?_
  · rw [freeproc_kt, if_pos rfl]
    exact (s.kt (p, i)).clean_freethread
  rw [freeproc_kt, if_neg other]

lemma Clean.setZombie (used : (s.proc p).state = .used) (status : Int) :
    (s.setZombie p status).Clean := by
  have valid := (h.proc p).used used
  refine h.setRow le_rfl rfl valid.1 (fun i => ?_) fun k other => ?_
  · rw [setZombie_kt, if_pos rfl]
    rfl
  rw [setZombie_kt, if_neg other]

lemma Clean.setKilled (alloc : (s.proc p).state ≠ .unused) : (s.setKilled p).Clean := by
  refine h.setRow le_rfl rfl ((h.proc p).kill alloc) (fun i => ?_) fun k other => ?_
  · rw [setKilled_kt]
    split_ifs with asleep
    · exact (h.kt (p, i)).of_sleeping asleep.2
    exact h.kt (p, i)
  rw [setKilled_kt, if_neg fun own => other own.1]

lemma Clean.setParents : (s.setParents p).Clean := by
  have same : ∀ q, ((s.setParents p).proc q).state = (s.proc q).state ∧
      ((s.proc q).Valid → ((s.setParents p).proc q).Valid) := by
    intro q
    rw [setParents_proc]
    split_ifs <;> exact ⟨rfl, id⟩
  exact ⟨h.nextpid, fun q => (same q).2 (h.proc q), fun k => by rw [(same k.1).1]; exact h.kt k⟩

end

lemma findKt_some (found : s.findKt p f = some i) : f (s.kt (p, i)) = true :=
  find?_some (p := fun i => f (s.kt (p, i))) found

lemma findKt_none (found : s.findKt p f = none) (i : Fin NKT) : f (s.kt (p, i)) = false :=
  Bool.eq_false_iff.mpr (find?_eq_none.mp found i (mem_finRange i))

lemma findProc_some {f : ProcEntry → Bool} (found : s.findProc f = some p) :
    f (s.proc p) = true := find?_some (p := fun p => f (s.proc p)) found

lemma findProc_none {f : ProcEntry → Bool} (found : s.findProc f = none) (p : ProcId) :
    f (s.proc p) = false :=
  Bool.eq_false_iff.mpr (find?_eq_none.mp found p (mem_finRange p))

lemma Clean.free (h : s.Clean) (unused : (s.kt k).tState = .unused) : (s.kt k).Clean := by
  have fits := h.kt k
  generalize state : (s.proc k.1).state = pos at fits
  cases pos with
  | unused => exact fits
  | used => exact fits.resolve_right fun taken => taken.1 unused
  | zombie => exact absurd (unused.symm.trans fits) noConfusion

lemma Clean.take (h : s.Clean) (used : (s.proc k.1).state = .used) :
    (s.take k).Clean ∧ ((s.take k).proc k.1).state = .used ∧ ((s.take k).kt k).Taken := by
  have valid := (h.proc k.1).used used
  have taken : ((s.kt k).allockthread k (s.proc k.1).pCounter).Taken :=
    ⟨noConfusion, valid.2⟩
  refine ⟨?_, ?_, ?_⟩
  · have counted : ProcEntry.Valid
        { s.proc k.1 with pCounter := (s.proc k.1).pCounter + 1 } := by
      simp only [ProcEntry.Valid, used]
      omega
    have row := h.setKt (k := k) (by rw [used]; exact .inr taken)
    exact (row.setProc counted rfl).congr rfl rfl rfl
  · rw [take_proc, update_self]
    exact used
  rw [take_kt, update_self]
  exact taken

lemma Clean.allockthread (h : s.Clean) (ok : s.allockthread p = some (i, s')) :
    s' = s.take (p, i) ∧ (s'.kt (p, i)).tKilled = false ∧ (s'.kt (p, i)).chan = none := by
  obtain ⟨j, found, eq⟩ := Option.map_eq_some_iff.mp ok
  cases eq
  have free := h.free (of_decide_eq_true (findKt_some found))
  rw [take_kt, update_self]
  exact ⟨rfl, free.2.2.1, free.2.2.2⟩

lemma Clean.allocpid (h : s.Clean) (unused : (s.proc p).state = .unused) : (s.allocpid p).Clean := by
  refine h.setRow (by rw [allocpid_nextpid]; omega) rfl ⟨h.nextpid, Int.one_pos⟩ (fun i => ?_)
    fun _ _ => rfl
  have fits := h.kt (p, i)
  rw [unused] at fits
  exact .inl fits

lemma findKt_first (first : f (s.kt (p, slot0)) = true) : s.findKt p f = some slot0 :=
  find?_cons_of_pos (l := (finRange NKT).tail) first

section
variable (h : s.Clean)
include h

lemma Clean.allocproc_made {mem : Memory} (ok : s.allocproc mem = .made p s') :
    s'.Clean ∧ (s'.proc p).state = .used ∧ (s'.proc p).killed = false ∧ (s'.kt (p, slot0)).Taken ∧
    (s'.kt (p, slot0)).tKilled = false ∧ (s'.kt (p, slot0)).chan = none := by
  unfold allocproc at ok
  split at ok
  · exact nomatch ok
  next q found =>
  have unused := of_decide_eq_true (findProc_some found)
  have clean := h.allocpid unused
  have first : (s.allocpid q).allockthread q = some (slot0, (s.allocpid q).take (q, slot0)) := by
    refine Option.map_eq_some_iff.mpr ⟨slot0, findKt_first (decide_eq_true ?_), rfl⟩
    have fits := h.kt (q, slot0)
    rw [unused] at fits
    exact fits.1
  simp only [first] at ok
  split_ifs at ok
  cases ok
  have valid := h.proc p
  rw [ProcEntry.Valid, unused] at valid
  have used : ((s.allocpid p).proc p).state = .used := by rw [allocpid_proc, update_self]
  obtain ⟨taken, state, slot⟩ := clean.take (k := (p, slot0)) used
  refine ⟨taken, state, ?_, slot, (clean.allockthread first).2⟩
  simp only [take_proc, allocpid_proc, update_self]
  exact valid.2

lemma Clean.allocproc_failed {mem : Memory} (ok : s.allocproc mem = .failed s') : s'.Clean := by
  unfold allocproc at ok
  split at ok
  · cases ok
    exact h
  next q found =>
  have clean := h.allocpid (of_decide_eq_true (findProc_some found))
  cases made : (s.allocpid q).allockthread q with
  | none =>
    simp only [made] at ok
    split_ifs at ok
    cases ok
    exact clean.freeproc
  | some r =>
    have used : ((s.allocpid q).proc q).state = .used := by rw [allocpid_proc, update_self]
    simp only [made] at ok
    split_ifs at ok
    · cases ok
      exact clean.freeproc
    cases ok
    rw [(clean.allockthread made).1]
    exact (clean.take used).1.freeproc

lemma Clean.fork (mem : Memory) : (s.fork me mem).Clean := by
  unfold Table.fork
  split
  · next s' failed => exact (h.allocproc_failed failed).ret _
  · exact h.panic
  next np s' made =>
  obtain ⟨clean, used, -, taken, -, -⟩ := h.allocproc_made made
  split_ifs
  · exact clean.panic
  have child : (s'.setProc np { s'.proc np with parent := some me.1 }).Clean :=
    clean.setProc (clean.proc np) rfl
  refine (child.setKt ?_).ret _
  rw [setProc_proc, update_self, used]
  exact .inr ⟨noConfusion, taken.2⟩

lemma Clean.kthreadCreate (used : (s.proc me.1).state = .used) : (s.kthreadCreate me).Clean := by
  unfold Table.kthreadCreate
  split
  · exact h.ret _
  next i s' made =>
  rw [(h.allockthread made).1]
  obtain ⟨clean, state, taken⟩ := h.take (k := (me.1, i)) used
  refine (clean.setKt ?_).ret _
  rw [state]
  exact .inr ⟨noConfusion, taken.2⟩

lemma Clean.joinLoop (live : (s.kt me).Live) (t : Fin NKT) (fault : Bool) :
    (s.joinLoop me t fault).Clean := by
  unfold Table.joinLoop
  split_ifs
  · exact h.ret _
  · exact (h.freethread (k := (me.1, t)) ((h.kt me).used_of_live live).1).ret _
  exact h.sleep live _ _

lemma Clean.exitJoin (live : (s.kt me).Live) (t : Fin NKT) : (s.exitJoin me t).Clean := by
  unfold Table.exitJoin
  split_ifs
  · exact (h.freethread (k := (me.1, t)) ((h.kt me).used_of_live live).1).panic
  exact h.sleep live _ _

lemma Clean.waitLoop (live : (s.kt me).Live) (fault : Bool) : (s.waitLoop me fault).Clean := by
  unfold Table.waitLoop
  split
  · split_ifs
    · exact h.ret _
    exact h.freeproc.ret _
  split_ifs
  · exact h.ret _
  exact h.sleep live _ _

lemma Clean.reparent : (s.reparent me).Clean := by
  unfold Table.reparent
  split_ifs
  · exact h.setParents.wakeup _
  exact h

lemma Clean.wakeParent : (s.wakeParent me).Clean := by
  unfold Table.wakeParent
  split
  · exact h.wakeup _
  exact h

end

lemma reparent_state (p : ProcId) : ((s.reparent me).proc p).state = (s.proc p).state := by
  unfold reparent
  split_ifs
  · rw [wakeup_proc, setParents_proc]
    split_ifs <;> rfl
  rfl

lemma wakeParent_proc : (s.wakeParent me).proc = s.proc := by
  unfold wakeParent
  split <;> rfl

lemma liveSibling_some (found : s.liveSibling me = some i) : i ≠ me.2 ∧ (s.kt (me.1, i)).Live :=
  of_decide_eq_true (find?_some
    (p := fun i => decide (i ≠ me.2 ∧ (s.kt (me.1, i)).Live)) found)

lemma Clean.exit (h : s.Clean) (running : (s.kt me).tState = .running) (status : Int) :
    (s.exit me status).Clean := by
  have used := ((h.kt me).used_of_live (Kthread.live_of_running running)).1
  unfold Table.exit
  split_ifs
  · exact h.panic
  split
  · refine h.reparent.wakeParent.setZombie ?_ status
    rw [wakeParent_proc, reparent_state]
    exact used
  next i found =>
  have sibling := liveSibling_some found
  have clean := h.setKt (k := (me.1, i)) ((h.kt (me.1, i)).of_live (u :=
    { s.kt (me.1, i) with tKilled := true }) sibling.2 sibling.2.1 rfl)
  dsimp only
  split
  · exact clean.panic
  refine clean.exitJoin ?_ _
  rw [setKt_kt, update_of_ne fun same => sibling.1 (congrArg Prod.snd same).symm]
  exact Kthread.live_of_running running

lemma Clean.kthreadExit (h : s.Clean) (running : (s.kt me).tState = .running) (status : Int) :
    (s.kthreadExit me status).Clean := by
  unfold Table.kthreadExit
  split_ifs
  · exact h.exit running status
  refine (h.setKt ?_).wakeup _
  exact (h.kt me).of_live (Kthread.live_of_running running) noConfusion rfl

lemma Clean.kthreadJoin (h : s.Clean) (live : (s.kt me).Live) (ktid : Int) (fault : Bool) :
    (s.kthreadJoin me ktid fault).Clean := by
  unfold Table.kthreadJoin
  split
  · exact h.ret _
  exact h.joinLoop live _ fault

/-- No free entry is reached: the id is not 0, or there is no free entry. -/
def Existing (s : Table) : Op → Prop
  | .call _ (.kill pid) => pid = 0 → ∀ p, (s.proc p).state ≠ .unused
  | .call me (.kthreadKill ktid) => ktid = 0 → ∀ i, (s.kt (me.1, i)).tState ≠ .unused
  | _ => True

instance (s : Table) : DecidablePred s.Existing
  | .call _ (.kill _) | .call _ (.kthreadKill _) => inferInstanceAs (Decidable (_ → _))
  | .call _ (.fork _) | .call _ (.exit _) | .call _ (.wait _) | .call _ .kthreadCreate
  | .call _ (.kthreadExit _) | .call _ (.kthreadJoin _ _) | .run _ _ => isTrue trivial

lemma Clean.found_pid (h : s.Clean) (guard : s.Existing (.call me (.kill pid)))
    (pids : (s.proc p).pid = pid) : (s.proc p).state ≠ .unused := by
  intro unused
  have zero : pid = 0 := pids.symm.trans ((h.proc p).pid_eq_zero.mpr unused)
  exact guard zero p unused

lemma Clean.found_ktid (h : s.Clean) (guard : s.Existing (.call me (.kthreadKill ktid)))
    (tids : (s.kt (me.1, i)).tid = ktid) : (s.kt (me.1, i)).tState ≠ .unused := by
  intro unused
  have zero : ktid = 0 := tids.symm.trans (h.free unused).2.1
  exact guard zero i unused

lemma Clean.kill (h : s.Clean) (guard : s.Existing (.call me (.kill pid))) :
    (s.kill pid).2.Clean := by
  unfold Table.kill
  split
  · exact h
  next p found => exact h.setKilled (h.found_pid guard (of_decide_eq_true (findProc_some found)))

lemma Clean.kthreadKill (h : s.Clean) (live : (s.kt me).Live)
    (guard : s.Existing (.call me (.kthreadKill ktid))) : (s.kthreadKill me.1 ktid).2.Clean := by
  unfold Table.kthreadKill
  split
  · exact h
  next i found =>
  have alloc := h.found_ktid guard (of_decide_eq_true (findKt_some found))
  have used := ((h.kt me).used_of_live live).1
  have fits := h.kt (me.1, i)
  rw [used] at fits
  refine h.setKt ?_
  rw [used]
  refine .inr ⟨?_, (fits.resolve_left fun clean => alloc clean.1).2⟩
  unfold Kthread.kthreadKill
  split_ifs
  · exact noConfusion
  exact alloc

lemma Clean.call (h : s.Clean) (running : (s.kt me).tState = .running) (sys : Sys)
    (guard : s.Existing (.call me sys)) : (s.call me sys).Clean := by
  have live := Kthread.live_of_running running
  cases sys with
  | fork mem => exact h.fork mem
  | exit status => exact h.exit running status
  | wait fault => exact h.waitLoop live fault
  | kthreadCreate => exact h.kthreadCreate ((h.kt me).used_of_live live).1
  | kthreadExit status => exact h.kthreadExit running status
  | kthreadJoin ktid fault => exact h.kthreadJoin live ktid fault
  | kill pid => exact (h.kill guard).ret _
  | kthreadKill ktid => exact (h.kthreadKill live guard).ret _

lemma Clean.resume (h : s.Clean) (running : (s.kt me).tState = .running) (fault : Bool) :
    (s.resume me fault).Clean := by
  have live := Kthread.live_of_running running
  have awake : (s.awaken me).Clean := (h.setKt ((h.kt me).of_live (u :=
    { s.kt me with chan := none }) live live.1 rfl)).congr rfl rfl rfl
  have live' : ((s.awaken me).kt me).Live := by
    rw [awaken_kt, update_self]
    exact live
  unfold Table.resume
  split
  · exact h
  · exact awake.joinLoop live' _ fault
  · exact awake.exitJoin live' _
  exact awake.waitLoop live' fault

lemma Clean.step (h : s.Clean) {op : Op} (guard : s.Existing op) (next : s.step op = some s') :
    s'.Clean := by
  cases op with
  | call me sys =>
    obtain ⟨⟨-, running⟩, rfl⟩ := guarded.mp next
    exact h.call running sys guard
  | run k fault =>
    obtain ⟨⟨-, -, runnable⟩, rfl⟩ := guarded.mp next
    have live : (s.kt k).Live := by
      unfold Kthread.Live
      rw [runnable]
      exact ⟨noConfusion, noConfusion⟩
    have clean := h.setKt ((h.kt k).of_live (u := { s.kt k with tState := .running }) live
      noConfusion rfl)
    refine clean.resume ?_ fault
    rw [setKt_kt, update_self]

lemma clean_zero : zero.Clean := ⟨Int.one_pos, fun _ => ⟨rfl, rfl⟩, fun _ => ⟨rfl, rfl, rfl, rfl⟩⟩

lemma clean_userinit (h : s.Clean) : s.userinit.Clean := by
  unfold userinit
  split
  · next p s' made =>
    obtain ⟨clean, used, -, taken, -, -⟩ := h.allocproc_made made
    refine clean.setKt ?_
    rw [used]
    exact .inr ⟨noConfusion, taken.2⟩
  exact h.panic

/-- The call returns 0 and has a target, or it returns -1 and has changed nothing. -/
def Reaches (s : Table) (target : Prop) (r : Int × Table) : Prop :=
  r.1 = 0 ∧ target ∨ r = (-1, s) ∧ ¬ target

lemma Clean.kill_reaches (h : s.Clean) (guard : s.Existing (.call me (.kill pid))) :
    s.Reaches (∃ p, (s.proc p).state ≠ .unused ∧ (s.proc p).pid = pid) (s.kill pid) := by
  unfold Table.kill
  split
  · next found =>
    refine .inr ⟨rfl, ?_⟩
    rintro ⟨p, -, pids⟩
    exact of_decide_eq_false (findProc_none found p) pids
  next p found =>
  have pids := of_decide_eq_true (findProc_some found)
  exact .inl ⟨rfl, p, h.found_pid guard pids, pids⟩

lemma Clean.kthreadKill_reaches (h : s.Clean)
    (guard : s.Existing (.call me (.kthreadKill ktid))) : s.Reaches (∃ i,
    (s.kt (me.1, i)).tState ≠ .unused ∧ (s.kt (me.1, i)).tid = ktid) (s.kthreadKill me.1 ktid) := by
  unfold Table.kthreadKill
  split
  · next found =>
    refine .inr ⟨rfl, ?_⟩
    rintro ⟨i, -, tids⟩
    exact of_decide_eq_false (findKt_none found i) tids
  next i found =>
  have tids := of_decide_eq_true (findKt_some found)
  exact .inl ⟨rfl, i, h.found_ktid guard tids, tids⟩

/-- As long as no kill asks for the id 0 while there is a free entry, kills reach only
what exists, and nothing is allocated killed or on a channel. -/
theorem kills_reach_existing_targets (ops : List Op) (s : Table)
    (run : Run step Existing zero.userinit ops s) :
    (∀ me pid, s.Existing (.call me (.kill pid)) →
      s.Reaches (∃ p, (s.proc p).state ≠ .unused ∧ (s.proc p).pid = pid) (s.kill pid)) ∧
    (∀ me ktid, s.Existing (.call me (.kthreadKill ktid)) →
      s.Reaches (∃ i, (s.kt (me.1, i)).tState ≠ .unused ∧ (s.kt (me.1, i)).tid = ktid)
        (s.kthreadKill me.1 ktid)) ∧
    (∀ mem p s', s.allocproc mem = .made p s' → (s'.proc p).killed = false ∧
      (s'.kt (p, slot0)).tKilled = false ∧ (s'.kt (p, slot0)).chan = none) ∧
    (∀ p i s', s.allockthread p = some (i, s') →
      (s'.kt (p, i)).tKilled = false ∧ (s'.kt (p, i)).chan = none) := by
  have clean : s.Clean := Run.invariant (I := Clean)
    (fun _ _ _ h guard next => h.step guard next) run (clean_userinit clean_zero)
  refine ⟨fun me pid guard => clean.kill_reaches guard,
    fun me ktid guard => clean.kthreadKill_reaches guard, fun mem p s' made => ?_,
    fun p i s' made => (clean.allockthread made).2⟩
  obtain ⟨-, -, killed, -, flags⟩ := clean.allocproc_made made
  exact ⟨killed, flags⟩

/-- Init starts a process and a thread and kills both, and a process that is not there. -/
def killsMade : List Op :=
  [.run (initproc, slot0) false, .call (initproc, slot0) (.fork .enough),
    .call (initproc, slot0) .kthreadCreate, .call (initproc, slot0) (.kill 2),
    .call (initproc, slot0) (.kthreadKill 2), .call (initproc, slot0) (.kill 7)]

theorem killsMade_reach_targets : ∃ s, Run step Existing zero.userinit killsMade s ∧
    (s.proc child).killed = true ∧ s.Reaches (∃ p, (s.proc p).state ≠ .unused ∧ (s.proc p).pid = 7)
      (s.kill 7) := by
  refine Run.exists_with (P := fun s => (s.proc child).killed = true)
    (by decide +kernel) fun s run killed => ?_
  have main := kills_reach_existing_targets killsMade s run
  exact ⟨killed, main.1 (initproc, slot0) 7 fun zero => absurd zero (by decide)⟩

/-- Init kills the ids 0 and then starts a process and a thread. -/
def killsZero : List Op :=
  [.run (initproc, slot0) false, .call (initproc, slot0) (.kill 0),
    .call (initproc, slot0) (.fork .enough), .call (initproc, slot0) (.kthreadKill 0),
    .call (initproc, slot0) .kthreadCreate]

/-- Both start with the flag set. -/
theorem killsZero_start_killed : ∃ s, Run step Free zero.userinit killsZero s ∧
    (s.proc child).state = .used ∧ (s.proc child).killed = true ∧
      (s.kt (initproc, slot1)).tState = .runnable ∧ (s.kt (initproc, slot1)).tKilled = true :=
  Run.exists_of_execute (by decide +kernel)

end Table
end Xv6
