import Xv6.FileRefs

/-! Open files stay alive while threads use them, as long as `close` does not overlap
another call on the same descriptor and no descriptor is passed to a call before the call
that allocates it has returned. -/
namespace Xv6.FileTable
open Interleaving FileTable.State List Pc
open Function (update update_of_ne update_self)
variable {n : Nat} {s s' : State n} {t : Fin n} {pc pc' : Pc}

def Act.fd : Act → Option Int
  | .call (.dup fd) | .call (.close fd) | .call (.body _ fd) => some fd
  | _ => none

def Act.closes : Act → Bool
  | .call (.close _) => true
  | _ => false

/-- No other call is still to return the descriptor or to close it, and for `close` no other
call is on it at all. -/
def Undisturbed (s : State n) (t : Fin n) (closes : Bool) (fd : Int) : Prop :=
  ∀ u ≠ t, (∀ x ∈ (s.pc u).claims, (x.1 : Int) ≠ fd) ∧
    (closes = true → ∀ x ∈ (s.pc u).borrows, (x.1 : Int) ≠ fd)

instance (s : State n) (t : Fin n) (closes : Bool) (fd : Int) :
    Decidable (Undisturbed s t closes fd) :=
  inferInstanceAs (Decidable (∀ u ≠ t, _ ∧ _))

def Settled (s : State n) (l : Label n) : Prop :=
  ∀ fd ∈ l.act.fd, Undisturbed s l.thread l.act.closes fd

instance (s : State n) (l : Label n) : Decidable (Settled s l) :=
  inferInstanceAs (Decidable (∀ fd ∈ l.act.fd, _))

variable {fd : Int} {e : Fd} {f : FileId} {a : Act}

lemma argfd_some (ok : s.argfd fd = some (e, f)) : s.ofile e = some f ∧ (e : Int) = fd := by
  unfold argfd at ok
  split_ifs at ok with range
  obtain ⟨g, full, eq⟩ := Option.map_eq_some_iff.mp ok
  cases eq
  exact ⟨full, Int.toNat_of_nonneg range.1⟩

lemma fdalloc_some {fd : Fd} (ok : s.fdalloc = some fd) : s.ofile fd = none :=
  of_decide_eq_true (List.find?_some (p := fun fd => decide (s.ofile fd = none)) ok)

lemma Settled.shared (guard : Settled s ⟨t, a⟩) (arg : fd ∈ a.fd) (eq : (e : Int) = fd) :
    Shared s t e := by
  rintro u other y mem rfl
  exact (guard fd arg u other).1 y mem eq

lemma Settled.alone (guard : Settled s ⟨t, .call (.close fd)⟩) (eq : (e : Int) = fd) :
    Alone s t e := by
  rintro u other y mem rfl
  rcases mem_append.mp mem with claim | borrow
  · exact (guard fd rfl u other).1 y claim eq
  exact (guard fd rfl u other).2 rfl y borrow eq

lemma addRef_ref (s : State n) (f g : FileId) (d : Int) :
    ((s.addRef f d).file g).ref = (s.file g).ref + if f = g then d else 0 := by
  unfold addRef
  rw [setFile_file]
  by_cases same : f = g
  · subst same
    rw [update_self, if_pos rfl]
  rw [update_of_ne (Ne.symm same), if_neg same, add_zero]

lemma Held.idle (h : Held s) (here : s.pc t = pc) (moved : s'.pc = update s.pc t pc')
    (ofile : s'.ofile = s.ofile) (ref : ∀ g, (s'.file g).ref = (s.file g).ref) (before : ∀ g,
    pc.transit g = 0) (after : ∀ g, pc'.transit g = 0) (uses : pc'.uses = []) : Held s' := by
  subst here
  obtain ⟨claims, borrows⟩ := append_eq_nil_iff.mp uses
  refine h.drop moved ofile (fun g => ?_) (claims ▸ nil_sublist _) (borrows ▸ nil_sublist _)
  rw [before g, after g, ref g, sub_self, sub_self]

lemma Held.ret (h : Held s) (here : s.pc t = pc) (before : ∀ g, pc.transit g = 0) (r : Int) :
    Held (s.ret t r) := h.idle here rfl rfl (fun _ => rfl) before (fun _ => rfl) rfl

lemma Held.enter (h : Held s) (pc : s.pc t = .user) (c : Call) (guard : Settled s ⟨t, .call c⟩) :
    Held (enter s t c) := by
  have back : Held (s.ret t (-1)) := h.ret pc (fun _ => rfl) _
  cases c with
  | «open» m => exact h.idle pc rfl rfl (fun _ => rfl) (fun _ => rfl) (fun _ => rfl) rfl
  | pipe => exact h.idle pc rfl rfl (fun _ => rfl) (fun _ => rfl) (fun _ => rfl) rfl
  | dup fd =>
    rw [FileTable.enter]
    split
    · next e f found =>
      obtain ⟨full, eq⟩ := argfd_some found
      exact h.borrow pc full (fun _ => rfl) rfl nofun fun _ _ => guard.shared rfl eq
    exact back
  | close fd =>
    rw [FileTable.enter]
    split
    · next e f found =>
      obtain ⟨full, eq⟩ := argfd_some found
      refine h.borrow pc full (fun g => ?_) rfl (fun _ _ => guard.alone eq) nofun
      exact sub_self _
    exact back
  | body b fd =>
    rw [FileTable.enter]
    split
    · next e f found =>
      obtain ⟨full, eq⟩ := argfd_some found
      exact h.borrow pc full (fun _ => rfl) rfl nofun fun _ _ => guard.shared rfl eq
    exact back

lemma Held.panic (h : Held s) (why : FilePanic) : Held (s.panic why) :=
  ⟨h.balance, h.slots, h.nodup, h.apart⟩

lemma Held.fileclose (h : Held s) {files : List FileId} {r : Int}
    (pc : s.pc t = .undo [] (f :: files) r) : Held (fileclose s t f files r) := by
  have before : ∀ g, (s.pc t).transit g = files.count g + if f = g then 1 else 0 := by
    intro g
    rw [pc]
    simp only [transit, holds, debts, map_nil, count_nil, count_cons, beq_iff_eq]
    split_ifs <;> omega
  unfold FileTable.fileclose
  split_ifs with low more
  · exact h.panic _
  · refine h.drop rfl rfl (fun g => ?_) (nil_sublist _) (nil_sublist _)
    rw [goto_file, addRef_ref, before g]
    simp only [transit, holds, debts, map_nil, count_nil]
    split_ifs <;> omega
  refine h.drop rfl rfl (fun g => ?_) (nil_sublist _) (nil_sublist _)
  rw [goto_file, setFile_file, before g]
  simp only [transit, holds, debts, count_nil]
  by_cases same : f = g
  · subst same
    rw [update_self, if_pos rfl]
    dsimp only
    omega
  rw [update_of_ne (Ne.symm same), if_neg same]
  omega

lemma Held.body (h : Held s) {b : Body} {fd : Fd} (pc : s.pc t = .body b fd f) (r : Int) :
    Held (body s t f r b) := by
  have back : ∀ r, Held (s.ret t r) := h.ret pc fun _ => rfl
  cases b with
  | fileread =>
    rw [FileTable.body]
    split_ifs
    · exact back _
    · exact h.panic _
    exact back _
  | filewrite =>
    rw [FileTable.body]
    split_ifs
    · exact back _
    · exact h.panic _
    exact back _
  | filestat =>
    rw [FileTable.body]
    split_ifs <;> exact back _

lemma Held.addRef (h : Held s) (here : s.pc t = pc) (moved : s'.pc = update s.pc t pc')
    (ofile : s'.ofile = s.ofile) (file : s'.file = (s.addRef f 1).file) (transit : ∀ g,
    pc'.transit g = pc.transit g + if f = g then 1 else 0) (uses : pc'.uses = []) : Held s' := by
  subst here
  obtain ⟨claims, borrows⟩ := append_eq_nil_iff.mp uses
  refine h.drop moved ofile (fun g => ?_) (claims ▸ nil_sublist _) (borrows ▸ nil_sublist _)
  rw [file, addRef_ref, transit g]
  omega

lemma Held.keep (h : Held s) (here : s.pc t = pc) (moved : s'.pc = update s.pc t pc')
    (ofile : s'.ofile = s.ofile) (ref : ∀ g, (s'.file g).ref = (s.file g).ref)
    (transit : ∀ g, pc'.transit g = pc.transit g) (claims : pc'.claims = pc.claims)
    (borrows : pc'.borrows = pc.borrows) : Held s' := by
  subst here
  refine h.drop moved ofile (fun g => ?_) (claims ▸ List.Sublist.refl _) (borrows ▸ List.Sublist.refl _)
  rw [ref g, transit g, sub_self, sub_self]

lemma setFile_ref {x : File} (same : x.ref = (s.file f).ref) (g : FileId) :
    ((s.setFile f x).file g).ref = (s.file g).ref := by
  rw [setFile_file]
  by_cases own : g = f
  · subst own
    rw [update_self, same]
  rw [update_of_ne own]

lemma initFile_ref (s : State n) (f g : FileId) (m : Mode) :
    ((s.initFile f m).file g).ref = (s.file g).ref := by
  refine setFile_ref ?_ g
  rfl

lemma initPipe_ref (s : State n) (f g : FileId) (writable : Bool) :
    ((s.initPipe f writable).file g).ref = (s.file g).ref := by
  refine setFile_ref ?_ g
  rfl

lemma Held.goStep (h : Held s) (next : goStep s t (s.pc t) = some s') : Held s' := by
  generalize pc : s.pc t = pos at next
  cases pos with
  | user => cases next
  | openAlloc m =>
    rw [FileTable.goStep] at next
    split at next <;> cases next
    · next f _ =>
      refine h.addRef pc rfl rfl rfl (fun g => ?_) rfl
      simp [transit, holds, debts, count_cons]
    exact h.ret pc (fun _ => rfl) _
  | openFd m f =>
    rw [FileTable.goStep] at next
    split at next <;> cases next
    · next fd found =>
      refine h.install pc (fdalloc_some found) (fun g => ?_) rfl rfl
      simp [transit, holds, debts, count_cons]
    exact h.keep pc rfl rfl (fun _ => rfl) (fun _ => rfl) rfl rfl
  | openInit m f fd =>
    cases next
    exact h.idle pc rfl rfl (fun g => initFile_ref s f g m) (fun _ => rfl) (fun _ => rfl) rfl
  | dupFd fd f =>
    rw [FileTable.goStep] at next
    split at next <;> cases next
    · next new found =>
      refine h.install pc (fdalloc_some found) (fun g => ?_) rfl rfl
      simp [transit, holds, debts, count_cons]
    exact h.ret pc (fun _ => rfl) _
  | dupRef fd f new =>
    rw [FileTable.goStep] at next
    split_ifs at next <;> cases next
    · exact h.panic _
    refine h.addRef pc rfl rfl rfl (fun g => ?_) rfl
    simp [transit, holds, debts, count_cons]
  | body b fd f => cases next
  | pipeAlloc0 =>
    rw [FileTable.goStep] at next
    split at next <;> cases next
    · next rf _ =>
      refine h.addRef pc rfl rfl rfl (fun g => ?_) rfl
      simp [transit, holds, debts, count_cons]
    exact h.ret pc (fun _ => rfl) _
  | pipeAlloc1 rf =>
    rw [FileTable.goStep] at next
    split at next <;> cases next
    · next wf _ =>
      refine h.addRef pc rfl rfl rfl (fun g => ?_) rfl
      simp [transit, holds, debts, count_cons]
      omega
    exact h.keep pc rfl rfl (fun _ => rfl) (fun _ => rfl) rfl rfl
  | pipeInit rf wf =>
    cases next
    exact h.keep pc rfl rfl (fun g => (initPipe_ref _ wf g true).trans (initPipe_ref s rf g false))
      (fun _ => rfl) rfl rfl
  | pipeFd0 rf wf =>
    rw [FileTable.goStep] at next
    split at next <;> cases next
    · next fd0 found =>
      refine h.install pc (fdalloc_some found) (fun g => ?_) rfl rfl
      simp [transit, holds, debts, count_cons]
    exact h.keep pc rfl rfl (fun _ => rfl) (fun _ => rfl) rfl rfl
  | pipeFd1 rf fd0 wf =>
    rw [FileTable.goStep] at next
    split at next <;> cases next
    · next fd1 found =>
      refine h.install pc (fdalloc_some found) (fun g => ?_) rfl rfl
      simp [transit, holds, debts, count_cons]
    refine h.keep pc rfl rfl (fun _ => rfl) (fun g => ?_) rfl rfl
    simp [transit, holds, debts, count_cons]
  | pipeCopy rf fd0 wf fd1 =>
    cases next
    exact h.ret pc (fun _ => rfl) _
  | undo slots files r =>
    cases slots with
    | cons x slots =>
      cases next
      exact h.clear pc
    | nil =>
      cases files with
      | cons f files =>
        cases next
        exact h.fileclose pc
      | nil =>
        cases next
        exact h.ret pc (fun _ => rfl) _
  | put type files r =>
    cases next
    exact h.keep pc rfl rfl (fun _ => rfl) (fun _ => rfl) rfl rfl

lemma Held.failStep (h : Held s) (next : failStep s t (s.pc t) = some s') : Held s' := by
  generalize pc : s.pc t = pos at next
  cases pos with
  | pipeInit rf wf =>
    cases next
    exact h.keep pc rfl rfl (fun _ => rfl) (fun _ => rfl) rfl rfl
  | pipeCopy rf fd0 wf fd1 =>
    cases next
    refine h.keep pc rfl rfl (fun _ => rfl) (fun g => ?_) rfl rfl
    simp [transit, holds, debts, count_cons]
  | _ => cases next

lemma Held.threadStep (h : Held s) (guard : Settled s ⟨t, a⟩)
    (next : threadStep s t (s.pc t) a = some s') : Held s' := by
  cases a with
  | call c =>
    obtain ⟨pc, rfl⟩ := guarded.mp next
    exact h.enter pc c guard
  | go => exact h.goStep next
  | fail => exact h.failStep next
  | done r =>
    cases pc : s.pc t with
    | body b fd f =>
      rw [pc] at next
      cases next
      exact h.body pc r
    | _ =>
      rw [pc] at next
      cases next

lemma enter_panicked (s : State n) (t : Fin n) (c : Call) : (enter s t c).panicked = s.panicked := by
  cases c <;> rw [enter] <;> first | rfl | (split <;> rfl)

lemma fileclose_panicked (s : State n) (t : Fin n) (f : FileId)
    (files : List FileId) (r : Int) : (fileclose s t f files r).panicked = s.panicked ∨
    (fileclose s t f files r).panicked = some .fileclose := by
  unfold fileclose
  split_ifs
  · exact .inr rfl
  · exact .inl rfl
  exact .inl rfl

lemma body_panicked (s : State n) (t : Fin n) (f : FileId) (r : Int) (b : Body) :
    (body s t f r b).panicked ≠ some .filedup ∨ (body s t f r b).panicked = s.panicked := by
  cases b <;> rw [body] <;> split_ifs <;> first | exact .inr rfl | exact .inl nofun

lemma filedup_of_goStep {pc : Pc} (next : goStep s t pc = some s')
    (now : s'.panicked = some .filedup) :
    s.panicked = some .filedup ∨ ∃ fd f new, pc = .dupRef fd f new ∧ (s.file f).ref < 1 := by
  cases pc with
  | user | body => exact nomatch next
  | dupRef fd f new =>
    rw [goStep] at next
    split_ifs at next with low
    · exact .inr ⟨fd, f, new, rfl, low⟩
    cases next
    exact .inl now
  | undo slots files r =>
    match slots, files with
    | [], f :: files =>
      cases next
      rcases fileclose_panicked s t f files r with same | other
      · exact .inl (same.symm.trans now)
      exact nomatch other.symm.trans now
    | _ :: _, _ | [], [] =>
      cases next
      exact .inl now
  | openInit | pipeInit | pipeCopy | put =>
    cases next
    exact .inl now
  | openAlloc | openFd | dupFd | pipeAlloc0 | pipeAlloc1 | pipeFd0 | pipeFd1 =>
    rw [goStep] at next
    split at next <;> (cases next; exact .inl now)

lemma filedup_of_panicked {pc : Pc} (next : threadStep s t pc a = some s')
    (now : s'.panicked = some .filedup) :
    s.panicked = some .filedup ∨ ∃ fd f new, pc = .dupRef fd f new ∧ (s.file f).ref < 1 := by
  cases a with
  | call c =>
    obtain ⟨-, rfl⟩ := guarded.mp next
    exact .inl ((enter_panicked s t c).symm.trans now)
  | go => exact filedup_of_goStep next now
  | fail =>
    cases pc with
    | pipeInit | pipeCopy =>
      cases next
      exact .inl now
    | _ => exact nomatch next
  | done r =>
    cases pc with
    | body b fd f =>
      cases next
      rcases body_panicked s t f r b with no | same
      · exact absurd now no
      exact .inl (same.symm.trans now)
    | _ => exact nomatch next

lemma Held.step (h : Held s) {l : Label n} (guard : Settled s l) (next : step s l = some s') :
    Held s' := by
  obtain ⟨-, next⟩ := Option.ite_none_right_eq_some.mp next
  exact h.threadStep guard next

lemma Held.borrowed_pos (h : Held s) {x : Fd × FileId} (mem : x ∈ (s.pc t).borrows) :
    0 < (s.file x.2).ref := by
  refine h.ref_pos (h.slots t x (mem_append_right _ mem)) fun u y claim same => ?_
  by_cases me : u = t
  · subst me
    have nodup := h.nodup u
    rw [uses, map_append] at nodup
    exact disjoint_of_nodup_append nodup (mem_map_of_mem claim) (same ▸ mem_map_of_mem mem)
  exact h.shared mem u me y claim same

/-- All threads are in user space and every reference is a slot's. -/
structure Started (s : State n) : Prop where
  pc : ∀ t, s.pc t = .user
  ref : ∀ f, (s.file f).ref = s.slots f
  panicked : s.panicked = none

lemma held_started (start : Started s) : Held s := by
  have none : ∀ t, (s.pc t).uses = [] := fun t => by rw [start.pc t]; rfl
  refine ⟨fun f => ?_, fun t x mem => ?_, fun t => ?_, fun t x mem => ?_⟩
  · have transit : ∀ t, (s.pc t).transit f = 0 := fun t => by rw [start.pc t]; rfl
    rw [start.ref f, Finset.sum_eq_zero fun t _ => transit t, add_zero]
  · rw [none t] at mem
    exact nomatch mem
  · rw [none t]
    exact nodup_nil
  rw [start.pc t] at mem
  exact nomatch mem

def allocates (s : State n) (l : Label n) : Option Fd :=
  match s.pc l.thread, l.act with
  | .openFd _ _, .go | .dupFd _ _, .go | .pipeFd0 _ _, .go | .pipeFd1 _ _ _, .go => s.fdalloc
  | _, _ => none

/-- As long as the calls on descriptors are undisturbed, the counts are right, a
descriptor is given out only when it is closed and to one call at a time, `filedup` does
not panic, and no file is freed under a thread that is in `fileread`, `filewrite` or
`filestat` on it. -/
theorem open_files_stay_alive (s₀ s : State n) (start : Started s₀) (as : List (Label n))
    (run : Run step Settled s₀ as s) :
    (∀ f, (s.file f).ref = s.slots f + ∑ t, (s.pc t).transit f) ∧
    (∀ l fd, allocates s l = some fd → s.ofile fd = none) ∧
    (∀ t u x y, t ≠ u → x ∈ (s.pc t).claims → y ∈ (s.pc u).claims → x.1 ≠ y.1) ∧
    s.panicked ≠ some .filedup ∧
    (∀ t b fd f, s.pc t = .body b fd f → 0 < (s.file f).ref) := by
  have both : Held s ∧ s.panicked ≠ some .filedup := by
    refine Run.invariant (I := fun x => Held x ∧ x.panicked ≠ some .filedup) ?_ run
      ⟨held_started start, by rw [start.panicked]; nofun⟩
    rintro x l y ⟨held, fine⟩ guard next
    refine ⟨held.step guard next, fun now => ?_⟩
    obtain ⟨-, next⟩ := Option.ite_none_right_eq_some.mp next
    rcases filedup_of_panicked next now with before | ⟨fd, f, new, pc, low⟩
    · exact fine before
    have pos : 0 < (x.file f).ref := held.borrowed_pos (t := l.thread) (x := (fd, f))
      (pc ▸ mem_singleton_self _)
    omega
  obtain ⟨held, fine⟩ := both
  refine ⟨held.balance, fun l fd alloc => ?_, fun t u x y other mine yours same => ?_, fine,
    fun t b fd f pc => ?_⟩
  · unfold allocates at alloc
    split at alloc
    all_goals first | exact fdalloc_some alloc | exact nomatch alloc
  · exact held.apart t x mine u other.symm y (mem_append_left _ yours) same.symm
  · exact held.borrowed_pos (t := t) (x := (fd, f)) (pc ▸ mem_singleton_self _)

def empty (n : Nat) : State n where
  ofile _ := none
  file _ := ⟨.none, 0, false, false⟩
  pc _ := .user
  a0 _ := 0
  panicked := none

lemma started_empty : Started (empty n) :=
  ⟨fun _ => rfl, fun _ => (Finset.sum_eq_zero fun _ _ => rfl).symm, rfl⟩

def firstFd : Fd := ⟨0, by decide⟩

def firstFile : FileId := ⟨0, by decide⟩

/-- The first thread opens a file as descriptor 0. -/
def opened : List (Label 2) :=
  [⟨0, .call (.open ⟨false, true, true⟩)⟩, ⟨0, .go⟩, ⟨0, .go⟩, ⟨0, .go⟩]

/-- The first thread closes descriptor 0. -/
def closed : List (Label 2) := [⟨0, .call (.close 0)⟩, ⟨0, .go⟩, ⟨0, .go⟩, ⟨0, .go⟩, ⟨0, .go⟩]

def readShared : List (Label 2) :=
  opened ++ [⟨0, .call (.dup 0)⟩, ⟨1, .call (.body .fileread 0)⟩, ⟨0, .go⟩, ⟨0, .go⟩,
    ⟨0, .call (.close 1)⟩, ⟨0, .go⟩, ⟨0, .go⟩]

theorem readShared_keeps_file : ∃ s, Run step Settled (empty 2) readShared s ∧
    s.pc 1 = .body .fileread firstFd firstFile ∧ 0 < (s.file firstFile).ref := by
  refine Run.exists_with (P := fun s => s.pc 1 = .body .fileread firstFd firstFile)
    (by decide +kernel) fun s run pc => ?_
  have main := open_files_stay_alive (empty 2) s started_empty readShared run
  exact ⟨pc, main.2.2.2.2 1 .fileread firstFd firstFile pc⟩

/-- A file is closed while another thread reads it, or before another thread's `dup` has
counted it. -/
theorem close_frees_file_in_use :
    (∃ s, Run step Free (empty 2) (opened ++ [⟨1, .call (.body .fileread 0)⟩] ++ closed) s ∧
      s.pc 1 = .body .fileread firstFd firstFile ∧ (s.file firstFile).ref = 0) ∧
    ∃ s, Run step Free (empty 2)
      (opened ++ [⟨1, .call (.dup 0)⟩] ++ closed ++ [⟨1, .go⟩, ⟨1, .go⟩]) s ∧
        s.panicked = some .filedup :=
  ⟨Run.exists_of_execute (by decide +kernel), Run.exists_of_execute (by decide +kernel)⟩

end Xv6.FileTable
