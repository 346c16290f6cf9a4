import Xv6.PageHomes

/-! What `fork` copies, and that afterwards neither process changes what the other one sees. -/
namespace Xv6.Vm
open Interleaving PageTable Kernel Option Function

def setByte (page : Index → Nat) (j : Nat) (b : UInt8) : Index → Nat := fun i =>
  if i.val = j / 8 then
    page i - page i / 256 ^ (j % 8) % 256 * 256 ^ (j % 8) + b.toNat * 256 ^ (j % 8)
  else page i

def writeBytes (page : Index → Nat) (j : Nat) : List UInt8 → Index → Nat
  | [] => page
  | b :: bs => writeBytes (setByte page j b) (j + 1) bs

/-- `copyout`; `false` is the result -1. -/
def copyout (k : Mem) (root dstva : Nat) (src : List UInt8) : Bool × Mem :=
  if src = [] then (true, k)
  else
    let va0 := dstva / pgsize * pgsize
    let pa0 := walkaddr k.words root va0
    if pa0 = 0 then (false, k)
    else
      let n := min (pgsize - (dstva - va0)) src.length
      copyout (k.fill (pa0 / pgsize) (writeBytes (k.words (pa0 / pgsize)) (dstva - va0) (src.take n)))
        root (va0 + pgsize) (src.drop n)
termination_by src.length
decreasing_by
  have some : 0 < src.length := List.length_pos_iff.mpr (by assumption)
  have inside := Nat.mod_lt dstva (show 0 < pgsize by decide)
  have whole := Nat.div_add_mod' dstva pgsize
  rw [List.length_drop]
  omega

/-- What a process does to its own memory: a store, the result of a system call that the kernel
copies out, and `sbrk`. -/
inductive UserAct
  | store (v : Nat) (i : Index) (value : Nat)
  | copyout (dstva : Nat) (src : List UInt8)
  | sbrk (n : Int)

def userStep (code : Nat) (s : Kernel) (a : Nat × UserAct) : Option Kernel :=
  match a.2 with
  | .store v i value => Vm.step code s (.store a.1 v i value)
  | .sbrk n => Vm.step code s (.sbrk a.1 n)
  | .copyout dstva src =>
    if s.halted = none then
      (live s a.1).map fun q => s.setMem (copyout s.mem q.root dstva src).2
    else none

def seen (s : Kernel) (q : Proc) (v : Nat) : Option (Nat × (Index → Nat)) :=
  if v < trapframe ∧ valid (entry s.mem.words q.root v) = true then
    some (pteFlags (entry s.mem.words q.root v), s.mem.words (pte2pa (entry s.mem.words q.root v)))
  else none

def view (s : Kernel) (p : Nat) : Option (Nat × (Nat → Option (Nat × (Index → Nat)))) :=
  (s.proc p).map fun q => (q.sz, seen s q)

section
variable {code : Nat} {own pool : Set Nat} {s s' : Kernel} {tables : Nat → Set Nat}
  {maps : Nat → Map} {p x y z v : Nat} {q : Proc}

lemma seen_eq {t : Set Nat} {m : Map} (r : Refines s.mem.words q.root t m) :
    seen s q v = if v < trapframe then (m v).map fun e => (e.2, s.mem.words e.1) else none := by
  unfold seen
  by_cases low : v < trapframe
  · rw [if_pos low]
    have value := entry_eq r (low_lt low)
    cases here : m v with
    | none =>
      have invalid : ¬ valid (entry s.mem.words q.root v) = true := fun ok =>
        (valid_entry r (low_lt low)).mp ok here
      rw [if_neg fun both => invalid both.2]
      rfl
    | some e =>
      obtain ⟨page, flags⟩ := e
      obtain ⟨ok, bits, address⟩ := entry_bits r here
      have eq : entry s.mem.words q.root v = page * 1024 + flags := by
        rw [value, here]
        rfl
      rw [eq, if_pos ⟨low, ok⟩, bits, address]
      rfl
  rw [if_neg low, if_neg fun both => low both.1]

lemma Inv.apart (h : Inv code own pool s tables maps) (other : x ≠ y) (live : s.proc x ≠ none)
    (live' : s.proc y ≠ none) (mine : z ∈ tables y ∨ z ∈ leaves (maps y)) :
    ¬ Own s.mem (tables x) (maps x) z := by
  rintro (free | table | leaf) <;> rcases mine with mine | mine
  · cases h.part.distinct .free (.table y) z free ⟨live', mine⟩
  · cases h.part.distinct .free (.user y) z free ⟨live', mine⟩
  · cases h.part.distinct (.table x) (.table y) z ⟨live, table⟩ ⟨live', mine⟩
    exact other rfl
  · cases h.part.distinct (.table x) (.user y) z ⟨live, table⟩ ⟨live', mine⟩
  · cases h.part.distinct (.user x) (.table y) z ⟨live, leaf⟩ ⟨live', mine⟩
  cases h.part.distinct (.user x) (.user y) z ⟨live, leaf⟩ ⟨live', mine⟩
  exact other rfl

lemma Inv.view_eq (h : Inv code own pool s tables maps) (proc : s'.proc y = s.proc y)
    (words : s.proc y ≠ none → ∀ z, z ∈ tables y ∨ z ∈ leaves (maps y) →
    s'.mem.words z = s.mem.words z) : view s' y = view s y := by
  unfold view
  rw [proc]
  cases here : s.proc y with
  | none => rfl
  | some q =>
    have same := words (here ▸ some_ne_none q)
    have r := (h.core y q here).refines
    have r' : Refines s'.mem.words q.root (tables y) (maps y) :=
      refines_congr r fun z mem => same z (.inl mem)
    refine congrArg (fun f => some (q.sz, f)) (funext fun v => ?_)
    rw [seen_eq r, seen_eq r']
    split_ifs with low
    · cases entry : maps y v with
      | none => rfl
      | some e => exact congrArg (fun c => some (e.2, c)) (same e.1 (.inr ⟨v, e.2, low, entry⟩))
    rfl

end

section
variable {code : Nat} {own pool : Set Nat} {s s' : Kernel} {tables : Nat → Set Nat}
  {maps : Nat → Map} {x : Nat} {q : Proc} {k : Mem} {root n frame : Nat} {t : Set Nat} {m : Map}

lemma walkaddr_page {va : Nat} (r : Refines k.words root t m) (img : Image m n code frame)
    (some : walkaddr k.words root va ≠ 0) : walkaddr k.words root va / pgsize ∈ leaves m := by
  have below : va < maxva := by
    by_contra above
    rw [walkaddr, walk, if_neg above] at some
    exact some rfl
  have top := trampoline_eq
  have frameAt := trapframe_eq
  rw [r.walkaddr below] at some ⊢
  cases here : m (va / pgsize) with
  | none =>
    rw [here] at some
    exact absurd rfl some
  | some e =>
    obtain ⟨page, flags⟩ := e
    rw [here] at some
    unfold userAddress at some ⊢
    dsimp only at some ⊢
    by_cases user : (flags &&& pteU != 0) = true
    · -- the entries above user memory are not for the user
      rw [if_pos user, Nat.shiftLeft_eq, show 2 ^ 12 = pgsize from rfl,
        Nat.mul_div_cancel _ (by decide)]
      refine ⟨va / pgsize, flags, ?_, here⟩
      by_contra high
      by_cases first : va / pgsize = trapframe
      · rw [first, img.frame] at here
        cases here
        exact absurd user (by decide)
      by_cases second : va / pgsize = trampoline
      · rw [second, img.code] at here
        cases here
        exact absurd user (by decide)
      rw [img.above _ (by omega)] at here
      cases here
    rw [if_neg user] at some
    exact absurd rfl some

lemma copyout_words (r : Refines k.words root t m) (img : Image m n code frame)
    (apart : ∀ z ∈ leaves m, z ∉ t) (dstva : Nat) (src : List UInt8) :
    (copyout k root dstva src).2.free = k.free ∧
    ∀ z ∉ leaves m, (copyout k root dstva src).2.words z = k.words z := by
  induction length : src.length using Nat.strong_induction_on generalizing k dstva src with
  | _ length ih =>
    rw [copyout]
    split_ifs with empty
    · exact ⟨rfl, fun _ _ => rfl⟩
    dsimp only
    split_ifs with fails
    · exact ⟨rfl, fun _ _ => rfl⟩
    have page := walkaddr_page r img fails
    generalize walkaddr k.words root (dstva / pgsize * pgsize) / pgsize = w at page ⊢
    have positive : 0 < src.length := List.length_pos_iff.mpr empty
    have inside := Nat.mod_lt dstva (show 0 < pgsize by decide)
    have whole := Nat.div_add_mod' dstva pgsize
    generalize writeBytes (k.words w) (dstva - dstva / pgsize * pgsize)
      (src.take (min (pgsize - (dstva - dstva / pgsize * pgsize)) src.length)) = contents
    have other : ∀ z ∉ leaves m, (k.fill w contents).words z = k.words z := fun z out =>
      update_of_ne (fun eq : z = w => out (eq ▸ page)) ..
    obtain ⟨free, words⟩ := ih _ (by rw [List.length_drop]; omega) (refines_congr r fun z table =>
      other z fun leaf => apart z leaf table) (dstva / pgsize * pgsize + pgsize) (src.drop (min
      (pgsize - (dstva - dstva / pgsize * pgsize)) src.length)) rfl
    exact ⟨free, fun z out => (words z out).trans (other z out)⟩

structure Acted (code : Nat) (own pool : Set Nat) (s : Kernel) (x : Nat) (mine : Set Nat)
    (s' : Kernel) : Prop where
  sound : Sound code own pool s'
  others : ∀ y, y ≠ x → s'.proc y = s.proc y
  words : ∀ z ∉ mine, s'.mem.words z = s.mem.words z

lemma Inv.acted {a : UserAct} (h : Inv code own pool s tables maps) (small : ∀ z ∈ pool,
    z < phystop) (runs : s.halted = none) (next : userStep code s (x, a) = some s') :
    s.proc x ≠ none ∧ Acted code own pool s x {z | Own s.mem (tables x) (maps x) z} s' := by
  cases a with
  | store v i value =>
    obtain ⟨q, alive, rfl⟩ := map_eq_some_iff.mp
      (show (live s x).map (store s v i value) = some s' by
        simpa only [userStep, Vm.step, if_pos runs] using next)
    have here := proc_of_live alive
    refine ⟨here ▸ some_ne_none q, store_sound h runs here v i value, ?_, ?_⟩
    · intro y other
      unfold store
      cases walk s.mem.words q.root (v * pgsize) with
      | none => rfl
      | some e =>
        dsimp only
        split_ifs <;> rfl
    intro z out
    unfold store
    cases found : walk s.mem.words q.root (v * pgsize) with
    | none => rfl
    | some e =>
      obtain ⟨pt, j⟩ := e
      dsimp only
      split_ifs with user
      · have value : entry s.mem.words q.root v = s.mem.words pt j := by
          rw [entry, found]
          rfl
        rw [← value] at user ⊢
        obtain ⟨flags, there⟩ := map_of_entry (h.core x q here).refines (low_lt user.1) user.2
        refine setWord_page fun eq => out ?_
        rw [eq]
        exact .inr (.inr ⟨v, flags, user.1, there⟩)
      rfl
  | copyout dstva src =>
    obtain ⟨q, alive, rfl⟩ := map_eq_some_iff.mp
      (show (live s x).map (fun q => s.setMem (copyout s.mem q.root dstva src).2) = some s' by
        simpa only [userStep, if_pos runs] using next)
    have here := proc_of_live alive
    have live : s.proc x ≠ none := here ▸ some_ne_none q
    have core := h.core x q here
    obtain ⟨free, words⟩ := copyout_words core.refines core.image
      (fun z leaf table => by cases h.part.distinct (.user x) (.table x) z ⟨live, leaf⟩ ⟨live, table⟩)
      dstva src
    have same : (⟨(copyout s.mem q.root dstva src).2.words, s.mem.free⟩ : Mem) =
        (copyout s.mem q.root dstva src).2 := by rw [← free]
    have inv : Inv code own pool (s.setMem (copyout s.mem q.root dstva src).2) tables maps := by
      rw [← same]
      exact h.write fun r live' z table => words z fun leaf => by
        cases h.part.distinct (.user x) (.table r) z ⟨live, leaf⟩ ⟨live', table⟩
    exact ⟨live, inv.sound runs, fun _ _ => rfl, fun z out => words z fun leaf =>
      out (.inr (.inr leaf))⟩
  | sbrk n =>
    have call : (if -2 ^ 31 ≤ n ∧ n < 2 ^ 31 then (live s x).map (sbrk s x n) else none) =
        some s' := by simpa only [userStep, Vm.step, if_pos runs] using next
    obtain ⟨int, call⟩ := ite_none_right_eq_some.mp call
    obtain ⟨q, alive, rfl⟩ := map_eq_some_iff.mp call
    have here := proc_of_live alive
    obtain ⟨r, k', t, m, run, -, keeps, -⟩ := (h.space small here).growproc (h.image here) int.2
    refine ⟨here ▸ some_ne_none q, sbrk_sound small h runs here int.2, fun y other => ?_,
      fun z out => ?_⟩
    · rw [sbrk, run]
      cases r with
      | none => rfl
      | some sz => exact setProc_of_ne _ _ other
    rw [sbrk, run]
    cases r with
    | none => exact keeps.frame z out
    | some sz => exact keeps.frame z out

variable {a : Nat × UserAct}

lemma userStep_runs (next : userStep code s a = some s') :
    s.halted = none := by
  by_contra stopped
  obtain ⟨x, a⟩ := a
  cases a with
  | store | copyout | sbrk => simp [userStep, Vm.step, stopped] at next

lemma Sound.userStep (h : Sound code own pool s)
    (small : ∀ z ∈ pool, z < phystop) (next : Vm.userStep code s a = some s') :
    Sound code own pool s' ∧ ∀ y, y ≠ a.1 → view s' y = view s y := by
  have runs := userStep_runs next
  obtain ⟨tables, maps, inv⟩ := h.inv runs
  obtain ⟨live, acted⟩ := inv.acted small runs next
  exact ⟨acted.sound, fun y other => inv.view_eq (acted.others y other) fun live' z mine =>
    acted.words z (inv.apart other.symm live live' mine)⟩

end

section
variable {k k' : Mem} {old root n v code frame : Nat} {tables source : Set Nat} {m parent : Map}

lemma Space.uvmcopyLoop_copied (h : Space k root tables m) (img : Image m v code frame)
    (r : Refines k.words old source parent) (apart : ∀ x ∈ source, ¬ Own k tables m x)
    (mapped : ∀ j < v + n, parent j ≠ none) (readable : ∀ j x f, parent j = some (x, f) →
    f / 2 % 2 = 1) (outside : ∀ j < v + n, ∀ x f, parent j = some (x, f) → ¬ Own k tables m x)
    (run : Vm.uvmcopyLoop old root n v k = some (none, k')) :
    ∃ tables' m', Space k' root tables' m' ∧ Keeps k tables m k' tables' m' ∧ Extends v m m' ∧
    Image m' (v + n) code frame ∧ ∀ j, v ≤ j → j < v + n → ∀ x f, parent j = some (x, f) → ∃ x',
    m' j = some (x', f) ∧ Own k tables m x' ∧ k'.words x' = k.words x := by
  induction n generalizing k tables m v with
  | zero =>
    cases run
    exact ⟨tables, m, h, .refl, fun _ _ => rfl, img, fun j first last => absurd first (by omega)⟩
  | succ n ih =>
    have low := img.below h
    obtain ⟨⟨page, flags⟩, here⟩ := ne_none_iff_exists'.mp (mapped v (by omega))
    rcases h.uvmcopyRound img r here (readable v page flags here) n with
      ⟨k₁, tables₁, fails, -⟩ | ⟨k₁, tables₁, page', round, space, keeps, free, contents⟩
    · rw [fails] at run
      cases run
    rw [round] at run
    obtain ⟨tables', m', space', keeps', ext, img', copied⟩ := ih space (img.grow low)
      (refines_congr r fun x mem => keeps.frame x (apart x mem))
      (fun x mem own => apart x mem ((keeps.own x).mp own)) (fun j less => mapped j (by omega))
      (fun j less x f there own => outside j (by omega) x f there ((keeps.own x).mp own)) run
    have all : Extends v m m' := (extends_update low).trans ext (Nat.le_succ v)
    have first := img.leaves_subset (extends_update (e := some (page', flags)) low)
    have there : m' v = some (page', flags) := by rw [ext v (by omega), update_self]
    have mine : page' ∈ leaves (update m v (some (page', flags))) :=
      ⟨v, flags, low, update_self ..⟩
    refine ⟨tables', m', space', keeps.trans keeps' fun x mem _ => first x mem, all,
      by rwa [show v + (n + 1) = v + 1 + n by omega], fun j from_v below x f at_j => ?_⟩
    by_cases same : j = v
    · subst same
      cases here.symm.trans at_j
      refine ⟨page', there, .inl free, ?_⟩
      rw [keeps'.kept page' mine ⟨j, flags, low, there⟩, contents]
    obtain ⟨x', mapped', own, words⟩ := copied j (by omega) (by omega) x f at_j
    exact ⟨x', mapped', (keeps.own x').mp own, words.trans (keeps.frame x
      (outside j below x f at_j))⟩

lemma Space.uvmcopy_copied {sz : Nat} (h : Space k root tables m) (img : Image m 0 code frame)
    (r : Refines k.words old source parent) (apart : ∀ x ∈ source, ¬ Own k tables m x)
    (mapped : ∀ j < pages sz, parent j ≠ none)
    (readable : ∀ j x f, parent j = some (x, f) → f / 2 % 2 = 1)
    (outside : ∀ j < pages sz, ∀ x f, parent j = some (x, f) → ¬ Own k tables m x)
    (run : Vm.uvmcopy k old root sz = some (true, k')) : ∃ tables' m', Space k' root tables' m' ∧
    Keeps k tables m k' tables' m' ∧ Image m' (pages sz) code frame ∧
    ∀ j < pages sz, ∀ x f, parent j = some (x, f) → ∃ x', m' j = some (x', f) ∧ Own k tables m x' ∧
    k'.words x' = k.words x := by
  rw [Vm.uvmcopy] at run
  split at run
  · cases run
  · rename_i loop
    cases run
    rw [← Nat.zero_add (pages sz)] at mapped outside
    obtain ⟨tables', m', space, keeps, -, img', copied⟩ :=
      h.uvmcopyLoop_copied img r apart mapped readable outside loop
    rw [Nat.zero_add] at img' copied
    exact ⟨tables', m', space, keeps, img', fun j => copied j (Nat.zero_le j)⟩
  obtain ⟨k, -, eq⟩ := map_eq_some_iff.mp run
  cases eq

end

section
variable {code : Nat} {own pool : Set Nat} {s : Kernel} {tables : Nat → Set Nat}
  {maps : Nat → Map} {p c : Nat} {q child : Proc}

lemma dupAll_fields (es : List End) (s : Kernel) :
    (dupAll es s).mem = s.mem ∧ (dupAll es s).proc = s.proc := by
  induction es generalizing s with
  | nil => exact ⟨rfl, rfl⟩
  | cons e es ih =>
    rw [dupAll]
    split_ifs
    · exact ⟨rfl, rfl⟩
    exact ih (s.setRef e (s.ref e + 1))

/-- The child of a `fork`: its map has a new page with the contents of the parent's page and its
flags for every page of the parent. -/
structure Copied (code : Nat) (s : Kernel) (parent : Map) (q child : Proc) (t : Kernel) (m : Map) :
    Prop where
  size : child.sz = q.sz
  image : Image m (pages q.sz) code child.frame
  kept : ∀ x ∉ s.mem.free, t.mem.words x = s.mem.words x
  pages : ∀ j < pages q.sz, ∀ x f, parent j = some (x, f) →
    ∃ x', m j = some (x', f) ∧ x' ∈ s.mem.free ∧ t.mem.words x' = s.mem.words x

lemma fork_copied (small : ∀ x ∈ pool, x < phystop) (h : Inv code own pool s tables maps)
    (here : s.proc p = some q) (unused : s.proc c = none)
    (done : (fork s code p c q).proc c = some child) :
    (∀ r, r ≠ c → (fork s code p c q).proc r = s.proc r) ∧
    ∃ t m, Refines (fork s code p c q).mem.words child.root t m ∧
    Copied code s (maps p) q child (fork s code p c q) m := by
  have live : s.proc p ≠ none := here ▸ some_ne_none q
  rw [fork] at done ⊢
  have unchanged : ∀ t : Kernel, t.proc = s.proc → t.proc c ≠ some child := fun t same some => by
    rw [same, unused] at some
    cases some
  rcases h.allocproc small with empty | ⟨frame, k₀, run₀, made⟩
  · rw [empty] at done
    exact absurd done (unchanged s rfl)
  rw [run₀] at done ⊢
  dsimp only at done ⊢
  rcases made with ⟨k₁, run₁, -⟩ | ⟨root, k₁, t, m, run₁, new, image⟩
  · rw [run₁] at done
    exact absurd done (unchanged _ rfl)
  have notFree : ∀ x ∈ tables p, x ∉ s.mem.free := fun x mem free => by
    cases h.part.distinct .free (.table p) x free ⟨live, mem⟩
  have leafNotFree : ∀ x ∈ leaves (maps p), x ∉ s.mem.free := fun x mem free => by
    cases h.part.distinct .free (.user p) x free ⟨live, mem⟩
  have parent := h.core p q here
  have fits := parent.image.fits
  have refines := refines_congr parent.refines fun x mem => new.words x (notFree x mem)
  have apart : ∀ x ∈ tables p, ¬ Own k₁ t m x := fun x mem mine =>
    notFree x mem ((new.total x).mp (.inr mine))
  have mapped : ∀ j < pages q.sz, maps p j ≠ none := fun j less =>
    (parent.image.user j (lt_of_lt_of_le less fits)).mpr less
  have outside : ∀ j < pages q.sz, ∀ x f, maps p j = some (x, f) → x ∉ s.mem.free :=
    fun j less x f there => leafNotFree x ⟨j, f, lt_of_lt_of_le less fits, there⟩
  obtain ⟨b, k₂, -, -, run₂, -⟩ := new.space.uvmcopy q.sz image refines apart mapped parent.readable
  rw [run₁] at done ⊢
  change (s.after (uvmcopy k₁ q.root root q.sz) _).proc c = some child at done
  change (∀ r, r ≠ c → (s.after (uvmcopy k₁ q.root root q.sz) _).proc r = s.proc r) ∧ ∃ t m, Refines
    (s.after (uvmcopy k₁ q.root root q.sz) _).mem.words child.root t m ∧ Copied code s (maps p) q
    child (s.after (uvmcopy k₁ q.root root q.sz) _) m
  rw [run₂] at done ⊢
  cases b with
  | false => exact absurd done (unchanged _ rfl)
  | true =>
    obtain ⟨t₂, m₂, space₂, keeps₂, image₂, copied⟩ := new.space.uvmcopy_copied image refines apart
      mapped parent.readable (fun j less x f there mine => outside j less x f there ((new.total
      x).mp (.inr mine))) run₂
    have new₂ := new.keeps space₂ keeps₂
    dsimp only [Kernel.after, elim_some] at done ⊢
    simp only [if_true] at done ⊢
    obtain ⟨mem, proc⟩ := dupAll_fields q.ofile ((s.setMem k₂).setProc c
      (some ⟨root, q.sz, frame, p, false, q.ofile⟩))
    rw [proc, setProc_self] at done
    cases done
    refine ⟨fun r other => ?_, t₂, m₂, ?_, rfl, image₂, fun x out => ?_, fun j less x f there => ?_⟩
    · rw [proc, setProc_of_ne _ _ other]
      rfl
    · rw [mem]
      exact space₂.refines
    · rw [mem]
      exact new₂.words x out
    obtain ⟨x', there', own, words⟩ := copied j less x f there
    refine ⟨x', there', (new.total x').mp (.inr own), ?_⟩
    rw [mem]
    exact words.trans (new.words x (outside j less x f there))

/-- After a successful `fork` the child sees the memory of the parent, in pages of its own, and the
parent sees what it saw before. Afterwards no store, `copyout` or `sbrk` of one process changes
what another one sees. -/
theorem fork_isolates_memory {code : Nat} {own : Set Nat} {words : Words} {free : List Nat}
    (nodup : free.Nodup) (apart : ∀ x ∈ free, x ∉ own)
    (small : ∀ x, x ∈ free ∨ x ∈ own → x < phystop) {as : List Act} {s t : Kernel}
    (run : Run (Vm.step code) Free (boot words free) as s) {p c : Nat} {q child : Proc}
    (parent : s.proc p = some q) (call : Vm.step code s (.fork p c) = some t)
    (done : t.proc c = some child) :
    view t c = view t p ∧
      (∀ v < pages q.sz, pte2pa (entry t.mem.words child.root v) ≠
        pte2pa (entry t.mem.words q.root v)) ∧
      (t.proc p = s.proc p ∧ view t p = view s p ∧ ∀ v, v * pgsize < maxva →
        entry t.mem.words q.root v = entry s.mem.words q.root v) ∧
      ∀ bs u, Run (userStep code) Free t bs u → ∀ x y, x ≠ y → ∀ cs w,
        Run (userStep code) (fun _ a => a.1 = x) u cs w → view w y = view u y := by
  have sound := run_sound nodup apart small run
  have runs : s.halted = none := by
    by_contra stopped
    rw [Vm.step, if_neg stopped] at call
    cases call
  obtain ⟨tables, maps, h⟩ := sound.inv runs
  have call' : (if s.proc c = none then (live s p).map (fork s code p c) else none) = some t := by
    simpa only [Vm.step, if_pos runs] using call
  obtain ⟨unused, call'⟩ := ite_none_right_eq_some.mp call'
  obtain ⟨q', alive, rfl⟩ := map_eq_some_iff.mp call'
  cases parent.symm.trans (proc_of_live alive)
  have live : s.proc p ≠ none := parent ▸ some_ne_none q
  have other : p ≠ c := fun eq => live (eq ▸ unused)
  obtain ⟨others, ts, m, r, copied⟩ := fork_copied small h parent unused done
  have image := h.image parent
  have fits := image.fits
  have kept : ∀ z, z ∈ tables p ∨ z ∈ leaves (maps p) →
      (fork s code p c q).mem.words z = s.mem.words z := by
    intro z mine
    refine copied.kept z fun free => ?_
    rcases mine with table | leaf
    · cases h.part.distinct .free (.table p) z free ⟨live, table⟩
    · cases h.part.distinct .free (.user p) z free ⟨live, leaf⟩
  have rp : Refines (fork s code p c q).mem.words q.root (tables p) (maps p) :=
    refines_congr (h.core p q parent).refines fun z table => kept z (.inl table)
  have page : ∀ v < pages q.sz, ∃ x f x', maps p v = some (x, f) ∧ m v = some (x', f) ∧ x' ≠ x ∧
      (fork s code p c q).mem.words x' = (fork s code p c q).mem.words x := by
    intro v inside
    have low : v < trapframe := lt_of_lt_of_le inside fits
    obtain ⟨⟨x, f⟩, here⟩ := ne_none_iff_exists'.mp ((image.user v low).mpr inside)
    obtain ⟨x', there, free, words⟩ := copied.pages v inside x f here
    refine ⟨x, f, x', here, there, ?_, words.trans (kept x (.inr ⟨v, f, low, here⟩)).symm⟩
    rintro rfl
    cases h.part.distinct .free (.user p) x' free ⟨live, v, f, low, here⟩
  have sound' := sound.step small call
  refine ⟨?_, fun v inside => ?_, ⟨others p other, h.view_eq (others p other) fun _ => kept,
    fun v below => ?_⟩, ?_⟩
  · unfold view
    rw [done, others p other, parent]
    refine congrArg some (Prod.ext copied.size (funext fun v => ?_))
    dsimp only
    rw [seen_eq r, seen_eq rp]
    split_ifs with low
    · by_cases inside : v < pages q.sz
      · obtain ⟨x, f, x', here, there, -, words⟩ := page v inside
        rw [here, there, map_some, map_some, words]
      · rw [image.empty low (Nat.not_lt.mp inside), copied.image.empty low (Nat.not_lt.mp inside)]
    · rfl
  · obtain ⟨x, f, x', here, there, ne, -⟩ := page v inside
    have below := low_lt (lt_of_lt_of_le inside fits)
    rw [entry_eq r below, entry_eq rp below, here, there]
    change pte2pa (x' * 1024 + f) ≠ pte2pa (x * 1024 + f)
    rw [(entry_bits r there).2.2, (entry_bits rp here).2.2]
    exact ne
  · have low : v < 67108864 := by
      change v * 4096 < 274877906944 at below
      omega
    rw [entry_eq rp low, entry_eq (h.core p q parent).refines low]
  intro bs u first x y ne cs w second
  have begun := first.invariant (I := Sound code own {x | x ∈ free ∨ x ∈ own})
    (fun _ _ _ h _ next => (h.userStep small next).1) sound'
  exact (second.invariant (I := fun w => Sound code own {x | x ∈ free ∨ x ∈ own} w ∧
      view w y = view u y) (fun _ _ _ h mine next => by
    obtain ⟨sound, same⟩ := h.1.userStep small next
    exact ⟨sound, (same y fun eq => ne (mine.symm.trans eq.symm)).trans h.2⟩)
    ⟨begun, rfl⟩).2

/-- The first process forks, and the child writes to its copy, grows, and gets a result of a system
call. -/
theorem child_writes_to_its_copy :
    ∃ s t child w, Run (Vm.step 50) Free (boot (fun _ _ => 0) smallMemory) [.userinit fun _ => 7] s ∧
      Vm.step 50 s (.fork 1 2) = some t ∧ t.proc 2 = some child ∧
      Run (userStep 50) (fun _ a => a.1 = 2) t
        [(2, .store 0 0 5), (2, .sbrk 4096), (2, .copyout 4090 [1, 2, 3, 4, 5, 6, 7])] w ∧
      view t 2 = view t 1 ∧ view w 1 = view s 1 := by
  obtain ⟨s, run, here, forked⟩ : ∃ s, Run (Vm.step 50) Free (boot (fun _ _ => 0) smallMemory)
      [.userinit fun _ => 7] s ∧ (s.proc 1).isSome = true ∧
      ((Vm.step 50 s (.fork 1 2)).any fun t => (t.proc 2).isSome &&
        (execute (userStep 50) (fun _ a => a.1 = 2) t
          [(2, .store 0 0 5), (2, .sbrk 4096),
            (2, .copyout 4090 [1, 2, 3, 4, 5, 6, 7])]).isSome) = true :=
    Run.exists_of_execute (by decide +kernel)
  obtain ⟨q, parent⟩ := isSome_iff_exists.mp here
  obtain ⟨t, call, later⟩ := (any_eq_true _ _).mp forked
  obtain ⟨born, later⟩ := Bool.and_eq_true_iff.mp later
  obtain ⟨child, done⟩ := isSome_iff_exists.mp born
  obtain ⟨w, acts⟩ := isSome_iff_exists.mp later
  obtain ⟨copy, -, ⟨-, kept, -⟩, apart⟩ := fork_isolates_memory (by decide) smallMemory_apart
    smallMemory_below run parent call done
  exact ⟨s, t, child, w, run, call, done, .of_execute acts, copy,
    (apart [] t (.nil t) 2 1 (by decide) _ w (.of_execute acts)).trans kept⟩

end
end Xv6.Vm
