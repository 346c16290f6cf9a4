import Xv6.Sysfile

/-! A call that returns -1 leaves everything as it was, except an `open` that has created its file
and then finds no free `struct file` or no free descriptor. -/
namespace Xv6.Sysfile
open Option

open Fs (Kind)
open Function (update update_comm update_eq_self update_idem update_of_ne update_self)

/-- An allocated inode that nothing refers to has links, and a free inode is empty and nothing
refers to it: what `iput` and `ialloc` keep between calls. -/
structure Settled (s : State) : Prop where
  linked : ∀ n, (s.inode n).type ≠ .none → s.ref n = 0 → (s.inode n).nlink ≠ 0
  free : ∀ n, (s.inode n).type = .none → s.inode n = .empty ∧ s.ref n = 0

/-- What the lookups need: `iput` of a further reference frees nothing. -/
def Calm (s : State) : Prop :=
  ∀ n, s.ref n = 0 → (s.inode n).nlink = 0 → s.inode n = .empty

namespace State
variable {s : State} {n d : Nat} {i : Inode}

lemma setInode_self : (s.setInode n i).inode n = i := update_self ..

lemma setInode_of_ne (other : d ≠ n) : (s.setInode n i).inode d = s.inode d :=
  update_of_ne other ..

lemma setInode_same (same : s.inode n = i) : s.setInode n i = s := by
  rw [setInode, ← same, update_eq_self]

lemma setInode_twice {j : Inode} : (s.setInode n i).setInode n j = s.setInode n j := by
  rw [setInode, setInode]
  exact congrArg (fun f => { s with inode := f }) (update_idem ..)

variable {r : Nat} {path : Path}

lemma setRef_self : (s.setRef n r).ref n = r := update_self ..

lemma setRef_of_ne (other : d ≠ n) : (s.setRef n r).ref d = s.ref d := update_of_ne other ..

lemma setRef_same (same : s.ref n = r) : s.setRef n r = s := by
  rw [setRef, ← same, update_eq_self]

lemma setRef_twice {r' : Nat} : (s.setRef n r).setRef n r' = s.setRef n r' := by
  rw [setRef, setRef]
  exact congrArg (fun f => { s with ref := f }) (update_idem ..)

lemma iget_ref_self : (s.iget n).ref n = s.ref n + 1 := setRef_self

lemma iget_ref_of_ne (other : d ≠ n) : (s.iget n).ref d = s.ref d := setRef_of_ne other

lemma iget_comm (s : State) (n d : Nat) : (s.iget n).iget d = (s.iget d).iget n := by
  by_cases same : d = n
  · rw [same]
  rw [iget, iget_ref_of_ne same, iget, iget, iget, setRef_of_ne (Ne.symm same)]
  exact congrArg (fun f => { s with ref := f }) (update_comm (Ne.symm same) ..)

end State

open State

section
variable {s s' : State} {n d : Nat} {i : Inode} {name : Name} {room : Nat → Bool}

lemma Settled.calm (h : Settled s) : Calm s := by
  intro n unused unlinked
  by_cases free : (s.inode n).type = .none
  · exact (h.free n free).1
  exact absurd unlinked (h.linked n free unused)

lemma Calm.iget (h : Calm s) (n : Nat) : Calm (s.iget n) := by
  intro d unused unlinked
  by_cases same : d = n
  · rw [same, iget_ref_self] at unused
    omega
  rw [iget_ref_of_ne same] at unused
  exact h d unused unlinked

lemma Calm.setInode (h : Calm s) (used : s.ref n ≠ 0) : Calm (s.setInode n i) := by
  intro d unused unlinked
  have other : d ≠ n := by
    rintro rfl
    exact used unused
  rw [setInode_of_ne other] at unlinked ⊢
  exact h d unused unlinked

lemma Calm.iput (h : Calm s) (n : Nat) : (s.iget n).iput n = s := by
  rw [State.iput, iget_ref_self, Nat.add_sub_cancel]
  split_ifs with last
  · have empty := h n (by omega) last.2
    rw [setInode_same (show (s.iget n).inode n = .empty from empty), State.iget, setRef_twice,
      setRef_same rfl]
  rw [State.iget, setRef_twice, setRef_same rfl]

lemma Calm.move (h : Calm s) (n d : Nat) : ((s.iget n).iget d).iput n = s.iget d := by
  rw [iget_comm]
  exact (h.iget d).iput n

variable {r : Option (Nat × Name)}

lemma namexLoop_spec {parent : Bool} {elems : List Name} (h : Calm s)
    (run : namexLoop parent elems (s.iget n) n = some (r, s')) : (r = none ∧ s' = s) ∨ ∃ ip name,
    r = some (ip, name) ∧ s' = s.iget ip ∧ (parent = true → (s.inode ip).type = .dir) := by
  induction elems generalizing n with
  | nil =>
    rw [namexLoop] at run
    split_ifs at run with up
    · cases run
      exact .inl ⟨rfl, h.iput n⟩
    cases run
    exact .inr ⟨n, [], rfl, rfl, fun yes => absurd yes up⟩
  | cons name rest ih =>
    rw [namexLoop] at run
    split_ifs at run with free file last
    · cases run
      exact .inl ⟨rfl, h.iput n⟩
    · cases run
      exact .inr ⟨n, name, rfl, rfl, fun _ => of_not_not file⟩
    cases found : (s.iget n).dirlookup n name with
    | none =>
      rw [found] at run
      cases run
      exact .inl ⟨rfl, h.iput n⟩
    | some next =>
      rw [found] at run
      dsimp only at run
      rw [h.move] at run
      exact ih run

lemma namex_spec {parent : Bool} (h : Calm s) (run : namex s path parent = some (r, s')) :
    (r = none ∧ s' = s) ∨ ∃ ip name, r = some (ip, name) ∧ s' = s.iget ip ∧
    (parent = true → (s.inode ip).type = .dir) := namexLoop_spec h run

lemma dirlink_spec (h : Calm s) (room : Nat → Bool) (d : Nat) (name : Name)
    (n : Nat) : dirlink room s d name n = (false, s) ∨ dirlink room s d name n =
    (true, s.setInode d { s.inode d with entries := (s.inode d).entries ++ [(name, n)] }) := by
  rw [dirlink]
  cases s.dirlookup d name with
  | some ip =>
    dsimp only
    rw [h.iput]
    exact .inl rfl
  | none =>
    dsimp only
    split_ifs
    · exact .inr rfl
    exact .inl rfl

end

section
variable {s s' : State} {ip dp : Nat} {i : Inode} {name : Name} {room : Nat → Bool} {type : Kind}
  {major : Int}

lemma undo_spec (h : Calm s) (other : ip ≠ dp) (empty : s.inode ip = .empty)
    (unused : s.ref ip = 0) (i : Inode) : undo (((s.iget dp).iget ip).setInode ip i) ip dp = s := by
  have freed : ((((s.iget dp).iget ip).setInode ip i).setNlink ip 0).iput ip = s.iget dp := by
    have ref : ((s.iget dp).iget ip).ref ip = 1 := by
      rw [iget_ref_self, iget_ref_of_ne other, unused]
    have refs : ((((s.iget dp).iget ip).setInode ip i).setNlink ip 0).ref ip = 1 := ref
    have link : (((((s.iget dp).iget ip).setInode ip i).setNlink ip 0).inode ip).nlink = 0 := by
      rw [setNlink, setInode_self]
    rw [State.iput, refs, if_pos ⟨rfl, link⟩, setNlink, setInode_twice, setInode_twice,
      setInode_same (show ((s.iget dp).iget ip).inode ip = .empty from empty), State.iget, setRef_twice,
      setRef_same]
    rw [iget_ref_of_ne other, unused]
  rw [undo, freed, h.iput]

lemma linkDots_spec (h : Calm s) (used : s.ref ip ≠ 0) (room : Nat → Bool) (dp : Nat) : ∃ b
    entries, linkDots room s ip dp = (b, s.setInode ip { s.inode ip with entries := entries }) := by
  rw [linkDots]
  rcases dirlink_spec h room ip dot ip with eq | eq
  · rw [eq]
    exact ⟨false, (s.inode ip).entries, by rw [setInode_same rfl]; rfl⟩
  rw [eq]
  dsimp only
  rw [if_pos rfl]
  rcases dirlink_spec (h.setInode used) room ip dotdot dp with eq' | eq'
  · exact ⟨_, _, eq'⟩
  rw [eq', setInode_twice, setInode_self]
  exact ⟨_, _, rfl⟩

/-- What `create` returns with: nothing changed, or one more reference to an existing file, or a
new inode with one link. -/
def Created (s : State) (type : Kind) (r : Option Nat) (s' : State) : Prop :=
  (r = none ∧ s' = s) ∨
    ∃ ip, r = some ip ∧ ((s.inode ip).type ≠ .none ∧ s' = s.iget ip ∨
      (s.inode ip).type = .none ∧ (s'.inode ip).type = type ∧ (s'.inode ip).nlink = 1 ∧
        s'.file = s.file ∧ s'.ofile = s.ofile)

lemma iput_inode_of_ne {n : Nat} (other : n ≠ dp) : (s.iput dp).inode n = s.inode n := by
  rw [State.iput]
  split_ifs
  · exact setInode_of_ne other
  rfl

lemma iput_file : (s.iput dp).file = s.file := by
  rw [State.iput]
  split_ifs <;> rfl

lemma iput_ofile : (s.iput dp).ofile = s.ofile := by
  rw [State.iput]
  split_ifs <;> rfl

lemma createNew_spec (h : Settled s) (dir : (s.inode dp).type = .dir) (room : Nat → Bool)
    (name : Name) (type : Kind) (major : Int) : Created s type (createNew room (s.iget dp) dp name
    type major).1 (createNew room (s.iget dp) dp name type major).2 := by
  rw [createNew]
  cases found : (s.iget dp).ialloc with
  | none => exact .inl ⟨rfl, h.calm.iput dp⟩
  | some ip =>
    have free : ((s.iget dp).inode ip).type = .none := by simpa using List.find?_some found
    change (s.inode ip).type = .none at free
    obtain ⟨empty, unused⟩ := h.free ip free
    have other : ip ≠ dp := by
      rintro rfl
      rw [dir] at free
      cases free
    have used : ((s.iget dp).iget ip).ref ip ≠ 0 := by
      rw [iget_ref_self]
      omega
    have calm : Calm ((s.iget dp).iget ip) := (h.calm.iget dp).iget ip
    dsimp only
    -- the entries of a new directory change the new inode only
    obtain ⟨b, i, type', nlink, eq⟩ : ∃ b i, i.type = type ∧ i.nlink = 1 ∧
        (if type = .dir then
          linkDots room (((s.iget dp).iget ip).setInode ip ⟨type, major, 1, [], []⟩) ip dp
        else (true, ((s.iget dp).iget ip).setInode ip ⟨type, major, 1, [], []⟩)) =
          (b, ((s.iget dp).iget ip).setInode ip i) := by
      split_ifs
      · obtain ⟨b, entries, eq⟩ := linkDots_spec
          (calm.setInode (i := ⟨type, major, 1, [], []⟩) used) used room dp
        rw [setInode_twice, setInode_self] at eq
        exact ⟨b, _, rfl, rfl, eq⟩
      exact ⟨true, _, rfl, rfl, rfl⟩
    rw [eq]
    cases b with
    | false => exact .inl ⟨rfl, undo_spec h.calm other empty unused i⟩
    | true =>
      dsimp only
      rw [if_pos rfl]
      rcases dirlink_spec (calm.setInode (i := i) used) room dp name ip with fails | links
      · rw [fails]
        exact .inl ⟨rfl, undo_spec h.calm other empty unused i⟩
      rw [links]
      dsimp only
      rw [if_pos rfl]
      refine .inr ⟨ip, rfl, .inr ⟨free, ?_⟩⟩
      rw [iput_inode_of_ne other, iput_file, iput_ofile]
      split_ifs
      · rw [setNlink, setInode_of_ne other, setInode_of_ne other, setInode_self]
        exact ⟨type', nlink, rfl, rfl⟩
      rw [setInode_of_ne other, setInode_self]
      exact ⟨type', nlink, rfl, rfl⟩

lemma create_spec {r : Option Nat} (h : Settled s)
    (run : create room s path type major = some (r, s')) : Created s type r s' := by
  rw [create] at run
  cases found : namex s path true with
  | none =>
    rw [found] at run
    cases run
  | some e =>
    obtain ⟨e, s₁⟩ := e
    rw [found] at run
    rcases namex_spec h.calm found with ⟨rfl, rfl⟩ | ⟨dp, name, rfl, rfl, dir⟩
    · cases run
      exact .inl ⟨rfl, rfl⟩
    dsimp only at run
    cases there : (s.iget dp).dirlookup dp name with
    | none =>
      rw [there] at run
      have spec := createNew_spec h (dir rfl) room name type major
      rw [some.inj run] at spec
      exact spec
    | some ip =>
      rw [there] at run
      dsimp only at run
      rw [h.calm.move] at run
      split_ifs at run with free kind
      · cases run
        exact .inr ⟨ip, rfl, .inl ⟨free, rfl⟩⟩
      cases run
      exact .inl ⟨rfl, h.calm.iput ip⟩

end

/-- A new file can be made: the directory of the path is found, does not have the name and has room
for it, and there is a free inode. -/
def Creatable (room : Nat → Bool) (s : State) (path : Path) : Prop :=
  ∃ dp name s', namex s path true = some (some (dp, name), s') ∧ s.dirlookup dp name = none ∧
    s.ialloc ≠ none ∧ room dp = true

lemma creatable_iff {room : Nat → Bool} {s : State} {path : Path} (h : Settled s) :
    Creatable room s path ↔ ∃ ip s', create room s path .file 0 = some (some ip, s') ∧
    (s.inode ip).type = .none := by
  rw [Creatable, create]
  cases found : namex s path true with
  | none => simp
  | some e =>
    obtain ⟨e, s₁⟩ := e
    rcases namex_spec h.calm found with ⟨rfl, rfl⟩ | ⟨dp, name, rfl, rfl, dir⟩
    · simp
    dsimp only
    rw [show (s.iget dp).dirlookup dp name = s.dirlookup dp name from rfl]
    cases there : s.dirlookup dp name with
    | some ip =>
      dsimp only
      rw [h.calm.move, show (s.iget ip).inode = s.inode from rfl]
      split_ifs <;> simp_all
    | none =>
      dsimp only
      rw [createNew, show (s.iget dp).ialloc = s.ialloc from rfl]
      cases free : s.ialloc with
      | none => simp
      | some n =>
        have type : (s.inode n).type = .none := by simpa using List.find?_some free
        have other : dp ≠ n := by
          rintro rfl
          cases type.symm.trans (dir rfl)
        have absent : ∀ i, (((s.iget dp).iget n).setInode n i).dirlookup dp name = none := by
          intro i
          rw [State.dirlookup, setInode_of_ne other]
          exact there
        cases full : room dp <;> simp [dirlink, absent, full, there, type]

/-- The `open` that leaves a new file behind: with `O_CREATE`, where a new file can be made, and no
free `struct file` or no free descriptor. -/
def Strands (room : Nat → Bool) (s : State) : Call → Prop
  | .open path omode => (omode &&& oCreate != 0) = true ∧ Creatable room s path ∧
      (s.filealloc = none ∨ s.fdalloc = none)
  | _ => False

section
variable {s s' : State} {ip omode : Nat} {room : Nat → Bool}

lemma file_undo {f : Fin nfile} (free : (s.file f).ref = 0) :
    (s.setFile f { s.file f with ref := 1 }).setFile f
      { (s.setFile f { s.file f with ref := 1 }).file f with ref := 0 } = s := by
  have entry : (s.setFile f { s.file f with ref := 1 }).file f = { s.file f with ref := 1 } :=
    update_self ..
  have same : update (update s.file f { s.file f with ref := 1 }) f (s.file f) =
      s.file := by rw [update_idem, update_eq_self]
  have back : ({ ({ s.file f with ref := 1 } : File) with ref := 0 } : File) = s.file f :=
    congrArg (fun r => ({ s.file f with ref := r } : File)) free.symm
  rw [entry, back]
  exact congrArg (fun g => { s with file := g }) same

lemma openInode_fails (failed : (openInode s ip omode).1 = false) :
    (openInode s ip omode).2 = s.iput ip := by
  rw [openInode] at failed ⊢
  by_cases device : (s.inode ip).type = .device ∧
      ((s.inode ip).major < 0 ∨ (ndev : Int) ≤ (s.inode ip).major)
  · rw [if_pos device]
  rw [if_neg device] at failed ⊢
  cases found : s.filealloc with
  | none => rfl
  | some f =>
    have free : (s.file f).ref = 0 := by simpa using List.find?_some found
    rw [found] at failed
    dsimp only at failed ⊢
    cases slot : (s.setFile f { s.file f with ref := 1 }).fdalloc with
    | none =>
      dsimp only
      rw [file_undo free]
    | some fd =>
      rw [slot] at failed
      cases failed

lemma openInode_full (ip omode : Nat) (full : s.filealloc = none ∨ s.fdalloc = none) :
    (openInode s ip omode).1 = false := by
  rw [openInode]
  by_cases device : (s.inode ip).type = .device ∧
      ((s.inode ip).major < 0 ∨ (ndev : Int) ≤ (s.inode ip).major)
  · rw [if_pos device]
  rw [if_neg device]
  cases found : s.filealloc with
  | none => rfl
  | some f =>
    have none : s.fdalloc = none := full.resolve_left (found ▸ some_ne_none f)
    have same : (s.setFile f { s.file f with ref := 1 }).fdalloc = Option.none := none
    dsimp only
    rw [same]

lemma openInode_ok (omode : Nat) (file : (s.inode ip).type ≠ .device)
    (room : s.filealloc ≠ none ∧ s.fdalloc ≠ none) : (openInode s ip omode).1 = true := by
  rw [openInode, if_neg fun device => file device.1]
  obtain ⟨f, found⟩ := ne_none_iff_exists'.mp room.1
  obtain ⟨fd, slot⟩ := ne_none_iff_exists'.mp room.2
  have same : (s.setFile f { s.file f with ref := 1 }).fdalloc = some fd := slot
  rw [found]
  dsimp only
  rw [same]

lemma filealloc_congr (same : s'.file = s.file) : s'.filealloc = s.filealloc := by
  rw [filealloc, filealloc, same]

lemma fdalloc_congr (same : s'.ofile = s.ofile) : s'.fdalloc = s.fdalloc := by
  rw [fdalloc, fdalloc, same]

lemma stranded (h : Settled s) (made : create room s path .file 0 = some (some ip, s'))
    (new : (s.inode ip).type = .none) : (s'.iput ip).inode ip ≠ s.inode ip := by
  rcases create_spec h made with ⟨eq, -⟩ | ⟨ip', eq, made⟩
  · exact absurd eq (some_ne_none ip)
  cases eq
  rcases made with ⟨old, -⟩ | ⟨-, type, nlink, -⟩
  · exact absurd new old
  intro same
  have link : ¬ (s'.ref ip = 1 ∧ (s'.inode ip).nlink = 0) := by
    rintro ⟨-, zero⟩
    rw [nlink] at zero
    exact absurd zero (by decide)
  rw [State.iput, if_neg link] at same
  have types := congrArg Inode.type same
  rw [new] at types
  exact absurd (type.symm.trans types) (by decide)

lemma sysMake_fails {type : Kind} {major : Int} (h : Settled s)
    (run : sysMake room s path type major = some (false, s')) : s' = s := by
  obtain ⟨⟨r, s₁⟩, made, eq⟩ := map_eq_some_iff.mp run
  cases r with
  | none =>
    cases eq
    rcases create_spec h made with ⟨-, same⟩ | ⟨ip, eq, -⟩
    · exact same
    cases eq
  | some ip => cases eq

lemma sysUnlink_fails (h : Settled s) (run : sysUnlink s path = some (false, s')) : s' = s := by
  rw [sysUnlink] at run
  cases found : namex s path true with
  | none =>
    rw [found] at run
    cases run
  | some e =>
    obtain ⟨e, s₁⟩ := e
    rw [found] at run
    rcases namex_spec h.calm found with ⟨rfl, rfl⟩ | ⟨dp, name, rfl, rfl, -⟩
    · cases run
      rfl
    dsimp only at run
    split_ifs at run with dots
    · cases run
      exact h.calm.iput dp
    cases there : (s.iget dp).dirlookup dp name with
    | none =>
      rw [there] at run
      cases run
      exact h.calm.iput dp
    | some ip =>
      rw [there] at run
      dsimp only at run
      split_ifs at run with bad full
      · cases run
        rw [(h.calm.iget dp).iput, h.calm.iput]
      · cases run
      cases run

lemma sysLink_fails {old new : Path} (h : Settled s)
    (run : sysLink room s old new = some (false, s')) : s' = s := by
  rw [sysLink] at run
  cases found : namex s old false with
  | none =>
    rw [found] at run
    cases run
  | some e =>
    obtain ⟨e, s₁⟩ := e
    rw [found] at run
    rcases namex_spec h.calm found with ⟨rfl, rfl⟩ | ⟨ip, name, rfl, rfl, -⟩
    · cases run
      rfl
    dsimp only at run
    split_ifs at run with free dir
    · cases run
      exact h.calm.iput ip
    -- one more link while the new name is looked up
    have used : (s.iget ip).ref ip ≠ 0 := by
      rw [iget_ref_self]
      omega
    have calm : Calm ((s.iget ip).setNlink ip (((s.iget ip).inode ip).nlink + 1)) :=
      (h.calm.iget ip).setInode used
    have back : (((s.iget ip).setNlink ip (((s.iget ip).inode ip).nlink + 1)).setNlink ip
        ((((s.iget ip).setNlink ip (((s.iget ip).inode ip).nlink + 1)).inode ip).nlink -
          1)).iput ip = s := by
      rw [setNlink, setNlink, setInode_twice, setInode_self, BitVec.add_sub_cancel,
        setInode_same rfl]
      exact h.calm.iput ip
    cases found' : namex ((s.iget ip).setNlink ip (((s.iget ip).inode ip).nlink + 1)) new true with
    | none =>
      rw [found'] at run
      cases run
    | some e =>
      obtain ⟨e, s₂⟩ := e
      rw [found'] at run
      rcases namex_spec calm found' with ⟨rfl, rfl⟩ | ⟨dp, name', rfl, rfl, -⟩
      · cases run
        exact back
      dsimp only at run
      rcases dirlink_spec (calm.iget dp) room dp name' ip with fails | links
      · rw [fails, if_neg Bool.false_ne_true] at run
        cases run
        dsimp only
        rw [calm.iput]
        exact back
      rw [links, if_pos rfl] at run
      cases run

end

/-- A call that fails has no effect, unless it is an `open` that strands a new file. -/
theorem failed_call_has_no_effect_iff (room : Nat → Bool) {s : State} (h : Settled s) (c : Call) :
    (∀ s', call room s c = some (false, s') → s' = s) ↔ ¬ Strands room s c := by
  constructor
  · intro same strands
    cases c with
    | «open» path omode =>
      obtain ⟨creates, can, full⟩ := strands
      obtain ⟨ip, s₁, made, new⟩ := (creatable_iff h).mp can
      have spec := create_spec h made
      have full' : s₁.filealloc = none ∨ s₁.fdalloc = none := by
        rcases spec with ⟨eq, -⟩ | ⟨ip', eq, made'⟩
        · exact absurd eq (some_ne_none ip)
        cases eq
        rcases made' with ⟨old, -⟩ | ⟨-, -, -, file, ofile⟩
        · exact absurd new old
        rw [filealloc_congr file, fdalloc_congr ofile]
        exact full
      have failed := openInode_full ip omode full'
      have run : call room s (.open path omode) = some (false, s₁.iput ip) := by
        rw [call, sysOpen, if_pos creates, made]
        dsimp only
        rw [← openInode_fails failed, ← failed]
      exact stranded h made new (congrArg (fun t => t.inode ip) (same _ run))
    | link _ _ | unlink _ | mkdir _ | mknod _ _ => exact strands
  intro fine s' run
  cases c with
  | link old new => exact sysLink_fails h run
  | unlink path => exact sysUnlink_fails h run
  | mkdir path | mknod path major => exact sysMake_fails h run
  | «open» path omode =>
    rw [call, sysOpen] at run
    split_ifs at run with creates
    · cases made : create room s path .file 0 with
      | none =>
        rw [made] at run
        cases run
      | some e =>
        obtain ⟨r, s₁⟩ := e
        rw [made] at run
        rcases create_spec h made with ⟨rfl, rfl⟩ | ⟨ip, rfl, spec⟩
        · cases run
          rfl
        dsimp only at run
        have failed : (openInode s₁ ip omode).1 = false :=
          congrArg Prod.fst (some.inj run)
        have result : (openInode s₁ ip omode).2 = s' :=
          congrArg Prod.snd (some.inj run)
        rw [openInode_fails failed] at result
        rcases spec with ⟨-, rfl⟩ | ⟨new, type, nlink, file, ofile⟩
        · exact result.symm.trans (h.calm.iput ip)
        refine absurd ⟨creates, (creatable_iff h).mpr ⟨ip, s₁, made, new⟩, ?_⟩ fine
        by_contra room'
        rw [not_or] at room'
        have ok := openInode_ok omode (type ▸ by decide :
          (s₁.inode ip).type ≠ .device)
          ⟨filealloc_congr file ▸ room'.1, fdalloc_congr ofile ▸ room'.2⟩
        exact absurd (failed.symm.trans ok) Bool.false_ne_true
    cases found : namex s path false with
    | none =>
      rw [found] at run
      cases run
    | some e =>
      obtain ⟨e, s₁⟩ := e
      rw [found] at run
      rcases namex_spec h.calm found with ⟨rfl, rfl⟩ | ⟨ip, name, rfl, rfl, -⟩
      · cases run
        rfl
      dsimp only at run
      split_ifs at run with free dir
      · cases run
        exact h.calm.iput ip
      have failed : (openInode (s.iget ip) ip omode).1 = false :=
        congrArg Prod.fst (some.inj run)
      have result : (openInode (s.iget ip) ip omode).2 = s' :=
        congrArg Prod.snd (some.inj run)
      rw [openInode_fails failed] at result
      exact result.symm.trans (h.calm.iput ip)

def fullTable : State where
  inode n := if n = 1 then ⟨.dir, 0, 1, [(dot, 1), (dotdot, 1)], []⟩ else .empty
  ref n := if n = 1 then 101 else 0
  file _ := ⟨1, 1, true, false⟩
  ofile _ := none
  cwd := 1

lemma fullTable_settled : Settled fullTable := by
  refine ⟨fun n type unused => ?_, fun n type => ?_⟩
  · by_cases root : n = 1
    · subst root
      exact absurd unused (by decide)
    exact absurd (congrArg Inode.type (if_neg root)) type
  have other : n ≠ 1 := by
    rintro rfl
    exact absurd type (by decide)
  exact ⟨if_neg other, if_neg other⟩

/-- `unlink("/a")` fails, and everything is as before. -/
theorem failed_unlink_has_no_effect :
    ∃ s', call (fun _ => true) fullTable (.unlink ⟨true, [[97]]⟩) = some (false, s') ∧
      s' = fullTable := by
  have fails : (call (fun _ => true) fullTable (.unlink ⟨true, [[97]]⟩)).any (fun r => !r.1) =
      true := by
    decide +kernel
  obtain ⟨⟨b, s'⟩, run, failed⟩ := any_eq_true _ _ |>.mp fails
  have no : b = false := Bool.not_eq_true' b |>.mp failed
  subst no
  exact ⟨s', run, (failed_call_has_no_effect_iff _ fullTable_settled _).mpr id s' run⟩

/-- `open("/a", O_CREATE | O_RDWR)` fails for lack of a `struct file`, and leaves the new file. -/
theorem failed_open_leaves_file :
    Settled fullTable ∧ ∃ s', call (fun _ => true) fullTable (.open ⟨true, [[97]]⟩ 0x202) =
        some (false, s') ∧ fullTable.dirlookup 1 [97] = none ∧ s'.dirlookup 1 [97] = some 2 ∧
      (s'.inode 2).type = .file ∧ (fullTable.inode 2).type = .none := by
  have fails : (call (fun _ => true) fullTable (.open ⟨true, [[97]]⟩ 0x202)).any (fun r =>
      decide (r.1 = false ∧ r.2.dirlookup 1 [97] = some 2 ∧ (r.2.inode 2).type = .file)) = true := by
    decide +kernel
  obtain ⟨⟨b, s'⟩, run, facts⟩ := any_eq_true _ _ |>.mp fails
  obtain ⟨no, entry, type⟩ := of_decide_eq_true facts
  dsimp only at no
  subst no
  exact ⟨fullTable_settled, s', run, by decide +kernel, entry, type, by decide +kernel⟩

end Xv6.Sysfile
