import Mathlib.Data.List.Infix
import Xv6.CString
import Xv6.ShellParser

/-! The parser of the shell with its pointers into the line, and `nulterminate`, which ends the
words in place. -/
namespace Xv6.Shell
open CString List
open Function (update update_apply)

/-- What `gettoken` stores at `q` and `eq` when it returns `a`. -/
structure Arg where
  q : List Char
  eq : List Char

def argAt (s : List Char) : Arg := ⟨skip s, (skip s).dropWhile plain⟩

/-- The characters from `q` to `eq`. -/
def Arg.word (a : Arg) : Word := a.q.takeWhile plain

instance : Kept Arg := ⟨fun s _ => argAt s⟩

def RedirOf.erase (r : RedirOf Arg) : Redir := ⟨r.file.word, r.mode, r.fd⟩

def CmdOf.erase : CmdOf Arg → Cmd
  | .exec argv => .exec (argv.map Arg.word)
  | .redir cmd r => .redir cmd.erase r.erase
  | .pipe left right => .pipe left.erase right.erase
  | .list left right => .list left.erase right.erase
  | .back cmd => .back cmd.erase

/-- All pointers of the tree. -/
def CmdOf.args : CmdOf Arg → List Arg
  | .exec argv => argv
  | .redir cmd r => cmd.args ++ [r.file]
  | .pipe left right | .list left right => left.args ++ right.args
  | .back cmd => cmd.args

namespace InPlace

abbrev Redir := RedirOf Arg
abbrev Cmd := CmdOf Arg

/-- The index in the line of a position. -/
def index (line s : List Char) : Nat := line.length - s.length

def nulterminate (line : List Char) : Cmd → (Nat → Char) → Nat → Char
  | .exec argv, buf => argv.foldl (fun buf a => update buf (index line a.eq) nul) buf
  | .redir cmd r, buf => update (nulterminate line cmd buf) (index line r.file.eq) nul
  | .pipe left right, buf | .list left right, buf =>
    nulterminate line right (nulterminate line left buf)
  | .back cmd, buf => nulterminate line cmd buf

/-- `parsecmd` of the line, which is in the buffer. -/
def parsecmd (line : List Char) (buf : Nat → Char) : Res (Cmd × (Nat → Char)) :=
  (parseline (4 * line.length + 4) line).bind fun r =>
    if (peek r.2 []).1 = [] then .ok (r.1, nulterminate line r.1 buf) else .panic .syntaxError

/-! ### The tree without its pointers -/

/-- The pointers are those of a word of the line. -/
structure IsWord (line : List Char) (a : Arg) : Prop where
  suffix : a.q <:+ line
  stop : a.eq = a.q.dropWhile plain

variable {line s s' : List Char} {rs : List Redir} {argv : List Arg} {c : Cmd}

lemma skip_suffix (s : List Char) : skip s <:+ s := dropWhile_suffix _

lemma gettoken_suffix (s : List Char) : (gettoken s).2 <:+ s := by
  have rest {t r : List Char} (h : t <:+ r) : skip t <:+ r := (skip_suffix t).trans h
  unfold gettoken
  cases all : skip s with
  | nil => exact nil_suffix
  | cons c r =>
    have here : c :: r <:+ s := all ▸ skip_suffix s
    have tail : r <:+ s := (suffix_cons c r).trans here
    dsimp only
    split
    · exact rest tail
    split_ifs
    · exact rest ((tail_suffix r).trans tail)
    · exact rest tail
    exact rest ((dropWhile_suffix _).trans here)

lemma gettoken_word {w : Word} (got : (gettoken s).1 = .word w) :
    w = (Kept.keep s w : Arg).word := by
  unfold gettoken at got
  change _ = takeWhile plain (skip s)
  cases all : skip s with
  | nil => simp [all] at got
  | cons c r =>
    simp only [all] at got
    split at got
    · next t one =>
      subst got
      cases (single_char one).1
    split_ifs at got
    exact (Tok.word.inj got).symm

lemma argAt_isWord (h : s <:+ line) : IsWord line (argAt s) := ⟨(skip_suffix s).trans h, rfl⟩

/-- Two parsers end in the same way. -/
inductive Rel {α β : Type} (R : α → β → Prop) : Res α → Res β → Prop
  | ok {a : α} {b : β} : R a b → Rel R (.ok a) (.ok b)
  | panic (m : Panic) : Rel R (.panic m) (.panic m)
  | fuel : Rel R .fuel .fuel

lemma Rel.bind {α β γ δ : Type} {R : α → β → Prop} {S : γ → δ → Prop} {r : Res α} {r' : Res β}
    {f : α → Res γ} {g : β → Res δ} (h : Rel R r r') (next : ∀ a b, R a b → Rel S (f a) (g b)) :
    Rel S (r.bind f) (r'.bind g) := by
  cases h with
  | ok same => exact next _ _ same
  | panic m => exact .panic m
  | fuel => exact .fuel

structure SameRedirs (line : List Char) (x : List Redir × List Char)
    (y : List Shell.Redir × List Char) : Prop where
  pos : x.2 = y.2
  suffix : x.2 <:+ line
  erased : x.1.map RedirOf.erase = y.1
  words : ∀ r ∈ x.1, IsWord line r.file

structure SameCmd (line : List Char) (x : Cmd × List Char) (y : Shell.Cmd × List Char) : Prop where
  pos : x.2 = y.2
  suffix : x.2 <:+ line
  erased : x.1.erase = y.1
  words : ∀ a ∈ x.1.args, IsWord line a

lemma erase_redirOf (t : Tok) (a : Arg) :
    (redirOf t a).map RedirOf.erase = redirOf t a.word := by cases t <;> rfl

lemma redirOf_file {t : Tok} {a : Arg} {r : Redir} (mem : r ∈ redirOf t a) : r.file = a := by
  cases t with
  | lt | gt | append => rw [mem_singleton.mp mem]
  | _ => cases mem

lemma erase_wrap (rs : List Redir) (c : Cmd) :
    (wrap rs c).erase = wrap (rs.map RedirOf.erase) c.erase := by
  induction rs generalizing c with
  | nil => rfl
  | cons r rs ih => exact ih (.redir c r)

lemma args_wrap (rs : List Redir) (c : Cmd) : (wrap rs c).args = c.args ++ rs.map RedirOf.file := by
  induction rs generalizing c with
  | nil => exact (append_nil _).symm
  | cons r rs ih =>
    refine (ih (.redir c r)).trans ?_
    rw [CmdOf.args, append_assoc]
    rfl

lemma SameCmd.wrap {y : Shell.Cmd} (suffix : s <:+ line) (erased : c.erase = y)
    (words : ∀ a ∈ c.args, IsWord line a) (files : ∀ r ∈ rs, IsWord line r.file) :
    SameCmd line (wrap rs c, s) (wrap (rs.map RedirOf.erase) y, s) := by
  refine ⟨rfl, suffix, erased ▸ erase_wrap rs c, fun a mem => ?_⟩
  rw [args_wrap] at mem
  rcases mem_append.mp mem with old | new
  · exact words a old
  obtain ⟨r, inRs, rfl⟩ := mem_map.mp new
  exact files r inRs

lemma peek_suffix (toks : List Char) (h : s <:+ line) : (peek s toks).1 <:+ line :=
  (skip_suffix s).trans h

lemma peek_gettoken_suffix (toks : List Char) (h : s <:+ line) :
    (gettoken (peek s toks).1).2 <:+ line := (gettoken_suffix _).trans (peek_suffix toks h)

lemma parseredirs_same (rs : List Redir) (s : List Char)
    (h : s <:+ line) (words : ∀ r ∈ rs, IsWord line r.file) :
    Rel (SameRedirs line) (parseredirs rs s) (parseredirs (rs.map RedirOf.erase) s) := by
  induction rs, s using parseredirs.induct with
  | case1 rs s more op file w word ih =>
    have after : op.2 <:+ line := peek_gettoken_suffix _ h
    have next := ih ((gettoken_suffix _).trans after) fun r mem => by
      rcases mem_append.mp mem with old | new
      · exact words r old
      exact redirOf_file new ▸ argAt_isWord after
    rw [map_append, erase_redirOf, ← gettoken_word word] at next
    rw [parseredirs, parseredirs, dif_pos more, dif_pos more]
    simp only [op, file] at word next
    simp only [word]
    exact next
  | case2 rs s more op file other =>
    rw [parseredirs, parseredirs, dif_pos more, dif_pos more]
    simp only [op, file] at other
    dsimp only
    cases tok : (gettoken (gettoken (peek s ['<', '>']).1).2).1 with
    | word w => exact absurd tok (other w)
    | _ => exact .panic _
  | case3 rs s done =>
    rw [parseredirs, parseredirs, dif_neg done, dif_neg done]
    exact .ok ⟨rfl, peek_suffix ['<', '>'] h, rfl, words⟩

lemma execLoop_same (left : Nat) (argv : List Arg) (rs : List Redir)
    (s : List Char) (h : s <:+ line) (args : ∀ a ∈ argv, IsWord line a)
    (words : ∀ r ∈ rs, IsWord line r.file) : Rel (SameCmd line) (execLoop left argv rs s)
    (execLoop left (argv.map Arg.word) (rs.map RedirOf.erase) s) := by
  have stop : ∀ {t}, t <:+ line → Rel (SameCmd line) (.ok (wrap rs (.exec argv), t)) (.ok
    (wrap (rs.map RedirOf.erase) (.exec (argv.map Arg.word)), t)) := fun suffix => .ok
    (SameCmd.wrap suffix rfl args words)
  induction left generalizing argv rs s with
  | zero =>
    rw [execLoop, execLoop]
    dsimp only
    split_ifs
    · exact stop (peek_suffix _ h)
    cases tok : (gettoken (peek s ['|', ')', '&', ';']).1).1 with
    | eof => exact stop (peek_gettoken_suffix _ h)
    | _ => exact .panic _
  | succ left ih =>
    rw [execLoop, execLoop]
    dsimp only
    split_ifs
    · exact stop (peek_suffix _ h)
    cases tok : (gettoken (peek s ['|', ')', '&', ';']).1).1 with
    | eof => exact stop (peek_gettoken_suffix _ h)
    | word w =>
      refine (parseredirs_same rs _ (peek_gettoken_suffix _ h) words).bind fun r r' same => ?_
      have more : ∀ a ∈ argv ++ [Kept.keep (peek s ['|', ')', '&', ';']).1 w], IsWord line a := by
        intro a mem
        rcases mem_append.mp mem with old | new
        · exact args a old
        exact mem_singleton.mp new ▸ argAt_isWord (peek_suffix _ h)
      have next := ih _ r.1 r.2 same.suffix more same.words fun suffix =>
        .ok (SameCmd.wrap suffix rfl more same.words)
      rw [map_append, map_singleton, ← gettoken_word tok, same.erased] at next
      rwa [← same.pos]
    | _ => exact .panic _

lemma backLoop_same (c : Cmd) (s : List Char) (h : s <:+ line) (words : ∀ a ∈ c.args,
    IsWord line a) : SameCmd line (backLoop c s) (backLoop c.erase s) := by
  induction c, s using backLoop.induct with
  | case1 c s more ih =>
    rw [backLoop.eq_def c, backLoop.eq_def c.erase, dif_pos more, dif_pos more]
    exact ih (peek_gettoken_suffix _ h) words
  | case2 c s done =>
    rw [backLoop.eq_def c, backLoop.eq_def c.erase, dif_neg done, dif_neg done]
    exact ⟨rfl, peek_suffix ['&'] h, rfl, words⟩

/-- The parsers agree to the depth `n`. -/
structure Agrees (line : List Char) (n : Nat) : Prop where
  parseline : ∀ s, s <:+ line → Rel (SameCmd line) (parseline n s) (parseline n s)
  parsepipe : ∀ s, s <:+ line → Rel (SameCmd line) (parsepipe n s) (parsepipe n s)
  parseexec : ∀ s, s <:+ line → Rel (SameCmd line) (parseexec n s) (parseexec n s)
  parseblock : ∀ s, s <:+ line → Rel (SameCmd line) (parseblock n s) (parseblock n s)

lemma SameCmd.both {f : Cmd → Cmd → Cmd} {g : Shell.Cmd → Shell.Cmd → Shell.Cmd}
    {x y : Cmd × List Char} {x' y' : Shell.Cmd × List Char} (left : SameCmd line x x')
    (right : SameCmd line y y') (erase : ∀ a b, (f a b).erase = g a.erase b.erase) (args : ∀ a b,
    (f a b).args = a.args ++ b.args) : SameCmd line (f x.1 y.1, y.2) (g x'.1 y'.1, y'.2) := by
  refine ⟨right.pos, right.suffix, ?_, fun a mem => ?_⟩
  · rw [erase, left.erased, right.erased]
  rw [args] at mem
  exact (mem_append.mp mem).elim (left.words a) (right.words a)

lemma agrees (line : List Char) (n : Nat) : Agrees line n := by
  induction n with
  | zero => refine ⟨fun s _ => ?_, fun s _ => ?_, fun s _ => ?_, fun s _ => ?_⟩ <;> exact .fuel
  | succ n ih =>
    refine ⟨fun s h => ?_, fun s h => ?_, fun s h => ?_, fun s h => ?_⟩
    · rw [parseline, parseline]
      refine (ih.parsepipe s h).bind fun x x' same => ?_
      have back := backLoop_same x.1 x.2 same.suffix same.words
      rw [same.erased, same.pos] at back
      dsimp only
      rw [same.pos, back.pos]
      split_ifs
      · refine (ih.parseline _ ?_).bind fun y y' rest => .ok (back.both rest ?_ ?_)
        · exact peek_gettoken_suffix _ (back.pos ▸ back.suffix)
        · exact fun _ _ => rfl
        exact fun _ _ => rfl
      exact .ok ⟨rfl, peek_suffix [';'] (back.pos ▸ back.suffix), back.erased, back.words⟩
    · rw [parsepipe, parsepipe]
      refine (ih.parseexec s h).bind fun x x' same => ?_
      dsimp only
      rw [same.pos]
      split_ifs
      · refine (ih.parsepipe _ ?_).bind fun y y' rest => .ok (same.both rest ?_ ?_)
        · exact peek_gettoken_suffix _ (same.pos ▸ same.suffix)
        · exact fun _ _ => rfl
        exact fun _ _ => rfl
      exact .ok ⟨rfl, peek_suffix ['|'] (same.pos ▸ same.suffix), same.erased, same.words⟩
    · rw [parseexec, parseexec]
      split_ifs
      · exact ih.parseblock _ (peek_suffix _ h)
      refine (parseredirs_same [] _ (peek_suffix _ h) (forall_mem_nil _)).bind fun r r' same => ?_
      have next := execLoop_same (MAXARGS - 1) [] r.1 r.2 same.suffix (forall_mem_nil _) same.words
      rw [same.erased] at next
      rwa [← same.pos]
    rw [parseblock, parseblock]
    split_ifs
    · refine (ih.parseline _ (peek_gettoken_suffix _ h)).bind fun x x' same => ?_
      dsimp only
      rw [same.pos]
      split_ifs
      · refine (parseredirs_same [] _ (peek_gettoken_suffix _ (same.pos ▸ same.suffix))
          (forall_mem_nil _)).bind fun r r' redirs => .ok ?_
        have wrapped := SameCmd.wrap redirs.suffix same.erased same.words redirs.words
        rw [redirs.erased] at wrapped
        rwa [← redirs.pos]
      exact .panic _
    exact .panic _

/-! ### The terminators -/

/-- Where `nulterminate` writes. -/
def stops (line : List Char) (c : Cmd) : List Nat := c.args.map fun a => index line a.eq

lemma ite_mem_append {i : Nat} {l r : List Nat} {x y : Char} :
    (if i ∈ l ++ r then x else y) = if i ∈ r then x else if i ∈ l then x else y := by
  by_cases right : i ∈ r
  · rw [if_pos right, if_pos (mem_append_right l right)]
  rw [if_neg right]
  simp only [mem_append, right, or_false]

lemma foldl_nul (argv : List Arg) (buf : Nat → Char) (i : Nat) :
    argv.foldl (fun buf a => update buf (index line a.eq) nul) buf i =
    if i ∈ argv.map (fun a => index line a.eq) then nul else buf i := by
  induction argv generalizing buf with
  | nil => exact (if_neg not_mem_nil).symm
  | cons a argv ih =>
    rw [foldl_cons, ih, map_cons, ← singleton_append, ite_mem_append, update_apply]
    simp only [mem_singleton]

lemma nulterminate_eq (c : Cmd) (buf : Nat → Char) (i : Nat) :
    nulterminate line c buf i = if i ∈ stops line c then nul else buf i := by
  induction c generalizing buf with
  | exec argv => exact foldl_nul argv buf i
  | redir cmd r ih =>
    rw [nulterminate, stops, CmdOf.args, map_append, ite_mem_append, update_apply, ih]
    exact if_congr mem_singleton.symm rfl rfl
  | pipe left right ihl ihr | list left right ihl ihr =>
    rw [nulterminate, stops, CmdOf.args, map_append, ite_mem_append, ihr, ihl]
    rfl
  | back cmd ih => exact ih buf

lemma IsWord.place {a : Arg} (h : IsWord line a) : ∃ pre, line = pre ++ (a.word ++ a.eq) ∧
    index line a.q = pre.length ∧ index line a.eq = pre.length + a.word.length := by
  obtain ⟨pre, rfl⟩ := h.suffix
  have split : a.word ++ a.eq = a.q := by
    rw [h.stop]
    exact takeWhile_append_dropWhile
  have length := congrArg length split
  rw [length_append] at length
  refine ⟨pre, by rw [split], ?_, ?_⟩ <;> rw [index, length_append] <;> omega

/-- No word has the end of a word inside: a word goes on as long as there are characters of words. -/
lemma IsWord.apart {a b : Arg} (ha : IsWord line a) (hb : IsWord line b) {k : Nat}
    (inside : k < a.word.length) : index line a.q + k ≠ index line b.eq := by
  intro eq
  obtain ⟨pre, one, start, -⟩ := ha.place
  obtain ⟨pre', two, -, stop⟩ := hb.place
  have first : (line)[index line a.q + k]? = some a.word[k] := by grind
  have second : (line)[index line b.eq]? = b.eq.head? := by
    rw [stop, two, ← append_assoc, ← length_append, getElem?_append_right le_rfl,
      Nat.sub_self, head?_eq_getElem?]
  have isPlain : plain a.word[k] = true := all_eq_true.mp all_takeWhile _ (getElem_mem inside)
  have not := head?_dropWhile_not plain b.q
  rw [← hb.stop, ← second, ← eq, first] at not
  exact nomatch isPlain.symm.trans not

lemma Rel.of_ok {α β : Type} {R : α → β → Prop} {r : Res α} {b : β} (h : Rel R r (.ok b)) :
    ∃ a, r = .ok a ∧ R a b := by
  cases h with
  | ok same => exact ⟨_, rfl, same⟩

/-- After `nulterminate` every pointer of the tree of an accepted line points to the characters of
its word in the line, and to a NUL behind them. -/
theorem nulterminate_yields_words (line : List Char) (free : nul ∉ line) (buf : Nat → Char)
    (holds : Holds buf 0 (line ++ [nul])) (c : Shell.Cmd) (accepted : Shell.parsecmd line = .ok c) :
    ∃ t, parsecmd line buf = .ok (t, nulterminate line t buf) ∧ t.erase = c ∧
      ∀ a ∈ t.args, a.word = chars buf (index line a.q) (index line a.eq - index line a.q) ∧
        ∀ n, line.length < n →
          cstring (nulterminate line t buf) n (index line a.q) = a.word := by
  obtain ⟨⟨d, s⟩, parsed, rest⟩ := Res.bind_eq_ok.mp accepted
  obtain ⟨done, rest⟩ : (peek s []).1 = [] ∧ d = c := by
    split_ifs at rest with done
    · exact ⟨done, Res.ok.inj rest⟩
  obtain ⟨⟨t, s'⟩, run, same⟩ := Rel.of_ok
    (parsed ▸ (agrees line (4 * line.length + 4)).parseline line suffix_rfl)
  have pos : s' = s := same.pos
  refine ⟨t, ?_, same.erased.trans rest, fun a mem => ?_⟩
  · rw [parsecmd, run, Res.bind]
    exact if_pos (pos ▸ done)
  obtain ⟨pre, eq, start, stop⟩ := (same.words a mem).place
  have here : Holds buf (index line a.q) a.word := by
    rw [eq, append_assoc, append_assoc] at holds
    rw [start, ← Nat.zero_add pre.length]
    exact (holds_append.mp (holds_append.mp holds).2).1
  refine ⟨?_, fun n enough => ?_⟩
  · rw [stop, start, Nat.add_sub_cancel_left, ← start]
    exact here.symm
  have length := congrArg List.length eq
  rw [length_append, length_append] at length
  refine cstring_eq (holds_append.mpr ⟨(chars_congr fun i inside => ?_).trans here,
    holds_cons.mpr ⟨?_, rfl⟩⟩) (fun inWord => free ?_) (by omega)
  · rw [nulterminate_eq, if_neg]
    intro written
    obtain ⟨b, mem', eq'⟩ := mem_map.mp written
    exact (same.words a mem).apart (same.words b mem') inside eq'.symm
  · rw [nulterminate_eq, start, ← stop]
    exact if_pos (mem_map_of_mem mem)
  rw [eq]
  exact mem_append_right _ (mem_append_left _ inWord)

/-- The line `a>b`. -/
abbrev writeLine : List Char := ['a', '>', 'b']

abbrev writeTree : Shell.Cmd := .redir (.exec [['a']]) ⟨['b'], O_WRONLY + O_CREATE + O_TRUNC, 1⟩

lemma parsecmd_writeLine : Shell.parsecmd writeLine = .ok writeTree := by decide +kernel

theorem redirection_is_terminated :
    Holds (writeLine.getD · nul) 0 (writeLine ++ [nul]) ∧
      ∃ t, parsecmd writeLine (writeLine.getD · nul) =
          .ok (t, nulterminate writeLine t (writeLine.getD · nul)) ∧
        t.erase = writeTree ∧ ∀ a ∈ t.args, ∀ n, 3 < n →
          cstring (nulterminate writeLine t (writeLine.getD · nul)) n (index writeLine a.q) =
            a.word := by
  have holds : Holds (writeLine.getD · nul) 0 (writeLine ++ [nul]) := rfl
  obtain ⟨t, run, tree, words⟩ :=
    nulterminate_yields_words writeLine (by decide) _ holds writeTree parsecmd_writeLine
  exact ⟨holds, t, run, tree, fun a mem => (words a mem).2⟩

end InPlace

end Xv6.Shell
