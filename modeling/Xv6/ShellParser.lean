import Xv6.ShellLexer

/-! The parser of the shell and the grammar it accepts. -/
namespace Xv6.Shell
open List

inductive Panic
  | missingFile | parseblock | missingParen | syntaxError | tooManyArgs
  deriving DecidableEq

/-- The result of a parser. `fuel` stands for a recursion deeper than the bound it was given. -/
inductive Res (α : Type)
  | ok (a : α)
  | panic (m : Panic)
  | fuel
  deriving DecidableEq

def Res.bind {α β : Type} : Res α → (α → Res β) → Res β
  | .ok a, f => f a
  | .panic m, _ => .panic m
  | .fuel, _ => .fuel

/-- What is kept of a word in the tree: its characters, or the pointers into the line. -/
class Kept (α : Type) where
  /-- The word `w` that `gettoken` finds at `s`. -/
  keep : List Char → Word → α

instance : Kept Word := ⟨fun _ w => w⟩

structure RedirOf (α : Type) where
  file : α
  mode : Nat
  fd : Nat
  deriving DecidableEq

inductive CmdOf (α : Type)
  | exec (argv : List α)
  | redir (cmd : CmdOf α) (r : RedirOf α)
  | pipe (left right : CmdOf α)
  | list (left right : CmdOf α)
  | back (cmd : CmdOf α)
  deriving DecidableEq

abbrev Redir := RedirOf Word
abbrev Cmd := CmdOf Word

def MAXARGS : Nat := 10

def O_RDONLY : Nat := 0x000
def O_WRONLY : Nat := 0x001
def O_CREATE : Nat := 0x200
def O_TRUNC : Nat := 0x400

section

variable {α : Type}

def redirOf : Tok → α → List (RedirOf α)
  | .lt, a => [⟨a, O_RDONLY, 0⟩]
  | .gt, a => [⟨a, O_WRONLY ||| O_CREATE ||| O_TRUNC, 1⟩]
  | .append, a => [⟨a, O_WRONLY ||| O_CREATE, 1⟩]
  | _, _ => []

def wrap (rs : List (RedirOf α)) (cmd : CmdOf α) : CmdOf α := rs.foldl .redir cmd

variable [Kept α]
open Kept (keep)

/-- The redirections that `parseredirs` puts around its command. The command itself is not read,
and `parseexec` goes on to fill its `argv`. -/
def parseredirs (rs : List (RedirOf α)) (s : List Char) : Res (List (RedirOf α) × List Char) :=
  if _more : (peek s ['<', '>']).2 = true then
    let op := gettoken (peek s ['<', '>']).1
    let file := gettoken op.2
    match file.1 with
    | .word w => parseredirs (rs ++ redirOf op.1 (keep op.2 w)) file.2
    | _ => .panic .missingFile
  else .ok (rs, (peek s ['<', '>']).1)
termination_by s.length
decreasing_by exact (gettoken_length _).trans_lt (peek_gettoken_shorter _more)

/-- The loop of `parseexec`. `left` entries of `argv` can be filled before the check of `argc`
against `MAXARGS` panics. -/
def execLoop : Nat → List α → List (RedirOf α) → List Char → Res (CmdOf α × List Char)
  | left, argv, rs, s =>
    let p := peek s ['|', ')', '&', ';']
    if p.2 = true then .ok (wrap rs (.exec argv), p.1)
    else match (gettoken p.1).1 with
      | .eof => .ok (wrap rs (.exec argv), (gettoken p.1).2)
      | .word w =>
        match left with
        | 0 => .panic .tooManyArgs
        | left + 1 =>
          (parseredirs rs (gettoken p.1).2).bind fun r =>
            execLoop left (argv ++ [keep p.1 w]) r.1 r.2
      | _ => .panic .syntaxError

def backLoop (cmd : CmdOf α) (s : List Char) : CmdOf α × List Char :=
  if _more : (peek s ['&']).2 = true then backLoop (.back cmd) (gettoken (peek s ['&']).1).2
  else (cmd, (peek s ['&']).1)
termination_by s.length
decreasing_by exact peek_gettoken_shorter _more

mutual

def parseline : Nat → List Char → Res (CmdOf α × List Char)
  | 0, _ => .fuel
  | n + 1, s => (parsepipe n s).bind fun r =>
    let b := backLoop r.1 r.2
    let p := peek b.2 [';']
    if p.2 = true then
      (parseline n (gettoken p.1).2).bind fun q => .ok (.list b.1 q.1, q.2)
    else .ok (b.1, p.1)

def parsepipe : Nat → List Char → Res (CmdOf α × List Char)
  | 0, _ => .fuel
  | n + 1, s => (parseexec n s).bind fun r =>
    let p := peek r.2 ['|']
    if p.2 = true then
      (parsepipe n (gettoken p.1).2).bind fun q => .ok (.pipe r.1 q.1, q.2)
    else .ok (r.1, p.1)

def parseexec : Nat → List Char → Res (CmdOf α × List Char)
  | 0, _ => .fuel
  | n + 1, s =>
    let p := peek s ['(']
    if p.2 = true then parseblock n p.1
    else (parseredirs [] p.1).bind fun r => execLoop (MAXARGS - 1) [] r.1 r.2

def parseblock : Nat → List Char → Res (CmdOf α × List Char)
  | 0, _ => .fuel
  | n + 1, s =>
    let p := peek s ['(']
    if p.2 = true then
      (parseline n (gettoken p.1).2).bind fun r =>
        let q := peek r.2 [')']
        if q.2 = true then
          (parseredirs [] (gettoken q.1).2).bind fun d => .ok (wrap d.1 r.1, d.2)
        else .panic .missingParen
    else .panic .parseblock

end

end

/-- `parsecmd` of the characters before the NUL. No recursion of the parser is deeper than the
bound given here. -/
def parsecmd (line : List Char) : Res Cmd :=
  (parseline (4 * line.length + 4) line).bind fun r =>
    if (peek r.2 []).1 = [] then .ok r.1 else .panic .syntaxError

/-! ### The grammar -/

inductive Redirs : List Tok → List Redir → Prop
  | nil : Redirs [] []
  | cons {op : Tok} {w : Word} {t : List Tok} {rs : List Redir} :
      op ∈ [Tok.lt, .gt, .append] → Redirs t rs → Redirs (op :: .word w :: t) (redirOf op w ++ rs)

inductive Words : List Tok → List Redir → List Word → Prop
  | nil : Words [] [] []
  | cons {w : Word} {r t : List Tok} {rs rs' : List Redir} {ws : List Word} :
      Redirs r rs → Words t rs' ws → Words (.word w :: (r ++ t)) (rs ++ rs') (w :: ws)

mutual

/-- `line = pipe '&'* [';' line]`. -/
inductive Line : List Tok → Cmd → Prop
  | last {p : List Tok} {c : Cmd} (k : Nat) : Pipe p c →
      Line (p ++ List.replicate k .amp) (CmdOf.back^[k] c)
  | seq {p l : List Tok} {c d : Cmd} (k : Nat) : Pipe p c → Line l d →
      Line (p ++ (List.replicate k .amp ++ .semi :: l)) (.list (CmdOf.back^[k] c) d)

inductive Pipe : List Tok → Cmd → Prop
  | last {e : List Tok} {c : Cmd} : Exec e c → Pipe e c
  | bar {e p : List Tok} {c d : Cmd} : Exec e c → Pipe p d → Pipe (e ++ .bar :: p) (.pipe c d)

inductive Exec : List Tok → Cmd → Prop
  | block {l r : List Tok} {c : Cmd} {rs : List Redir} : Line l c → Redirs r rs →
      Exec (.lparen :: (l ++ .rparen :: r)) (wrap rs c)
  | simple {r t : List Tok} {rs rs' : List Redir} {ws : List Word} : Redirs r rs →
      Words t rs' ws → ws.length ≤ MAXARGS - 1 → Exec (r ++ t) (wrap (rs ++ rs') (.exec ws))

end

/-! ### Soundness -/

variable {s s' : List Char} {c : Cmd} {n : Nat}

lemma Res.bind_eq_ok {α β : Type} {r : Res α} {f : α → Res β} {b : β} :
    r.bind f = .ok b ↔ ∃ a, r = .ok a ∧ f a = .ok b := by cases r <;> simp [Res.bind]

lemma Res.bind_ne_fuel {α β : Type} {r : Res α} {f : α → Res β} (h : r ≠ .fuel)
    (rest : ∀ a, r = .ok a → f a ≠ .fuel) : r.bind f ≠ .fuel := by
  cases r with
  | ok a => exact rest a rfl
  | panic m => simp [Res.bind]
  | fuel => exact absurd rfl h

variable {toks : List Char} {t : Tok} {rs : List Redir} {left : Nat} {r : List Tok}

lemma peek_found (sub : ∀ c ∈ toks, c ∈ symbols) (h : (peek s toks).2 = true) :
    ∃ t, lex s = t :: lex (gettoken (peek s toks).1).2 ∧ (gettoken (peek s toks).1).1 = t ∧
    t.isOneOf toks = true := by
  rw [peek_eq sub] at h
  cases tokens : lex s with
  | nil => rw [tokens] at h; cases h
  | cons t ts =>
    rw [tokens] at h
    obtain ⟨head, tail, _⟩ := gettoken_of_cons ((lex_peek s toks).trans tokens)
    exact ⟨t, by rw [tail], head, h⟩

lemma peek_of_cons {ts : List Tok} (sub : ∀ c ∈ toks, c ∈ symbols) (h : lex s = t :: ts)
    (one : t.isOneOf toks = true) : (peek s toks).2 = true ∧ (gettoken (peek s toks).1).1 = t ∧
    lex (gettoken (peek s toks).1).2 = ts := by
  obtain ⟨head, tail, _⟩ := gettoken_of_cons ((lex_peek s toks).trans h)
  exact ⟨by rw [peek_eq sub, h]; exact one, head, tail⟩

lemma isOneOf_redir : t.isOneOf ['<', '>'] = true ↔ t ∈ [Tok.lt, .gt, .append] := by
  cases t <;> simp [Tok.isOneOf, Tok.char]

lemma isOneOf_lparen : t.isOneOf ['('] = true ↔ t = .lparen := by
  cases t <;> simp [Tok.isOneOf, Tok.char]

lemma isOneOf_rparen : t.isOneOf [')'] = true ↔ t = .rparen := by
  cases t <;> simp [Tok.isOneOf, Tok.char]

lemma isOneOf_bar : t.isOneOf ['|'] = true ↔ t = .bar := by
  cases t <;> simp [Tok.isOneOf, Tok.char]

lemma isOneOf_semi : t.isOneOf [';'] = true ↔ t = .semi := by
  cases t <;> simp [Tok.isOneOf, Tok.char]

lemma isOneOf_amp : t.isOneOf ['&'] = true ↔ t = .amp := by
  cases t <;> simp [Tok.isOneOf, Tok.char]

lemma isOneOf_stop : t.isOneOf ['|', ')', '&', ';'] = true ↔
    t ∈ [Tok.bar, .rparen, .amp, .semi] := by
  cases t <;> simp [Tok.isOneOf, Tok.char]

lemma parseredirs_sound {rs' : List Redir} (h : parseredirs rs s = .ok (rs', s')) :
    ∃ t new, lex s = t ++ lex s' ∧ Redirs t new ∧ rs' = rs ++ new := by
  induction rs, s using parseredirs.induct with
  | case1 rs s more op file w word ih =>
    rw [parseredirs, dif_pos more] at h
    simp only [op, file] at word
    simp only [word] at h
    obtain ⟨t, new, tokens, redirs, rfl⟩ := ih h
    obtain ⟨o, first, got, one⟩ := peek_found (by simp [symbols]) more
    cases second : lex (gettoken (peek s ['<', '>']).1).2 with
    | nil => rw [gettoken_of_nil second] at word; cases word
    | cons a ts =>
      obtain ⟨head, tail, _⟩ := gettoken_of_cons second
      refine ⟨o :: .word w :: t, redirOf o w ++ new, ?_, .cons (isOneOf_redir.mp one) redirs, ?_⟩
      · rw [first, second, ← head, word, ← tail]
        exact congrArg _ (congrArg _ tokens)
      rw [append_assoc, ← got]
      rfl
  | case2 rs s more op file other =>
    rw [parseredirs, dif_pos more] at h
    simp only [op, file] at other
    revert h
    dsimp only
    split
    · rename_i w word
      exact absurd word (other w)
    intro h; cases h
  | case3 rs s done =>
    rw [parseredirs, dif_neg done] at h
    cases h
    exact ⟨[], [], (lex_peek s _).symm, .nil, (append_nil _).symm⟩

variable {argv : List Word}

lemma execLoop_ok (h : execLoop left argv rs s = .ok (c, s')) : (lex s' = lex s ∧
    c = wrap rs (.exec argv)) ∨ ∃ left' w rest r, left = left' + 1 ∧ lex s = .word w :: lex rest ∧
    parseredirs rs rest = .ok r ∧ execLoop left' (argv ++ [w]) r.1 r.2 = .ok (c, s') := by
  rw [execLoop.eq_def] at h
  dsimp only at h
  split_ifs at h with stop
  · cases h
    exact .inl ⟨lex_peek s _, rfl⟩
  cases tokens : lex s with
  | nil =>
    rw [gettoken_of_nil ((lex_peek s _).trans tokens)] at h
    cases h
    exact .inl ⟨by rw [lex], rfl⟩
  | cons t ts =>
    obtain ⟨head, tail, more⟩ := gettoken_of_cons ((lex_peek s ['|', ')', '&', ';']).trans tokens)
    rw [head] at h
    cases t with
    | eof => exact absurd rfl more
    | word w =>
      cases left with
      | zero => cases h
      | succ left =>
        obtain ⟨r, redirs, rest⟩ := Res.bind_eq_ok.mp h
        exact .inr ⟨left, w, _, r, rfl, by rw [tail], redirs, rest⟩
    | _ => cases h

lemma execLoop_sound (h : execLoop left argv rs s = .ok (c, s')) : ∃ t new ws, lex s = t ++ lex s' ∧
    Words t new ws ∧ ws.length ≤ left ∧ c = wrap (rs ++ new) (.exec (argv ++ ws)) := by
  induction left generalizing argv rs s with
  | zero =>
    rcases execLoop_ok h with ⟨same, rfl⟩ | ⟨_, _, _, _, eq, _⟩
    · exact ⟨[], [], [], same.symm, .nil, le_rfl, by rw [append_nil, append_nil]⟩
    cases eq
  | succ left ih =>
    rcases execLoop_ok h with ⟨same, rfl⟩ | ⟨_, w, rest, r, eq, first, redirs, loop⟩
    · exact ⟨[], [], [], same.symm, .nil, Nat.zero_le _, by rw [append_nil, append_nil]⟩
    cases eq
    obtain ⟨a, new, redirTokens, derives, acc⟩ := parseredirs_sound redirs
    obtain ⟨b, new', ws, tokens, words, bound, rfl⟩ := ih loop
    refine ⟨.word w :: (a ++ b), new ++ new', w :: ws, ?_, .cons derives words, ?_, ?_⟩
    · rw [first, redirTokens, tokens, cons_append, append_assoc]
    · exact Nat.succ_le_succ bound
    rw [acc, append_assoc, append_assoc]
    rfl

lemma backLoop_sound (c : Cmd) (s : List Char) :
    ∃ k, lex s = replicate k .amp ++ lex (backLoop c s).2 ∧ (backLoop c s).1 = CmdOf.back^[k] c := by
  induction c, s using backLoop.induct with
  | case1 c s more ih =>
    obtain ⟨k, tokens, cmd⟩ := ih
    obtain ⟨t, first, _, one⟩ := peek_found (by simp [symbols]) more
    rw [isOneOf_amp] at one
    subst one
    rw [backLoop, dif_pos more]
    exact ⟨k + 1, by rw [first, tokens]; rfl, cmd⟩
  | case2 c s done =>
    rw [backLoop, dif_neg done]
    exact ⟨0, (lex_peek s ['&']).symm, rfl⟩

/-- What each function of the parser returns is derived by its rule. -/
structure Sound (n : Nat) : Prop where
  line : ∀ s c s', parseline n s = .ok (c, s') → ∃ t, lex s = t ++ lex s' ∧ Line t c
  pipe : ∀ s c s', parsepipe n s = .ok (c, s') → ∃ t, lex s = t ++ lex s' ∧ Pipe t c
  exec : ∀ s c s', parseexec n s = .ok (c, s') → ∃ t, lex s = t ++ lex s' ∧ Exec t c
  block : ∀ s c s', parseblock n s = .ok (c, s') → ∃ t, lex s = t ++ lex s' ∧ Exec t c

lemma Sound.parseline (ih : Sound n) (h : parseline (n + 1) s = .ok (c, s')) :
    ∃ t, lex s = t ++ lex s' ∧ Line t c := by
  rw [Shell.parseline] at h
  obtain ⟨⟨d, s₁⟩, pipe, h⟩ := Res.bind_eq_ok.mp h
  obtain ⟨p, tokens, derives⟩ := ih.pipe _ _ _ pipe
  obtain ⟨k, amps, cmd⟩ := backLoop_sound d s₁
  dsimp only at h
  split_ifs at h with semi
  · obtain ⟨⟨e, s₂⟩, line, eq⟩ := Res.bind_eq_ok.mp h
    cases eq
    obtain ⟨l, rest, derivesRest⟩ := ih.line _ _ _ line
    obtain ⟨t, first, _, one⟩ := peek_found (by simp [symbols]) semi
    rw [isOneOf_semi] at one
    subst one
    rw [cmd]
    refine ⟨_, ?_, .seq k derives derivesRest⟩
    rw [tokens, amps, first, rest]
    simp only [append_assoc, cons_append]
  cases h
  rw [cmd]
  refine ⟨_, ?_, .last k derives⟩
  rw [tokens, amps, lex_peek, append_assoc]

lemma Sound.parsepipe (ih : Sound n) (h : parsepipe (n + 1) s = .ok (c, s')) :
    ∃ t, lex s = t ++ lex s' ∧ Pipe t c := by
  rw [Shell.parsepipe] at h
  obtain ⟨⟨d, s₁⟩, exec, h⟩ := Res.bind_eq_ok.mp h
  obtain ⟨e, tokens, derives⟩ := ih.exec _ _ _ exec
  dsimp only at h
  split_ifs at h with bar
  · obtain ⟨⟨f, s₂⟩, pipe, eq⟩ := Res.bind_eq_ok.mp h
    cases eq
    obtain ⟨p, rest, derivesRest⟩ := ih.pipe _ _ _ pipe
    obtain ⟨t, first, _, one⟩ := peek_found (by simp [symbols]) bar
    rw [isOneOf_bar] at one
    subst one
    refine ⟨_, ?_, .bar derives derivesRest⟩
    rw [tokens, first, rest, append_assoc, cons_append]
  cases h
  exact ⟨e, by rw [tokens, lex_peek], .last derives⟩

lemma Sound.parseexec (ih : Sound n) (h : parseexec (n + 1) s = .ok (c, s')) :
    ∃ t, lex s = t ++ lex s' ∧ Exec t c := by
  rw [Shell.parseexec] at h
  split_ifs at h with paren
  · obtain ⟨t, tokens, derives⟩ := ih.block _ _ _ h
    exact ⟨t, by rw [← lex_peek s, tokens], derives⟩
  obtain ⟨⟨rs, s₁⟩, redirs, h⟩ := Res.bind_eq_ok.mp h
  obtain ⟨r, new, tokens, derives, acc⟩ := parseredirs_sound redirs
  obtain ⟨t, new', ws, rest, words, bound, rfl⟩ := execLoop_sound h
  rw [nil_append] at acc
  subst acc
  refine ⟨_, ?_, .simple derives words bound⟩
  rw [← lex_peek s, tokens, rest, append_assoc]

lemma Sound.parseblock (ih : Sound n) (h : parseblock (n + 1) s = .ok (c, s')) :
    ∃ t, lex s = t ++ lex s' ∧ Exec t c := by
  rw [Shell.parseblock] at h
  dsimp only at h
  by_cases paren : (peek s ['(']).2 = true
  · rw [if_pos paren] at h
    obtain ⟨⟨d, s₁⟩, line, h⟩ := Res.bind_eq_ok.mp h
    obtain ⟨l, tokens, derives⟩ := ih.line _ _ _ line
    obtain ⟨t, first, _, one⟩ := peek_found (by simp [symbols]) paren
    rw [isOneOf_lparen] at one
    subst one
    by_cases close : (peek s₁ [')']).2 = true
    · rw [if_pos close] at h
      obtain ⟨⟨rs, s₂⟩, redirs, eq⟩ := Res.bind_eq_ok.mp h
      cases eq
      obtain ⟨r, new, rest, derivesRest, acc⟩ := parseredirs_sound redirs
      obtain ⟨t, second, _, one⟩ := peek_found (by simp [symbols]) close
      rw [isOneOf_rparen] at one
      subst one
      rw [nil_append] at acc
      subst acc
      refine ⟨_, ?_, .block derives derivesRest⟩
      rw [first, tokens, second, rest]
      simp only [append_assoc, cons_append]
    rw [if_neg close] at h
    cases h
  rw [if_neg paren] at h
  cases h

lemma sound (n : Nat) : Sound n := by
  induction n with
  | zero =>
    refine ⟨?_, ?_, ?_, ?_⟩
    · intro s c s' h; rw [parseline] at h; cases h
    · intro s c s' h; rw [parsepipe] at h; cases h
    · intro s c s' h; rw [parseexec] at h; cases h
    intro s c s' h; rw [parseblock] at h; cases h
  | succ n ih =>
    exact ⟨fun _ _ _ h => ih.parseline h, fun _ _ _ h => ih.parsepipe h,
      fun _ _ _ h => ih.parseexec h, fun _ _ _ h => ih.parseblock h⟩

/-! ### Termination -/

lemma parseredirs_ne_fuel (rs : List Redir) (s : List Char) : parseredirs rs s ≠ .fuel := by
  induction rs, s using parseredirs.induct with
  | case1 rs s more op file w word ih =>
    rw [parseredirs, dif_pos more]
    simp only [op, file] at word
    simp only [word]
    exact ih
  | case2 rs s more op file other =>
    rw [parseredirs, dif_pos more]
    simp only [op, file] at other
    dsimp only
    split
    · rename_i w word
      exact absurd word (other w)
    simp
  | case3 rs s done =>
    rw [parseredirs, dif_neg done]
    simp

lemma execLoop_ne_fuel (left : Nat) (argv : List Word) (rs : List Redir) (s : List Char) :
    execLoop left argv rs s ≠ .fuel := by
  induction left generalizing argv rs s with
  | zero =>
    rw [execLoop.eq_def]
    dsimp only
    split
    · simp
    split <;> simp
  | succ left ih =>
    rw [execLoop.eq_def]
    dsimp only
    split
    · simp
    split
    · simp
    · exact Res.bind_ne_fuel (parseredirs_ne_fuel _ _) fun r _ => ih _ _ _
    simp

lemma length_of_tokens {t : List Tok} (h : lex s = t ++ lex s') :
    (lex s').length ≤ (lex s).length := by
  rw [h, length_append]
  exact Nat.le_add_left _ _

/-- Four levels for each token that is left are deep enough. -/
structure Halts (n : Nat) : Prop where
  line : ∀ s, 4 * (lex s).length + 4 ≤ n → parseline (α := Word) n s ≠ .fuel
  pipe : ∀ s, 4 * (lex s).length + 3 ≤ n → parsepipe (α := Word) n s ≠ .fuel
  exec : ∀ s, 4 * (lex s).length + 2 ≤ n → parseexec (α := Word) n s ≠ .fuel
  block : ∀ s, 4 * (lex s).length + 1 ≤ n → parseblock (α := Word) n s ≠ .fuel

lemma Halts.parseline (ih : Halts n) (deep : 4 * (lex s).length + 4 ≤ n + 1) :
    parseline (α := Word) (n + 1) s ≠ .fuel := by
  rw [Shell.parseline]
  refine Res.bind_ne_fuel (ih.pipe s (by omega)) fun r pipe => ?_
  obtain ⟨p, tokens, _⟩ := (sound n).pipe _ _ _ pipe
  obtain ⟨k, amps, _⟩ := backLoop_sound r.1 r.2
  have le := (length_of_tokens amps).trans (length_of_tokens tokens)
  dsimp only
  split_ifs with semi
  · obtain ⟨t, first, _, _⟩ := peek_found (by simp [symbols]) semi
    rw [first, length_cons] at le
    exact Res.bind_ne_fuel (ih.line _ (by omega)) fun q _ => by simp
  simp

lemma Halts.parsepipe (ih : Halts n) (deep : 4 * (lex s).length + 3 ≤ n + 1) :
    parsepipe (α := Word) (n + 1) s ≠ .fuel := by
  rw [Shell.parsepipe]
  refine Res.bind_ne_fuel (ih.exec s (by omega)) fun r exec => ?_
  obtain ⟨e, tokens, _⟩ := (sound n).exec _ _ _ exec
  have le := length_of_tokens tokens
  dsimp only
  split_ifs with bar
  · obtain ⟨t, first, _, _⟩ := peek_found (by simp [symbols]) bar
    rw [first, length_cons] at le
    exact Res.bind_ne_fuel (ih.pipe _ (by omega)) fun q _ => by simp
  simp

lemma Halts.parseexec (ih : Halts n) (deep : 4 * (lex s).length + 2 ≤ n + 1) :
    parseexec (α := Word) (n + 1) s ≠ .fuel := by
  rw [Shell.parseexec]
  split_ifs with paren
  · exact ih.block _ (by rw [lex_peek]; omega)
  exact Res.bind_ne_fuel (parseredirs_ne_fuel _ _) fun r _ => execLoop_ne_fuel _ _ _ _

lemma Halts.parseblock (ih : Halts n) (deep : 4 * (lex s).length + 1 ≤ n + 1) :
    parseblock (α := Word) (n + 1) s ≠ .fuel := by
  rw [Shell.parseblock]
  dsimp only
  split_ifs with paren
  · obtain ⟨t, first, _, _⟩ := peek_found (by simp [symbols]) paren
    rw [first, length_cons] at deep
    refine Res.bind_ne_fuel (ih.line _ (by omega)) fun r _ => ?_
    split_ifs with close
    · exact Res.bind_ne_fuel (parseredirs_ne_fuel _ _) fun d _ => by simp
    simp
  simp

lemma halts (n : Nat) : Halts n := by
  induction n with
  | zero => exact ⟨fun _ h => by omega, fun _ h => by omega, fun _ h => by omega, fun _ h => by omega⟩
  | succ n ih =>
    exact ⟨fun _ h => ih.parseline h, fun _ h => ih.parsepipe h, fun _ h => ih.parseexec h,
      fun _ h => ih.parseblock h⟩

/-! ### Completeness -/

/-- The next token, if there is one, is one of those that `P` allows. -/
def Starts (P : Tok → Prop) (k : List Tok) : Prop := ∀ t ∈ k.head?, P t

abbrev Stops (t : Tok) : Prop := t ∈ [Tok.bar, .rparen, .amp, .semi]

variable {P Q : Tok → Prop} {k : List Tok}

lemma Starts.mono (h : Starts P k) (sub : ∀ t, P t → Q t) : Starts Q k :=
  fun t mem => sub t (h t mem)

lemma Starts.cons (h : P t) : Starts P (t :: k) := by
  intro u mem
  cases Option.some.inj mem
  exact h

lemma Redirs.starts (h : Redirs r rs) (ops : ∀ op ∈ [Tok.lt, .gt, .append], P op)
    (rest : Starts P k) : Starts P (r ++ k) := by
  cases h with
  | nil => exact rest
  | cons op _ => exact .cons (ops _ op)

variable {ws : List Word}

lemma Words.starts {t : List Tok} (h : Words t rs ws) (words : ∀ w, P (.word w))
    (rest : Starts P k) : Starts P (t ++ k) := by
  cases h with
  | nil => exact rest
  | cons _ _ => exact .cons (words _)

lemma peek_of_starts (sub : ∀ c ∈ toks, c ∈ symbols)
    (h : Starts (fun t => t.isOneOf toks = false) (lex s)) : ¬ (peek s toks).2 = true := by
  rw [peek_eq sub, Bool.not_eq_true]
  cases tokens : lex s with
  | nil => rfl
  | cons t ts =>
    rw [tokens] at h
    exact h t rfl

variable {new : List Redir}

lemma parseredirs_complete (rs : List Redir) (h : Redirs r new)
    (tokens : lex s = r ++ k) (rest : Starts (fun t => t.isOneOf ['<', '>'] = false) k) :
    ∃ s', parseredirs rs s = .ok (rs ++ new, s') ∧ lex s' = k := by
  induction h generalizing rs s with
  | nil =>
    rw [nil_append] at tokens
    rw [parseredirs, dif_neg (peek_of_starts (by simp [symbols]) (tokens ▸ rest)), append_nil]
    exact ⟨_, rfl, (lex_peek s _).trans tokens⟩
  | @cons op w t new op_mem _ ih =>
    obtain ⟨more, got, after⟩ := peek_of_cons (by simp [symbols]) tokens (isOneOf_redir.mpr op_mem)
    obtain ⟨head, tail, _⟩ := gettoken_of_cons after
    obtain ⟨s', loop, last⟩ := ih (rs ++ redirOf op w) tail
    rw [parseredirs, dif_pos more]
    simp only [head, got]
    exact ⟨s', loop.trans (by rw [append_assoc]), last⟩

lemma execLoop_complete (argv : List Word) (rs : List Redir) {t : List Tok} (h : Words t new ws)
    (tokens : lex s = t ++ k) (rest : Starts Stops k) (bound : ws.length ≤ left) : ∃ s',
      execLoop left argv rs s = .ok (wrap (rs ++ new) (.exec (argv ++ ws)), s') ∧ lex s' = k := by
  induction h generalizing left argv rs s with
  | nil =>
    rw [nil_append] at tokens
    rw [execLoop.eq_def, append_nil, append_nil]
    dsimp only
    cases k with
    | nil =>
      rw [if_neg (peek_of_starts (by simp [symbols]) (by rw [tokens]; intro t mem; cases mem)),
        gettoken_of_nil ((lex_peek s _).trans tokens)]
      exact ⟨_, rfl, by rw [lex]⟩
    | cons a k =>
      rw [if_pos (peek_of_cons (by simp [symbols]) tokens (isOneOf_stop.mpr (rest a rfl))).1]
      exact ⟨_, rfl, (lex_peek s _).trans tokens⟩
  | @cons w r t new new' ws redirs words ih =>
    obtain ⟨head, tail, _⟩ := gettoken_of_cons ((lex_peek s ['|', ')', '&', ';']).trans tokens)
    rw [show (r ++ t).append k = r ++ (t ++ k) from append_assoc r t k] at tail
    have follow : Starts (fun t => t.isOneOf ['<', '>'] = false) (t ++ k) :=
      words.starts (fun _ => rfl) (rest.mono (by intro t stops; revert t; decide))
    obtain ⟨s₁, found, next⟩ := parseredirs_complete rs redirs tail follow
    cases left with
    | zero => cases bound
    | succ left =>
      obtain ⟨s', loop, last⟩ := ih (argv ++ [w]) (rs ++ new) next (Nat.le_of_succ_le_succ bound)
      rw [execLoop.eq_def]
      dsimp only
      rw [if_neg (peek_of_starts (by simp [symbols]) (tokens ▸ .cons rfl)), head]
      dsimp only
      rw [found]
      refine ⟨s', ?_, last⟩
      show execLoop left (argv ++ [w]) (rs ++ new) s₁ = _
      rw [loop, append_assoc, append_assoc]
      rfl

lemma backLoop_complete {j : Nat} (tokens : lex s = replicate j .amp ++ k)
    (rest : Starts (· ≠ .amp) k) : ∃ s', backLoop c s = (CmdOf.back^[j] c, s') ∧ lex s' = k := by
  induction j generalizing c s with
  | zero =>
    rw [replicate_zero, nil_append] at tokens
    have done : Starts (fun t => t.isOneOf ['&'] = false) k :=
      rest.mono fun t ne => Bool.eq_false_iff.mpr fun one => ne (isOneOf_amp.mp one)
    rw [backLoop, dif_neg (peek_of_starts (by simp [symbols]) (tokens ▸ done))]
    exact ⟨_, rfl, (lex_peek s _).trans tokens⟩
  | succ j ih =>
    obtain ⟨more, _, after⟩ := peek_of_cons (by simp [symbols]) tokens (isOneOf_amp.mpr rfl)
    rw [backLoop, dif_pos more]
    exact ih after

lemma starts_amps (j : Nat) (amp : P .amp) (h : Starts P k) :
    Starts P (replicate j .amp ++ k) := by
  cases j with
  | zero => exact h
  | succ j => exact .cons amp

/-- Each function of the parser finds what its rule derives, when what follows cannot go on. -/
structure Complete (n : Nat) : Prop where
  line : ∀ {s t k c}, Line t c → lex s = t ++ k → Starts (· = .rparen) k →
    4 * (lex s).length + 4 ≤ n → ∃ s', parseline n s = .ok (c, s') ∧ lex s' = k
  pipe : ∀ {s t k c}, Pipe t c → lex s = t ++ k → Starts (· ∈ [Tok.rparen, .amp, .semi]) k →
    4 * (lex s).length + 3 ≤ n → ∃ s', parsepipe n s = .ok (c, s') ∧ lex s' = k
  exec : ∀ {s t k c}, Exec t c → lex s = t ++ k → Starts Stops k →
    4 * (lex s).length + 2 ≤ n → ∃ s', parseexec n s = .ok (c, s') ∧ lex s' = k
  block : ∀ {s l r k c rs}, Line l c → Redirs r rs →
    lex s = .lparen :: (l ++ .rparen :: (r ++ k)) → Starts Stops k →
    4 * (lex s).length + 1 ≤ n → ∃ s', parseblock n s = .ok (wrap rs c, s') ∧ lex s' = k

lemma Complete.parseline {t : List Tok} (ih : Complete n) (h : Line t c) (tokens : lex s = t ++ k)
    (rest : Starts (· = .rparen) k) (deep : 4 * (lex s).length + 4 ≤ n + 1) :
    ∃ s', parseline (n + 1) s = .ok (c, s') ∧ lex s' = k := by
  rw [Shell.parseline]
  cases h with
  | @last p d j pipe =>
    rw [append_assoc] at tokens
    have follow := starts_amps (P := (· ∈ [Tok.rparen, .amp, .semi])) j (by decide)
      (rest.mono (by intro t eq; rw [eq]; decide))
    obtain ⟨s₁, found, next⟩ := ih.pipe pipe tokens follow (by omega)
    obtain ⟨s₂, loop, after⟩ := backLoop_complete (c := d) next
      (rest.mono (by intro t eq; rw [eq]; decide))
    have done : ¬ (peek s₂ [';']).2 = true :=
      peek_of_starts (by simp [symbols]) (after ▸ rest.mono (by intro t eq; rw [eq]; rfl))
    rw [found]
    simp only [Res.bind, loop, if_neg done]
    exact ⟨_, rfl, (lex_peek s₂ _).trans after⟩
  | @seq p l d e j pipe line =>
    rw [append_assoc, append_assoc, cons_append] at tokens
    have shorter : (l ++ k).length < (lex s).length := by
      rw [tokens]
      simp only [length_append, length_cons]
      omega
    obtain ⟨s₁, found, next⟩ := ih.pipe pipe tokens (starts_amps j (by decide) (.cons (by decide)))
      (by omega)
    obtain ⟨s₂, loop, after⟩ := backLoop_complete (c := d) next (.cons (by decide))
    obtain ⟨semi, _, last⟩ := peek_of_cons (by simp [symbols]) after (isOneOf_semi.mpr rfl)
    obtain ⟨s₃, again, final⟩ := ih.line line last rest (by rw [last]; omega)
    rw [found]
    simp only [Res.bind, loop, if_pos semi, again]
    exact ⟨s₃, rfl, final⟩

lemma Complete.parsepipe {t : List Tok} (ih : Complete n) (h : Pipe t c) (tokens : lex s = t ++ k)
    (rest : Starts (· ∈ [Tok.rparen, .amp, .semi]) k) (deep : 4 * (lex s).length + 3 ≤ n + 1) :
    ∃ s', parsepipe (n + 1) s = .ok (c, s') ∧ lex s' = k := by
  rw [Shell.parsepipe]
  cases h with
  | last exec =>
    obtain ⟨s₁, found, next⟩ := ih.exec exec tokens
      (rest.mono fun t mem => mem_cons_of_mem _ mem) (by omega)
    have done : ¬ (peek s₁ ['|']).2 = true :=
      peek_of_starts (by simp [symbols]) (next ▸ rest.mono (by intro t mem; revert t; decide))
    rw [found]
    simp only [Res.bind, if_neg done]
    exact ⟨_, rfl, (lex_peek s₁ _).trans next⟩
  | @bar e p d f exec pipe =>
    rw [append_assoc, cons_append] at tokens
    have shorter : (p ++ k).length < (lex s).length := by
      rw [tokens]
      simp only [length_append, length_cons]
      omega
    obtain ⟨s₁, found, next⟩ := ih.exec exec tokens (.cons (by decide : Tok.bar ∈ _)) (by omega)
    obtain ⟨bar, _, last⟩ := peek_of_cons (by simp [symbols]) next (isOneOf_bar.mpr rfl)
    obtain ⟨s₂, again, final⟩ := ih.pipe pipe last rest (by rw [last]; omega)
    rw [found]
    simp only [Res.bind, if_pos bar, again]
    exact ⟨s₂, rfl, final⟩

lemma Complete.parseexec {t : List Tok} (ih : Complete n) (h : Exec t c)
    (tokens : lex s = t ++ k) (rest : Starts Stops k) (deep : 4 * (lex s).length + 2 ≤ n + 1) :
    ∃ s', parseexec (n + 1) s = .ok (c, s') ∧ lex s' = k := by
  rw [Shell.parseexec]
  cases h with
  | @block l r d rs line redirs =>
    rw [cons_append, append_assoc, cons_append] at tokens
    rw [if_pos (peek_of_cons (by simp [symbols]) tokens (isOneOf_lparen.mpr rfl)).1]
    exact ih.block line redirs ((lex_peek s _).trans tokens) rest (by rw [lex_peek]; omega)
  | @simple r t rs rs' ws redirs words bound =>
    rw [append_assoc] at tokens
    have noParen : Starts (fun t => t.isOneOf ['('] = false) (r ++ (t ++ k)) := redirs.starts
      (by decide) (words.starts (fun _ => rfl) (rest.mono (by intro t mem; revert t; decide)))
    have noRedir : Starts (fun t => t.isOneOf ['<', '>'] = false) (t ++ k) :=
      words.starts (fun _ => rfl) (rest.mono (by intro t mem; revert t; decide))
    obtain ⟨s₁, found, next⟩ :=
      parseredirs_complete [] redirs ((lex_peek s ['(']).trans tokens) noRedir
    obtain ⟨s₂, loop, last⟩ := execLoop_complete [] rs words next rest bound
    rw [if_neg (peek_of_starts (by simp [symbols]) (tokens ▸ noParen)), found]
    exact ⟨s₂, loop, last⟩

lemma Complete.parseblock {l : List Tok} (ih : Complete n) (line : Line l c)
    (redirs : Redirs r rs) (tokens : lex s = .lparen :: (l ++ .rparen :: (r ++ k)))
    (rest : Starts Stops k) (deep : 4 * (lex s).length + 1 ≤ n + 1) :
    ∃ s', parseblock (n + 1) s = .ok (wrap rs c, s') ∧ lex s' = k := by
  obtain ⟨paren, _, inner⟩ := peek_of_cons (by simp [symbols]) tokens (isOneOf_lparen.mpr rfl)
  rw [tokens, length_cons] at deep
  obtain ⟨s₁, found, next⟩ := ih.line line inner (.cons rfl) (by rw [inner]; omega)
  obtain ⟨close, _, after⟩ := peek_of_cons (by simp [symbols]) next (isOneOf_rparen.mpr rfl)
  obtain ⟨s₂, loop, last⟩ := parseredirs_complete [] redirs after
    (rest.mono (by intro t mem; revert t; decide))
  rw [Shell.parseblock]
  simp only [if_pos paren, found, Res.bind, if_pos close, loop]
  exact ⟨s₂, rfl, last⟩

lemma complete (n : Nat) : Complete n := by
  induction n with
  | zero =>
    exact ⟨fun _ _ _ h => by omega, fun _ _ _ h => by omega, fun _ _ _ h => by omega,
      fun _ _ _ _ h => by omega⟩
  | succ n ih => exact ⟨ih.parseline, ih.parsepipe, ih.parseexec, ih.parseblock⟩

/-- The parser returns on every line, and returns a tree exactly when the grammar derives the
tokens of the line with that tree. -/
theorem parsecmd_accepts_grammar (line : List Char) :
    parsecmd line ≠ .fuel ∧ ∀ c, parsecmd line = .ok c ↔ Line (lex line) c := by
  have deep : 4 * (lex line).length + 4 ≤ 4 * line.length + 4 := by
    have := lex_length line
    omega
  refine ⟨?_, fun c => ⟨fun h => ?_, fun h => ?_⟩⟩
  · refine Res.bind_ne_fuel ((halts _).line line deep) fun r _ => ?_
    split <;> simp
  · obtain ⟨⟨d, s⟩, parsed, last⟩ := Res.bind_eq_ok.mp h
    obtain ⟨t, tokens, derives⟩ := (sound _).line _ _ _ parsed
    obtain ⟨stop, eq⟩ : skip s = [] ∧ Res.ok d = .ok c := by
      by_cases stop : skip s = []
      · exact ⟨stop, (if_pos stop).symm.trans last⟩
      · exact absurd ((if_neg stop).symm.trans last) (by simp)
    cases eq
    rw [tokens, lex_of_skip_nil stop, append_nil]
    exact derives
  obtain ⟨s, parsed, last⟩ := (complete _).line h (append_nil _).symm
    (nofun) deep
  rw [parsecmd, parsed]
  exact if_pos (lex_eq_nil.mp last)

end Xv6.Shell
