import Mathlib.Algebra.Order.Ring.Int
import Mathlib.Data.List.Basic

/-! The tokens of the shell. A position in the line is the list of the characters from it to the
end, where the terminating NUL stands; `gettoken` and `peek` both move the position. -/
namespace Xv6.Shell
open List Option

def whitespace : List Char := [' ', '\t', '\r', '\n', '\x0b']

def symbols : List Char := ['<', '|', '>', '&', ';', '(', ')']

abbrev Word := List Char

/-- What `gettoken` returns, and for `a` the characters from `q` to `eq`. `append` is the source's
`+`. -/
inductive Tok
  | eof | bar | lparen | rparen | semi | amp | lt | gt | append
  | word (w : Word)
  deriving DecidableEq

def single : Char → Option Tok
  | '|' => some .bar
  | '(' => some .lparen
  | ')' => some .rparen
  | ';' => some .semi
  | '&' => some .amp
  | '<' => some .lt
  | _ => none

def plain (c : Char) : Bool := c ∉ whitespace && c ∉ symbols

def skip (s : List Char) : List Char := s.dropWhile (· ∈ whitespace)

def gettoken (s : List Char) : Tok × List Char :=
  match skip s with
  | [] => (.eof, [])
  | c :: s =>
    match single c with
    | some t => (t, skip s)
    | none =>
      if c = '>' then
        if s.head? = some '>' then (.append, skip s.tail) else (.gt, skip s)
      else (.word ((c :: s).takeWhile plain), skip ((c :: s).dropWhile plain))

def peek (s : List Char) (toks : List Char) : List Char × Bool :=
  (skip s, (skip s).head?.any (· ∈ toks))

def lex : List Char → List Tok
  | [] => []
  | c :: s =>
    if c ∈ whitespace then lex s
    else match single c with
      | some t => t :: lex s
      | none =>
        if c = '>' then
          if s.head? = some '>' then .append :: lex s.tail else .gt :: lex s
        else .word (c :: s.takeWhile plain) :: lex (s.dropWhile plain)
termination_by s => s.length
decreasing_by
  all_goals simp only [length_cons, length_tail]
  all_goals first | omega | exact Nat.lt_succ_of_le (dropWhile_suffix _).length_le

def Tok.char : Tok → Option Char
  | .eof | .word _ => none
  | .bar => some '|'
  | .lparen => some '('
  | .rparen => some ')'
  | .semi => some ';'
  | .amp => some '&'
  | .lt => some '<'
  | .gt | .append => some '>'

def Tok.isOneOf (toks : List Char) (t : Tok) : Bool := t.char.any (· ∈ toks)

lemma skip_length (s : List Char) : (skip s).length ≤ s.length := (dropWhile_suffix _).length_le

variable {c : Char} {s : List Char}

lemma skip_cons {r : List Char} (h : skip s = c :: r) : c ∉ whitespace := by
  induction s with
  | nil => cases h
  | cons d s ih =>
    by_cases white : d ∈ whitespace
    · exact ih (by rwa [skip, dropWhile_cons_of_pos (by simpa using white)] at h)
    rw [skip, dropWhile_cons_of_neg (by simpa using white)] at h
    exact (cons.inj h).1 ▸ white

lemma lex_skip (s : List Char) : lex (skip s) = lex s := by
  induction s with
  | nil => rfl
  | cons c s ih =>
    by_cases white : c ∈ whitespace
    · rw [skip, dropWhile_cons_of_pos (by simpa using white), lex, if_pos white]
      exact ih
    rw [skip, dropWhile_cons_of_neg (by simpa using white)]

lemma single_char {t : Tok} (h : single c = some t) : t.char = some c ∧ t ≠ .eof := by
  unfold single at h
  split at h <;> cases h <;> exact ⟨rfl, by simp⟩

lemma not_symbol (h : single c = none) (ne : c ≠ '>') : c ∉ symbols := by
  intro mem
  simp only [symbols, mem_cons, not_mem_nil, or_false] at mem
  rcases mem with rfl | rfl | rfl | rfl | rfl | rfl | rfl
  · cases h
  · cases h
  · exact ne rfl
  · cases h
  · cases h
  · cases h
  cases h

/-- A call of `gettoken` at a position with a token behind it. -/
structure Reads (s : List Char) (c : Char) : Prop where
  next : lex s = (gettoken s).1 :: lex (gettoken s).2
  shorter : (gettoken s).2.length < s.length
  char : (gettoken s).1.char = some c ∨ (gettoken s).1.char = none ∧ c ∉ symbols
  token : (gettoken s).1 ≠ .eof

lemma gettoken_reads {r : List Char} (h : skip s = c :: r) : Reads s c := by
  have white := skip_cons h
  have before : r.length < s.length := by
    have := skip_length s
    rw [h, length_cons] at this
    omega
  have after (q : List Char) (le : q.length ≤ r.length) : (skip q).length < s.length :=
    Nat.lt_of_le_of_lt ((skip_length q).trans le) before
  cases one : single c with
  | some t =>
    have got : gettoken s = (t, skip r) := by simp only [gettoken, h, one]
    obtain ⟨char, token⟩ := single_char one
    refine ⟨?_, ?_, ?_, ?_⟩
    · rw [got, ← lex_skip s, h, lex, if_neg white, one, lex_skip]
    · rw [got]; exact after r le_rfl
    · rw [got]; exact .inl char
    rw [got]; exact token
  | none =>
    by_cases gt : c = '>'
    · subst gt
      by_cases twice : r.head? = some '>'
      · have got : gettoken s = (.append, skip r.tail) := by
          simp only [gettoken, h, one, if_true, twice]
        refine ⟨?_, ?_, ?_, ?_⟩
        · rw [got, ← lex_skip s, h, lex, if_neg white, one]
          simp only [if_true, twice, lex_skip]
        · rw [got]; exact after _ (by rw [length_tail]; omega)
        · rw [got]; exact .inl rfl
        rw [got]; simp
      have got : gettoken s = (.gt, skip r) := by
        simp only [gettoken, h, one, if_true, if_neg twice]
      refine ⟨?_, ?_, ?_, ?_⟩
      · rw [got, ← lex_skip s, h, lex, if_neg white, one]
        simp only [if_true, if_neg twice, lex_skip]
      · rw [got]; exact after r le_rfl
      · rw [got]; exact .inl rfl
      rw [got]; simp
    have symbol := not_symbol one gt
    have isPlain : plain c = true := by simp [plain, white, symbol]
    have got : gettoken s = (.word (c :: r.takeWhile plain), skip (r.dropWhile plain)) := by
      simp only [gettoken, h, one, if_neg gt, takeWhile_cons_of_pos isPlain,
        dropWhile_cons_of_pos isPlain]
    refine ⟨?_, ?_, ?_, ?_⟩
    · rw [got, ← lex_skip s, h, lex, if_neg white, one]
      simp only [if_neg gt, lex_skip]
    · rw [got]; exact after _ (dropWhile_suffix _).length_le
    · rw [got]; exact .inr ⟨rfl, symbol⟩
    rw [got]; simp

lemma lex_of_skip_nil (h : skip s = []) : lex s = [] := by rw [← lex_skip, h, lex]

lemma lex_eq_nil : lex s = [] ↔ skip s = [] := by
  refine ⟨fun h => ?_, lex_of_skip_nil⟩
  cases rest : skip s with
  | nil => rfl
  | cons c r =>
    rw [(gettoken_reads rest).next] at h
    cases h

lemma gettoken_of_nil (h : lex s = []) : gettoken s = (.eof, []) := by
  simp only [gettoken, lex_eq_nil.mp h]

lemma gettoken_of_cons {t : Tok} {ts : List Tok} (h : lex s = t :: ts) :
    (gettoken s).1 = t ∧ lex (gettoken s).2 = ts ∧ t ≠ .eof := by
  cases rest : skip s with
  | nil =>
    rw [lex_of_skip_nil rest] at h
    cases h
  | cons c r =>
    have reads := gettoken_reads rest
    obtain ⟨head, tail⟩ := cons.inj (reads.next.symm.trans h)
    exact ⟨head, tail, head ▸ reads.token⟩

lemma lex_length (s : List Char) : (lex s).length ≤ s.length := by
  induction n : s.length using Nat.strong_induction_on generalizing s with
  | _ n ih =>
    subst n
    cases rest : skip s with
    | nil => rw [lex_of_skip_nil rest]; exact Nat.zero_le _
    | cons c r =>
      have reads := gettoken_reads rest
      have tail := ih _ reads.shorter _ rfl
      rw [reads.next, length_cons]
      exact Nat.lt_of_le_of_lt tail reads.shorter

lemma lex_peek (s toks : List Char) : lex (peek s toks).1 = lex s := lex_skip s

lemma peek_eq {toks : List Char} (sub : ∀ c ∈ toks, c ∈ symbols) :
    (peek s toks).2 = (lex s).head?.any (Tok.isOneOf toks) := by
  cases rest : skip s with
  | nil => rw [peek, rest, lex_of_skip_nil rest]; rfl
  | cons c r =>
    have reads := gettoken_reads rest
    rw [peek, rest, reads.next]
    simp only [head?_cons, any_some, Tok.isOneOf]
    rcases reads.char with char | ⟨char, other⟩
    · rw [char, any_some]
    rw [char, any_none]
    exact decide_eq_false fun mem => other (sub c mem)

lemma peek_gettoken_shorter {toks : List Char} (h : (peek s toks).2 = true) :
    (gettoken (peek s toks).1).2.length < s.length := by
  cases rest : skip s with
  | nil =>
    rw [peek, rest] at h
    cases h
  | cons c r =>
    have again : skip (skip s) = c :: r := by
      rw [rest, skip, dropWhile_cons_of_neg (by simpa using skip_cons rest)]
    exact (gettoken_reads again).shorter.trans_le (skip_length s)

lemma gettoken_length (s : List Char) : (gettoken s).2.length ≤ s.length := by
  cases rest : skip s with
  | nil =>
    rw [gettoken_of_nil (lex_of_skip_nil rest)]
    exact Nat.zero_le _
  | cons c r => exact (gettoken_reads rest).shorter.le

end Xv6.Shell
