import Xv6.CString
import Xv6.Grep
import Xv6.Memmove

/-! The lines that grep.c writes. `buf` is read as strings up to a NUL, a matched line is cut by a
NUL that is then replaced, and what is left of the last line moves to the front. -/
namespace Xv6.Grep
open Function (update update_of_ne update_self)
open CString List
open Memmove (userMemmove userMemmove_eq moved)

abbrev newline : Char := '\n'

/-- `sizeof(buf)` -/
abbrev bufsize : Nat := 1024

/-- `strchr`, with `n` characters of the buffer left. -/
def strchr (buf : Nat → Char) (c : Char) : Nat → Nat → Option Nat
  | 0, _ => none
  | n + 1, p =>
    if buf p = nul then none else if buf p = c then some p else strchr buf c n (p + 1)

/-- The inner loop of `grep` for at most `fuel` lines: the end of the last one, the buffer and what
has been written. -/
def lineLoop (re : List Char) :
    Nat → Nat → (Nat → Char) → List Char → Nat × (Nat → Char) × List Char
  | 0, p, buf, out => (p, buf, out)
  | fuel + 1, p, buf, out =>
    match strchr buf newline (bufsize - p) p with
    | none => (p, buf, out)
    | some q =>
      let cut := update buf q nul
      if matchRe re (cstring cut (bufsize - p) p) then
        let buf := update cut q newline
        lineLoop re fuel (q + 1) buf (out ++ chars buf p (q + 1 - p))
      else lineLoop re fuel (q + 1) cut out

/-- `read` has stored the characters at `m`. -/
def stored (buf : Nat → Char) (m : Nat) (piece : List Char) (i : Nat) : Char :=
  if m ≤ i ∧ i < m + piece.length then piece.getD (i - m) nul else buf i

/-- The outer loop of `grep`. The `i`-th call of `read` gets `split i + 1` characters, or as many as
there are and as it has asked for. -/
def grepLoop (re : List Char) (split : Nat → Nat) :
    Nat → Nat → List Char → Nat → (Nat → Char) → List Char → Option (List Char)
  | 0, _, _, _, _, _ => none
  | fuel + 1, i, input, m, buf, out =>
    let piece := input.take (min (bufsize - m - 1) (split i + 1))
    if 0 < piece.length then
      let m := m + piece.length
      let r := lineLoop re bufsize 0 (update (stored buf (m - piece.length) piece) m nul) out
      let left := m - r.1
      grepLoop re split fuel (i + 1) (input.drop piece.length) left
        (if 0 < m then userMemmove 0 r.1 left r.2.1 else r.2.1) r.2.2
    else some out

/-- What `grep` writes; a call of `read` that returns 0 is the last. -/
def grep (re : List Char) (split : Nat → Nat) (buf : Nat → Char) (input : List Char) :
    Option (List Char) :=
  grepLoop re split (input.length + 1) 0 input 0 buf []

/-! ### Lines -/

/-- The lines that end in the characters, the first of which has begun with `cur`. -/
def lines : List Char → List Char → List (List Char)
  | _, [] => []
  | cur, c :: s => if c = newline then cur :: lines [] s else lines (cur ++ [c]) s

def emit (re line : List Char) : List Char := if matchRe re line then line ++ [newline] else []

/-- The line and its newline fit into the buffer, with the NUL behind them. -/
def fits (line : List Char) : Bool := line.length < bufsize - 1

variable {buf : Nat → Char} {p n : Nat} {l t s cur re : List Char}

lemma lines_append (no : newline ∉ l) : lines cur (l ++ s) = lines (cur ++ l) s := by
  induction l generalizing cur with
  | nil => rw [append_nil, nil_append]
  | cons c l ih =>
    obtain ⟨other, no⟩ := not_or.mp (mt mem_cons.mpr no)
    rw [cons_append, lines, if_neg (Ne.symm other), ih no, append_assoc]
    rfl

lemma lines_newline : lines cur (newline :: s) = cur :: lines [] s := if_pos rfl

/-- A line that has begun with too many characters is the first of the lines. -/
lemma takeWhile_lines (cur s : List Char) (long : bufsize - 1 ≤ cur.length) :
    (lines cur s).takeWhile fits = [] := by
  induction s generalizing cur with
  | nil => rfl
  | cons c s ih =>
    rw [lines]
    split_ifs with last
    · exact takeWhile_cons_of_neg (by simpa [fits] using long)
    · exact ih (cur ++ [c]) (by rw [length_append]; omega)

/-! ### The buffer -/

lemma strchr_none (h : Holds buf p (t ++ [nul])) (free : nul ∉ t) (no : newline ∉ t) (n : Nat) :
    strchr buf newline n p = none := by
  induction n generalizing p t with
  | zero => rfl
  | succ n ih =>
    rw [strchr]
    cases t with
    | nil => exact if_pos (holds_cons.mp h).1
    | cons c t =>
      obtain ⟨here, rest⟩ := holds_cons.mp h
      obtain ⟨other, free⟩ := not_or.mp (mt mem_cons.mpr free)
      obtain ⟨other', no⟩ := not_or.mp (mt mem_cons.mpr no)
      rw [here, if_neg (Ne.symm other), if_neg (Ne.symm other'), ih rest free no]

lemma strchr_some (h : Holds buf p (l ++ newline :: t)) (free : nul ∉ l) (no : newline ∉ l)
    (less : l.length < n) : strchr buf newline n p = some (p + l.length) := by
  induction n generalizing p l with
  | zero => omega
  | succ n ih =>
    rw [strchr]
    cases l with
    | nil =>
      rw [(holds_cons.mp h).1, if_neg (by decide), if_pos rfl]
      rfl
    | cons c l =>
      obtain ⟨here, rest⟩ := holds_cons.mp h
      obtain ⟨other, free⟩ := not_or.mp (mt mem_cons.mpr free)
      obtain ⟨other', no⟩ := not_or.mp (mt mem_cons.mpr no)
      rw [length_cons] at less ⊢
      rw [here, if_neg (Ne.symm other), if_neg (Ne.symm other'), ih rest free no (by omega),
        Nat.add_assoc, Nat.add_comm 1]

/-! ### The loops -/

/-- What the inner loop leaves of the characters: the lines that end in them have been written if
they match, and the rest is in the buffer. -/
structure Scanned (re t out : List Char) (p : Nat) (r : Nat × (Nat → Char) × List Char) : Prop where
  tail : ∃ tail ls, r.1 + tail.length = p + t.length ∧ newline ∉ tail ∧ nul ∉ tail ∧
    Holds r.2.1 r.1 tail ∧ (∀ s, lines [] (t ++ s) = ls ++ lines tail s) ∧
    (∀ l ∈ ls, l.length < t.length) ∧ r.2.2 = out ++ ls.flatMap (emit re)

lemma lineLoop_none {fuel : Nat} {out : List Char} (h : Holds buf p (t ++ [nul])) (free : nul ∉ t)
    (no : newline ∉ t) : lineLoop re fuel p buf out = (p, buf, out) := by
  cases fuel with
  | zero => rfl
  | succ fuel => rw [lineLoop, strchr_none h free no]

lemma lineLoop_scanned (fuel : Nat) (out : List Char) (h : Holds buf p (t ++ [nul]))
    (free : nul ∉ t) (room : p + t.length < bufsize) (enough : t.length < fuel) :
    Scanned re t out p (lineLoop re fuel p buf out) := by
  induction fuel generalizing p t buf out with
  | zero => omega
  | succ fuel ih =>
    by_cases more : newline ∈ t
    · obtain ⟨l, u, rfl, no⟩ := eq_append_cons_of_mem more
      rw [length_append, length_cons] at room enough
      obtain ⟨freeL, freeU⟩ := not_or.mp (mt mem_append.mpr free)
      have freeU := (not_or.mp (mt mem_cons.mpr freeU)).2
      rw [append_assoc] at h
      obtain ⟨first, rest⟩ := holds_append.mp h
      obtain ⟨-, rest⟩ := holds_cons.mp rest
      rw [lineLoop, strchr_some h freeL no (by omega)]
      have cut : Holds (update buf (p + l.length) nul) p (l ++ [nul]) :=
        holds_append.mpr ⟨first.update (.inr le_rfl), holds_cons.mpr ⟨update_self .., rfl⟩⟩
      dsimp only
      rw [cstring_eq cut freeL (by omega)]
      have both : ∀ {buf' out'}, Holds buf' (p + l.length + 1) (u ++ [nul]) →
          out' = out ++ emit re l → Scanned re (l ++ newline :: u) out p
            (lineLoop re fuel (p + l.length + 1) buf' out') := by
        intro buf' out' holds written
        obtain ⟨tail, ls, place, noTail, freeTail, kept, same, short, wrote⟩ :=
          (ih out' holds freeU (by omega) (by omega)).tail
        refine ⟨tail, l :: ls, ?_, noTail, freeTail, kept, fun s => ?_, fun x mem => ?_, ?_⟩
        · rw [length_append, length_cons, place]
          omega
        · rw [append_assoc, lines_append no, nil_append, cons_append, lines_newline,
            same, cons_append]
        · rw [length_append, length_cons]
          rcases mem_cons.mp mem with rfl | mem
          · omega
          · have := short x mem
            omega
        rw [wrote, written, flatMap_cons, append_assoc]
      have kept : Holds (update buf (p + l.length) nul) (p + l.length + 1) (u ++ [nul]) :=
        rest.update (.inl (Nat.lt_succ_self _))
      split_ifs with found
      · refine both (kept.update (.inl (Nat.lt_succ_self _))) ?_
        have line : Holds (update (update buf (p + l.length) nul) (p + l.length) newline) p (l ++
          [newline]) := holds_append.mpr ⟨(first.update (.inr le_rfl)).update (.inr
          le_rfl), holds_cons.mpr ⟨update_self .., rfl⟩⟩
        rw [Holds, length_append, length_singleton] at line
        rw [show p + l.length + 1 - p = l.length + 1 by omega, line, emit, if_pos found]
      refine both kept ?_
      rw [emit, if_neg found, append_nil]
    rw [lineLoop_none h free more]
    refine ⟨t, [], rfl, more, free, (holds_append.mp h).1, fun s => ?_, by simp,
      (append_nil _).symm⟩
    rw [lines_append more, nil_append, nil_append]

lemma stored_holds {m : Nat} (h : Holds buf 0 cur) (len : cur.length = m) (piece : List Char) :
    Holds (update (stored buf m piece) (m + piece.length) nul) 0 (cur ++ piece ++ [nul]) := by
  subst len
  refine holds_append.mpr ⟨.update ?_ (.inr ?_), holds_cons.mpr ⟨?_, rfl⟩⟩
  · refine holds_append.mpr ⟨(chars_congr fun i less => if_neg (by omega)).trans h, ?_⟩
    rw [Nat.zero_add]
    refine ext_getElem length_chars fun i less here => ?_
    simp only [chars]
    rw [getElem_map, getElem_range, stored, if_pos (by omega), Nat.add_sub_cancel_left,
      getD_eq_getElem?_getD, getElem?_eq_getElem here, Option.getD_some]
  · rw [length_append]
    omega
  rw [Nat.zero_add, length_append]
  exact update_self ..

lemma holds_userMemmove {p n : Nat} (h : Holds buf p t) (len : t.length = n)
    (room : p + n ≤ 2 ^ 64) : Holds (userMemmove 0 p n buf) 0 t := by
  subst len
  rw [userMemmove_eq 0 p _ buf (by omega) room]
  refine (chars_congr fun i less => ?_).trans h
  rw [moved, if_pos (by omega), Nat.zero_add, Nat.sub_zero]

/-- The loop writes the matching lines before the first line that does not fit. -/
lemma grepLoop_eq (split : Nat → Nat) (fuel i : Nat) (input : List Char) {m : Nat}
    (out : List Char) (h : Holds buf 0 cur) (len : cur.length = m) (room : m < bufsize)
    (free : nul ∉ cur ++ input) (no : newline ∉ cur) (enough : input.length < fuel) :
    grepLoop re split fuel i input m buf out =
      some (out ++ ((lines cur input).takeWhile fits).flatMap (emit re)) := by
  induction fuel generalizing i input m out cur buf with
  | zero => omega
  | succ fuel ih =>
    have cap : bufsize = 1024 := rfl
    rw [grepLoop]
    generalize got : input.take (min (bufsize - m - 1) (split i + 1)) = piece
    have whole : piece ++ input.drop piece.length = input := by
      rw [← got, length_take, take_eq_take_min, take_append_drop]
    dsimp only
    by_cases some : 0 < piece.length
    · rw [if_pos some]
      have size := congrArg length got
      rw [length_take] at size
      have less := congrArg length whole
      rw [length_append] at less
      generalize input.drop piece.length = rest at whole less ⊢
      subst whole
      rw [← append_assoc] at free
      obtain ⟨freeT, freeRest⟩ := not_or.mp (mt mem_append.mpr free)
      have holds := stored_holds h len piece
      rw [Nat.add_sub_cancel]
      generalize ran : lineLoop re bufsize 0 _ out = r
      obtain ⟨tail, ls, place, noTail, freeTail, kept, same, short, wrote⟩ := (ran ▸ lineLoop_scanned
        bufsize out holds freeT (by rw [length_append]; omega)
        (by rw [length_append]; omega) : Scanned re (cur ++ piece) out 0 r).tail
      rw [length_append, len, Nat.zero_add] at place
      have all : lines cur (piece ++ rest) = ls ++ lines tail rest := by
        rw [← same rest, append_assoc, lines_append no, nil_append]
      have fit : ∀ line ∈ ls, fits line = true := by
        intro line mem
        have := short line mem
        rw [length_append] at this
        exact decide_eq_true (by omega)
      rw [if_pos (by omega), ih (i + 1) rest r.2.2 (holds_userMemmove kept (by omega) (by omega))
        (by omega) (by omega) ?_ noTail (by omega), wrote, all, takeWhile_append_of_pos fit,
        flatMap_append, append_assoc]
      exact mt mem_append.mp (not_or.mpr ⟨freeTail, freeRest⟩)
    rw [if_neg some]
    -- the input has ended, or the buffer is full
    have none : (lines cur input).takeWhile fits = [] := by
      cases input with
      | nil => rfl
      | cons c input =>
        have size := congrArg length got
        rw [length_take, length_cons] at size
        exact takeWhile_lines cur _ (by omega)
    rw [none, flatMap_nil, append_nil]

/-- However the input is split, `grep` writes all matching lines, in order, exactly if no line
matches from the first one on that does not fit into the buffer. -/
theorem grep_writes_matching_lines_iff (re input : List Char) (split : Nat → Nat)
    (buf : Nat → Char) (free : nul ∉ input) :
    grep re split buf input = some ((lines [] input).flatMap (emit re)) ↔
      ∀ line ∈ (lines [] input).dropWhile fits, matchRe re line = false := by
  have wrote : grep re split buf input = some (((lines [] input).takeWhile fits).flatMap (emit re)) :=
    grepLoop_eq split (input.length + 1) 0 input [] rfl rfl (by decide) free nofun
      (Nat.lt_succ_self _)
  have whole := takeWhile_append_dropWhile (p := fits) (l := lines [] input)
  rw [wrote, Option.some_inj]
  generalize (lines [] input).takeWhile fits = first at whole ⊢
  generalize (lines [] input).dropWhile fits = rest at whole ⊢
  rw [← whole, flatMap_append, self_eq_append_right, flatMap_eq_nil_iff]
  refine forall₂_congr fun line _ => ?_
  rw [emit]
  split_ifs with found <;> simp [found]

theorem two_lines_are_written :
    grep ['b'] (fun _ => 1) (fun _ => nul) ['a', newline, 'b', newline] =
      some ['b', newline] :=
  (grep_writes_matching_lines_iff ['b'] ['a', newline, 'b', newline] (fun _ => 1) (fun _ => nul)
    (by decide)).mpr (by decide)

/-- A line of 1023 characters fills the buffer, and `read` is asked for nothing. -/
theorem long_line_is_not_written :
    nul ∉ List.replicate 1023 'a' ++ [newline] ∧
    grep [] (fun _ => 1022) (fun _ => nul) (List.replicate 1023 'a' ++ [newline]) = some [] ∧
    (lines [] (List.replicate 1023 'a' ++ [newline])).flatMap (emit []) =
      List.replicate 1023 'a' ++ [newline] := by
  have free : nul ∉ List.replicate 1023 'a' := by
    rw [mem_replicate]
    exact fun h => absurd h.2 (by decide)
  have no : newline ∉ List.replicate 1023 'a' := by
    rw [mem_replicate]
    exact fun h => absurd h.2 (by decide)
  refine ⟨?_, ?_, ?_⟩
  · decide +kernel
  · have piece : (List.replicate 1023 'a' ++ [newline]).take (min (bufsize - 0 - 1) (1022 + 1)) =
        List.replicate 1023 'a' := take_left' length_replicate
    have start : Holds (fun _ => nul) 0 [] := rfl
    have holds := stored_holds (m := 0) start rfl (List.replicate 1023 'a')
    rw [grep, length_append, length_replicate, length_singleton, grepLoop]
    simp only
    rw [piece, Nat.add_sub_cancel, lineLoop_none holds free no, length_replicate,
      if_pos (by decide), grepLoop]
    rfl
  decide +kernel

end Xv6.Grep
