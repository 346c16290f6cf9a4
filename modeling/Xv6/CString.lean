import Mathlib.Data.List.Basic

/-! Strings in memory, up to a NUL. -/
namespace Xv6.CString
open List
open Function (update update_of_ne)

abbrev nul : Char := '\x00'

/-- The string at `p`, read for at most `n` characters. -/
def cstring (buf : Nat → Char) : Nat → Nat → List Char
  | 0, _ => []
  | n + 1, p => if buf p = nul then [] else buf p :: cstring buf n (p + 1)

/-- The `n` characters from `p` on. -/
def chars (buf : Nat → Char) (p n : Nat) : List Char := (List.range n).map fun i => buf (p + i)

variable {buf buf' : Nat → Char} {p n : Nat} {l t : List Char}

lemma length_chars : (chars buf p n).length = n := by rw [chars, length_map, length_range]

lemma chars_add (buf : Nat → Char) (p n k : Nat) :
    chars buf p (n + k) = chars buf p n ++ chars buf (p + n) k := by
  simp only [chars, range_add, map_append, map_map, Function.comp_def, Nat.add_assoc]

lemma chars_succ (buf : Nat → Char) (p n : Nat) :
    chars buf p (n + 1) = buf p :: chars buf (p + 1) n := by
  rw [Nat.add_comm, chars_add]
  rfl

lemma chars_congr {q : Nat} (same : ∀ i < n, buf' (q + i) = buf (p + i)) :
    chars buf' q n = chars buf p n := map_congr_left fun i mem => same i (mem_range.mp mem)

/-- The characters are in the buffer from `p` on. -/
def Holds (buf : Nat → Char) (p : Nat) (t : List Char) : Prop := chars buf p t.length = t

lemma holds_append : Holds buf p (l ++ t) ↔ Holds buf p l ∧ Holds buf (p + l.length) t := by
  rw [Holds, length_append, chars_add]
  exact ⟨fun eq => append_inj eq length_chars, fun ⟨one, two⟩ => by rw [one, two]⟩

lemma holds_cons {c : Char} : Holds buf p (c :: t) ↔ buf p = c ∧ Holds buf (p + 1) t := by
  rw [Holds, length_cons, chars_succ, List.cons.injEq]
  rfl

lemma Holds.update {q : Nat} {c : Char} (h : Holds buf p t) (out : q < p ∨ p + t.length ≤ q) :
    Holds (update buf q c) p t := (chars_congr fun i less => update_of_ne (by omega) ..).trans h

lemma cstring_eq (h : Holds buf p (l ++ [nul])) (free : nul ∉ l) (less : l.length < n) :
    cstring buf n p = l := by
  induction n generalizing p l with
  | zero => omega
  | succ n ih =>
    rw [cstring]
    cases l with
    | nil => exact if_pos (holds_cons.mp h).1
    | cons c l =>
      obtain ⟨here, rest⟩ := holds_cons.mp h
      obtain ⟨other, free⟩ := not_or.mp (mt mem_cons.mpr free)
      rw [length_cons] at less
      rw [here, if_neg (Ne.symm other), ih rest free (by omega)]

end Xv6.CString
