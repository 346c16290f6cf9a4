import Mathlib.Data.List.Basic

/-! The pattern matcher of grep.c. A pattern and a text are the characters before their NUL, and a
position in them is the list of the characters from it on. -/
namespace Xv6.Grep
open List

/-- `matchstar`, where `here` is `matchhere` of the pattern behind the star. -/
def matchstar (here : List Char → Bool) (c : Char) : List Char → Bool
  | [] => here []
  | t :: text =>
    if here (t :: text) then true
    else if t = c ∨ c = '.' then matchstar here c text
    else false

def matchhere : List Char → List Char → Bool
  | [], _ => true
  | c :: '*' :: re, text => matchstar (matchhere re) c text
  | ['$'], text => text.isEmpty
  | _ :: _, [] => false
  | c :: re, t :: text => if c = '.' ∨ c = t then matchhere re text else false

/-- The loop of `match`. -/
def matchLoop (re : List Char) : List Char → Bool
  | [] => matchhere re []
  | t :: text => if matchhere re (t :: text) then true else matchLoop re text

/-- `match` -/
def matchRe : List Char → List Char → Bool
  | '^' :: re, text => matchhere re text
  | re, text => matchLoop re text

/-! ### The pattern language -/

inductive Item where
  | star (c : Char)
  | last
  | any
  | char (c : Char)

def items : List Char → List Item
  | [] => []
  | c :: '*' :: re => .star c :: items re
  | ['$'] => [.last]
  | '.' :: re => .any :: items re
  | c :: re => .char c :: items re

/-- The pattern without the `^` that anchors it, and whether there is one. -/
def anchor : List Char → Bool × List Char
  | '^' :: re => (true, re)
  | re => (false, re)

/-- The items match the characters `w` of a text that goes on with `rest`. -/
def Denotes : List Item → List Char → List Char → Prop
  | [], w, _ => w = []
  | .star c :: us, w, rest => ∃ a b, w = a ++ b ∧ (∀ x ∈ a, x = c ∨ c = '.') ∧ Denotes us b rest
  | .last :: us, w, rest => w = [] ∧ rest = [] ∧ Denotes us [] []
  | .any :: us, w, rest => ∃ x b, w = x :: b ∧ Denotes us b rest
  | .char c :: us, w, rest => ∃ b, w = c :: b ∧ Denotes us b rest

variable {re text : List Char} {c : Char} {us : List Item}

/-- The items match at the start of the text. -/
def Begins (us : List Item) (text : List Char) : Prop :=
  ∃ w rest, text = w ++ rest ∧ Denotes us w rest

lemma begins_star : Begins (.star c :: us) text ↔ ∃ a b, text = a ++ b ∧
    (∀ x ∈ a, x = c ∨ c = '.') ∧ Begins us b := by
  constructor
  · rintro ⟨w, rest, rfl, a, b, rfl, run, denotes⟩
    exact ⟨a, b ++ rest, append_assoc .., run, b, rest, rfl, denotes⟩
  rintro ⟨a, b, rfl, run, w, rest, rfl, denotes⟩
  exact ⟨a ++ w, rest, (append_assoc ..).symm, a, w, rfl, run, denotes⟩

lemma begins_last : Begins [.last] text ↔ text = [] := by
  constructor
  · rintro ⟨w, rest, rfl, rfl, rfl, -⟩
    rfl
  rintro rfl
  exact ⟨[], [], rfl, rfl, rfl, rfl⟩

lemma begins_any : Begins (.any :: us) text ↔ ∃ x b, text = x :: b ∧ Begins us b := by
  constructor
  · rintro ⟨w, rest, rfl, x, b, rfl, denotes⟩
    exact ⟨x, b ++ rest, rfl, b, rest, rfl, denotes⟩
  rintro ⟨x, b, rfl, w, rest, rfl, denotes⟩
  exact ⟨x :: w, rest, rfl, x, w, rfl, denotes⟩

lemma begins_char : Begins (.char c :: us) text ↔ ∃ b, text = c :: b ∧ Begins us b := by
  constructor
  · rintro ⟨w, rest, rfl, b, rfl, denotes⟩
    exact ⟨b ++ rest, rfl, b, rest, rfl, denotes⟩
  rintro ⟨b, rfl, w, rest, rfl, denotes⟩
  exact ⟨c :: w, rest, rfl, w, rfl, denotes⟩

lemma matchstar_iff {here : List Char → Bool} : matchstar here c text = true ↔ ∃ a b,
    text = a ++ b ∧ (∀ x ∈ a, x = c ∨ c = '.') ∧ here b = true := by
  induction text with
  | nil =>
    constructor
    · exact fun found => ⟨[], [], rfl, nofun, found⟩
    rintro ⟨a, b, eq, -, found⟩
    rwa [(append_eq_nil_iff.mp eq.symm).2] at found
  | cons t text ih =>
    rw [matchstar]
    split_ifs with now more
    · exact ⟨fun _ => ⟨[], t :: text, rfl, nofun, now⟩, fun _ => rfl⟩
    · rw [ih]
      constructor
      · rintro ⟨a, b, rfl, run, found⟩
        exact ⟨t :: a, b, rfl, forall_mem_cons.mpr ⟨more, run⟩, found⟩
      rintro ⟨a, b, eq, run, found⟩
      cases a with
      | nil => exact absurd (eq ▸ found) now
      | cons x a =>
        obtain ⟨rfl, rfl⟩ := List.cons.inj eq
        exact ⟨a, b, rfl, (forall_mem_cons.mp run).2, found⟩
    refine ⟨nofun, ?_⟩
    rintro ⟨a, b, eq, run, found⟩
    cases a with
    | nil => exact absurd (eq ▸ found) now
    | cons x a =>
      obtain ⟨rfl, -⟩ := List.cons.inj eq
      exact absurd (forall_mem_cons.mp run).1 more

lemma matchhere_iff (re text : List Char) :
    matchhere re text = true ↔ Begins (items re) text := by
  induction re using items.induct generalizing text with
  | case1 =>
    rw [matchhere, items]
    exact ⟨fun _ => ⟨[], text, rfl, rfl⟩, fun _ => rfl⟩
  | case2 c re ih =>
    rw [matchhere, items, matchstar_iff, begins_star]
    simp only [ih]
  | case3 => rw [matchhere, items, begins_last, List.isEmpty_iff]
  | case4 re noStar ih =>
    rw [items, begins_any]
    · cases text with
      | nil =>
        rw [matchhere]
        · exact ⟨nofun, fun ⟨_, _, eq, _⟩ => nomatch eq⟩
        · exact noStar
        exact nofun
      | cons t text =>
        rw [matchhere, if_pos (.inl rfl), ih]
        · exact ⟨fun found => ⟨t, text, rfl, found⟩, fun ⟨x, b, eq, found⟩ =>
            (List.cons.inj eq).2 ▸ found⟩
        · exact noStar
        exact nofun
    exact noStar
  | case5 c re noStar notLast noDot ih =>
    rw [items, begins_char]
    · cases text with
      | nil =>
        rw [matchhere]
        · exact ⟨nofun, fun ⟨_, eq, _⟩ => nomatch eq⟩
        · exact noStar
        exact notLast
      | cons t text =>
        rw [matchhere]
        · by_cases same : c = t
          · rw [if_pos (.inr same), ih, same]
            exact ⟨fun found => ⟨text, rfl, found⟩, fun ⟨b, eq, found⟩ =>
              (List.cons.inj eq).2 ▸ found⟩
          rw [if_neg (not_or.mpr ⟨noDot, same⟩)]
          exact ⟨nofun, fun ⟨b, eq, _⟩ => absurd (List.cons.inj eq).1.symm same⟩
        · exact noStar
        exact notLast
    · exact noStar
    · exact notLast
    exact noDot

lemma matchLoop_iff :
    matchLoop re text = true ↔ ∃ before b, text = before ++ b ∧ matchhere re b = true := by
  induction text with
  | nil =>
    refine ⟨fun found => ⟨[], [], rfl, found⟩, ?_⟩
    rintro ⟨a, b, eq, found⟩
    rwa [(append_eq_nil_iff.mp eq.symm).2] at found
  | cons t text ih =>
    rw [matchLoop]
    split_ifs with now
    · exact ⟨fun _ => ⟨[], t :: text, rfl, now⟩, fun _ => rfl⟩
    rw [ih]
    constructor
    · rintro ⟨a, b, rfl, found⟩
      exact ⟨t :: a, b, rfl, found⟩
    rintro ⟨a, b, eq, found⟩
    cases a with
    | nil => exact absurd (eq ▸ found) now
    | cons x a =>
      obtain ⟨-, rfl⟩ := List.cons.inj eq
      exact ⟨a, b, rfl, found⟩

/-- `match` returns 1 exactly if a part of the text matches the items of the pattern, at the start
of the text if the pattern begins with `^`. -/
theorem match_decides_language (re text : List Char) :
    matchRe re text = true ↔ ∃ before w rest, text = before ++ w ++ rest ∧
      ((anchor re).1 = true → before = []) ∧ Denotes (items (anchor re).2) w rest := by
  unfold matchRe anchor
  split
  · next re text =>
    rw [matchhere_iff]
    constructor
    · rintro ⟨w, rest, rfl, denotes⟩
      exact ⟨[], w, rest, rfl, fun _ => rfl, denotes⟩
    rintro ⟨before, w, rest, rfl, empty, denotes⟩
    rw [empty rfl]
    exact ⟨w, rest, rfl, denotes⟩
  rw [matchLoop_iff]
  simp only [matchhere_iff]
  constructor
  · rintro ⟨before, b, rfl, w, rest, rfl, denotes⟩
    exact ⟨before, w, rest, (append_assoc ..).symm, nofun, denotes⟩
  rintro ⟨before, w, rest, rfl, -, denotes⟩
  exact ⟨before, w ++ rest, append_assoc .., w, rest, rfl, denotes⟩

end Xv6.Grep
