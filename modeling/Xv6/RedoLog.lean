import Mathlib.Data.List.Basic

/-! Redo logs. Writes are tagged with the operation that makes them and are committed in groups.
The disk holds a header with the keys of a committed group, one slot for the value of each of
them, and the home locations. -/
namespace RedoLog
open List
open Function (update update_of_ne update_self)

universe u v w
variable {κ : Type u} {α : Type v} {τ : Type w}

structure Write (τ : Type w) (κ : Type u) (α : Type v) where
  tag : τ
  key : κ
  data : α

section
variable [DecidableEq κ]

def apply (h : κ → α) (ws : List (Write τ κ α)) : κ → α :=
  ws.foldl (fun h w => update h w.key w.data) h

lemma apply_append (h : κ → α) (ws vs : List (Write τ κ α)) :
    apply h (ws ++ vs) = apply (apply h ws) vs := foldl_append

lemma apply_snoc (h : κ → α) (ws : List (Write τ κ α)) (w : Write τ κ α) :
    apply h (ws ++ [w]) = update (apply h ws) w.key w.data := apply_append h ws [w]

lemma apply_of_not_mem {b : κ} {ws : List (Write τ κ α)} (h : κ → α)
    (none : ∀ w ∈ ws, w.key ≠ b) : apply h ws b = h b := by
  induction ws generalizing h with
  | nil => rfl
  | cons w ws ih =>
    change apply (update h w.key w.data) ws b = h b
    rw [ih _ fun v mem => none v (mem_cons_of_mem _ mem)]
    exact update_of_ne (none w mem_cons_self).symm _ _

end

section
variable [DecidableEq τ]

def only (o : τ) (ws : List (Write τ κ α)) : List (Write τ κ α) := ws.filter (·.tag = o)

lemma only_snoc_self (ws : List (Write τ κ α)) (w : Write τ κ α) :
    only w.tag (ws ++ [w]) = only w.tag ws ++ [w] := by simp [only]

lemma only_snoc_of_ne {o : τ} (ws : List (Write τ κ α)) (w : Write τ κ α) (ne : w.tag ≠ o) :
    only o (ws ++ [w]) = only o ws := by simp [only, ne]

/-- How the writes made so far are distributed: those of an open operation are all pending, and
every operation has all its writes or none among the pending ones, and in each group. -/
structure Grouping (isOpen : τ → Prop) (all pending : List (Write τ κ α))
    (groups : List (List (Write τ κ α))) : Prop where
  opened : ∀ o, isOpen o → only o pending = only o all ∧ ∀ g ∈ groups, only o g = []
  waiting : ∀ o, only o pending = [] ∨ only o pending = only o all ∧ ∀ g ∈ groups, only o g = []
  whole : ∀ g ∈ groups, ∀ o, only o g = [] ∨ only o g = only o all
  single : groups.Pairwise fun g g' => ∀ o, only o g = [] ∨ only o g' = []

namespace Grouping
variable {isOpen isOpen' : τ → Prop} {all pending : List (Write τ κ α)}
  {groups : List (List (Write τ κ α))}

section
variable (h : Grouping isOpen all pending groups)
include h

lemma start (fresh : ∀ o, isOpen' o → isOpen o ∨ only o all = []) :
    Grouping isOpen' all pending groups := by
  refine ⟨fun o now => ?_, h.waiting, h.whole, h.single⟩
  rcases fresh o now with before | nothing
  · exact h.opened o before
  refine ⟨?_, fun g mem => ?_⟩
  · rcases h.waiting o with none | ⟨same, -⟩
    · rw [none, nothing]
    exact same
  rcases h.whole g mem o with none | same
  · exact none
  rw [same, nothing]

lemma write {w : Write τ κ α} (now : isOpen w.tag) :
    Grouping isOpen (all ++ [w]) (pending ++ [w]) groups := by
  obtain ⟨same, apart⟩ := h.opened w.tag now
  have mine : only w.tag (pending ++ [w]) = only w.tag (all ++ [w]) := by
    rw [only_snoc_self, only_snoc_self, same]
  refine ⟨fun o opens => ?_, fun o => ?_, fun g mem o => ?_, h.single⟩
  · by_cases ne : w.tag = o
    · subst ne
      exact ⟨mine, apart⟩
    rw [only_snoc_of_ne _ _ ne, only_snoc_of_ne _ _ ne]
    exact h.opened o opens
  · by_cases ne : w.tag = o
    · subst ne
      exact .inr ⟨mine, apart⟩
    rw [only_snoc_of_ne _ _ ne, only_snoc_of_ne _ _ ne]
    exact h.waiting o
  by_cases ne : w.tag = o
  · subst ne
    exact .inl (apart g mem)
  rw [only_snoc_of_ne _ _ ne]
  exact h.whole g mem o

lemma commit (closed : ∀ o, ¬ isOpen' o) : Grouping isOpen' all [] (groups ++ [pending]) := by
  refine ⟨fun o now => absurd now (closed o), fun o => .inl rfl, fun g mem o => ?_, ?_⟩
  · rcases mem_append.mp mem with old | new
    · exact h.whole g old o
    cases mem_singleton.mp new
    exact (h.waiting o).imp_right And.left
  refine pairwise_append.mpr ⟨h.single, pairwise_singleton _ _, fun g mem g' new o => ?_⟩
  cases mem_singleton.mp new
  rcases h.waiting o with none | ⟨-, apart⟩
  · exact .inr none
  exact .inl (apart g mem)

lemma discard (closed : ∀ o, ¬ isOpen' o) : Grouping isOpen' all [] groups :=
  ⟨fun o now => absurd now (closed o), fun _ => .inl rfl, h.whole, h.single⟩

end

end Grouping
end

structure Disk (κ : Type u) (α : Type v) where
  header : List κ
  slot : Nat → α
  home : κ → α

/-- Installing the committed group on this disk gives the contents `h`. -/
structure Disk.Holds (d : Disk κ α) (h : κ → α) : Prop where
  slots : ∀ k b, d.header[k]? = some b → d.slot k = h b
  homes : ∀ b, b ∈ d.header ∨ d.home b = h b

namespace Disk.Holds
variable {d : Disk κ α} {h h' : κ → α} {b : κ} {k : Nat}

lemma home_eq (holds : d.Holds h) (clear : d.header = []) (b : κ) : d.home b = h b := by
  refine (holds.homes b).resolve_left ?_
  rw [clear]
  exact not_mem_nil

lemma of_home_eq (same : ∀ b, d.home b = h b) (clear : d.header = []) : d.Holds h := by
  refine ⟨fun k b at_k => ?_, fun b => .inr (same b)⟩
  rw [clear] at at_k
  cases at_k

lemma install [DecidableEq κ] (holds : d.Holds h) (at_k : d.header[k]? = some b) :
    Holds { d with home := update d.home b (d.slot k) } h := by
  refine ⟨holds.slots, fun c => ?_⟩
  by_cases same : c = b
  · subst same
    refine .inr ?_
    change update d.home c (d.slot k) c = h c
    rw [update_self, holds.slots k c at_k]
  refine (holds.homes c).imp_right fun home => ?_
  change update d.home b (d.slot k) c = h c
  rw [update_of_ne same, home]

lemma commit (holds : d.Holds h) (clear : d.header = []) {l : List κ}
    (slots : ∀ k b, l[k]? = some b → d.slot k = h' b) (rest : ∀ b, b ∉ l → h' b = h b) :
    Holds { d with header := l } h' := by
  refine ⟨slots, fun b => ?_⟩
  by_cases mem : b ∈ l
  · exact .inl mem
  exact .inr ((holds.home_eq clear b).trans (rest b mem).symm)

lemma setSlot (holds : d.Holds h) (clear : d.header = []) (slot : Nat → α) :
    Holds { d with slot := slot } h :=
  of_home_eq (d := { d with slot := slot }) (holds.home_eq clear) clear

lemma erase (same : ∀ b, d.home b = h b) : Holds { d with header := [] } h :=
  of_home_eq (d := { d with header := [] }) same rfl

end Disk.Holds
end RedoLog
