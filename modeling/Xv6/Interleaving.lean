import Mathlib.Data.Nat.Basic
import Mathlib.Logic.Function.Iterate
import Mathlib.Tactic.Choose

/-! Executions of a partial labelled step function. A label names the acting
party and resolves every choice that the acting party leaves open, so a run is
determined by its schedule. Side conditions on single steps are kept apart from
the step function: a guarded run is a run all of whose steps satisfy them. -/
namespace Interleaving
open List Option

/-! Parties of a run with one or two of them are written as numerals. The instance of the library
varies with the imports. -/

instance neZero_one : @NeZero Nat Zero.ofOfNat0 1 := ⟨Nat.one_ne_zero⟩

instance neZero_two : @NeZero Nat Zero.ofOfNat0 2 := ⟨Nat.succ_ne_zero 1⟩

universe u v w
variable {σ : Type u} {α : Type v}

lemma guarded {c : Prop} [Decidable c] {s t : σ} :
    (if c then some s else none) = some t ↔ c ∧ s = t := by rw [ite_none_right_eq_some, some_inj]

/-- A finite run; `G` is evaluated in the state before each step. -/
inductive Run (step : σ → α → Option σ) (G : σ → α → Prop) : σ → List α → σ → Prop
  | nil (s : σ) : Run step G s [] s
  | cons {s t u : σ} {a : α} {as : List α} :
      G s a → step s a = some t → Run step G t as u → Run step G s (a :: as) u

variable {step : σ → α → Option σ} {G H : σ → α → Prop} {s t u : σ} {a : α} {as bs : List α}

def Free : σ → α → Prop := fun _ _ => True

instance : ∀ (s : σ) (a : α), Decidable (Free s a) := fun _ _ => inferInstanceAs (Decidable True)

/-- Execute a schedule. The result is `none` as soon as a step is not enabled or
not admitted. -/
def execute (step : σ → α → Option σ) (G : σ → α → Prop) [∀ s a, Decidable (G s a)] :
    σ → List α → Option σ
  | s, [] => some s
  | s, a :: as => if G s a then (step s a).bind fun t => execute step G t as else none

lemma Run.of_execute [∀ s a, Decidable (G s a)] (h : execute step G s as = some t) :
    Run step G s as t := by
  induction as generalizing s with
  | nil =>
    cases h
    exact .nil _
  | cons a as ih =>
    unfold execute at h
    split_ifs at h with guard
    obtain ⟨u, first, rest⟩ := bind_eq_some_iff.mp h
    exact .cons guard first (ih rest)

lemma Run.exists_of_execute [∀ s a, Decidable (G s a)] {Q : σ → Prop} [DecidablePred Q] (h :
    (execute step G s as).any (fun t => decide (Q t)) = true) : ∃ t, Run step G s as t ∧ Q t := by
  obtain ⟨t, run, holds⟩ := (any_eq_true _ _).mp h
  exact ⟨t, .of_execute run, of_decide_eq_true holds⟩

/-- What is computed of the last state, and what follows from it. -/
lemma Run.exists_with [∀ s a, Decidable (G s a)] {P Q : σ → Prop} [DecidablePred P]
    (h : (execute step G s as).any (fun t => decide (P t)) = true)
    (then' : ∀ t, Run step G s as t → P t → Q t) : ∃ t, Run step G s as t ∧ Q t := by
  obtain ⟨t, run, holds⟩ := exists_of_execute h
  exact ⟨t, run, then' t run holds⟩

lemma Run.exists_two_with [∀ s a, Decidable (G s a)] {β : Type w} {P : σ → Prop} [DecidablePred P]
    {Q : σ → β → Prop} (h : (execute step G s as).any (fun t => decide (P t)) = true)
    (then' : ∀ t, Run step G s as t → P t → ∃ b, Q t b) : ∃ t b, Run step G s as t ∧ Q t b := by
  obtain ⟨t, run, holds⟩ := exists_of_execute h
  obtain ⟨b, rest⟩ := then' t run holds
  exact ⟨t, b, run, rest⟩

lemma Run.mono (weaker : ∀ s a, G s a → H s a) (run : Run step G s as t) : Run step H s as t := by
  induction run with
  | nil s => exact .nil s
  | cons guard first _ ih => exact .cons (weaker _ _ guard) first ih

lemma Run.of_free (all : ∀ s, ∀ a ∈ as, G s a) (run : Run step Free s as t) :
    Run step G s as t := by
  induction run with
  | nil s => exact .nil s
  | cons _ first _ ih =>
    exact .cons (all _ _ mem_cons_self) first (ih fun s a mem => all s a (mem_cons_of_mem _ mem))

lemma Run.append (first : Run step G s as t) (second : Run step G t bs u) :
    Run step G s (as ++ bs) u := by
  induction first with
  | nil s => exact second
  | cons guard next _ ih => exact .cons guard next (ih second)

lemma Run.snoc (run : Run step G s as t) (guard : G t a) (last : step t a = some u) :
    Run step G s (as ++ [a]) u := run.append (.cons guard last (.nil u))

lemma Run.split (run : Run step G s (as ++ bs) u) :
    ∃ t, Run step G s as t ∧ Run step G t bs u := by
  induction as generalizing s with
  | nil => exact ⟨s, .nil s, run⟩
  | cons a as ih =>
    cases run with
    | cons guard next rest =>
      obtain ⟨t, first, second⟩ := ih rest
      exact ⟨t, .cons guard next first, second⟩

lemma Run.unique (first : Run step G s as t) (second : Run step H s as u) : t = u := by
  induction first with
  | nil s =>
    cases second
    rfl
  | cons _ next _ ih =>
    cases second with
    | cons _ next' rest =>
      cases some.inj (next.symm.trans next')
      exact ih rest

lemma Run.invariant {I : σ → Prop} (keep : ∀ s a t, I s → G s a → step s a = some t → I t)
    (run : Run step G s as t) (start : I s) : I t := by
  induction run with
  | nil s => exact start
  | cons guard first _ ih => exact ih (keep _ _ _ start guard first)

lemma Run.extend {P : List α → σ → Prop}
    (keep : ∀ bs x a y, Run step G s bs x → P bs x → G x a → step x a = some y → P (bs ++ [a]) y)
    (first : Run step G s as t) (second : Run step G t bs u) (now : P as t) : P (as ++ bs) u := by
  induction second generalizing as with
  | nil t => rwa [append_nil]
  | @cons t x u a bs guard next _ ih =>
    have later := ih (first.snoc guard next) (keep as t a x first now guard next)
    rwa [append_assoc, singleton_append] at later

lemma Run.history {P : List α → σ → Prop} (run : Run step G s as t) (start : P [] s)
    (keep : ∀ bs x a y, Run step G s bs x → P bs x → G x a → step x a = some y → P (bs ++ [a]) y) :
    P as t :=
  Run.extend keep (.nil s) run start

/-- Some step of the schedule is taken in a state and with a label that satisfy `E`. -/
def Happened (step : σ → α → Option σ) (G : σ → α → Prop) (s : σ) (E : σ → α → Prop)
    (as : List α) : Prop :=
  ∃ bs a cs x, as = bs ++ a :: cs ∧ Run step G s bs x ∧ E x a

lemma Happened.snoc {E : σ → α → Prop} (h : Happened step G s E as) (a : α) :
    Happened step G s E (as ++ [a]) := by
  obtain ⟨bs, b, cs, x, rfl, run, event⟩ := h
  exact ⟨bs, b, cs ++ [a], x, by rw [append_assoc, cons_append], run, event⟩

lemma Happened.last {E : σ → α → Prop} (run : Run step G s as t) (event : E t a) :
    Happened step G s E (as ++ [a]) := ⟨as, a, [], t, rfl, run, event⟩

/-- A property that holds at the start and fails at the end of a run is
destroyed by one of its steps. -/
lemma Run.exists_breaking_step {Q : σ → Prop} (run : Run step G s as t) (start : Q s)
    (finish : ¬ Q t) : ∃ bs a cs x y, as = bs ++ a :: cs ∧ Run step G s bs x ∧ G x a ∧
    step x a = some y ∧ Run step G y cs t ∧ Q x ∧ ¬ Q y := by
  induction run with
  | nil s => exact absurd start finish
  | @cons s t u a as guard first rest ih =>
    by_cases kept : Q t
    · obtain ⟨bs, b, cs, x, y, split, before, gb, next, after, hx, hy⟩ := ih kept finish
      exact ⟨a :: bs, b, cs, x, y, by rw [split, cons_append],
        .cons guard first before, gb, next, after, hx, hy⟩
    exact ⟨[], a, as, s, t, rfl, .nil s, guard, first, rest, start, kept⟩

structure InfRun (step : σ → α → Option σ) (G : σ → α → Prop) where
  state : ℕ → σ
  label : ℕ → α
  guard : ∀ k, G (state k) (label k)
  next : ∀ k, step (state k) (label k) = some (state (k + 1))

lemma InfRun.invariant {I : σ → Prop} (ρ : InfRun step G) (keep : ∀ s a t, I s → G s a →
    step s a = some t → I t) {T : ℕ} (start : I (ρ.state T)) : ∀ k, T ≤ k → I (ρ.state k) := by
  intro k later
  induction k, later using Nat.le_induction with
  | base => exact start
  | succ k _ ih => exact keep _ _ _ ih (ρ.guard k) (ρ.next k)

lemma InfRun.exists_of_closed {I : σ → Prop} (closed : ∀ s, I s → ∃ a t, G s a ∧
    step s a = some t ∧ I t) (start : I s) : ∃ ρ : InfRun step G, ρ.state 0 = s := by
  choose label next guard steps kept using fun x : {s // I s} => closed x.1 x.2
  let path : ℕ → {s // I s} := fun k => (fun x => ⟨next x, kept x⟩)^[k] ⟨s, start⟩
  have succ : ∀ k, (path (k + 1)).1 = next (path k) := by
    intro k
    simp only [path, Function.iterate_succ_apply']
  exact ⟨⟨fun k => (path k).1, fun k => label (path k), fun k => guard (path k),
    fun k => by rw [succ]; exact steps (path k)⟩, rfl⟩

lemma InfRun.exists_prepend (run : Run step G s as t) (ρ : InfRun step G) (h : ρ.state 0 = t) :
    ∃ ρ' : InfRun step G, ρ'.state 0 = s ∧ ρ'.state as.length = t := by
  induction run with
  | nil s => exact ⟨ρ, h, h⟩
  | @cons s t u a as guard first _ ih =>
    obtain ⟨ρ', begins, ends⟩ := ih h
    refine ⟨⟨fun k => k.casesOn s ρ'.state, fun k => k.casesOn a ρ'.label, ?_, ?_⟩, rfl, ends⟩
    · intro k
      cases k with
      | zero => exact guard
      | succ k => exact ρ'.guard k
    intro k
    cases k with
    | zero => rw [← begins] at first; exact first
    | succ k => exact ρ'.next k

section
variable {A : Type w} (actor : α → A)

def Enabled (step : σ → α → Option σ) (s : σ) (c : A) : Prop :=
  ∃ a t, actor a = c ∧ step s a = some t

def InfRun.Fair (ρ : InfRun step G) : Prop :=
  ∀ c T, (∀ k, T ≤ k → Enabled actor step (ρ.state k) c) → ∃ k, T ≤ k ∧ actor (ρ.label k) = c

variable {actor} {I Q : σ → Prop} {M : σ → A → Prop} {μ : σ → ℕ}

/-- The rule for response under weak fairness. While the goal is open some party
of the group `M` is enabled and stays so until the group moves, and every move
of the group decreases the rank, which nobody else increases. -/
lemma InfRun.eventually (ρ : InfRun step G) (fair : ρ.Fair actor)
    (keep : ∀ s a t, I s → ¬ Q s → G s a → step s a = some t → I t ∨ Q t)
    (down : ∀ s a t, I s → ¬ Q s → G s a → step s a = some t → M s (actor a) → μ t < μ s)
    (idle : ∀ s a t, I s → ¬ Q s → G s a → step s a = some t → ¬ M s (actor a) →
    μ t ≤ μ s ∧ ∀ c, M s c → Enabled actor step s c → M t c ∧ Enabled actor step t c)
    (helpful : ∀ s, I s → ¬ Q s → ∃ c, M s c ∧ Enabled actor step s c) {T : ℕ}
    (start : I (ρ.state T)) : ∃ k, T ≤ k ∧ Q (ρ.state k) := by
  by_contra never
  have stays : ∀ k, T ≤ k → ¬ Q (ρ.state k) := fun k later reached => never ⟨k, later, reached⟩
  have holds : ∀ k, T ≤ k → I (ρ.state k) := by
    intro k later
    induction k, later using Nat.le_induction with
    | base => exact start
    | succ k later ih =>
      rcases keep _ _ _ ih (stays k later) (ρ.guard k) (ρ.next k) with kept | reached
      · exact kept
      exact absurd reached (stays (k + 1) (by omega))
  have moves : ∀ k, T ≤ k → ∃ m, k ≤ m ∧ M (ρ.state m) (actor (ρ.label m)) := by
    intro k later
    by_contra still
    have waits : ∀ m, k ≤ m → ¬ M (ρ.state m) (actor (ρ.label m)) :=
      fun m hm moved => still ⟨m, hm, moved⟩
    obtain ⟨c, member, enabled⟩ := helpful _ (holds k later) (stays k later)
    have persists : ∀ m, k ≤ m → M (ρ.state m) c ∧ Enabled actor step (ρ.state m) c := by
      intro m hm
      induction m, hm using Nat.le_induction with
      | base => exact ⟨member, enabled⟩
      | succ m hm ih =>
        exact (idle _ _ _ (holds m (by omega)) (stays m (by omega)) (ρ.guard m) (ρ.next m)
          (waits m hm)).2 c ih.1 ih.2
    obtain ⟨m, hm, acts⟩ := fair c k fun m hm => (persists m hm).2
    exact waits m hm (acts ▸ (persists m hm).1)
  have rank : ∀ r k, T ≤ k → μ (ρ.state k) = r → False := by
    intro r
    induction r using Nat.strong_induction_on with
    | _ r ih =>
      intro k later eq
      obtain ⟨m, hm, first⟩ := moves k later
      have bound : ∀ j, k ≤ j → μ (ρ.state j) ≤ μ (ρ.state k) := by
        intro j hj
        induction j, hj using Nat.le_induction with
        | base => exact le_rfl
        | succ j hj ihj =>
          by_cases moved : M (ρ.state j) (actor (ρ.label j))
          · have drop := down _ _ _ (holds j (by omega)) (stays j (by omega)) (ρ.guard j)
              (ρ.next j) moved
            exact Nat.le_trans (Nat.le_of_lt drop) ihj
          have rest := idle _ _ _ (holds j (by omega)) (stays j (by omega)) (ρ.guard j)
            (ρ.next j) moved
          exact Nat.le_trans rest.1 ihj
      have drop := down _ _ _ (holds m (by omega)) (stays m (by omega)) (ρ.guard m) (ρ.next m) first
      exact ih (μ (ρ.state (m + 1))) (by have := bound m hm; omega) (m + 1) (by omega) rfl
  exact rank _ T le_rfl rfl

end
end Interleaving
