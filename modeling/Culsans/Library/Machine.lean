import Mathlib.Logic.Basic

/-! # Synchronous machines driven by inputs

A machine has a set of initial states and one transition per input. Properties
of a whole run are stated over the states reached by steps that all satisfy a
guard, so that an environment promise and a side condition on the steps are both
just guards.
-/

namespace Culsans.Library

structure Machine (σ ι : Type*) where
  init : σ → Prop
  next : σ → ι → σ

namespace Machine
variable {σ ι : Type*} (M : Machine σ ι)

/-- The states of the runs in which every step satisfies `ok`. -/
inductive Reachable (ok : σ → ι → Prop) : σ → Prop
  | init {s : σ} (h : M.init s) : Reachable ok s
  | step {s : σ} (i : ι) (hr : Reachable ok s) (h : ok s i) : Reachable ok (M.next s i)

variable {M} {ok ok' : σ → ι → Prop}

theorem Reachable.mono (h : ∀ s i, ok s i → ok' s i) {s : σ} (hr : M.Reachable ok s) :
    M.Reachable ok' s := by
  induction hr with
  | init h0 => exact .init h0
  | step i _ hi ih => exact .step i ih (h _ i hi)

/-- The invariant rule: established initially and kept by every guarded step. -/
theorem Reachable.invariant {P : σ → Prop} (h0 : ∀ s, M.init s → P s)
    (hs : ∀ s i, P s → ok s i → P (M.next s i)) {s : σ} (hr : M.Reachable ok s) : P s := by
  induction hr with
  | init h => exact h0 _ h
  | step i _ hi ih => exact hs _ i ih hi

/-- An invariant may use one already established for the same runs. -/
theorem Reachable.invariant_of {P Q : σ → Prop} (hP : ∀ s, M.Reachable ok s → P s)
    (h0 : ∀ s, M.init s → Q s) (hs : ∀ s i, P s → Q s → ok s i → Q (M.next s i)) {s : σ}
    (hr : M.Reachable ok s) : Q s := by
  induction hr with
  | init h => exact h0 _ h
  | step i hr hi ih => exact hs _ i (hP _ hr) ih hi

variable (M)

/-- The state after a finite list of inputs. -/
def run (s : σ) : List ι → σ
  | [] => s
  | i :: is => run (M.next s i) is

/-- Every step of a finite list of inputs satisfies the guard. -/
def Along (ok : σ → ι → Prop) (s : σ) : List ι → Prop
  | [] => True
  | i :: is => ok s i ∧ Along ok (M.next s i) is

instance Along.decidable (ok : σ → ι → Prop) [∀ s i, Decidable (ok s i)] (s : σ) (is : List ι) :
    Decidable (M.Along ok s is) :=
  match is with
  | [] => inferInstanceAs (Decidable True)
  | i :: is =>
    have := Along.decidable ok (M.next s i) is
    inferInstanceAs (Decidable (ok s i ∧ M.Along ok (M.next s i) is))

variable {M}

theorem Reachable.run {s : σ} (hr : M.Reachable ok s) {is : List ι} (h : M.Along ok s is) :
    M.Reachable ok (M.run s is) := by
  induction is generalizing s with
  | nil => exact hr
  | cons i is ih => exact ih (.step i hr h.1) h.2

/-- Every finite list of inputs is an unguarded run. -/
theorem reachable_run (M : Machine σ ι) {s : σ} (h : M.init s) (is : List ι) :
    M.Reachable (fun _ _ => True) (M.run s is) := by
  have hall : ∀ t : σ, M.Along (fun _ _ => True) t is := by
    induction is with
    | nil => exact fun _ => trivial
    | cons i is ih => exact fun t => ⟨trivial, ih _⟩
  exact .run (.init h) (hall s)

/-- A machine with an observer that reads its states and inputs and never acts on it. -/
def observe (M : Machine σ ι) {γ : Type*} (g : γ) (watch : γ → σ → ι → γ) : Machine (σ × γ) ι where
  init x := M.init x.1 ∧ x.2 = g
  next x i := (M.next x.1 i, watch x.2 x.1 i)

/-- An observed run is a run. -/
theorem Reachable.of_observe {γ : Type*} {g : γ} {watch : γ → σ → ι → γ} {ok : σ × γ → ι → Prop}
    {ok' : σ → ι → Prop} (h : ∀ x i, ok x i → ok' x.1 i) {x : σ × γ}
    (hr : (M.observe g watch).Reachable ok x) : M.Reachable ok' x.1 := by
  induction hr with
  | init h0 => exact .init h0.1
  | step i _ hi ih => exact .step i ih (h _ i hi)

end Machine
end Culsans.Library
