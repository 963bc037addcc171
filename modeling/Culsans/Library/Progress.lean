import Culsans.Library.Machine
import Mathlib.Order.OrderIsoNat
import Mathlib.Data.Finset.Card
import Mathlib.Data.Finset.Range

/-! # Infinite runs of a machine

A run that is never told to stop is a stream of inputs. What such a run reaches is
shown with a measure: it never grows before the goal and keeps dropping, so that
the goal cannot stay away. The measure often counts a list of work still to do,
which is taken from the front.
-/

namespace Culsans.Library

namespace Machine
variable {σ ι : Type*} (M : Machine σ ι)

/-- The states along a stream of inputs. -/
def states (s : σ) (u : ℕ → ι) : ℕ → σ
  | 0 => s
  | n + 1 => M.next (states s u n) (u n)

@[simp] theorem states_zero (s : σ) (u : ℕ → ι) : M.states s u 0 = s := rfl

@[simp] theorem states_succ (s : σ) (u : ℕ → ι) (n : ℕ) :
    M.states s u (n + 1) = M.next (M.states s u n) (u n) := rfl

end Machine

/-- A measure that never grows does not keep dropping. -/
theorem not_forever_dropping {μ : ℕ → ℕ} (hle : ∀ n, μ (n + 1) ≤ μ n)
    (hlt : ∀ n, ∃ m, n ≤ m ∧ μ (m + 1) < μ m) : False := by
  obtain ⟨n, hn⟩ := WellFoundedLT.antitone_chain_condition (antitone_nat_of_succ_le hle)
  obtain ⟨m, hm, hd⟩ := hlt n
  have h1 := hn m hm
  have h2 := hn (m + 1) (by omega)
  exact absurd (h1.symm.trans h2) (Nat.ne_of_gt hd)

/-- What stays until an event is still there when the event comes. -/
theorem exists_event {Q P : ℕ → Prop} {t : ℕ} (hq : Q t) (hex : ∃ u, t ≤ u ∧ P u)
    (hstep : ∀ s, Q s → ¬ P s → Q (s + 1)) : ∃ u, t ≤ u ∧ Q u ∧ P u := by
  by_contra hno
  push Not at hno
  have hall : ∀ s, t ≤ s → Q s := by
    intro s hs
    induction s, hs using Nat.le_induction with
    | base => exact hq
    | succ s hs ih => exact hstep s ih (hno s hs ih)
  obtain ⟨u, hu, hp⟩ := hex
  exact hno u hu (hall u hu) hp

/-- The first element with a property, when the list is ordered and nothing before it has it. -/
theorem filter_eq_cons_of_first {α : Type*} {r : α → α → Prop} [Std.Irrefl r] {p p' : α → Bool} {x : α}
    {l : List α} (hl : l.Pairwise r) (hx : x ∈ l) (hp : p x = true) (hb : ∀ y, r y x → p y = false)
    (hp' : p' x = false) (ho : ∀ y, y ≠ x → p' y = p y) : l.filter p = x :: l.filter p' := by
  induction l with
  | nil => simp at hx
  | cons y l ih =>
    rw [List.pairwise_cons] at hl
    by_cases hy : y = x
    · subst hy
      have hrest : l.filter p' = l.filter p := by
        apply List.filter_congr
        intro z hz
        exact ho z fun he => Std.Irrefl.irrefl y (he ▸ hl.1 z hz)
      simp [hp, hp', hrest]
    · have hxl : x ∈ l := by simpa [Ne.symm hy] using hx
      have hyp : p y = false := hb y (hl.1 x hxl)
      simp [hyp, ho y hy, ih hl.2 hxl]

/-- The goal is reached: before it, a measure never grows and keeps dropping. -/
theorem exists_first_of_measure {g : ℕ → Prop} {μ : ℕ → ℕ}
    (hle : (∀ n, ¬ g n) → ∀ n, μ (n + 1) ≤ μ n)
    (hlt : (∀ n, ¬ g n) → ∀ n, ∃ m, n ≤ m ∧ μ (m + 1) < μ m) :
    ∃ n, g n ∧ ∀ m < n, ¬ g m := by
  classical
  have hex : ∃ n, g n := by
    by_contra hne
    have hall : ∀ n, ¬ g n := fun n hn => hne ⟨n, hn⟩
    exact not_forever_dropping (hle hall) (hlt hall)
  exact ⟨Nat.find hex, Nat.find_spec hex, fun m hm => Nat.find_min hex hm⟩

/-- The steps at which a measure drops are no more than its value at the start. -/
theorem card_dropping_le {μ : ℕ → ℕ} {P : ℕ → Prop} [DecidablePred P] {n : ℕ}
    (h : ∀ m < n, μ (m + 1) < μ m ∨ (P m ∧ μ (m + 1) = μ m)) :
    ((Finset.range n).filter fun m => ¬ P m).card + μ n ≤ μ 0 := by
  induction n with
  | zero => simp
  | succ n ih =>
    have hi := ih fun m hm => h m (by omega)
    rw [Finset.range_add_one, Finset.filter_insert]
    rcases h n (by omega) with hd | ⟨hp, he⟩
    · split_ifs
      · omega
      · apply (Nat.add_le_add_right (Finset.card_insert_le _ _) _).trans
        omega
    · rw [if_neg (not_not.mpr hp)]
      omega

end Culsans.Library
