import Mathlib.Data.List.Basic
import Mathlib.Tactic.SplitIfs

/-! # One queue over several lanes

The elements of a queue are dealt in turn to `n` lanes, of which lane `0` holds the oldest element.
-/

namespace Culsans.Library.RoundRobin
variable {α : Type*} {n : ℕ}

/-- What lane `k` holds of a queue. -/
def lane (n : ℕ) : List α → ℕ → List α
  | [], _ => []
  | a :: l, 0 => a :: lane n l (n - 1)
  | _ :: l, k + 1 => lane n l k

@[simp] theorem lane_nil (k : ℕ) : lane n ([] : List α) k = [] := rfl

/-- The oldest element leaves lane `0`, which is then the last. -/
theorem lane_tail_last (l : List α) : lane n l.tail (n - 1) = (lane n l 0).tail := by
  cases l with
  | nil => rfl
  | cons a l => rfl

theorem lane_tail (l : List α) (k : ℕ) : lane n l.tail k = lane n l (k + 1) := by
  cases l with
  | nil => rfl
  | cons a l => rfl

theorem head?_lane_zero (l : List α) : (lane n l 0).head? = l.head? := by
  cases l with
  | nil => rfl
  | cons a l => rfl

/-- The next element goes to the lane that the length tells. -/
theorem lane_concat (l : List α) (a : α) {k : ℕ} (hk : k < n) :
    lane n (l ++ [a]) k = lane n l k ++ if l.length % n = k then [a] else [] := by
  induction l generalizing k with
  | nil =>
    cases k with
    | zero => simp [lane]
    | succ k => simp [lane]
  | cons b l ih =>
    have hlt := Nat.mod_lt l.length (show n > 0 by omega)
    have hmod : (l.length + 1) % n = if l.length % n = n - 1 then 0 else l.length % n + 1 := by
      rw [Nat.add_mod]
      split_ifs with h
      · by_cases hn : n = 1
        · rw [hn, Nat.mod_one]
        · rw [h, Nat.mod_eq_of_lt (show 1 < n by omega), Nat.sub_add_cancel (by omega), Nat.mod_self]
      · rw [Nat.mod_eq_of_lt (show 1 < n by omega), Nat.mod_eq_of_lt (by omega)]
    cases k with
    | zero =>
      have hiff : (l.length + 1) % n = 0 ↔ l.length % n = n - 1 := by
        by_cases h : l.length % n = n - 1
        · rw [hmod, if_pos h]
          omega
        · rw [hmod, if_neg h]
          omega
      rw [List.cons_append, lane, lane, ih (by omega), List.cons_append, List.length_cons]
      simp only [hiff]
    | succ k =>
      have hiff : (l.length + 1) % n = k + 1 ↔ l.length % n = k := by
        by_cases h : l.length % n = n - 1
        · rw [hmod, if_pos h]
          omega
        · rw [hmod, if_neg h]
          omega
      rw [List.cons_append, lane, lane, ih (by omega), List.length_cons]
      simp only [hiff]

theorem length_lane (l : List α) {k : ℕ} (hk : k < n) : (lane n l k).length = (l.length + (n - 1 - k)) / n := by
  induction l generalizing k with
  | nil => exact (Nat.div_eq_of_lt (by simp only [List.length_nil]; omega)).symm
  | cons a l ih =>
    cases k with
    | zero =>
      rw [lane, List.length_cons, ih (by omega), List.length_cons, Nat.sub_zero, Nat.sub_self,
        show l.length + 1 + (n - 1) = l.length + n by omega, Nat.add_div_right _ hk]
      rfl
    | succ k =>
      rw [lane, ih (by omega), List.length_cons]
      congr 1
      omega

/-- The lanes are filled evenly. -/
theorem length_lane_le (l : List α) {j k : ℕ} (hj : j < n) (hk : k < n) :
    (lane n l j).length ≤ (lane n l k).length + 1 := by
  rw [length_lane l hj, length_lane l hk, ← Nat.add_div_right _ (by omega)]
  exact Nat.div_le_div_right (by omega)

/-- No lane holds less than the one that is next. -/
theorem length_next_le (l : List α) {k : ℕ} (hk : k < n) : (lane n l (l.length % n)).length ≤ (lane n l k).length := by
  have hn : 0 < n := by omega
  rw [length_lane l (Nat.mod_lt _ hn), length_lane l hk]
  have hd := Nat.div_add_mod l.length n
  have hlt := Nat.mod_lt l.length hn
  calc (l.length + (n - 1 - l.length % n)) / n = (n - 1 + n * (l.length / n)) / n := by
        congr 1
        omega
    _ = l.length / n := by rw [Nat.add_mul_div_left _ _ hn, Nat.div_eq_of_lt (by omega), Nat.zero_add]
    _ ≤ (l.length + (n - 1 - k)) / n := Nat.div_le_div_right (by omega)

end Culsans.Library.RoundRobin
