import Mathlib.Order.Nat

/-! # Walks through a tree of tables

An entry of a table is a fault, a leaf or the base of the table one level below.
A leaf found at level `m` is shared by all addresses that agree on the indices at
and above `m`, which is what lets a cache hold one copy for a whole superpage.
-/

namespace Culsans.Library

inductive TableEntry (β γ : Type*)
  | fault
  | leaf (l : γ)
  | table (b : β)

variable {β γ ι : Type*} (entry : β → ι → TableEntry β γ)

/-- The level and the leaf found from the table `b` of level `n` down. -/
def pageWalk (index : ℕ → ι) : ℕ → β → Option (ℕ × γ)
  | 0, b =>
    match entry b (index 0) with
    | .leaf l => some (0, l)
    | _ => none
  | n + 1, b =>
    match entry b (index (n + 1)) with
    | .leaf l => some (n + 1, l)
    | .table b' => pageWalk index n b'
    | .fault => none

variable {entry} {index index' : ℕ → ι} {n m : ℕ} {b b' : β} {l : γ}

theorem pageWalk_fault (h : entry b (index n) = .fault) : pageWalk entry index n b = none := by
  cases n <;> simp [pageWalk, h]

theorem pageWalk_leaf (h : entry b (index n) = .leaf l) : pageWalk entry index n b = some (n, l) := by
  cases n <;> simp [pageWalk, h]

theorem pageWalk_table (h : entry b (index (n + 1)) = .table b') :
    pageWalk entry index (n + 1) b = pageWalk entry index n b' := by
  simp [pageWalk, h]

theorem pageWalk_table_zero (h : entry b (index 0) = .table b') : pageWalk entry index 0 b = none := by
  simp [pageWalk, h]

theorem pageWalk_level_le (h : pageWalk entry index n b = some (m, l)) : m ≤ n := by
  induction n generalizing b with
  | zero =>
    simp only [pageWalk] at h
    split at h <;> simp_all
  | succ n ih =>
    simp only [pageWalk] at h
    split at h
    · simp_all
    · exact (ih h).trans n.le_succ
    · simp at h

/-- A leaf depends on the indices at and above its level only. -/
theorem pageWalk_congr (h : pageWalk entry index n b = some (m, l))
    (hi : ∀ j, m ≤ j → j ≤ n → index' j = index j) : pageWalk entry index' n b = some (m, l) := by
  have hm : m ≤ n := pageWalk_level_le h
  induction n generalizing b with
  | zero =>
    rw [← h]
    simp only [pageWalk, hi 0 hm le_rfl]
  | succ n ih =>
    simp only [pageWalk, hi (n + 1) hm le_rfl] at h ⊢
    split at h
    · exact h
    · exact ih h (fun j hj hn => hi j hj (hn.trans n.le_succ)) (pageWalk_level_le h)
    · simp at h

end Culsans.Library
