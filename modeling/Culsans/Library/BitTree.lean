import Mathlib.Data.Nat.Bitwise
import Mathlib.Logic.Function.Basic
import Mathlib.Tactic.SplitIfs

/-! # Complete binary trees of bits

The nodes lie in a vector level by level, root first. A tree of depth `k` has
`2 ^ k` leaves; the bits of the number of a leaf, most significant first, are the
turns on the way to it.
-/

namespace Culsans.Library.BitTree

/-- The place of node `p` of a level. -/
def node (lvl p : ℕ) : ℕ := 2 ^ lvl - 1 + p

/-- The node of a level on the way to leaf `i`. -/
def above (k i lvl : ℕ) : ℕ := i >>> (k - lvl)

/-- The turn taken there. -/
def turn (k i lvl : ℕ) : Bool := i.testBit (k - lvl - 1)

/-- Every node on the way to the leaf points to it. -/
def LeadsTo (t : ℕ → Bool) (k i : ℕ) : Prop := ∀ lvl < k, t (node lvl (above k i lvl)) = turn k i lvl

/-- Where the bits of the first levels lead. -/
def follow (t : ℕ → Bool) : ℕ → ℕ
  | 0 => 0
  | lvl + 1 => 2 * follow t lvl + (t (node lvl (follow t lvl))).toNat

/-- Turn the nodes of some levels on the way to a leaf away from it. -/
def avoid (k i : ℕ) (t : ℕ → Bool) (levels : List ℕ) : ℕ → Bool :=
  levels.foldl (fun t lvl => Function.update t (node lvl (above k i lvl)) (!turn k i lvl)) t

variable {t : ℕ → Bool} {k i j lvl p q a b : ℕ}

/-! ### The layout -/

theorem node_lt (h : p < 2 ^ lvl) : node lvl p < 2 ^ (lvl + 1) - 1 := by
  rw [node, Nat.pow_succ']
  omega

/-- A node has one level and one place in it. -/
theorem node_inj (hp : p < 2 ^ a) (hq : q < 2 ^ b) (h : node a p = node b q) : a = b ∧ p = q := by
  have hlevel {a b p q : ℕ} (hp : p < 2 ^ a) (hq : q < 2 ^ b) (h : node a p = node b q) : a ≤ b := by
    by_contra hlt
    have hpow : 2 ^ (b + 1) ≤ 2 ^ a := Nat.pow_le_pow_right (by decide) (by omega)
    have hnode := node_lt hq
    rw [← h, node] at hnode
    omega
  obtain rfl : a = b := le_antisymm (hlevel hp hq h) (hlevel hq hp h.symm)
  exact ⟨rfl, Nat.add_left_cancel h⟩

theorem above_lt (hi : i < 2 ^ k) (hl : lvl ≤ k) : above k i lvl < 2 ^ lvl := by
  rw [above, Nat.shiftRight_eq_div_pow, Nat.div_lt_iff_lt_mul (Nat.two_pow_pos _), ← Nat.pow_add]
  rwa [Nat.add_sub_cancel' hl]

@[simp] theorem above_self : above k i k = i := by simp [above]

@[simp] theorem above_zero (hi : i < 2 ^ k) : above k i 0 = 0 := Nat.lt_one_iff.mp (above_lt hi (Nat.zero_le k))

/-- One level further down. -/
theorem above_succ (hl : lvl < k) : above k i (lvl + 1) = 2 * above k i lvl + (turn k i lvl).toNat := by
  have hk : k - lvl = k - (lvl + 1) + 1 := by omega
  rw [above, above, turn, hk, Nat.shiftRight_succ, Nat.add_sub_cancel, Nat.toNat_testBit, Nat.shiftRight_eq_div_pow]
  exact (Nat.div_add_mod _ 2).symm

/-! ### The selected leaf -/

theorem follow_lt : follow t k < 2 ^ k := by
  induction k with
  | zero => simp [follow]
  | succ k ih =>
    rw [follow, Nat.pow_succ']
    have := Bool.toNat_le (t (node k (follow t k)))
    omega

/-- The bits lead to no other leaf. -/
theorem LeadsTo.above_eq (hi : i < 2 ^ k) (h : LeadsTo t k i) (hl : lvl ≤ k) : above k i lvl = follow t lvl := by
  induction lvl with
  | zero => exact above_zero hi
  | succ lvl ih =>
    have hprev := ih (Nat.le_of_succ_le hl)
    rw [above_succ hl, ← h lvl hl, hprev, follow]

theorem LeadsTo.eq_follow (hi : i < 2 ^ k) (h : LeadsTo t k i) : i = follow t k :=
  above_self.symm.trans (h.above_eq hi le_rfl)

theorem above_follow (hl : lvl ≤ k) : above k (follow t k) lvl = follow t lvl := by
  induction k with
  | zero => simp [Nat.le_zero.mp hl]
  | succ k ih =>
    rcases Nat.lt_or_eq_of_le hl with hlt | rfl
    · have hbit := Bool.toNat_le (t (node k (follow t k)))
      rw [← ih (Nat.le_of_lt_succ hlt), above, above, show k + 1 - lvl = 1 + (k - lvl) by omega, Nat.shiftRight_add,
        follow, Nat.shiftRight_one]
      congr 1
      omega
    · exact above_self

/-- The leaf that the bits lead to. -/
theorem leadsTo_follow : LeadsTo t k (follow t k) := by
  intro lvl hl
  have hup := above_follow (t := t) hl.le
  have hdown := above_follow (t := t) (Nat.succ_le_of_lt hl)
  rw [above_succ hl, hup, follow] at hdown
  rw [hup]
  have hturn := Nat.add_left_cancel hdown
  cases hb : turn k (follow t k) lvl <;> cases ht : t (node lvl (follow t lvl)) <;> simp_all

/-! ### Turning away -/

/-- A node of the way that has been turned points away from the leaf; all other nodes are as before. -/
theorem avoid_node (hi : i < 2 ^ k) (hp : p < 2 ^ lvl) {levels : List ℕ} (hle : ∀ l ∈ levels, l ≤ k) :
    avoid k i t levels (node lvl p) =
      if lvl ∈ levels ∧ p = above k i lvl then !turn k i lvl else t (node lvl p) := by
  induction levels generalizing t with
  | nil => simp [avoid]
  | cons l levels ih =>
    have hrest := ih (t := Function.update t (node l (above k i l)) (!turn k i l))
      fun m hm => hle m (List.mem_cons_of_mem l hm)
    rw [avoid, List.foldl_cons]
    refine hrest.trans ?_
    by_cases hin : lvl ∈ levels ∧ p = above k i lvl
    · rw [if_pos hin, if_pos ⟨List.mem_cons_of_mem l hin.1, hin.2⟩]
    · rw [if_neg hin]
      by_cases hnode : node lvl p = node l (above k i l)
      · obtain ⟨rfl, rfl⟩ := node_inj hp (above_lt hi (hle l List.mem_cons_self)) hnode
        rw [Function.update_self, if_pos ⟨List.mem_cons_self, rfl⟩]
      · have hne : ¬ (lvl ∈ l :: levels ∧ p = above k i lvl) := by
          rintro ⟨hmem, rfl⟩
          rcases List.mem_cons.mp hmem with rfl | hmem
          · exact hnode rfl
          · exact hin ⟨hmem, rfl⟩
        rw [Function.update_of_ne hnode, if_neg hne]

/-- A place that is no node of the way. -/
theorem avoid_other {levels : List ℕ} {m : ℕ} (h : ∀ l ∈ levels, m ≠ node l (above k i l)) :
    avoid k i t levels m = t m := by
  induction levels generalizing t with
  | nil => rfl
  | cons l levels ih =>
    rw [avoid, List.foldl_cons]
    refine (ih fun l' hl' => h l' (List.mem_cons_of_mem l hl')).trans ?_
    exact Function.update_of_ne (h l List.mem_cons_self) _ _

end Culsans.Library.BitTree
