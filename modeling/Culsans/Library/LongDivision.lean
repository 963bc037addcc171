import Mathlib.Algebra.Order.Ring.Nat
import Mathlib.Tactic.Ring

/-! # Long division in base two

The bits of the quotient are found from the top: a bit is set when the shifted
divisor fits in what is left of the dividend.
-/

namespace Culsans.Library

/-- The quotient bits from `s` up are found: they are `q`, and `r` is left. -/
structure LongDivision (a b s q r : ℕ) : Prop where
  eq : a = q * 2 ^ s * b + r
  lt : r < b * 2 ^ s

namespace LongDivision
variable {a b s q r : ℕ}

/-- Nothing is found yet, and the quotient fits in the bits below `s`. -/
theorem start (h : a < b * 2 ^ s) : LongDivision a b s 0 a := ⟨by simp, h⟩

theorem set (h : LongDivision a b (s + 1) q r) (hle : b * 2 ^ s ≤ r) :
    LongDivision a b s (2 * q + 1) (r - b * 2 ^ s) where
  eq := by
    obtain ⟨d, rfl⟩ := Nat.exists_eq_add_of_le hle
    rw [h.eq, Nat.add_sub_cancel_left]
    ring
  lt := by
    have hlt := h.lt
    rw [pow_succ, ← mul_assoc] at hlt
    omega

theorem skip (h : LongDivision a b (s + 1) q r) (hlt : r < b * 2 ^ s) : LongDivision a b s (2 * q) r where
  eq := by
    rw [h.eq]
    ring
  lt := hlt

/-- When all bits are found, what is left is the remainder. -/
theorem done (h : LongDivision a b 0 q r) : q = a / b ∧ r = a % b := by
  have heq := h.eq
  have hlt := h.lt
  rw [pow_zero, mul_one] at heq hlt
  have hb : 0 < b := by omega
  subst heq
  rw [mul_comm q b, Nat.mul_add_div hb, Nat.mul_add_mod, Nat.div_eq_of_lt hlt, Nat.mod_eq_of_lt hlt]
  exact ⟨rfl, rfl⟩

end LongDivision
end Culsans.Library
