import Mathlib.Data.Fin.Tuple.Basic
import Mathlib.Tactic.SplitIfs

/-! # Bytes of a bit vector

A bit vector of `n` bytes and the function that gives its bytes, lane 0 lowest. A range
of lanes is a slice of the vector.
-/

namespace Culsans.Library

variable {n m : Nat}

/-- The number whose bytes are `f`. -/
def ofBytes : {n : Nat} → (Fin n → BitVec 8) → BitVec (8 * n)
  | 0, _ => 0
  | n + 1, f => (f (Fin.last n) ++ ofBytes (fun k => f k.castSucc)).cast (by omega)

/-- The bytes of a number. -/
def toBytes (v : BitVec (8 * n)) : Fin n → BitVec 8 := fun k => v.extractLsb' (8 * k.val) 8

theorem getLsbD_ofBytes (f : Fin n → BitVec 8) {i : Nat} (h : i < 8 * n) :
    (ofBytes f).getLsbD i = (f ⟨i / 8, by omega⟩).getLsbD (i % 8) := by
  induction n with
  | zero => omega
  | succ n ih =>
    rw [ofBytes, BitVec.getLsbD_cast, BitVec.getLsbD_append]
    split_ifs with hi
    · rw [ih _ hi]
      rfl
    · have hlast : i / 8 = n ∧ i - 8 * n = i % 8 := by omega
      rw [hlast.2]
      congr 2
      ext
      exact hlast.1.symm

theorem getLsbD_toBytes (v : BitVec (8 * n)) (k : Fin n) {i : Nat} (h : i < 8) :
    (toBytes v k).getLsbD i = v.getLsbD (8 * k.val + i) := by
  simp [toBytes, h]

@[simp] theorem ofBytes_toBytes (v : BitVec (8 * n)) : ofBytes (toBytes v) = v := by
  apply BitVec.eq_of_getLsbD_eq
  intro i hi
  rw [getLsbD_ofBytes _ hi, getLsbD_toBytes _ _ (Nat.mod_lt _ (by decide)), Nat.div_add_mod]

@[simp] theorem toBytes_ofBytes (f : Fin n → BitVec 8) : toBytes (ofBytes f) = f := by
  funext k
  apply BitVec.eq_of_getLsbD_eq
  intro i hi
  have hk := k.isLt
  rw [getLsbD_toBytes _ _ hi, getLsbD_ofBytes _ (by omega)]
  congr 2
  · ext
    simp only
    omega
  · omega

/-- A range of lanes is a slice. -/
theorem ofBytes_slice (f : Fin n → BitVec 8) (b : Nat) (h : b + m ≤ n) :
    ofBytes (fun j : Fin m => f ⟨b + j.val, by omega⟩) = (ofBytes f).extractLsb' (8 * b) (8 * m) := by
  apply BitVec.eq_of_getLsbD_eq
  intro i hi
  have hdiv : (8 * b + i) / 8 = b + i / 8 := by omega
  have hmod : (8 * b + i) % 8 = i % 8 := by omega
  rw [getLsbD_ofBytes _ hi, BitVec.getLsbD_extractLsb', getLsbD_ofBytes _ (by omega)]
  simp only [hi, decide_true, Bool.true_and, hdiv, hmod]

theorem ofBytes_not (f : Fin n → BitVec 8) : ofBytes (fun k => ~~~ f k) = ~~~ ofBytes f := by
  apply BitVec.eq_of_getLsbD_eq
  intro i hi
  have hlt : i % 8 < 8 := Nat.mod_lt _ (by decide)
  rw [getLsbD_ofBytes _ hi, BitVec.getLsbD_not, BitVec.getLsbD_not, getLsbD_ofBytes _ hi]
  simp [hi, hlt]

end Culsans.Library
