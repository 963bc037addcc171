import Mathlib.Algebra.Order.Ring.Nat

/-! # The sizes of the index types

A numeral of `Fin n` rests on the fact that `n` is not zero. For the sizes of the design
(ports, ways, byte lanes, beats of a burst) each module takes that fact from here.
-/

namespace Culsans

instance (priority := 1100) neZero_succ (n : ℕ) : NeZero (n + 1) := ⟨Nat.succ_ne_zero n⟩

instance (priority := 1200) neZero_zero_succ : NeZero (0 + 1) := ⟨Nat.succ_ne_zero 0⟩

instance (priority := 1200) neZero_two : NeZero 2 := ⟨Nat.succ_ne_zero 1⟩

instance (priority := 1200) neZero_three : NeZero 3 := ⟨Nat.succ_ne_zero 2⟩

instance (priority := 1200) neZero_four : NeZero 4 := ⟨Nat.succ_ne_zero 3⟩

instance (priority := 1200) neZero_five : NeZero 5 := ⟨Nat.succ_ne_zero 4⟩

instance (priority := 1200) neZero_eight : NeZero 8 := ⟨Nat.succ_ne_zero 7⟩

instance (priority := 1200) neZero_sixteen : NeZero 16 := ⟨Nat.succ_ne_zero 15⟩

end Culsans
