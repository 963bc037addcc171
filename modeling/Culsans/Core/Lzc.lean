import Mathlib.Data.Nat.Log
import Mathlib.Tactic.Ring

/-! # The leading zero counter (`lzc`)

The vector is reversed and searched for its first one by a tree of nodes, each of
which tells whether there is a one below it and where the first one is.
-/

namespace Culsans.Core

/-- The first place in `[a, b)` at which `f` holds, if there is one. -/
structure First (f : ℕ → Bool) (a b : ℕ) (x : Bool × ℕ) : Prop where
  none : x.1 = false → ∀ j, a ≤ j → j < b → f j = false
  some : x.1 = true → a ≤ x.2 ∧ x.2 < b ∧ f x.2 = true ∧ ∀ j, a ≤ j → j < x.2 → f j = false

/-- A node of the tree, from `sel_nodes` and `index_nodes` of the two nodes below it. -/
def lzcMerge (l r : Bool × ℕ) : Bool × ℕ := (l.1 || r.1, if l.1 then l.2 else r.2)

namespace Lzc
variable {w : ℕ}

/-- `in_tmp` with MODE set -/
def inTmp (x : BitVec w) (i : ℕ) : Bool := x.getLsbD (w - 1 - i)

/-- The node `l` at height `h` above the last level. -/
def node (x : BitVec w) : ℕ → ℕ → Bool × ℕ
  | 0, l =>
    if 2 * l < w - 1 then (inTmp x (2 * l) || inTmp x (2 * l + 1), if inTmp x (2 * l) then 2 * l else 2 * l + 1)
    else if 2 * l = w - 1 then (inTmp x (2 * l), 2 * l)
    else (false, 0)
  | h + 1, l => lzcMerge (node x h (2 * l)) (node x h (2 * l + 1))

def root (x : BitVec w) : Bool × ℕ := node x (Nat.clog 2 w - 1) 0

def cnt (x : BitVec w) : ℕ := (root x).2

def empty (x : BitVec w) : Bool := !(root x).1

/-- `cnt_o` with MODE clear: the vector is not reversed. -/
def trailing (x : BitVec w) : ℕ := cnt x.reverse

end Lzc

theorem First.merge {f : ℕ → Bool} {a m b : ℕ} {l r : Bool × ℕ} (ham : a ≤ m) (hmb : m ≤ b)
    (hl : First f a m l) (hr : First f m b r) : First f a b (lzcMerge l r) := by
  cases hsel : l.1 with
  | true =>
    obtain ⟨h1, h2, h3, h4⟩ := hl.some hsel
    refine ⟨fun hn => by simp [lzcMerge, hsel] at hn, fun _ => ?_⟩
    simp only [lzcMerge, hsel, if_true]
    exact ⟨h1, by omega, h3, h4⟩
  | false =>
    have hleft := hl.none hsel
    refine ⟨fun hn j hj hb => ?_, fun hs => ?_⟩
    · rcases Nat.lt_or_ge j m with h | h
      · exact hleft j hj h
      · exact hr.none (by simpa [lzcMerge, hsel] using hn) j h hb
    · obtain ⟨h1, h2, h3, h4⟩ := hr.some (by simpa [lzcMerge, hsel] using hs)
      simp only [lzcMerge, hsel, Bool.false_eq_true, if_false]
      refine ⟨by omega, h2, h3, fun j hj hlt => ?_⟩
      rcases Nat.lt_or_ge j m with h | h
      · exact hleft j hj h
      · exact h4 j h hlt

namespace Lzc
variable {w : ℕ}

/-- The reversed vector, without ones outside it. -/
def bit (x : BitVec w) (i : ℕ) : Bool := decide (i < w) && inTmp x i

theorem first_bit {x : BitVec w} {j : ℕ} (hj : j < w) : First (bit x) j (j + 1) (inTmp x j, j) := by
  have hb : bit x j = inTmp x j := by simp [bit, hj]
  refine ⟨fun hn i h1 h2 => ?_, fun hs => ⟨le_rfl, Nat.lt_succ_self j, hb.trans hs, fun i h1 h2 =>
    absurd h2 (by dsimp only; omega)⟩⟩
  rw [show i = j by omega, hb]
  exact hn

/-- There is no one outside the vector. -/
theorem first_outside {x : BitVec w} {a b : ℕ} (ha : w ≤ a) : First (bit x) a b (false, 0) :=
  ⟨fun _ j h1 _ => by simp [bit, show ¬ j < w by omega], fun hs => by simp at hs⟩

theorem node_first (hw : 2 ≤ w) (x : BitVec w) (h l : ℕ) :
    First (bit x) (l * 2 ^ (h + 1)) ((l + 1) * 2 ^ (h + 1)) (node x h l) := by
  induction h generalizing l with
  | zero =>
    rw [show l * 2 ^ (0 + 1) = 2 * l by ring, show (l + 1) * 2 ^ (0 + 1) = 2 * l + 1 + 1 by ring, node]
    by_cases h1 : 2 * l < w - 1
    · rw [if_pos h1]
      exact (first_bit (by omega)).merge (Nat.le_succ _) (Nat.le_succ _) (first_bit (by omega))
    · rw [if_neg h1]
      by_cases h2 : 2 * l = w - 1
      · rw [if_pos h2]
        have hm := (first_bit (x := x) (j := 2 * l) (by omega)).merge
          (b := 2 * l + 1 + 1) (Nat.le_succ _) (Nat.le_succ _) (first_outside (by omega))
        cases hi : inTmp x (2 * l) with
        | true => simpa [lzcMerge, hi] using hm
        | false => exact ⟨(by simpa [lzcMerge, hi] using hm.none), fun hs => by simp at hs⟩
      · rw [if_neg h2]
        exact first_outside (by omega)
  | succ h ih =>
    have hl := ih (2 * l)
    have hr := ih (2 * l + 1)
    have hp : 2 ^ (h + 1 + 1) = 2 * 2 ^ (h + 1) := Nat.pow_succ'
    have e1 : l * 2 ^ (h + 1 + 1) = 2 * l * 2 ^ (h + 1) := by rw [hp]; ring
    have e2 : (l + 1) * 2 ^ (h + 1 + 1) = (2 * l + 1 + 1) * 2 ^ (h + 1) := by rw [hp]; ring
    rw [e1, e2, node]
    exact hl.merge (Nat.mul_le_mul_right _ (by omega)) (Nat.mul_le_mul_right _ (by omega)) hr

/-- The tree searches the whole vector. -/
theorem root_first (hw : 2 ≤ w) (x : BitVec w) : ∃ n, w ≤ n ∧ First (bit x) 0 n (root x) := by
  have hlog : 0 < Nat.clog 2 w := Nat.clog_pos (by omega) (by omega)
  have hf := node_first hw x (Nat.clog 2 w - 1) 0
  rw [Nat.zero_mul, Nat.zero_add, Nat.one_mul, Nat.sub_add_cancel hlog] at hf
  exact ⟨_, Nat.le_pow_clog (by omega) w, hf⟩

/-- The trailing counter finds the lowest one. -/
theorem trailing_spec (hw : 2 ≤ w) {x : BitVec w} {i : ℕ} (hi : x.getLsbD i = true) :
    x.getLsbD (trailing x) = true ∧ ∀ j < trailing x, x.getLsbD j = false := by
  have hbit {j : ℕ} (hj : j < w) : bit x.reverse j = x.getLsbD j := by
    simp [bit, inTmp, BitVec.getLsbD_reverse, BitVec.getMsbD, hj, show w - 1 - (w - 1 - j) = j by omega]
    omega
  have hiw : i < w := BitVec.lt_of_getLsbD hi
  obtain ⟨n, hn, hf⟩ := root_first hw x.reverse
  have hsel : (root x.reverse).1 = true := by
    by_contra hno
    have hzero := hf.none (by simpa using hno) i (Nat.zero_le i) (by omega)
    rw [hbit hiw, hi] at hzero
    exact Bool.false_ne_true hzero.symm
  obtain ⟨-, -, hone, hbefore⟩ := hf.some hsel
  have hlt : trailing x < w := by
    have hb : bit x.reverse (trailing x) = true := hone
    simp only [bit, Bool.and_eq_true, decide_eq_true_eq] at hb
    exact hb.1
  refine ⟨(hbit hlt).symm.trans hone, fun j hj => ?_⟩
  rw [← hbit (hj.trans hlt)]
  exact hbefore j (Nat.zero_le j) hj

/-- The counter of a vector with a one tells its length in binary. -/
theorem cnt_spec (hw : 2 ≤ w) (x : BitVec w) :
    (empty x = true → x.toNat = 0) ∧
      (empty x = false → cnt x < w ∧ 2 ^ (w - 1 - cnt x) ≤ x.toNat ∧ x.toNat < 2 ^ (w - cnt x)) := by
  obtain ⟨n, hlen, hf⟩ := root_first hw x
  refine ⟨fun he => ?_, fun he => ?_⟩
  · have hn := hf.none (by simpa [empty, root] using he)
    have hz : x.toNat < 2 ^ 0 := by
      refine Nat.lt_pow_two_of_testBit _ fun j _ => ?_
      rcases Nat.lt_or_ge j w with hj | hj
      · have hb := hn (w - 1 - j) (Nat.zero_le _) (by omega)
        simpa [bit, inTmp, BitVec.getLsbD, show w - 1 - j < w by omega, show w - 1 - (w - 1 - j) = j by omega] using hb
      · exact Nat.testBit_lt_two_pow (x.isLt.trans_le (Nat.pow_le_pow_right (by omega) hj))
    omega
  · obtain ⟨-, -, hbit, hbefore⟩ := hf.some (by simpa [empty, root] using he)
    change bit x (cnt x) = true at hbit
    change ∀ j, 0 ≤ j → j < cnt x → bit x j = false at hbefore
    simp only [bit, inTmp, Bool.and_eq_true, decide_eq_true_eq] at hbit
    refine ⟨hbit.1, Nat.ge_two_pow_of_testBit hbit.2, ?_⟩
    refine Nat.lt_pow_two_of_testBit _ fun j hj => ?_
    rcases Nat.lt_or_ge j w with hjw | hjw
    · have hb := hbefore (w - 1 - j) (Nat.zero_le _) (by omega)
      simpa [bit, inTmp, BitVec.getLsbD, show w - 1 - j < w by omega, show w - 1 - (w - 1 - j) = j by omega] using hb
    · exact Nat.testBit_lt_two_pow (x.isLt.trans_le (Nat.pow_le_pow_right (by omega) hjw))

theorem empty_zero (hw : 2 ≤ w) : empty (0 : BitVec w) = true := by
  by_contra he
  have hlo := ((cnt_spec hw (0 : BitVec w)).2 (Bool.eq_false_of_not_eq_true he)).2.1
  have hp := Nat.two_pow_pos (w - 1 - cnt (0 : BitVec w))
  simp at hlo

end Lzc
end Culsans.Core
