import Mathlib.Data.Nat.Log
import Mathlib.Tactic.Ring

/-! # The arbiter tree (`rr_arb_tree`) with `rr_i` tied to zero

A tree of nodes, each of which passes on the request of its left half if there is one. The
inputs are `NumIn` request bits with data; inputs beyond them are filled up with zeros.
-/

namespace Culsans.Core

/-- The first request in `[a, b)`, if there is one, and its data. -/
structure Picks {α : Type*} (req : ℕ → Bool) (data : ℕ → α) (a b : ℕ) (x : Bool × α) : Prop where
  none : x.1 = false → ∀ j, a ≤ j → j < b → req j = false
  some : x.1 = true → ∃ j, a ≤ j ∧ j < b ∧ req j = true ∧ x.2 = data j ∧ ∀ i, a ≤ i → i < j → req i = false

/-- `sel` is set without a request on the left, since no bit of `rr_q` is. -/
def arbMerge {α : Type*} (l r : Bool × α) : Bool × α := (l.1 || r.1, if !l.1 then r.2 else l.2)

namespace RrArbTree
variable {α : Type*} (numIn : ℕ) (req : ℕ → Bool) (data : ℕ → α) (zero : α)

/-- The node `l` at height `h` above the first level. -/
def node : ℕ → ℕ → Bool × α
  | 0, l =>
    if 2 * l < numIn - 1 then arbMerge (req (2 * l), data (2 * l)) (req (2 * l + 1), data (2 * l + 1))
    else if 2 * l = numIn - 1 then (req (2 * l), data (2 * l))
    else (false, zero)
  | h + 1, l => arbMerge (node h (2 * l)) (node h (2 * l + 1))

/-- `req_o` and `data_o` -/
def root : Bool × α := node numIn req data zero (Nat.clog 2 numIn - 1) 0

end RrArbTree

section Picks
variable {α : Type*} {req : ℕ → Bool} {data : ℕ → α} {a m b : ℕ} {l r : Bool × α}

theorem Picks.merge (ham : a ≤ m) (hmb : m ≤ b) (hl : Picks req data a m l) (hr : Picks req data m b r) :
    Picks req data a b (arbMerge l r) := by
  cases hsel : l.1 with
  | true =>
    obtain ⟨j, ha, hb, hj, hd, hbefore⟩ := hl.some hsel
    refine ⟨fun hn => by simp [arbMerge, hsel] at hn, fun _ => ⟨j, ha, hb.trans_le hmb, hj, ?_, hbefore⟩⟩
    rw [← hd]
    simp [arbMerge, hsel]
  | false =>
    have hleft := hl.none hsel
    refine ⟨fun hn j hj hb => ?_, fun hs => ?_⟩
    · rcases Nat.lt_or_ge j m with h | h
      · exact hleft j hj h
      · exact hr.none (by simpa [arbMerge, hsel] using hn) j h hb
    · obtain ⟨j, ha, hb, hj, hd, hbefore⟩ := hr.some (by simpa [arbMerge, hsel] using hs)
      refine ⟨j, ham.trans ha, hb, hj, ?_, fun i hi hlt => ?_⟩
      · rw [← hd]
        simp [arbMerge, hsel]
      · rcases Nat.lt_or_ge i m with h | h
        · exact hleft i hi h
        · exact hbefore i h hlt

theorem Picks.leaf (j : ℕ) : Picks req data j (j + 1) (req j, data j) := by
  refine ⟨fun hn i h1 h2 => ?_, fun hs => ⟨j, le_rfl, Nat.lt_succ_self j, hs, rfl, fun i h1 h2 => by omega⟩⟩
  obtain rfl : i = j := by omega
  exact hn

end Picks

namespace RrArbTree
variable {α : Type*} {numIn : ℕ} {req : ℕ → Bool} {data : ℕ → α} {zero : α}

/-- The requests, without any outside the inputs. -/
def within (numIn : ℕ) (req : ℕ → Bool) (j : ℕ) : Bool := decide (j < numIn) && req j

theorem within_of_lt {j : ℕ} (h : j < numIn) : within numIn req j = req j := by simp [within, h]

theorem picks_outside {x : α} {a b : ℕ} (ha : numIn ≤ a) : Picks (within numIn req) data a b (false, x) :=
  ⟨fun _ j h1 _ => by simp [within, show ¬ j < numIn by omega], fun hs => by simp at hs⟩

theorem picks_inside {j : ℕ} (h : j < numIn) : Picks (within numIn req) data j (j + 1) (req j, data j) := by
  have hp : Picks (within numIn req) data j (j + 1) (within numIn req j, data j) := Picks.leaf j
  rwa [within_of_lt h] at hp

theorem node_picks (hn : 2 ≤ numIn) (h l : ℕ) :
    Picks (within numIn req) data (l * 2 ^ (h + 1)) ((l + 1) * 2 ^ (h + 1)) (node numIn req data zero h l) := by
  induction h generalizing l with
  | zero =>
    rw [show l * 2 ^ (0 + 1) = 2 * l by ring, show (l + 1) * 2 ^ (0 + 1) = 2 * l + 1 + 1 by ring, node]
    by_cases h1 : 2 * l < numIn - 1
    · rw [if_pos h1]
      exact (picks_inside (by omega)).merge (Nat.le_succ _) (Nat.le_succ _) (picks_inside (by omega))
    · rw [if_neg h1]
      by_cases h2 : 2 * l = numIn - 1
      · rw [if_pos h2]
        have hlast : Picks (within numIn req) data (2 * l) (2 * l + 1) (req (2 * l), data (2 * l)) :=
          picks_inside (by omega)
        have hout : Picks (within numIn req) data (2 * l + 1) (2 * l + 1 + 1) (false, data (2 * l)) :=
          picks_outside (by omega)
        have hm := hlast.merge (Nat.le_succ _) (Nat.le_succ _) hout
        have he : arbMerge (req (2 * l), data (2 * l)) (false, data (2 * l)) = (req (2 * l), data (2 * l)) := by
          simp [arbMerge]
        rwa [he] at hm
      · rw [if_neg h2]
        exact picks_outside (by omega)
  | succ h ih =>
    have hl := ih (2 * l)
    have hr := ih (2 * l + 1)
    have hp : 2 ^ (h + 1 + 1) = 2 * 2 ^ (h + 1) := Nat.pow_succ'
    have e1 : l * 2 ^ (h + 1 + 1) = 2 * l * 2 ^ (h + 1) := by rw [hp]; ring
    have e2 : (l + 1) * 2 ^ (h + 1 + 1) = (2 * l + 1 + 1) * 2 ^ (h + 1) := by rw [hp]; ring
    rw [e1, e2, node]
    exact hl.merge (Nat.mul_le_mul_right _ (by omega)) (Nat.mul_le_mul_right _ (by omega)) hr

/-- The tree passes on the lowest request. -/
theorem root_picks (hn : 2 ≤ numIn) : Picks req data 0 numIn (root numIn req data zero) := by
  have hlog : 0 < Nat.clog 2 numIn := Nat.clog_pos (by omega) (by omega)
  have hp : Picks (within numIn req) data _ _ (root numIn req data zero) := node_picks hn (Nat.clog 2 numIn - 1) 0
  rw [Nat.zero_mul, Nat.zero_add, Nat.one_mul, Nat.sub_add_cancel hlog] at hp
  have hle : numIn ≤ 2 ^ Nat.clog 2 numIn := Nat.le_pow_clog (by omega) numIn
  refine ⟨fun h j h1 h2 => ?_, fun h => ?_⟩
  · have hj := hp.none h j h1 (h2.trans_le hle)
    rwa [within_of_lt h2] at hj
  · obtain ⟨j, h1, -, hj, hd, hbefore⟩ := hp.some h
    simp only [within, Bool.and_eq_true, decide_eq_true_eq] at hj
    refine ⟨j, h1, hj.1, hj.2, hd, fun i hi hlt => ?_⟩
    have hno := hbefore i hi hlt
    rwa [within_of_lt (hlt.trans hj.1)] at hno

end RrArbTree
end Culsans.Core
