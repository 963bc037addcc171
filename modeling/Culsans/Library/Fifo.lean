import Mathlib.Data.List.Basic
import Mathlib.Data.Nat.ModEq
import Mathlib.Logic.Function.Basic
import Mathlib.Tactic.SplitIfs

/-! # Synchronous ring queues

A queue of `depth` cells with a read pointer, a write pointer and a counter, pushed
and popped once a cycle. A push on a full queue and a pop on an empty one are ignored.
-/

namespace Culsans.Library

structure Ring (α : Type*) (depth : ℕ) where
  cells : ℕ → α
  rd : ℕ
  wr : ℕ
  cnt : ℕ

namespace Ring
variable {α : Type*} {depth : ℕ}

/-- The empty queue, whose cells hold anything. -/
def reset (x : α) : Ring α depth := ⟨fun _ => x, 0, 0, 0⟩

def full (q : Ring α depth) : Bool := q.cnt == depth

def empty (q : Ring α depth) : Bool := q.cnt == 0

/-- The cell the read pointer shows. -/
def head (q : Ring α depth) : α := q.cells q.rd

/-- The pointer after the last cell is the first one. -/
def wrap (depth p : ℕ) : ℕ := if p = depth - 1 then 0 else p + 1

def step (q : Ring α depth) (push pop : Bool) (x : α) : Ring α depth :=
  let pushed := push && !q.full
  let popped := pop && !q.empty
  { cells := if pushed then Function.update q.cells q.wr x else q.cells
    rd := if popped then wrap depth q.rd else q.rd
    wr := if pushed then wrap depth q.wr else q.wr
    cnt := q.cnt + pushed.toNat - popped.toNat }

/-- A flush leaves the cells as they are. -/
def flush (q : Ring α depth) : Ring α depth := ⟨q.cells, 0, 0, 0⟩

/-- The pointers are `cnt` cells apart. -/
structure Inv (q : Ring α depth) : Prop where
  rd : q.rd < depth
  cnt : q.cnt ≤ depth
  wr : q.wr = (q.rd + q.cnt) % depth

/-- The elements in the queue, oldest first. -/
def toList (q : Ring α depth) : List α := (List.range q.cnt).map fun k => q.cells ((q.rd + k) % depth)

variable {q : Ring α depth}

theorem inv_reset (h : 0 < depth) (x : α) : (reset x : Ring α depth).Inv := ⟨h, Nat.zero_le _, (Nat.zero_mod _).symm⟩

theorem inv_flush (h : 0 < depth) (q : Ring α depth) : q.flush.Inv := ⟨h, Nat.zero_le _, (Nat.zero_mod _).symm⟩

@[simp] theorem toList_flush (q : Ring α depth) : q.flush.toList = [] := rfl

@[simp] theorem toList_reset (x : α) : (reset x : Ring α depth).toList = [] := rfl

@[simp] theorem length_toList : q.toList.length = q.cnt := by simp [toList]

theorem toList_eq_nil : q.toList = [] ↔ q.empty = true := by
  rw [← List.length_eq_zero_iff, length_toList, empty, beq_iff_eq]

theorem wrap_eq {p : ℕ} (h : p < depth) : wrap depth p = (p + 1) % depth := by
  unfold wrap
  split_ifs with hp
  · rw [hp, Nat.sub_add_cancel (by omega), Nat.mod_self]
  · rw [Nat.mod_eq_of_lt (by omega)]

/-- The cells in use are different. -/
theorem mod_ne {r i n : ℕ} (hi : i < n) (hn : n < depth) : (r + i) % depth ≠ (r + n) % depth := by
  intro he
  have hmod : i % depth = n % depth := Nat.ModEq.add_left_cancel' r he
  rw [Nat.mod_eq_of_lt (hi.trans hn), Nat.mod_eq_of_lt hn] at hmod
  omega

/-- The oldest element is at the read pointer. -/
theorem head_toList (h : q.Inv) (hn : q.empty = false) : q.toList.head? = some q.head := by
  obtain ⟨n, hc⟩ : ∃ n, q.cnt = n + 1 := Nat.exists_eq_succ_of_ne_zero (by simpa [empty] using hn)
  rw [toList, hc, List.range_succ_eq_map, List.map_cons, List.head?_cons, Nat.add_zero, Nat.mod_eq_of_lt h.rd, head]

/-! ### One element out, one element in -/

def popped (q : Ring α depth) : Ring α depth := { q with rd := wrap depth q.rd, cnt := q.cnt - 1 }

def pushed (q : Ring α depth) (x : α) : Ring α depth :=
  { q with cells := Function.update q.cells q.wr x, wr := wrap depth q.wr, cnt := q.cnt + 1 }

theorem step_eq (q : Ring α depth) (push pop : Bool) (x : α) : q.step push pop x =
    let r := if pop && !q.empty then q.popped else q
    if push && !q.full then r.pushed x else r := by
  have hcnt : (pop && !q.empty) = true → q.cnt ≠ 0 := by simp [empty]
  simp only [step]
  cases hp : push && !q.full <;> cases ho : pop && !q.empty <;> simp [popped, pushed]
  have hne := hcnt ho
  omega

theorem inv_popped (h : q.Inv) (hn : q.cnt ≠ 0) : q.popped.Inv := by
  have hd : 0 < depth := by
    have := h.cnt
    omega
  refine ⟨?_, (Nat.sub_le _ _).trans h.cnt, ?_⟩
  · simp only [popped, wrap_eq h.rd]
    exact Nat.mod_lt _ hd
  · simp only [popped, wrap_eq h.rd, h.wr, Nat.mod_add_mod]
    congr 1
    omega

theorem toList_popped (h : q.Inv) : q.popped.toList = q.toList.tail := by
  cases hc : q.cnt with
  | zero => simp [toList, popped, hc]
  | succ n =>
    simp only [toList, popped, hc, Nat.add_sub_cancel, wrap_eq h.rd, List.range_succ_eq_map, List.map_cons,
      List.tail_cons, List.map_map]
    refine List.map_congr_left fun k _ => ?_
    simp only [Function.comp, Nat.mod_add_mod, Nat.succ_eq_add_one]
    congr 2
    omega

theorem inv_pushed (h : q.Inv) (hn : q.cnt < depth) (x : α) : (q.pushed x).Inv := by
  have hw : q.wr < depth := by
    rw [h.wr]
    exact Nat.mod_lt _ (by omega)
  refine ⟨h.rd, hn, ?_⟩
  simp only [pushed, wrap_eq hw]
  rw [h.wr, Nat.mod_add_mod, Nat.add_assoc]

theorem toList_pushed (h : q.Inv) (hn : q.cnt < depth) (x : α) : (q.pushed x).toList = q.toList ++ [x] := by
  simp only [toList, pushed, List.range_succ, List.map_append, List.map_cons, List.map_nil, h.wr,
    Function.update_self]
  congr 1
  refine List.map_congr_left fun k hk => ?_
  exact Function.update_of_ne (mod_ne (List.mem_range.mp hk) hn) _ _

/-- The ring is the bounded queue. -/
theorem step_spec (h : q.Inv) (push pop : Bool) (x : α) : (q.step push pop x).Inv ∧
    (q.step push pop x).toList =
      (if pop && !q.empty then q.toList.tail else q.toList) ++ if push && !q.full then [x] else [] := by
  rw [step_eq]
  have hpop : ∀ r, (if pop && !q.empty then q.popped else q) = r → r.Inv ∧ (r.cnt = depth → q.full = true) ∧
      r.toList = if pop && !q.empty then q.toList.tail else q.toList := by
    rintro r rfl
    split_ifs with ho
    · have hne : q.cnt ≠ 0 := by simp_all [empty]
      refine ⟨inv_popped h hne, fun hc => ?_, toList_popped h⟩
      have hle := h.cnt
      simp only [popped] at hc
      omega
    · exact ⟨h, fun hc => by simp [full, hc], rfl⟩
  obtain ⟨r, hr⟩ : ∃ r, (if pop && !q.empty then q.popped else q) = r := ⟨_, rfl⟩
  obtain ⟨hinv, hf, hl⟩ := hpop r hr
  simp only [hr, ← hl]
  split_ifs with hp
  · have hlt : r.cnt < depth := lt_of_le_of_ne hinv.cnt fun hc => by simp [hf hc] at hp
    exact ⟨inv_pushed hinv hlt x, toList_pushed hinv hlt x⟩
  · exact ⟨hinv, (List.append_nil _).symm⟩

end Ring
end Culsans.Library
