import Mathlib.Data.List.Nodup
import Mathlib.Data.List.Range
import Mathlib.Logic.Function.Basic
import Mathlib.Algebra.Group.Nat.Defs

/-! # Slots of a circular queue

A queue kept in `2 ^ w` slots under pointers of `w` bits. Its slots are the interval of a
given length from the oldest one on, modulo the number of slots. A valid bit in every slot
may repeat which slots these are.
-/

namespace Culsans.Library

variable {w : Nat} {p j : BitVec w} {n m : Nat}

/-- The `n` slots from `p` on. -/
def slots (p : BitVec w) (n : Nat) : List (BitVec w) := (List.range n).map fun k => p + BitVec.ofNat w k

@[simp] theorem slots_zero (p : BitVec w) : slots p 0 = [] := rfl

@[simp] theorem length_slots : (slots p n).length = n := by simp [slots]

theorem slots_succ (p : BitVec w) (n : Nat) : slots p (n + 1) = slots p n ++ [p + BitVec.ofNat w n] := by
  simp [slots, List.range_succ]

/-- The interval is cut in two. -/
theorem slots_add (p : BitVec w) (m n : Nat) : slots p (m + n) = slots p m ++ slots (p + BitVec.ofNat w m) n := by
  induction n with
  | zero => simp
  | succ n ih =>
    have hend : p + BitVec.ofNat w (m + n) = p + BitVec.ofNat w m + BitVec.ofNat w n := by
      rw [BitVec.ofNat_add, BitVec.add_assoc]
    rw [← Nat.add_assoc, slots_succ, ih, slots_succ, List.append_assoc, hend]

theorem slots_drop (h : m ≤ n) : slots p n = slots p m ++ slots (p + BitVec.ofNat w m) (n - m) := by
  rw [← slots_add, Nat.add_sub_cancel' h]

/-- A slot of the interval is less than its length away from the start. -/
theorem mem_slots : j ∈ slots p n ↔ (j - p).toNat < n := by
  simp only [slots, List.mem_map, List.mem_range]
  constructor
  · rintro ⟨k, hk, rfl⟩
    have hsub : p + BitVec.ofNat w k - p = BitVec.ofNat w k := by
      rw [BitVec.add_comm, BitVec.add_sub_cancel]
    rw [hsub, BitVec.toNat_ofNat]
    exact (Nat.mod_le _ _).trans_lt hk
  · intro hj
    refine ⟨(j - p).toNat, hj, ?_⟩
    rw [BitVec.ofNat_toNat, BitVec.setWidth_eq, BitVec.add_comm, BitVec.sub_add_cancel]

theorem nodup_slots (hn : n ≤ 2 ^ w) : (slots p n).Nodup := by
  refine List.Nodup.map_on ?_ List.nodup_range
  intro k hk l hl he
  rw [List.mem_range] at hk hl
  have heq := congrArg BitVec.toNat ((BitVec.add_right_inj p).mp he)
  rwa [BitVec.toNat_ofNat, BitVec.toNat_ofNat, Nat.mod_eq_of_lt (by omega), Nat.mod_eq_of_lt (by omega)] at heq

/-- The slot after the interval is free. -/
theorem end_not_mem (hn : n < 2 ^ w) : p + BitVec.ofNat w n ∉ slots p n := by
  intro hmem
  have hnd := nodup_slots (p := p) (n := n + 1) hn
  rw [slots_succ, List.nodup_append] at hnd
  exact hnd.2.2 _ hmem _ (List.mem_singleton_self _) rfl

/-- The slot after the pointer to the end. -/
theorem add_ofNat_succ (p : BitVec w) (n : Nat) : p + BitVec.ofNat w (n + 1) = p + BitVec.ofNat w n + 1 := by
  rw [BitVec.ofNat_add, BitVec.add_assoc]
  rfl

theorem slots_succ_left (p : BitVec w) (n : Nat) : slots p (n + 1) = p :: slots (p + 1) n := by
  rw [Nat.add_comm, slots_add]
  simp [slots]

/-! ### Queues with valid bits -/

variable {α β : Type*} {valid : α → Bool} {q : BitVec w → α} {rd wr : BitVec w}

/-- `n` slots from `rd` to `wr` are in use, and these are the valid ones. -/
structure InUse (valid : α → Bool) (q : BitVec w → α) (rd wr : BitVec w) (n : Nat) : Prop where
  le : n ≤ 2 ^ w
  wr : wr = rd + BitVec.ofNat w n
  valid : ∀ j, valid (q j) = true ↔ j ∈ slots rd n

/-- What is in the queue, oldest first. -/
def contents (val : α → β) (q : BitVec w → α) (rd : BitVec w) (n : Nat) : List β := (slots rd n).map fun j => val (q j)

@[simp] theorem length_contents (val : α → β) : (contents val q rd n).length = n := by simp [contents]

theorem InUse.clear (rd : BitVec w) {q : BitVec w → α} (h : ∀ j, valid (q j) = false) : InUse valid q rd rd 0 :=
  ⟨Nat.zero_le _, by simp, by simp [h]⟩

theorem InUse.push (h : InUse valid q rd wr n) (hn : n < 2 ^ w) {x : α} (hx : valid x = true) :
    InUse valid (Function.update q wr x) rd (wr + 1) (n + 1) where
  le := hn
  wr := by rw [h.wr, add_ofNat_succ]
  valid j := by
    rw [slots_succ, ← h.wr, List.mem_append, List.mem_singleton, ← h.valid]
    by_cases hj : j = wr
    · subst hj
      simp [hx]
    · rw [Function.update_of_ne hj]
      simp [hj]

theorem contents_push (h : InUse valid q rd wr n) (hn : n < 2 ^ w) (val : α → β) (x : α) :
    contents val (Function.update q wr x) rd (n + 1) = contents val q rd n ++ [val x] := by
  rw [contents, slots_succ, List.map_append, ← h.wr]
  congr 1
  · refine List.map_congr_left fun j hj => ?_
    have hne : j ≠ wr := by
      rintro rfl
      rw [h.wr] at hj
      exact end_not_mem hn hj
    rw [Function.update_of_ne hne]
  · simp

theorem InUse.pop (h : InUse valid q rd wr (n + 1)) {x : α} (hx : valid x = false) :
    InUse valid (Function.update q rd x) (rd + 1) wr n where
  le := (Nat.le_succ n).trans h.le
  wr := by rw [h.wr, add_ofNat_succ, BitVec.add_assoc, BitVec.add_comm (BitVec.ofNat w n), ← BitVec.add_assoc]
  valid j := by
    have hnd := nodup_slots (p := rd) h.le
    rw [slots_succ_left, List.nodup_cons] at hnd
    by_cases hj : j = rd
    · subst hj
      rw [Function.update_self, hx]
      exact iff_of_false Bool.false_ne_true hnd.1
    · rw [Function.update_of_ne hj, h.valid, slots_succ_left, List.mem_cons]
      exact or_iff_right hj

/-- What leaves the queue is at the read pointer; the cell may be overwritten. -/
theorem contents_pop (h : InUse valid q rd wr (n + 1)) (val : α → β) (x : α) :
    contents val q rd (n + 1) = val (q rd) :: contents val (Function.update q rd x) (rd + 1) n := by
  have hnd := nodup_slots (p := rd) h.le
  rw [slots_succ_left, List.nodup_cons] at hnd
  rw [contents, slots_succ_left, List.map_cons]
  congr 1
  refine List.map_congr_left fun j hj => ?_
  rw [Function.update_of_ne (ne_of_mem_of_not_mem hj hnd.1)]

/-- The oldest slot is valid exactly if there is one. -/
theorem InUse.valid_rd (h : InUse valid q rd wr n) : valid (q rd) = true ↔ n ≠ 0 := by
  rw [h.valid, mem_slots, BitVec.sub_self, BitVec.toNat_zero, Nat.pos_iff_ne_zero]

/-- A property of something in the queue is one of something valid. -/
theorem InUse.exists_contents (h : InUse valid q rd wr n) (val : α → β) (P : β → Prop) :
    (∃ x ∈ contents val q rd n, P x) ↔ ∃ j, valid (q j) = true ∧ P (val (q j)) := by
  simp only [contents, List.mem_map, h.valid]
  constructor
  · rintro ⟨x, ⟨j, hj, rfl⟩, hp⟩
    exact ⟨j, hj, hp⟩
  · rintro ⟨j, hj, hp⟩
    exact ⟨_, ⟨j, hj, rfl⟩, hp⟩

/-! ### Pushing and popping under a flag -/

@[simp] theorem setWidth_ofBool (b : Bool) (n : Nat) : (BitVec.ofBool b).setWidth n = BitVec.ofNat n b.toNat := by
  rw [← BitVec.ofNat_toNat]
  cases b <;> rfl

theorem toNat_add_flag {c : BitVec w} {b : Bool} (h : c.toNat + b.toNat < 2 ^ w) :
    (c + BitVec.ofNat w b.toNat).toNat = c.toNat + b.toNat := by
  rw [BitVec.toNat_add, BitVec.toNat_ofNat, Nat.mod_eq_of_lt (a := b.toNat) (by omega), Nat.mod_eq_of_lt h]

theorem toNat_sub_flag {c : BitVec w} {b : Bool} (h : b.toNat ≤ c.toNat) :
    (c - BitVec.ofNat w b.toNat).toNat = c.toNat - b.toNat := by
  have hlt := c.isLt
  have hb : (BitVec.ofNat w b.toNat).toNat = b.toNat := by
    rw [BitVec.toNat_ofNat, Nat.mod_eq_of_lt (by omega)]
  rw [BitVec.toNat_sub_of_le (by rw [BitVec.le_def, hb]; exact h), hb]

theorem InUse.pushIf (h : InUse valid q rd wr n) {b : Bool} (hb : b = true → n < 2 ^ w) {x : α}
    (hx : valid x = true) :
    InUse valid (if b then Function.update q wr x else q) rd (wr + BitVec.ofNat w b.toNat) (n + b.toNat) := by
  cases b
  · simpa using h
  · exact h.push (hb rfl) hx

theorem contents_pushIf (h : InUse valid q rd wr n) {b : Bool} (hb : b = true → n < 2 ^ w) (val : α → β) (x : α) :
    contents val (if b then Function.update q wr x else q) rd (n + b.toNat) =
      contents val q rd n ++ if b then [val x] else [] := by
  cases b
  · simp
  · exact contents_push h (hb rfl) val x

theorem InUse.popIf (h : InUse valid q rd wr n) {b : Bool} (hb : b = true → n ≠ 0) {x : α} (hx : valid x = false) :
    InUse valid (if b then Function.update q rd x else q) (rd + BitVec.ofNat w b.toNat) wr (n - b.toNat) := by
  cases b
  · simpa using h
  · obtain ⟨k, rfl⟩ := Nat.exists_eq_succ_of_ne_zero (hb rfl)
    exact h.pop hx

theorem contents_popIf (h : InUse valid q rd wr n) {b : Bool} (hb : b = true → n ≠ 0) (val : α → β) (x : α) :
    contents val (if b then Function.update q rd x else q) (rd + BitVec.ofNat w b.toNat) (n - b.toNat) =
      if b then (contents val q rd n).tail else contents val q rd n := by
  cases b
  · simp
  · obtain ⟨k, rfl⟩ := Nat.exists_eq_succ_of_ne_zero (hb rfl)
    rw [contents_pop h val x]
    rfl

end Culsans.Library
