import Mathlib.Data.Nat.Find
import Mathlib.Data.List.FinRange
import Mathlib.Order.Interval.Set.Defs
import Culsans.Core.Lzc
import Culsans.Mmu.Sv39

/-! # Physical memory protection (`pmp`, `pmp_entry`)

`p` is `PMP_LEN`, and a physical address has two bits more. An access is matched by
the address at which it starts.
-/

namespace Culsans.Mmu
open Culsans.Core

/-- `riscv::pmp_addr_mode_t` -/
inductive PmpAddrMode
  | off | tor | na4 | napot
deriving DecidableEq

/-- `riscv::pmpcfg_t`, less the reserved bits; the permissions are X, W and R. -/
structure PmpCfg where
  locked : Bool
  addrMode : PmpAddrMode
  accessType : BitVec 3
deriving DecidableEq

/-- The inputs of `pmp`: the access and the configuration of the entries. -/
structure PmpIn (p : ℕ) where
  addr : BitVec (p + 2)
  accessType : BitVec 3
  privLvl : PrivLvl
  confAddr : Fin 16 → BitVec p
  conf : Fin 16 → PmpCfg

namespace Pmp
variable {p : ℕ}

/-! ### One entry -/

/-- `conf_addr_i << 2` in the width of an address -/
def byteAddr (a : BitVec p) : BitVec (p + 2) := a.setWidth (p + 2) <<< 2

/-- `trail_ones`: the complement is taken in the width of an address. -/
def trailOnes (a : BitVec p) : ℕ := Lzc.trailing (~~~ a.setWidth (p + 2))

/-- `match_o` of an entry -/
def entryMatch (addr : BitVec (p + 2)) (a prev : BitVec p) : PmpAddrMode → Bool
  | .tor => decide (byteAddr prev ≤ addr) && decide (addr < byteAddr a)
  | .na4 => maskMatch addr a 2
  | .napot => maskMatch addr a (trailOnes a + 3)
  | .off => false
where
  maskMatch (addr : BitVec (p + 2)) (a : BitVec p) (size : ℕ) : Bool :=
    let mask := BitVec.allOnes (p + 2) <<< size
    let base := byteAddr a &&& mask
    addr &&& mask == base

/-! ### All entries -/

def confAddrPrev (i : PmpIn p) (j : Fin 16) : BitVec p := if j = 0 then 0 else i.confAddr (j - 1)

def entry (i : PmpIn p) (j : Fin 16) : Bool :=
  entryMatch i.addr (i.confAddr j) (confAddrPrev i j) (i.conf j).addrMode

/-- The configuration applies in M mode only if it is locked. -/
def applies (i : PmpIn p) (j : Fin 16) : Bool := i.privLvl != .m || (i.conf j).locked

/-- The permissions cover the access. -/
def covers (i : PmpIn p) (j : Fin 16) : Bool := i.accessType &&& (i.conf j).accessType == i.accessType

/-- The loop over the entries, which the first match leaves. -/
def check (i : PmpIn p) : List (Fin 16) → Bool
  | [] => i.privLvl == .m
  | j :: js => if applies i j && entry i j then covers i j else check i js

/-- `allow_o` with `n` entries -/
def allow (n : ℕ) (i : PmpIn p) : Bool := if 0 < n then check i ((List.finRange 16).take n) else true

/-! ### The regions -/

/-- The number of trailing ones of an address register: the place of its lowest zero. -/
def trailingOnes (a : BitVec p) : ℕ := Nat.find (p := fun k => a.getLsbD k = false) ⟨p, BitVec.getLsbD_of_ge a p le_rfl⟩

/-- The naturally aligned region of `2 ^ s` bytes around an address. -/
def alignedRegion (s addr : ℕ) : Set ℕ := Set.Ico (addr / 2 ^ s * 2 ^ s) (addr / 2 ^ s * 2 ^ s + 2 ^ s)

/-- The bytes an entry stands for, as numbers without bound. -/
def region (a prev : BitVec p) : PmpAddrMode → Set ℕ
  | .off => ∅
  | .tor => Set.Ico (4 * prev.toNat) (4 * a.toNat)
  | .na4 => alignedRegion 2 (4 * a.toNat)
  | .napot => alignedRegion (trailingOnes a + 3) (4 * a.toNat)

variable {addr x : BitVec (p + 2)} {a prev : BitVec p} {s : ℕ}

@[simp] theorem toNat_byteAddr : (byteAddr a).toNat = 4 * a.toNat := by
  have ha := a.isLt
  have hpow : 2 ^ (p + 2) = 4 * 2 ^ p := by rw [Nat.pow_add, Nat.mul_comm]
  rw [byteAddr, BitVec.toNat_shiftLeft, BitVec.toNat_setWidth, Nat.shiftLeft_eq]
  rw [Nat.mod_eq_of_lt (by omega : a.toNat < 2 ^ (p + 2)), Nat.mod_eq_of_lt (by omega)]
  omega

/-- The trailing ones are counted to the end of the register. -/
theorem trailOnes_eq (a : BitVec p) : trailOnes a = trailingOnes a := by
  have hnot (j : ℕ) (hj : j < p + 2) : (~~~ a.setWidth (p + 2)).getLsbD j = !a.getLsbD j := by
    simp [hj]
  have hend : (~~~ a.setWidth (p + 2)).getLsbD p = true := by
    rw [hnot p (by omega), BitVec.getLsbD_of_ge a p le_rfl]
    rfl
  obtain ⟨hone, hbefore⟩ := Lzc.trailing_spec (by omega) hend
  have hlt : trailOnes a < p + 2 := BitVec.lt_of_getLsbD hone
  refine ((Nat.find_eq_iff _).mpr ⟨?_, fun j hj => ?_⟩).symm
  · change (~~~ a.setWidth (p + 2)).getLsbD (trailOnes a) = true at hone
    rw [hnot _ hlt] at hone
    simpa using hone
  · have hj' := hbefore j hj
    rw [hnot j (hj.trans hlt)] at hj'
    simpa using hj'

theorem mem_alignedRegion {n m : ℕ} : n ∈ alignedRegion s m ↔ n / 2 ^ s = m / 2 ^ s := by
  have hpos : 0 < 2 ^ s := Nat.two_pow_pos s
  rw [alignedRegion, Set.mem_Ico, Nat.le_iff_lt_add_one, ← Nat.le_iff_lt_add_one, ← Nat.le_div_iff_mul_le hpos,
    ← Nat.succ_mul, ← Nat.div_lt_iff_lt_mul hpos]
  omega

/-- Comparing under the mask compares the numbers of the regions. -/
theorem maskMatch_iff : entryMatch.maskMatch addr a s = true ↔ addr.toNat ∈ alignedRegion s (4 * a.toNat) := by
  have hmask (y : BitVec (p + 2)) (j : ℕ) : (y &&& BitVec.allOnes (p + 2) <<< s).getLsbD j =
      (decide (s ≤ j) && y.getLsbD j) := by
    rcases Nat.lt_or_ge j (p + 2) with hj | hj
    · simp only [BitVec.getLsbD_and, BitVec.getLsbD_shiftLeft, BitVec.getLsbD_allOnes]
      by_cases hs : s ≤ j
      · simp [hj, hs, Nat.not_lt.mpr hs, (Nat.sub_le j s).trans_lt hj]
      · simp [hs, Nat.not_le.mp hs]
    · simp [BitVec.getLsbD_of_ge _ j hj]
  rw [mem_alignedRegion, entryMatch.maskMatch, beq_iff_eq, ← toNat_byteAddr]
  constructor
  · intro h
    apply Nat.eq_of_testBit_eq
    intro j
    have hj := congrArg (fun y => y.getLsbD (s + j)) h
    simp only [hmask, Nat.le_add_right, decide_true, Bool.true_and] at hj
    rw [← Nat.shiftRight_eq_div_pow, ← Nat.shiftRight_eq_div_pow, Nat.testBit_shiftRight, Nat.testBit_shiftRight]
    exact hj
  · intro h
    apply BitVec.eq_of_getLsbD_eq
    intro j _
    rw [hmask, hmask]
    rcases Nat.lt_or_ge j s with hj | hj
    · simp [Nat.not_le.mpr hj]
    · have hb := congrArg (fun y => y.testBit (j - s)) h
      simp only [← Nat.shiftRight_eq_div_pow, Nat.testBit_shiftRight, Nat.add_sub_cancel' hj] at hb
      rw [BitVec.getLsbD, BitVec.getLsbD, hb]

theorem entryMatch_iff (mode : PmpAddrMode) : entryMatch addr a prev mode = true ↔ addr.toNat ∈ region a prev mode := by
  cases mode with
  | off => simp [entryMatch, region]
  | tor => simp [entryMatch, region, BitVec.le_def, BitVec.lt_def]
  | na4 => exact maskMatch_iff
  | napot => rw [entryMatch, region, trailOnes_eq, maskMatch_iff]

/-! ### The decision -/

/-- The access starts in the region of the entry. -/
def Matches (i : PmpIn p) (j : Fin 16) : Prop :=
  i.addr.toNat ∈ region (i.confAddr j) (confAddrPrev i j) (i.conf j).addrMode

/-- The lowest of the first `n` entries for which `P` holds. -/
def Lowest (n : ℕ) (P : Fin 16 → Prop) (j : Fin 16) : Prop := j.val < n ∧ P j ∧ ∀ l, l < j → ¬ P l

/-- The privileged architecture: the lowest matching entry decides, whether or not it is locked; in M mode an
entry that is not locked allows everything. -/
def Allowed (n : ℕ) (i : PmpIn p) : Prop :=
  (∃ j, Lowest n (Matches i) j ∧ (covers i j = true ∨ i.privLvl = .m ∧ (i.conf j).locked = false)) ∨
    (∀ j, j.val < n → ¬ Matches i j) ∧ i.privLvl = .m

/-- In M mode a locked entry forbids the access although an entry below it that is not locked matches. -/
def Shadowed (n : ℕ) (i : PmpIn p) : Prop :=
  i.privLvl = .m ∧ (∃ j, Lowest n (Matches i) j ∧ (i.conf j).locked = false) ∧
    ∃ j, Lowest n (fun j => (i.conf j).locked = true ∧ Matches i j) j ∧ covers i j = false

section Decision
variable {i : PmpIn p} {n : ℕ} {j : Fin 16}

theorem entry_iff : entry i j = true ↔ Matches i j := entryMatch_iff _

theorem applies_iff : applies i j = true ↔ i.privLvl ≠ .m ∨ (i.conf j).locked = true := by
  simp [applies]

/-- The loop stops at the lowest entry that applies and matches. -/
theorem check_eq (js : List (Fin 16)) : check i js =
    match js.find? fun j => applies i j && entry i j with
    | some j => covers i j
    | none => i.privLvl == .m := by
  induction js with
  | nil => rfl
  | cons j js ih =>
    rw [check, List.find?_cons]
    cases h : applies i j && entry i j with
    | true => rfl
    | false => simpa using ih

theorem Lowest.unique {P : Fin 16 → Prop} {l : Fin 16} (hj : Lowest n P j) (hl : Lowest n P l) : j = l := by
  rcases lt_trichotomy j l with h | h | h
  · exact absurd hj.2.1 (hl.2.2 j h)
  · exact h
  · exact absurd hl.2.1 (hj.2.2 l h)

/-- The entry at which the loop stops. -/
theorem find_take_some {P : Fin 16 → Bool} (h : ((List.finRange 16).take n).find? P = some j) :
    Lowest n (fun l => P l = true) j := by
  obtain ⟨hj, m, hm, hget, hbefore⟩ := List.find?_eq_some_iff_getElem.mp h
  rw [List.length_take, List.length_finRange] at hm
  have hmj : j.val = m := by
    rw [← hget]
    simp
  refine ⟨by omega, hj, fun l hl hP => ?_⟩
  have hl' := hbefore l.val (by omega)
  simp [hP] at hl'

theorem find_take_none {P : Fin 16 → Bool} (h : ((List.finRange 16).take n).find? P = none) {l : Fin 16}
    (hl : l.val < n) : P l = false := by
  have hmem : l ∈ (List.finRange 16).take n := by
    rw [List.mem_take_iff_getElem]
    exact ⟨l.val, by simp [hl], by simp⟩
  simpa using List.find?_eq_none.mp h l hmem

/-- There is a lowest entry of a kind if there is one at all. -/
theorem exists_lowest (P : Fin 16 → Prop) (n : ℕ) : (∃ j, Lowest n P j) ∨ ∀ j : Fin 16, j.val < n → ¬ P j := by
  classical
  cases hf : ((List.finRange 16).take n).find? fun j => decide (P j) with
  | some j => exact .inl ⟨j, by simpa [Lowest] using find_take_some hf⟩
  | none => exact .inr fun j hj => by simpa using find_take_none hf hj

/-- The lowest entry that applies and matches decides. -/
theorem allow_of_lowest (h : Lowest n (fun l => applies i l = true ∧ Matches i l) j) : allow n i = covers i j := by
  have hn : 0 < n := by
    have := h.1
    omega
  rw [allow, if_pos hn, check_eq]
  cases hf : ((List.finRange 16).take n).find? fun l => applies i l && entry i l with
  | some l =>
    have hl := find_take_some hf
    simp only [Bool.and_eq_true, entry_iff] at hl
    rw [hl.unique h]
  | none =>
    have hno := find_take_none hf h.1
    simp [h.2.1.1, entry_iff.mpr h.2.1.2] at hno

theorem allow_of_none (hn : 0 < n) (h : ∀ l : Fin 16, l.val < n → ¬ (applies i l = true ∧ Matches i l)) :
    allow n i = (i.privLvl == .m) := by
  rw [allow, if_pos hn, check_eq]
  cases hf : ((List.finRange 16).take n).find? fun l => applies i l && entry i l with
  | some l =>
    have hl := find_take_some hf
    simp only [Bool.and_eq_true, entry_iff] at hl
    exact absurd hl.2.1 (h l hl.1)
  | none => rfl

/-- Outside M mode every entry applies. -/
theorem allow_iff_allowed (hn : 0 < n) (hp : i.privLvl ≠ .m) : allow n i = true ↔ Allowed n i := by
  have happ (l : Fin 16) : applies i l = true := applies_iff.mpr (.inl hp)
  rcases exists_lowest (Matches i) n with ⟨j, hj⟩ | hno
  · rw [allow_of_lowest (j := j) (by simpa [happ] using hj)]
    constructor
    · exact fun hc => .inl ⟨j, hj, .inl hc⟩
    · rintro (⟨l, hl, hc | hm⟩ | ⟨-, hm⟩)
      · rwa [hj.unique hl]
      · exact absurd hm.1 hp
      · exact absurd hm hp
  · rw [allow_of_none hn fun l hl h => hno l hl h.2, beq_iff_eq]
    constructor
    · exact fun hm => absurd hm hp
    · rintro (⟨l, hl, -⟩ | ⟨-, hm⟩)
      · exact absurd hl.2.1 (hno l hl.1)
      · exact hm

/-- In M mode only a shadowed entry makes a difference. -/
theorem allow_iff_shadowed (hn : 0 < n) (hp : i.privLvl = .m) : (allow n i = true ↔ Allowed n i) ↔ ¬ Shadowed n i := by
  have happ (l : Fin 16) : applies i l = true ↔ (i.conf l).locked = true := by simp [applies_iff, hp]
  rcases exists_lowest (Matches i) n with ⟨j, hj⟩ | hno
  · cases hlock : (i.conf j).locked with
    | true =>
      -- the entry that decides is locked
      have hlow : Lowest n (fun l => applies i l = true ∧ Matches i l) j :=
        ⟨hj.1, ⟨(happ j).mpr hlock, hj.2.1⟩, fun l hl h => hj.2.2 l hl h.2⟩
      have hallowed : Allowed n i ↔ covers i j = true := by
        constructor
        · rintro (⟨l, hl, hc | hm⟩ | ⟨hno, -⟩)
          · rwa [hj.unique hl]
          · rw [← hj.unique hl, hlock] at hm
            exact absurd hm.2 (by decide)
          · exact absurd hj.2.1 (hno j hj.1)
        · exact fun hc => .inl ⟨j, hj, .inl hc⟩
      rw [allow_of_lowest hlow, hallowed]
      refine iff_of_true Iff.rfl ?_
      rintro ⟨-, ⟨l, hl, hun⟩, -⟩
      rw [← hj.unique hl, hlock] at hun
      exact absurd hun (by decide)
    | false =>
      have hallowed : Allowed n i := .inl ⟨j, hj, .inr ⟨hp, hlock⟩⟩
      rcases exists_lowest (fun l => applies i l = true ∧ Matches i l) n with ⟨l, hl⟩ | hno
      · have hlow : Lowest n (fun l => (i.conf l).locked = true ∧ Matches i l) l := by simpa only [happ] using hl
        rw [allow_of_lowest hl]
        constructor
        · rintro hiff ⟨-, -, m, hm, hc⟩
          rw [← hlow.unique hm, hiff.mpr hallowed] at hc
          exact absurd hc (by decide)
        · intro hns
          refine iff_of_true ?_ hallowed
          by_contra hc
          exact hns ⟨hp, ⟨j, hj, hlock⟩, l, hlow, by simpa using hc⟩
      · rw [allow_of_none hn hno]
        refine iff_of_true (iff_of_true (by simp [hp]) hallowed) ?_
        rintro ⟨-, -, m, hm, -⟩
        exact hno m hm.1 ⟨(happ m).mpr hm.2.1.1, hm.2.1.2⟩
  · rw [allow_of_none hn fun l hl h => hno l hl h.2]
    refine iff_of_true (iff_of_true (by simp [hp]) (.inr ⟨hno, hp⟩)) ?_
    rintro ⟨-, ⟨l, hl, -⟩, -⟩
    exact hno l hl.1 hl.2.1

/-- Without entries every access is allowed. With entries the lowest one decides that applies to the
privilege level and matches the access; if there is none, the access is allowed exactly in M mode. That is the decision
of the privileged architecture except where an entry is shadowed. -/
theorem pmp_decision (n : ℕ) (i : PmpIn p) :
    (n = 0 → allow n i = true) ∧
    (0 < n → (allow n i = true ↔
      (∃ j, Lowest n (fun j => (i.privLvl ≠ .m ∨ (i.conf j).locked = true) ∧ Matches i j) j ∧ covers i j = true) ∨
        (∀ j : Fin 16, j.val < n → (i.privLvl ≠ .m ∨ (i.conf j).locked = true) → ¬ Matches i j) ∧ i.privLvl = .m) ∧
      ((allow n i = true ↔ Allowed n i) ↔ ¬ Shadowed n i)) := by
  refine ⟨fun hn => by simp [allow, hn], fun hn => ⟨?_, ?_⟩⟩
  · simp only [← applies_iff]
    rcases exists_lowest (fun l => applies i l = true ∧ Matches i l) n with ⟨j, hj⟩ | hno
    · rw [allow_of_lowest hj]
      constructor
      · exact fun hc => .inl ⟨j, hj, hc⟩
      · rintro (⟨l, hl, hc⟩ | ⟨hno, -⟩)
        · rwa [hj.unique hl]
        · exact absurd hj.2.1.2 (hno j hj.1 hj.2.1.1)
    · rw [allow_of_none hn hno, beq_iff_eq]
      constructor
      · exact fun hm => .inr ⟨fun j hj ha hmatch => hno j hj ⟨ha, hmatch⟩, hm⟩
      · rintro (⟨l, hl, -⟩ | ⟨-, hm⟩)
        · exact absurd hl.2.1 (hno l hl.1)
        · exact hm
  · by_cases hp : i.privLvl = .m
    · exact allow_iff_shadowed hn hp
    · exact iff_of_true (allow_iff_allowed hn hp) fun h => hp h.1

end Decision

/-! ### An entry in the shadow of a locked one -/

/-- All of memory is open in entry 0, which is not locked, and closed in entry 1, which is. -/
def machineRead : PmpIn 54 where
  addr := 0x80001000
  accessType := 1
  privLvl := .m
  confAddr _ := BitVec.allOnes 54
  conf j := if j = 0 then ⟨false, .napot, 7⟩ else ⟨true, .napot, 0⟩

/-- A user's read in an implementation without entries. -/
def userRead : PmpIn 54 := { machineRead with privLvl := .u }

theorem lowest_machineRead : Lowest 2 (Matches machineRead) 0 :=
  ⟨by decide, entry_iff.mp (by decide +kernel), fun _ hl => absurd hl (Fin.not_lt_zero _)⟩

theorem pmp_shadowed :
    (Allowed 2 machineRead ∧ allow 2 machineRead = false) ∧ ¬ Allowed 0 userRead ∧ allow 0 userRead = true := by
  refine ⟨⟨.inl ⟨0, lowest_machineRead, .inl (by decide +kernel)⟩, by decide +kernel⟩, ?_, rfl⟩
  rintro (⟨j, hj, -⟩ | ⟨-, hm⟩)
  · exact absurd hj.1 (Nat.not_lt_zero _)
  · cases hm

/-- With entry 0 alone the access is allowed, as the architecture has it. -/
theorem pmp_decision_one : allow 1 machineRead = true ↔ Allowed 1 machineRead := by
  refine ((pmp_decision 1 machineRead).2 (by decide)).2.mpr ?_
  rintro ⟨-, -, j, hj, -⟩
  obtain rfl : j = 0 := by
    have := hj.1
    omega
  exact absurd hj.2.1.1 (by decide)

end Pmp
end Culsans.Mmu
