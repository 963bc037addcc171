import Culsans.Core.Lzc
import Culsans.Library.LongDivision
import Culsans.Library.Progress

/-! # The serial divider (`serdiv`)

The operands are brought to one sign, which is that of the divisor, and the divisor is
shifted so that the quotient has as many bits as the shift and one more. With a
negative divisor the loop runs on negative numbers and an inverted comparison.
`w` is WIDTH and `t` the width of a transaction id.
-/

namespace Culsans.Core
open Library
variable {w t : ℕ}

inductive DivState
  | idle | divide | finish
deriving DecidableEq

/-- The registers of the divider. -/
structure Serdiv (w t : ℕ) where
  state : DivState
  opA : BitVec w
  opB : BitVec w
  res : BitVec w
  cnt : ℕ
  id : BitVec t
  remSel : Bool
  compInv : Bool
  resInv : Bool
  opBZero : Bool
  divResZero : Bool

structure SerdivIn (w t : ℕ) where
  id : BitVec t
  opA : BitVec w
  opB : BitVec w
  /-- 0: udiv, 2: urem, 1: div, 3: rem -/
  opcode : BitVec 2
  inVld : Bool
  flush : Bool
  outRdy : Bool

namespace Serdiv

def reset : Serdiv w t := ⟨.idle, 0, 0, 0, 0, 0, false, false, false, false, false⟩

/-! ### Alignment of the operands -/

section Align
variable (i : SerdivIn w t)

def isSigned : Bool := i.opcode.getLsbD 0

def isRem : Bool := i.opcode.getLsbD 1

/-- A negative dividend is counted by its complement, doubled; -1 by one. The literal it is compared with has 32 bits,
or as many as the dividend if that has more. -/
def lzcAInput : BitVec w :=
  if isSigned i && i.opA.msb && i.opA.setWidth (max w 32) == -1#(max w 32) then ((~~~i.opA) ++ 1#1).setWidth w
  else if isSigned i && i.opA.msb then ((~~~i.opA) ++ 0#1).setWidth w
  else i.opA

def lzcBInput : BitVec w := if isSigned i && i.opB.msb then ~~~i.opB else i.opB

def shiftA : ℕ := if Lzc.empty (lzcAInput i) then w else Lzc.cnt (lzcAInput i)

/-- `div_shift`, whose width holds every value from `-w` to `w` -/
def divShift : ℤ := if Lzc.empty (lzcBInput i) then w else (Lzc.cnt (lzcBInput i) : ℤ) - shiftA i

/-- `$clog2(WIDTH+1)`, the width of the counter -/
def cntWidth (w : ℕ) : ℕ := Nat.clog 2 (w + 1)

/-- `op_b`: the shift amount is read as an unsigned number. -/
def alignedB : BitVec w := i.opB <<< (divShift i % 2 ^ (cntWidth w + 1)).toNat

end Align

/-! ### State machine -/

/-- What the state machine drives. -/
structure Ctl where
  inRdy : Bool
  outVld : Bool
  loadEn : Bool
  aRegEn : Bool
  bRegEn : Bool
  resRegEn : Bool
  state : DivState

def abComp (q : Serdiv w t) : Bool :=
  (q.opA == q.opB || ((q.opB.ult q.opA) != q.compInv)) && (q.opA != 0 || q.opBZero)

def fsm (q : Serdiv w t) (i : SerdivIn w t) : Ctl :=
  let c : Ctl :=
    match q.state with
    | .idle =>
      if i.inVld then ⟨false, false, true, true, true, false, .divide⟩
      else ⟨true, false, false, false, false, false, .idle⟩
    | .divide =>
      if q.divResZero then ⟨false, true, false, false, false, false, if i.outRdy then .idle else .finish⟩
      else ⟨false, false, false, q.abComp, true, true, if q.cnt == 0 then .finish else .divide⟩
    | .finish => ⟨false, true, false, false, false, false, if i.outRdy then .idle else .finish⟩
  if i.flush then { c with
    inRdy := false, outVld := false, aRegEn := false, bRegEn := false, loadEn := false, state := .idle }
  else c

def addOut (q : Serdiv w t) (i : SerdivIn w t) (loadEn : Bool) : BitVec w :=
  let pmSel := loadEn && !(isSigned i && (i.opA.msb != i.opB.msb))
  let addMux := if loadEn then i.opA else q.opB
  let addTmp := if loadEn then 0 else q.opA
  if pmSel then addTmp + addMux else addTmp - addMux

def step (q : Serdiv w t) (i : SerdivIn w t) : Serdiv w t :=
  let c := q.fsm i
  { state := c.state
    opA := if c.aRegEn then q.addOut i c.loadEn else q.opA
    opB :=
      if c.bRegEn then
        if c.loadEn then alignedB i
        else (BitVec.ofBool q.compInv ++ q.opB.extractLsb' 1 (w - 1)).setWidth w
      else q.opB
    res :=
      if c.loadEn then 0
      else if c.resRegEn then (q.res ++ BitVec.ofBool q.abComp).setWidth w
      else q.res
    cnt :=
      if c.loadEn then (divShift i % 2 ^ cntWidth w).toNat
      else if q.cnt == 0 then q.cnt
      else q.cnt - 1
    id := if c.loadEn then i.id else q.id
    remSel := if c.loadEn then isRem i else q.remSel
    compInv := if c.loadEn then isSigned i && i.opB.msb else q.compInv
    resInv :=
      if c.loadEn then (!(i.opB == 0) || isRem i) && isSigned i && (i.opA.msb != i.opB.msb)
      else q.resInv
    opBZero := if c.loadEn then i.opB == 0 else q.opBZero
    divResZero := if c.loadEn then decide (divShift i < 0) else q.divResZero }

/-- `res_o` -/
def resO (q : Serdiv w t) : BitVec w :=
  let outMux := if q.remSel then q.opA else q.res
  if q.resInv then -outMux else outMux

def machine (w t : ℕ) : Machine (Serdiv w t) (SerdivIn w t) := ⟨fun q => q = reset, step⟩

end Serdiv

/-! ### The RISC-V definition -/

/-- Division and remainder of RISC-V: by zero they give all ones and the dividend; a signed overflow wraps. -/
def riscvDiv (isSigned isRem : Bool) (a b : BitVec w) : BitVec w :=
  if b = 0 then if isRem then a else BitVec.allOnes w
  else if isSigned then BitVec.ofInt w (if isRem then a.toInt.tmod b.toInt else a.toInt.tdiv b.toInt)
  else BitVec.ofNat w (if isRem then a.toNat % b.toNat else a.toNat / b.toNat)

/-! ### Numbers of one sign -/

/-- The number `n` or its negation. -/
def rep (w : ℕ) (neg : Bool) (n : ℕ) : BitVec w := if neg then -BitVec.ofNat w n else BitVec.ofNat w n

section Rep
variable {neg : Bool} {n m : ℕ}

theorem rep_false_toNat (h : n < 2 ^ w) : (rep w false n).toNat = n := by
  simp [rep, Nat.mod_eq_of_lt h]

theorem rep_true_toNat (h0 : 0 < n) (h : n ≤ 2 ^ w) : (rep w true n).toNat = 2 ^ w - n := by
  rcases h.lt_or_eq with hlt | rfl
  · simp [rep, Nat.mod_eq_of_lt hlt, Nat.mod_eq_of_lt (show 2 ^ w - n < 2 ^ w by omega)]
  · have hzero : BitVec.ofNat w (2 ^ w) = 0#w :=
      BitVec.eq_of_toNat_eq (by rw [BitVec.toNat_ofNat, Nat.mod_self, BitVec.toNat_zero])
    rw [rep, if_pos rfl, hzero, BitVec.neg_zero, BitVec.toNat_zero, Nat.sub_self]

@[simp] theorem rep_zero : rep w neg 0 = 0 := by
  cases neg <;> simp [rep]

theorem rep_sub (h : m ≤ n) : rep w neg n - rep w neg m = rep w neg (n - m) := by
  obtain ⟨d, rfl⟩ := Nat.exists_eq_add_of_le h
  rw [Nat.add_sub_cancel_left]
  cases neg <;> simp only [rep, BitVec.ofNat_add, Bool.false_eq_true, if_false, if_true] <;> grind

theorem rep_shiftLeft (s : ℕ) : rep w neg n <<< s = rep w neg (n * 2 ^ s) := by
  have hp : BitVec.twoPow w s = BitVec.ofNat w (2 ^ s) := by
    apply BitVec.eq_of_toNat_eq
    rw [BitVec.toNat_twoPow, BitVec.toNat_ofNat]
  rw [BitVec.shiftLeft_eq_mul_twoPow, hp]
  cases neg <;> simp only [rep, BitVec.ofNat_mul, Bool.false_eq_true, if_false, if_true]
  rw [BitVec.neg_mul]

theorem neg_rep : -rep w neg n = rep w (!neg) n := by
  cases neg <;> simp [rep]

end Rep

/-- The magnitude of an operand. -/
def mag (isSigned : Bool) (x : BitVec w) : ℕ := if isSigned then x.toInt.natAbs else x.toNat

section Mag
variable {sg : Bool} {x : BitVec w}

theorem mag_neg (h : (sg && x.msb) = true) : mag sg x = 2 ^ w - x.toNat := by
  rw [Bool.and_eq_true] at h
  have hx := x.isLt
  rw [mag, if_pos h.1, BitVec.toInt_eq_msb_cond, if_pos h.2]
  omega

theorem mag_pos (h : (sg && x.msb) = false) : mag sg x = x.toNat := by
  cases sg with
  | false => rfl
  | true =>
    rw [Bool.true_and] at h
    rw [mag, if_pos rfl, BitVec.toInt_eq_msb_cond, h]
    simp

theorem rep_mag : rep w (sg && x.msb) (mag sg x) = x := by
  have hx := x.isLt
  apply BitVec.eq_of_toNat_eq
  cases h : sg && x.msb with
  | false => rw [mag_pos h, rep_false_toNat hx]
  | true =>
    rw [mag_neg h, rep_true_toNat (by omega) (by omega)]
    omega

theorem mag_eq_zero : mag sg x = 0 ↔ x = 0 := by
  have hx := x.isLt
  refine ⟨fun h => ?_, fun h => ?_⟩
  · have hrep : rep w (sg && x.msb) (mag sg x) = x := rep_mag
    rw [← hrep, h, rep_zero]
  · subst h
    cases sg <;> simp [mag]

theorem mag_lt : mag sg x < 2 ^ w := by
  have hx := x.isLt
  cases h : sg && x.msb with
  | false => rwa [mag_pos h]
  | true =>
    rw [mag_neg h]
    rw [Bool.and_eq_true] at h
    have hm := BitVec.msb_eq_true_iff_two_mul_ge.mp h.2
    have hp : 0 < 2 ^ w := Nat.two_pow_pos w
    omega

end Mag

namespace Serdiv

/-! ### Alignment -/

section Align
variable {i : SerdivIn w t}

theorem setWidth_eq_neg_one (x : BitVec w) : x.setWidth (max w 32) = -1#(max w 32) ↔ 32 ≤ w ∧ x = -1#w := by
  have hx := x.isLt
  have hlt : x.toNat < 2 ^ max w 32 := hx.trans_le (Nat.pow_le_pow_right (by omega) (le_max_left w 32))
  rw [← BitVec.toNat_inj, ← BitVec.toNat_inj, BitVec.toNat_setWidth, Nat.mod_eq_of_lt hlt, BitVec.neg_one_eq_allOnes,
    BitVec.neg_one_eq_allOnes, BitVec.toNat_allOnes, BitVec.toNat_allOnes]
  rcases Nat.lt_or_ge w 32 with hw | hw
  · have hp : 2 ^ w ≤ 2 ^ 31 := Nat.pow_le_pow_right (by omega) (by omega)
    rw [max_eq_right hw.le]
    omega
  · rw [max_eq_left hw]
    simp [hw]

/-- The dividend is -1, and the comparison misses it. -/
def Missed (i : SerdivIn w t) : Prop := w < 32 ∧ isSigned i = true ∧ i.opA = -1#w

/-- The quotient -1 is taken to be zero. -/
def Truncates (i : SerdivIn w t) : Prop := Missed i ∧ i.opB = 1#w

theorem missed_spec (hw : 2 ≤ w) (h : Missed i) : shiftA i = w ∧ mag (isSigned i) i.opA = 1 := by
  obtain ⟨hlt, hs, ha⟩ := h
  have hp : 2 ≤ 2 ^ w := Nat.pow_le_pow_right (n := 2) (by omega) (show 1 ≤ w by omega)
  have hone : i.opA.toNat = 2 ^ w - 1 := by rw [ha, BitVec.neg_one_eq_allOnes, BitVec.toNat_allOnes]
  have hmsb : i.opA.msb = true := by
    have hp' : 2 ^ w = 2 * 2 ^ (w - 1) := by rw [← Nat.pow_succ']; congr 1; omega
    rw [BitVec.msb_eq_true_iff_two_mul_ge]
    omega
  have hcmp : (i.opA.setWidth (max w 32) == -1#(max w 32)) = false := by
    rw [beq_eq_false_iff_ne, ne_eq, setWidth_eq_neg_one]
    omega
  have hl : lzcAInput i = 0 := by
    rw [lzcAInput, hcmp, Bool.and_false, if_neg Bool.false_ne_true, hs, hmsb, Bool.and_self, if_pos rfl, ha]
    apply BitVec.eq_of_toNat_eq
    simp [BitVec.neg_one_eq_allOnes]
  refine ⟨?_, ?_⟩
  · rw [shiftA, hl, if_pos (Lzc.empty_zero hw)]
  · rw [hs, mag_neg (by rw [hmsb]; rfl), hone]
    omega

/-- The dividend is below the power of two that its shift tells. -/
theorem shiftA_spec (hw : 2 ≤ w) (hm : ¬ Missed i) :
    shiftA i ≤ w ∧ mag (isSigned i) i.opA < 2 ^ (w - shiftA i) := by
  obtain ⟨hempty, hfull⟩ := Lzc.cnt_spec hw (lzcAInput i)
  -- the counter sees a vector that is zero only if the dividend is, and at least twice the magnitude less one
  have hin : (lzcAInput i).toNat = 0 ∧ mag (isSigned i) i.opA = 0 ∨
      0 < (lzcAInput i).toNat ∧ ∀ k < w, (lzcAInput i).toNat < 2 ^ (w - k) → mag (isSigned i) i.opA < 2 ^ (w - k) := by
    cases hs : isSigned i && i.opA.msb with
    | false =>
      have hl : lzcAInput i = i.opA := by simp [lzcAInput, hs]
      rw [hl, mag_pos hs]
      rcases Nat.eq_zero_or_pos i.opA.toNat with h0 | h0
      · exact .inl ⟨h0, h0⟩
      · exact .inr ⟨h0, fun k _ h => h⟩
    | true =>
      have hx := i.opA.isLt
      have hmsb := BitVec.msb_eq_true_iff_two_mul_ge.mp (Bool.and_eq_true_iff.mp hs).2
      have hp : 2 ^ w = 2 * 2 ^ (w - 1) := by rw [← Nat.pow_succ']; congr 1; omega
      have hnot : (~~~i.opA).toNat = 2 ^ w - 1 - i.opA.toNat := BitVec.toNat_not
      rw [mag_neg hs]
      refine .inr ?_
      by_cases h1 : i.opA = -1#w
      · have hone : i.opA.toNat = 2 ^ w - 1 := by
          rw [h1, BitVec.neg_one_eq_allOnes, BitVec.toNat_allOnes]
        have hl : (lzcAInput i).toNat = 1 := by
          have hlong : 32 ≤ w := by
            by_contra hlt
            exact hm ⟨by omega, (Bool.and_eq_true_iff.mp hs).1, h1⟩
          have hcmp : (i.opA.setWidth (max w 32) == -1#(max w 32)) = true :=
            beq_iff_eq.mpr ((setWidth_eq_neg_one _).mpr ⟨hlong, h1⟩)
          have hin : lzcAInput i = ((~~~i.opA) ++ 1#1).setWidth w := by
            rw [lzcAInput, if_pos (by rw [hs, hcmp]; rfl)]
          have hmod : 1 % 2 ^ w = 1 := Nat.mod_eq_of_lt (Nat.one_lt_two_pow (by omega))
          rw [hin, BitVec.toNat_setWidth, BitVec.toNat_append, hnot, hone, Nat.sub_self]
          simpa using hmod
        rw [hl, hone]
        refine ⟨by omega, fun k hk _ => ?_⟩
        have := Nat.one_lt_two_pow (n := w - k) (by omega)
        omega
      · have hne : i.opA.toNat ≠ 2 ^ w - 1 := fun hn => h1 (BitVec.eq_of_toNat_eq (by
          rw [hn, BitVec.neg_one_eq_allOnes, BitVec.toNat_allOnes]))
        have hl : (lzcAInput i).toNat = 2 * (2 ^ w - 1 - i.opA.toNat) := by
          have hin : lzcAInput i = ((~~~i.opA) ++ 0#1).setWidth w := by
            rw [lzcAInput, if_neg (by simp [setWidth_eq_neg_one, h1]), if_pos hs]
          have hsh : (2 ^ w - 1 - i.opA.toNat) <<< 1 ||| 0 = 2 * (2 ^ w - 1 - i.opA.toNat) := by
            rw [Nat.or_zero, Nat.shiftLeft_eq]
            omega
          rw [hin, BitVec.toNat_setWidth, BitVec.toNat_append, hnot]
          simp only [BitVec.toNat_ofNat, Nat.zero_mod, hsh]
          exact Nat.mod_eq_of_lt (by omega)
        rw [hl]
        refine ⟨by omega, fun k hk h => ?_⟩
        have hk2 : 2 ^ (w - k) = 2 * 2 ^ (w - k - 1) := by rw [← Nat.pow_succ']; congr 1; omega
        omega
  rw [shiftA]
  cases he : Lzc.empty (lzcAInput i) with
  | true =>
    have hz := hempty he
    rcases hin with h | h
    · simp [h.2]
    · omega
  | false =>
    obtain ⟨hlt, hlo, hhi⟩ := hfull he
    have hpos : 0 < 2 ^ (w - 1 - Lzc.cnt (lzcAInput i)) := Nat.two_pow_pos _
    rcases hin with h | h
    · omega
    · exact ⟨hlt.le, h.2 _ hlt hhi⟩

/-- The divisor lies between the powers of two that its counter tells. -/
theorem lzcB_spec (hw : 2 ≤ w) :
    (Lzc.empty (lzcBInput i) = true → mag (isSigned i) i.opB = 0 ∨
      ((isSigned i && i.opB.msb) = true ∧ mag (isSigned i) i.opB = 1)) ∧
    (Lzc.empty (lzcBInput i) = false → Lzc.cnt (lzcBInput i) < w ∧
      2 ^ (w - 1 - Lzc.cnt (lzcBInput i)) ≤ mag (isSigned i) i.opB ∧
      mag (isSigned i) i.opB ≤ 2 ^ (w - Lzc.cnt (lzcBInput i)) ∧
      ((isSigned i && i.opB.msb) = false → mag (isSigned i) i.opB < 2 ^ (w - Lzc.cnt (lzcBInput i)))) := by
  obtain ⟨hempty, hfull⟩ := Lzc.cnt_spec hw (lzcBInput i)
  have hx := i.opB.isLt
  have hin : ((isSigned i && i.opB.msb) = false ∧ (lzcBInput i).toNat = mag (isSigned i) i.opB) ∨
      ((isSigned i && i.opB.msb) = true ∧ (lzcBInput i).toNat + 1 = mag (isSigned i) i.opB) := by
    cases hs : isSigned i && i.opB.msb with
    | false => exact .inl ⟨rfl, by rw [lzcBInput, hs, mag_pos hs]; rfl⟩
    | true =>
      refine .inr ⟨rfl, ?_⟩
      have hl : lzcBInput i = ~~~i.opB := by rw [lzcBInput, if_pos hs]
      rw [hl, mag_neg hs, BitVec.toNat_not]
      omega
  refine ⟨fun he => ?_, fun he => ?_⟩
  · have hz := hempty he
    rcases hin with h | h
    · exact .inl (h.2.symm.trans hz)
    · exact .inr ⟨h.1, by omega⟩
  · obtain ⟨hlt, hlo, hhi⟩ := hfull he
    rcases hin with h | h
    · exact ⟨hlt, by omega, by omega, fun _ => by omega⟩
    · exact ⟨hlt, by omega, by omega, fun hn => by simp [h.1] at hn⟩

theorem divShift_zero (hw : 2 ≤ w) (h : i.opB = 0) : divShift i = w := by
  have hl : lzcBInput i = 0 := by
    rw [lzcBInput, h, if_neg (by simp)]
  rw [divShift, hl, if_pos (Lzc.empty_zero hw)]

/-- A divisor other than 0, 1 and -1 is larger than 1. -/
theorem one_lt_mag (hw : 2 ≤ w) (h0 : i.opB ≠ 0) (h1 : i.opB ≠ 1#w) (he : Lzc.empty (lzcBInput i) = false) :
    1 < mag (isSigned i) i.opB := by
  have hx := i.opB.isLt
  cases hs : isSigned i && i.opB.msb with
  | false =>
    have hp : 1 < 2 ^ w := Nat.one_lt_two_pow (by omega)
    rw [ne_eq, ← BitVec.toNat_inj] at h0 h1
    rw [BitVec.toNat_ofNat, Nat.mod_eq_of_lt hp] at h1
    rw [mag_pos hs]
    simp at h0
    omega
  | true =>
    have hlo := ((Lzc.cnt_spec hw (lzcBInput i)).2 he).2.1
    have hp := Nat.two_pow_pos (w - 1 - Lzc.cnt (lzcBInput i))
    have hl : (lzcBInput i).toNat = 2 ^ w - 1 - i.opB.toNat := by rw [lzcBInput, if_pos hs, BitVec.toNat_not]
    rw [mag_neg hs]
    omega

/-- With the shift told, the quotient has one bit more than the shift, and the shifted divisor
fits; a negative shift tells that the quotient is zero. -/
theorem divShift_spec (hw : 2 ≤ w) (hg : ¬ Truncates i) (hb : i.opB ≠ 0) :
    divShift i ≤ w ∧
    (divShift i < 0 → mag (isSigned i) i.opA < mag (isSigned i) i.opB) ∧
    ∀ s : ℕ, divShift i = s →
      mag (isSigned i) i.opA < mag (isSigned i) i.opB * 2 ^ (s + 1) ∧
      mag (isSigned i) i.opB * 2 ^ s ≤ 2 ^ w ∧
      ((isSigned i && i.opB.msb) = false → mag (isSigned i) i.opB * 2 ^ s < 2 ^ w) := by
  obtain ⟨hempty, hfull⟩ := lzcB_spec (i := i) hw
  have hB : mag (isSigned i) i.opB ≠ 0 := fun h => hb (mag_eq_zero.mp h)
  cases he : Lzc.empty (lzcBInput i) with
  | true =>
    obtain ⟨hneg, hone⟩ := (hempty he).resolve_left hB
    have hsh : divShift i = w := by rw [divShift, if_pos he]
    rw [hsh]
    refine ⟨le_rfl, fun h => by omega, fun s hs => ?_⟩
    have hsw : s = w := by omega
    subst hsw
    rw [hone, hneg, Nat.one_mul, Nat.one_mul]
    refine ⟨mag_lt.trans_le (Nat.pow_le_pow_right (by omega) (by omega)), le_rfl, fun h => by simp at h⟩
  | false =>
    obtain ⟨hlt, hlo, hhi, hpos⟩ := hfull he
    have hsh : divShift i = (Lzc.cnt (lzcBInput i) : ℤ) - shiftA i := by rw [divShift, he]; simp
    rw [hsh]
    by_cases hm : Missed i
    · -- the shift is negative, and only the divisor 1 would be wronged by it
      obtain ⟨ha, hone⟩ := missed_spec hw hm
      rw [ha, hone]
      refine ⟨by omega, fun _ => one_lt_mag hw hb (fun h1 => hg ⟨hm, h1⟩) he, fun s hs => by omega⟩
    obtain ⟨hka, hA⟩ := shiftA_spec hw hm
    refine ⟨by omega, fun h => ?_, fun s hs => ?_⟩
    · exact hA.trans_le ((Nat.pow_le_pow_right (by omega) (by omega)).trans hlo)
    · have hcnt : Lzc.cnt (lzcBInput i) = s + shiftA i := by omega
      have hmul : 2 ^ (w - Lzc.cnt (lzcBInput i)) * 2 ^ s = 2 ^ (w - shiftA i) := by
        rw [← pow_add, show w - Lzc.cnt (lzcBInput i) + s = w - shiftA i by omega]
      have htop : 2 ^ (w - shiftA i) ≤ 2 ^ w := Nat.pow_le_pow_right (by omega) (by omega)
      refine ⟨?_, ?_, fun hn => ?_⟩
      · refine hA.trans_le ((le_of_eq ?_).trans (Nat.mul_le_mul_right _ hlo))
        rw [← pow_add, show w - 1 - Lzc.cnt (lzcBInput i) + (s + 1) = w - shiftA i by omega]
      · exact (Nat.mul_le_mul_right _ hhi).trans (hmul.le.trans htop)
      · exact (Nat.mul_lt_mul_of_pos_right (hpos hn) (Nat.two_pow_pos s)).trans_le (hmul.le.trans htop)

end Align

end Serdiv
end Culsans.Core
