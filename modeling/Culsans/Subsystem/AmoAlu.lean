import Culsans.Subsystem.AmoLanes

/-! # The arithmetic of the memory side (`axi_riscv_amos`, `axi_riscv_amos_alu`)

The operands are cut to the strobed lanes and combined at the full width of a word. On these lanes
the result is that of the atomic on operands of the size of the transfer, so what is written to memory
is what the instruction means. This is the case of 64-bit data and 64-bit cores.
-/

namespace Culsans.Subsystem
open Dcache Culsans.Core Library

/-- The code of an operation on AWATOP; bit 3 is ATOP_LITTLE_END. -/
def code : Atop → BitVec 6
  | .none => 0b000000
  | .swap => 0b110000
  | .add => 0b100000
  | .clr => 0b100001
  | .eor => 0b100010
  | .set => 0b100011
  | .smax => 0b100100
  | .smin => 0b100101
  | .umax => 0b100110
  | .umin => 0b100111

namespace AmoAlu

/-- `adder_sum[DATA_WIDTH]` of a signed difference -/
def signedLess (a b : BitVec 64) : Bool := (a.signExtend 65 + -(b.signExtend 65)).getLsbD 64

/-- `adder_sum[DATA_WIDTH]` of an unsigned difference -/
def unsignedLess (a b : BitVec 64) : Bool := (a.setWidth 65 + -(b.setWidth 65)).getLsbD 64

/-- `amo_result_o` -/
def amoResult (op : BitVec 6) (a b : BitVec 64) : BitVec 64 :=
  if op = 0b110000 then b
  else if op.extractLsb' 4 2 = 0b10 || op.extractLsb' 4 2 = 0b01 then
    match (op.extractLsb' 0 3).toFin with
    | 0 => (a.signExtend 65 + b.signExtend 65).setWidth 64
    | 1 => a &&& ~~~b
    | 2 => a ^^^ b
    | 3 => a ||| b
    | 4 => if signedLess a b then b else a
    | 5 => if signedLess a b then a else b
    | 6 => if unsignedLess a b then b else a
    | 7 => if unsignedLess a b then a else b
  else a

def strbExt (strb : WordBe) : BitVec 64 := (ofBytes fun k => if strb k then 0xff else 0 : BitVec (8 * 8))

/-- `op_a` and `op_b` -/
def operand (strb : WordBe) (data : BitVec 64) : BitVec 64 := data &&& strbExt strb

/-- `sign_a` and `sign_b`: the bits of an operand at the upper ends of the strobed lanes. -/
def sign (strb : WordBe) (data : BitVec 64) : Bool := operand strb data &&& ~~~(strbExt strb >>> 1) != 0

/-- `op_a_sign_ext` and `op_b_sign_ext` -/
def signExt (strb : WordBe) (data : BitVec 64) : BitVec 64 :=
  operand strb data ||| ((if sign strb data then BitVec.allOnes 64 else 0) &&& ~~~strbExt strb)

/-- `alu_operand_a` and `alu_operand_b` -/
def aluOperand (atop : BitVec 6) (strb : WordBe) (data : BitVec 64) : BitVec 64 :=
  if atop.extractLsb' 0 3 = 0b100 || atop.extractLsb' 0 3 = 0b101 then signExt strb data else operand strb data

/-- `alu_result_ext`, from `r_data_q` and `w_data_q` -/
def aluResultExt (atop : BitVec 6) (strb : WordBe) (rData wData : BitVec 64) : BitVec 64 :=
  amoResult atop (aluOperand atop strb rData) (aluOperand atop strb wData)

/-! ### The operations -/

theorem signedLess_eq (a b : BitVec 64) : signedLess a b = a.slt b := by
  have ha := a.toInt_lt
  have ha' := a.le_toInt
  have hb := b.toInt_lt
  have hb' := b.le_toInt
  have hsum : (a.signExtend 65 - b.signExtend 65).toInt = a.toInt - b.toInt := by
    rw [BitVec.toInt_sub, BitVec.toInt_signExtend_of_le (by decide), BitVec.toInt_signExtend_of_le (by decide)]
    apply Int.bmod_eq_of_le <;> omega
  have hmsb : signedLess a b = (a.signExtend 65 - b.signExtend 65).msb := by
    rw [signedLess, ← BitVec.sub_eq_add_neg, BitVec.msb_eq_getLsbD_last]
  rw [hmsb, BitVec.msb_eq_toInt, hsum, BitVec.slt, decide_eq_decide]
  omega

theorem unsignedLess_eq (a b : BitVec 64) : unsignedLess a b = a.ult b := by
  have ha := a.isLt
  have hb := b.isLt
  have hsum : (a.setWidth 65 - b.setWidth 65).toNat = (2 ^ 65 - b.toNat + a.toNat) % 2 ^ 65 := by
    have ha' : a.toNat < 2 ^ 65 := by omega
    have hb' : b.toNat < 2 ^ 65 := by omega
    rw [BitVec.toNat_sub, BitVec.toNat_setWidth, BitVec.toNat_setWidth, Nat.mod_eq_of_lt ha', Nat.mod_eq_of_lt hb']
  have hmsb : unsignedLess a b = (a.setWidth 65 - b.setWidth 65).msb := by
    rw [unsignedLess, ← BitVec.sub_eq_add_neg, BitVec.msb_eq_getLsbD_last]
  rw [hmsb, BitVec.msb_eq_decide, hsum, BitVec.ult, decide_eq_decide]
  omega

theorem amoResult_code {t : Atop} (ht : t ≠ .none) (a b : BitVec 64) : amoResult (code t) a b = axiAtomic t a b := by
  have hadd : (a.signExtend 65 + b.signExtend 65).setWidth 64 = a + b := by
    have hlow (x : BitVec 64) : (x.signExtend 65).setWidth 64 = x := by
      apply BitVec.eq_of_getLsbD_eq
      intro j hj
      simp only [BitVec.getLsbD_setWidth, BitVec.getLsbD_signExtend, hj, decide_true, if_true, Bool.true_and,
        Bool.and_eq_right_iff_imp, decide_eq_true_eq]
      omega
    rw [BitVec.setWidth_add _ _ (by decide), hlow, hlow]
  cases t with
  | none => exact absurd rfl ht
  | add => exact hadd
  | swap | clr | set | eor => rfl
  | smax => exact congrArg (fun x : Bool => if x then b else a) (signedLess_eq a b)
  | smin => exact congrArg (fun x : Bool => if x then a else b) (signedLess_eq a b)
  | umax => exact congrArg (fun x : Bool => if x then b else a) (unsignedLess_eq a b)
  | umin => exact congrArg (fun x : Bool => if x then a else b) (unsignedLess_eq a b)

/-! ### The lanes of a word -/

/-- The strobes of one half. -/
def halfBe (u : Bool) : WordBe := fun k => decide (4 * u.toNat ≤ k.val ∧ k.val < 4 * u.toNat + 4)

/-- A half in its lanes, with zeros in the others. -/
def place (u : Bool) (x : BitVec 32) : BitVec 64 := if u then x ++ 0#32 else 0#32 ++ x

/-- A half in its lanes, with its sign in the others. -/
def placeSigned (u : Bool) (x : BitVec 32) : BitVec 64 :=
  if u then x ++ (if x.msb then BitVec.allOnes 32 else 0) else x.signExtend 64

theorem strbExt_half (u : Bool) : strbExt (halfBe u) = place u (BitVec.allOnes 32) := by
  cases u <;> decide

theorem strbExt_all : strbExt (fun _ => true) = BitVec.allOnes 64 := by
  decide

theorem getLsbD_place (u : Bool) (x : BitVec 32) (j : ℕ) :
    (place u x).getLsbD j = (decide (32 * u.toNat ≤ j) && x.getLsbD (j - 32 * u.toNat)) := by
  cases u <;> simp only [place, Bool.false_eq_true, if_false, if_true, BitVec.getLsbD_append, Bool.toNat_false,
    Bool.toNat_true]
  · split_ifs with h
    · simp
    · simp [BitVec.getLsbD_of_ge x j (by omega)]
  · split_ifs with h
    · simp [show ¬ 32 ≤ j by omega]
    · simp [show 32 ≤ j by omega]

theorem operand_half (u : Bool) (data : BitVec 64) : operand (halfBe u) data = place u (FuOp.half u data) := by
  rw [operand, strbExt_half]
  apply BitVec.eq_of_getLsbD_eq
  intro j hj
  rw [BitVec.getLsbD_and, getLsbD_place, getLsbD_place, BitVec.getLsbD_allOnes]
  by_cases hl : 32 * u.toNat ≤ j ∧ j - 32 * u.toNat < 32
  · rw [getLsbD_half _ _ hl.2, Nat.add_sub_cancel' hl.1]
    simp [hl]
  · have hout : (decide (32 * u.toNat ≤ j) && decide (j - 32 * u.toNat < 32)) = false := by simpa using hl
    rw [hout, Bool.and_false]
    by_cases hj' : 32 * u.toNat ≤ j
    · rw [BitVec.getLsbD_of_ge _ _ (Nat.le_of_not_lt fun h => hl ⟨hj', h⟩), Bool.and_false]
    · simp [hj']

theorem half_place (u : Bool) (x : BitVec 32) : FuOp.half u (place u x) = x := by
  apply BitVec.eq_of_getLsbD_eq
  intro j hj
  rw [getLsbD_half _ _ hj, getLsbD_place]
  simp

/-- The upper end of a half. -/
theorem sign_half (u : Bool) (data : BitVec 64) : sign (halfBe u) data = (FuOp.half u data).msb := by
  have hbit (j : ℕ) (hj : j < 64) : (operand (halfBe u) data &&& ~~~(strbExt (halfBe u) >>> 1)).getLsbD j =
      (decide (j = 32 * u.toNat + 31) && (FuOp.half u data).msb) := by
    rw [operand_half, strbExt_half, BitVec.getLsbD_and, BitVec.getLsbD_not, BitVec.getLsbD_ushiftRight, getLsbD_place,
      getLsbD_place, BitVec.getLsbD_allOnes, BitVec.msb_eq_getLsbD_last]
    have hu := u.toNat_le
    by_cases h : j = 32 * u.toNat + 31
    · subst h
      simp [hj, show ¬ (1 + (32 * u.toNat + 31) - 32 * u.toNat < 32) by omega]
    · by_cases hl : 32 * u.toNat ≤ j ∧ j < 32 * u.toNat + 31
      · simp [h, show 32 * u.toNat ≤ 1 + j by omega, show 1 + j - 32 * u.toNat < 32 by omega]
      · rw [decide_eq_false h, Bool.false_and]
        by_cases hj' : 32 * u.toNat ≤ j
        · rw [BitVec.getLsbD_of_ge _ _ (by omega)]
          simp
        · simp [hj']
  rw [sign]
  cases hm : (FuOp.half u data).msb with
  | false =>
    have hz : operand (halfBe u) data &&& ~~~(strbExt (halfBe u) >>> 1) = 0 := by
      apply BitVec.eq_of_getLsbD_eq
      intro j hj
      rw [hbit j hj, hm]
      simp
    rw [hz]
    rfl
  | true =>
    rw [bne_iff_ne]
    intro hz
    have h := hbit (32 * u.toNat + 31) (by have := u.toNat_le; omega)
    rw [hz, hm] at h
    simp at h

theorem signExt_half (u : Bool) (data : BitVec 64) : signExt (halfBe u) data = placeSigned u (FuOp.half u data) := by
  rw [signExt, sign_half, operand_half, strbExt_half]
  apply BitVec.eq_of_getLsbD_eq
  intro j hj
  have hfill : (if (FuOp.half u data).msb then BitVec.allOnes 64 else 0).getLsbD j = (FuOp.half u data).msb := by
    cases (FuOp.half u data).msb with
    | false => simp
    | true => rw [if_pos rfl, BitVec.getLsbD_allOnes, decide_eq_true hj]
  rw [BitVec.getLsbD_or, BitVec.getLsbD_and, BitVec.getLsbD_not, hfill, getLsbD_place, getLsbD_place,
    BitVec.getLsbD_allOnes]
  cases u with
  | false =>
    rw [placeSigned, if_neg (by decide), BitVec.getLsbD_signExtend]
    by_cases h : j < 32
    · simp [hj, h]
    · simp [hj, h, BitVec.getLsbD_of_ge (FuOp.half false data) j (by omega)]
  | true =>
    rw [placeSigned, if_pos rfl, BitVec.getLsbD_append]
    by_cases h : j < 32
    · have h32 : ¬ 32 ≤ j := by omega
      cases (FuOp.half true data).msb with
      | false => simp [h, h32]
      | true => rw [if_pos rfl, BitVec.getLsbD_allOnes]; simp [hj, h, h32]
    · have h32 : 32 ≤ j := by omega
      have hlt : j - 32 < 32 := by omega
      simp [h, h32, hlt]

theorem aluOperand_half (atop : BitVec 6) (u : Bool) (data : BitVec 64) : aluOperand atop (halfBe u) data =
    if atop.extractLsb' 0 3 = 0b100 || atop.extractLsb' 0 3 = 0b101 then placeSigned u (FuOp.half u data)
    else place u (FuOp.half u data) := by
  rw [aluOperand, signExt_half, operand_half]

/-! ### Operations on a half -/

theorem toNat_place (u : Bool) (x : BitVec 32) : (place u x).toNat = x.toNat * 2 ^ (32 * u.toNat) := by
  cases u with
  | false =>
    have h : (place false x).toNat = 0 <<< 32 ||| x.toNat := BitVec.toNat_append 0#32 x
    rw [h]
    simp
  | true =>
    have h : (place true x).toNat = x.toNat <<< 32 ||| 0 := BitVec.toNat_append x 0#32
    rw [h, Nat.or_zero, Nat.shiftLeft_eq]
    rfl

theorem half_toNat (u : Bool) (v : BitVec 64) : (FuOp.half u v).toNat = v.toNat / 2 ^ (32 * u.toNat) % 2 ^ 32 := by
  cases u <;> simp [FuOp.half, BitVec.extractLsb'_toNat, Nat.shiftRight_eq_div_pow]

theorem half_add (u : Bool) (x y : BitVec 32) : FuOp.half u (place u x + place u y) = x + y := by
  apply BitVec.eq_of_toNat_eq
  rw [half_toNat, BitVec.toNat_add, toNat_place, toNat_place, BitVec.toNat_add]
  have hx := x.isLt
  have hy := y.isLt
  cases u
  · simp
  · simp
    omega

theorem ult_place (u : Bool) (x y : BitVec 32) : (place u x).ult (place u y) = x.ult y := by
  simp only [BitVec.ult, toNat_place]
  rw [decide_eq_decide]
  cases u <;> simp

theorem toInt_placeSigned (u : Bool) (x : BitVec 32) : (placeSigned u x).toInt =
    if u then x.toInt * 2 ^ 32 + (if x.msb then 2 ^ 32 - 1 else 0) else x.toInt := by
  cases u with
  | false => exact BitVec.toInt_signExtend_of_le (by decide)
  | true =>
    have hf : (if x.msb then BitVec.allOnes 32 else 0 : BitVec 32).toNat = if x.msb then 2 ^ 32 - 1 else 0 := by
      cases x.msb <;> rfl
    have h : (placeSigned true x).toNat = x.toNat * 2 ^ 32 + if x.msb then 2 ^ 32 - 1 else 0 := by
      have ha : (placeSigned true x).toNat = x.toNat <<< 32 |||
        (if x.msb then BitVec.allOnes 32 else 0 : BitVec 32).toNat :=
        BitVec.toNat_append _ _
      rw [ha, ← Nat.shiftLeft_add_eq_or_of_lt (BitVec.isLt _), hf, Nat.shiftLeft_eq]
    have hx := x.isLt
    rw [if_pos rfl, BitVec.toInt_eq_toNat_cond, BitVec.toInt_eq_toNat_cond, h, BitVec.msb_eq_decide]
    simp only [decide_eq_true_eq]
    split_ifs <;> omega

theorem slt_placeSigned (u : Bool) (x y : BitVec 32) : (placeSigned u x).slt (placeSigned u y) = x.slt y := by
  simp only [BitVec.slt, toInt_placeSigned, BitVec.msb_eq_toInt, decide_eq_true_eq]
  rw [decide_eq_decide]
  cases u with
  | false => rfl
  | true => split_ifs <;> simp at * <;> omega

theorem half_placeSigned (u : Bool) (x : BitVec 32) : FuOp.half u (placeSigned u x) = x := by
  apply BitVec.eq_of_getLsbD_eq
  intro j hj
  rw [getLsbD_half _ _ hj]
  cases u with
  | false =>
    rw [placeSigned, if_neg (by decide), BitVec.getLsbD_signExtend, Bool.toNat_false]
    simp [hj, show j < 64 by omega]
  | true =>
    rw [placeSigned, if_pos rfl, BitVec.getLsbD_append, Bool.toNat_true, if_neg (by omega)]
    simp

theorem half_ite (u b : Bool) (v w : BitVec 64) :
    FuOp.half u (if b then v else w) = if b then FuOp.half u v else FuOp.half u w := by
  cases b <;> rfl

/-- Bits of a half of a bitwise operation. -/
theorem half_bits {f : Bool → Bool → Bool} {g : BitVec 64 → BitVec 64 → BitVec 64}
    {h : BitVec 32 → BitVec 32 → BitVec 32} (hg : ∀ v w j, j < 64 → (g v w).getLsbD j = f (v.getLsbD j) (w.getLsbD j))
    (hh : ∀ v w j, j < 32 → (h v w).getLsbD j = f (v.getLsbD j) (w.getLsbD j)) (u : Bool) (v w : BitVec 64) :
    FuOp.half u (g v w) = h (FuOp.half u v) (FuOp.half u w) := by
  apply BitVec.eq_of_getLsbD_eq
  intro j hj
  have hlt : 32 * u.toNat + j < 64 := by
    have hu := u.toNat_le
    omega
  rw [getLsbD_half _ _ hj, hg _ _ _ hlt, hh _ _ _ hj, getLsbD_half _ _ hj, getLsbD_half _ _ hj]

theorem half_clr (u : Bool) (v w : BitVec 64) : FuOp.half u (v &&& ~~~w) = FuOp.half u v &&& ~~~FuOp.half u w := by
  apply half_bits (f := fun a b => a && !b) (g := fun v w => v &&& ~~~w) (h := fun v w => v &&& ~~~w)
  · intro v w j hj
    simp [hj]
  · intro v w j hj
    simp [hj]

theorem half_xor (u : Bool) (v w : BitVec 64) : FuOp.half u (v ^^^ w) = FuOp.half u v ^^^ FuOp.half u w :=
  half_bits (f := Bool.xor) (fun _ _ _ _ => BitVec.getLsbD_xor) (fun _ _ _ _ => BitVec.getLsbD_xor) u v w

theorem half_or (u : Bool) (v w : BitVec 64) : FuOp.half u (v ||| w) = FuOp.half u v ||| FuOp.half u w :=
  half_bits (f := Bool.or) (fun _ _ _ _ => BitVec.getLsbD_or) (fun _ _ _ _ => BitVec.getLsbD_or) u v w

/-- The operation on the operands of a half is that on the half. -/
theorem half_amoResult {t : Atop} (ht : t ≠ .none) (u : Bool) (x y : BitVec 64) :
    FuOp.half u (aluResultExt (code t) (halfBe u) x y) = axiAtomic t (FuOp.half u x) (FuOp.half u y) := by
  rw [aluResultExt, amoResult_code ht]
  cases t with
  | none => exact absurd rfl ht
  | swap =>
    rw [aluOperand_half, if_neg (by decide), aluOperand_half, if_neg (by decide)]
    exact half_place u _
  | add =>
    rw [aluOperand_half, if_neg (by decide), aluOperand_half, if_neg (by decide)]
    exact half_add u _ _
  | clr =>
    rw [aluOperand_half, if_neg (by decide), aluOperand_half, if_neg (by decide)]
    refine (half_clr u _ _).trans ?_
    rw [half_place, half_place]
    rfl
  | eor =>
    rw [aluOperand_half, if_neg (by decide), aluOperand_half, if_neg (by decide)]
    refine (half_xor u _ _).trans ?_
    rw [half_place, half_place]
    rfl
  | set =>
    rw [aluOperand_half, if_neg (by decide), aluOperand_half, if_neg (by decide)]
    refine (half_or u _ _).trans ?_
    rw [half_place, half_place]
    rfl
  | smax =>
    rw [aluOperand_half, if_pos (by decide), aluOperand_half, if_pos (by decide)]
    refine (half_ite u _ _ _).trans ?_
    rw [slt_placeSigned, half_placeSigned, half_placeSigned]
    rfl
  | smin =>
    rw [aluOperand_half, if_pos (by decide), aluOperand_half, if_pos (by decide)]
    refine (half_ite u _ _ _).trans ?_
    rw [slt_placeSigned, half_placeSigned, half_placeSigned]
    rfl
  | umax =>
    rw [aluOperand_half, if_neg (by decide), aluOperand_half, if_neg (by decide)]
    refine (half_ite u _ _ _).trans ?_
    rw [ult_place, half_place, half_place]
    rfl
  | umin =>
    rw [aluOperand_half, if_neg (by decide), aluOperand_half, if_neg (by decide)]
    refine (half_ite u _ _ _).trans ?_
    rw [ult_place, half_place, half_place]
    rfl

/-- With all the lanes strobed the operands are the words. -/
theorem aluResultExt_all {t : Atop} (ht : t ≠ .none) (x y : BitVec 64) :
    aluResultExt (code t) (fun _ => true) x y = axiAtomic t x y := by
  have hop (x : BitVec 64) : operand (fun _ => true) x = x := by
    rw [operand, strbExt_all, BitVec.and_allOnes]
  have hsign (x : BitVec 64) : signExt (fun _ => true) x = x := by
    rw [signExt, hop, strbExt_all, BitVec.not_allOnes]
    simp
  have halu (x : BitVec 64) : aluOperand (code t) (fun _ => true) x = x := by
    rw [aluOperand, hop, hsign, ite_self]
  rw [aluResultExt, amoResult_code ht, halu, halu]

end AmoAlu

/-! ### The word left in memory -/

section Request
variable {c : Cfg} {q : MissHandler} {op : FuOp} {p : PAddr} {rs2 old : BitVec 64}

/-- What the memory side writes is the atomic on the lanes of the transfer: a half. -/
theorem aluResult_word {t : Atop} (ht : t ≠ .none) {addr : Offset} {u : Bool} (hb : firstLane addr 4 = 4 * u.toNat)
    (wdata : Word) (k : Fin 8) (hk : AmoAlu.halfBe u k = true) :
    toBytes (AmoAlu.aluResultExt (code t) (AmoAlu.halfBe u) old (ofBytes wdata) : BitVec (8 * 8)) k =
      onLanes t addr 2 (toBytes (old : BitVec (8 * 8))) wdata k := by
  have hin : 4 * u.toNat ≤ k.val ∧ k.val < 4 * u.toNat + 4 := of_decide_eq_true hk
  have hdata : ofBytes (lanes wdata (4 * u.toNat) 4) = FuOp.half u (ofBytes wdata) := by
    rw [← ofBytes_lanes_half, toBytes_ofBytes]
  rw [onLanes_word _ hb, dif_pos hin, ofBytes_lanes_half, hdata, ← AmoAlu.half_amoResult ht]
  conv_lhs => rw [← setHalf_half (AmoAlu.aluResultExt (code t) (AmoAlu.halfBe u) old (ofBytes wdata)) u]
  rw [toBytes_setHalf, dif_pos hin]

/-- `alu_result_ext` on the strobed lanes; the others keep what memory holds. -/
def writeBack (atop : BitVec 6) (strb : WordBe) (old : BitVec 64) (wdata : Word) : Word := fun k =>
  if strb k then toBytes (AmoAlu.aluResultExt atop strb old (ofBytes wdata) : BitVec (8 * 8)) k
  else toBytes (old : BitVec (8 * 8)) k

/-- On the request of the miss handler this is the operation of the transfer. -/
theorem writeBack_request (hq : q.state = .amoReq) (hop : op.isAmo = true) (ht : atopFromAmo op.amoOpD ≠ .none)
    (hal : Aligned op p) (k : Fin 8) :
    writeBack (code (atopFromAmo op.amoOpD)) (q.amoBypassReq c (amoReqO op p rs2)).be old
        (q.amoBypassReq c (amoReqO op p rs2)).wdata k =
      if (q.amoBypassReq c (amoReqO op p rs2)).be k then
        onLanes (atopFromAmo op.amoOpD) p.offset op.extractTransferSize (toBytes (old : BitVec (8 * 8)))
          (q.amoBypassReq c (amoReqO op p rs2)).wdata k
      else toBytes (old : BitVec (8 * 8)) k := by
  cases hw : op.isWord with
  | true =>
    have hbe : (q.amoBypassReq c (amoReqO op p rs2)).be = AmoAlu.halfBe (upper p) := by
      funext k
      exact (request_word hq hop hw hal).1 k
    rw [writeBack, hbe, size_word hw]
    split_ifs with h
    · exact aluResult_word ht (firstLane_word p) _ k h
    · rfl
  | false =>
    rw [writeBack, (request_double hq hop hw).1, if_pos rfl, if_pos rfl, size_double hop hw, onLanes_double,
      AmoAlu.aluResultExt_all ht, ofBytes_toBytes]

/-- The adapter computes every AMO as the instruction means it: its ALU, on the lanes the miss handler strobes and
the operand it places there, leaves in memory what the instruction leaves. -/
theorem amo_alu_memory (hq : q.state = .amoReq) (hop : op.isAmo = true) (hlr : op.isLr = false) (hsc : op.isSc = false)
    (hal : Aligned op p) :
    writeBack (code (atopFromAmo op.amoOpD)) (q.amoBypassReq c (amoReqO op p rs2)).be old
        (q.amoBypassReq c (amoReqO op p rs2)).wdata =
      toBytes (op.memory (upper p) true old rs2 : BitVec (8 * 8)) := by
  have ht : atopFromAmo op.amoOpD ≠ .none := by
    revert hop hlr hsc
    cases op <;> decide
  funext k
  rw [writeBack_request hq hop ht hal, onLanes_request hq hop hlr hal]
  simp only [FuOp.memory, FuOp.stored, hlr, hsc, Bool.false_and, Bool.false_eq_true, if_false]

end Request

/-- A signed minimum on the upper half: the negative word stays, the lower half is not touched. -/
theorem amo_alu_memory_upperMin :
    writeBack 0b100101 (AmoAlu.halfBe true) 0x8000000011111111
        (toBytes (0x0000000500000000 : BitVec (8 * 8))) = toBytes (0x8000000011111111 : BitVec (8 * 8)) ∧
    writeBack 0b100101 (AmoAlu.halfBe true) 0x0000000911111111
        (toBytes (0x0000000500000000 : BitVec (8 * 8))) = toBytes (0x0000000511111111 : BitVec (8 * 8)) := by
  let c : Cfg := ⟨fun _ => false, fun _ => false⟩
  let q : MissHandler := { MissHandler.reset with state := .amoReq }
  let p : PAddr := ⟨0, 0, 4⟩
  have hal : Aligned .amoMinw p := show p.offset.toNat % 2 ^ FuOp.amoMinw.extractTransferSize.toNat = 0 by decide
  have hbe : (q.amoBypassReq c (amoReqO .amoMinw p 5)).be = AmoAlu.halfBe true := by
    funext k
    revert k
    decide
  have hwd : (q.amoBypassReq c (amoReqO .amoMinw p 5)).wdata = toBytes (0x0000000500000000 : BitVec (8 * 8)) := by
    funext k
    revert k
    decide
  constructor
  · have h := @amo_alu_memory c q .amoMinw p 5 0x8000000011111111
      rfl rfl rfl rfl hal
    have hm : FuOp.amoMinw.memory (upper p) true 0x8000000011111111 5 = 0x8000000011111111 := by decide
    rw [hbe, hwd, hm] at h
    exact h
  · have h := @amo_alu_memory c q .amoMinw p 5 0x0000000911111111
      rfl rfl rfl rfl hal
    have hm : FuOp.amoMinw.memory (upper p) true 0x0000000911111111 5 = 0x0000000511111111 := by decide
    rw [hbe, hwd, hm] at h
    exact h

end Culsans.Subsystem
