import Culsans.Core.CompressedDecoder
import Culsans.Frontend.InstrQueue

/-! # Resolution of control flow (`branch_unit`, with the comparisons of `alu`)

The branch unit compares what has been predicted for an instruction with what it does. A jump to an
immediate is never compared: that it goes where the front end has gone is up to the front end.
-/

namespace Culsans.Frontend
open Culsans.Core

/-- `fu_data_t`, as far as the branch unit uses it. -/
structure FuData where
  operation : BranchOp
  operandA : BitVec 64
  operandB : BitVec 64
  imm : BitVec 64

/-- `branchpredict_sbe_t` -/
structure BranchPredict where
  cf : Cf
  predictAddress : BitVec 64

/-- `bp_resolve_t` -/
structure BpResolve where
  valid : Bool
  pc : BitVec 64
  targetAddress : BitVec 64
  isMispredict : Bool
  isTaken : Bool
  cfType : Cf
deriving DecidableEq

/-- `op_is_branch` -/
def opIsBranch : BranchOp → Bool
  | .eq | .ne | .lts | .ges | .ltu | .geu => true
  | .add | .jalr => false

namespace Alu
variable (d : FuData)

/-- `adder_result`; the lowest bit takes the carry of a subtraction. -/
def adderResult (negate : Bool) : BitVec 64 :=
  let adderInA : BitVec 65 := d.operandA ++ 1#1
  let adderInB : BitVec 65 := (d.operandB ++ 0#1) ^^^ if negate then BitVec.allOnes 65 else 0
  (adderInA + adderInB).extractLsb' 1 64

/-- `adder_z_flag` for EQ and NE -/
def adderZFlag : Bool := adderResult d true == 0

/-- `less`; `sgn` is set for LTS and GES. -/
def less : Bool :=
  let sgn := d.operation == .lts || d.operation == .ges
  let a : BitVec 65 := BitVec.ofBool (sgn && d.operandA.getLsbD 63) ++ d.operandA
  let b : BitVec 65 := BitVec.ofBool (sgn && d.operandB.getLsbD 63) ++ d.operandB
  a.slt b

/-- `alu_branch_res_o` -/
def aluBranchRes : Bool :=
  match d.operation with
  | .eq => adderZFlag d
  | .ne => !adderZFlag d
  | .lts | .ltu => less d
  | .ges | .geu => !less d
  | .add | .jalr => true

end Alu

namespace BranchUnit
variable (d : FuData) (pc : BitVec 64) (isCompressedInstr branchValid branchCompRes : Bool) (bp : BranchPredict)

/-- `next_pc`, which is also `branch_result_o` -/
def nextPc : BitVec 64 := pc + if isCompressedInstr then 2 else 4

/-- `target_address`; bit 0 is cleared for a JALR. -/
def targetAddress : BitVec 64 :=
  let jumpBase := if d.operation = .jalr then d.operandA else pc
  let target := jumpBase + d.imm
  if d.operation = .jalr then target &&& ~~~1 else target

/-- `is_mispredict` of a valid instruction -/
def mispredict : Bool :=
  let branch := opIsBranch d.operation && branchCompRes != (bp.cf == .branch)
  let jalr := d.operation == .jalr && (bp.cf == .noCF || targetAddress d pc != bp.predictAddress)
  branch || jalr

/-- `mispredict_handler` -/
def resolvedBranch : BpResolve where
  valid := branchValid
  pc := pc
  targetAddress :=
    if branchValid then if branchCompRes then targetAddress d pc else nextPc pc isCompressedInstr else 0
  isMispredict := branchValid && mispredict d pc branchCompRes bp
  isTaken := branchValid && branchCompRes
  cfType :=
    if branchValid && (d.operation == .jalr && (bp.cf == .noCF || targetAddress d pc != bp.predictAddress) &&
      bp.cf != .ret) then
      .jumpR
    else if branchValid && opIsBranch d.operation then .branch
    else bp.cf

end BranchUnit

/-! ### What the instructions mean -/

/-- The condition of a branch; jumps are taken. -/
def takes (op : BranchOp) (a b : BitVec 64) : Bool :=
  match op with
  | .eq => a == b
  | .ne => a != b
  | .lts => a.slt b
  | .ges => !a.slt b
  | .ltu => a.ult b
  | .geu => !a.ult b
  | .add | .jalr => true

/-- Where an instruction jumps to. -/
def target (op : BranchOp) (pc a imm : BitVec 64) : BitVec 64 := if op = .jalr then (a + imm) &&& ~~~1 else pc + imm

/-- The address after an instruction with these operands. -/
def successor (f : Flow) (pc len a b : BitVec 64) : BitVec 64 :=
  match f with
  | .ctrl op imm => if takes op a b then target op pc a imm else pc + len
  | .plain | .trap => pc + len

/-! ### The branch unit decides as the instructions mean -/

/-- The sum without its lowest bit is the difference. -/
theorem adderResult_sub (d : FuData) : Alu.adderResult d true = d.operandA - d.operandB := by
  have hb : (d.operandB ++ 0#1) ^^^ BitVec.allOnes 65 = ~~~(d.operandB ++ 0#1) := BitVec.xor_allOnes
  have hbit (v : BitVec 64) (c : BitVec 1) : (v ++ c).toNat = v.toNat * 2 + c.toNat := by
    rw [BitVec.toNat_append, ← Nat.shiftLeft_add_eq_or_of_lt c.isLt, Nat.shiftLeft_eq, pow_one]
  have ha' := d.operandA.isLt
  have hb' := d.operandB.isLt
  apply BitVec.eq_of_toNat_eq
  simp only [Alu.adderResult, if_true, hb, BitVec.extractLsb'_toNat, BitVec.toNat_add, BitVec.toNat_not, hbit,
    BitVec.toNat_sub, Nat.shiftRight_eq_div_pow, BitVec.toNat_ofNat]
  omega

theorem adderZFlag_eq (d : FuData) : Alu.adderZFlag d = (d.operandA == d.operandB) := by
  rw [Alu.adderZFlag, adderResult_sub, Bool.eq_iff_iff, beq_iff_eq, beq_iff_eq]
  exact sub_eq_zero

theorem toInt_ofBool_append (b : Bool) (v : BitVec 64) :
    (BitVec.ofBool b ++ v).toInt = (v.toNat : Int) - if b then 2 ^ 64 else 0 := by
  have hv := v.isLt
  rw [BitVec.toInt_eq_toNat_cond, BitVec.toNat_append, ← Nat.shiftLeft_add_eq_or_of_lt hv, Nat.shiftLeft_eq]
  cases b <;> simp
  · omega
  · omega

theorem less_signed (d : FuData) (h : d.operation = .lts ∨ d.operation = .ges) :
    Alu.less d = d.operandA.slt d.operandB := by
  have hs : (d.operation == .lts || d.operation == .ges) = true := by simpa using h
  have hi (v : BitVec 64) : (BitVec.ofBool (true && v.getLsbD 63) ++ v).toInt = v.toInt := by
    rw [toInt_ofBool_append, Bool.true_and, BitVec.toInt_eq_msb_cond, BitVec.msb_eq_getLsbD_last]
    split_ifs <;> simp
  simp only [Alu.less, hs, BitVec.slt, hi]

theorem less_unsigned (d : FuData) (h : d.operation = .ltu ∨ d.operation = .geu) :
    Alu.less d = d.operandA.ult d.operandB := by
  have hs : (d.operation == .lts || d.operation == .ges) = false := by
    rcases h with h | h <;> rw [h] <;> rfl
  have hi (v : BitVec 64) : (BitVec.ofBool (false && v.getLsbD 63) ++ v).toInt = v.toNat := by
    rw [toInt_ofBool_append, Bool.false_and, if_neg Bool.false_ne_true, sub_zero]
  simp only [Alu.less, hs, BitVec.slt, hi, BitVec.ult, Nat.cast_lt]

theorem aluBranchRes_eq (d : FuData) : Alu.aluBranchRes d = takes d.operation d.operandA d.operandB := by
  cases h : d.operation <;> simp only [Alu.aluBranchRes, takes, h]
  case eq => exact adderZFlag_eq d
  case ne => rw [adderZFlag_eq, bne]
  case lts => exact less_signed d (.inl h)
  case ges => rw [less_signed d (.inr h)]
  case ltu => exact less_unsigned d (.inl h)
  case geu => rw [less_unsigned d (.inr h)]

end Culsans.Frontend
