import Mathlib.Tactic.IntervalCases
import Culsans.Frontend.BranchUnit

/-! # Predecoding (`instr_scan`)

The front end looks for control flow before anything is decoded. What it finds is what the decoders
find later, with the same target for what is known without registers.
-/

namespace Culsans.Frontend
open Culsans.Core

/-- The outputs of `instr_scan`. -/
structure InstrScan where
  rviReturn : Bool
  rviCall : Bool
  rviBranch : Bool
  rviJalr : Bool
  rviJump : Bool
  rviImm : BitVec 64
  rvcBranch : Bool
  rvcJump : Bool
  rvcJr : Bool
  rvcReturn : Bool
  rvcJalr : Bool
  rvcCall : Bool
  rvcImm : BitVec 64

namespace Scan
variable (i : BitVec 32)

def isRvc : Bool := i.extractLsb' 0 2 != 0b11

/-- MRET or SRET -/
def isXret : Bool := i.extractLsb' 30 2 == 0b00 && i.extractLsb' 0 29 == 0b10000001000000000000001110011

/-- The registers that are used for return addresses. -/
def isLink (r : BitVec 5) : Bool := r == 1 || r == 5

def rviJalr : Bool := i.extractLsb' 0 7 == opcodeJalr

def rviJump : Bool := i.extractLsb' 0 7 == opcodeJal || isXret i

def rviBranch : Bool := i.extractLsb' 0 7 == opcodeBranch

def rviImm : BitVec 64 := if isXret i then 0 else if i.getLsbD 3 then immUj i else immSb i

def isJalR : Bool := i.extractLsb' 13 3 == 0b100 && i.extractLsb' 2 5 == 0 && i.extractLsb' 0 2 == 0b10 && isRvc i

def rvcJump : Bool := i.extractLsb' 13 3 == 0b101 && isRvc i && i.extractLsb' 0 2 == 0b01

def rvcJr : Bool := isJalR i && !i.getLsbD 12

def rvcJalr : Bool := isJalR i && i.getLsbD 12

def rvcBranch : Bool :=
  (i.extractLsb' 13 3 == 0b110 || i.extractLsb' 13 3 == 0b111) && i.extractLsb' 0 2 == 0b01 && isRvc i

def rvcImm : BitVec 64 :=
  if i.getLsbD 14 then
    (i.extractLsb' 12 1 ++ i.extractLsb' 5 2 ++ i.extractLsb' 2 1 ++ i.extractLsb' 10 2 ++ i.extractLsb' 3 2 ++ 0#1 :
      BitVec 9).signExtend 64
  else
    (i.extractLsb' 12 1 ++ i.extractLsb' 8 1 ++ i.extractLsb' 9 2 ++ i.extractLsb' 6 1 ++ i.extractLsb' 7 1 ++
      i.extractLsb' 2 1 ++ i.extractLsb' 11 1 ++ i.extractLsb' 3 3 ++ 0#1 : BitVec 12).signExtend 64

end Scan

open Scan in
/-- `instr_scan`, for 64 bits -/
def instrScan (i : BitVec 32) : InstrScan where
  rviReturn := rviJalr i && isLink (i.extractLsb' 15 5) && i.extractLsb' 15 5 != i.extractLsb' 7 5
  rviCall := (rviJalr i || rviJump i) && isLink (i.extractLsb' 7 5)
  rviBranch := rviBranch i
  rviJalr := rviJalr i
  rviJump := rviJump i
  rviImm := rviImm i
  rvcBranch := rvcBranch i
  rvcJump := rvcJump i
  rvcJr := rvcJr i
  rvcReturn := isLink (i.extractLsb' 7 5) && rvcJr i
  rvcJalr := rvcJalr i
  rvcCall := rvcJalr i
  rvcImm := rvcImm i

namespace InstrScan
variable (s : InstrScan)

/-- The conditions of `frontend` for a valid instruction. -/
def isBranch : Bool := s.rviBranch || s.rvcBranch
def isCall : Bool := s.rviCall || s.rvcCall
def isReturn : Bool := s.rviReturn || s.rvcReturn
def isJump : Bool := s.rviJump || s.rvcJump
def isJumpReg : Bool := s.rviJalr || s.rvcJalr || s.rvcJr

end InstrScan

/-- What the predecoder has found is what the instruction is. -/
def Scans (s : InstrScan) : Flow → Prop
  | .plain => s.isBranch = false ∧ s.isJump = false ∧ s.isJumpReg = false
  | .ctrl op imm => s.isBranch = opIsBranch op ∧ s.isJump = (op == .add) ∧ s.isJumpReg = (op == .jalr) ∧
      (s.rviBranch = true ∨ s.rviJump = true → s.rviImm = imm) ∧
        (s.rvcBranch = true ∨ s.rvcJump = true → s.rvcImm = imm)
  | .trap => True

variable {i : BitVec 32}

theorem isReturn_jumpReg (h : (instrScan i).isReturn = true) : (instrScan i).isJumpReg = true := by
  simp only [InstrScan.isReturn, InstrScan.isJumpReg, instrScan, Bool.or_eq_true, Bool.and_eq_true] at h ⊢
  rcases h with h | h
  · exact .inl (.inl h.1.1)
  · exact .inr h.2

/-! ### Instructions of 32 bits -/

theorem extractLsb_low {n : ℕ} (hn : 2 ≤ n) : (i.extractLsb' 0 n).extractLsb' 0 2 = i.extractLsb' 0 2 := by
  apply BitVec.eq_of_getLsbD_eq
  intro j hj
  rw [BitVec.getLsbD_extractLsb', BitVec.getLsbD_extractLsb', BitVec.getLsbD_extractLsb', decide_eq_true hj,
    decide_eq_true (by omega), Nat.zero_add]
  rfl

theorem getLsbD_opcode (i : BitVec 32) : (i.extractLsb' 0 7).getLsbD 3 = i.getLsbD 3 := by
  rw [BitVec.getLsbD_extractLsb']
  rfl

theorem isXret_iff : Scan.isXret i = true ↔ i = 0x10200073 ∨ i = 0x30200073 := by
  constructor
  · intro h
    have hi : i = i.extractLsb' 30 2 ++ i.extractLsb' 29 1 ++ i.extractLsb' 0 29 := by
      apply BitVec.eq_of_getLsbD_eq
      intro j hj
      rw [BitVec.getLsbD_append, BitVec.getLsbD_append]
      split_ifs with h0 h1
      · rw [BitVec.getLsbD_extractLsb', decide_eq_true h0, Bool.true_and, Nat.zero_add]
      · rw [BitVec.getLsbD_extractLsb', decide_eq_true h1, Bool.true_and]
        congr 1
        omega
      · rw [BitVec.getLsbD_extractLsb', decide_eq_true (by omega), Bool.true_and]
        congr 1
        omega
    rw [Scan.isXret, Bool.and_eq_true, beq_iff_eq, beq_iff_eq] at h
    have hbit : ∀ b : BitVec 1, b = 0 ∨ b = 1 := by decide
    rw [hi, h.1, h.2]
    rcases hbit (i.extractLsb' 29 1) with hb | hb
    · exact .inl (by rw [hb]; rfl)
    · exact .inr (by rw [hb]; rfl)
  · rintro (rfl | rfl) <;> decide

theorem decoderFlow_xret (h : Scan.isXret i = true) : decoderFlow i = .trap := by
  rcases isXret_iff.mp h with rfl | rfl <;> rfl

/-- The branches of the decoder: what is legal is a branch with its immediate. -/
theorem decoderFlow_branch (h : i.extractLsb' 0 7 = opcodeBranch) :
    decoderFlow i = .trap ∨ ∃ op, opIsBranch op = true ∧ decoderFlow i = .ctrl op (immSb i) := by
  rw [decoderFlow, if_pos h]
  generalize i.extractLsb' 12 3 = f
  have hall : ∀ f : BitVec 3, f = 0 ∨ f = 1 ∨ f = 2 ∨ f = 3 ∨ f = 4 ∨ f = 5 ∨ f = 6 ∨ f = 7 := by decide
  rcases hall f with rfl | rfl | rfl | rfl | rfl | rfl | rfl | rfl
  · exact .inr ⟨.eq, rfl, rfl⟩
  · exact .inr ⟨.ne, rfl, rfl⟩
  · exact .inl rfl
  · exact .inl rfl
  · exact .inr ⟨.lts, rfl, rfl⟩
  · exact .inr ⟨.ges, rfl, rfl⟩
  · exact .inr ⟨.ltu, rfl, rfl⟩
  · exact .inr ⟨.geu, rfl, rfl⟩

/-- Nothing compressed is found in an instruction of 32 bits. -/
theorem not_rvc (h : i.extractLsb' 0 2 = 3#2) : Scan.rvcBranch i = false ∧ Scan.rvcJump i = false ∧
    Scan.rvcJr i = false ∧ Scan.rvcJalr i = false := by
  have hc : Scan.isRvc i = false := by
    rw [Scan.isRvc, h]
    rfl
  simp [Scan.rvcBranch, Scan.rvcJump, Scan.rvcJr, Scan.rvcJalr, Scan.isJalR, hc]

theorem decoderFlow_jalr (h : i.extractLsb' 0 7 = opcodeJalr) :
    decoderFlow i = .trap ∨ ∃ imm, decoderFlow i = .ctrl .jalr imm := by
  rw [decoderFlow, if_neg (by rw [h]; decide), if_pos h]
  split_ifs
  · exact .inl rfl
  · exact .inr ⟨_, rfl⟩

theorem scans_full (h : i.extractLsb' 0 2 = 3#2) : Scans (instrScan i) (decoderFlow i) := by
  by_cases hx : Scan.isXret i = true
  · rw [decoderFlow_xret hx]
    trivial
  · obtain ⟨hb, hj, hr, hl⟩ := not_rvc h
    have hbit := getLsbD_opcode i
    have hne : opcodeBranch ≠ opcodeJal ∧ opcodeBranch ≠ opcodeJalr ∧ opcodeJalr ≠ opcodeJal := by decide
    by_cases h1 : i.extractLsb' 0 7 = opcodeBranch
    · rcases decoderFlow_branch h1 with ht | ⟨op, hop, hd⟩
      · rw [ht]
        trivial
      · have h3 : i.getLsbD 3 = false := by
          rw [← hbit, h1]
          rfl
        have hadd : (op == .add) = false ∧ (op == .jalr) = false := by cases op <;> simp_all [opIsBranch]
        rw [hd]
        simp [Scans, instrScan, InstrScan.isBranch, InstrScan.isJump, InstrScan.isJumpReg, Scan.rviBranch, Scan.rviJump,
          Scan.rviJalr, Scan.rviImm, hb, hj, hr, hl, hx, h1, h3, hop, hadd, hne, -BitVec.getLsbD_eq_getElem]
    · by_cases h2 : i.extractLsb' 0 7 = opcodeJalr
      · rw [decoderFlow, if_neg h1, if_pos h2]
        split_ifs
        · trivial
        · simp [Scans, instrScan, InstrScan.isBranch, InstrScan.isJump, InstrScan.isJumpReg, Scan.rviBranch,
            Scan.rviJump, Scan.rviJalr, hb, hj, hr, hl, hx, h2, hne, hne.2.1.symm, opIsBranch]
      · by_cases h3 : i.extractLsb' 0 7 = opcodeJal
        · have hb3 : i.getLsbD 3 = true := by
            rw [← hbit, h3]
            rfl
          rw [decoderFlow, if_neg h1, if_neg h2, if_pos h3]
          simp [Scans, instrScan, InstrScan.isBranch, InstrScan.isJump, InstrScan.isJumpReg, Scan.rviBranch,
            Scan.rviJump, Scan.rviJalr, Scan.rviImm, hb, hj, hr, hl, hx, h3, hb3, opIsBranch,
            -BitVec.getLsbD_eq_getElem]
          decide
        · rw [decoderFlow, if_neg h1, if_neg h2, if_neg h3]
          split_ifs
          · trivial
          · simp [Scans, instrScan, InstrScan.isBranch, InstrScan.isJump, InstrScan.isJumpReg, Scan.rviBranch,
              Scan.rviJump, Scan.rviJalr, hb, hj, hr, hl, hx, h1, h2, h3]

/-! ### Compressed instructions -/

/-- An expanded instruction that is not one of control flow. -/
theorem decoderFlow_append (v : BitVec 25) {o : BitVec 7}
    (ho : o ∉ [opcodeBranch, opcodeJalr, opcodeJal, opcodeSystem]) : decoderFlow (v ++ o) = .plain := by
  have hop : (v ++ o).extractLsb' 0 7 = o := BitVec.extractLsb'_append_eq_right
  simp only [List.mem_cons, List.not_mem_nil, or_false, not_or] at ho
  rw [decoderFlow, hop, if_neg ho.1, if_neg ho.2.1, if_neg ho.2.2.1, if_neg fun h => ho.2.2.2 h.1]

theorem signExtend_signExtend {w u : ℕ} (v : BitVec w) (hw : w ≤ u) (hu : u ≤ 64) :
    (v.signExtend u).signExtend 64 = v.signExtend 64 := by
  apply BitVec.eq_of_toInt_eq
  rw [BitVec.toInt_signExtend_of_le hu, BitVec.toInt_signExtend_of_le hw, BitVec.toInt_signExtend_of_le (hw.trans hu)]

/-- What c.j is expanded to. -/
def jumpWord (i : BitVec 32) : BitVec 32 :=
  i.extractLsb' 12 1 ++ i.extractLsb' 8 1 ++ i.extractLsb' 9 2 ++ i.extractLsb' 6 1 ++ i.extractLsb' 7 1 ++
    i.extractLsb' 2 1 ++ i.extractLsb' 11 1 ++ i.extractLsb' 3 3 ++ (i.extractLsb' 12 1).signExtend 9 ++ 0#4 ++
    ~~~i.extractLsb' 15 1 ++ opcodeJal

/-- What c.beqz and c.bnez are expanded to. -/
def branchWord (i : BitVec 32) : BitVec 32 :=
  (i.extractLsb' 12 1).signExtend 4 ++ i.extractLsb' 5 2 ++ i.extractLsb' 2 1 ++ 0#5 ++ 0b01#2 ++ i.extractLsb' 7 3 ++
    0b00#2 ++ i.extractLsb' 13 1 ++ i.extractLsb' 10 2 ++ i.extractLsb' 3 2 ++ i.extractLsb' 12 1 ++ opcodeBranch

/-- The target of a compressed jump is that of the jump it stands for. -/
theorem immUj_jump (h : i.getLsbD 14 = false) : immUj (jumpWord i) = Scan.rvcImm i := by
  rw [Scan.rvcImm, if_neg (Bool.eq_false_iff.mp h), immUj, jumpWord,
    ← signExtend_signExtend (w := 12) (u := 21) _ (by decide) (by decide)]
  congr 1
  apply BitVec.eq_of_getLsbD_eq
  intro j hj
  simp only [BitVec.getLsbD_append, BitVec.getLsbD_extractLsb', BitVec.getLsbD_signExtend, BitVec.msb_eq_getLsbD_last,
    BitVec.getLsbD_not]
  interval_cases j <;> simp

theorem immSb_branch (h : i.getLsbD 14 = true) : immSb (branchWord i) = Scan.rvcImm i := by
  rw [Scan.rvcImm, if_pos h, immSb, branchWord, ← signExtend_signExtend (w := 9) (u := 13) _ (by decide) (by decide)]
  congr 1
  apply BitVec.eq_of_getLsbD_eq
  intro j hj
  simp only [BitVec.getLsbD_append, BitVec.getLsbD_extractLsb', BitVec.getLsbD_signExtend, BitVec.msb_eq_getLsbD_last]
  interval_cases j <;> simp

/-- The expansion is illegal, or no instruction of control flow. -/
def Quiet (e : Expanded) : Prop := e.illegal = true ∨ decoderFlow e.instr = .plain

theorem quiet_expand (v : BitVec 25) {o : BitVec 7} (ho : o ∉ [opcodeBranch, opcodeJalr, opcodeJal, opcodeSystem]) :
    Quiet (CompressedDecoder.expand (v ++ o)) :=
  .inr (decoderFlow_append v ho)

theorem quiet_check (i : BitVec 32) (b : Bool) {w : BitVec 32} (hw : Quiet (CompressedDecoder.expand w)) :
    Quiet (CompressedDecoder.check i b w) := by
  cases b with
  | false => exact .inl rfl
  | true => exact hw

theorem quiet_c0 (i : BitVec 32) : Quiet (CompressedDecoder.c0 i) := by
  unfold CompressedDecoder.c0
  split
  · exact quiet_check i _ (quiet_expand _ (by decide))
  · exact quiet_expand _ (by decide)
  · exact quiet_expand _ (by decide)
  · exact quiet_expand _ (by decide)
  · exact quiet_expand _ (by decide)
  · exact quiet_expand _ (by decide)
  · exact quiet_expand _ (by decide)
  · exact .inl rfl

theorem quiet_miscAlu (i : BitVec 32) : Quiet (CompressedDecoder.miscAlu i) := by
  unfold CompressedDecoder.miscAlu
  split
  · exact quiet_expand _ (by decide)
  · split
    · exact quiet_expand _ (by decide)
    · exact quiet_expand _ (by decide)
    · exact quiet_expand _ (by decide)
    · exact quiet_expand _ (by decide)
    · exact quiet_expand _ (by decide)
    · exact quiet_expand _ (by decide)
    · exact .inl rfl
  · exact quiet_expand _ (by decide)

/-- The eight codes of a compressed instruction. -/
theorem funct3_cases (f : BitVec 3) : f = 0#3 ∨ f = 1#3 ∨ f = 2#3 ∨ f = 3#3 ∨ f = 4#3 ∨ f = 5#3 ∨ f = 6#3 ∨
    f = 7#3 := by
  revert f
  decide

theorem quiet_c1 (h5 : i.extractLsb' 13 3 ≠ 5#3) (h6 : i.extractLsb' 13 3 ≠ 6#3) (h7 : i.extractLsb' 13 3 ≠ 7#3) :
    Quiet (CompressedDecoder.c1 i) := by
  unfold CompressedDecoder.c1
  rcases funct3_cases (i.extractLsb' 13 3) with hf | hf | hf | hf | hf | hf | hf | hf <;> rw [hf]
  · exact quiet_expand _ (by decide)
  · exact quiet_check i _ (quiet_expand _ (by decide))
  · exact quiet_expand _ (by decide)
  · apply quiet_check
    split_ifs
    · exact quiet_expand _ (by decide)
    · exact quiet_expand _ (by decide)
  · exact quiet_miscAlu i
  · exact absurd hf h5
  · exact absurd hf h6
  · exact absurd hf h7

theorem quiet_c2 (h4 : i.extractLsb' 13 3 ≠ 4#3) : Quiet (CompressedDecoder.c2 i) := by
  unfold CompressedDecoder.c2
  rcases funct3_cases (i.extractLsb' 13 3) with hf | hf | hf | hf | hf | hf | hf | hf <;> rw [hf]
  · exact quiet_expand _ (by decide)
  · exact quiet_expand _ (by decide)
  · exact quiet_check i _ (quiet_expand _ (by decide))
  · exact quiet_check i _ (quiet_expand _ (by decide))
  · exact absurd hf h4
  · exact quiet_expand _ (by decide)
  · exact quiet_expand _ (by decide)
  · exact quiet_expand _ (by decide)

theorem flow_of_quiet (h : Quiet (compressedDecoder i)) : flow i = .plain ∨ flow i = .trap := by
  rw [flow]
  cases hi : (compressedDecoder i).illegal with
  | true => exact .inr rfl
  | false => exact .inl (h.resolve_left (Bool.eq_false_iff.mp hi))

theorem flow_expand {w : BitVec 32} (h : compressedDecoder i = CompressedDecoder.expand w) :
    flow i = decoderFlow w := by
  rw [flow, h]
  rfl

/-- Nothing of 32 bits is found in a compressed instruction. -/
theorem not_rvi (h : i.extractLsb' 0 2 ≠ 3#2) : Scan.rviBranch i = false ∧ Scan.rviJump i = false ∧
    Scan.rviJalr i = false := by
  have hop (o : BitVec 7) (ho : o.extractLsb' 0 2 = 3#2) : (i.extractLsb' 0 7 == o) = false := by
    rw [beq_eq_false_iff_ne]
    rintro rfl
    exact h ((extractLsb_low (by decide)).symm.trans ho)
  have hx : Scan.isXret i = false := by
    rw [Bool.eq_false_iff, ne_eq, isXret_iff]
    rintro (rfl | rfl) <;> exact h rfl
  exact ⟨hop _ rfl, by rw [Scan.rviJump, hop _ rfl, hx]; rfl, hop _ rfl⟩

/-- No control flow is found where there is none. -/
theorem scans_quiet (h : i.extractLsb' 0 2 ≠ 3#2) (hq : Quiet (compressedDecoder i)) (hb : Scan.rvcBranch i = false)
    (hj : Scan.rvcJump i = false) (hr : Scan.isJalR i = false) : Scans (instrScan i) (flow i) := by
  obtain ⟨h1, h2, h3⟩ := not_rvi h
  rcases flow_of_quiet hq with hf | hf
  · rw [hf]
    simp [Scans, instrScan, InstrScan.isBranch, InstrScan.isJump, InstrScan.isJumpReg, Scan.rvcJr, Scan.rvcJalr, h1,
      h2, h3, hb, hj, hr]
  · rw [hf]
    trivial

theorem isRvc_of_ne (h : i.extractLsb' 0 2 ≠ 3#2) : Scan.isRvc i = true := bne_iff_ne.mpr h

theorem getLsbD_funct3 (i : BitVec 32) : (i.extractLsb' 13 3).getLsbD 1 = i.getLsbD 14 := by
  rw [BitVec.getLsbD_extractLsb']
  rfl

theorem opcode_append (v : BitVec 25) (o : BitVec 7) : (v ++ o).extractLsb' 0 7 = o :=
  BitVec.extractLsb'_append_eq_right

theorem scans_c1 (h : i.extractLsb' 0 2 = 1#2) : Scans (instrScan i) (flow i) := by
  have hne : i.extractLsb' 0 2 ≠ 3#2 := by
    rw [h]
    decide
  have hdec : compressedDecoder i = CompressedDecoder.c1 i := by
    rw [compressedDecoder, h]
    rfl
  have hr : Scan.isJalR i = false := by
    simp [Scan.isJalR, h]
  have hc := isRvc_of_ne hne
  obtain ⟨h1, h2, h3⟩ := not_rvi hne
  have h14 := getLsbD_funct3 i
  by_cases h5 : i.extractLsb' 13 3 = 5#3
  · -- c.j
    have hw : compressedDecoder i = CompressedDecoder.expand (jumpWord i) := by
      rw [hdec, CompressedDecoder.c1, h5]
      rfl
    have hf : flow i = .ctrl .add (Scan.rvcImm i) := by
      rw [h5] at h14
      rw [flow_expand hw, decoderFlow, jumpWord, opcode_append, ← jumpWord, immUj_jump h14.symm]
      rfl
    rw [hf]
    simp [Scans, instrScan, InstrScan.isBranch, InstrScan.isJump, InstrScan.isJumpReg, Scan.rvcJr, Scan.rvcJalr,
      Scan.rvcBranch, Scan.rvcJump, h1, h2, h3, h5, hr, hc, h, opIsBranch]
  · by_cases h67 : i.extractLsb' 13 3 = 6#3 ∨ i.extractLsb' 13 3 = 7#3
    · -- c.beqz and c.bnez
      have hw : compressedDecoder i = CompressedDecoder.expand (branchWord i) := by
        rw [hdec, CompressedDecoder.c1]
        rcases h67 with h6 | h7
        · rw [h6]
          rfl
        · rw [h7]
          rfl
      have hb : i.getLsbD 14 = true := by
        rw [← h14]
        rcases h67 with h6 | h7
        · rw [h6]
          rfl
        · rw [h7]
          rfl
      have hop : (branchWord i).extractLsb' 0 7 = opcodeBranch := opcode_append _ _
      rw [flow_expand hw]
      rcases decoderFlow_branch hop with ht | ⟨op, ho, hd⟩
      · rw [ht]
        trivial
      · have hadd : (op == .add) = false ∧ (op == .jalr) = false := by cases op <;> simp_all [opIsBranch]
        rw [hd, immSb_branch hb]
        have hbr : Scan.rvcBranch i = true := by
          rw [Scan.rvcBranch, h, hc]
          simpa using h67
        simp [Scans, instrScan, InstrScan.isBranch, InstrScan.isJump, InstrScan.isJumpReg, Scan.rvcJr, Scan.rvcJalr,
          hbr, Scan.rvcJump, h1, h2, h3, h5, hr, hadd, ho]
    · rw [not_or] at h67
      apply scans_quiet hne
      · rw [hdec]
        exact quiet_c1 h5 h67.1 h67.2
      · simp [Scan.rvcBranch, h67]
      · simp [Scan.rvcJump, h5]
      · exact hr

/-- What is not an addition goes to a register or ends. -/
theorem jalrMvAdd_jumps (h0 : i.extractLsb' 2 5 = 0#5) : (CompressedDecoder.jalrMvAdd i).illegal = true ∨
    decoderFlow (CompressedDecoder.jalrMvAdd i).instr = .trap ∨
      ∃ imm, decoderFlow (CompressedDecoder.jalrMvAdd i).instr = .ctrl .jalr imm := by
  rw [CompressedDecoder.jalrMvAdd]
  by_cases h12 : i.extractLsb' 12 1 = 0#1
  · rw [if_pos h12, if_pos h0]
    cases i.extractLsb' 7 5 != 0 with
    | false => exact .inl rfl
    | true => exact .inr (decoderFlow_jalr (opcode_append _ _))
  · rw [if_neg h12]
    by_cases h7 : i.extractLsb' 7 5 = 0#5
    · rw [if_pos ⟨h7, h0⟩]
      exact .inr (.inl rfl)
    · rw [if_neg fun hn => h7 hn.1, if_pos ⟨h7, h0⟩]
      exact .inr (decoderFlow_jalr (opcode_append _ _))

theorem scans_c2 (h : i.extractLsb' 0 2 = 2#2) : Scans (instrScan i) (flow i) := by
  have hne : i.extractLsb' 0 2 ≠ 3#2 := by
    rw [h]
    decide
  have hdec : compressedDecoder i = CompressedDecoder.c2 i := by
    rw [compressedDecoder, h]
    rfl
  have hb : Scan.rvcBranch i = false := by
    simp [Scan.rvcBranch, h]
  have hj : Scan.rvcJump i = false := by
    simp [Scan.rvcJump, h]
  obtain ⟨h1, h2, h3⟩ := not_rvi hne
  by_cases h4 : i.extractLsb' 13 3 = 4#3
  · have hdec : compressedDecoder i = CompressedDecoder.jalrMvAdd i := by
      rw [hdec, CompressedDecoder.c2, h4]
      rfl
    by_cases h0 : i.extractLsb' 2 5 = 0#5
    · -- c.jr and c.jalr, which go to a register if it is not x0
      have hr : Scan.isJalR i = true := by
        rw [Scan.isJalR, isRvc_of_ne hne, h4, h0, h]
        rfl
      have hreg : (instrScan i).isJumpReg = true := by
        simp only [InstrScan.isJumpReg, instrScan, Scan.rvcJalr, Scan.rvcJr, hr]
        cases i.getLsbD 12 <;> simp
      have hf : flow i = .trap ∨ ∃ imm, flow i = .ctrl .jalr imm := by
        rw [flow, hdec]
        split_ifs with hi
        · exact .inl rfl
        · exact (jalrMvAdd_jumps h0).resolve_left hi
      rcases hf with hf | ⟨imm, hf⟩
      · rw [hf]
        trivial
      · rw [hf]
        refine ⟨?_, ?_, hreg, ?_, ?_⟩
        · simp [InstrScan.isBranch, instrScan, h1, hb, opIsBranch]
        · simp [InstrScan.isJump, instrScan, h2, hj]
        · simp [instrScan, h1, h2]
        · simp [instrScan, hb, hj]
    · have hq : Quiet (CompressedDecoder.jalrMvAdd i) := by
        rw [CompressedDecoder.jalrMvAdd, if_neg h0]
        split_ifs with ha hn hn
        · exact quiet_expand _ (by decide)
        · exact absurd hn.2 h0
        · exact absurd hn.2 h0
        · exact quiet_expand _ (by decide)
      apply scans_quiet hne
      · rw [hdec]
        exact hq
      · exact hb
      · exact hj
      · simp [Scan.isJalR, h0]
  · apply scans_quiet hne
    · rw [hdec]
      exact quiet_c2 h4
    · exact hb
    · exact hj
    · simp [Scan.isJalR, h4]

/-- The predecoder finds what the decoders find, and the same targets. -/
theorem scans_flow (i : BitVec 32) : Scans (instrScan i) (flow i) := by
  have hq : ∀ v : BitVec 2, v = 0#2 ∨ v = 1#2 ∨ v = 2#2 ∨ v = 3#2 := by decide
  rcases hq (i.extractLsb' 0 2) with h | h | h | h
  · have hne : i.extractLsb' 0 2 ≠ 3#2 := by
      rw [h]
      decide
    apply scans_quiet hne
    · rw [compressedDecoder, h]
      exact quiet_c0 i
    · simp [Scan.rvcBranch, h]
    · simp [Scan.rvcJump, h]
    · simp [Scan.isJalR, h]
  · exact scans_c1 h
  · exact scans_c2 h
  · have hf : flow i = decoderFlow i := by
      rw [flow, compressedDecoder, h]
      rfl
    rw [hf]
    exact scans_full h

end Culsans.Frontend
