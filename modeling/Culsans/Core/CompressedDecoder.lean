import Mathlib.Data.BitVec

/-! # The decoders of `id_stage`, as far as control flow goes

Compressed instructions are expanded first (`compressed_decoder`, RV64). Of `decoder` this is what
tells the branch unit what to do: the operation, the immediate, and which instructions never leave
the commit stage by themselves.
-/

namespace Culsans.Core

def opcodeLoad : BitVec 7 := 0b0000011
def opcodeLoadFp : BitVec 7 := 0b0000111
def opcodeOpImm : BitVec 7 := 0b0010011
def opcodeOpImm32 : BitVec 7 := 0b0011011
def opcodeStore : BitVec 7 := 0b0100011
def opcodeStoreFp : BitVec 7 := 0b0100111
def opcodeOp : BitVec 7 := 0b0110011
def opcodeLui : BitVec 7 := 0b0110111
def opcodeOp32 : BitVec 7 := 0b0111011
def opcodeBranch : BitVec 7 := 0b1100011
def opcodeJalr : BitVec 7 := 0b1100111
def opcodeJal : BitVec 7 := 0b1101111
def opcodeSystem : BitVec 7 := 0b1110011

/-- The outputs of `compressed_decoder`. -/
structure Expanded where
  instr : BitVec 32
  illegal : Bool
  isCompressed : Bool

namespace CompressedDecoder
variable (i : BitVec 32)

/-- An instruction is put out as it is if it is illegal. -/
def expand (instr : BitVec 32) : Expanded := ⟨instr, false, true⟩

def illegal : Expanded := ⟨i, true, true⟩

def check (legal : Bool) (instr : BitVec 32) : Expanded := if legal then expand instr else illegal i

def c0 : Expanded :=
  match i.extractLsb' 13 3 with
  -- c.addi4spn
  | 0b000 => check i (i.extractLsb' 5 8 != 0) (0#2 ++ i.extractLsb' 7 4 ++ i.extractLsb' 11 2 ++ i.extractLsb' 5 1 ++
      i.extractLsb' 6 1 ++ 0b00#2 ++ 2#5 ++ 0b000#3 ++ 0b01#2 ++ i.extractLsb' 2 3 ++ opcodeOpImm)
  -- c.fld
  | 0b001 => expand (0#4 ++ i.extractLsb' 5 2 ++ i.extractLsb' 10 3 ++ 0b000#3 ++ 0b01#2 ++ i.extractLsb' 7 3 ++
    0b011#3 ++ 0b01#2 ++ i.extractLsb' 2 3 ++ opcodeLoadFp)
  -- c.lw
  | 0b010 => expand (0#5 ++ i.extractLsb' 5 1 ++ i.extractLsb' 10 3 ++ i.extractLsb' 6 1 ++ 0b00#2 ++ 0b01#2 ++
      i.extractLsb' 7 3 ++ 0b010#3 ++ 0b01#2 ++ i.extractLsb' 2 3 ++ opcodeLoad)
  -- c.ld
  | 0b011 => expand (0#4 ++ i.extractLsb' 5 2 ++ i.extractLsb' 10 3 ++ 0b000#3 ++ 0b01#2 ++ i.extractLsb' 7 3 ++
    0b011#3 ++ 0b01#2 ++ i.extractLsb' 2 3 ++ opcodeLoad)
  -- c.fsd
  | 0b101 => expand (0#4 ++ i.extractLsb' 5 2 ++ i.extractLsb' 12 1 ++ 0b01#2 ++ i.extractLsb' 2 3 ++ 0b01#2 ++
      i.extractLsb' 7 3 ++ 0b011#3 ++ i.extractLsb' 10 2 ++ 0b000#3 ++ opcodeStoreFp)
  -- c.sw
  | 0b110 => expand (0#5 ++ i.extractLsb' 5 1 ++ i.extractLsb' 12 1 ++ 0b01#2 ++ i.extractLsb' 2 3 ++ 0b01#2 ++
      i.extractLsb' 7 3 ++ 0b010#3 ++ i.extractLsb' 10 2 ++ i.extractLsb' 6 1 ++ 0b00#2 ++ opcodeStore)
  -- c.sd
  | 0b111 => expand (0#4 ++ i.extractLsb' 5 2 ++ i.extractLsb' 12 1 ++ 0b01#2 ++ i.extractLsb' 2 3 ++ 0b01#2 ++
      i.extractLsb' 7 3 ++ 0b011#3 ++ i.extractLsb' 10 2 ++ 0b000#3 ++ opcodeStore)
  | _ => illegal i

/-- `{6 {instr_i[12]}}, instr_i[12], instr_i[6:2]` -/
def imm6 : BitVec 12 := (i.extractLsb' 12 1 ++ i.extractLsb' 2 5 : BitVec 6).signExtend 12

def miscAlu : Expanded :=
  match i.extractLsb' 10 2 with
  -- c.andi
  | 0b10 => expand (imm6 i ++ 0b01#2 ++ i.extractLsb' 7 3 ++ 0b111#3 ++ 0b01#2 ++ i.extractLsb' 7 3 ++ opcodeOpImm)
  | 0b11 =>
    match i.extractLsb' 12 1 ++ i.extractLsb' 5 2 with
    -- c.sub
    | 0b000 => expand (0b01#2 ++ 0#5 ++ 0b01#2 ++ i.extractLsb' 2 3 ++ 0b01#2 ++ i.extractLsb' 7 3 ++ 0b000#3 ++
      0b01#2 ++ i.extractLsb' 7 3 ++ opcodeOp)
    -- c.xor
    | 0b001 => expand (0#7 ++ 0b01#2 ++ i.extractLsb' 2 3 ++ 0b01#2 ++ i.extractLsb' 7 3 ++ 0b100#3 ++ 0b01#2 ++
        i.extractLsb' 7 3 ++ opcodeOp)
    -- c.or
    | 0b010 => expand (0#7 ++ 0b01#2 ++ i.extractLsb' 2 3 ++ 0b01#2 ++ i.extractLsb' 7 3 ++ 0b110#3 ++ 0b01#2 ++
        i.extractLsb' 7 3 ++ opcodeOp)
    -- c.and
    | 0b011 => expand (0#7 ++ 0b01#2 ++ i.extractLsb' 2 3 ++ 0b01#2 ++ i.extractLsb' 7 3 ++ 0b111#3 ++ 0b01#2 ++
        i.extractLsb' 7 3 ++ opcodeOp)
    -- c.subw
    | 0b100 => expand (0b01#2 ++ 0#5 ++ 0b01#2 ++ i.extractLsb' 2 3 ++ 0b01#2 ++ i.extractLsb' 7 3 ++ 0b000#3 ++
      0b01#2 ++ i.extractLsb' 7 3 ++ opcodeOp32)
    -- c.addw
    | 0b101 => expand (0b00#2 ++ 0#5 ++ 0b01#2 ++ i.extractLsb' 2 3 ++ 0b01#2 ++ i.extractLsb' 7 3 ++ 0b000#3 ++
      0b01#2 ++ i.extractLsb' 7 3 ++ opcodeOp32)
    | _ => illegal i
  -- c.srli, c.srai
  | _ => expand (0#1 ++ i.extractLsb' 10 1 ++ 0#4 ++ i.extractLsb' 12 1 ++ i.extractLsb' 2 5 ++ 0b01#2 ++
    i.extractLsb' 7 3 ++ 0b101#3 ++ 0b01#2 ++ i.extractLsb' 7 3 ++ opcodeOpImm)

def c1 : Expanded :=
  match i.extractLsb' 13 3 with
  -- c.addi
  | 0b000 => expand (imm6 i ++ i.extractLsb' 7 5 ++ 0b000#3 ++ i.extractLsb' 7 5 ++ opcodeOpImm)
  -- c.addiw
  | 0b001 => check i (i.extractLsb' 7 5 != 0) (imm6 i ++ i.extractLsb' 7 5 ++ 0b000#3 ++ i.extractLsb' 7 5 ++
    opcodeOpImm32)
  -- c.li
  | 0b010 => expand (imm6 i ++ 0#5 ++ 0b000#3 ++ i.extractLsb' 7 5 ++ opcodeOpImm)
  -- c.addi16sp and c.lui
  | 0b011 => check i (i.extractLsb' 12 1 ++ i.extractLsb' 2 5 != (0 : BitVec 6))
      (if i.extractLsb' 7 5 == 2 then
        (i.extractLsb' 12 1).signExtend 3 ++ i.extractLsb' 3 2 ++ i.extractLsb' 5 1 ++ i.extractLsb' 2 1 ++
          i.extractLsb' 6 1 ++ 0#4 ++ 2#5 ++ 0b000#3 ++ 2#5 ++ opcodeOpImm
      else (i.extractLsb' 12 1).signExtend 15 ++ i.extractLsb' 2 5 ++ i.extractLsb' 7 5 ++ opcodeLui)
  | 0b100 => miscAlu i
  -- c.j
  | 0b101 => expand (i.extractLsb' 12 1 ++ i.extractLsb' 8 1 ++ i.extractLsb' 9 2 ++ i.extractLsb' 6 1 ++
    i.extractLsb' 7 1 ++ i.extractLsb' 2 1 ++ i.extractLsb' 11 1 ++ i.extractLsb' 3 3 ++
    (i.extractLsb' 12 1).signExtend 9 ++ 0#4 ++
      ~~~i.extractLsb' 15 1 ++ opcodeJal)
  -- c.beqz, c.bnez
  | _ => expand ((i.extractLsb' 12 1).signExtend 4 ++ i.extractLsb' 5 2 ++ i.extractLsb' 2 1 ++ 0#5 ++ 0b01#2 ++
      i.extractLsb' 7 3 ++ 0b00#2 ++ i.extractLsb' 13 1 ++ i.extractLsb' 10 2 ++ i.extractLsb' 3 2 ++
        i.extractLsb' 12 1 ++
      opcodeBranch)

def jalrMvAdd : Expanded :=
  if i.extractLsb' 12 1 = 0#1 then
    if i.extractLsb' 2 5 = 0#5 then
      -- c.jr
      check i (i.extractLsb' 7 5 != 0) (0#12 ++ i.extractLsb' 7 5 ++ 0b000#3 ++ 0#5 ++ opcodeJalr)
    else
      -- c.mv
      expand (0#7 ++ i.extractLsb' 2 5 ++ 0#5 ++ 0b000#3 ++ i.extractLsb' 7 5 ++ opcodeOp)
  else if i.extractLsb' 7 5 = 0#5 ∧ i.extractLsb' 2 5 = 0#5 then
    -- c.ebreak
    expand 0x00100073
  else if i.extractLsb' 7 5 ≠ 0#5 ∧ i.extractLsb' 2 5 = 0#5 then
    -- c.jalr
    expand (0#12 ++ i.extractLsb' 7 5 ++ 0b000#3 ++ 1#5 ++ opcodeJalr)
  else
    -- c.add
    expand (0#7 ++ i.extractLsb' 2 5 ++ i.extractLsb' 7 5 ++ 0b000#3 ++ i.extractLsb' 7 5 ++ opcodeOp)

def c2 : Expanded :=
  match i.extractLsb' 13 3 with
  -- c.slli
  | 0b000 => expand (0#6 ++ i.extractLsb' 12 1 ++ i.extractLsb' 2 5 ++ i.extractLsb' 7 5 ++ 0b001#3 ++
    i.extractLsb' 7 5 ++ opcodeOpImm)
  -- c.fldsp
  | 0b001 => expand (0#3 ++ i.extractLsb' 2 3 ++ i.extractLsb' 12 1 ++ i.extractLsb' 5 2 ++ 0b000#3 ++ 2#5 ++ 0b011#3 ++
      i.extractLsb' 7 5 ++ opcodeLoadFp)
  -- c.lwsp
  | 0b010 => check i (i.extractLsb' 7 5 != 0) (0#4 ++ i.extractLsb' 2 2 ++ i.extractLsb' 12 1 ++
    i.extractLsb' 4 3 ++ 0b00#2 ++ 2#5 ++ 0b010#3 ++ i.extractLsb' 7 5 ++ opcodeLoad)
  -- c.ldsp
  | 0b011 => check i (i.extractLsb' 7 5 != 0) (0#3 ++ i.extractLsb' 2 3 ++ i.extractLsb' 12 1 ++
    i.extractLsb' 5 2 ++ 0b000#3 ++ 2#5 ++ 0b011#3 ++ i.extractLsb' 7 5 ++ opcodeLoad)
  | 0b100 => jalrMvAdd i
  -- c.fsdsp
  | 0b101 => expand (0#3 ++ i.extractLsb' 7 3 ++ i.extractLsb' 12 1 ++ i.extractLsb' 2 5 ++ 2#5 ++ 0b011#3 ++
      i.extractLsb' 10 2 ++ 0b000#3 ++ opcodeStoreFp)
  -- c.swsp
  | 0b110 => expand (0#4 ++ i.extractLsb' 7 2 ++ i.extractLsb' 12 1 ++ i.extractLsb' 2 5 ++ 2#5 ++ 0b010#3 ++
      i.extractLsb' 9 3 ++ 0b00#2 ++ opcodeStore)
  -- c.sdsp
  | _ => expand (0#3 ++ i.extractLsb' 7 3 ++ i.extractLsb' 12 1 ++ i.extractLsb' 2 5 ++ 2#5 ++ 0b011#3 ++
      i.extractLsb' 10 2 ++ 0b000#3 ++ opcodeStore)

end CompressedDecoder

/-- `compressed_decoder` -/
def compressedDecoder (i : BitVec 32) : Expanded :=
  match i.extractLsb' 0 2 with
  | 0b00 => CompressedDecoder.c0 i
  | 0b01 => CompressedDecoder.c1 i
  | 0b10 => CompressedDecoder.c2 i
  | _ => ⟨i, false, false⟩

/-! ### Control flow instructions -/

/-- The operations of control flow instructions; a JAL keeps the default. -/
inductive BranchOp
  | add | jalr | eq | ne | lts | ges | ltu | geu
deriving DecidableEq

/-- What an instruction does to the control flow: it goes on to the next one, it goes to the branch
unit, or it is an exception or a return from one and ends in the commit stage. -/
inductive Flow
  | plain
  | ctrl (op : BranchOp) (imm : BitVec 64)
  | trap
deriving DecidableEq

/-- `imm_i_type` -/
def immI (i : BitVec 32) : BitVec 64 := (i.extractLsb' 20 12).signExtend 64

/-- `imm_sb_type` and `sb_imm` -/
def immSb (i : BitVec 32) : BitVec 64 :=
  (i.extractLsb' 31 1 ++ i.extractLsb' 7 1 ++ i.extractLsb' 25 6 ++ i.extractLsb' 8 4 ++ 0#1 : BitVec 13).signExtend 64

/-- `imm_uj_type` and `uj_imm` -/
def immUj (i : BitVec 32) : BitVec 64 :=
  (i.extractLsb' 31 1 ++ i.extractLsb' 12 8 ++ i.extractLsb' 20 1 ++ i.extractLsb' 21 10 ++ 0#1 :
    BitVec 21).signExtend 64

/-- The control flow instructions of `decoder`, and the ECALL, EBREAK, SRET, MRET and DRET of its system
instructions. -/
def decoderFlow (i : BitVec 32) : Flow :=
  if i.extractLsb' 0 7 = opcodeBranch then
    match i.extractLsb' 12 3 with
    | 0b000 => .ctrl .eq (immSb i)
    | 0b001 => .ctrl .ne (immSb i)
    | 0b100 => .ctrl .lts (immSb i)
    | 0b101 => .ctrl .ges (immSb i)
    | 0b110 => .ctrl .ltu (immSb i)
    | 0b111 => .ctrl .geu (immSb i)
    | _ => .trap
  else if i.extractLsb' 0 7 = opcodeJalr then if i.extractLsb' 12 3 ≠ 0 then .trap else .ctrl .jalr (immI i)
  else if i.extractLsb' 0 7 = opcodeJal then .ctrl .add (immUj i)
  else if i.extractLsb' 0 7 = opcodeSystem ∧ i.extractLsb' 12 3 = 0 ∧
      i.extractLsb' 20 12 ∈ [0x000, 0x001, 0x102, 0x302, 0x7b2] then .trap
  else .plain

/-- What `id_stage` makes of the control flow of an instruction. -/
def flow (i : BitVec 32) : Flow :=
  if (compressedDecoder i).illegal then .trap else decoderFlow (compressedDecoder i).instr

/-! ### The upper half of a compressed instruction -/

/-- Two expansions are the same as far as the decoder looks at them. -/
structure Same (e e' : Expanded) : Prop where
  illegal : e.illegal = e'.illegal
  instr : e'.illegal = false → e.instr = e'.instr

theorem Same.flow {i j : BitVec 32} (h : Same (compressedDecoder i) (compressedDecoder j)) : flow i = flow j := by
  rw [Core.flow, Core.flow, h.illegal]
  split_ifs with hj
  · rfl
  · rw [h.instr (Bool.eq_false_iff.mpr hj)]

namespace CompressedDecoder
variable {i j : BitVec 32}

theorem same_illegal : Same (illegal i) (illegal j) := ⟨rfl, fun h => absurd h.symm Bool.false_ne_true⟩

theorem same_check (b : Bool) (w : BitVec 32) : Same (check i b w) (check j b w) := by
  cases b with
  | false => exact same_illegal
  | true => exact ⟨rfl, fun _ => rfl⟩

theorem same_expand (w : BitVec 32) : Same (expand w) (expand w) := ⟨rfl, fun _ => rfl⟩

/-- The fields of the lower half. -/
theorem field_eq (h : i.extractLsb' 0 16 = j.extractLsb' 0 16) {a n : ℕ} (ha : a + n ≤ 16) :
    i.extractLsb' a n = j.extractLsb' a n := by
  apply BitVec.eq_of_getLsbD_eq
  intro k hk
  have hbit := congrArg (·.getLsbD (a + k)) h
  simpa [BitVec.getLsbD_extractLsb', hk, show a + k < 16 by omega] using hbit

theorem same_c0 (h : i.extractLsb' 0 16 = j.extractLsb' 0 16) : Same (c0 i) (c0 j) := by
  simp (disch := decide) only [c0, field_eq h]
  split <;> first | exact same_check _ _ | exact same_expand _ | exact same_illegal

theorem same_miscAlu (h : i.extractLsb' 0 16 = j.extractLsb' 0 16) : Same (miscAlu i) (miscAlu j) := by
  simp (disch := decide) only [miscAlu, imm6, field_eq h]
  split
  · exact same_expand _
  · split <;> first | exact same_expand _ | exact same_illegal
  · exact same_expand _

theorem same_c1 (h : i.extractLsb' 0 16 = j.extractLsb' 0 16) : Same (c1 i) (c1 j) := by
  have hm := same_miscAlu h
  simp (disch := decide) only [c1, imm6, field_eq h]
  split <;> first | exact same_check _ _ | exact same_expand _ | exact hm

theorem same_jalrMvAdd (h : i.extractLsb' 0 16 = j.extractLsb' 0 16) : Same (jalrMvAdd i) (jalrMvAdd j) := by
  simp (disch := decide) only [jalrMvAdd, field_eq h]
  split_ifs <;> first | exact same_check _ _ | exact same_expand _

theorem same_c2 (h : i.extractLsb' 0 16 = j.extractLsb' 0 16) : Same (c2 i) (c2 j) := by
  have hm := same_jalrMvAdd h
  simp (disch := decide) only [c2, field_eq h]
  split <;> first | exact same_check _ _ | exact same_expand _ | exact hm

end CompressedDecoder

open CompressedDecoder in
/-- What lies above a compressed instruction does not matter. -/
theorem flow_low {i j : BitVec 32} (h : i.extractLsb' 0 16 = j.extractLsb' 0 16) (hc : i.extractLsb' 0 2 ≠ 3#2) :
    flow i = flow j := by
  apply Same.flow
  have h2 : i.extractLsb' 0 2 = j.extractLsb' 0 2 := field_eq h (by decide)
  have hq : ∀ v : BitVec 2, v = 0#2 ∨ v = 1#2 ∨ v = 2#2 ∨ v = 3#2 := by decide
  rw [compressedDecoder, compressedDecoder, ← h2]
  rcases hq (i.extractLsb' 0 2) with hv | hv | hv | hv
  · rw [hv]
    exact same_c0 h
  · rw [hv]
    exact same_c1 h
  · rw [hv]
    exact same_c2 h
  · exact absurd hv hc

end Culsans.Core
