import Culsans.Core.IssueQueue
import Culsans.Core.RrArbTree
import Culsans.Library.InFlight

/-! # Reading the operands of an instruction

`issue_stage` with the two register files it reads and the commit ports that write them:
which registers the issued instructions are going to write, what can be forwarded from the
scoreboard or from a write-back port, and when an instruction is issued. Registers are not
renamed (`ENABLE_RENAME` is zero), there are two read ports for integer registers, and
`FLEN` is `XLEN`. The program counter is given at its full width.
-/

namespace Culsans.Core
open Library

/-- A register of one of the two register files. -/
inductive Reg
  | x (n : BitVec 5)
  | f (n : BitVec 5)
deriving DecidableEq

/-- `scoreboard_entry_t` as the decoder fills it; what the scoreboard does not look at is here only. -/
structure IssueInstr (b : ℕ) where
  sbe : SbEntry b
  rs1 : BitVec 6
  rs2 : BitVec 6
  useImm : Bool
  useZimm : Bool
  usePc : Bool
  /-- `is_rs1_fpr`, `is_rs2_fpr` and `is_imm_fpr` of the operation -/
  rs1Fpr : Bool
  rs2Fpr : Bool
  immFpr : Bool

/-- The five bits that address a register file. -/
def regAddr (r : BitVec 6) : BitVec 5 := r.setWidth 5

def regOf (fpr : Bool) (r : BitVec 6) : Reg := if fpr then .f (regAddr r) else .x (regAddr r)

/-- The register an instruction writes; nothing is written to `x0`. -/
def SbEntry.dest {b : ℕ} (e : SbEntry b) : Option Reg :=
  if e.op.rdFpr then some (.f (regAddr e.rd)) else if regAddr e.rd = 0 then none else some (.x (regAddr e.rd))

namespace IssueInstr
variable {b : ℕ} (e : IssueInstr b)

/-- `re_name`, which leaves the name bits of the registers zero. -/
def reName : IssueInstr b :=
  { e with
    rs1 := (regAddr e.rs1).setWidth 6
    rs2 := (regAddr e.rs2).setWidth 6
    sbe := { e.sbe with
      rd := (regAddr e.sbe.rd).setWidth 6
      result := if e.immFpr then (e.sbe.result.setWidth 5).setWidth 64 else e.sbe.result } }

/-- `rs3` is encoded in the immediate. -/
def rs3 : BitVec 6 := e.sbe.result.setWidth 6

/-- Operand b is the immediate. -/
def immB : Bool := e.useImm && !(e.sbe.fu == .store) && !(e.sbe.fu == .ctrlFlow) && !e.rs2Fpr

/-- `SFENCE_VMA`, `HFENCE_VVMA` or `HFENCE_GVMA` -/
def isTlbFence : Bool :=
  e.sbe.op.kind == .sfenceVma || e.sbe.op.kind == .hfenceVvma || e.sbe.op.kind == .hfenceGvma

/-- Whether a functional unit gets it. -/
def toUnit : Bool := !(e.sbe.fu == .none) && !e.sbe.ex.valid

/-- The registers it reads. -/
def sources : List Reg :=
  (if e.useZimm || e.usePc then [] else [regOf e.rs1Fpr e.rs1]) ++
    (if e.immB then [] else [regOf e.rs2Fpr e.rs2]) ++ if e.immFpr then [regOf true e.rs3] else []

end IssueInstr

/-! ### The scoreboard -/

namespace Scoreboard
variable {b p : ℕ} (q : Scoreboard b) (wb : Fin p → WbPort b)

/-- `clobber_fu` -/
def clobberFu (n : ℕ) : Fu := if n < 2 ^ (b + 1) then (q.mem (BitVec.ofNat _ n)).sbe.fu else .none

/-- `gpr_clobber_vld[r]` or `fpr_clobber_vld[r]`; the last input always requests, but for GPR 0. -/
def clobberVld (fpr : Bool) (r : BitVec 6) (n : ℕ) : Bool :=
  let m := q.mem (BitVec.ofNat _ n)
  if !fpr && r == 0 then false
  else if n < 2 ^ (b + 1) then m.issued && m.isRdFprFlag == fpr && m.sbe.rd == r
  else true

/-- `rd_clobber_gpr_o[r]` or `rd_clobber_fpr_o[r]` -/
def rdClobber (fpr : Bool) (r : BitVec 6) : Fu :=
  (RrArbTree.root (2 ^ (b + 1) + 1) (q.clobberVld fpr r) q.clobberFu .none).2

/-- `rs1_fwd_req`, `rs2_fwd_req` or `rs3_fwd_req`: the write-back ports, then the entries. -/
def fwdReq (fpr : Bool) (r : BitVec 6) (n : ℕ) : Bool :=
  if h : n < p then
    let w := wb ⟨n, h⟩
    (q.mem w.transId).sbe.rd == r && w.wtValid && !w.ex.valid && (q.mem w.transId).isRdFprFlag == fpr
  else
    let m := q.mem (BitVec.ofNat _ (n - p))
    m.sbe.rd == r && m.issued && m.sbe.valid && m.isRdFprFlag == fpr

/-- `rs_data` -/
def rsData (n : ℕ) : BitVec 64 :=
  if h : n < p then (wb ⟨n, h⟩).data else (q.mem (BitVec.ofNat _ (n - p))).sbe.result

/-- `rs1_valid` and `rs1_o`, and so for the other operands. -/
def forward (fpr : Bool) (r : BitVec 6) : Bool × BitVec 64 :=
  RrArbTree.root (2 ^ (b + 1) + p) (q.fwdReq wb fpr r) (q.rsData wb) 0

end Scoreboard

/-! ### The commit ports -/

namespace CommitIn
variable {b : ℕ} (i : CommitIn b)

/-- `waddr_o` -/
def waddr (k : Fin 2) : BitVec 5 := regAddr (i.commitInstr k).rd

/-- `we_gpr_o`; on the first port later conditions override earlier ones. -/
def weGpr : Fin 2 → Bool
  | 0 =>
    let e := i.commitInstr 0
    if i.ready then
      let w := !e.op.rdFpr
      let w := if e.fu == .csr && i.csrExceptionValid then false else w
      if i.isAmo then i.amoAck else w
    else false
  | 1 => i.commitAck1 && !(i.commitInstr 1).op.rdFpr

/-- `we_fpr_o` -/
def weFpr : Fin 2 → Bool
  | 0 => i.ready && (i.commitInstr 0).op.rdFpr
  | 1 => i.commitAck1 && (i.commitInstr 1).op.rdFpr

/-- `wdata_o` -/
def wdata (amoResult csrRdata : BitVec 64) : Fin 2 → BitVec 64
  | 0 =>
    let e := i.commitInstr 0
    let d := if i.amoAck then amoResult else e.result
    if i.ready && e.fu == .csr && !i.csrExceptionValid then csrRdata else d
  | 1 => (i.commitInstr 1).result

/-- The register a port writes. -/
def written (k : Fin 2) : Option Reg :=
  if i.weFpr k then some (.f (i.waddr k)) else if i.weGpr k && i.waddr k != 0 then some (.x (i.waddr k)) else none

/-- `flush_commit_o` -/
def flushCommit : Bool := i.ready && i.isAmo && i.amoAck

end CommitIn

/-! ### The issue stage -/

/-- The scoreboard, the register files and `mult_valid_q`. -/
structure IssueStage (b : ℕ) where
  sb : Scoreboard b
  gpr : BitVec 5 → BitVec 64
  fpr : BitVec 5 → BitVec 64
  multValid : Bool

structure IssueIn (b p : ℕ) where
  decodedInstr : IssueInstr b
  decodedInstrValid : Bool
  /-- the flushes of the controller, but for the one after an AMO -/
  flush : Bool
  flushUnissuedInstr : Bool
  targetAddress : BitVec 64
  wb : Fin p → WbPort b
  xWe : Bool
  fluReady : Bool
  lsuReady : Bool
  fpuReady : Bool
  cvxifReady : Bool
  halt : Bool
  flushDcache : Bool
  singleStep : Bool
  amoAck : Bool
  amoResult : BitVec 64
  csrExceptionValid : Bool
  csrRdata : BitVec 64
  commitLsuReady : Bool
  noStPending : Bool

namespace IssueStage
variable {b p : ℕ} (s : IssueStage b) (i : IssueIn b p)

/-- `issue_instr_o` of the scoreboard -/
def issueInstr (i : IssueIn b p) : IssueInstr b := i.decodedInstr.reName

def issueInstrValid : Bool := i.decodedInstrValid && !s.sb.issueFull

/-- What the commit stage sees. -/
def commitIn : CommitIn b :=
  ⟨i.halt, i.flushDcache, i.singleStep, s.sb.commitInstr, i.amoAck, i.csrExceptionValid, i.commitLsuReady,
    i.noStPending⟩

def fuBusy : Bool :=
  match (issueInstr i).sbe.fu with
  | .none => false
  | .alu | .ctrlFlow | .csr | .mult => !i.fluReady
  | .fpu | .fpuVec => !i.fpuReady
  | .load | .store => !i.lsuReady
  | .cvxif => !i.cvxifReady

/-- `rs1_valid_i` or `rs2_valid_i`: GPR 0 is never forwarded. -/
def rsValid (fpr : Bool) (r : BitVec 6) : Bool := (s.sb.forward i.wb fpr r).1 && (r != 0 || fpr)

/-- The value in the scoreboard may be used: not that of a CSR instruction, unless for a fence. -/
def mayForward (fpr : Bool) (r : BitVec 6) : Bool :=
  s.rsValid i fpr r && (fpr || s.sb.rdClobber fpr r != .csr || (issueInstr i).isTlbFence)

/-- Some instruction is going to write the first operand. -/
def clobbered1 : Bool :=
  let e := issueInstr i
  !e.useZimm && s.sb.rdClobber e.rs1Fpr e.rs1 != .none

def clobbered2 : Bool :=
  let e := issueInstr i
  s.sb.rdClobber e.rs2Fpr e.rs2 != .none

def clobbered3 : Bool :=
  let e := issueInstr i
  e.immFpr && s.sb.rdClobber true e.rs3 != .none

def forwardRs1 : Bool := s.clobbered1 i && s.mayForward i (issueInstr i).rs1Fpr (issueInstr i).rs1

def forwardRs2 : Bool := s.clobbered2 i && s.mayForward i (issueInstr i).rs2Fpr (issueInstr i).rs2

def forwardRs3 : Bool := s.clobbered3 i && (s.sb.forward i.wb true (issueInstr i).rs3).1

def stall : Bool :=
  s.clobbered1 i && !s.forwardRs1 i || s.clobbered2 i && !s.forwardRs2 i || s.clobbered3 i && !s.forwardRs3 i

/-- `operand_a_regfile` and so on -/
def regfile (fpr : Bool) (r : BitVec 6) : BitVec 64 := if fpr then s.fpr (regAddr r) else s.gpr (regAddr r)

/-- `operand_a_n` -/
def operandA : BitVec 64 :=
  let e := issueInstr i
  let a := if s.forwardRs1 i then (s.sb.forward i.wb e.rs1Fpr e.rs1).2 else s.regfile e.rs1Fpr e.rs1
  let a := if e.usePc then e.sbe.pc else a
  if e.useZimm then (e.rs1.setWidth 5).setWidth 64 else a

/-- `operand_b_n` -/
def operandB : BitVec 64 :=
  let e := issueInstr i
  let v := if s.forwardRs2 i then (s.sb.forward i.wb e.rs2Fpr e.rs2).2 else s.regfile e.rs2Fpr e.rs2
  if e.immB then e.sbe.result else v

/-- `imm_n` -/
def imm : BitVec 64 :=
  let e := issueInstr i
  let v := if e.immFpr then s.fpr (regAddr e.rs3) else e.sbe.result
  if s.forwardRs3 i then (s.sb.forward i.wb true e.rs3).2 else v

/-- The commit stage writes the destination in this cycle. -/
def writesRd : Bool :=
  let c := s.commitIn i
  let e := (issueInstr i).sbe
  (List.finRange 2).any fun k => (if e.op.rdFpr then c.weFpr k else c.weGpr k) && (c.waddr k).setWidth 6 == e.rd

/-- `issue_ack_o` -/
def issueAck : Bool :=
  let e := (issueInstr i).sbe
  let free := s.sb.rdClobber e.op.rdFpr e.rd == .none || s.writesRd i
  let ack := s.issueInstrValid i && (!s.stall i && !fuBusy i && free || e.ex.valid || e.fu == .none)
  if s.multValid && !(e.fu == .mult) then false else ack

/-- `flush_i`: the controller also flushes with `flush_commit_o`. -/
def flush : Bool := i.flush || (s.commitIn i).flushCommit

def flushUnissued : Bool := i.flushUnissuedInstr || (s.commitIn i).flushCommit

/-- What the scoreboard sees. -/
def sbIn : SbIn b p where
  flushUnissuedInstr := s.flushUnissued i
  flush := s.flush i
  unresolvedBranch := false
  commitAck := (s.commitIn i).commitAck
  decodedInstr := (issueInstr i).sbe
  decodedInstrValid := i.decodedInstrValid
  issueAck := s.issueAck i
  targetAddress := i.targetAddress
  wb := i.wb
  xWe := i.xWe

def wdata : Fin 2 → BitVec 64 := (s.commitIn i).wdata i.amoResult i.csrRdata

/-- `ariane_regfile`: the second port wins, and register 0 stays zero if `zero` is set. -/
def writeRegs (zero : Bool) (we : Fin 2 → Bool) (regs : BitVec 5 → BitVec 64) (n : BitVec 5) : BitVec 64 :=
  if zero && n == 0 then 0
  else (List.finRange 2).foldl (fun d k => if we k && (s.commitIn i).waddr k == n then s.wdata i k else d) (regs n)

def step : IssueStage b where
  sb := s.sb.step (s.sbIn i)
  gpr := s.writeRegs i true (s.commitIn i).weGpr s.gpr
  fpr := s.writeRegs i false (s.commitIn i).weFpr s.fpr
  multValid := !(issueInstr i).sbe.ex.valid && s.issueInstrValid i && s.issueAck i && (issueInstr i).sbe.fu == .mult &&
    !s.flushUnissued i

/-- The contents of a register. -/
def read : Reg → BitVec 64
  | .x n => s.gpr n
  | .f n => s.fpr n

/-- The register operands that the functional unit gets. -/
def operands : List (Reg × BitVec 64) :=
  let e := issueInstr i
  if e.toUnit then
    (if e.useZimm || e.usePc then [] else [(regOf e.rs1Fpr e.rs1, s.operandA i)]) ++
      (if e.immB then [] else [(regOf e.rs2Fpr e.rs2, s.operandB i)]) ++
        if e.immFpr then [(regOf true e.rs3, s.imm i)] else []
  else []

/-- A TLB fence gets the scoreboard's value of a register that a CSR instruction is going to write. -/
def fenceOverCsr : Bool :=
  let e := issueInstr i
  e.isTlbFence && (s.forwardRs1 i && !e.rs1Fpr && s.sb.rdClobber false e.rs1 == .csr ||
    s.forwardRs2 i && !e.rs2Fpr && s.sb.rdClobber false e.rs2 == .csr)

/-! ### Runs -/

/-- An observer of the issue and the commit ports. -/
structure OperandLog (b : ℕ) where
  /-- the register operands the instruction of a slot was issued with, but for a fence over a CSR instruction -/
  operands : BitVec (b + 1) → List (Reg × BitVec 64)
  /-- what was committed, oldest first -/
  done : List (Committed Reg (BitVec 64))

def watch (g : OperandLog b) (s : IssueStage b) (i : IssueIn b p) : OperandLog b where
  operands := if s.sb.issueEn (s.sbIn i) then
      Function.update g.operands s.sb.issuePointer (if s.fenceOverCsr i then [] else s.operands i)
    else g.operands
  done := g.done ++ (Scoreboard.acks (s.sbIn i)).map fun k =>
    ⟨g.operands (s.sb.commitPointer k), (s.commitIn i).written k, s.wdata i k⟩

/-- What the decoder promises of an instruction. -/
structure Decoded (e : IssueInstr b) : Prop where
  /-- CSR instructions and AMOs write integer registers -/
  csr : e.sbe.fu = .csr → e.sbe.op.rdFpr = false
  amo : e.sbe.op.kind = .amo → e.sbe.fu = .store ∧ e.sbe.op.rdFpr = false
  /-- fences and stores that are legal write nothing; only a hypervisor fence may name a register, and
  a hypervisor store, which the decoder lets through without `RVH` too -/
  quiet : e.sbe.ex.valid = false → e.sbe.op.kind ≠ .other ∨ e.sbe.fu = .store → e.sbe.op.kind ≠ .amo → e.sbe.dest = none
  /-- nor does anything without a functional unit -/
  none : e.sbe.fu = .none → e.sbe.dest = none
  noOffload : e.sbe.fu ≠ .cvxif

instance (e : IssueInstr b) : Decidable (Decoded e) :=
  decidable_of_iff ((e.sbe.fu = .csr → e.sbe.op.rdFpr = false) ∧
    (e.sbe.op.kind = .amo → e.sbe.fu = .store ∧ e.sbe.op.rdFpr = false) ∧
    (e.sbe.ex.valid = false → e.sbe.op.kind ≠ .other ∨ e.sbe.fu = .store → e.sbe.op.kind ≠ .amo → e.sbe.dest = none) ∧
    (e.sbe.fu = .none → e.sbe.dest = none) ∧ e.sbe.fu ≠ .cvxif)
    ⟨fun h => ⟨h.1, h.2.1, h.2.2.1, h.2.2.2.1, h.2.2.2.2⟩, fun h => ⟨h.csr, h.amo, h.quiet, h.none, h.noOffload⟩⟩

/-- What the stage is promised. -/
structure Ok (s : IssueStage b) (i : IssueIn b p) : Prop where
  decoded : i.decodedInstrValid = true → Decoded i.decodedInstr
  /-- an instruction in the scoreboard is written back once -/
  writeBack : ∀ k, (i.wb k).wtValid = true →
    (s.sb.mem (i.wb k).transId).issued = true ∧ (s.sb.mem (i.wb k).transId).sbe.valid = false
  distinct : ∀ k l, (i.wb k).wtValid = true → (i.wb l).wtValid = true → (i.wb k).transId = (i.wb l).transId → k = l
  /-- an AMO is answered while it is committed -/
  amo : i.amoAck = true → (s.commitIn i).ready = true ∧ (s.commitIn i).isAmo = true

instance (s : IssueStage b) (i : IssueIn b p) : Decidable (s.Ok i) :=
  decidable_of_iff ((i.decodedInstrValid = true → Decoded i.decodedInstr) ∧
    (∀ k, (i.wb k).wtValid = true →
      (s.sb.mem (i.wb k).transId).issued = true ∧ (s.sb.mem (i.wb k).transId).sbe.valid = false) ∧
    (∀ k l, (i.wb k).wtValid = true → (i.wb l).wtValid = true → (i.wb k).transId = (i.wb l).transId → k = l) ∧
    (i.amoAck = true → (s.commitIn i).ready = true ∧ (s.commitIn i).isAmo = true))
    ⟨fun h => ⟨h.1, h.2.1, h.2.2.1, h.2.2.2⟩, fun h => ⟨h.decoded, h.writeBack, h.distinct, h.amo⟩⟩

end IssueStage
end Culsans.Core
