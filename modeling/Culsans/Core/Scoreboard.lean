import Mathlib.Logic.Function.Basic
import Mathlib.Tactic.SplitIfs
import Culsans.Library.CircularSlots
import Culsans.Library.Machine
import Culsans.Library.Sizes

/-! # The scoreboard

The queue of issued instructions with its two commit ports. `NR_ENTRIES` is `2 ^ (b + 1)`,
since a scoreboard of one entry would leave its pointers without bits; `p` is the
number of write-back ports. The trace fields of RVFI are left out.
-/

namespace Culsans.Core
open Library

/-- `fu_t` -/
inductive Fu
  | none | load | store | alu | ctrlFlow | mult | csr | fpu | fpuVec | cvxif
deriving DecidableEq

/-- The operations the commit stage tells apart. -/
inductive CommitOp
  | fenceT | sfenceVma | hfenceVvma | hfenceGvma | fenceI | fence | amo | other
deriving DecidableEq

/-- `fu_op`, as far as the scoreboard and the commit stage look at it. -/
structure SbOp where
  kind : CommitOp
  /-- `is_rd_fpr` -/
  rdFpr : Bool
deriving DecidableEq

/-- `exception_t` -/
structure Exception where
  cause : BitVec 64
  tval : BitVec 64
  valid : Bool

/-- `scoreboard_entry_t` -/
structure SbEntry (b : ℕ) where
  pc : BitVec 64
  transId : BitVec (b + 1)
  fu : Fu
  op : SbOp
  rd : BitVec 6
  result : BitVec 64
  valid : Bool
  ex : Exception
  /-- `bp.predict_address` -/
  predictAddress : BitVec 64

/-- What an instruction is from its issue on; the results are written later. -/
structure Instr where
  pc : BitVec 64
  fu : Fu
  op : SbOp
deriving DecidableEq

def SbEntry.instr {b : ℕ} (e : SbEntry b) : Instr := ⟨e.pc, e.fu, e.op⟩

/-- `sb_mem_t` -/
structure SbMem (b : ℕ) where
  issued : Bool
  isRdFprFlag : Bool
  sbe : SbEntry b

/-- The registers of the scoreboard. -/
structure Scoreboard (b : ℕ) where
  mem : BitVec (b + 1) → SbMem b
  issueCnt : BitVec (b + 2)
  issuePointer : BitVec (b + 1)
  commitPointer : Fin 2 → BitVec (b + 1)

/-- One write-back port. -/
structure WbPort (b : ℕ) where
  transId : BitVec (b + 1)
  data : BitVec 64
  ex : Exception
  wtValid : Bool

structure SbIn (b p : ℕ) where
  flushUnissuedInstr : Bool
  flush : Bool
  unresolvedBranch : Bool
  commitAck : Fin 2 → Bool
  decodedInstr : SbEntry b
  decodedInstrValid : Bool
  issueAck : Bool
  /-- `resolved_branch_i.target_address` -/
  targetAddress : BitVec 64
  wb : Fin p → WbPort b
  xWe : Bool

namespace SbMem
variable {b : ℕ}

def zero : SbMem b := ⟨false, false, ⟨0, 0, .none, ⟨.other, false⟩, 0, 0, false, ⟨0, 0, false⟩, 0⟩⟩

def setValid (m : SbMem b) : SbMem b := { m with sbe := { m.sbe with valid := true } }

/-- A commit or a flush takes the instruction out. -/
def retire (m : SbMem b) : SbMem b := { m with issued := false, sbe := { m.sbe with valid := false } }

def flushed (m : SbMem b) : SbMem b :=
  { m with issued := false
           sbe := { m.sbe with valid := false, ex := { m.sbe.ex with valid := false } } }

/-- A result is written; `old` is the entry at the start of the cycle. -/
def writeResult (m old : SbMem b) (target : BitVec 64) (wb : WbPort b) (xWe : Bool) : SbMem b :=
  { m with sbe := { m.sbe with
      valid := true
      result := wb.data
      predictAddress := target
      rd := if m.sbe.fu = .cvxif ∧ xWe = false then 0 else m.sbe.rd
      ex := if wb.ex.valid then wb.ex
        else if old.sbe.fu = .fpu ∨ old.sbe.fu = .fpuVec then { m.sbe.ex with cause := wb.ex.cause }
        else m.sbe.ex } }

end SbMem

namespace Scoreboard
variable {b p : ℕ} (q : Scoreboard b) (i : SbIn b p)

def reset : Scoreboard b := ⟨fun _ => .zero, 0, 0, fun _ => 0⟩

def issueFull : Bool := q.issueCnt.getLsbD (b + 1)

/-- `commit_instr_o` -/
def commitInstr (k : Fin 2) : SbEntry b := { (q.mem (q.commitPointer k)).sbe with transId := q.commitPointer k }

/-- `issue_instr_valid_o` -/
def issueInstrValid : Bool := i.decodedInstrValid && !i.unresolvedBranch && !q.issueFull

/-- `decoded_instr_ack_o` -/
def decodedInstrAck : Bool := i.issueAck && !q.issueFull

def issueEn : Bool := i.decodedInstrValid && q.decodedInstrAck i && !i.flushUnissuedInstr

/-! `mem_n`, one part of `issue_fifo` after the other -/

def memIssue : BitVec (b + 1) → SbMem b :=
  if q.issueEn i then
    Function.update q.mem q.issuePointer ⟨true, i.decodedInstr.op.rdFpr, i.decodedInstr⟩
  else q.mem

/-- An instruction for no functional unit is valid at once. -/
def memNone : BitVec (b + 1) → SbMem b := fun j =>
  if (q.mem j).sbe.fu = .none ∧ (q.mem j).issued = true then (q.memIssue i j).setValid else q.memIssue i j

/-- A result for an instruction that is no longer there is dropped. -/
def writeBack (m : BitVec (b + 1) → SbMem b) (wb : WbPort b) : BitVec (b + 1) → SbMem b :=
  if wb.wtValid && (q.mem wb.transId).issued then
    Function.update m wb.transId
      ((m wb.transId).writeResult (q.mem wb.transId) i.targetAddress wb i.xWe)
  else m

def memWb : BitVec (b + 1) → SbMem b :=
  ((List.finRange p).map i.wb).foldl (q.writeBack i) (q.memNone i)

/-- The body of the loop over the commit ports. -/
def commitPort (m : BitVec (b + 1) → SbMem b) (k : Fin 2) : BitVec (b + 1) → SbMem b :=
  if i.commitAck k then Function.update m (q.commitPointer k) (m (q.commitPointer k)).retire else m

/-- What the loop leaves when it ends (`commitLoop`). -/
def memCommit : BitVec (b + 1) → SbMem b := (List.finRange 2).foldl (q.commitPort i) (q.memWb i)

def memN : BitVec (b + 1) → SbMem b := if i.flush then fun j => (q.memCommit i j).flushed else q.memCommit i

def numCommit : BitVec 2 := (BitVec.ofBool (i.commitAck 1)).setWidth 2 + (BitVec.ofBool (i.commitAck 0)).setWidth 2

/-- `commit_pointer_n[0]` -/
def commitPointer0 : BitVec (b + 1) := if i.flush then 0 else q.commitPointer 0 + (numCommit i).setWidth (b + 1)

def step : Scoreboard b where
  mem := q.memN i
  issueCnt := if i.flush then 0 else
    q.issueCnt - (numCommit i).setWidth (b + 2) + (BitVec.ofBool (q.issueEn i)).setWidth (b + 2)
  issuePointer := if i.flush then 0 else q.issuePointer + (BitVec.ofBool (q.issueEn i)).setWidth (b + 1)
  commitPointer
    | 0 => q.commitPointer0 i
    | 1 => if i.flush then 0 else q.commitPointer0 i + 1

/-! ### The loop over the commit ports -/

/-- The loop, if it ends within `fuel` tests of its condition. Its index has as many bits as a pointer. -/
def commitLoop : ℕ → BitVec (b + 1) → (BitVec (b + 1) → SbMem b) → Option (BitVec (b + 1) → SbMem b)
  | 0, _, _ => none
  | fuel + 1, k, m => if k.toNat < 2 then commitLoop fuel (k + 1) (q.commitPort i m (Fin.ofNat 2 k.toNat)) else some m

/-- A cycle, if the loop ends within `fuel` tests. -/
def cycleWithin (fuel : ℕ) : Option (Scoreboard b) :=
  (q.commitLoop i fuel 0 (q.memWb i)).map fun m => { q.step i with
    mem := if i.flush then fun j => (m j).flushed else m }

/-- An index of two bits or more gets to the number of ports. -/
theorem commitLoop_ends (hb : 0 < b) (m : BitVec (b + 1) → SbMem b) :
    q.commitLoop i 3 0 m = some ((List.finRange 2).foldl (q.commitPort i) m) := by
  have hp : 4 ≤ 2 ^ (b + 1) := Nat.pow_le_pow_right (n := 2) (by omega) (show 2 ≤ b + 1 by omega)
  have h1 : (0 + 1 : BitVec (b + 1)).toNat = 1 := by
    simp [Nat.mod_eq_of_lt (show 1 < 2 ^ (b + 1) by omega)]
  have h2 : (0 + 1 + 1 : BitVec (b + 1)).toNat = 2 := by
    rw [BitVec.toNat_add, h1]
    simp [Nat.mod_eq_of_lt (show 1 < 2 ^ (b + 1) by omega), Nat.mod_eq_of_lt (show 2 < 2 ^ (b + 1) by omega)]
  simp only [commitLoop, h1, h2]
  rfl

theorem cycleWithin_ends (hb : 0 < b) : q.cycleWithin i 3 = some (q.step i) := by
  rw [cycleWithin, commitLoop_ends q i hb]
  rfl

/-- An index of one bit never gets there. -/
theorem commitLoop_hangs (q : Scoreboard 0) (i : SbIn 0 p) (fuel : ℕ) (k : BitVec 1) (m : BitVec 1 → SbMem 0) :
    q.commitLoop i fuel k m = none := by
  induction fuel generalizing k m with
  | zero => rfl
  | succ fuel ih =>
    rw [commitLoop, if_pos k.isLt]
    exact ih _ _

theorem cycleWithin_hangs (q : Scoreboard 0) (i : SbIn 0 p) (fuel : ℕ) : q.cycleWithin i fuel = none := by
  rw [cycleWithin, commitLoop_hangs]
  rfl

end Scoreboard

/-! ### The commit stage -/

/-- The inputs of `commit_stage` that decide what is committed. -/
structure CommitIn (b : ℕ) where
  halt : Bool
  flushDcache : Bool
  singleStep : Bool
  commitInstr : Fin 2 → SbEntry b
  amoAck : Bool
  csrExceptionValid : Bool
  commitLsuReady : Bool
  noStPending : Bool

namespace CommitIn
variable {b : ℕ} (i : CommitIn b)

/-- The instruction on the first port may commit. -/
def ready : Bool := (i.commitInstr 0).valid && !(i.commitInstr 0).ex.valid && !i.halt

def isAmo : Bool := (i.commitInstr 0).op.kind == .amo

/-- `commit_lsu_o` -/
def commitLsu : Bool := i.ready && (i.commitInstr 0).fu == .store && !i.isAmo && i.commitLsuReady

/-- `commit_ack_o[0]`; later conditions override earlier ones. -/
def commitAck0 : Bool :=
  let e := i.commitInstr 0
  if i.ready then
    let a := true
    let a := if e.fu == .store && !i.isAmo then i.commitLsuReady else a
    let a := if e.fu == .fpu || e.fu == .fpuVec then true else a
    let a := if e.fu == .csr then !i.csrExceptionValid else a
    let a := if e.op.kind == .fenceT || e.op.kind == .sfenceVma || e.op.kind == .hfenceVvma
      || e.op.kind == .hfenceGvma then i.noStPending else a
    let a := if e.op.kind == .fenceI || (i.flushDcache && !(e.fu == .store)) then i.noStPending else a
    let a := if e.op.kind == .fence then i.noStPending else a
    if i.isAmo then i.amoAck else a
  else false

/-- `exception_o.valid` -/
def exceptionValid : Bool :=
  (i.commitInstr 0).valid && (i.csrExceptionValid || (i.commitInstr 0).ex.valid) && !i.halt

/-- `commit_ack_o[1]` -/
def commitAck1 : Bool :=
  let e := i.commitInstr 0
  let f := i.commitInstr 1
  i.commitAck0 && f.valid && !i.halt && !(e.fu == .csr) && !(e.op.kind == .fenceT) && !i.flushDcache && !i.isAmo
    && !i.singleStep && !i.exceptionValid && !f.ex.valid
    && (f.fu == .alu || f.fu == .load || f.fu == .ctrlFlow || f.fu == .mult || f.fu == .fpu || f.fu == .fpuVec)

/-- `commit_ack_o` -/
def commitAck : Fin 2 → Bool
  | 0 => i.commitAck0
  | 1 => i.commitAck1

/-- Only valid instructions are committed, on the second port only with the first. -/
theorem commitAck_valid (k : Fin 2) (h : i.commitAck k = true) : (i.commitInstr k).valid = true := by
  match k, h with
  | 0, h =>
    by_contra hv
    simp [commitAck, commitAck0, ready, hv] at h
  | 1, h =>
    simp only [commitAck, commitAck1, Bool.and_eq_true] at h
    simp_all

theorem commitAck_first (h : i.commitAck 1 = true) : i.commitAck 0 = true := by
  simp only [commitAck, commitAck1, Bool.and_eq_true] at h
  simp_all [commitAck]

end CommitIn
end Culsans.Core
