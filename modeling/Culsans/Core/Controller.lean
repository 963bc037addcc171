import Mathlib.Tactic.SplitIfs
import Culsans.Core.Scoreboard

/-! # The flush controller

`controller`, with the fences the commit stage asks for: which parts of the pipeline are flushed,
when the core is halted, and the sequence of a `fence.t` up to the reset of the microarchitecture.
The overflow bit of the counters is not used and left out.
-/

namespace Culsans.Core
open Library

/-! ### The fences of the commit stage -/

namespace CommitIn
variable {b : ℕ} (i : CommitIn b)

/-- A fence of this kind is on the first port, and no store is pending. -/
def fences (k : CommitOp) : Bool := i.ready && (i.commitInstr 0).op.kind == k && i.noStPending

/-- `fence_i_o`: a flush of the data cache that the commit stage sees also ends as a `FENCE.I`. -/
def fenceI : Bool :=
  i.ready && ((i.commitInstr 0).op.kind == .fenceI || i.flushDcache && !((i.commitInstr 0).fu == .store)) &&
    i.noStPending

end CommitIn

/-! ### The controller -/

/-- `DCACHE_TYPE == WB`, `DCACHE_COHERENT` and `RVH` -/
structure CtrlCfg where
  writeBack : Bool
  coherent : Bool
  rvh : Bool

/-- `fence_t_state_e` -/
inductive FenceTState
  | idle | flushDcache | drainReqs | pad | rstUarch
deriving DecidableEq

structure Controller where
  fenceT : FenceTState
  rstUarchCnt : BitVec 4
  fenceActive : Bool
  /-- `flush_dcache_o` is a register -/
  flushDcache : Bool
  rstAddr : BitVec 64
  timeIrq : Bool
  privLvl : BitVec 2
  cacheInit : BitVec 3
  drainCnt : BitVec 4
  padCnt : BitVec 32
deriving DecidableEq

structure CtrlIn where
  v : Bool
  flushDcacheAck : Bool
  pcCommit : BitVec 64
  haltCsr : Bool
  cacheBusy : Bool
  fenceTPad : BitVec 32
  fenceTSrcSel : Bool
  timeIrq : Bool
  privLvl : BitVec 2
  eret : Bool
  exValid : Bool
  setDebugPc : Bool
  /-- `resolved_branch_i.is_mispredict` -/
  isMispredict : Bool
  flushCsr : Bool
  /-- `fence_i_i` -/
  fenceI : Bool
  /-- `fence_i` -/
  fence : Bool
  fenceT : Bool
  sfenceVma : Bool
  hfenceVvma : Bool
  hfenceGvma : Bool
  flushCommit : Bool

/-- What `flush_ctrl` drives. -/
structure FlushOut where
  setPcCommit : Bool
  flushIf : Bool
  flushUnissuedInstr : Bool
  flushId : Bool
  flushEx : Bool
  flushDcache : Bool
  flushIcache : Bool
  flushTlb : Bool
  flushTlbVvma : Bool
  flushTlbGvma : Bool
  flushBp : Bool
  fenceActive : Bool
  rstAddr : BitVec 64

/-- Flush the whole pipeline and go on at the commit stage. -/
def FlushOut.restart (o : FlushOut) : FlushOut :=
  { o with setPcCommit := true, flushIf := true, flushUnissuedInstr := true, flushId := true, flushEx := true }

/-- Flush the data cache. -/
def FlushOut.clean (o : FlushOut) : FlushOut := { o with flushDcache := true, fenceActive := true }

/-- `counter` -/
def counter {w : ℕ} (q : BitVec w) (clear en load down : Bool) (d : BitVec w) : BitVec w :=
  if clear then 0 else if load then d else if en then if down then q - 1 else q + 1 else q

namespace Controller
variable (cfg : CtrlCfg) (s : Controller) (i : CtrlIn)

def reset (bootAddr : BitVec 64) : Controller := ⟨.idle, 0, false, false, bootAddr, false, 3, 0, 0, 0⟩

/-- `flush_ctrl`; later conditions override earlier ones. -/
def flushCtrl : FlushOut :=
  let o : FlushOut := ⟨false, false, false, false, false, false, false, false, false, false, false, s.fenceActive,
    s.rstAddr⟩
  let o := if i.isMispredict then { o with flushUnissuedInstr := true, flushIf := true } else o
  let o := if i.fence then if cfg.writeBack && !cfg.coherent then o.restart.clean else o.restart else o
  let o := if i.fenceI then
      let o := { o.restart with flushIcache := true }
      if cfg.writeBack then o.clean else o
    else o
  let o := if cfg.writeBack then
      if i.flushDcacheAck && s.fenceActive then { o with fenceActive := false }
      else if s.fenceActive then { o with flushDcache := true } else o
    else o
  let o := if i.sfenceVma then
      if cfg.rvh && i.v then { o.restart with flushTlbVvma := true } else { o.restart with flushTlb := true }
    else o
  let o := if cfg.rvh && i.hfenceVvma then { o.restart with flushTlbVvma := true } else o
  let o := if cfg.rvh && i.hfenceGvma then { o.restart with flushTlbGvma := true } else o
  let o := if i.fenceT then { o.clean with flushIcache := true, rstAddr := i.pcCommit + 4 } else o
  let o := if i.flushCsr || i.flushCommit then o.restart else o
  if i.exValid || i.eret || i.setDebugPc then { o.restart with setPcCommit := false, flushBp := true } else o

/-- `halt_o` -/
def halt : Bool := i.haltCsr || s.fenceActive || s.fenceT != .idle

/-- `rst_uarch_no` -/
def rstUarchN : Bool := s.fenceT != .rstUarch

/-- `stall_cache_o` -/
def stallCache : Bool := s.fenceT != .idle

/-- `cache_init_no` -/
def cacheInitN : Bool := s.cacheInit != 0

/-- `fence_t_ceil_o` -/
def fenceTCeil : BitVec 32 :=
  if s.fenceT == .drainReqs && s.drainCnt == 15 then if s.padCnt == 0 then 0 else i.fenceTPad - s.padCnt else 0

/-- `fence_t_state_d` -/
def fenceTN : FenceTState :=
  match s.fenceT with
  | .idle => if i.fenceT then .flushDcache else .idle
  | .flushDcache => if i.flushDcacheAck then .drainReqs else .flushDcache
  | .drainReqs => if s.drainCnt == 15 then .pad else .drainReqs
  | .pad => if s.padCnt == 0 then .rstUarch else .pad
  | .rstUarch => if s.rstUarchCnt == 15 then .idle else .rstUarch

/-- `rst_uarch_cnt_d` -/
def rstUarchCntN : BitVec 4 :=
  if s.fenceT == .rstUarch then if s.rstUarchCnt == 15 then 0 else s.rstUarchCnt + 1 else s.rstUarchCnt

/-- Padding starts at a timer interrupt, or when user mode is left. -/
def loadPadCnt : Bool :=
  if i.fenceTSrcSel then s.privLvl == 0 && i.privLvl != 0 else i.timeIrq && !s.timeIrq

def step : Controller where
  fenceT := s.fenceTN i
  rstUarchCnt := s.rstUarchCntN
  fenceActive := (s.flushCtrl cfg i).fenceActive
  flushDcache := (s.flushCtrl cfg i).flushDcache
  rstAddr := (s.flushCtrl cfg i).rstAddr
  timeIrq := i.timeIrq
  privLvl := i.privLvl
  cacheInit := s.cacheInit.setWidth 2 ++ BitVec.ofBool (s.fenceT == .rstUarch)
  drainCnt := counter s.drainCnt i.cacheBusy (s.drainCnt != 15) false false 0
  padCnt := counter s.padCnt false (s.padCnt != 0) (s.loadPadCnt i) true i.fenceTPad

end Controller

/-! ### What is kept -/

namespace FlushOut
variable (o : FlushOut)

@[simp] theorem restart_flushDcache : o.restart.flushDcache = o.flushDcache := rfl
@[simp] theorem restart_fenceActive : o.restart.fenceActive = o.fenceActive := rfl
@[simp] theorem restart_rstAddr : o.restart.rstAddr = o.rstAddr := rfl
@[simp] theorem clean_flushDcache : o.clean.flushDcache = true := rfl
@[simp] theorem clean_fenceActive : o.clean.fenceActive = true := rfl
@[simp] theorem clean_rstAddr : o.clean.rstAddr = o.rstAddr := rfl

end FlushOut

namespace Controller
variable {cfg : CtrlCfg} {s : Controller} {i : CtrlIn}

theorem flushCtrl_fenceActive : (s.flushCtrl cfg i).fenceActive =
    (i.fenceT || !(cfg.writeBack && i.flushDcacheAck && s.fenceActive) &&
      (s.fenceActive || cfg.writeBack && (i.fence && !cfg.coherent || i.fenceI))) := by
  simp only [flushCtrl, apply_ite FlushOut.fenceActive, FlushOut.restart_fenceActive, FlushOut.clean_fenceActive,
    ite_self]
  cases cfg.writeBack <;> cases i.fenceT <;> cases i.flushDcacheAck <;> cases s.fenceActive <;> cases i.fence <;>
    cases i.fenceI <;> cases cfg.coherent <;> rfl

theorem flushCtrl_flushDcache : (s.flushCtrl cfg i).flushDcache =
    (i.fenceT || cfg.writeBack && (i.fence && !cfg.coherent || i.fenceI || !i.flushDcacheAck && s.fenceActive)) := by
  simp only [flushCtrl, apply_ite FlushOut.flushDcache, FlushOut.restart_flushDcache, FlushOut.clean_flushDcache,
    ite_self]
  cases cfg.writeBack <;> cases i.fenceT <;> cases i.flushDcacheAck <;> cases s.fenceActive <;> cases i.fence <;>
    cases i.fenceI <;> cases cfg.coherent <;> rfl

theorem flushCtrl_rstAddr : (s.flushCtrl cfg i).rstAddr = if i.fenceT then i.pcCommit + 4 else s.rstAddr := by
  simp only [flushCtrl, apply_ite FlushOut.rstAddr, FlushOut.restart_rstAddr, FlushOut.clean_rstAddr, ite_self]

/-- The fences come from the commit stage, which commits nothing in a halted core. -/
structure Fits (s : Controller) (i : CtrlIn) : Prop where
  fence : s.halt i = true → i.fence = false
  fenceI : s.halt i = true → i.fenceI = false
  fenceT : s.halt i = true → i.fenceT = false

theorem halt_of_active (h : s.fenceActive = true) : s.halt i = true := by
  simp [halt, h]

/-- While the data cache is asked to flush, the core is halted. -/
theorem active_step (hfit : s.Fits i) (h : (s.step cfg i).flushDcache = true) :
    (s.step cfg i).fenceActive = true := by
  change (s.flushCtrl cfg i).flushDcache = true at h
  change (s.flushCtrl cfg i).fenceActive = true
  rw [flushCtrl_flushDcache] at h
  rw [flushCtrl_fenceActive]
  cases ha : s.fenceActive with
  | false =>
    simp only [ha, Bool.and_false, Bool.or_false] at h
    simp [h]
  | true =>
    have hh : s.halt i = true := halt_of_active ha
    simp only [hfit.fence hh, hfit.fenceI hh, hfit.fenceT hh, ha, Bool.false_and, Bool.false_or, Bool.and_true,
      Bool.and_eq_true, Bool.not_eq_true'] at h
    simp [h.1, h.2]

end Controller
end Culsans.Core
