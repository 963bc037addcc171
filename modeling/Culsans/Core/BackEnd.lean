import Culsans.Core.Controller
import Culsans.Core.OperandRuns

/-! # The issue stage under its controller

The issue and commit stages with the flush controller and the reset of the microarchitecture, as
`cva6` connects them. The controller halts the core while the data cache is flushed, so that the
commit stage never writes a register for an instruction that it holds back.
-/

namespace Culsans.Core
open Library

/-- `rstUarchN` is the register that delays the reset of the controller by a cycle. -/
structure BackEnd (b : ℕ) where
  issue : IssueStage b
  ctrl : Controller
  rstUarchN : Bool

/-- The inputs of the two parts; what they drive for each other is not used. -/
structure BackEndIn (b p : ℕ) where
  issue : IssueIn b p
  ctrl : CtrlIn

/-- A reset of the microarchitecture keeps the register files. -/
def IssueStage.uarchReset {b : ℕ} (s : IssueStage b) : IssueStage b := { s with sb := .reset, multValid := false }

namespace BackEnd
variable {b p : ℕ} (cfg : CtrlCfg) (s : BackEnd b) (i : BackEndIn b p)

/-- The issue stage's inputs but for the flushes. -/
def issueHalt : IssueIn b p := { i.issue with halt := s.ctrl.halt i.ctrl, flushDcache := s.ctrl.flushDcache }

def commitIn : CommitIn b := s.issue.commitIn (s.issueHalt i)

def ctrlIn : CtrlIn :=
  let c := s.commitIn i
  { i.ctrl with
    pcCommit := (c.commitInstr 0).pc
    exValid := c.exceptionValid
    fenceI := c.fenceI
    fence := c.fences .fence
    fenceT := c.fences .fenceT
    sfenceVma := c.fences .sfenceVma
    hfenceVvma := c.fences .hfenceVvma
    hfenceGvma := c.fences .hfenceGvma
    flushCommit := c.flushCommit }

def issueIn : IssueIn b p :=
  let o := s.ctrl.flushCtrl cfg (s.ctrlIn i)
  { s.issueHalt i with flush := o.flushId, flushUnissuedInstr := o.flushUnissuedInstr }

/-- The asynchronous reset holds in the cycles after which `rst_uarch_n` is low or has been low. -/
def step : BackEnd b where
  issue := if s.rstUarchN && s.ctrl.rstUarchN then s.issue.step (s.issueIn cfg i)
    else (s.issue.step (s.issueIn cfg i)).uarchReset
  ctrl := s.ctrl.step cfg (s.ctrlIn i)
  rstUarchN := s.ctrl.rstUarchN

/-- After a reset, with any register contents. -/
def Init (bootAddr : BitVec 64) (regs : Reg → BitVec 64) (s : BackEnd b) : Prop :=
  (s.issue.sb = .reset ∧ s.issue.read = regs ∧ regs (.x 0) = 0) ∧ s.ctrl = .reset bootAddr ∧ s.rstUarchN = false

end BackEnd

/-- The back end with the observer of its issue and commit ports. -/
def backEnd (b p : ℕ) (cfg : CtrlCfg) (bootAddr : BitVec 64) (regs : Reg → BitVec 64) :
    Machine (BackEnd b × IssueStage.OperandLog b) (BackEndIn b p) :=
  (⟨BackEnd.Init bootAddr regs, BackEnd.step cfg⟩ : Machine (BackEnd b) (BackEndIn b p)).observe ⟨fun _ => [], []⟩
    fun g s i => IssueStage.watch g s.issue (s.issueIn cfg i)

namespace BackEnd
variable {b p : ℕ} {cfg : CtrlCfg} {s : BackEnd b} {g : IssueStage.OperandLog b} {i : BackEndIn b p}
  {regs : Reg → BitVec 64} {bootAddr : BitVec 64}

theorem commitIn_issueIn : s.issue.commitIn (s.issueIn cfg i) = s.commitIn i := rfl

theorem not_ready_of_halt (h : s.ctrl.halt i.ctrl = true) : (s.commitIn i).ready = false := by
  have hh : (s.commitIn i).halt = true := h
  simp [CommitIn.ready, hh]

/-- A halted core has no fences. -/
theorem fits : s.ctrl.Fits (s.ctrlIn i) where
  fence h := by
    have hr := not_ready_of_halt (s := s) (i := i) h
    simp [ctrlIn, CommitIn.fences, hr]
  fenceI h := by
    have hr := not_ready_of_halt (s := s) (i := i) h
    simp [ctrlIn, CommitIn.fenceI, hr]
  fenceT h := by
    have hr := not_ready_of_halt (s := s) (i := i) h
    simp [ctrlIn, CommitIn.fences, hr]

/-- The first commit port holds back no instruction whose register it writes. -/
theorem not_held (hinv : s.issue.Inv regs g) (hf : s.ctrl.flushDcache = true → s.ctrl.fenceActive = true) :
    ¬ (s.issue.commitIn (s.issueIn cfg i)).Held := by
  rw [commitIn_issueIn]
  rintro ⟨hr, ha, hd, hwait⟩
  obtain ⟨hvalid, hex⟩ := CommitIn.valid_of_ready hr
  have hent := hinv.entry _ (hinv.sb.valid _ hvalid)
  have hamo : (s.issue.sb.mem (s.issue.sb.commitPointer 0)).sbe.op.kind ≠ .amo := CommitIn.isAmo_eq_false.mp ha
  have hquiet := fun hk => hd (hent.quiet hex hk hamo)
  rcases hwait with ⟨hst, -⟩ | ⟨hk | ⟨hfl, -⟩, -⟩
  · exact hquiet (.inr hst)
  · exact hquiet (.inl hk)
  · -- the data cache is flushed, and the core is halted
    have hh : s.ctrl.halt i.ctrl = true := Controller.halt_of_active (hf hfl)
    rw [not_ready_of_halt hh] at hr
    exact Bool.false_ne_true hr

end BackEnd

namespace IssueStage
variable {b : ℕ} {s : IssueStage b} {g : OperandLog b} {regs : Reg → BitVec 64}

/-- Nothing is in flight after a reset, and the registers are as they were. -/
theorem Inv.uarchReset (h : Inv regs s g) : Inv regs s.uarchReset g where
  sb := .reset
  entry j hj := by simp [IssueStage.uarchReset, Scoreboard.reset, SbMem.zero] at hj
  unique j k hj := by simp [IssueStage.uarchReset, Scoreboard.reset, SbMem.zero] at hj
  zero := h.zero
  read := h.read
  order := h.order
  captured := by
    have hq : s.uarchReset.sb.queue = [] := by simp [IssueStage.uarchReset, Scoreboard.queue, Scoreboard.reset]
    rw [hq]
    trivial

end IssueStage

namespace BackEnd
variable {b p : ℕ} {cfg : CtrlCfg} {regs : Reg → BitVec 64} {bootAddr : BitVec 64}

theorem inv_of_reachable {x : BackEnd b × IssueStage.OperandLog b}
    (h : (backEnd b p cfg bootAddr regs).Reachable (fun x i => x.1.issue.Ok (x.1.issueIn cfg i)) x) :
    x.1.issue.Inv regs x.2 ∧ (x.1.ctrl.flushDcache = true → x.1.ctrl.fenceActive = true) := by
  induction h with
  | init h0 =>
    obtain ⟨⟨⟨hs, hr, hz⟩, hc, -⟩, hg⟩ := h0
    rw [hg, hc]
    exact ⟨IssueStage.inv_init hs hr hz, fun hf => absurd hf Bool.false_ne_true⟩
  | @step x i _ hok ih =>
    have hnext := IssueStage.inv_step ih.1 hok (not_held ih.1 ih.2)
    refine ⟨?_, Controller.active_step fits⟩
    change IssueStage.Inv regs (if _ then _ else _) _
    split_ifs
    · exact hnext
    · exact hnext.uarchReset

/-- In every run each instruction that commits was issued with what the ones before it had written, and
the registers hold what has been committed; two instructions in flight that have not failed write
different registers. -/
theorem operands_in_order {x : BackEnd b × IssueStage.OperandLog b}
    (h : (backEnd b p cfg bootAddr regs).Reachable (fun x i => x.1.issue.Ok (x.1.issueIn cfg i)) x) :
    InOrder regs x.2.done ∧ (∀ r, x.1.issue.read r = lastWrite regs x.2.done r) ∧
      ∀ j k, (x.1.issue.sb.mem j).issued = true → (x.1.issue.sb.mem k).issued = true →
        (x.1.issue.sb.mem j).sbe.ex.valid = false → (x.1.issue.sb.mem k).sbe.ex.valid = false →
        (x.1.issue.sb.mem j).sbe.dest = (x.1.issue.sb.mem k).sbe.dest → (x.1.issue.sb.mem j).sbe.dest ≠ none →
          j = k := by
  obtain ⟨hinv, -⟩ := inv_of_reachable h
  exact ⟨hinv.order, hinv.read, hinv.unique⟩

/-- An instruction of the ALU, with an immediate or two register operands. -/
def aluInstr (rd rs : BitVec 6) (imm : Bool) : IssueInstr 1 :=
  ⟨⟨0, 0, .alu, ⟨.other, false⟩, rd, 0, false, ⟨0, 0, false⟩, 0⟩, rs, rs, imm, false, false, false, false, false⟩

/-- A cycle that offers `e` if there is one and writes `data` back to slot `t`. -/
def aluCycle (e : Option (IssueInstr 1)) (wb : Bool) (t : BitVec 2) (data : BitVec 64) : BackEndIn 1 1 where
  issue :=
    { decodedInstr := e.getD (aluInstr 0 0 true), decodedInstrValid := e.isSome,
      flush := false, flushUnissuedInstr := false
      targetAddress := 0, wb := fun _ => ⟨t, data, ⟨0, 0, false⟩, wb⟩, xWe := false, fluReady := true, lsuReady := true
      fpuReady := true, cvxifReady := true, halt := false, flushDcache := false, singleStep := false, amoAck := false
      amoResult := 0, csrExceptionValid := false, csrRdata := 0, commitLsuReady := true, noStPending := true }
  ctrl := ⟨false, false, 0, false, false, 0, false, false, 3, false, false, false, false, false, false, false, false,
    false, false, false, false⟩

/-- `x6` is computed from `x5` when the result for `x5` is just being written back, then `x7` from `x6`. -/
def forwarding : List (BackEndIn 1 1) :=
  [aluCycle none false 0 0, aluCycle none false 0 0, aluCycle (some (aluInstr 5 0 true)) false 0 0,
    aluCycle (some (aluInstr 6 5 false)) true 0 7, aluCycle (some (aluInstr 7 6 false)) true 1 14,
    aluCycle none true 2 28, aluCycle none false 0 0]

def backEndReset : BackEnd 1 × IssueStage.OperandLog 1 :=
  (⟨⟨.reset, fun _ => 0, fun _ => 0, false⟩, .reset 0, false⟩, ⟨fun _ => [], []⟩)

def afterForwarding : BackEnd 1 × IssueStage.OperandLog 1 :=
  (backEnd 1 1 ⟨true, true, false⟩ 0 fun _ => 0).run backEndReset forwarding

set_option maxRecDepth 20000 in
theorem operands_in_order_forwarding :
    afterForwarding.2.done.map (·.operands) =
        [[(.x 0, 0)], [(.x 5, 7), (.x 5, 7)], [(.x 6, 14), (.x 6, 14)]] ∧
      InOrder (fun _ => 0) afterForwarding.2.done ∧ afterForwarding.1.issue.read (.x 7) = 28 := by
  have hinit : (backEnd 1 1 ⟨true, true, false⟩ 0 fun _ => 0).Reachable
      (fun x i => x.1.issue.Ok (x.1.issueIn ⟨true, true, false⟩ i)) backEndReset := by
    refine .init ⟨⟨⟨rfl, ?_, rfl⟩, rfl, rfl⟩, rfl⟩
    funext r
    cases r <;> rfl
  have hok : (backEnd 1 1 ⟨true, true, false⟩ 0 fun _ => 0).Along
      (fun x i => x.1.issue.Ok (x.1.issueIn ⟨true, true, false⟩ i)) backEndReset forwarding := by decide +kernel
  have hreach : (backEnd 1 1 ⟨true, true, false⟩ 0 fun _ => 0).Reachable
      (fun x i => x.1.issue.Ok (x.1.issueIn ⟨true, true, false⟩ i)) afterForwarding := hinit.run hok
  exact ⟨by decide +kernel, (operands_in_order hreach).1, by decide +kernel⟩

end BackEnd
end Culsans.Core
