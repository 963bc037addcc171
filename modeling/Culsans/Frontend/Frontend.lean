import Culsans.Frontend.InstrScan
import Culsans.Frontend.QueueOrder

/-! # The front end (`frontend`, with the return address stack `ras`)

A fetch is predecoded in the cycle after the cache has returned it, and the next request goes where the
first control flow instruction in it is predicted to go. The tables `btb` and `bht` only give hints: their
outputs are inputs here.
-/

namespace Culsans.Frontend
open Culsans.Core

/-- `bht_prediction_t` -/
structure BhtPrediction where
  valid : Bool
  taken : Bool

/-- `btb_prediction_t` -/
structure BtbPrediction where
  valid : Bool
  targetAddress : BitVec 64

/-- `ras_t` -/
structure RasEntry where
  valid : Bool
  ra : BitVec 64
deriving DecidableEq

/-- The return address stack; its first entry is the top. -/
abbrev Ras (n : ℕ) := Fin (n + 1) → RasEntry

namespace Ras
variable {n : ℕ}

def reset : Ras n := fun _ => ⟨false, 0⟩

/-- `stack_d`; later conditions override earlier ones. -/
def step (q : Ras n) (flush push pop : Bool) (data : BitVec 64) : Ras n :=
  let d : Ras n := if push then Fin.cons ⟨true, data⟩ (Fin.init q) else q
  let d : Ras n := if pop then Fin.snoc (Fin.tail q) ⟨false, 0⟩ else d
  let d : Ras n := if pop && push then Fin.cons ⟨true, data⟩ (Fin.tail q) else d
  if flush then reset else d

end Ras

/-- The answer of the instruction cache, `icache_dreq_o_t`. -/
structure IcacheDreq where
  ready : Bool
  valid : Bool
  vaddr : BitVec 64
  data : BitVec 32
  exCause : BitVec 64
  exTval2 : BitVec 41
  exTinst : BitVec 64
  exGva : Bool

structure FrontendIn where
  flush : Bool
  flushBp : Bool
  resolvedBranch : BpResolve
  setPcCommit : Bool
  pcCommit : BitVec 64
  epc : BitVec 64
  eret : Bool
  trapVectorBase : BitVec 64
  exValid : Bool
  setDebugPc : Bool
  icache : IcacheDreq
  bhtPrediction : Fin 2 → BhtPrediction
  btbPrediction : Fin 2 → BtbPrediction
  fetchEntryReady : Bool

/-- `boot_addr_i`, and the address of the debug module. -/
structure FrontendCfg where
  bootAddr : BitVec 64
  debugAddr : BitVec 64

/-- The registers of `frontend`, with those of the re-aligner, the queue and the stack. -/
structure FrontEnd (depth n : ℕ) where
  fetch : FetchRegs
  icacheEx : FrontendException
  icacheGpaddr : BitVec 41
  icacheTinst : BitVec 64
  icacheGva : Bool
  btb : BtbPrediction
  bht : BhtPrediction
  npcRstLoad : Bool
  npc : BitVec 64
  speculative : Bool
  ras : Ras n
  queue : InstrQueue depth

/-- What the instructions of a fetch do to the control flow. -/
structure Speculation where
  cfType : Fin 2 → Cf
  predictAddress : BitVec 64
  rasPush : Bool
  rasPop : Bool
  rasUpdate : BitVec 64

/-- The exceptions that can occur in the front end. -/
def frontendException (cause : BitVec 64) : FrontendException :=
  if cause = instrGuestPageFault then .feInstrGuestPageFault
  else if cause = instrPageFault then .feInstrPageFault
  else if cause = instrAccessFault then .feInstrAccessFault
  else .feNone

namespace FrontEnd
variable {depth n : ℕ}

def reset : FrontEnd depth n where
  fetch := .reset
  icacheEx := .feNone
  icacheGpaddr := 0
  icacheTinst := 0
  icacheGva := false
  btb := ⟨false, 0⟩
  bht := ⟨false, false⟩
  npcRstLoad := true
  npc := 0
  speculative := false
  ras := .reset
  queue := .reset

variable (q : FrontEnd depth n)

/-! ### The instructions of a fetch -/

/-- `instruction_valid`, `addr` and `instr` -/
def slot (k : Fin 2) : Slot :=
  let r := q.fetch.realign.reAlign q.fetch.realignIn
  match k with
  | 0 => r.slot0
  | 1 => r.slot1

def scan (k : Fin 2) : InstrScan := instrScan (q.slot k).instr

def isBranch (k : Fin 2) : Bool := (q.slot k).valid && (q.scan k).isBranch
def isCall (k : Fin 2) : Bool := (q.slot k).valid && (q.scan k).isCall
def isReturn (k : Fin 2) : Bool := (q.slot k).valid && (q.scan k).isReturn
def isJump (k : Fin 2) : Bool := (q.slot k).valid && (q.scan k).isJump
def isJalr (k : Fin 2) : Bool := (q.slot k).valid && !q.isReturn k && (q.scan k).isJumpReg

/-- The index of an address in a pair of predictions. -/
def half (v : BitVec 64) : Fin 2 := if v.getLsbD 1 then 1 else 0

variable (i : FrontendIn)

/-- The prediction of an instruction over two fetches is that of its first half. -/
def bhtPredictionShifted (k : Fin 2) : BhtPrediction :=
  if k = 0 ∧ q.fetch.realign.unaligned then q.bht else i.bhtPrediction (half (q.slot k).addr)

def btbPredictionShifted (k : Fin 2) : BtbPrediction :=
  if k = 0 ∧ q.fetch.realign.unaligned then q.btb else i.btbPrediction (half (q.slot k).addr)

/-- `taken_rvi_cf` of a branch: the dynamic prediction, else backward branches. -/
def takenRvi (k : Fin 2) : Bool :=
  if (q.bhtPredictionShifted i k).valid then (q.scan k).rviBranch && (q.bhtPredictionShifted i k).taken
  else (q.scan k).rviBranch && (q.scan k).rviImm.getLsbD 63

def takenRvc (k : Fin 2) : Bool :=
  if (q.bhtPredictionShifted i k).valid then (q.scan k).rvcBranch && (q.bhtPredictionShifted i k).taken
  else (q.scan k).rvcBranch && (q.scan k).rvcImm.getLsbD 63

/-- The target of an instruction with an immediate. -/
def immTarget (rvc : Bool) (k : Fin 2) : BitVec 64 :=
  (q.slot k).addr + if rvc then (q.scan k).rvcImm else (q.scan k).rviImm

/-- One round of the loop over the instructions, from the last to the first; `consumed` is
`instr_queue_consumed`. -/
def speculate (consumed : BitVec 2) (s : Speculation) (k : Fin 2) : Speculation :=
  let s : Speculation :=
    match q.isBranch k, q.isReturn k, q.isJump k, q.isJalr k with
    | false, false, false, true =>
      let s := { s with rasPop := false, rasPush := false }
      if (q.btbPredictionShifted i k).valid then
        { s with
          predictAddress := (q.btbPredictionShifted i k).targetAddress
          cfType := Function.update s.cfType k .jumpR }
      else s
    | false, false, true, false =>
      { s with
        rasPop := false
        rasPush := false
        predictAddress := q.immTarget (q.scan k).rvcJump k
        cfType := Function.update s.cfType k .jump }
    | false, true, false, false =>
      { s with
        rasPop := (q.ras 0).valid && consumed.getLsbD k
        rasPush := false
        predictAddress := (q.ras 0).ra
        cfType := Function.update s.cfType k .ret }
    | true, false, false, false =>
      let s := { s with rasPop := false, rasPush := false }
      if q.takenRvi i k || q.takenRvc i k then
        { s with
          predictAddress := q.immTarget (q.takenRvc i k) k
          cfType := Function.update s.cfType k .branch }
      else s
    | _, _, _, _ => s
  if q.isCall k then
    { s with
      rasPush := consumed.getLsbD k
      rasUpdate := (q.slot k).addr + if (q.scan k).rvcCall then 2 else 4 }
  else s

def speculation (consumed : BitVec 2) : Speculation :=
  q.speculate i consumed (q.speculate i consumed ⟨fun _ => .noCF, 0, false, false, 0⟩ 1) 0

/-- `cf_type` and `predict_address`, which do not depend on what is consumed. -/
def cfType : Fin 2 → Cf := (q.speculation i 0).cfType
def predictAddress : BitVec 64 := (q.speculation i 0).predictAddress

/-- A prediction is followed; a return is not as long as the stack has no address. -/
def bpValid : Bool :=
  let one (k : Fin 2) := q.cfType i k != .noCF && q.cfType i k != .ret || q.cfType i k == .ret && (q.ras 0).valid
  one 0 || one 1

/-! ### The queue and the cache -/

def queueIn : QueueIn where
  flush := i.flush
  instr := fun k => (q.slot k).instr
  addr := fun k => (q.slot k).addr
  valid := bits fun k => (q.slot k).valid
  exception := q.icacheEx
  exceptionAddr := q.fetch.icacheVaddr
  exceptionGpaddr := q.icacheGpaddr
  exceptionTinst := q.icacheTinst
  exceptionGva := q.icacheGva
  predictAddress := q.predictAddress i
  cfType := q.cfType i
  fetchEntryReady := i.fetchEntryReady

def isMispredict : Bool := i.resolvedBranch.valid && i.resolvedBranch.isMispredict

def replay : Bool := q.queue.replay (q.queueIn i)

/-- `icache_dreq_o.req` -/
def req : Bool := q.queue.ready

def ifReady : Bool := i.icache.ready && q.queue.ready

def killS1 : Bool := isMispredict i || i.flush || q.replay i

def killS2 : Bool := q.killS1 i || q.bpValid i

/-- `speculative_d`, which is also `icache_dreq_o.spec` -/
def speculativeD : Bool :=
  (q.speculative && !i.resolvedBranch.valid || (q.isBranch 0 || q.isBranch 1) || (q.isReturn 0 || q.isReturn 1) ||
    (q.isJalr 0 || q.isJalr 1)) && !i.flush

variable (c : FrontendCfg)

/-- Where to fetch next if nothing is predicted. -/
def npcNow : BitVec 64 := if q.npcRstLoad then c.bootAddr else q.npc

/-- `icache_dreq_o.vaddr` -/
def fetchAddress : BitVec 64 := if q.bpValid i then q.predictAddress i else q.npcNow c

/-- `npc_select`; later conditions override earlier ones. -/
def npcD : BitVec 64 :=
  let d := if q.bpValid i then q.predictAddress i else q.npcNow c
  let d := if q.ifReady i then align (q.fetchAddress i c) + 4 else d
  let d := if q.replay i then q.queue.replayAddr (q.queueIn i) else d
  let d := if isMispredict i then i.resolvedBranch.targetAddress else d
  let d := if i.eret then i.epc else d
  let d := if i.exValid then i.trapVectorBase else d
  let d := if i.setPcCommit then i.pcCommit + 4 else d
  if i.setDebugPc then c.debugAddr else d

def fetchIn : FetchIn := ⟨q.killS2 i, i.icache.valid, i.icache.vaddr, i.icache.data⟩

def step : FrontEnd depth n where
  fetch := q.fetch.step (q.fetchIn i)
  icacheEx := if i.icache.valid then frontendException i.icache.exCause else q.icacheEx
  icacheGpaddr := if i.icache.valid then i.icache.exTval2 else q.icacheGpaddr
  icacheTinst := if i.icache.valid then i.icache.exTinst else q.icacheTinst
  icacheGva := if i.icache.valid then i.icache.exGva else q.icacheGva
  btb := if i.icache.valid then i.btbPrediction 1 else q.btb
  bht := if i.icache.valid then i.bhtPrediction 1 else q.bht
  npcRstLoad := false
  npc := q.npcD i c
  speculative := q.speculativeD i
  ras :=
    let s := q.speculation i (q.queue.consumed (q.queueIn i))
    q.ras.step i.flushBp s.rasPush s.rasPop s.rasUpdate
  queue := q.queue.step (q.queueIn i)

end FrontEnd
end Culsans.Frontend
