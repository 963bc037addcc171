import Culsans.Dcache.CacheCtrl

/-! # The snoop-driven cache controller (`snoop_cache_ctrl`) -/

namespace Culsans.Dcache

/-- `snoop_cache_ctrl` states -/
inductive SnoopState
  | idle | waitGnt | evalFlags | updateShared | invalidate | sendCrResp | sendCdResp
deriving DecidableEq

/-- AC, CR and CD handshakes driven by the interconnect (`snoop_req_t`). -/
structure SnoopReq where
  acValid : Bool
  acAddr : PAddr
  acSnoop : AcSnoop
  crReady : Bool
  cdReady : Bool

/-- `snoop_resp_t` -/
structure SnoopResp where
  acReady : Bool
  crValid : Bool
  crResp : CrResp
  cdValid : Bool
  cdData : Word
  cdLast : Bool

/-- Registers of `snoop_cache_ctrl`. -/
structure SnoopCtrl where
  state : SnoopState
  memReq : PAddr
  hitWay : WaySet
  sharedWay : WaySet
  dirtyWay : WaySet
  cacheData : LineData
  cachelineWordSel : Bool
  crResp : CrResp
  acSnoop : AcSnoop

/-- Inputs of `snoop_cache_ctrl` apart from the array grant. -/
structure SnoopIn where
  bypass : Bool
  snoopPort : SnoopReq
  rdata : Way → CacheLine
  hitWay : WaySet
  dirtyWay : WaySet
  sharedWay : WaySet
  flushing : Bool
  amoValid : Bool
  amoAddr : PAddr
  updatingCache : Bool

/-- The answer to a snoop of a line, as EVAL_FLAGS decides it from the lookup. -/
structure SnoopAnswer where
  crResp : CrResp
  next : SnoopState

/-- EVAL_FLAGS: the response and the state change for a hit (or a miss). -/
def evalFlags (snoop : AcSnoop) (hit dirty shared : Bool) : SnoopAnswer :=
  if hit then
    match snoop with
    | .cleanInvalid => ⟨⟨false, dirty, false, dirty⟩, .invalidate⟩
    | .readOnce => ⟨⟨shared, false, false, true⟩, .sendCrResp⟩
    | .readShared => ⟨⟨true, false, false, true⟩, .updateShared⟩
    | _ => ⟨⟨false, dirty, false, true⟩, .invalidate⟩
  else ⟨.zero, .sendCrResp⟩

namespace SnoopCtrl

def reset : SnoopCtrl :=
  ⟨.idle, ⟨0, 0, 0⟩, noWay, noWay, noWay, fun _ => 0, false, .zero, .readOnce⟩

def busy (q : SnoopCtrl) : Bool := !(q.state == .idle)

/-- The snoop types that look up the array. -/
def supported (s : AcSnoop) : Bool :=
  s == .cleanInvalid || s == .readShared || s == .readOnce || s == .readUnique

/-- `ac_ready`: an AC is accepted in IDLE unless a flush or an AMO on the line holds it off. -/
def acReady (q : SnoopCtrl) (r : SnoopReq) (flushing amoValid : Bool) (amoAddr : PAddr) : Bool :=
  q.state == .idle && r.acValid && !flushing && !(amoValid && amoAddr.sameLine r.acAddr)

def accepts (q : SnoopCtrl) (i : SnoopIn) : Bool :=
  q.acReady i.snoopPort i.flushing i.amoValid i.amoAddr

/-- `tag_o`, that is `mem_req_d.tag`. -/
def tagO (q : SnoopCtrl) (r : SnoopReq) (flushing amoValid : Bool) (amoAddr : PAddr) : Tag :=
  if q.acReady r flushing amoValid amoAddr then r.acAddr.tag else q.memReq.tag

/-- The status write of UPDATE_SHARED. -/
def updateSharedWrite (q : SnoopCtrl) : ArrayPort where
  req := q.hitWay
  addr := q.memReq.index
  we := true
  be := { ClBe.none with vldrty := fun w => if q.hitWay w then { VldrtyBe.none with shared := true } else .none }
  wdata := { CacheLine.zero with shared := true }

/-- The status write of INVALIDATE. -/
def invalidateWrite (q : SnoopCtrl) : ArrayPort where
  req := q.hitWay
  addr := q.memReq.index
  we := true
  be := .status q.hitWay
  wdata := .zero

def port (q : SnoopCtrl) (i : SnoopIn) : ArrayPort :=
  match q.state with
  | .idle =>
    if q.accepts i && !i.bypass && supported i.snoopPort.acSnoop && !i.updatingCache then
      .lookup i.snoopPort.acAddr.index else .idle
  | .waitGnt => if i.updatingCache then .idle else .lookup q.memReq.index
  | .evalFlags => .lookup q.memReq.index
  | .updateShared => q.updateSharedWrite
  | .invalidate => q.invalidateWrite
  | _ => .idle

/-- `invalidate_o` -/
def invalidate (q : SnoopCtrl) : Bool := q.state == .invalidate

/-- `readshared_done_o` -/
def readsharedDone (q : SnoopCtrl) (gnt : Bool) : ReadsharedDone :=
  ⟨q.state == .updateShared && gnt, q.memReq⟩

def stepIdle (q : SnoopCtrl) (i : SnoopIn) : SnoopCtrl :=
  let d := { q with crResp := .zero, acSnoop := .readOnce, cachelineWordSel := false }
  if q.accepts i then
    let d := { d with memReq := i.snoopPort.acAddr }
    if i.bypass then { d with state := .sendCrResp }
    else if supported i.snoopPort.acSnoop then
      { d with state := .waitGnt, acSnoop := i.snoopPort.acSnoop }
    else { d with state := .sendCrResp, crResp := { CrResp.zero with error := true } }
  else d

def stepEvalFlags (q : SnoopCtrl) (i : SnoopIn) : SnoopCtrl :=
  let dirty := anyWay fun w => i.dirtyWay w && i.hitWay w
  let shared := anyWay fun w => i.sharedWay w && i.hitWay w
  let a := evalFlags q.acSnoop (anyWay i.hitWay) dirty shared
  { q with
    hitWay := i.hitWay, sharedWay := i.sharedWay, dirtyWay := i.dirtyWay
    cacheData := if anyWay i.hitWay then CacheCtrl.selectLine i.rdata i.hitWay else q.cacheData
    crResp := { a.crResp with error := q.crResp.error }
    state := a.next }

/-- Next registers of the snoop FSM. -/
def step (q : SnoopCtrl) (i : SnoopIn) (gnt : Bool) : SnoopCtrl :=
  match q.state with
  | .idle => q.stepIdle i
  | .waitGnt => if !i.updatingCache && gnt then { q with state := .evalFlags } else q
  | .evalFlags => q.stepEvalFlags i
  | .updateShared => if gnt then { q with state := .sendCrResp } else q
  | .invalidate => if gnt then { q with state := .sendCrResp } else q
  | .sendCrResp =>
    if i.snoopPort.crReady then
      { q with state := if q.crResp.dataTransfer then .sendCdResp else .idle } else q
  | .sendCdResp =>
    if i.snoopPort.cdReady then
      { q with state := if q.cachelineWordSel then .idle else .sendCdResp
               cachelineWordSel := !q.cachelineWordSel } else q

/-- `snoop_port_o` -/
def resp (q : SnoopCtrl) (i : SnoopIn) : SnoopResp where
  acReady := q.accepts i
  crValid := q.state == .sendCrResp
  crResp := if q.state == .sendCrResp then q.crResp else .zero
  cdValid := q.state == .sendCdResp
  cdData := if q.state == .sendCdResp then q.cacheData.word q.cachelineWordSel else fun _ => 0
  cdLast := q.state == .sendCdResp && q.cachelineWordSel

end SnoopCtrl
end Culsans.Dcache
