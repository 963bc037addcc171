import Culsans.Dcache.SnoopCacheCtrl

/-! # The coherence unit (`ccu_fsm`)

One request at a time is taken from the ports, the other ports are snooped, and the
answer comes from a snooped cache or from memory. Registers that nothing reads
(`ac_valid`, `data_received`, `m2s_resp_holder`, `w_eot`) are left out. The upper bits
of a transaction id are the number of its port.
-/

namespace Culsans.Ccu
open Dcache

abbrev Addr := BitVec 64
abbrev Data := BitVec 64

structure Id (N : ℕ) where
  port : Fin N
  low : BitVec 4
deriving DecidableEq

/-- `ar_chan_t` -/
structure Ar (N : ℕ) where
  id : Id N
  addr : Addr
  len : BitVec 8
  size : BitVec 3
  burst : BitVec 2
  lock : Bool
  cache : BitVec 4
  prot : BitVec 3
  qos : BitVec 4
  region : BitVec 4
  user : BitVec 64
  snoop : AcSnoop
  bar : BitVec 2
  domain : BitVec 2
deriving DecidableEq

/-- `aw_chan_t` -/
structure Aw (N : ℕ) where
  id : Id N
  addr : Addr
  len : BitVec 8
  size : BitVec 3
  burst : BitVec 2
  lock : Bool
  cache : BitVec 4
  prot : BitVec 3
  qos : BitVec 4
  region : BitVec 4
  atop : BitVec 6
  user : BitVec 64
  snoop : BitVec 3
  bar : BitVec 2
  domain : BitVec 2
  awunique : Bool
deriving DecidableEq

/-- `w_chan_t` -/
structure W where
  data : Data
  strb : BitVec 8
  last : Bool
  user : BitVec 64
deriving DecidableEq

/-- `b_chan_t` -/
structure B (N : ℕ) where
  id : Id N
  resp : BitVec 2
  user : BitVec 64
deriving DecidableEq

/-- `r_chan_t`; `resp[3]` is IsShared and `resp[2]` is PassDirty. -/
structure R (N : ℕ) where
  id : Id N
  data : Data
  isShared : Bool
  passDirty : Bool
  resp : BitVec 2
  last : Bool
  user : BitVec 64
deriving DecidableEq

/-- `mst_req_t` -/
structure MstReq (N : ℕ) where
  ar : Ar N
  arValid : Bool
  aw : Aw N
  awValid : Bool
  w : W
  wValid : Bool
  bReady : Bool
  rReady : Bool

/-- `mst_resp_t` -/
structure MstResp (N : ℕ) where
  arReady : Bool
  awReady : Bool
  wReady : Bool
  b : B N
  bValid : Bool
  r : R N
  rValid : Bool

/-- The AC channel of `snoop_req_t`. -/
structure Ac where
  addr : Addr
  prot : BitVec 3
  snoop : AcSnoop
deriving DecidableEq

/-- `snoop_cd_t` -/
structure Cd where
  data : Data
  last : Bool
deriving DecidableEq

/-- `snoop_resp_t` of one port -/
structure PortResp where
  acReady : Bool
  crValid : Bool
  crResp : CrResp
  cdValid : Bool
  cd : Cd

/-- Inputs of `ccu_fsm`: the request side, the memory side and the snooped ports. -/
structure CcuIn (N : ℕ) where
  req : MstReq N
  mem : MstResp N
  snoop : Fin N → PortResp

/-- `ccu_fsm` states -/
inductive FsmState
  | idle | decodeR | sendInvalidR | waitInvalidR | sendAxiReqWriteBackR | writeBackMemR | sendRead
  | waitRespR | readSnpData | sendAxiReqR | readMem | decodeW | sendInvalidW | waitInvalidW
  | sendAxiReqWriteBackW | writeBackMemW | sendAxiReqW | writeMem
deriving DecidableEq

/-- Registers of `ccu_fsm`. -/
structure Fsm (N : ℕ) where
  state : FsmState
  initiator : Fin N → Bool
  waitingW : Bool
  waitingR : Bool
  ar : Ar N
  rReady : Bool
  aw : Aw N
  acReady : Fin N → Bool
  crValid : Fin N → Bool
  dataAvailable : Fin N → Bool
  shared : Fin N → Bool
  dirty : Fin N → Bool
  responseError : Fin N → Bool
  firstResponder : Fin N
  snoopRespFound : Bool
  cdLast : Fin N → Bool
  cdData : Bool → Data
  storedCdData : BitVec 2
  rLast : Bool
  rEot : Bool
  wLast : Bool

/-- Comparison with `'1` and reduction OR over the ports. -/
def allPorts {N : ℕ} (v : Fin N → Bool) : Bool := decide (∀ n, v n = true)
def anyPort {N : ℕ} (v : Fin N → Bool) : Bool := decide (∃ n, v n = true)

namespace Fsm
variable {N : ℕ} (q : Fsm N) (i : CcuIn N)

/-- A read is taken up unless a write has waited for the previous one. -/
def takesAr : Bool := q.state == .idle && i.req.arValid && (!i.req.awValid || q.waitingR || !q.waitingW)
def takesAw : Bool :=
  q.state == .idle && !q.takesAr i && i.req.awValid && (!i.req.arValid || q.waitingW)

/-- Some core returns data without an error. -/
def dataFound : Bool := anyPort fun n => q.dataAvailable n && !q.responseError n

/-! ## Outputs -/

def sending : Bool := q.state == .sendRead || q.state == .sendInvalidR || q.state == .sendInvalidW
def waiting : Bool := q.state == .waitRespR || q.state == .waitInvalidR || q.state == .waitInvalidW
def writingBack : Bool := q.state == .writeBackMemR || q.state == .writeBackMemW

/-- `s2m_req_o[n].ac` -/
def ac : Ac :=
  match q.state with
  | .sendInvalidR => ⟨q.ar.addr, q.ar.prot, .cleanInvalid⟩
  | .sendInvalidW => ⟨q.aw.addr, q.aw.prot, .cleanInvalid⟩
  | _ => ⟨q.ar.addr, q.ar.prot, q.ar.snoop⟩

def acValid (n : Fin N) : Bool := q.sending && !q.acReady n
def crReady (n : Fin N) : Bool := q.waiting && !q.crValid n
def cdReady (n : Fin N) : Bool := (q.state == .readSnpData || q.writingBack) && !q.cdLast n && q.dataAvailable n

def arReady : Bool := q.state == .decodeR
def awReady : Bool := q.state == .decodeW
def wReady : Bool := q.state == .writeMem && i.mem.wReady
def bValid : Bool := q.state == .writeMem && i.mem.bValid

/-- Address bit 3 of the request. -/
def arAddrOffset : Bool := q.ar.addr.getLsbD 3

/-- `ccu_resp_o.r_valid` -/
def rValid : Bool :=
  match q.state with
  | .waitInvalidR => allPorts q.crValid && !q.ar.lock
  | .readSnpData =>
    !q.rEot && if q.ar.len = 0 then q.storedCdData == (if q.arAddrOffset then 2 else 1) else !(q.storedCdData == 0)
  | .readMem => i.mem.rValid
  | _ => false

/-- `ccu_resp_o.r` -/
def r : R N :=
  match q.state with
  | .readSnpData =>
    { id := q.ar.id
      data := q.cdData (if q.ar.len = 0 then q.arAddrOffset else q.rLast)
      isShared := anyPort q.shared
      passDirty := anyPort q.dirty
      resp := 0
      last := if q.ar.len = 0 then q.storedCdData == (if q.arAddrOffset then 2 else 1) else q.rLast
      user := 0 }
  | .readMem => i.mem.r
  | _ => ⟨q.ar.id, 0, false, false, 0, true, 0⟩

/-- The write-back of the first responder's line. -/
def writeBackAw (addr : Addr) (id : Id N) : Aw N :=
  { id := ⟨q.firstResponder, id.low⟩
    addr := addr &&& ~~~ 15#64
    len := 1
    size := 3
    burst := 1
    lock := false
    cache := 0
    prot := 0
    qos := 0
    region := 0
    atop := 0
    user := 0
    snoop := 3
    bar := 0
    domain := 0
    awunique := false }

def memArValid : Bool := q.state == .sendAxiReqR
def memAr : Ar N := q.ar
def memRReady : Bool :=
  match q.state with
  | .sendAxiReqR => q.rReady
  | .readMem => i.req.rReady
  | _ => false

def memAwValid : Bool :=
  q.state == .sendAxiReqWriteBackR || q.state == .sendAxiReqWriteBackW || q.state == .sendAxiReqW

def memAw : Aw N :=
  match q.state with
  | .sendAxiReqWriteBackR => q.writeBackAw q.ar.addr q.ar.id
  | .sendAxiReqWriteBackW => q.writeBackAw q.aw.addr q.aw.id
  | _ => q.aw

def memWValid : Bool :=
  match q.state with
  | .writeBackMemR => !(q.storedCdData == 0)
  | .writeBackMemW => !q.rEot && !(q.storedCdData == 0)
  | .writeMem => i.req.wValid
  | _ => false

def memW : W :=
  match q.state with
  | .writeMem => i.req.w
  | _ => ⟨q.cdData q.wLast, 255, q.wLast, 0⟩

def memBReady : Bool :=
  match q.state with
  | .writeBackMemR => true
  | .writeBackMemW => !q.rEot
  | .writeMem => i.req.bReady
  | _ => false

/-! ## Next state -/

def stateD : FsmState :=
  match q.state with
  | .idle => if q.takesAr i then .decodeR else if q.takesAw i then .decodeW else .idle
  | .decodeR => if q.ar.snoop = .cleanUnique then .sendInvalidR else if q.ar.lock then .sendInvalidR else .sendRead
  | .sendInvalidR => if allPorts q.acReady then .waitInvalidR else .sendInvalidR
  | .waitInvalidR =>
    if allPorts q.crValid && (i.req.rReady || q.ar.lock) then
      if q.dataFound then .sendAxiReqWriteBackR else if q.ar.lock then .sendAxiReqR else .idle
    else .waitInvalidR
  | .sendAxiReqWriteBackR => if i.mem.awReady then .writeBackMemR else .sendAxiReqWriteBackR
  | .writeBackMemR =>
    if i.mem.bValid && q.memBReady i then if q.ar.lock then .sendAxiReqR else .idle else .writeBackMemR
  | .sendRead => if allPorts q.acReady then .waitRespR else .sendRead
  | .waitRespR => if allPorts q.crValid then if q.dataFound then .readSnpData else .sendAxiReqR else .waitRespR
  | .readSnpData =>
    if decide (q.cdLast = q.dataAvailable) && (q.rEot || (i.req.rReady && q.rLast)) then .idle else .readSnpData
  | .sendAxiReqR => if i.mem.arReady then .readMem else .sendAxiReqR
  | .readMem => if i.mem.rValid && i.req.rReady && i.mem.r.last then .idle else .readMem
  | .decodeW => .sendInvalidW
  | .sendInvalidW => if allPorts q.acReady then .waitInvalidW else .sendInvalidW
  | .waitInvalidW => if allPorts q.crValid then if q.dataFound then .sendAxiReqWriteBackW else .sendAxiReqW
    else .waitInvalidW
  | .sendAxiReqWriteBackW => if i.mem.awReady then .writeBackMemW else .sendAxiReqWriteBackW
  | .writeBackMemW => if i.mem.bValid && q.memBReady i then .sendAxiReqW else .writeBackMemW
  | .sendAxiReqW => if i.mem.awReady then .writeMem else .sendAxiReqW
  | .writeMem =>
    if i.mem.bValid && i.req.bReady then if q.aw.atop.getLsbD 5 then .readMem else .idle else .writeMem

def initiatorD : Fin N → Bool :=
  if q.state = .idle then
    if q.takesAr i then fun n => n == i.req.ar.id.port
    else if q.takesAw i then fun n => n == i.req.aw.id.port
    else fun _ => false
  else q.initiator

/-! ## Handshakes -/

def acDone (n : Fin N) : Bool := q.acValid n && (i.snoop n).acReady
def crDone (n : Fin N) : Bool := q.crReady n && (i.snoop n).crValid
def cdDone (n : Fin N) : Bool := q.cdReady n && (i.snoop n).cdValid
def rDone : Bool := q.rValid i && i.req.rReady
def memWDone : Bool := q.memWValid i && i.mem.wReady

def acReadyD : Fin N → Bool :=
  if q.state = .decodeR ∨ q.state = .decodeW then q.initiator
  else if q.sending then fun n => q.acReady n || q.acDone i n
  else fun _ => false

/-- A CR register of one port, cleared in IDLE and loaded with the answer. -/
def crLoad (v : Fin N → Bool) (f : CrResp → Bool) : Fin N → Bool :=
  if q.state = .idle then fun _ => false
  else fun n => if q.crDone i n then f (i.snoop n).crResp else v n

def crValidD : Fin N → Bool :=
  if q.state = .idle then fun _ => false
  else if q.sending then q.initiator
  else fun n => q.crValid n || q.crDone i n

/-- The port answers with data in this cycle. -/
def responds (n : Fin N) : Bool :=
  q.crDone i n && (i.snoop n).crResp.dataTransfer && !(i.snoop n).crResp.error

/-- The lowest of the ports that answer with data in this cycle. -/
def responder : Option (Fin N) := (List.finRange N).find? (q.responds i)

def firstResponderD [NeZero N] : Fin N :=
  if q.state = .idle then 0 else if q.snoopRespFound then q.firstResponder else (q.responder i).getD q.firstResponder

def snoopRespFoundD : Bool :=
  if q.state = .idle then false else q.snoopRespFound || (q.responder i).isSome

def cdLastD : Fin N → Bool :=
  if q.state = .idle then fun _ => false
  else if q.state = .readSnpData ∨ q.writingBack = true then
    fun n => q.cdLast n || ((i.snoop n).cdValid && (i.snoop n).cd.last && q.dataAvailable n)
  else q.cdLast

def cdDataD : Bool → Data :=
  if q.state = .idle then fun _ => 0
  else if q.cdDone i q.firstResponder then
    fun b => if b = (i.snoop q.firstResponder).cd.last then (i.snoop q.firstResponder).cd.data else q.cdData b
  else q.cdData

/-- The transfer that takes a word out of the buffer. -/
def drained : Bool := if q.state = .readSnpData then q.rDone i else q.memWDone i

def storedCdDataD : BitVec 2 :=
  if q.state = .idle then 0
  else if q.state = .readSnpData ∨ q.writingBack = true then
    if q.cdDone i q.firstResponder && !q.drained i then q.storedCdData + 1
    else if q.drained i && !q.cdDone i q.firstResponder then q.storedCdData - 1
    else q.storedCdData
  else q.storedCdData

/-- Next registers of `ccu_fsm`. -/
def step [NeZero N] : Fsm N where
  state := q.stateD i
  initiator := q.initiatorD i
  waitingW := if q.state = .idle then q.takesAr i && i.req.awValid else q.waitingW
  waitingR := if q.state = .idle then q.takesAw i && i.req.arValid else q.waitingR
  ar := if q.takesAr i then i.req.ar else q.ar
  rReady := if q.takesAr i then i.req.rReady else q.rReady
  aw := if q.takesAw i then i.req.aw else q.aw
  acReady := q.acReadyD i
  crValid := q.crValidD i
  dataAvailable := q.crLoad i q.dataAvailable (·.dataTransfer)
  shared := q.crLoad i q.shared (·.isShared)
  dirty := q.crLoad i q.dirty (·.passDirty)
  responseError := q.crLoad i q.responseError (·.error)
  firstResponder := q.firstResponderD i
  snoopRespFound := q.snoopRespFoundD i
  cdLast := q.cdLastD i
  cdData := q.cdDataD i
  storedCdData := q.storedCdDataD i
  rLast := if q.state = .idle then false else if q.rDone i then !q.rLast else q.rLast
  rEot := if q.state = .idle then false else q.rEot || (q.rDone i && (q.r i).last)
  wLast := if q.state = .idle then false else if q.memWDone i then !q.wLast else q.wLast

/-- The values after reset. -/
structure IsReset : Prop where
  state : q.state = .idle
  waitingW : q.waitingW = false
  waitingR : q.waitingR = false

end Fsm
end Culsans.Ccu
