import Culsans.Dcache.Array
import Culsans.Dcache.AxiAdapter

/-! # The miss handler (`miss_handler`) and the bypass arbiter

The miss handler owns the MSHR, refills and evictions, flushes, the
`CleanUnique` upgrade and the atomics. Its AXI requests depend on its registers
alone; array request, next state and grants also depend on the adapter.
-/

namespace Culsans.Dcache

/-- `miss_handler` states -/
inductive MissState
  | idle | flushing | flush | wbCachelineFlush | flushReqStatus | wbCachelineMiss | waitGntSram
  | miss | reqCacheline | missRepl | saveCacheline | init | amoWbReq | amoWb | amoReq
  | wbCachelineAmo | amoWaitResp | reqBeforeClean | checkBeforeClean | sendClean
  | reqCachelineUnique
deriving DecidableEq

/-- `bypass_req_t` -/
structure BypassReq where
  req : Bool
  reqtype : AdReq
  acetype : AceTrs
  amo : Amo
  id : BitVec 4
  addr : PAddr
  wdata : Word
  we : Bool
  be : WordBe
  size : BitVec 2

def BypassReq.none : BypassReq :=
  ⟨false, .singleReq, .readNoSnoop, .none, 0, ⟨0, 0, 0⟩, fun _ => 0, false, fun _ => false, 3⟩

/-- `bypass_rsp_t` -/
structure BypassRsp where
  gnt : Bool
  valid : Bool
  rdata : Word

structure MissHandler where
  state : MissState
  mshr : Mshr
  cnt : Index
  evictWay : WaySet
  evictCl : CacheLine
  serveAmo : Bool
  collidingClean : Bool
  /-- shift register of the replacement LFSR -/
  lfsr : BitVec 8

/-- Results of the refill adapter in this cycle. -/
structure MissAxi where
  gnt : Bool
  valid : Bool
  data : Fin 2 → Word
  dirty : Bool
  shared : Bool

structure MissIn where
  flush : Bool
  busy : Bool
  initN : Bool
  missReq : Fin 3 → MissReq
  rdata : Way → CacheLine
  snoopInvalidate : Bool
  snoopInvalidateAddr : PAddr
  amoReq : AmoReq
  axi : MissAxi
  amoRsp : BypassRsp

namespace MissHandler

def reset : MissHandler :=
  ⟨.init, ⟨0, false, false, ⟨0, 0, 0⟩, fun _ => 0, fun _ => false, false⟩, 0, noWay, .zero, false, false, 0⟩

def validWay (i : MissIn) : WaySet := fun w => (i.rdata w).valid

/-- `evict_way`: valid and dirty in some byte. -/
def dirtyWay (i : MissIn) : WaySet := fun w => (i.rdata w).valid && anyByte (i.rdata w).dirty

def matchingWay (q : MissHandler) (i : MissIn) : WaySet :=
  fun w => (i.rdata w).valid && (i.rdata w).tag == q.mshr.addr.tag

/-- `refill_way_bin` -/
def lfsrBin (q : MissHandler) : Way := ⟨q.lfsr.toNat % 8, Nat.mod_lt _ (by decide)⟩

def lfsrNext (q : MissHandler) : BitVec 8 :=
  (q.lfsr <<< 1) ||| (if (q.lfsr.getLsbD 7 ^^ q.lfsr.getLsbD 3 ^^ q.lfsr.getLsbD 2 ^^ q.lfsr.getLsbD 1) then 0 else 1)

/-- All ways are valid, so that one has to be replaced. -/
def full (i : MissIn) : Bool := !anyWay fun w => !(i.rdata w).valid

def flushingO (q : MissHandler) : Bool :=
  q.state == .wbCachelineFlush || q.state == .flushReqStatus || q.state == .flushing

def activeServing (q : MissHandler) (p : Fin 3) : Bool := q.mshr.valid && q.mshr.id == p

/-- `mshr_addr_matches_o` -/
def mshrAddrMatches (q : MissHandler) (a : PAddr) : Bool := q.mshr.valid && a.sameLine q.mshr.addr

/-- `mshr_index_matches_o` -/
def mshrIndexMatches (q : MissHandler) (a : PAddr) : Bool := q.mshr.valid && a.index == q.mshr.addr.index

/-- The ACE transaction of a refill. -/
def refillType (c : Cfg) (q : MissHandler) : AceTrs :=
  if q.state == .reqCachelineUnique then .readUnique else
  if c.isInsideShareableRegions q.mshr.addr then (if q.mshr.we then .readUnique else .readShared)
  else .readNoSnoop

/-- Split a line into the two words of a burst. -/
def burstWords (d : LineData) : Fin 2 → Word := fun k => d.word (k == 1)
def burstBe (d : LineBe) : Fin 2 → WordBe := fun k l => d (byteOfLane (k == 1) l)

/-- Reassemble a refilled line. -/
def lineOfWords (d : Fin 2 → Word) : LineData :=
  fun b => d (if wordOfByte b then 1 else 0) (laneOfByte b)

/-- `req_fsm_miss_*`: what the miss FSM asks of the refill adapter. -/
def axiReq (c : Cfg) (q : MissHandler) : AdapterReq 1 :=
  let none : AdapterReq 1 := ⟨false, .cacheLineReq, .readShared, .none, 0b1100#4, ⟨0, 0, 0⟩,
    fun _ _ => 0, false, fun _ _ => false, 3⟩
  match q.state with
  | .reqCacheline | .reqCachelineUnique =>
    { none with req := true, addr := q.mshr.addr, transType := q.refillType c }
  | .sendClean => { none with req := true, addr := q.mshr.addr, transType := .cleanUnique }
  | .wbCachelineFlush | .wbCachelineMiss | .wbCachelineAmo =>
    { none with req := true, addr := ⟨q.evictCl.tag, q.cnt, 0⟩, we := true, transType := .writeBack
                be := burstBe q.evictCl.dirty, wdata := burstWords q.evictCl.data }
  | _ => none

/-- The line written by SAVE_CACHELINE: the refill with the store merged in. -/
def saveLine (q : MissHandler) (a : MissAxi) : CacheLine :=
  let sel := q.mshr.addr.word
  { tag := q.mshr.addr.tag
    data := fun b => if q.mshr.we && placeBe sel q.mshr.be b then q.mshr.wdata (laneOfByte b)
      else lineOfWords a.data b
    dirty := fun b => a.dirty || (q.mshr.we && placeBe sel q.mshr.be b)
    valid := true
    shared := if q.mshr.we then false else a.shared }

def saveWrite (q : MissHandler) (a : MissAxi) : ArrayPort where
  req := q.evictWay
  addr := q.mshr.addr.index
  we := true
  be := { ClBe.status q.evictWay with tag := true, data := fun _ => true }
  wdata := q.saveLine a

/-- Clear the status bits of the given ways; only the first data SRAM is selected. -/
def clearStatus (addr : Index) (ways : WaySet) : ArrayPort where
  req := oneHot 0
  addr := addr
  we := true
  be := .status ways
  wdata := .zero

/-- AMO_WB: the first way that holds the line of the atomic. -/
def amoWay (i : MissIn) : Option Way :=
  (List.finRange 8).find? fun w => (i.rdata w).valid && (i.rdata w).tag == i.amoReq.operandA.tag

def port (q : MissHandler) (i : MissIn) : ArrayPort :=
  match q.state with
  | .miss | .reqBeforeClean => .lookup q.mshr.addr.index
  | .saveCacheline => if i.axi.valid then q.saveWrite i.axi else .idle
  | .wbCachelineFlush | .wbCachelineMiss | .wbCachelineAmo =>
    if i.axi.valid then clearStatus q.cnt q.evictWay else .idle
  | .flushReqStatus => .lookup q.cnt
  | .flushing => if anyWay (dirtyWay i) then .idle else clearStatus q.cnt allWays
  | .init => clearStatus q.cnt allWays
  | .amoWbReq => .lookup i.amoReq.operandA.index
  | .amoWb =>
    match amoWay i with
    | some w =>
      if anyByte (i.rdata w).dirty then .idle
      else clearStatus i.amoReq.operandA.index (oneHot w)
    | none => .idle
  | _ => .idle

/-- The lowest port with a miss or an upgrade request. -/
def requester (i : MissIn) : Option (Fin 3) :=
  (List.finRange 3).find? fun p => (i.missReq p).valid && ((i.missReq p).makeUnique || !(i.missReq p).bypass)

def allocate (p : Fin 3) (r : MissReq) : Mshr := ⟨p, true, r.we, r.addr, r.wdata, r.be, r.makeUnique⟩

/-- `colliding_clean_d` after the detection that precedes the case statement. -/
def detectClean (q : MissHandler) (i : MissIn) : Bool :=
  if i.snoopInvalidate && q.mshr.valid && q.mshr.makeUnique && !q.collidingClean then
    i.snoopInvalidateAddr.sameLine q.mshr.addr else q.collidingClean

def stepIdle (q : MissHandler) (i : MissIn) : MissHandler :=
  let q := { q with collidingClean := false }
  match requester i with
  | some p =>
    { q with
      state := if (i.missReq p).makeUnique then .reqBeforeClean else .miss
      serveAmo := false
      mshr := allocate p (i.missReq p)
      cnt := if (i.amoReq.req || i.flush) && !i.busy then 0 else q.cnt }
  | none =>
    { q with
      state := if i.flush && !i.busy then .flushReqStatus else
        if i.amoReq.req && !i.busy then .amoWbReq else .idle
      serveAmo := q.serveAmo || (i.amoReq.req && !i.busy)
      cnt := if (i.amoReq.req || i.flush) && !i.busy then 0 else q.cnt }

/-- Where a miss goes once its victim is out of the way. -/
def refillState (q : MissHandler) : MissState :=
  if q.collidingClean then .reqCachelineUnique else .reqCacheline

def stepMissRepl (q : MissHandler) (i : MissIn) : MissHandler :=
  let d := { q with collidingClean := q.detectClean i }
  if full i then
    let victim := i.rdata q.lfsrBin
    let d := { d with lfsr := q.lfsrNext, evictWay := oneHot q.lfsrBin }
    if anyByte victim.dirty then
      { d with
        state := .wbCachelineMiss
        evictCl := { q.evictCl with tag := victim.tag, data := victim.data, dirty := victim.dirty }
        cnt := q.mshr.addr.index }
    else { d with state := q.refillState }
  else { d with evictWay := getVictimCl fun w => !validWay i w, state := q.refillState }

def stepSave (q : MissHandler) (i : MissIn) : MissHandler :=
  let d := { q with collidingClean := q.detectClean i }
  if i.axi.valid then
    if q.collidingClean then { d with state := .miss, collidingClean := false }
    else { d with state := .idle, collidingClean := false, mshr := { q.mshr with valid := false } }
  else d

def stepFlushing (q : MissHandler) (i : MissIn) : MissHandler :=
  let d := { q with collidingClean := q.detectClean i }
  if anyWay (dirtyWay i) then
    { d with evictWay := getVictimCl (dirtyWay i), evictCl := i.rdata (oneHotToBin (dirtyWay i))
             state := .wbCachelineFlush }
  else
    { d with
      cnt := q.cnt + 1
      state := if q.cnt == 255 then (if q.serveAmo then .amoReq else .idle) else .flushReqStatus
      serveAmo := if q.cnt == 255 && q.serveAmo then false else q.serveAmo }

def stepAmoWb (q : MissHandler) (i : MissIn) : MissHandler :=
  let d := { q with collidingClean := q.detectClean i }
  match amoWay i with
  | some w =>
    if anyByte (i.rdata w).dirty then
      { d with evictWay := oneHot w, evictCl := i.rdata w, cnt := i.amoReq.operandA.index
               state := .wbCachelineAmo }
    else { d with state := .amoReq }
  | none => { d with state := .amoReq }

/-- Next registers of `cache_management`. -/
def step (q : MissHandler) (i : MissIn) : MissHandler :=
  let d := { q with collidingClean := q.detectClean i }
  match q.state with
  | .idle => q.stepIdle i
  | .miss => { d with state := .missRepl }
  | .missRepl => q.stepMissRepl i
  | .reqCacheline => if i.axi.gnt then { d with state := .saveCacheline } else d
  | .reqCachelineUnique =>
    if i.axi.gnt then { d with state := .saveCacheline, collidingClean := false } else d
  | .saveCacheline => q.stepSave i
  | .wbCachelineMiss => if i.axi.valid then { d with state := q.refillState } else d
  | .wbCachelineAmo => if i.axi.valid then { d with state := .amoReq } else d
  | .wbCachelineFlush => if i.axi.valid then { d with state := .flushReqStatus } else d
  | .flushReqStatus => { d with state := .flushing }
  | .flushing => q.stepFlushing i
  | .init =>
    { d with cnt := q.cnt + 1, state := if q.cnt == 255 || i.initN then .idle else .init }
  | .reqBeforeClean => { d with state := .checkBeforeClean }
  | .checkBeforeClean => { d with state := if anyWay (q.matchingWay i) then .sendClean else .miss }
  | .sendClean =>
    if i.axi.valid then
      if q.collidingClean then { d with state := .miss }
      else { d with state := .idle, mshr := { q.mshr with valid := false } }
    else d
  | .amoWbReq => { d with state := .amoWb }
  | .amoWb => q.stepAmoWb i
  | .amoReq =>
    { d with
      serveAmo := false
      state := if i.amoRsp.gnt then (if i.amoRsp.valid then .idle else .amoWaitResp) else .amoReq }
  | .amoWaitResp => if i.amoRsp.valid then { d with state := .idle } else d
  | .flush | .waitGntSram => d

/-- `miss_gnt_o` -/
def missGnt (q : MissHandler) (i : MissIn) (p : Fin 3) : Bool :=
  q.mshr.id == p && match q.state with
    | .reqCacheline | .reqCachelineUnique => i.axi.gnt && !q.mshr.makeUnique
    | .saveCacheline => i.axi.valid && !q.collidingClean && q.mshr.makeUnique
    | .sendClean => i.axi.valid && !q.collidingClean
    | _ => false

/-- `miss_write_done_o` -/
def missWriteDone (q : MissHandler) (i : MissIn) : Bool :=
  q.state == .saveCacheline && i.axi.valid && !q.collidingClean && q.mshr.makeUnique

/-- `flush_ack_o` -/
def flushAck (q : MissHandler) (i : MissIn) : Bool :=
  q.state == .flushing && !anyWay (dirtyWay i) && q.cnt == 255 && !q.serveAmo

def negate (w : Word) : Word := fun k => ~~~ w k

/-- Move the low half word of the operand to the upper byte lanes. -/
def upperHalf (w : Word) : Word :=
  fun k => if 4 ≤ k.val then w ⟨k.val - 4, by omega⟩ else 0

/-- `amo_bypass_req`, with the transaction type added by the port packing. -/
def amoBypassReq (c : Cfg) (q : MissHandler) (r : AmoReq) : BypassReq :=
  if q.state == .amoReq then
    let b := if r.amoOp == .and then negate r.operandB else r.operandB
    let low := r.operandA.offset.getLsbD 0 = false ∧ r.operandA.offset.getLsbD 1 = false ∧
      r.operandA.offset.getLsbD 2 = false
    let we := !(r.amoOp == .lr)
    { req := true, reqtype := .singleReq, amo := r.amoOp, id := 0b1011#4, addr := r.operandA, we := we
      size := r.size
      wdata := if r.size = 3 ∨ low then b else upperHalf b
      be := fun k => if r.size = 3 then true else if low then decide (k.val < 4) else decide (4 ≤ k.val)
      acetype := match we, c.isInsideShareableRegions r.operandA with
        | true, true => .writeUnique
        | true, false => .writeNoSnoop
        | false, true => .readOnce
        | false, false => .readNoSnoop }
  else { BypassReq.none with id := 0b1011#4 }

/-- The bypass request of one `cache_ctrl` port. -/
def portBypassReq (c : Cfg) (p : Fin 3) (r : MissReq) : BypassReq where
  req := r.valid && r.bypass
  reqtype := .singleReq
  amo := .none
  id := 0b1000#4 + BitVec.ofNat 4 p.val
  addr := r.addr
  wdata := r.wdata
  we := r.we
  be := r.be
  size := r.size
  acetype := match r.we, c.isInsideShareableRegions r.addr with
    | true, true => .writeUnique
    | true, false => .writeNoSnoop
    | false, true => .readOnce
    | false, false => .readNoSnoop

/-- A 32-bit result is taken from the addressed half and sign-extended. -/
def signExtend (low : Bool) (w : Word) : Word :=
  let h : Fin 4 → Byte := fun k => w ⟨(if low then 0 else 4) + k.val, by split <;> omega⟩
  fun k => if hk : k.val < 4 then h ⟨k.val, hk⟩ else if (h 3).getLsbD 7 then 255 else 0

/-- `amo_resp_o` -/
def amoResp (q : MissHandler) (i : MissIn) : AmoResp :=
  match q.state with
  | .amoReq =>
    if i.amoRsp.gnt && i.amoRsp.valid then ⟨true, i.amoRsp.rdata⟩ else ⟨false, fun _ => 0⟩
  | .amoWaitResp =>
    if i.amoRsp.valid then
      ⟨true, if i.amoReq.size = 2 then
          signExtend (decide (i.amoReq.operandA.offset.extractLsb' 0 3 = 0)) i.amoRsp.rdata
        else i.amoRsp.rdata⟩
    else ⟨false, fun _ => 0⟩
  | _ => ⟨false, fun _ => 0⟩

end MissHandler

/-- `axi_adapter_arbiter`: the three bypass ports and the AMO port share one adapter. -/
structure BypassArbiter where
  serving : Bool
  sel : Fin 4
  req : BypassReq

namespace BypassArbiter

def reset : BypassArbiter := ⟨false, 0, .none⟩

/-- `sel_d` -/
def selD (q : BypassArbiter) (req : Fin 4 → BypassReq) : Fin 4 :=
  if q.serving then q.sel else ((List.finRange 4).find? fun p => (req p).req).getD q.sel

/-- `req_o` towards the adapter. -/
def reqO (q : BypassArbiter) (req : Fin 4 → BypassReq) : BypassReq :=
  if q.serving then q.req else req (q.selD req)

def rsp (q : BypassArbiter) (req : Fin 4 → BypassReq) (valid : Bool) (rdata : Word) (p : Fin 4) : BypassRsp where
  gnt := !q.serving && p == q.selD req && (req p).req
  valid := q.serving && p == q.sel && valid
  rdata := if p == q.sel then rdata else fun _ => 0

def step (q : BypassArbiter) (req : Fin 4 → BypassReq) (valid : Bool) : BypassArbiter :=
  if q.serving then { q with serving := !valid }
  else ⟨(req (q.selD req)).req, q.selD req, req (q.selD req)⟩

end BypassArbiter
end Culsans.Dcache
