import Culsans.Core.StorePath

/-! # Loads and the queue of requests

Requests come in order through a queue of two (`lsu_bypass`). The one at its head goes
to the load unit or to the store unit, which share the translation. The writing back of
load results is left out.
-/

namespace Culsans.Core
open Dcache Library

/-- The registers of `lsu_bypass`. -/
structure LsuBypass where
  mem : BitVec 1 → LsuCtrl
  readPointer : BitVec 1
  writePointer : BitVec 1
  statusCnt : BitVec 2

namespace LsuBypass
variable (q : LsuBypass)

def reset : LsuBypass := ⟨fun _ => .zero, 0, 0, 0⟩

def empty : Bool := q.statusCnt == 0

/-- `ready_o` -/
def ready : Bool := q.empty

/-- `lsu_ctrl_o` -/
def lsuCtrl (lsuReq : LsuCtrl) : LsuCtrl := if q.empty then lsuReq else q.mem q.readPointer

def written (lsuReq : LsuCtrl) : BitVec 1 → LsuCtrl :=
  if lsuReq.valid then Function.update q.mem q.writePointer lsuReq else q.mem

def step (lsuReq : LsuCtrl) (popLd popSt flush : Bool) : LsuBypass where
  mem :=
    if flush || (popSt && popLd) then fun _ => .zero
    else if popLd || popSt then
      Function.update (q.written lsuReq) q.readPointer { q.written lsuReq q.readPointer with valid := false }
    else q.written lsuReq
  readPointer := if flush then 0 else
    q.readPointer + (BitVec.ofBool popLd).setWidth 1 + (BitVec.ofBool popSt).setWidth 1
  writePointer := if flush then 0 else q.writePointer + (BitVec.ofBool lsuReq.valid).setWidth 1
  statusCnt := if flush then 0 else
    q.statusCnt + (BitVec.ofBool lsuReq.valid).setWidth 2 - (BitVec.ofBool popLd).setWidth 2
      - (BitVec.ofBool popSt).setWidth 2

end LsuBypass

inductive LoadState
  | idle | waitGnt | sendTag | waitPageOffset | abortTransaction | abortTransactionNi | waitTranslation | waitFlush
  | waitWbEmpty
deriving DecidableEq

/-- `load_data_q` -/
structure LoadData where
  transId : BitVec 3
  addressOffset : BitVec 3
  op : LsuOp

structure LoadUnit where
  state : LoadState
  loadData : LoadData

structure LoadUnitIn where
  flush : Bool
  valid : Bool
  lsuCtrl : LsuCtrl
  exValid : Bool
  dtlbHit : Bool
  dtlbPpn : Tag
  pageOffsetMatches : Bool
  storeBufferEmpty : Bool
  commitTranId : BitVec 3
  dataGnt : Bool
  dataRvalid : Bool
  dcacheWbufferNotNi : Bool

namespace LoadUnit
variable (s : LoadUnit) (i : LoadUnitIn) (isInsideNonidempotentRegions : Tag → Bool)

def reset : LoadUnit := ⟨.idle, ⟨0, 0, .load .lb⟩⟩

/-- `stall_ni` -/
def stallNi : Bool :=
  (!i.dcacheWbufferNotNi || !i.storeBufferEmpty || i.commitTranId != i.lsuCtrl.transId)
    && isInsideNonidempotentRegions i.dtlbPpn

/-- `data_req` -/
def dataReq : Bool :=
  match s.state with
  | .idle | .sendTag => i.valid && !i.pageOffsetMatches
  | .waitGnt => true
  | _ => false

/-- The state after a grant. -/
def afterGrant : LoadState :=
  if !i.dtlbHit then .abortTransaction
  else if stallNi i isInsideNonidempotentRegions then .abortTransactionNi
  else .sendTag

def stateD : LoadState :=
  if i.flush then .waitFlush
  else if i.exValid && i.valid then .idle
  else match s.state with
    | .idle | .sendTag =>
      if !i.valid then .idle
      else if i.pageOffsetMatches then .waitPageOffset
      else if i.dataGnt then afterGrant i isInsideNonidempotentRegions else .waitGnt
    | .waitPageOffset => if i.pageOffsetMatches then .waitPageOffset else .waitGnt
    | .abortTransaction => .waitTranslation
    | .abortTransactionNi => .waitWbEmpty
    | .waitWbEmpty => if i.dcacheWbufferNotNi then .waitTranslation else .waitWbEmpty
    | .waitTranslation => if i.dtlbHit then .waitGnt else .waitTranslation
    | .waitGnt => if i.dataGnt then afterGrant i isInsideNonidempotentRegions else .waitGnt
    | .waitFlush => .idle

/-- `pop_ld_o` -/
def popLd : Bool :=
  (s.dataReq i && i.dataGnt && i.dtlbHit && !stallNi i isInsideNonidempotentRegions)
    || (i.exValid && i.valid && !i.dataRvalid)

/-- `translation_req_o` -/
def translationReq : Bool :=
  match s.state with
  | .idle | .sendTag => i.valid
  | .waitTranslation | .waitGnt => true
  | _ => false

/-- `kill_req` -/
def killReq : Bool :=
  match s.state with
  | .abortTransaction | .abortTransactionNi | .waitFlush => true
  | .sendTag => i.exValid
  | _ => false

/-- `tag_valid` -/
def tagValid : Bool :=
  match s.state with
  | .abortTransaction | .abortTransactionNi | .waitFlush | .sendTag => true
  | _ => false

/-- `req_port_o` -/
def reqPort (paddr : PAddr) : DcacheReqI where
  addressIndex := i.lsuCtrl.vaddr.index
  addressOffset := i.lsuCtrl.vaddr.offset
  addressTag := paddr.tag
  dataWdata _ := 0
  dataReq := s.dataReq i
  dataWe := false
  dataBe := i.lsuCtrl.be
  dataSize := i.lsuCtrl.op.extractTransferSize
  killReq := s.killReq i
  tagValid := s.tagValid

def step : LoadUnit where
  state := s.stateD i isInsideNonidempotentRegions
  loadData := if s.popLd i isInsideNonidempotentRegions && !i.exValid then
      ⟨i.lsuCtrl.transId, i.lsuCtrl.vaddr.offset.setWidth 3, i.lsuCtrl.op⟩
    else s.loadData

end LoadUnit

/-! ## Together -/

/-- The load and the store side of `load_store_unit`, with the request register of the issue stage
and the register of the MMU. -/
structure Lsu (ws wc : ℕ) where
  lsuReq : LsuCtrl
  bypass : LsuBypass
  loadUnit : LoadUnit
  storeUnit : StoreUnit ws wc
  paddr : PAddr

structure LsuIn where
  flush : Bool
  /-- the request the issue stage has for the next cycle -/
  issue : LsuCtrl
  commit : Bool
  exValid : Bool
  dtlbHit : Bool
  dtlbPpn : Tag
  /-- the page the MMU finds for the address of this cycle -/
  ppn : Tag
  amoBufferReady : Bool
  commitTranId : BitVec 3
  ldGnt : Bool
  ldRvalid : Bool
  stGnt : Bool
  dcacheWbufferNotNi : Bool

namespace Lsu
variable {ws wc : ℕ} (isInsideNonidempotentRegions : Tag → Bool) (s : Lsu ws wc) (i : LsuIn)

def reset : Lsu ws wc := ⟨.zero, .reset, .reset, .reset, ⟨0, 0, 0⟩⟩

/-- `lsu_ctrl` -/
def lsuCtrl : LsuCtrl := s.bypass.lsuCtrl s.lsuReq

def storeUnitIn : StoreUnitIn where
  flush := i.flush
  valid := s.lsuCtrl.valid && !s.lsuCtrl.op.isLoad
  lsuCtrl := s.lsuCtrl
  commit := i.commit
  exValid := i.exValid
  dtlbHit := i.dtlbHit
  pageIndex := s.lsuCtrl.vaddr.index
  pageOffset := s.lsuCtrl.vaddr.offset
  amoBufferReady := i.amoBufferReady
  dataGnt := i.stGnt

/-- `page_offset_matches` -/
def pageOffsetMatches : Bool :=
  s.storeUnit.storeBuffer.pageOffsetMatches (s.storeUnit.storeBufferIn (s.storeUnitIn i) s.paddr)

def loadUnitIn : LoadUnitIn where
  flush := i.flush
  valid := s.lsuCtrl.valid && s.lsuCtrl.op.isLoad
  lsuCtrl := s.lsuCtrl
  exValid := i.exValid
  dtlbHit := i.dtlbHit
  dtlbPpn := i.dtlbPpn
  pageOffsetMatches := s.pageOffsetMatches i
  storeBufferEmpty := s.storeUnit.storeBuffer.storeBufferEmpty
  commitTranId := i.commitTranId
  dataGnt := i.ldGnt
  dataRvalid := i.ldRvalid
  dcacheWbufferNotNi := i.dcacheWbufferNotNi

/-- `pop_ld` -/
def popLd : Bool := s.loadUnit.popLd (s.loadUnitIn i) isInsideNonidempotentRegions

/-- `pop_st` -/
def popSt : Bool := s.storeUnit.popSt (s.storeUnitIn i)

/-- The issue stage issues when the queue is ready, and forgets its request on a flush. -/
def step : Lsu ws wc where
  lsuReq := { i.issue with valid := i.issue.valid && s.bypass.ready && !i.flush }
  bypass := s.bypass.step s.lsuReq (s.popLd isInsideNonidempotentRegions i) (s.popSt i) i.flush
  loadUnit := s.loadUnit.step (s.loadUnitIn i) isInsideNonidempotentRegions
  storeUnit := s.storeUnit.step (s.storeUnitIn i) s.paddr
  paddr := ⟨i.ppn, s.lsuCtrl.vaddr.index, s.lsuCtrl.vaddr.offset⟩

/-- The data cache grants a request of the load unit. -/
def loadGranted : Bool := s.loadUnit.dataReq (s.loadUnitIn i) && i.ldGnt

end Lsu
end Culsans.Core
