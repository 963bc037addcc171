import Mathlib.Data.BitVec
import Mathlib.Logic.Function.Basic
import Culsans.Core.Lzc
import Culsans.Library.Sizes

/-! # The instruction cache (`cva6_icache`)

A request is accepted in one cycle and looked up in the next, while the following one may be
accepted. What is not in the cache is asked for from memory, a word where it is not cacheable.
-/

namespace Culsans.Icache
open Culsans.Core

abbrev Index := BitVec 8
abbrev Tag := BitVec 44
abbrev Line := BitVec 128
abbrev Way := Fin 4

/-- The parts of `ariane_cfg_t` that the cache reads. -/
structure ArianeCfg where
  isInsideCacheableRegions : BitVec 64 → Bool
  isInsideNonidempotentRegions : BitVec 64 → Bool
  axiCompliant : Bool

/-- `state_e` -/
inductive State
  | flush | idle | read | miss | killAtrans | killMiss
deriving DecidableEq

/-- `icache_in_t` -/
inductive IcacheInType
  | icacheInvReq | icacheIfillAck
deriving DecidableEq

/-- `icache_inval_t` -/
structure IcacheInval where
  vld : Bool
  all : Bool
  idx : BitVec 12
  way : Way

/-- `icache_rtrn_t` -/
structure IcacheRtrn where
  rtype : IcacheInType
  data : Line
  inv : IcacheInval

/-- `icache_req_t` -/
structure IcacheReq where
  way : ℕ
  paddr : BitVec 56
  nc : Bool

/-- The inputs; `rndWay` is what the `lfsr` puts out, `initN` the input `init_ni`. -/
structure IcacheIn where
  flush : Bool
  en : Bool
  stall : Bool
  initN : Bool
  fetchValid : Bool
  fetchPaddr : BitVec 56
  fetchException : Bool
  req : Bool
  killS1 : Bool
  killS2 : Bool
  spec : Bool
  vaddr : BitVec 64
  memRtrnVld : Bool
  memRtrn : IcacheRtrn
  memDataAck : Bool
  rndWay : Way

def IcacheIn.invEn (i : IcacheIn) : Bool := i.memRtrnVld && i.memRtrn.rtype = .icacheInvReq

def IcacheIn.ifillAck (i : IcacheIn) : Bool := i.memRtrnVld && i.memRtrn.rtype = .icacheIfillAck

/-- One way of an array (`tc_sram` with a latency of one cycle). -/
structure Sram (α : Type) where
  sram : Index → α
  rAddr : Index
  rdata : α

/-- An idle cycle and a write read the last address again. -/
def Sram.step {α : Type} (m : Sram α) (req we : Bool) (addr : Index) (wdata : α) : Sram α where
  sram := if req && we then Function.update m.sram addr wdata else m.sram
  rAddr := if req && !we then addr else m.rAddr
  rdata := if req && !we then m.sram addr else m.sram m.rAddr

/-- A word of the tag array, `{vld, tag}`. -/
structure TagEntry where
  vld : Bool
  tag : Tag
deriving DecidableEq

/-- The registers and the arrays. -/
structure Cva6Icache where
  state : State
  cacheEn : Bool
  cmpEn : Bool
  flushQ : Bool
  invQ : Bool
  flushCnt : Index
  vaddr : BitVec 64
  clOffset : BitVec 4
  clTag : Tag
  replWayOh : BitVec 4
  tagSram : Way → Sram TagEntry
  dataSram : Way → Sram Line

/-- What `p_fsm` computes. -/
structure Fsm where
  stateD : State
  cacheEnD : Bool
  flushEn : Bool
  cmpEnD : Bool
  cacheRden : Bool
  cacheWren : Bool
  flushD : Bool
  ready : Bool
  fetchReq : Bool
  valid : Bool
  memDataReq : Bool
  miss : Bool

/-- The vector with the given bits. -/
def ways (f : Way → Bool) : BitVec 4 := BitVec.ofBool (f 3) ++ BitVec.ofBool (f 2) ++ BitVec.ofBool (f 1) ++
    BitVec.ofBool (f 0)

/-- `icache_way_bin2oh` -/
def icacheWayBin2oh (way : ℕ) : BitVec 4 := 1#4 <<< way

/-- The word of a line at a byte offset. -/
def wordOf (data : Line) (offset : BitVec 4) : BitVec 32 := data.extractLsb' (8 * offset.toNat) 32

namespace Cva6Icache

/-- `areq_o.fetch_vaddr`: the saved address, aligned to 32 bits. -/
def fetchVaddr (q : Cva6Icache) : BitVec 64 := ((q.vaddr >>> 2) ++ 0#2).setWidth 64

/-- `cl_tag_d` -/
def clTagD (q : Cva6Icache) (i : IcacheIn) : Tag := if i.fetchValid then i.fetchPaddr.extractLsb' 12 44 else q.clTag

/-- Also if the cache is disabled. -/
def paddrIsNc (c : ArianeCfg) (q : Cva6Icache) (i : IcacheIn) : Bool :=
  !q.cacheEn || !c.isInsideCacheableRegions ((q.clTagD i ++ 0#12).setWidth 64)

def addrNi (c : ArianeCfg) (i : IcacheIn) : Bool := c.isInsideNonidempotentRegions (i.fetchPaddr.setWidth 64)

def vldRdata (q : Cva6Icache) : BitVec 4 := ways fun k => (q.tagSram k).rdata.vld

def clHit (q : Cva6Icache) (i : IcacheIn) : BitVec 4 :=
  ways fun k => (q.tagSram k).rdata.tag == q.clTagD i && (q.tagSram k).rdata.vld

def flushDone (q : Cva6Icache) : Bool := q.flushCnt == 255

/-- The default assignments of `p_fsm`. -/
def fsmDefault (q : Cva6Icache) (i : IcacheIn) : Fsm where
  stateD := q.state
  cacheEnD := (q.cacheEn || i.initN) && i.en
  flushEn := false
  cmpEnD := false
  cacheRden := false
  cacheWren := false
  flushD := q.flushQ || i.flush
  ready := false
  fetchReq := false
  valid := false
  memDataReq := false
  miss := false

def fsmFlush (q : Cva6Icache) (i : IcacheIn) : Fsm :=
  let d := { q.fsmDefault i with flushEn := true }
  if q.flushDone then { d with stateD := .idle, flushD := false, cacheEnD := i.en } else d

def fsmIdle (q : Cva6Icache) (i : IcacheIn) : Fsm :=
  let d := { q.fsmDefault i with cmpEnD := q.cacheEn }
  if d.flushD || i.en && !q.cacheEn && !i.initN then { d with stateD := .flush }
  else if !i.stall then
    let e := if !i.memRtrnVld then
        if i.req then { d with ready := true, cacheRden := true, stateD := .read } else { d with ready := true }
      else d
    if i.killS1 then { e with stateD := .idle } else e
  else d

def fsmRead (c : ArianeCfg) (q : Cva6Icache) (i : IcacheIn) : Fsm :=
  let d := { q.fsmDefault i with fetchReq := true, cmpEnD := q.cacheEn, cacheRden := q.cacheEn }
  if i.fetchValid && (!i.spec || !addrNi c i) then
    if d.flushD then { d with stateD := .idle }
    else if (q.clHit i != 0 && q.cacheEn || i.fetchException) && !q.invQ then
      let e := { d with valid := !i.killS2, stateD := .idle }
      -- the next request may be accepted with the answer
      let n := if !i.memRtrnVld then
          if i.req then { e with ready := true, stateD := .read } else { e with ready := true }
        else e
      if i.killS1 then { n with stateD := .idle } else n
    else if i.killS2 then { d with stateD := .idle }
    else if !q.invQ then
      let e := { d with cmpEnD := false, memDataReq := true }
      if i.memDataAck then { e with miss := !q.paddrIsNc c i, stateD := .miss } else e
    else d
  else if i.killS2 || d.flushD then { d with stateD := .killAtrans }
  else d

def fsmMiss (c : ArianeCfg) (q : Cva6Icache) (i : IcacheIn) : Fsm :=
  let d := q.fsmDefault i
  if i.ifillAck then
    if !(i.killS2 || d.flushD) then { d with stateD := .idle, valid := true, cacheWren := !q.paddrIsNc c i }
    else { d with stateD := .idle }
  else if i.killS2 || d.flushD then { d with stateD := .killMiss }
  else d

def fsmKillAtrans (q : Cva6Icache) (i : IcacheIn) : Fsm :=
  let d := { q.fsmDefault i with fetchReq := true }
  if i.fetchValid then { d with stateD := .idle } else d

def fsmKillMiss (q : Cva6Icache) (i : IcacheIn) : Fsm :=
  let d := q.fsmDefault i
  if i.ifillAck then { d with stateD := .idle } else d

/-- `p_fsm` -/
def fsm (c : ArianeCfg) (q : Cva6Icache) (i : IcacheIn) : Fsm :=
  match q.state with
  | .flush => q.fsmFlush i
  | .idle => q.fsmIdle i
  | .read => q.fsmRead c i
  | .miss => q.fsmMiss c i
  | .killAtrans => q.fsmKillAtrans i
  | .killMiss => q.fsmKillMiss i

variable (c : ArianeCfg) (q : Cva6Icache) (i : IcacheIn)

def vaddrD : BitVec 64 := if (q.fsm c i).ready && i.req then i.vaddr else q.vaddr

def clIndex : Index := (q.vaddrD c i).extractLsb' 4 8

/-- `gen_axi_offset` and `gen_piton_offset` -/
def clOffsetD : BitVec 4 :=
  if (q.fsm c i).ready && i.req then i.vaddr.extractLsb' 2 2 ++ 0#2
  else if c.axiCompliant && (q.paddrIsNc c i && (q.fsm c i).memDataReq)
    then (q.clOffset.extractLsb' 2 1).setWidth 4 <<< 2
  else q.clOffset

def allWaysValid : Bool := Lzc.empty (~~~q.vldRdata).reverse

def invWay : ℕ := Lzc.trailing (~~~q.vldRdata)

def replWay : ℕ := if q.allWaysValid then i.rndWay else q.invWay

/-- `mem_data_o`: a word instead of a line in case of a non-cacheable access. -/
def memData : IcacheReq where
  way := q.replWay i
  paddr :=
    if q.paddrIsNc c i then
      if c.axiCompliant then q.clTagD i ++ q.vaddr.extractLsb' 3 9 ++ 0#3
        else q.clTagD i ++ q.vaddr.extractLsb' 2 10 ++ 0#2
    else q.clTagD i ++ q.vaddr.extractLsb' 4 8 ++ 0#4
  nc := q.paddrIsNc c i

def replWayOhD : BitVec 4 := if q.cmpEn then icacheWayBin2oh (q.replWay i) else q.replWayOh

def vldAddr : Index :=
  if (q.fsm c i).flushEn then q.flushCnt
  else if i.invEn then i.memRtrn.inv.idx.extractLsb' 4 8
  else q.clIndex c i

def vldReq : BitVec 4 :=
  if (q.fsm c i).flushEn || (q.fsm c i).cacheRden then BitVec.allOnes 4
  else if i.memRtrn.inv.all && i.invEn then BitVec.allOnes 4
  else if i.memRtrn.inv.vld && i.invEn then icacheWayBin2oh i.memRtrn.inv.way
  else q.replWayOh

def vldWe : Bool := (q.fsm c i).cacheWren || i.invEn || (q.fsm c i).flushEn

def clReq : BitVec 4 :=
  if (q.fsm c i).cacheRden then BitVec.allOnes 4 else if (q.fsm c i).cacheWren then q.replWayOh else 0

def hitIdx : ℕ := Lzc.trailing (q.clHit i)

/-- `dreq_o.data` -/
def dreqData : BitVec 32 :=
  if q.cmpEn then wordOf (q.dataSram (Fin.ofNat 4 (q.hitIdx i))).rdata q.clOffset else wordOf i.memRtrn.data q.clOffset

def step : Cva6Icache where
  state := (q.fsm c i).stateD
  cacheEn := (q.fsm c i).cacheEnD
  cmpEn := (q.fsm c i).cmpEnD
  flushQ := (q.fsm c i).flushD
  invQ := i.invEn
  flushCnt := if q.flushDone then 0 else if (q.fsm c i).flushEn then q.flushCnt + 1 else q.flushCnt
  vaddr := q.vaddrD c i
  clOffset := q.clOffsetD c i
  clTag := q.clTagD i
  replWayOh := q.replWayOhD i
  tagSram := fun k =>
    (q.tagSram k).step ((q.vldReq c i).getLsbD k) (q.vldWe c i) (q.vldAddr c i) ⟨(q.fsm c i).cacheWren, q.clTag⟩
  dataSram :=
    fun k => (q.dataSram k).step ((q.clReq c i).getLsbD k) (q.fsm c i).cacheWren (q.clIndex c i) i.memRtrn.data

/-- The registers after reset; the arrays hold anything. -/
structure Init (q : Cva6Icache) : Prop where
  state : q.state = .flush
  cacheEn : q.cacheEn = false
  cmpEn : q.cmpEn = false
  flushQ : q.flushQ = false
  invQ : q.invQ = false
  flushCnt : q.flushCnt = 0
  vaddr : q.vaddr = 0
  clOffset : q.clOffset = 0
  clTag : q.clTag = 0
  replWayOh : q.replWayOh = 0

end Cva6Icache
end Culsans.Icache
