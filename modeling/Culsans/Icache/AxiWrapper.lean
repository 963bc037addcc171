import Culsans.Icache.FetchProtocol

/-! # The instruction cache on the AXI port (`cva6_icache_axi_wrapper`)

A request of the cache is taken at once and kept until the address is; the beats of a burst of 64 bits
go through a shift register, and the last one is the return. `axi_shim` is used for reads only, so the
write channel is left out; the fields of the read address that are constant are left out, too.
-/

namespace Culsans.Icache
open Library

/-- The registers of the wrapper and, in `rack`, of its shim. -/
structure AxiWrapper where
  reqValid : Bool
  reqData : IcacheReq
  first : Bool
  rdShift : Fin 2 → BitVec 64
  rack : Bool

/-- The read channels of `axi_resp_i`. -/
structure AxiReadResp where
  arReady : Bool
  rValid : Bool
  rLast : Bool
  rData : BitVec 64

/-- The read address channel: `addr` and `len`. -/
structure ArChan where
  addr : BitVec 64
  len : BitVec 8
deriving DecidableEq

/-- The address of a request: that of a line, or of a single word for one that is not cached. -/
def IcacheReq.ar (o : IcacheReq) : ArChan := ⟨o.paddr.setWidth 64, if o.nc then 0 else 1⟩

namespace AxiWrapper
variable (w : AxiWrapper) (memDataReq : Bool) (memData : IcacheReq) (a : AxiReadResp)

def reset : AxiWrapper := ⟨false, ⟨0, 0, false⟩, true, fun _ => 0, false⟩

/-- `axi_rd_req`, which is `ar_valid` -/
def rdReq : Bool := memDataReq || w.reqValid

/-- `rd_gnt_o` of the shim -/
def rdGnt : Bool := w.rdReq memDataReq && a.arReady

def reqDataD : IcacheReq := if memDataReq then memData else w.reqData

/-- Without a burst before it a word goes to both places. -/
def rdShiftD (k : Fin 2) : BitVec 64 :=
  if a.rValid then
    match k with
    | 0 => if w.first then a.rData else w.rdShift 1
    | 1 => a.rData
  else w.rdShift k

/-- `icache_mem_rtrn_vld` -/
def memRtrnVld : Bool := a.rValid && a.rLast

/-- `icache_mem_rtrn`; nothing is ever invalidated. -/
def memRtrn : IcacheRtrn := ⟨.icacheIfillAck, w.rdShiftD a 1 ++ w.rdShiftD a 0, ⟨false, false, 0, 0⟩⟩

def step : AxiWrapper where
  reqValid := !w.rdGnt memDataReq a && w.rdReq memDataReq
  reqData := w.reqDataD memDataReq memData
  first := if a.rValid then a.rLast else w.first
  rdShift := w.rdShiftD a
  rack := a.rValid && a.rLast

end AxiWrapper

/-! ### The cache behind the wrapper -/

structure FetchPort where
  cache : Cva6Icache
  wrapper : AxiWrapper

/-- What comes from the core, whose fields for the memory are not used, and from the bus. -/
structure FetchIn where
  core : IcacheIn
  axi : AxiReadResp

namespace FetchPort
variable (c : ArianeCfg) (s : FetchPort) (i : FetchIn)

/-- The cache's inputs but for the acknowledgement of its request. -/
def withReturn : IcacheIn :=
  { i.core with memRtrnVld := AxiWrapper.memRtrnVld i.axi, memRtrn := s.wrapper.memRtrn i.axi, memDataAck := false }

/-- `icache_mem_data_req`, which does not depend on its acknowledgement -/
def memDataReq : Bool := (s.cache.fsm c (s.withReturn i)).memDataReq

def cacheIn : IcacheIn := { s.withReturn i with memDataAck := s.memDataReq c i }

def memData : IcacheReq := s.cache.memData c (s.cacheIn c i)

/-- `ar_valid` -/
def arValid : Bool := s.wrapper.rdReq (s.memDataReq c i)

def ar : ArChan := (s.wrapper.reqDataD (s.memDataReq c i) (s.memData c i)).ar

def step : FetchPort where
  cache := s.cache.step c (s.cacheIn c i)
  wrapper := s.wrapper.step (s.memDataReq c i) (s.memData c i) i.axi

end FetchPort

/-- The burst on the bus, and the beats it has given so far. -/
structure BurstLog where
  burst : Option ArChan
  beats : List (BitVec 64)

def BurstLog.watch (g : BurstLog) (arValid : Bool) (ar : ArChan) (a : AxiReadResp) : BurstLog where
  burst := if arValid && a.arReady then some ar else if AxiWrapper.memRtrnVld a then none else g.burst
  beats := if arValid && a.arReady then [] else if a.rValid then g.beats ++ [a.rData] else g.beats

/-- The bus gives the beats of a burst behind its address, each a value of `mem` for its double word. -/
def BurstLog.Beat (mem : BitVec 53 → BitVec 64 → Prop) (g : BurstLog) (a : AxiReadResp) : Prop :=
  a.rValid = true → ∃ b, g.burst = some b ∧ (a.rLast = true ↔ g.beats.length = b.len.toNat) ∧
    mem (b.addr.extractLsb' 3 53 + BitVec.ofNat 53 g.beats.length) a.rData

/-- The observers of the cache's ports and of the bus. -/
structure FetchLog where
  ledger : Ledger
  bus : BurstLog

def FetchLog.watch (c : ArianeCfg) (g : FetchLog) (s : FetchPort) (i : FetchIn) : FetchLog :=
  ⟨g.ledger.watch c s.cache (s.cacheIn c i), g.bus.watch (s.arValid c i) (s.ar c i) i.axi⟩

def fetchPort (c : ArianeCfg) : Machine (FetchPort × FetchLog) FetchIn :=
  (⟨fun s => s.cache.Init ∧ s.wrapper = .reset, FetchPort.step c⟩ : Machine FetchPort FetchIn).observe
    ⟨.empty, ⟨none, []⟩⟩ (FetchLog.watch c)

/-- The core and the bus. A translation comes when it is asked for, keeps the offset of the word in the page, and is the
same as long as the request lasts; the cache is enabled without a flush only during one, as after a
reset. -/
structure FetchEnv (c : ArianeCfg) (mem : BitVec 53 → BitVec 64 → Prop) (x : FetchPort × FetchLog) (i : FetchIn) :
    Prop where
  fetchReq : i.core.fetchValid = true → (x.1.cache.fsm c (x.1.cacheIn c i)).fetchReq = true
  offset : x.1.cache.state = .read → i.core.fetchValid = true → i.core.fetchException = false →
    i.core.fetchPaddr.extractLsb' 2 10 = x.1.cache.fetchVaddr.extractLsb' 2 10
  same : x.1.cache.state = .read → i.core.fetchValid = true → i.core.fetchException = false →
    ∀ p ∈ x.2.ledger.paddr, i.core.fetchPaddr = p
  enable : i.core.initN = true → i.core.en = true → x.1.cache.cacheEn = true ∨ x.1.cache.state = .flush
  beat : x.2.bus.Beat mem i.axi

end Culsans.Icache
