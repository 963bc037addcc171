import Culsans.Library.Machine
import Culsans.Dcache.SnoopCacheCtrl
import Culsans.Dcache.MissHandler

/-! # The data cache as one clocked machine (`std_nbdcache`)

Three core-side controllers (PTW, load, store), the snoop controller and the
miss handler share one array port through `tag_cmp`. The wires below are the
combinational signals of one cycle, in the order in which they settle.
-/

namespace Culsans.Dcache
open Library TagCmp

/-- The inputs of one clock cycle. -/
structure CacheIn where
  enable : Bool
  flush : Bool
  stall : Bool
  initN : Bool
  amoReq : AmoReq
  reqPorts : Fin 3 → DcacheReqI
  axiData : AxiResp
  axiBypass : AxiResp
  snoopPort : SnoopReq

structure Nbdcache where
  snoop : SnoopCtrl
  ctrl : Fin 3 → CacheCtrl
  miss : MissHandler
  axi : AxiAdapter 1
  arb : BypassArbiter
  bypassAxi : AxiAdapter 0
  arr : CacheArray
  rd : ReadRegs
  /-- `id_q` of `tag_cmp`, no bit set after reset -/
  idq : Option Port

namespace Nbdcache

/-- The array port of a core-side controller. -/
def ctrlPortId (p : Fin 3) : Port := ⟨p.val + 2, by omega⟩

variable (c : Cfg) (s : Nbdcache) (i : CacheIn)

/-- `sel_tag` -/
def selTag : Tag :=
  match s.idq with
  | some 1 => s.snoop.tagO i.snoopPort s.miss.flushingO s.miss.serveAmo i.amoReq.operandA
  | some 2 => (s.ctrl 0).tagO (i.reqPorts 0)
  | some 3 => (s.ctrl 1).tagO (i.reqPorts 1)
  | some 4 => (s.ctrl 2).tagO (i.reqPorts 2)
  | _ => 0

def hitWay : WaySet := TagCmp.hitWay s.rd.rdata (s.selTag i)
def sharedWay : WaySet := fun w => (s.rd.rdata w).shared
def dirtyWay : WaySet := fun w => anyByte (s.rd.rdata w).dirty

/-- `busy_i` of the miss handler: some controller is not idle. -/
def busy : Bool := s.snoop.busy || (s.ctrl 0).busy || (s.ctrl 1).busy || (s.ctrl 2).busy

/-- Results of the refill adapter. -/
def missAxi : MissAxi where
  gnt := s.axi.gnt (s.miss.axiReq c) i.axiData
  valid := s.axi.valid i.axiData
  data := s.axi.rdata i.axiData
  dirty := s.axi.dirty
  shared := s.axi.shared

/-- Requests at the bypass arbiter, the AMO port last. -/
def bypassReq (p : Fin 4) : BypassReq :=
  if h : p.val < 3 then MissHandler.portBypassReq c ⟨p.val, h⟩ (s.ctrl ⟨p.val, h⟩).missReq
  else s.miss.amoBypassReq c i.amoReq

/-- The arbitrated request in the form the bypass adapter takes. -/
def bypassAdapterReq : AdapterReq 0 :=
  let r := s.arb.reqO (s.bypassReq c i)
  ⟨r.req, r.reqtype, r.acetype, r.amo, r.id, r.addr, fun _ => r.wdata, r.we, fun _ => r.be, r.size⟩

def bypassRsp (p : Fin 4) : BypassRsp :=
  s.arb.rsp (s.bypassReq c i) (s.bypassAxi.valid i.axiBypass) (s.bypassAxi.rdata i.axiBypass 0) p

def missIn : MissIn where
  flush := i.flush
  busy := s.busy
  initN := i.initN
  missReq p := (s.ctrl p).missReq
  rdata := s.rd.rdata
  snoopInvalidate := s.snoop.invalidate
  snoopInvalidateAddr := s.snoop.memReq
  amoReq := i.amoReq
  axi := s.missAxi c i
  amoRsp := s.bypassRsp c i 3

def missPort : ArrayPort := s.miss.port (s.missIn c i)

/-- Grant of the snoop controller: only the miss handler comes before it. -/
def snoopGnt : Bool := !(s.missPort c i).active

def ctrlIn (p : Fin 3) : CtrlIn where
  bypass := !i.enable
  stall := i.stall || i.flush
  reqPort := i.reqPorts p
  rdata := s.rd.rdata
  hitWay := s.hitWay i
  sharedWay := s.sharedWay
  missGnt := s.miss.missGnt (s.missIn c i) p
  missWriteDone := s.miss.missWriteDone (s.missIn c i)
  activeServing := s.miss.activeServing p
  criticalWord := i.axiData.rData
  criticalWordValid := s.axi.criticalWordValid i.axiData
  bypassGnt := (s.bypassRsp c i (Fin.castSucc p)).gnt
  bypassValid := (s.bypassRsp c i (Fin.castSucc p)).valid
  bypassData := (s.bypassRsp c i (Fin.castSucc p)).rdata
  mshrAddrMatches := s.miss.mshrAddrMatches ((s.ctrl p).mshrAddr (i.reqPorts p))
  mshrIndexMatches := s.miss.mshrIndexMatches ((s.ctrl p).mshrAddr (i.reqPorts p))
  snoopInvalidate := s.snoop.invalidate
  snoopInvalidateAddr := s.snoop.memReq
  readsharedDone := s.snoop.readsharedDone (s.snoopGnt c i)

def updatingCache : Bool :=
  (s.ctrl 0).updatingCache (s.ctrlIn c i 0) || (s.ctrl 1).updatingCache (s.ctrlIn c i 1)
    || (s.ctrl 2).updatingCache (s.ctrlIn c i 2)

def snoopIn : SnoopIn where
  bypass := !i.enable
  snoopPort := i.snoopPort
  rdata := s.rd.rdata
  hitWay := s.hitWay i
  dirtyWay := s.dirtyWay
  sharedWay := s.sharedWay
  flushing := s.miss.flushingO
  amoValid := s.miss.serveAmo
  amoAddr := i.amoReq.operandA
  updatingCache := s.updatingCache c i

def snoopPort : ArrayPort := s.snoop.port (s.snoopIn c i)
def ctrlPort (p : Fin 3) : ArrayPort := (s.ctrl p).port (s.ctrlIn c i p)

/-- `req`, `addr`, `we`, `be` and `wdata` of the five array ports. -/
def ports (k : Port) : ArrayPort :=
  match k with
  | 0 => s.missPort c i
  | 1 => s.snoopPort c i
  | 2 => s.ctrlPort c i 0
  | 3 => s.ctrlPort c i 1
  | 4 => s.ctrlPort c i 2

def gnt (k : Port) : Bool := TagCmp.gnt (s.ports c i) k
def ctrlGnt (p : Fin 3) : Bool := s.gnt c i (ctrlPortId p)

/-- The access that reaches the SRAMs. -/
def ramPort : ArrayPort := s.ports c i (TagCmp.selected (s.ports c i))

/-- One clock edge. -/
def step : Nbdcache where
  snoop := s.snoop.step (s.snoopIn c i) (s.gnt c i 1)
  ctrl p := (s.ctrl p).step c (s.ctrlIn c i p) (s.ctrlGnt c i p)
  miss := s.miss.step (s.missIn c i)
  axi := s.axi.step (s.miss.axiReq c) i.axiData
  arb := s.arb.step (s.bypassReq c i) (s.bypassAxi.valid i.axiBypass)
  bypassAxi := s.bypassAxi.step (s.bypassAdapterReq c i) i.axiBypass
  arr := s.arr.write (s.ramPort c i)
  rd := s.rd.step s.arr (s.ramPort c i)
  idq := some (TagCmp.selected (s.ports c i))

/-- `req_ports_o` -/
def reqPortO (p : Fin 3) : DcacheReqO := (s.ctrl p).reqPortO (s.ctrlIn c i p) (s.ctrlGnt c i p)

/-- Registers after reset; the tag and data SRAMs hold anything, no line is valid. -/
structure IsReset (s : Nbdcache) : Prop where
  snoop : s.snoop = .reset
  ctrl : ∀ p, s.ctrl p = .reset
  miss : s.miss = .reset
  axi : s.axi = .reset
  arb : s.arb = .reset
  bypassAxi : s.bypassAxi = .reset
  idq : s.idq = none
  arr : ∀ idx w, (s.arr idx w).valid = false

/-- The cache as a machine. -/
def machine (c : Cfg) : Machine Nbdcache CacheIn := ⟨IsReset, step c⟩

/-- A concrete reset state, with cleared SRAMs. -/
def initial : Nbdcache where
  snoop := .reset
  ctrl _ := .reset
  miss := .reset
  axi := .reset
  arb := .reset
  bypassAxi := .reset
  arr _ _ := .zero
  rd := ⟨fun _ => .zero, fun _ => 0, 0⟩
  idq := none

theorem initial_isReset : IsReset initial :=
  ⟨rfl, fun _ => rfl, rfl, rfl, rfl, rfl, rfl, fun _ _ => rfl⟩

end Nbdcache

/-! ## Directed stimuli -/

namespace Stimuli

/-- Every address is cacheable and shareable. -/
def cfg : Cfg := ⟨fun _ => true, fun _ => true⟩

/-- A cycle without any request; the interconnect takes every snoop response. -/
def quiet : CacheIn where
  enable := true
  flush := false
  stall := false
  initN := true
  amoReq := .none
  reqPorts _ := .none
  axiData := .none
  axiBypass := .none
  snoopPort := ⟨false, ⟨0, 0, 0⟩, .readOnce, true, true⟩

def onPort (p : Fin 3) (r : DcacheReqI) : CacheIn :=
  { quiet with reqPorts := fun q => if q = p then r else .none }

/-- The first cycle of a load: the tag follows in the next one. -/
def load (p : Fin 3) (idx : Index) : CacheIn :=
  onPort p { DcacheReqI.none with addressIndex := idx, dataReq := true }

def tag (p : Fin 3) (t : Tag) : CacheIn :=
  onPort p { DcacheReqI.none with addressTag := t, tagValid := true }

/-- One cycle of a full-word store request. -/
def store (t : Tag) (idx : Index) : CacheIn :=
  onPort 2 { DcacheReqI.none with
    addressIndex := idx, addressTag := t, dataReq := true, dataWe := true, dataBe := fun _ => true
    dataWdata := fun _ => 1 }

/-- The refill adapter's bus in one cycle. -/
def bus (a : AxiResp) : CacheIn := { quiet with axiData := a }

def arReady : AxiResp := { AxiResp.none with arReady := true }

def beat (last shared : Bool) : AxiResp :=
  { AxiResp.none with rValid := true, rLast := last, rShared := shared }

/-- The two beats of a refill and the cycle in which it is saved. -/
def refill (shared : Bool) : List CacheIn :=
  [bus arReady, bus (beat false shared), bus (beat true shared), quiet]

/-- A load that misses, from its request to SAVE_CACHELINE. -/
def loadMiss (p : Fin 3) (t : Tag) (idx : Index) (shared : Bool) : List CacheIn :=
  [load p idx, tag p t, quiet, quiet, quiet] ++ refill shared

/-- A snoop request added to a cycle. -/
def snooping (i : CacheIn) (kind : AcSnoop) (t : Tag) (idx : Index) : CacheIn :=
  { i with snoopPort := ⟨true, ⟨t, idx, 0⟩, kind, true, true⟩ }

end Stimuli
end Culsans.Dcache
