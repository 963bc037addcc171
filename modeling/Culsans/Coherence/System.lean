import Culsans.Library.Machine
import Culsans.Library.Coherence
import Culsans.Dcache.LineAdapter

/-! # Caches, coherence unit and memory, one operation at a time

A step is one complete operation of one core: the decisions are those of the cache
controllers, of `snoop_cache_ctrl` and of the miss handler in the states that take
them, and the array is written through their ports. `ccu_fsm` asks every cache but
the initiator's and merges the answers.
-/

namespace Culsans.Coherence
open Dcache Library

/-- The arrays of the cores and the memory behind them, by tag and index. -/
structure System (N : ℕ) where
  cache : Fin N → CacheArray
  mem : Tag → Index → LineData

/-! ### Snoops -/

/-- The lookup that EVAL_FLAGS sees. -/
def snoopIn (a : CacheArray) (l : PAddr) : SnoopIn where
  bypass := false
  snoopPort := ⟨false, l, .readOnce, true, true⟩
  rdata := a l.index
  hitWay := TagCmp.hitWay (a l.index) l.tag
  dirtyWay w := anyByte (a l.index w).dirty
  sharedWay w := (a l.index w).shared
  flushing := false
  amoValid := false
  amoAddr := l
  updatingCache := false

/-- The snoop controller after EVAL_FLAGS: it holds the CR response and the CD data. -/
def snooped (a : CacheArray) (k : AcSnoop) (l : PAddr) : SnoopCtrl :=
  SnoopCtrl.stepEvalFlags { SnoopCtrl.reset with state := .evalFlags, memReq := l, acSnoop := k } (snoopIn a l)

/-- The array after the status write of the snoop. -/
def afterSnoop (a : CacheArray) (k : AcSnoop) (l : PAddr) : CacheArray :=
  a.write ((snooped a k l).port (snoopIn a l))

namespace System
variable {N : ℕ}

/-! ### The coherence unit -/

/-- A snooped cache returns data without an error. -/
def responds (s : System N) (i : Fin N) (k : AcSnoop) (l : PAddr) (j : Fin N) : Bool :=
  !(j == i) && (snooped (s.cache j) k l).crResp.dataTransfer && !(snooped (s.cache j) k l).crResp.error

def dataAvailable (s : System N) (i : Fin N) (k : AcSnoop) (l : PAddr) : Bool :=
  (List.finRange N).any (s.responds i k l)

/-- `first_responder`: whichever cache answers first; the timing is not modelled, so any may. -/
def firstResponder (s : System N) (i : Fin N) (k : AcSnoop) (l : PAddr) (first : Fin N) : Fin N :=
  if s.responds i k l first then first else ((List.finRange N).find? (s.responds i k l)).getD first

/-- The line returned by the first responder. -/
def snoopData (s : System N) (i : Fin N) (k : AcSnoop) (l : PAddr) (first : Fin N) : LineData :=
  (snooped (s.cache (s.firstResponder i k l first)) k l).cacheData

/-- Every cache but the initiator's is snooped. -/
def snoopOthers (s : System N) (i : Fin N) (k : AcSnoop) (l : PAddr) : System N :=
  { s with cache := fun j => if j = i then s.cache j else afterSnoop (s.cache j) k l }

def writeMem (s : System N) (l : PAddr) (be : LineBe) (d : LineData) : System N :=
  { s with mem := fun t idx => if t = l.tag ∧ idx = l.index then merge be d (s.mem t idx) else s.mem t idx }

/-- READ_SNP_DATA, or READ_MEM when no cache has the line: the R beats of a read. -/
def readResp (s : System N) (i : Fin N) (k : AcSnoop) (l : PAddr) (first : Fin N) : MissAxi :=
  if s.dataAvailable i k l then
    { gnt := true, valid := true, data := MissHandler.burstWords (s.snoopData i k l first)
      dirty := (List.finRange N).any fun j => !(j == i) && (snooped (s.cache j) k l).crResp.passDirty
      shared := (List.finRange N).any fun j => !(j == i) && (snooped (s.cache j) k l).crResp.isShared }
  else
    { gnt := true, valid := true, data := MissHandler.burstWords (s.mem l.tag l.index)
      dirty := false, shared := false }

/-- SEND_INVALID_R/W to WRITE_BACK_MEM_R/W: the other copies are invalidated and a dirty one is
written to memory as a whole line. -/
def invalidateOthers (s : System N) (i : Fin N) (l : PAddr) (first : Fin N) : System N :=
  let s' := s.snoopOthers i .cleanInvalid l
  if s.dataAvailable i .cleanInvalid l then
    s'.writeMem l (fun _ => true) (s.snoopData i .cleanInvalid l first)
  else s'

/-! ### The miss handler -/

/-- What the miss handler sees of its own array. -/
def missIn (a : CacheArray) (idx : Index) (amo : PAddr) : MissIn where
  flush := false
  busy := false
  initN := true
  missReq _ := CacheCtrl.reset.missReq
  rdata := a idx
  snoopInvalidate := false
  snoopInvalidateAddr := amo
  amoReq := { AmoReq.none with operandA := amo }
  axi := ⟨false, false, fun _ _ => 0, false, false⟩
  amoRsp := ⟨false, false, fun _ => 0⟩

def setCache (s : System N) (i : Fin N) (a : CacheArray) : System N :=
  { s with cache := fun j => if j = i then a else s.cache j }

/-- WB_CACHELINE_*: the burst of the miss handler reaches memory and the way is cleared. -/
def writeBack (c : Cfg) (s : System N) (i : Fin N) (q : MissHandler) : System N :=
  let r := q.axiReq c
  (s.setCache i ((s.cache i).write (MissHandler.clearStatus q.cnt q.evictWay))).writeMem r.addr
    (MissHandler.lineOfBe r.be) (MissHandler.lineOfWords r.wdata)

/-- A way of a set is written back to make room. -/
def evict (c : Cfg) (s : System N) (i : Fin N) (idx : Index) (w : Way) : System N :=
  if (s.cache i idx w).valid && anyByte (s.cache i idx w).dirty then
    s.writeBack c i { MissHandler.reset with
      state := .wbCachelineMiss, evictWay := oneHot w, evictCl := s.cache i idx w, cnt := idx }
  else s

/-- One visit of FLUSHING: a dirty way is written back, or the set is cleared. -/
def flushSet (c : Cfg) (s : System N) (i : Fin N) (idx : Index) : System N :=
  let q : MissHandler := { MissHandler.reset with state := .flushing, cnt := idx }
  let j := missIn (s.cache i) idx ⟨0, 0, 0⟩
  let d := q.step j
  if d.state = .wbCachelineFlush then s.writeBack c i d else s.setCache i ((s.cache i).write (q.port j))

/-- AMO_WB: the own copy is written back or dropped. -/
def dropOwn (c : Cfg) (s : System N) (i : Fin N) (l : PAddr) : System N :=
  let q : MissHandler := { MissHandler.reset with state := .amoWb, serveAmo := true }
  let j := missIn (s.cache i) l.index l
  let d := q.step j
  if d.state = .wbCachelineAmo then s.writeBack c i d else s.setCache i ((s.cache i).write (q.port j))

/-- The ACE read of a refill and its answer. -/
def fetch (c : Cfg) (s : System N) (i : Fin N) (q : MissHandler) (first : Fin N) : System N × MissAxi :=
  match q.refillType c with
  | .readUnique => (s.snoopOthers i .readUnique q.mshr.addr, s.readResp i .readUnique q.mshr.addr first)
  | .readShared => (s.snoopOthers i .readShared q.mshr.addr, s.readResp i .readShared q.mshr.addr first)
  | _ => (s, ⟨true, true, MissHandler.burstWords (s.mem q.mshr.addr.tag q.mshr.addr.index), false, false⟩)

/-- The miss handler after MISS_REPL: it has picked a way, and a victim if that is dirty. -/
def picked (a : CacheArray) (m : Mshr) (lfsr : BitVec 8) : MissHandler :=
  let q : MissHandler := { MissHandler.reset with state := .missRepl, mshr := m, lfsr := lfsr }
  q.step (missIn a m.addr.index m.addr)

/-- From MISS_REPL to SAVE_CACHELINE, with the victim written back first when it is dirty. -/
def refill (c : Cfg) (s : System N) (i : Fin N) (m : Mshr) (lfsr : BitVec 8) (first : Fin N) : System N :=
  let d := picked (s.cache i) m lfsr
  let s' := if d.state = .wbCachelineMiss then s.writeBack c i d else s
  let r := s'.fetch c i { d with state := .reqCacheline } first
  r.1.setCache i ((r.1.cache i).write (d.saveWrite r.2))

/-! ### The core side -/

def hitWay (s : System N) (i : Fin N) (l : PAddr) : WaySet := TagCmp.hitWay (s.cache i l.index) l.tag

/-- The array write of STORE_REQ. -/
def storeHit (s : System N) (i : Fin N) (l : PAddr) (be : WordBe) (wdata : Word) : System N :=
  let q : CacheCtrl := { CacheCtrl.reset with
    state := .storeReq, hitWay := s.hitWay i l
    memReq := { MemReq.zero with
      index := l.index, offset := l.offset, tag := l.tag, be := be, we := true, wdata := wdata } }
  s.setCache i ((s.cache i).write q.storeWrite)

/-- The operations of the cores. -/
inductive Op (N : ℕ)
  | load (i : Fin N) (l : PAddr) (lfsr : BitVec 8) (first : Fin N)
  | store (i : Fin N) (l : PAddr) (be : WordBe) (wdata : Word) (lfsr : BitVec 8) (first : Fin N)
  | lr (i : Fin N) (l : PAddr) (first : Fin N)
  /-- an AMO, a store-conditional or another WRITE_UNIQUE, with its effect on the line in memory -/
  | amo (i : Fin N) (l : PAddr) (first : Fin N) (f : LineData → LineData)
  | evict (i : Fin N) (idx : Index) (w : Way)
  | flush (i : Fin N) (idx : Index)

/-- One complete operation. -/
def step (c : Cfg) (s : System N) : Op N → System N
  | .load i l lfsr first =>
    if anyWay (s.hitWay i l) then s
    else s.refill c i ⟨1, true, false, l, fun _ => 0, fun _ => false, false⟩ lfsr first
  | .store i l be wdata lfsr first =>
    if anyWay (s.hitWay i l) then
      if anyWay fun w => !(s.cache i l.index w).shared && s.hitWay i l w then s.storeHit i l be wdata
      else (s.invalidateOthers i l first).storeHit i l be wdata
    else s.refill c i ⟨2, true, true, l, wdata, be, false⟩ lfsr first
  | .lr i l first => (s.dropOwn c i l).invalidateOthers i l first
  | .amo i l first f =>
    let s' := (s.dropOwn c i l).invalidateOthers i l first
    s'.writeMem l (fun _ => true) (f (s'.mem l.tag l.index))
  | .evict i idx w => s.evict c i idx w
  | .flush i idx => s.flushSet c i idx

/-- Loads and stores go to shareable lines. -/
def Op.shareable (c : Cfg) : Op N → Prop
  | .load _ l _ _ | .store _ l _ _ _ _ => c.isInsideShareableRegions l = true
  | _ => True

/-- No line is cached after reset, and memory holds anything. -/
def machine (c : Cfg) (N : ℕ) : Machine (System N) (Op N) :=
  ⟨fun s => ∀ j idx w, (s.cache j idx w).valid = false, step c⟩

end System
end Culsans.Coherence
