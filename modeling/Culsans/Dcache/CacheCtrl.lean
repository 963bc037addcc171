import Culsans.Dcache.Array

/-! # One core-side cache controller (`cache_ctrl`)

The combinational block of the source is split by what each output depends on:
the tag, the MSHR query and the miss request need no grant, the array request
needs no grant, and the next state and the core response need it.
-/

namespace Culsans.Dcache

/-- `cache_ctrl` states -/
inductive CtrlState
  | idle | waitTag | waitTagBypassed | waitGnt | waitGntSaved | makeUnique | storeReq
  | waitRefillValid | waitRefillGnt | waitTagSaved | waitMshr | waitCriticalWord
deriving DecidableEq

/-- `mem_req_t` -/
structure MemReq where
  index : Index
  offset : Offset
  tag : Tag
  be : WordBe
  size : BitVec 2
  we : Bool
  wdata : Word
  bypass : Bool
  killed : Bool

def MemReq.zero : MemReq := ⟨0, 0, 0, fun _ => false, 0, false, fun _ => 0, false, false⟩
def MemReq.addr (m : MemReq) : PAddr := ⟨m.tag, m.index, m.offset⟩

/-- Save index, enables, size, direction and data of a new request. -/
def MemReq.save (m : MemReq) (r : DcacheReqI) : MemReq :=
  { m with index := r.addressIndex, offset := r.addressOffset, be := r.dataBe, size := r.dataSize,
           we := r.dataWe, wdata := r.dataWdata, killed := r.killReq }

/-- Registers of one `cache_ctrl`. -/
structure CacheCtrl where
  state : CtrlState
  memReq : MemReq
  hitWay : WaySet
  sharedWay : WaySet
  collidingRead : Bool
  collidingClean : Bool

/-- Inputs of one `cache_ctrl` apart from the array grant. -/
structure CtrlIn where
  bypass : Bool
  stall : Bool
  reqPort : DcacheReqI
  rdata : Way → CacheLine
  hitWay : WaySet
  sharedWay : WaySet
  missGnt : Bool
  missWriteDone : Bool
  activeServing : Bool
  criticalWord : Word
  criticalWordValid : Bool
  bypassGnt : Bool
  bypassValid : Bool
  bypassData : Word
  mshrAddrMatches : Bool
  mshrIndexMatches : Bool
  snoopInvalidate : Bool
  snoopInvalidateAddr : PAddr
  readsharedDone : ReadsharedDone

namespace CacheCtrl

def reset : CacheCtrl := ⟨.idle, .zero, noWay, noWay, false, false⟩

def busy (q : CacheCtrl) : Bool := !(q.state == .idle)

/-- WAIT_TAG: the client really wants the request and its tag is known. -/
def tagOk (q : CacheCtrl) (r : DcacheReqI) : Bool :=
  !r.killReq && (r.tagValid || q.state == .waitTagSaved || q.memReq.we)

/-- `tag_o`, that is `mem_req_d.tag`. -/
def tagO (q : CacheCtrl) (r : DcacheReqI) : Tag :=
  match q.state with
  | .waitTag => if q.tagOk r then r.addressTag else q.memReq.tag
  | .waitGnt | .waitGntSaved => if r.tagValid then r.addressTag else q.memReq.tag
  | .waitTagBypassed =>
    if !r.killReq && (r.tagValid || q.memReq.we) then r.addressTag else q.memReq.tag
  | _ => q.memReq.tag

/-- `mshr_addr_o` -/
def mshrAddr (q : CacheCtrl) (r : DcacheReqI) : PAddr :=
  match q.state with
  | .waitTag | .waitTagSaved =>
    if q.tagOk r then ⟨q.tagO r, q.memReq.index, q.memReq.offset⟩ else ⟨0, 0, 0⟩
  | .storeReq | .waitMshr | .waitRefillGnt => q.memReq.addr
  | _ => ⟨0, 0, 0⟩

/-- `miss_req_o` -/
def missReq (q : CacheCtrl) : MissReq :=
  match q.state with
  | .makeUnique => ⟨true, q.memReq.addr, q.memReq.be, q.memReq.size, q.memReq.we, q.memReq.wdata, false, true⟩
  | .waitRefillGnt =>
    ⟨true, q.memReq.addr, q.memReq.be, q.memReq.size, q.memReq.we, q.memReq.wdata, q.memReq.bypass, false⟩
  | _ => ⟨false, ⟨0, 0, 0⟩, fun _ => false, 0, false, fun _ => 0, false, false⟩

/-- STORE_REQ owns the line: no MSHR conflict and no colliding snoop. -/
def storing (q : CacheCtrl) (i : CtrlIn) : Bool :=
  q.state == .storeReq && !i.mshrIndexMatches && !q.collidingClean && !q.collidingRead

/-- `updating_cache_o` -/
def updatingCache (q : CacheCtrl) (i : CtrlIn) : Bool := q.storing i

/-- The array write of STORE_REQ: store the data and set the dirty bits. -/
def storeWrite (q : CacheCtrl) : ArrayPort where
  req := q.hitWay
  addr := q.memReq.index
  we := true
  be := { tag := false
          data := placeBe q.memReq.addr.word q.memReq.be
          vldrty := fun w => if q.hitWay w then
            { valid := true, shared := true, dirty := placeBe q.memReq.addr.word q.memReq.be } else .none }
  wdata := { CacheLine.zero with
    data := placeWord q.memReq.addr.word q.memReq.wdata
    dirty := placeBe q.memReq.addr.word q.memReq.be
    valid := true, shared := false }

/-- Array side: `req_o`, `addr_o`, `we_o`, `be_o` and `data_o`. -/
def port (q : CacheCtrl) (i : CtrlIn) : ArrayPort :=
  let r := i.reqPort
  match q.state with
  | .idle => if r.dataReq && !i.stall then .lookup r.addressIndex else .idle
  | .waitTag | .waitTagSaved =>
    if q.tagOk r then
      if r.dataReq && !i.stall then .lookup r.addressIndex else .idle
    else .lookup q.memReq.index
  | .waitGnt | .waitGntSaved => .lookup q.memReq.index
  | .storeReq =>
    if i.mshrIndexMatches then .idle else
    if q.collidingClean then .lookup q.memReq.index else
    if q.collidingRead then .idle else q.storeWrite
  | .waitMshr => if i.mshrIndexMatches then .idle else .lookup q.memReq.index
  | .waitCriticalWord =>
    if i.criticalWordValid && (r.dataReq && !i.stall) then .lookup r.addressIndex else .idle
  | _ => .idle

/-- A snooped line address matches the saved request. -/
def matchesLine (q : CacheCtrl) (a : PAddr) : Bool := a.sameLine q.memReq.addr

/-- Registers after the default assignments: only the kill flag is updated. -/
def base (q : CacheCtrl) (i : CtrlIn) : CacheCtrl :=
  { q with memReq := { q.memReq with killed := q.memReq.killed || i.reqPort.killReq } }

def stepIdle (q : CacheCtrl) (i : CtrlIn) (gnt : Bool) : CacheCtrl :=
  let d := { q.base i with collidingRead := false }
  if i.reqPort.dataReq && !i.stall then
    let m := d.memReq.save i.reqPort
    if i.bypass then { d with state := .waitTagBypassed, memReq := { m with bypass := true } }
    else if gnt then { d with state := .waitTag, memReq := { m with bypass := false } }
    else { d with memReq := m }
  else d

/-- The hit case of WAIT_TAG, before the MSHR and cacheability checks. -/
def stepHit (q : CacheCtrl) (d : CacheCtrl) (i : CtrlIn) (gnt : Bool) : CacheCtrl :=
  if q.memReq.we then
    { d with
      hitWay := i.hitWay, sharedWay := i.sharedWay
      state := if anyWay (fun w => !i.sharedWay w && i.hitWay w) then .storeReq else
        if anyWay (fun w => i.sharedWay w && i.hitWay w) then .makeUnique else .idle }
  else if i.reqPort.dataReq && !i.mshrAddrMatches && !i.stall then
    { d with memReq := { d.memReq.save i.reqPort with bypass := false }
             state := if gnt then .waitTag else .idle }
  else { d with state := .idle }

def stepWaitTag (c : Cfg) (q : CacheCtrl) (i : CtrlIn) (gnt : Bool) : CacheCtrl :=
  let d := { q.base i with collidingRead := false }
  if q.tagOk i.reqPort then
    let d := { d with memReq := { d.memReq with tag := q.tagO i.reqPort } }
    let d := if anyWay i.hitWay then q.stepHit d i gnt else { d with state := .waitRefillGnt }
    let d := if (i.mshrIndexMatches && q.memReq.we) || i.mshrAddrMatches then
      { d with state := .waitMshr } else d
    if c.isInsideCacheableRegions (q.tagO i.reqPort) then d
    else { d with state := .waitRefillGnt, memReq := { d.memReq with bypass := true } }
  else if gnt then d else { d with state := .waitGnt }

def stepWaitGnt (q : CacheCtrl) (i : CtrlIn) (gnt : Bool) : CacheCtrl :=
  let d := q.base i
  let saved := i.reqPort.tagValid || q.state == .waitGntSaved
  { d with
    memReq := { d.memReq with tag := q.tagO i.reqPort }
    state := if gnt then (if saved then .waitTagSaved else .waitTag)
      else if saved then .waitGntSaved else .waitGnt }

/-- `colliding_read_d` after the detection in MAKE_UNIQUE and STORE_REQ. -/
def detectRead (q : CacheCtrl) (i : CtrlIn) : Bool :=
  if i.readsharedDone.valid && !q.collidingRead then q.matchesLine i.readsharedDone.addr
  else q.collidingRead

/-- `colliding_clean_d` after the detection in STORE_REQ. -/
def detectClean (q : CacheCtrl) (i : CtrlIn) : Bool :=
  if i.snoopInvalidate && !q.collidingClean then q.matchesLine i.snoopInvalidateAddr
  else q.collidingClean

def stepMakeUnique (q : CacheCtrl) (i : CtrlIn) : CacheCtrl :=
  let d := { q.base i with collidingRead := q.detectRead i }
  if i.missGnt && i.missWriteDone then { d with state := .idle, collidingClean := false }
  else if i.missGnt then { d with state := .storeReq } else d

def stepStoreReq (q : CacheCtrl) (i : CtrlIn) (gnt : Bool) : CacheCtrl :=
  let d := { q.base i with collidingRead := q.detectRead i, collidingClean := q.detectClean i }
  let clear (s : CtrlState) := { d with state := s, collidingRead := false, collidingClean := false }
  if i.mshrIndexMatches then clear .waitMshr else
  if q.collidingClean then (if gnt then clear .waitTagSaved else d) else
  if q.collidingRead then clear .makeUnique else
  if gnt then clear .idle else d

def stepWaitMshr (q : CacheCtrl) (i : CtrlIn) (gnt : Bool) : CacheCtrl :=
  if !i.mshrIndexMatches && gnt then { q.base i with state := .waitTagSaved } else q.base i

def stepWaitTagBypassed (q : CacheCtrl) (i : CtrlIn) : CacheCtrl :=
  if !i.reqPort.killReq && (i.reqPort.tagValid || q.memReq.we) then
    { q.base i with state := .waitRefillGnt
                    memReq := { (q.base i).memReq with tag := q.tagO i.reqPort } }
  else q.base i

def stepWaitRefillGnt (q : CacheCtrl) (i : CtrlIn) : CacheCtrl :=
  { q.base i with state :=
      if i.mshrAddrMatches && !i.activeServing then .waitMshr else
      if i.missGnt && !q.memReq.we then .waitCriticalWord else
      if i.missGnt then .idle else
      if i.bypassGnt then .waitRefillValid else .waitRefillGnt }

def stepWaitCriticalWord (q : CacheCtrl) (i : CtrlIn) (gnt : Bool) : CacheCtrl :=
  let d := q.base i
  if i.criticalWordValid then
    if i.reqPort.dataReq && !i.stall then
      let m := d.memReq.save i.reqPort
      if gnt then { d with state := .waitTag, memReq := { m with bypass := false } }
      else { d with state := .idle, memReq := m }
    else { d with state := .idle }
  else d

def stepWaitRefillValid (q : CacheCtrl) (i : CtrlIn) : CacheCtrl :=
  if i.bypassValid then { q.base i with state := .idle } else q.base i

/-- The states a kill does not leave. -/
def unkillable (s : CtrlState) : Bool :=
  s == .makeUnique || s == .waitRefillGnt || s == .waitCriticalWord

/-- The state case of `cache_ctrl_fsm`. -/
def stepState (c : Cfg) (q : CacheCtrl) (i : CtrlIn) (gnt : Bool) : CacheCtrl :=
  match q.state with
  | .idle => q.stepIdle i gnt
  | .waitTag | .waitTagSaved => q.stepWaitTag c i gnt
  | .waitGnt | .waitGntSaved => q.stepWaitGnt i gnt
  | .makeUnique => q.stepMakeUnique i
  | .storeReq => q.stepStoreReq i gnt
  | .waitMshr => q.stepWaitMshr i gnt
  | .waitTagBypassed => q.stepWaitTagBypassed i
  | .waitRefillGnt => q.stepWaitRefillGnt i
  | .waitCriticalWord => q.stepWaitCriticalWord i gnt
  | .waitRefillValid => q.stepWaitRefillValid i

/-- Next registers of `cache_ctrl_fsm`; a kill sends most states back to IDLE. -/
def step (c : Cfg) (q : CacheCtrl) (i : CtrlIn) (gnt : Bool) : CacheCtrl :=
  let d := q.stepState c i gnt
  if i.reqPort.killReq && !unkillable q.state then { d with state := .idle } else d

/-- `way_select`: the last hitting way drives `cl_i`. -/
def selectLine (rdata : Way → CacheLine) (hit : WaySet) : LineData :=
  (List.finRange 8).foldl (fun d w => if hit w then (rdata w).data else d) fun _ => 0

/-- The selected line is the line of a hitting way. -/
theorem selectLine_spec (rdata : Way → CacheLine) {hit : WaySet} (h : anyWay hit = true) :
    ∃ w, hit w = true ∧ selectLine rdata hit = (rdata w).data := by
  have hgen : ∀ (l : List Way) (d : LineData), (∃ w ∈ l, hit w = true) →
      ∃ w, hit w = true ∧ l.foldl (fun d w => if hit w then (rdata w).data else d) d = (rdata w).data := by
    intro l
    induction l with
    | nil => simp
    | cons v l ih =>
      intro d hw
      by_cases hl : ∃ w ∈ l, hit w = true
      · exact ih _ hl
      · have hv : hit v = true := by grind
        have hstay : ∀ (l : List Way) (d : LineData), (¬ ∃ w ∈ l, hit w = true) →
            l.foldl (fun d w => if hit w then (rdata w).data else d) d = d := by
          intro l
          induction l with
          | nil => simp
          | cons u l ih' => grind
        exact ⟨v, hv, by simp [hv, hstay l _ hl]⟩
  obtain ⟨w, hw⟩ := anyWay_iff.mp h
  exact hgen _ _ ⟨w, List.mem_finRange w, hw⟩

/-- `data_gnt` -/
def dataGnt (q : CacheCtrl) (i : CtrlIn) (gnt : Bool) : Bool :=
  let r := i.reqPort
  match q.state with
  | .idle => r.dataReq && !i.stall && (if i.bypass then !r.dataWe else gnt && !r.dataWe)
  | .waitTag | .waitTagSaved =>
    q.tagOk r && anyWay i.hitWay && (r.dataReq && !q.memReq.we && !i.mshrAddrMatches && !i.stall) && gnt
      && !((i.mshrIndexMatches && q.memReq.we) || i.mshrAddrMatches)
  | .makeUnique => i.missGnt && i.missWriteDone
  | .storeReq => q.storing i && gnt
  | .waitRefillGnt => (i.bypassGnt && q.memReq.we) || (i.missGnt && q.memReq.we)
  | .waitCriticalWord => i.criticalWordValid && (r.dataReq && !i.stall) && gnt
  | _ => false

/-- `data_rvalid` before a kill forces it. -/
def loadRvalid (q : CacheCtrl) (i : CtrlIn) : Bool :=
  match q.state with
  | .waitTag | .waitTagSaved =>
    q.tagOk i.reqPort && anyWay i.hitWay && !q.memReq.we && !q.memReq.killed
      && !((i.mshrIndexMatches && q.memReq.we) || i.mshrAddrMatches)
  | .waitCriticalWord => i.criticalWordValid && !q.memReq.killed
  | .waitRefillValid => i.bypassValid && !q.memReq.we && !q.memReq.killed
  | _ => false

/-- `data_rdata` -/
def dataRdata (q : CacheCtrl) (i : CtrlIn) : Word :=
  match q.state with
  | .waitTag | .waitTagSaved =>
    if q.tagOk i.reqPort && anyWay i.hitWay then
      LineData.word (selectLine i.rdata i.hitWay) q.memReq.addr.word else fun _ => 0
  | .waitCriticalWord => if i.criticalWordValid then i.criticalWord else fun _ => 0
  | .waitRefillValid => if i.bypassValid then i.bypassData else fun _ => 0
  | _ => fun _ => 0

/-- Response to the core; a kill is always acknowledged with `data_rvalid`. -/
def reqPortO (q : CacheCtrl) (i : CtrlIn) (gnt : Bool) : DcacheReqO where
  dataGnt := q.dataGnt i gnt
  dataRvalid := q.loadRvalid i || i.reqPort.killReq
  dataRdata := q.dataRdata i

end CacheCtrl
end Culsans.Dcache
