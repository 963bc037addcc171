import Culsans.Coherence.Reservation

/-! # The LR/SC adapter in front of memory (`axi_riscv_lrsc`, `axi_res_tbl`)

A store-conditional is passed on to memory while the reservation of its user is held, and dropped
otherwise. This is the instance of `culsans_top`: one read and one write in flight, and reservations
of 16 bytes for the lower `u` bits of the AXI user signal. Attributes and data that pass through
unchanged are left out, and so are the registers behind B and R.
-/

namespace Culsans.Coherence

/-! ### The building blocks -/

/-- `id_queue` of full bandwidth with room for one element. -/
abbrev IdQueue (w : ℕ) (α : Type*) := Option (BitVec w × α)

namespace IdQueue
variable {w : ℕ} {α : Type*} (q : IdQueue w α)

/-- `oup_data_o`, if it is valid -/
def output (id : BitVec w) : Option α :=
  match q with
  | some e => if e.1 = id then some e.2 else none
  | none => none

/-- `oup_data_popped`, with the id of a request that pops. -/
def popped (pop : Option (BitVec w)) : Bool := pop.any fun id => (q.output id).isSome

def inpGnt (pop : Option (BitVec w)) : Bool := q.isNone || q.popped pop

def step (push : Option (BitVec w × α)) (pop : Option (BitVec w)) : IdQueue w α :=
  if push.isSome && q.inpGnt pop then push else if q.popped pop then none else q

end IdQueue

/-- `stream_fork` with two outputs, each flag telling a WAIT. -/
@[ext]
structure StreamFork where
  inpWait : Bool
  oupWait : Fin 2 → Bool

namespace StreamFork
variable (f : StreamFork) (valid : Bool) (ready : Fin 2 → Bool)

def reset : StreamFork := ⟨false, fun _ => false⟩

def validO (k : Fin 2) : Bool := !f.oupWait k && valid

def oupReady (k : Fin 2) : Bool := f.oupWait k || !valid || ready k

def readyO : Bool :=
  if f.inpWait then valid && (f.oupReady valid ready 0 && f.oupReady valid ready 1)
  else valid && (f.validO valid 0 && f.validO valid 1) && (ready 0 && ready 1)

def step : StreamFork where
  inpWait := if f.inpWait then !f.readyO valid ready else valid && !f.readyO valid ready
  oupWait k :=
    if f.oupWait k then !(valid && f.readyO valid ready) else valid && ready k && !f.readyO valid ready

end StreamFork

/-- `axi_res_tbl`: the line reserved for each id, where 0 stands for none. -/
abbrev ResTbl (u : ℕ) := BitVec u → BitVec 60

structure ResTblIn (u : ℕ) where
  checkClrAddr : BitVec 60
  checkId : BitVec u
  checkClrExcl : Bool
  checkClrReq : Bool
  setAddr : BitVec 60
  setId : BitVec u
  setReq : Bool

def ResTblIn.setGnt {u : ℕ} (i : ResTblIn u) : Bool := !i.checkClrReq && i.setReq

namespace ResTbl
variable {u : ℕ} (t : ResTbl u) (i : ResTblIn u)

def checkRes : Bool := i.checkClrReq && t i.checkId == i.checkClrAddr

/-- A failing exclusive write clears nothing. -/
def clr : Bool := i.checkClrReq && !(i.checkClrExcl && !(t i.checkId == i.checkClrAddr))

def step : ResTbl u := fun k =>
  if i.setGnt && k == i.setId then i.setAddr
  else if t.clr i && t k == i.checkClrAddr then 0
  else t k

end ResTbl

/-! ### The adapter -/

/-- What the adapter reads on an address channel. -/
structure AxReq (w v : ℕ) where
  addr : BitVec 64
  len : BitVec 8
  size : BitVec 3
  lock : Bool
  id : BitVec w
  user : BitVec v
deriving DecidableEq

/-- The address without the ignored bits, `AXI_ADDR_LSB` of them. -/
def AxReq.line {w v : ℕ} (a : AxReq w v) : BitVec 60 := a.addr.extractLsb' 4 60

/-- What the mask of an `exists` request leaves of a line. -/
def pageOf (x : BitVec 60) : BitVec 48 := x.extractLsb' 12 48

/-- The window in which there are exclusive accesses. -/
structure LrscCfg where
  addrBegin : BitVec 64
  addrEnd : BitVec 64

def LrscCfg.inside (c : LrscCfg) (a : BitVec 64) : Bool := decide (c.addrBegin ≤ a) && decide (a ≤ c.addrEnd)

/-- `b_cmd_t` -/
inductive BCmd
  | regular | exclusive | inject
deriving DecidableEq

/-- `w_cmd_t` -/
structure WCmd (w v : ℕ) where
  forward : Bool
  id : BitVec w
  user : BitVec v
deriving DecidableEq

/-- `b_inj_t` -/
structure BInj (w v : ℕ) where
  id : BitVec w
  user : BitVec v
deriving DecidableEq

/-- `b_chan_t` -/
structure BChan (w v : ℕ) where
  id : BitVec w
  user : BitVec v
  resp : BitVec 2
deriving DecidableEq

/-- A beat of memory on R. -/
structure RBeat (w : ℕ) where
  id : BitVec w
  resp : BitVec 2
  last : Bool

/-- `aw_state_t` -/
inductive AwState
  | idle | wait | burst
deriving DecidableEq

/-- The registers: `ar_state_q` and `b_state_q` are true in AR_WAIT and B_FORWARD, and `existsRr` is
the priority of the arbiter of the `exists` port. -/
structure Lrsc (w v u : ℕ) where
  arWait : Bool
  awState : AwState
  bForward : Bool
  clrAddr : BitVec 60
  clrLen : BitVec 7
  clrId : BitVec u
  awWait : Bool
  art : ResTbl u
  readInFlight : IdQueue w Bool
  writeInFlight : IdQueue w (BitVec 60 × Bool)
  bStatus : IdQueue w BCmd
  wCmd : Option (WCmd w v)
  bInj : Option (BInj w v)
  awTrans : Option (AxReq w v)
  arPushFork : StreamFork
  mstBFork : StreamFork
  existsRr : Bool

/-- The requests and responses that are valid, and the readies; `wBeat` is the last flag of a write beat. -/
structure LrscIn (w v : ℕ) where
  ar : Option (AxReq w v)
  aw : Option (AxReq w v)
  wBeat : Option Bool
  mstArReady : Bool
  mstAwReady : Bool
  mstWReady : Bool
  mstR : Option (RBeat w)
  mstB : Option (BChan w v)
  slvRReady : Bool
  slvBReady : Bool

/-- The outputs of the AW control, with the request to check the table, and its next state. -/
structure AwOut (w v u : ℕ) where
  mstAwValid : Bool
  slvAwReady : Bool
  check : Option (BitVec 60 × Bool)
  bStatusInp : Option (BitVec w × BCmd)
  wCmdInp : Option (WCmd w v)
  awState : AwState
  clrAddr : BitVec 60
  clrLen : BitVec 7
  clrId : BitVec u
  awWait : Bool

/-- The outputs of the B control, with the id looked up in the status queue, and its next state. -/
structure BOut (w v : ℕ) where
  statusOupReq : Option (BitVec w)
  slvB : Option (BChan w v)
  mstBReady : Bool
  bInjPop : Bool
  bForward : Bool

namespace Lrsc
variable {w v u : ℕ} (c : LrscCfg) (q : Lrsc w v u) (i : LrscIn w v)

def reset : Lrsc w v u where
  arWait := false
  awState := .idle
  bForward := false
  clrAddr := 0
  clrLen := 0
  clrId := 0
  awWait := false
  art _ := 0
  readInFlight := none
  writeInFlight := none
  bStatus := none
  wCmd := none
  bInj := none
  awTrans := none
  arPushFork := .reset
  mstBFork := .reset
  existsRr := false

/-- The user bits that hold a reservation. -/
def resId (user : BitVec v) : BitVec u := user.setWidth u

/-! ### R channel -/

def rifqPop : Option (BitVec w) :=
  match i.mstR with
  | some r => if i.slvRReady && r.last then some r.id else none
  | none => none

/-- `slv_r.resp` -/
def slvRResp (r : RBeat w) : BitVec 2 :=
  if r.resp.getLsbD 1 then r.resp else if q.readInFlight.output r.id = some true then 1 else 0

def rifqInpGnt : Bool := q.readInFlight.inpGnt (rifqPop i)

/-! ### B channel -/

def wifqOupReq : Bool := q.mstBFork.validO i.mstB.isSome 0

def mstBValid : Bool := q.mstBFork.validO i.mstB.isSome 1

/-- Try to forward a B. -/
def forwardB (b : BChan w v) : BOut w v :=
  match q.bStatus.output b.id with
  | some cmd =>
    { statusOupReq := some b.id
      slvB := some { b with
        resp := if b.resp.getLsbD 1 then b.resp else if cmd = .exclusive then 1 else 0 }
      mstBReady := i.slvBReady
      bInjPop := false
      bForward := q.bForward && !i.slvBReady }
  | none => ⟨some b.id, none, false, false, q.bForward⟩

def bOut : BOut w v :=
  match q.bForward, q.bInj with
  | false, some x =>
    match q.bStatus.output x.id with
    | some .inject => ⟨some x.id, some ⟨x.id, x.user, 0⟩, false, i.slvBReady, false⟩
    | some _ => ⟨some x.id, none, false, false, true⟩
    | none => ⟨some x.id, none, false, false, false⟩
  | _, _ =>
    match i.mstB with
    | some b => if q.mstBValid i then q.forwardB i b else ⟨none, none, false, false, q.bForward⟩
    | none => ⟨none, none, false, false, q.bForward⟩

/-- The id with which `b_status_oup_pop` is asserted. -/
def bStatusPop : Option (BitVec w) :=
  if (q.bOut i).slvB.isSome && i.slvBReady then (q.bOut i).statusOupReq else none

def wifqPop : Option (BitVec w) := if q.wifqOupReq i then i.mstB.map (·.id) else none

def bStatusInpGnt : Bool := q.bStatus.inpGnt (q.bStatusPop i)

def wifqInpGnt : Bool := q.writeInFlight.inpGnt (q.wifqPop i)

/-- `ready_i` of the fork; the queue grants every request. -/
def mstBReadies : Fin 2 → Bool := fun k => if k = 0 then q.wifqOupReq i else (q.bOut i).mstBReady

/-! ### The port that looks for writes in flight -/

/-- An exclusive read of the line is waiting. -/
def arBlocks (x : BitVec 60) : Bool := i.ar.any fun r => r.lock && r.line == x

def arPushExcl (r : AxReq w v) : Bool := c.inside r.addr && r.lock && r.len == 0

def awStarts : Bool := q.awState == .idle && q.wCmd.isNone && q.bStatusInpGnt i && q.wifqInpGnt i

def awExistsReq : Bool :=
  q.awStarts i && i.aw.any fun a => c.inside a.addr && !arBlocks i a.line

def arExistsReq : Bool := !q.arWait && i.ar.any (arPushExcl c)

/-- The decision of the arbiter, true for AR. -/
def existsSel : Bool := !q.awExistsReq c i || q.arExistsReq c i && q.existsRr

def awExistsGnt : Bool := (q.awExistsReq c i || q.arExistsReq c i) && !q.existsSel c i

def arExistsGnt : Bool := (q.awExistsReq c i || q.arExistsReq c i) && q.existsSel c i

def existsRrD : Bool :=
  if q.awExistsReq c i || q.arExistsReq c i then
    if q.existsRr then !q.awExistsReq c i else q.arExistsReq c i
  else q.existsRr

/-- `wifq_exists` of a write: an exclusive write of its line, or for a burst of its page. -/
def awWifqExists (a : AxReq w v) : Bool :=
  q.writeInFlight.any fun e => e.2.2 && if a.len = 0 then e.2.1 == a.line else pageOf e.2.1 == pageOf a.line

/-- `wifq_exists` of an exclusive read: any write of its page. -/
def arWifqExists (r : AxReq w v) : Bool := q.writeInFlight.any fun e => pageOf e.2.1 == pageOf r.line

/-! ### AW channel -/

/-- `aw_res_len` -/
def awResLen (a : AxReq w v) : BitVec 7 :=
  if 4 < a.size.toNat then BitVec.ofNat 7 ((a.len.toNat + 1) <<< (a.size.toNat - 4))
  else BitVec.ofNat 7 ((a.len.toNat + 1) >>> (4 - a.size.toNat))

/-- The ready of the fall-through register. -/
def mstAwReady : Bool := q.awTrans.isNone

/-- Nothing happens on AW. -/
def awKeep : AwOut w v u where
  mstAwValid := false
  slvAwReady := false
  check := none
  bStatusInp := none
  wCmdInp := none
  awState := q.awState
  clrAddr := q.clrAddr
  clrLen := q.clrLen
  clrId := q.clrId
  awWait := q.awWait

/-- An exclusive write. -/
def awExclusive (a : AxReq w v) : AwOut w v u :=
  if q.art (resId a.user) == a.line then
    { q.awKeep with
      mstAwValid := true
      slvAwReady := q.mstAwReady
      check := some (a.line, true)
      awState := if q.mstAwReady then .idle else .wait
      wCmdInp := some ⟨true, a.id, a.user⟩
      bStatusInp := some (a.id, .exclusive) }
  else
    { q.awKeep with
      slvAwReady := true
      check := some (a.line, true)
      wCmdInp := some ⟨false, a.id, a.user⟩
      bStatusInp := some (a.id, .inject) }

/-- A write that is not exclusive, or a burst. -/
def awRegular (a : AxReq w v) : AwOut w v u :=
  let o : AwOut w v u := { q.awKeep with
    mstAwValid := true
    slvAwReady := q.mstAwReady
    check := some (a.line, a.lock)
    wCmdInp := some ⟨true, 0, 0⟩
    bStatusInp := some (a.id, .regular) }
  if 1 < (awResLen a).toNat then
    { o with
      clrAddr := a.line + 1
      clrLen := awResLen a - 1
      clrId := a.id.setWidth u
      awWait := !q.mstAwReady
      awState := .burst }
  else if q.mstAwReady then o
  else { o with awState := .wait }

/-- A write outside the window. -/
def awOutside (a : AxReq w v) : AwOut w v u :=
  if q.mstAwReady then
    { q.awKeep with
      mstAwValid := true
      slvAwReady := true
      wCmdInp := some ⟨true, 0, 0⟩
      bStatusInp := some (a.id, .regular) }
  else { q.awKeep with mstAwValid := true }

/-- AW_BURST -/
def awBurst : AwOut w v u :=
  let wait := q.awWait && !q.mstAwReady
  if arBlocks i q.clrAddr then { q.awKeep with mstAwValid := q.awWait, awWait := wait }
  else
    { q.awKeep with
      mstAwValid := q.awWait
      awWait := wait
      check := some (q.clrAddr, false)
      clrAddr := q.clrAddr + 1
      clrLen := q.clrLen - 1
      awState := if q.clrLen == 1 then (if wait then .wait else .idle) else .burst }

/-- The table is asked only when the register is ready, and grants at once. -/
def awOut : AwOut w v u :=
  match q.awState with
  | .idle =>
    match i.aw with
    | none => q.awKeep
    | some a =>
      if !q.awStarts i then q.awKeep
      else if !c.inside a.addr then q.awOutside a
      else if !(q.awExistsGnt c i && !q.awWifqExists a && q.mstAwReady) then q.awKeep
      else if a.lock && a.len == 0 then q.awExclusive a
      else q.awRegular a
  | .wait =>
    { q.awKeep with
      mstAwValid := true
      slvAwReady := q.mstAwReady
      awState := if q.mstAwReady then .idle else .wait }
  | .burst => q.awBurst i

/-- The output of the fall-through register. -/
def mstAw : Option (AxReq w v) :=
  match q.awTrans with
  | some a => some a
  | none => if (q.awOut c i).mstAwValid then i.aw else none

/-- The write that goes into the register, and with it into the queue of writes in flight. -/
def awPass : Option (AxReq w v) := if (q.awOut c i).mstAwValid && q.mstAwReady then i.aw else none

/-! ### AR channel -/

def arPushValid : Bool := !q.arWait && i.ar.any fun r => !arPushExcl c r || q.arExistsGnt c i

def arPushRes : Bool :=
  i.ar.any fun r => arPushExcl c r && q.arExistsGnt c i && !q.arWifqExists r

def artIn : ResTblIn u where
  checkClrAddr := ((q.awOut c i).check.map (·.1)).getD 0
  checkId := if q.awState == .burst then q.clrId else resId ((i.aw.map (·.user)).getD 0)
  checkClrExcl := ((q.awOut c i).check.map (·.2)).getD false
  checkClrReq := (q.awOut c i).check.isSome
  setAddr := (i.ar.map AxReq.line).getD 0
  setId := resId ((i.ar.map (·.user)).getD 0)
  setReq := q.arPushFork.validO (q.arPushValid c i) 1 && q.arPushRes c i

/-- `ready_i` of the fork: the queue of reads in flight, and the filter before the table. -/
def arPushReadies : Fin 2 → Bool := fun k =>
  if k = 0 then q.rifqInpGnt i else !q.arPushRes c i || (q.artIn c i).setGnt

def arPushReady : Bool := q.arPushFork.readyO (q.arPushValid c i) (q.arPushReadies c i)

def mstArValid : Bool := if q.arWait then i.ar.isSome else q.arPushReady c i

def slvArReady : Bool := if q.arWait then i.mstArReady else q.arPushReady c i && i.mstArReady

def rifqPush : Option (BitVec w × Bool) :=
  if q.arPushFork.validO (q.arPushValid c i) 0 then i.ar.map fun r => (r.id, arPushExcl c r) else none

/-! ### W channel -/

/-- The command of the beat, unless it has to wait. -/
def wNow : Option (WCmd w v) := if i.wBeat.isSome && q.bInj.isNone then q.wCmd else none

def mstWValid : Bool := (q.wNow i).any (·.forward)

def slvWReady : Bool := (q.wNow i).any fun x => !x.forward || i.mstWReady

def wCmdPop : Bool := q.slvWReady i && i.wBeat == some true

def bInjPush : Option (BInj w v) :=
  if q.wCmdPop i then (q.wNow i).bind fun x => if x.forward then none else some ⟨x.id, x.user⟩ else none

def step : Lrsc w v u where
  arWait := if q.arWait then !(i.mstArReady && i.ar.isSome) else q.arPushReady c i && !i.mstArReady
  awState := (q.awOut c i).awState
  bForward := (q.bOut i).bForward
  clrAddr := (q.awOut c i).clrAddr
  clrLen := (q.awOut c i).clrLen
  clrId := (q.awOut c i).clrId
  awWait := (q.awOut c i).awWait
  art := q.art.step (q.artIn c i)
  readInFlight := q.readInFlight.step (q.rifqPush c i) (rifqPop i)
  writeInFlight := q.writeInFlight.step ((q.awPass c i).map fun a => (a.id, a.line, a.lock)) (q.wifqPop i)
  bStatus := q.bStatus.step (q.awOut c i).bStatusInp (q.bStatusPop i)
  wCmd := if q.wCmdPop i then none else if q.wCmd.isNone then (q.awOut c i).wCmdInp else q.wCmd
  bInj := if (q.bOut i).bInjPop then none else if q.bInj.isNone then q.bInjPush i else q.bInj
  awTrans := if i.mstAwReady then none else q.mstAw c i
  arPushFork := q.arPushFork.step (q.arPushValid c i) (q.arPushReadies c i)
  mstBFork := q.mstBFork.step i.mstB.isSome (q.mstBReadies i)
  existsRr := q.existsRrD c i

end Lrsc
end Culsans.Coherence
