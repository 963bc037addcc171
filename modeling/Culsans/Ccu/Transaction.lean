import Culsans.Library.Machine
import Culsans.Ccu.Fsm

/-! # The transactions of the coherence unit

An observer keeps, for the transaction in progress, the request and everything that was
handed over on each channel. It starts afresh when the next request is taken up.
-/

namespace Culsans.Ccu
open Dcache Library

inductive Req (N : ℕ)
  | read (ar : Ar N)
  | write (aw : Aw N)

namespace Req
variable {N : ℕ}

def port : Req N → Fin N
  | .read ar => ar.id.port
  | .write aw => aw.id.port

/-- The snoop of a request. -/
def ac : Req N → Ac
  | .read ar => ⟨ar.addr, ar.prot, if ar.snoop = .cleanUnique ∨ ar.lock = true then .cleanInvalid else ar.snoop⟩
  | .write aw => ⟨aw.addr, aw.prot, .cleanInvalid⟩

/-- The state in which data of a snooped core is passed on. -/
def dataState : Req N → FsmState
  | .read ar => if ar.snoop = .cleanUnique ∨ ar.lock = true then .sendAxiReqWriteBackR else .readSnpData
  | .write _ => .sendAxiReqWriteBackW

/-- The state after the snoops when no core has returned data. -/
def memState : Req N → FsmState
  | .read ar => if ar.snoop = .cleanUnique ∧ ar.lock = false then .idle else .sendAxiReqR
  | .write _ => .sendAxiReqW

/-- A CleanUnique is answered by a single R beat when all cores have responded. -/
def upgrade : Req N → Bool
  | .read ar => ar.snoop == .cleanUnique && !ar.lock
  | .write _ => false

/-- The R beat that answers a CleanUnique. -/
def ack : Req N → R N
  | .read ar => ⟨ar.id, 0, false, false, 0, true, 0⟩
  | .write aw => ⟨aw.id, 0, false, false, 0, true, 0⟩

/-- The states a request can lead through. -/
def visits : Req N → FsmState → Bool
  | .read _, .decodeR => true
  | .read ar, .sendRead | .read ar, .waitRespR | .read ar, .readSnpData => !(ar.snoop == .cleanUnique || ar.lock)
  | .read ar, .sendInvalidR | .read ar, .waitInvalidR | .read ar, .sendAxiReqWriteBackR
  | .read ar, .writeBackMemR => ar.snoop == .cleanUnique || ar.lock
  | .read ar, .sendAxiReqR | .read ar, .readMem => !(ar.snoop == .cleanUnique) || ar.lock
  | .write _, .decodeW | .write _, .sendInvalidW | .write _, .waitInvalidW | .write _, .sendAxiReqWriteBackW
  | .write _, .writeBackMemW | .write _, .sendAxiReqW | .write _, .writeMem => true
  | .write aw, .readMem => aw.atop.getLsbD 5
  | _, _ => false

/-- The request registers hold the request. -/
def Held (q : Fsm N) : Req N → Prop
  | .read ar => q.ar = ar
  | .write aw => q.aw = aw

end Req

/-- What was handed over on each channel since the request was taken up. -/
structure Trace (N : ℕ) where
  req : Option (Req N)
  ac : Fin N → List Ac
  cr : Fin N → List CrResp
  cd : Fin N → List Cd
  /-- R beats taken by the initiator -/
  r : List (R N)
  /-- W beats taken from the initiator -/
  w : List W
  /-- B responses taken by the initiator -/
  b : List (B N)
  memAr : List (Ar N)
  memAw : List (Aw N)
  memW : List W
  memB : List (B N)

namespace Trace
variable {N : ℕ}

def start (r : Option (Req N)) : Trace N :=
  ⟨r, fun _ => [], fun _ => [], fun _ => [], [], [], [], [], [], [], []⟩

/-- Append an item that is handed over. -/
def push {α : Type*} (done : Bool) (a : α) (l : List α) : List α := if done then l ++ [a] else l

def step (t : Trace N) (q : Fsm N) (i : CcuIn N) : Trace N :=
  if q.takesAr i then .start (some (.read i.req.ar))
  else if q.takesAw i then .start (some (.write i.req.aw))
  else
    { req := t.req
      ac := fun n => push (q.acDone i n) q.ac (t.ac n)
      cr := fun n => push (q.crDone i n) (i.snoop n).crResp (t.cr n)
      cd := fun n => push (q.cdDone i n) (i.snoop n).cd (t.cd n)
      r := push (q.rDone i) (q.r i) t.r
      w := push (q.wReady i && i.req.wValid) i.req.w t.w
      b := push (q.bValid i && i.req.bReady) i.mem.b t.b
      memAr := push (q.memArValid && i.mem.arReady) q.memAr t.memAr
      memAw := push (q.memAwValid && i.mem.awReady) q.memAw t.memAw
      memW := push (q.memWDone i) (q.memW i) t.memW
      memB := push (q.memBReady i && i.mem.bValid) i.mem.b t.memB }

/-- The core has returned data without an error. -/
def Returned (t : Trace N) (n : Fin N) : Prop := ∃ c ∈ t.cr n, c.dataTransfer = true ∧ c.error = false

end Trace

/-- `ccu_fsm` beside the observer. -/
def ccu (N : ℕ) [NeZero N] : Machine (Fsm N × Trace N) (CcuIn N) :=
  Machine.observe ⟨Fsm.IsReset, fun q i => q.step i⟩ (Trace.start none) fun t q i => t.step q i

end Culsans.Ccu
