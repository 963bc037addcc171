import Mathlib.Data.BitVec
import Mathlib.Data.Fin.Basic
import Culsans.Core.Lzc
import Culsans.Library.Fifo
import Culsans.Library.Machine
import Culsans.Library.Sizes

/-! # The instruction queue (`instr_queue`)

Two instructions at most come in with a fetch. They are dealt in turn to two queues; the predicted
address of a taken control flow instruction goes to a third one.
-/

namespace Culsans.Frontend
open Library Culsans.Core

/-- `cf_t` -/
inductive Cf
  | noCF | branch | jump | jumpR | ret
deriving DecidableEq

/-- `frontend_exception_t` -/
inductive FrontendException
  | feNone | feInstrAccessFault | feInstrPageFault | feInstrGuestPageFault
deriving DecidableEq

/-- `instr_data_t` -/
structure InstrData where
  instr : BitVec 32
  cf : Cf
  ex : FrontendException
  exVaddr : BitVec 64
  exGpaddr : BitVec 41
  exTinst : BitVec 64
  exGva : Bool
deriving DecidableEq

/-- `exception_t` -/
structure FetchException where
  cause : BitVec 64
  tval : BitVec 64
  tval2 : BitVec 41
  tinst : BitVec 64
  gva : Bool
  valid : Bool
deriving DecidableEq

/-- `fetch_entry_t`; the prediction is `branch_predict`. -/
structure FetchEntry where
  address : BitVec 64
  instruction : BitVec 32
  cf : Cf
  predictAddress : BitVec 64
  ex : FetchException
deriving DecidableEq

structure QueueIn where
  flush : Bool
  instr : Fin 2 → BitVec 32
  addr : Fin 2 → BitVec 64
  valid : BitVec 2
  exception : FrontendException
  exceptionAddr : BitVec 64
  exceptionGpaddr : BitVec 41
  exceptionTinst : BitVec 64
  exceptionGva : Bool
  predictAddress : BitVec 64
  cfType : Fin 2 → Cf
  fetchEntryReady : Bool

/-- The registers of `instr_queue` and its queues, which have the same depth. -/
structure InstrQueue (depth : ℕ) where
  instrFifo : Fin 2 → Ring InstrData depth
  addressFifo : Ring (BitVec 64) depth
  idxIs : Fin 2
  idxDs : BitVec 2
  pc : BitVec 64
  resetAddress : Bool

def instrAccessFault : BitVec 64 := 1
def instrPageFault : BitVec 64 := 12
def instrGuestPageFault : BitVec 64 := 20

/-- The vector with the given bits. -/
def bits (f : Fin 2 → Bool) : BitVec 2 := BitVec.ofBool (f 1) ++ BitVec.ofBool (f 0)

namespace QueueIn

def taken (i : QueueIn) : BitVec 2 := bits fun k => i.cfType k != .noCF

def branchIndex (i : QueueIn) : ℕ := Lzc.trailing i.taken

def branchMask (i : QueueIn) : BitVec 2 := (0b011#3 <<< i.branchIndex).extractLsb' 1 2

/-- `valid`: the instructions up to the first that is taken. -/
def masked (i : QueueIn) : BitVec 2 := i.valid &&& i.branchMask

end QueueIn

/-- `popcount` -/
def popcount (v : BitVec 2) : BitVec 2 := (v.extractLsb' 1 1).setWidth 2 + (v.extractLsb' 0 1).setWidth 2

/-- `fifo_pos`: rotated left by the current position. -/
def rotateLeft (v : BitVec 2) (k : Fin 2) : BitVec 2 := ((v ++ v) <<< k.val).extractLsb' 2 2

/-- `consumed_extended`: rotated right again. -/
def rotateRight (v : BitVec 2) (k : Fin 2) : BitVec 2 := ((v ++ v) >>> k.val).extractLsb' 0 2

/-- What is put out for an entry of the queues. -/
def InstrData.entry (d : InstrData) (pc addressOut : BitVec 64) : FetchEntry where
  address := pc
  instruction := d.instr
  cf := d.cf
  predictAddress := addressOut
  ex :=
    { cause := if d.ex = .feInstrAccessFault then instrAccessFault
        else if d.ex = .feInstrGuestPageFault then instrGuestPageFault else instrPageFault
      tval := d.exVaddr
      tval2 := d.exGpaddr
      tinst := d.exTinst
      gva := d.exGva
      valid := d.ex != .feNone }

namespace InstrQueue
variable {depth : ℕ}

def reset : InstrQueue depth where
  instrFifo := fun _ => .reset ⟨0, .noCF, .feNone, 0, 0, 0, false⟩
  addressFifo := .reset 0
  idxIs := 0
  idxDs := 0b01
  pc := 0
  resetAddress := true

def instrQueueFull (q : InstrQueue depth) : BitVec 2 := bits fun k => (q.instrFifo k).full

def instrQueueEmpty (q : InstrQueue depth) : BitVec 2 := bits fun k => (q.instrFifo k).empty

def ready (q : InstrQueue depth) : Bool := q.instrQueueFull == 0 && !q.addressFifo.full

def fifoPos (q : InstrQueue depth) (i : QueueIn) : BitVec 2 := rotateLeft i.masked q.idxIs

def pushInstr (q : InstrQueue depth) (i : QueueIn) : BitVec 2 := q.fifoPos i &&& ~~~q.instrQueueFull

/-- The inputs of queue `k`; the exception holds for the whole fetch. -/
def instrDataIn (q : InstrQueue depth) (i : QueueIn) (k : Fin 2) : InstrData where
  instr := i.instr (k + q.idxIs)
  cf := i.cfType (k + q.idxIs)
  ex := i.exception
  exVaddr := i.exceptionAddr
  exGpaddr := i.exceptionGpaddr
  exTinst := i.exceptionTinst
  exGva := i.exceptionGva

def pushAddress (q : InstrQueue depth) (i : QueueIn) : Bool :=
  (q.pushInstr i).getLsbD 0 && (q.instrDataIn i 0).cf != .noCF ||
    (q.pushInstr i).getLsbD 1 && (q.instrDataIn i 1).cf != .noCF

def addressOverflow (q : InstrQueue depth) (i : QueueIn) : Bool := q.addressFifo.full && q.pushAddress i

/-- No instruction is saved if the address cannot be. -/
def pushInstrFifo (q : InstrQueue depth) (i : QueueIn) : BitVec 2 :=
  bits fun k => (q.pushInstr i).getLsbD k && !q.addressOverflow i

def consumed (q : InstrQueue depth) (i : QueueIn) : BitVec 2 := rotateRight (q.pushInstrFifo i) q.idxIs

/-- How many instructions have been pushed, in as many bits as the position has. -/
def shamt (q : InstrQueue depth) (i : QueueIn) : Fin 2 := Fin.ofNat 2 (popcount (q.pushInstrFifo i)).toNat

def instrOverflow (q : InstrQueue depth) (i : QueueIn) : Bool := q.instrQueueFull &&& q.fifoPos i != 0

def replay (q : InstrQueue depth) (i : QueueIn) : Bool := q.instrOverflow i || q.addressOverflow i

def replayAddr (q : InstrQueue depth) (i : QueueIn) : BitVec 64 :=
  if q.addressOverflow i then i.addr 0 else i.addr (q.shamt i)

def fetchEntryValid (q : InstrQueue depth) : Bool := q.instrQueueEmpty != 0b11

def fetchEntry (q : InstrQueue depth) : FetchEntry :=
  if q.idxDs.getLsbD 1 then (q.instrFifo 1).head.entry q.pc q.addressFifo.head
  else if q.idxDs.getLsbD 0 then (q.instrFifo 0).head.entry q.pc q.addressFifo.head
  else ⟨q.pc, 0, .noCF, q.addressFifo.head, ⟨0, 0, 0, 0, false, false⟩⟩

def popInstr (q : InstrQueue depth) (i : QueueIn) : BitVec 2 :=
  bits fun k => q.idxDs.getLsbD k && (q.fetchEntryValid && i.fetchEntryReady)

def popAddress (q : InstrQueue depth) (i : QueueIn) : Bool := q.fetchEntry.cf != .noCF && q.popInstr i != 0

/-- The pointer is rotated left. -/
def idxDsD (q : InstrQueue depth) (i : QueueIn) : BitVec 2 :=
  if i.fetchEntryReady then q.idxDs.extractLsb' 0 1 ++ q.idxDs.extractLsb' 1 1 else q.idxDs

def pcD (q : InstrQueue depth) (i : QueueIn) : BitVec 64 :=
  if i.valid.getLsbD 0 && q.resetAddress then i.addr 0
  else if q.popAddress i then q.addressFifo.head
  else if i.fetchEntryReady then q.pc + if q.fetchEntry.instruction.extractLsb' 0 2 != 0b11 then 2 else 4
  else q.pc

def step (q : InstrQueue depth) (i : QueueIn) : InstrQueue depth :=
  let next : InstrQueue depth :=
    { instrFifo := fun k =>
        (q.instrFifo k).step ((q.pushInstrFifo i).getLsbD k) ((q.popInstr i).getLsbD k) (q.instrDataIn i k)
      addressFifo := q.addressFifo.step (q.pushAddress i && !q.addressFifo.full) (q.popAddress i) i.predictAddress
      idxIs := q.idxIs + q.shamt i
      idxDs := q.idxDsD i
      pc := q.pcD i
      resetAddress := if i.valid.getLsbD 0 && q.resetAddress then false else q.resetAddress }
  if i.flush then
    { next with
      instrFifo := fun k => (next.instrFifo k).flush
      addressFifo := next.addressFifo.flush
      idxIs := 0
      idxDs := 0b01
      resetAddress := true }
  else next

end InstrQueue
end Culsans.Frontend
