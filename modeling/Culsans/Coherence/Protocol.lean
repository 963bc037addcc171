import Culsans.Library.Machine
import Culsans.Library.Coherence
import Culsans.Dcache.SnoopCacheCtrl

/-! # One line between the caches, the coherence unit and memory

What can happen to one line, event by event, in any interleaving. The miss handler of a core
does one thing at a time, so it has at most one transaction and one write-back of the line under
way. A bypassed store and an atomic take another way, through the bypass adapter: they do not look
at the array (a store is bypassed while the cache is disabled, whatever the array still holds), and
one of them can be under way beside what the miss handler does. `ccu_fsm` serves one transaction at
a time; write-backs of the cores go to memory through ports of their own, past the coherence unit.
Responses and writes may be delayed arbitrarily. The hold-off of snoops during flushes and
atomics is left out: it only removes interleavings.

Bytes are represented by the number of the store that wrote them, counted for each
byte in the order in which the stores were performed.
-/

namespace Culsans.Coherence.Protocol
open Dcache Library

abbrev Stamps := Fin 16 → ℕ
abbrev LineCopy := Copy (Fin 16) ℕ

/-- The ACE transactions that go through the coherence unit; `lr` is a locked read. -/
inductive Kind
  | readShared | readUnique | cleanUnique | lr | writeUnique
deriving DecidableEq

/-- The snoop sent for a transaction (SEND_READ, SEND_INVALID_R and SEND_INVALID_W). -/
def Kind.snoop : Kind → AcSnoop
  | .readShared => .readShared
  | .readUnique => .readUnique
  | .cleanUnique | .lr | .writeUnique => .cleanInvalid

/-- The response is a line for SAVE_CACHELINE. -/
def Kind.refill (k : Kind) : Bool := k == .readShared || k == .readUnique

/-- Where a core's transaction is: waiting for the coherence unit, being served, or answered
by the last R beat that has not yet arrived. -/
inductive Stage
  | idle | asked | served | granted
deriving DecidableEq

/-- A write-back burst; `landed` when memory has taken it. -/
structure Write where
  mask : LineBe
  data : Stamps
  landed : Bool

structure Core where
  /-- the line in the array -/
  copy : Option LineCopy
  /-- the core's own WRITE_BACK of the line -/
  back : Option Write
  stage : Stage
  kind : Kind
  /-- bytes of the store that waits for the transaction -/
  be : LineBe
  /-- `colliding_clean_q` -/
  collidingClean : Bool
  /-- `colliding_read_q` -/
  collidingRead : Bool
  /-- the response: data, PassDirty for every byte, IsShared -/
  resp : LineCopy
  /-- STORE_REQ after a completed upgrade -/
  mayStore : Bool
  /-- the WRITE_UNIQUE of a bypassed store or of an atomic -/
  write : Stage
  /-- its bytes -/
  writeBe : LineBe

def Core.reset : Core :=
  ⟨none, none, .idle, .readShared, fun _ => false, false, false, ⟨fun _ => 0, fun _ => false, false⟩, false, .idle,
    fun _ => false⟩

/-- States of `ccu_fsm`: SEND_READ/SEND_INVALID and WAIT_RESP/WAIT_INVALID, WRITE_BACK_MEM,
READ_MEM and WRITE_MEM, each with the request state before it. -/
inductive Phase
  | idle | snoop | writeBack | read | write
deriving DecidableEq

structure Ccu (N : ℕ) where
  phase : Phase
  kind : Kind
  initiator : Fin N
  /-- `cr_valid` -/
  answered : Fin N → Bool
  /-- some core has returned data -/
  available : Bool
  /-- the data of the first responder -/
  data : Stamps
  shared : Bool
  dirty : Bool
  /-- memory has taken the write-back -/
  landed : Bool

structure State (N : ℕ) where
  core : Fin N → Core
  ccu : Ccu N
  mem : Stamps
  /-- the number of the last store to each byte -/
  clock : Stamps

inductive Event (N : ℕ)
  /-- a miss, an upgrade, a bypassed store or an atomic is sent to the coherence unit -/
  | request (i : Fin N) (k : Kind) (be : LineBe)
  /-- CHECK_BEFORE_CLEAN does not find the line any more -/
  | recheck (i : Fin N)
  /-- a store hit is written -/
  | store (i : Fin N) (be : LineBe)
  /-- a dirty line is written back to make room, by a flush or for an atomic -/
  | evict (i : Fin N)
  /-- a clean line is replaced or cleared -/
  | drop (i : Fin N)
  /-- memory takes a core's write-back -/
  | land (i : Fin N)
  /-- the core receives B and clears the way -/
  | written (i : Fin N)
  | accept (i : Fin N)
  /-- the coherence unit takes up the WRITE_UNIQUE of a core -/
  | acceptWrite (i : Fin N)
  /-- a snooped core looks the line up, updates it and responds -/
  | answer (j : Fin N)
  /-- all cores have responded -/
  | resolve
  /-- memory takes the write-back of the coherence unit -/
  | landCcu
  | writtenCcu
  | readMem
  /-- the forwarded write or atomic is performed in memory and acknowledged -/
  | writeMem
  /-- the last R beat arrives and SAVE_CACHELINE writes the line -/
  | save (i : Fin N)
  /-- the R beat of an upgrade arrives -/
  | upgraded (i : Fin N)

/-- Number the stores to the given bytes. -/
def tick (be : LineBe) (t : Stamps) : Stamps := fun b => if be b then t b + 1 else t b

namespace State
variable {N : ℕ} (s : State N)

def setCore (i : Fin N) (c : Core) : State N :=
  { s with core := fun j => if j = i then c else s.core j }

/-- Overwrite bytes of a line with a new store. -/
def stored (be : LineBe) (d : Stamps) : Stamps := merge be (tick be s.clock) d

/-- No transaction and no write-back of the line under way in the miss handler. -/
def free (i : Fin N) : Bool := (s.core i).stage == .idle && (s.core i).back.isNone

/-- A miss and a locked read need the line to be absent, an upgrade a shared copy. -/
def canRequest (i : Fin N) (k : Kind) : Bool :=
  s.free i && match (s.core i).copy with
    | some m => k == .cleanUnique && m.shared && !(s.core i).mayStore
    | none => !(k == .cleanUnique || k == .writeUnique)

/-- The snoop controller's answer to the transaction being served. -/
def answerOf (j : Fin N) : SnoopAnswer :=
  match (s.core j).copy with
  | some m => evalFlags s.ccu.kind.snoop true (anyByte m.dirty) m.shared
  | none => evalFlags s.ccu.kind.snoop false false false

/-- The status write of the snoop, and what the controllers waiting for the line notice of it. -/
def snooped (j : Fin N) : Core :=
  let c := s.core j
  match (s.answerOf j).next with
  | .updateShared =>
    { c with copy := c.copy.map fun m => { m with shared := true }, collidingRead := true, mayStore := false }
  | .invalidate => { c with copy := none, collidingClean := true, mayStore := false }
  | _ => c

/-- The CR and CD registers after a response. -/
def collected (j : Fin N) : Ccu N :=
  let r := (s.answerOf j).crResp
  { s.ccu with
    answered := fun k => k == j || s.ccu.answered k
    available := s.ccu.available || r.dataTransfer
    data := if !s.ccu.available && r.dataTransfer then
      match (s.core j).copy with
      | some m => m.data
      | none => s.ccu.data else s.ccu.data
    shared := s.ccu.shared || r.isShared
    dirty := s.ccu.dirty || r.passDirty }

def goTo (p : Phase) : State N := { s with ccu := { s.ccu with phase := p, landed := false } }

/-- Hand the last R beat to the initiator. -/
def grant (r : LineCopy) : State N :=
  s.setCore s.ccu.initiator { s.core s.ccu.initiator with stage := .granted, resp := r }

/-- The locked read of the initiator is over. -/
def finish : State N := s.setCore s.ccu.initiator { s.core s.ccu.initiator with stage := .idle }

/-- The write of the initiator is over. -/
def finishWrite : State N := s.setCore s.ccu.initiator { s.core s.ccu.initiator with write := .idle }

/-- The next state of `ccu_fsm` once every core has responded. -/
def resolved : State N :=
  match s.ccu.kind with
  | .readShared | .readUnique =>
    if s.ccu.available then (s.grant ⟨s.ccu.data, fun _ => s.ccu.dirty, s.ccu.shared⟩).goTo .idle
    else s.goTo .read
  | .cleanUnique =>
    -- the R beat is sent before the dirty data is written back
    (s.grant ⟨fun _ => 0, fun _ => false, false⟩).goTo (if s.ccu.available then .writeBack else .idle)
  | .lr => s.goTo (if s.ccu.available then .writeBack else .read)
  | .writeUnique => s.goTo (if s.ccu.available then .writeBack else .write)

/-- The line written by SAVE_CACHELINE. -/
def saved (i : Fin N) : LineCopy :=
  let c := s.core i
  let we := c.kind == .readUnique
  { data := if we then s.stored c.be c.resp.data else c.resp.data
    dirty := fun b => c.resp.dirty b || (we && c.be b)
    shared := if we then false else c.resp.shared }

def step : Event N → State N
  | .request i .writeUnique be =>
    -- WAIT_TAG_BYPASSED and AMO_REQ: the array is not looked at
    if (s.core i).write = .idle then s.setCore i { s.core i with write := .asked, writeBe := be } else s
  | .request i k be =>
    if s.canRequest i k then
      s.setCore i { s.core i with
        stage := .asked, kind := k, be := be, collidingClean := false, collidingRead := false }
    else s
  | .recheck i =>
    if (s.core i).stage = .asked ∧ (s.core i).kind = .cleanUnique ∧ (s.core i).copy = none then
      s.setCore i { s.core i with kind := .readUnique } else s
  | .store i be =>
    match (s.core i).copy with
    | some m =>
      if s.free i && (!m.shared || (s.core i).mayStore) then
        { s.setCore i { s.core i with
            copy := some ⟨s.stored be m.data, fun b => be b || m.dirty b, false⟩, mayStore := false } with
          clock := tick be s.clock }
      else s
    | none => s
  | .evict i =>
    match (s.core i).copy with
    | some m =>
      if s.free i && anyByte m.dirty then
        s.setCore i { s.core i with back := some ⟨m.dirty, m.data, false⟩, mayStore := false } else s
    | none => s
  | .drop i =>
    match (s.core i).copy with
    | some m =>
      if s.free i && !anyByte m.dirty then
        s.setCore i { s.core i with copy := none, mayStore := false } else s
    | none => s
  | .land i =>
    match (s.core i).back with
    | some w =>
      if w.landed then s else
        { s.setCore i { s.core i with back := some { w with landed := true } } with
          mem := merge w.mask w.data s.mem }
    | none => s
  | .written i =>
    match (s.core i).back with
    | some w => if w.landed then s.setCore i { s.core i with copy := none, back := none } else s
    | none => s
  | .accept i =>
    if s.ccu.phase = .idle ∧ (s.core i).stage = .asked then
      { s.setCore i { s.core i with stage := .served } with
        ccu := ⟨.snoop, (s.core i).kind, i, fun j => j == i, false, fun _ => 0, false, false, false⟩ }
    else s
  | .acceptWrite i =>
    if s.ccu.phase = .idle ∧ (s.core i).write = .asked then
      { s.setCore i { s.core i with write := .served } with
        ccu := ⟨.snoop, .writeUnique, i, fun j => j == i, false, fun _ => 0, false, false, false⟩ }
    else s
  | .answer j =>
    if s.ccu.phase = .snoop ∧ s.ccu.answered j = false then
      { s.setCore j (s.snooped j) with ccu := s.collected j } else s
  | .resolve =>
    if s.ccu.phase = .snoop ∧ ∀ j, s.ccu.answered j = true then s.resolved else s
  | .landCcu =>
    if s.ccu.phase = .writeBack ∧ s.ccu.landed = false then
      { s with mem := s.ccu.data, ccu := { s.ccu with landed := true } } else s
  | .writtenCcu =>
    if s.ccu.phase = .writeBack ∧ s.ccu.landed = true then
      match s.ccu.kind with
      | .lr => s.goTo .read
      | .writeUnique => s.goTo .write
      | _ => s.goTo .idle
    else s
  | .readMem =>
    if s.ccu.phase = .read then
      if s.ccu.kind.refill then (s.grant ⟨s.mem, fun _ => false, false⟩).goTo .idle else s.finish.goTo .idle
    else s
  | .writeMem =>
    if s.ccu.phase = .write then
      { s.finishWrite.goTo .idle with
        mem := s.stored (s.core s.ccu.initiator).writeBe s.mem
        clock := tick (s.core s.ccu.initiator).writeBe s.clock }
    else s
  | .save i =>
    if (s.core i).stage = .granted ∧ (s.core i).kind.refill = true then
      { s.setCore i { s.core i with copy := some (s.saved i), stage := .idle } with
        clock := if (s.core i).kind = .readUnique then tick (s.core i).be s.clock else s.clock }
    else s
  | .upgraded i =>
    if (s.core i).stage = .granted ∧ (s.core i).kind = .cleanUnique then
      -- an upgrade that lost its line is fetched again, one that was read meanwhile is repeated
      s.setCore i (if (s.core i).collidingClean then { s.core i with stage := .asked, kind := .readUnique }
        else { s.core i with stage := .idle, mayStore := !(s.core i).collidingRead })
    else s

end State

/-- No core holds the line after reset, and no store has been performed. -/
def machine (N : ℕ) : Machine (State N) (Event N) where
  init s := (∀ i, s.core i = .reset) ∧ s.ccu.phase = .idle ∧ s.mem = s.clock
  next := State.step

end Culsans.Coherence.Protocol
