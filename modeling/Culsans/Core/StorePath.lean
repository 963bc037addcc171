import Culsans.Core.StoreBuffer
import Culsans.Core.StoreUnit
import Culsans.Library.Machine

/-! # The store unit and its buffer

A store is translated in the cycle in which it is taken from the queue of requests. The
MMU answers one cycle later, and then the store goes into the speculative queue.
-/

namespace Culsans.Core
open Dcache Library

/-- The loads of `fu_op`. -/
inductive LoadOp
  | ld | lw | lwu | lh | lhu | lb | lbu
deriving DecidableEq

def LoadOp.extractTransferSize : LoadOp → BitVec 2
  | ld => 3
  | lw | lwu => 2
  | lh | lhu => 1
  | lb | lbu => 0

/-- `fu` and `operation` of a request. -/
inductive LsuOp
  | load (op : LoadOp)
  | store (op : FuOp)
deriving DecidableEq

namespace LsuOp

def isLoad : LsuOp → Bool
  | load _ => true
  | store _ => false

def isAmo : LsuOp → Bool
  | load _ => false
  | store op => op.isAmo

def extractTransferSize : LsuOp → BitVec 2
  | load op => op.extractTransferSize
  | store op => op.extractTransferSize

def amoOpD : LsuOp → Amo
  | load _ => .none
  | store op => op.amoOpD

end LsuOp

/-- A virtual address; bits 11:4 and 3:0 are those of the physical one. -/
structure VAddr where
  page : BitVec 52
  index : Index
  offset : Offset
deriving DecidableEq

/-- `lsu_ctrl_t` -/
structure LsuCtrl where
  valid : Bool
  vaddr : VAddr
  data : Word
  be : WordBe
  op : LsuOp
  transId : BitVec 3

def LsuCtrl.zero : LsuCtrl := ⟨false, ⟨0, 0, 0⟩, fun _ => 0, fun _ => false, .load .lb, 0⟩

/-- `st_data_n` -/
def LsuCtrl.stData (r : LsuCtrl) : Word :=
  if r.op.isAmo then r.data else dataAlign r.vaddr.offset r.data

inductive StoreState
  | idle | validStore | waitTranslation | waitStoreReady
deriving DecidableEq

structure StoreUnit (ws wc : ℕ) where
  state : StoreState
  stData : Word
  stBe : WordBe
  stDataSize : BitVec 2
  amoOp : Amo
  transId : BitVec 3
  storeBuffer : StoreBuffer ws wc

/-- The inputs; the physical address of the MMU comes as an argument of its own. -/
structure StoreUnitIn where
  flush : Bool
  valid : Bool
  lsuCtrl : LsuCtrl
  commit : Bool
  /-- `ex_i.valid` -/
  exValid : Bool
  dtlbHit : Bool
  /-- bits 11:4 and 3:0 of `page_offset_i` -/
  pageIndex : Index
  pageOffset : Offset
  /-- `ready_o` of the AMO buffer -/
  amoBufferReady : Bool
  dataGnt : Bool

namespace StoreUnit
variable {ws wc : ℕ} (s : StoreUnit ws wc) (i : StoreUnitIn) (paddr : PAddr)

def reset : StoreUnit ws wc := ⟨.idle, fun _ => 0, fun _ => false, 0, .none, 0, .reset⟩

/-- `st_ready` -/
def stReady : Bool := s.storeBuffer.ready i.commit && i.amoBufferReady

/-- An exception of the translation, one cycle after the request or later. -/
def exception : Bool := i.exValid && s.state != .idle

/-- The state after a new request. -/
def takeRequest : StoreState :=
  if !s.stReady i then .waitStoreReady else if !i.dtlbHit then .waitTranslation else .validStore

/-- A request is looked at; an atomic is not taken right after a store. -/
def request : Bool :=
  match s.state with
  | .idle => i.valid
  | .validStore => i.valid && !i.lsuCtrl.op.isAmo
  | _ => false

def stateD : StoreState :=
  if i.flush || s.exception i then .idle else
    match s.state with
    | .idle | .validStore => if s.request i then s.takeRequest i else .idle
    | .waitStoreReady => if s.stReady i && i.dtlbHit then .idle else .waitStoreReady
    | .waitTranslation => if i.dtlbHit then .idle else .waitTranslation

/-- `pop_st_o` -/
def popSt : Bool := s.exception i || (s.request i && s.stReady i && i.dtlbHit)

/-- `translation_req_o` -/
def translationReq : Bool := s.request i || s.state == .waitStoreReady || s.state == .waitTranslation

/-- `valid_o` -/
def validO : Bool := s.state == .validStore || s.exception i

/-- `st_valid` -/
def stValid : Bool := s.state == .validStore && !i.flush && !s.exception i

/-- `st_valid_without_flush` -/
def stValidWithoutFlush : Bool := s.state == .validStore

def storeBufferIn : StoreBufferIn where
  flush := i.flush
  pageIndex := i.pageIndex
  pageOffset := i.pageOffset
  commit := i.commit
  valid := s.stValid i && s.amoOp == .none
  validWithoutFlush := s.stValidWithoutFlush
  store := ⟨paddr, s.stData, s.stBe, s.stDataSize⟩
  dataGnt := i.dataGnt

/-- `amo_buffer_valid` -/
def amoBufferValid : Bool := s.stValid i && s.amoOp != .none

def step : StoreUnit ws wc where
  state := s.stateD i
  stData := i.lsuCtrl.stData
  stBe := i.lsuCtrl.be
  stDataSize := i.lsuCtrl.op.extractTransferSize
  amoOp := i.lsuCtrl.op.amoOpD
  transId := i.lsuCtrl.transId
  storeBuffer := s.storeBuffer.step (s.storeBufferIn i paddr)

end StoreUnit

/-- The store unit with the register of the MMU. -/
structure StorePath (ws wc : ℕ) where
  unit : StoreUnit ws wc
  paddr : PAddr

/-- `translation` is what the MMU finds for the address of this cycle and shows in the next. -/
structure StorePathIn extends StoreUnitIn where
  translation : PAddr

/-- The store of a request. -/
def StorePathIn.store (i : StorePathIn) : Store :=
  ⟨i.translation, i.lsuCtrl.stData, i.lsuCtrl.be, i.lsuCtrl.op.extractTransferSize⟩

namespace StorePath
variable {ws wc : ℕ} {s : StorePath ws wc} {i : StorePathIn}

def reset : StorePath ws wc := ⟨.reset, ⟨0, 0, 0⟩⟩

def step (s : StorePath ws wc) (i : StorePathIn) : StorePath ws wc :=
  ⟨s.unit.step i.toStoreUnitIn s.paddr, i.translation⟩

def lists (s : StorePath ws wc) : StoreLists := s.unit.storeBuffer.lists

/-- The commit stage commits only when the commit queue has room, a speculative store is there and
nothing is flushed. -/
def Ok (s : StorePath ws wc) (i : StorePathIn) : Prop :=
  i.commit = true → s.unit.storeBuffer.commitReady = true ∧ s.lists.speculative ≠ [] ∧ i.flush = false

/-- The request that reaches `VALID_STORE` in the next cycle; the flag tells an atomic. -/
def accept (s : StorePath ws wc) (i : StorePathIn) : Option (Store × Bool) :=
  if s.unit.stateD i.toStoreUnitIn = .validStore then some (i.store, i.lsuCtrl.op.isAmo) else none

/-- The store path with an observer of the accepted requests. -/
def observed (ws wc : ℕ) : Machine (StorePath ws wc × Option (Store × Bool)) StorePathIn :=
  (⟨fun s => s = reset, step⟩ : Machine (StorePath ws wc) StorePathIn).observe none fun _ => accept

/-- What an accepted request adds to the speculative list in the cycle after. -/
def appended (g : Option (Store × Bool)) (i : StorePathIn) : Option Store :=
  g.bind fun x => if x.2 || i.flush || i.exValid then none else some x.1

/-! ### Invariants -/

/-- The registers hold the accepted request, and there is room for it. -/
structure Inv (s : StorePath ws wc) (g : Option (Store × Bool)) : Prop where
  buffer : s.unit.storeBuffer.Inv
  accepted : s.unit.state = .validStore ↔ g.isSome = true
  own : ∀ x ∈ g, x.1 = ⟨s.paddr, s.unit.stData, s.unit.stBe, s.unit.stDataSize⟩ ∧
    (x.2 = true ↔ s.unit.amoOp ≠ .none)
  room : s.unit.state = .validStore → s.unit.storeBuffer.speculativeStatusCnt.toNat < 2 ^ ws

theorem isAmo_iff (op : LsuOp) : op.isAmo = true ↔ op.amoOpD ≠ .none := by
  cases op with
  | load op => exact iff_of_false Bool.false_ne_true fun h => h rfl
  | store op => cases op <;> decide

/-- A request is accepted when it hits and there is room. -/
theorem stateD_eq_validStore (u : StoreUnit ws wc) (i : StoreUnitIn) : u.stateD i = .validStore ↔
    i.flush = false ∧ u.exception i = false ∧ u.request i = true ∧ u.stReady i = true ∧ i.dtlbHit = true := by
  have htake : u.takeRequest i = .validStore ↔ u.stReady i = true ∧ i.dtlbHit = true := by
    unfold StoreUnit.takeRequest
    cases u.stReady i <;> cases i.dtlbHit <;> decide
  unfold StoreUnit.stateD
  cases hf : i.flush <;> cases he : u.exception i
  case false.false =>
    cases hs : u.state
    case idle | validStore =>
      simp only [Bool.or_false, Bool.false_eq_true, if_false, true_and]
      cases hr : u.request i
      · simp
      · simp [htake]
    case waitTranslation | waitStoreReady =>
      have hr : u.request i = false := by simp [StoreUnit.request, hs]
      simp only [hr, Bool.or_false, Bool.false_eq_true, if_false, false_and, and_false, iff_false]
      split_ifs <;> decide
  all_goals simp

/-- The buffer gets what it promises to take. -/
theorem buffer_ok {g : Option (Store × Bool)} (h : s.Inv g) (hok : s.Ok i) :
    s.unit.storeBuffer.Ok (s.unit.storeBufferIn i.toStoreUnitIn s.paddr) where
  commit := hok
  push hv := by
    simp only [StoreUnit.storeBufferIn, StoreUnit.stValid, Bool.and_eq_true, beq_iff_eq] at hv
    exact h.room hv.1.1.1

theorem Inv.reset : (reset : StorePath ws wc).Inv none where
  buffer := .reset
  accepted := by simp [StorePath.reset, StoreUnit.reset]
  own x hx := absurd hx (by simp)
  room hs := absurd hs (by simp [StorePath.reset, StoreUnit.reset])

/-- The pushed store comes a cycle after the room for it was seen. -/
theorem room_step {g : Option (Store × Bool)} (h : s.Inv g) (hok : s.Ok i)
    (hs : (s.step i).unit.state = .validStore) :
    (s.step i).unit.storeBuffer.speculativeStatusCnt.toNat < 2 ^ ws := by
  obtain ⟨hf, -, -, hready, -⟩ := (stateD_eq_validStore _ _).mp hs
  have hbok := buffer_ok h hok
  have hcnt := StoreBuffer.speculativeStatusCnt_step h.buffer hbok hf
  have hle := h.buffer.speculative.le
  change (s.unit.storeBuffer.step (s.unit.storeBufferIn i.toStoreUnitIn s.paddr)).speculativeStatusCnt.toNat < _
  rw [hcnt]
  change _ + _ - i.commit.toNat < _
  have hpush : s.unit.storeBuffer.speculativeStatusCnt.toNat +
      (s.unit.storeBufferIn i.toStoreUnitIn s.paddr).valid.toNat ≤ 2 ^ ws := by
    cases hv : (s.unit.storeBufferIn i.toStoreUnitIn s.paddr).valid
    · exact hle
    · exact hbok.push hv
  have hone : (s.unit.storeBufferIn i.toStoreUnitIn s.paddr).valid.toNat ≤ 1 := Bool.toNat_le _
  simp only [StoreUnit.stReady, StoreBuffer.ready, Bool.and_eq_true, Bool.or_eq_true, decide_eq_true_eq] at hready
  rcases hready.1 with hlt | hc
  · omega
  · have hne := StoreBuffer.lists_speculative_ne.mp (hok hc).2.1
    rw [hc, Bool.toNat_true]
    omega

theorem Inv.step {g : Option (Store × Bool)} (h : s.Inv g) (hok : s.Ok i) : (s.step i).Inv (s.accept i) where
  buffer := h.buffer.step (buffer_ok h hok)
  accepted := by
    change s.unit.stateD i.toStoreUnitIn = .validStore ↔ _
    unfold accept
    split_ifs with hs <;> simp [hs]
  own x hx := by
    unfold accept at hx
    split_ifs at hx with hs
    · rw [Option.mem_some_iff] at hx
      subst hx
      exact ⟨rfl, isAmo_iff _⟩
    · exact absurd hx (by simp)
  room := room_step h hok

/-- Only an accepted store that is not killed is pushed. -/
theorem pushOf_eq {g : Option (Store × Bool)} (h : s.Inv g) :
    StoreBuffer.pushOf (s.unit.storeBufferIn i.toStoreUnitIn s.paddr) = appended g i := by
  cases g with
  | none =>
    have hs : s.unit.state ≠ .validStore := h.accepted.not.mpr (by simp)
    simp [StoreBuffer.pushOf, StoreUnit.storeBufferIn, StoreUnit.stValid, hs, appended]
  | some x =>
    have hs : s.unit.state = .validStore := h.accepted.mpr rfl
    obtain ⟨hown, hamo⟩ := h.own x rfl
    have hnone : (s.unit.amoOp == .none) = !x.2 := by
      cases hx : x.2
      · simpa [hx] using hamo
      · simpa [hx] using hamo
    simp only [StoreBuffer.pushOf, StoreUnit.storeBufferIn, StoreUnit.stValid, StoreUnit.exception, hs, hnone,
      appended, Option.bind_some, hown]
    cases x.2 <;> cases i.flush <;> cases i.exValid <;> rfl

/-- What every cycle of the store path does. -/
structure TwoFifos (s : StorePath ws wc) (g : Option (Store × Bool)) (i : StorePathIn) : Prop where
  /-- a push never meets a full queue -/
  room : (s.unit.storeBufferIn i.toStoreUnitIn s.paddr).valid = true → s.lists.speculative.length < 2 ^ ws
  lists : (s.step i).lists = s.lists.next (appended g i) i.commit i.flush (i.dataGnt && !s.lists.committed.isEmpty)
  /-- an accepted request is taken from the queue of requests -/
  popped : (s.accept i).isSome = true → s.unit.popSt i.toStoreUnitIn = true
  offered : s.unit.storeBuffer.dataReq = !s.lists.committed.isEmpty
  payload : ∀ x ∈ s.lists.committed.head?,
    s.unit.storeBuffer.reqPort.addressTag = x.address.tag ∧ s.unit.storeBuffer.reqPort.addressIndex = x.address.index ∧
      s.unit.storeBuffer.reqPort.addressOffset = x.address.offset ∧ s.unit.storeBuffer.reqPort.dataWdata = x.data ∧
        s.unit.storeBuffer.reqPort.dataBe = x.be ∧ s.unit.storeBuffer.reqPort.dataSize = x.dataSize

theorem twoFifos {g : Option (Store × Bool)} (h : s.Inv g) (hok : s.Ok i) : s.TwoFifos g i := by
  obtain ⟨hreq, hpay⟩ := StoreBuffer.reqPort_head h.buffer
  refine ⟨fun hv => ?_, ?_, fun ha => ?_, hreq, hpay⟩
  · have hlt := (buffer_ok h hok).push hv
    simpa [StorePath.lists, StoreBuffer.lists] using hlt
  · have hstep := StoreBuffer.lists_step h.buffer (buffer_ok h hok)
    rw [pushOf_eq h] at hstep
    have hg : s.unit.storeBuffer.granted (s.unit.storeBufferIn i.toStoreUnitIn s.paddr) =
        (i.dataGnt && !s.lists.committed.isEmpty) := by
      rw [StoreBuffer.granted, hreq, Bool.and_comm]
      rfl
    rw [hg] at hstep
    exact hstep
  · unfold accept at ha
    split_ifs at ha with hs
    · obtain ⟨-, -, hr, hready, hhit⟩ := (stateD_eq_validStore _ _).mp hs
      simp [StoreUnit.popSt, hr, hready, hhit]
    · exact absurd ha (by simp)

instance (s : StorePath ws wc) (i : StorePathIn) : Decidable (s.Ok i) :=
  decidable_of_iff (i.commit = false ∨
    (s.unit.storeBuffer.commitReady = true ∧ s.lists.speculative.isEmpty = false ∧ i.flush = false)) (by
      cases hc : i.commit <;> simp [Ok, hc])

/-- A cycle with a double-word store to line `index`, if `valid`, that hits the TLB. -/
def storeCycle (valid : Bool) (index : Index) (commit gnt : Bool) : StorePathIn where
  flush := false
  valid := valid
  lsuCtrl := ⟨valid, ⟨0, index, 0⟩, fun _ => 1, fun _ => true, .store .sd, 0⟩
  commit := commit
  exValid := false
  dtlbHit := true
  pageIndex := 0
  pageOffset := 0
  amoBufferReady := true
  dataGnt := gnt
  translation := ⟨7, index, 0⟩

/-- Two stores; the first is committed while the second is pushed. -/
def twoStores : List StorePathIn :=
  [storeCycle true 1 false false, storeCycle true 2 false false, storeCycle false 0 true false]

def afterTwo : StorePath 2 3 × Option (Store × Bool) := (observed 2 3).run (reset, none) twoStores

end StorePath
end Culsans.Core
