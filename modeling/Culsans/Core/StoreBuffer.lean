import Culsans.Library.CircularSlots
import Culsans.Dcache.Package

/-! # The store buffer

The speculative queue takes the stores of the store unit, the commit queue those the
commit stage has committed, and the oldest of these is offered to the data cache.
`DEPTH_SPEC` is `2 ^ ws` and `DEPTH_COMMIT` is `2 ^ wc`.
-/

namespace Culsans.Core
open Dcache Library

/-- A store that waits for the data cache. -/
structure Store where
  address : PAddr
  data : Word
  be : WordBe
  dataSize : BitVec 2

/-- An entry of the two queues. -/
structure StEntry extends Store where
  valid : Bool

def StEntry.zero : StEntry := ⟨⟨⟨0, 0, 0⟩, fun _ => 0, fun _ => false, 0⟩, false⟩

/-- Bits 11:3 of the addresses agree. -/
def samePageOffset (index : Index) (offset : Offset) (a : PAddr) : Bool :=
  index == a.index && offset.getLsbD 3 == a.offset.getLsbD 3

structure StoreBuffer (ws wc : ℕ) where
  speculativeQueue : BitVec ws → StEntry
  speculativeStatusCnt : BitVec (ws + 1)
  speculativeReadPointer : BitVec ws
  speculativeWritePointer : BitVec ws
  commitQueue : BitVec wc → StEntry
  commitStatusCnt : BitVec (wc + 1)
  commitReadPointer : BitVec wc
  commitWritePointer : BitVec wc

structure StoreBufferIn where
  flush : Bool
  /-- bits 11:4 and 3:0 of `page_offset_i` -/
  pageIndex : Index
  pageOffset : Offset
  commit : Bool
  valid : Bool
  validWithoutFlush : Bool
  /-- `paddr_i`, `data_i`, `be_i` and `data_size_i` -/
  store : Store
  dataGnt : Bool

namespace StoreBuffer
variable {ws wc : ℕ} (s : StoreBuffer ws wc) (i : StoreBufferIn)

def reset : StoreBuffer ws wc where
  speculativeQueue _ := .zero
  speculativeStatusCnt := 0
  speculativeReadPointer := 0
  speculativeWritePointer := 0
  commitQueue _ := .zero
  commitStatusCnt := 0
  commitReadPointer := 0
  commitWritePointer := 0

/-- `ready_o` -/
def ready (commit : Bool) : Bool := decide (s.speculativeStatusCnt.toNat < 2 ^ ws - 1) || commit

/-- `commit_ready_o` -/
def commitReady : Bool := decide (s.commitStatusCnt.toNat < 2 ^ wc)

/-- `no_st_pending_o` -/
def noStPending : Bool := s.commitStatusCnt == 0

/-- `store_buffer_empty_o` -/
def storeBufferEmpty : Bool := s.speculativeStatusCnt == 0 && s.noStPending

/-! ### `core_if` -/

def spPushed : BitVec ws → StEntry :=
  if i.valid then Function.update s.speculativeQueue s.speculativeWritePointer ⟨i.store, true⟩ else s.speculativeQueue

def spEvicted : BitVec ws → StEntry :=
  if i.commit then
    Function.update (s.spPushed i) s.speculativeReadPointer
      { s.spPushed i s.speculativeReadPointer with valid := false }
  else s.spPushed i

def speculativeQueueN : BitVec ws → StEntry :=
  if i.flush then fun j => { s.spEvicted i j with valid := false } else s.spEvicted i

def speculativeStatusCntN : BitVec (ws + 1) :=
  if i.flush then 0 else
    s.speculativeStatusCnt + (BitVec.ofBool i.valid).setWidth (ws + 1) - (BitVec.ofBool i.commit).setWidth (ws + 1)

def speculativeReadPointerN : BitVec ws := s.speculativeReadPointer + (BitVec.ofBool i.commit).setWidth ws

def speculativeWritePointerN : BitVec ws :=
  if i.flush then s.speculativeReadPointer else s.speculativeWritePointer + (BitVec.ofBool i.valid).setWidth ws

/-! ### `store_if` -/

/-- `data_req` -/
def dataReq : Bool := (s.commitQueue s.commitReadPointer).valid

/-- The head of the commit queue is granted. -/
def granted : Bool := s.dataReq && i.dataGnt

/-- `req_port_o` -/
def reqPort : DcacheReqI :=
  let e := s.commitQueue s.commitReadPointer
  { addressIndex := e.address.index
    addressOffset := e.address.offset
    addressTag := e.address.tag
    dataWdata := e.data
    dataReq := s.dataReq
    dataWe := true
    dataBe := e.be
    dataSize := e.dataSize
    killReq := false
    tagValid := false }

def cmEvicted : BitVec wc → StEntry :=
  if s.granted i then
    Function.update s.commitQueue s.commitReadPointer { s.commitQueue s.commitReadPointer with valid := false }
  else s.commitQueue

def commitQueueN : BitVec wc → StEntry :=
  if i.commit then
    Function.update (s.cmEvicted i) s.commitWritePointer (s.speculativeQueue s.speculativeReadPointer)
  else s.cmEvicted i

def step : StoreBuffer ws wc where
  speculativeQueue := s.speculativeQueueN i
  speculativeStatusCnt := s.speculativeStatusCntN i
  speculativeReadPointer := s.speculativeReadPointerN i
  speculativeWritePointer := s.speculativeWritePointerN i
  commitQueue := s.commitQueueN i
  commitStatusCnt := s.commitStatusCnt - (BitVec.ofBool (s.granted i)).setWidth (wc + 1)
    + (BitVec.ofBool i.commit).setWidth (wc + 1)
  commitReadPointer := s.commitReadPointer + (BitVec.ofBool (s.granted i)).setWidth wc
  commitWritePointer := s.commitWritePointer + (BitVec.ofBool i.commit).setWidth wc

/-- `page_offset_matches_o` -/
def pageOffsetMatches : Bool :=
  (List.finRange (2 ^ wc)).any (fun j => (s.commitQueue (BitVec.ofFin j)).valid &&
      samePageOffset i.pageIndex i.pageOffset (s.commitQueue (BitVec.ofFin j)).address) ||
    (List.finRange (2 ^ ws)).any (fun j => (s.speculativeQueue (BitVec.ofFin j)).valid &&
      samePageOffset i.pageIndex i.pageOffset (s.speculativeQueue (BitVec.ofFin j)).address) ||
    (i.validWithoutFlush && samePageOffset i.pageIndex i.pageOffset i.store.address)

end StoreBuffer

/-! ## The two lists -/

/-- The stores that a flush takes, and those that will be written, oldest first. -/
@[ext]
structure StoreLists where
  speculative : List Store
  committed : List Store

/-- A store comes in, the oldest speculative one is committed, the oldest committed one is taken by
the data cache, or a flush takes the speculative ones. -/
def StoreLists.next (l : StoreLists) (push : Option Store) (commit flush gnt : Bool) : StoreLists where
  speculative := if flush then [] else (if commit then l.speculative.tail else l.speculative) ++ push.toList
  committed := (if gnt then l.committed.tail else l.committed) ++
    if commit then l.speculative.head?.toList else []

/-- Every store in the lists came in. -/
theorem StoreLists.mem_next {l : StoreLists} {push : Option Store} {commit flush gnt : Bool} {x : Store}
    (h : x ∈ (l.next push commit flush gnt).speculative ∨ x ∈ (l.next push commit flush gnt).committed) :
    x ∈ l.speculative ∨ x ∈ l.committed ∨ push = some x := by
  rcases h with h | h
  · simp only [next] at h
    split_ifs at h
    · exact absurd h List.not_mem_nil
    · rw [List.mem_append, Option.mem_toList] at h
      exact h.imp List.mem_of_mem_tail .inr
    · rw [List.mem_append, Option.mem_toList] at h
      exact h.imp_right .inr
  · simp only [next, List.mem_append] at h
    rcases h with h | h
    · split_ifs at h
      · exact .inr (.inl (List.mem_of_mem_tail h))
      · exact .inr (.inl h)
    · split_ifs at h
      · rw [Option.mem_toList] at h
        exact .inl (List.mem_of_mem_head? h)
      · exact absurd h List.not_mem_nil

namespace StoreBuffer
variable {ws wc : ℕ} {s : StoreBuffer ws wc} {i : StoreBufferIn}

def lists (s : StoreBuffer ws wc) : StoreLists where
  speculative := contents StEntry.toStore s.speculativeQueue s.speculativeReadPointer s.speculativeStatusCnt.toNat
  committed := contents StEntry.toStore s.commitQueue s.commitReadPointer s.commitStatusCnt.toNat

/-- The counters, the pointers and the valid bits agree. -/
structure Inv (s : StoreBuffer ws wc) : Prop where
  speculative : InUse StEntry.valid s.speculativeQueue s.speculativeReadPointer s.speculativeWritePointer
    s.speculativeStatusCnt.toNat
  committed : InUse StEntry.valid s.commitQueue s.commitReadPointer s.commitWritePointer s.commitStatusCnt.toNat

/-- The promises of the commit stage, and no push into a full queue. -/
structure Ok (s : StoreBuffer ws wc) (i : StoreBufferIn) : Prop where
  commit : i.commit = true → s.commitReady = true ∧ s.lists.speculative ≠ [] ∧ i.flush = false
  push : i.valid = true → s.speculativeStatusCnt.toNat < 2 ^ ws

theorem Inv.reset : (reset : StoreBuffer ws wc).Inv := ⟨.clear 0 fun _ => rfl, .clear 0 fun _ => rfl⟩

/-! ### One cycle -/

/-- What comes into the speculative queue. -/
def pushOf (i : StoreBufferIn) : Option Store := if i.valid then some i.store else none

theorem lists_speculative_ne : s.lists.speculative ≠ [] ↔ s.speculativeStatusCnt.toNat ≠ 0 := by
  rw [← List.length_pos_iff_ne_nil, Nat.pos_iff_ne_zero]
  simp [lists]

theorem speculativeStatusCnt_step (h : s.Inv) (hok : s.Ok i) (hf : i.flush = false) :
    (s.step i).speculativeStatusCnt.toNat = s.speculativeStatusCnt.toNat + i.valid.toNat - i.commit.toNat := by
  have hle := h.speculative.le
  have hpow : 2 ^ (ws + 1) = 2 * 2 ^ ws := by rw [Nat.pow_succ, Nat.mul_comm]
  have hpos := Nat.two_pow_pos ws
  have hv : s.speculativeStatusCnt.toNat + i.valid.toNat ≤ 2 ^ ws := by
    cases hv : i.valid
    · exact hle
    · exact hok.push hv
  have hc : i.commit.toNat ≤ s.speculativeStatusCnt.toNat + i.valid.toNat := by
    cases hc : i.commit
    · exact Nat.zero_le _
    · have hne := lists_speculative_ne.mp (hok.commit hc).2.1
      rw [Bool.toNat_true]
      omega
  have hadd : (s.speculativeStatusCnt + BitVec.ofNat (ws + 1) i.valid.toNat).toNat =
      s.speculativeStatusCnt.toNat + i.valid.toNat := toNat_add_flag (by omega)
  simp only [step, speculativeStatusCntN, hf, Bool.false_eq_true, if_false, setWidth_ofBool]
  rw [toNat_sub_flag (by rw [hadd]; exact hc), hadd]

theorem commitStatusCnt_step (h : s.Inv) (hok : s.Ok i) :
    (s.step i).commitStatusCnt.toNat = s.commitStatusCnt.toNat - (s.granted i).toNat + i.commit.toNat ∧
      (s.granted i = true → s.commitStatusCnt.toNat ≠ 0) ∧ (i.commit = true → s.commitStatusCnt.toNat < 2 ^ wc) := by
  have hle := h.committed.le
  have hpow : 2 ^ (wc + 1) = 2 * 2 ^ wc := by rw [Nat.pow_succ, Nat.mul_comm]
  have hpos := Nat.two_pow_pos wc
  have hg (hg : s.granted i = true) : s.commitStatusCnt.toNat ≠ 0 := by
    rw [granted, Bool.and_eq_true] at hg
    exact h.committed.valid_rd.mp hg.1
  have hc (hc : i.commit = true) : s.commitStatusCnt.toNat < 2 ^ wc := by
    have hready := (hok.commit hc).1
    rwa [commitReady, decide_eq_true_eq] at hready
  refine ⟨?_, hg, hc⟩
  have hsub : (s.commitStatusCnt - BitVec.ofNat (wc + 1) (s.granted i).toNat).toNat =
      s.commitStatusCnt.toNat - (s.granted i).toNat := by
    apply toNat_sub_flag
    cases hgr : s.granted i
    · exact Nat.zero_le _
    · exact Nat.one_le_iff_ne_zero.mpr (hg hgr)
  have hroom : s.commitStatusCnt.toNat - (s.granted i).toNat + i.commit.toNat ≤ 2 ^ wc := by
    cases hcm : i.commit
    · exact (Nat.sub_le _ _).trans hle
    · have hlt := hc hcm
      rw [Bool.toNat_true]
      omega
  simp only [step, setWidth_ofBool]
  rw [toNat_add_flag (by omega), hsub]

theorem Inv.step (h : s.Inv) (hok : s.Ok i) : (s.step i).Inv := by
  constructor
  · cases hf : i.flush
    · rw [speculativeStatusCnt_step h hok hf]
      have hc (hc : i.commit = true) : s.speculativeStatusCnt.toNat + i.valid.toNat ≠ 0 := by
        have hne := lists_speculative_ne.mp (hok.commit hc).2.1
        omega
      have hpush := h.speculative.pushIf (x := ⟨i.store, true⟩) hok.push rfl
      have hpop := hpush.popIf (x := { s.spPushed i s.speculativeReadPointer with valid := false }) hc rfl
      simpa only [StoreBuffer.step, speculativeQueueN, speculativeReadPointerN, speculativeWritePointerN, hf,
        Bool.false_eq_true, if_false, setWidth_ofBool, spEvicted, spPushed] using hpop
    · have hc : i.commit = false := by
        by_contra hc
        exact absurd ((hok.commit (by simpa using hc)).2.2.symm.trans hf) (by decide)
      simp only [StoreBuffer.step, speculativeQueueN, speculativeReadPointerN, speculativeWritePointerN,
        speculativeStatusCntN, hf, hc, if_true]
      have hclear : InUse StEntry.valid (fun j => { s.spEvicted i j with valid := false })
          s.speculativeReadPointer s.speculativeReadPointer 0 :=
        InUse.clear _ fun _ => rfl
      simpa using hclear
  · obtain ⟨hcnt, hg, hc⟩ := commitStatusCnt_step h hok
    rw [hcnt]
    have hpop := h.committed.popIf (x := { s.commitQueue s.commitReadPointer with valid := false }) hg rfl
    have hlt (hcm : i.commit = true) : s.commitStatusCnt.toNat - (s.granted i).toNat < 2 ^ wc := by
      have hlt := hc hcm
      omega
    have hvalid : (s.speculativeQueue s.speculativeReadPointer).valid = true ∨ i.commit = false := by
      cases hcm : i.commit
      · exact .inr rfl
      · exact .inl (h.speculative.valid_rd.mpr (lists_speculative_ne.mp (hok.commit hcm).2.1))
    rcases hvalid with hv | hcm
    · have hpush := hpop.pushIf hlt hv
      simpa only [StoreBuffer.step, commitQueueN, setWidth_ofBool, cmEvicted] using hpush
    · simpa only [StoreBuffer.step, commitQueueN, setWidth_ofBool, cmEvicted, hcm, Bool.false_eq_true, if_false,
        Bool.toNat_false, BitVec.add_zero, Nat.add_zero] using hpop

theorem speculative_step (h : s.Inv) (hok : s.Ok i) :
    (s.step i).lists.speculative = (s.lists.next (pushOf i) i.commit i.flush (s.granted i)).speculative := by
  cases hf : i.flush
  · have hne (hc : i.commit = true) : s.lists.speculative ≠ [] := (hok.commit hc).2.1
    have hc (hc : i.commit = true) : s.speculativeStatusCnt.toNat + i.valid.toNat ≠ 0 := by
      have := lists_speculative_ne.mp (hne hc)
      omega
    have hpush := h.speculative.pushIf (x := ⟨i.store, true⟩) hok.push rfl
    have hlist := contents_pushIf h.speculative hok.push StEntry.toStore ⟨i.store, true⟩
    have hpop := contents_popIf hpush hc StEntry.toStore { s.spPushed i s.speculativeReadPointer with valid := false }
    have hstep : (s.step i).lists.speculative = if i.commit then (s.lists.speculative ++ (pushOf i).toList).tail
        else s.lists.speculative ++ (pushOf i).toList := by
      have htolist : (pushOf i).toList = if i.valid then [i.store] else [] := by
        unfold pushOf
        cases i.valid <;> rfl
      simp only [htolist, lists, speculativeStatusCnt_step h hok hf]
      rw [← hlist]
      simpa only [StoreBuffer.step, speculativeQueueN, speculativeReadPointerN, hf, Bool.false_eq_true, if_false,
        setWidth_ofBool, spEvicted, spPushed] using hpop
    rw [hstep, StoreLists.next]
    cases hcm : i.commit
    · rfl
    · exact List.tail_append_of_ne_nil (hne hcm)
  · simp [lists, StoreBuffer.step, speculativeStatusCntN, hf, StoreLists.next, contents]

theorem committed_step (h : s.Inv) (hok : s.Ok i) :
    (s.step i).lists.committed = (s.lists.next (pushOf i) i.commit i.flush (s.granted i)).committed := by
  obtain ⟨hcnt, hg, hc⟩ := commitStatusCnt_step h hok
  have hpop := h.committed.popIf (x := { s.commitQueue s.commitReadPointer with valid := false }) hg rfl
  have hlist := contents_popIf h.committed hg StEntry.toStore
    { s.commitQueue s.commitReadPointer with valid := false }
  have hhead (hcm : i.commit = true) :
      s.lists.speculative.head? = some (s.speculativeQueue s.speculativeReadPointer).toStore := by
    have hne := lists_speculative_ne.mp (hok.commit hcm).2.1
    obtain ⟨k, hk⟩ := Nat.exists_eq_succ_of_ne_zero hne
    rw [lists, hk, contents, Nat.succ_eq_add_one, slots_succ_left]
    rfl
  have hstep : (s.step i).lists.committed = contents StEntry.toStore (s.commitQueueN i)
      (s.commitReadPointer + BitVec.ofNat wc (s.granted i).toNat)
      (s.commitStatusCnt.toNat - (s.granted i).toNat + i.commit.toNat) := by
    simp only [lists, hcnt]
    simp only [StoreBuffer.step, setWidth_ofBool]
  rw [hstep]
  simp only [StoreLists.next, commitQueueN, cmEvicted]
  cases hcm : i.commit
  · simpa only [lists, Bool.toNat_false, Nat.add_zero, Bool.false_eq_true, if_false, List.append_nil] using hlist
  · have hlt : s.commitStatusCnt.toNat - (s.granted i).toNat < 2 ^ wc := by
      have hlt := hc hcm
      omega
    have hpush := contents_push hpop hlt StEntry.toStore (s.speculativeQueue s.speculativeReadPointer)
    rw [hlist] at hpush
    simp only [if_true, hhead hcm, Option.toList_some, Bool.toNat_true]
    exact hpush

/-- The buffer is the two lists. -/
theorem lists_step (h : s.Inv) (hok : s.Ok i) :
    (s.step i).lists = s.lists.next (pushOf i) i.commit i.flush (s.granted i) := by
  rw [StoreLists.ext_iff]
  exact ⟨speculative_step h hok, committed_step h hok⟩

/-- The data cache is offered the oldest committed store. -/
theorem reqPort_head (h : s.Inv) : s.dataReq = !s.lists.committed.isEmpty ∧
    ∀ x ∈ s.lists.committed.head?, s.reqPort.addressTag = x.address.tag ∧ s.reqPort.addressIndex = x.address.index ∧
      s.reqPort.addressOffset = x.address.offset ∧ s.reqPort.dataWdata = x.data ∧ s.reqPort.dataBe = x.be ∧
        s.reqPort.dataSize = x.dataSize := by
  have hv := h.committed.valid_rd
  simp only [lists, dataReq]
  cases hn : s.commitStatusCnt.toNat with
  | zero =>
    rw [hn] at hv
    simp only [contents, slots_zero, List.map_nil]
    exact ⟨by simpa using hv, by simp⟩
  | succ n =>
    rw [hn] at hv
    rw [contents, slots_succ_left]
    refine ⟨by simpa using hv, ?_⟩
    intro x hx
    rw [List.map_cons, List.head?_cons, Option.mem_some_iff] at hx
    subst hx
    exact ⟨rfl, rfl, rfl, rfl, rfl, rfl⟩

/-- A loop over all entries of a queue. -/
theorem any_entries {w : ℕ} (p : BitVec w → Bool) :
    (List.finRange (2 ^ w)).any (fun j => p (BitVec.ofFin j)) = true ↔ ∃ j, p j = true := by
  rw [List.any_eq_true]
  constructor
  · rintro ⟨j, -, hj⟩
    exact ⟨_, hj⟩
  · rintro ⟨j, hj⟩
    exact ⟨j.toFin, List.mem_finRange _, hj⟩

/-- The address check sees the stores of both lists and the one that is coming in. -/
theorem pageOffsetMatches_iff (h : s.Inv) : s.pageOffsetMatches i = true ↔
    (∃ x ∈ s.lists.committed, samePageOffset i.pageIndex i.pageOffset x.address = true) ∨
      (∃ x ∈ s.lists.speculative, samePageOffset i.pageIndex i.pageOffset x.address = true) ∨
        (i.validWithoutFlush = true ∧ samePageOffset i.pageIndex i.pageOffset i.store.address = true) := by
  have hcommitted := any_entries fun j => (s.commitQueue j).valid &&
    samePageOffset i.pageIndex i.pageOffset (s.commitQueue j).address
  have hspeculative := any_entries fun j => (s.speculativeQueue j).valid &&
    samePageOffset i.pageIndex i.pageOffset (s.speculativeQueue j).address
  rw [pageOffsetMatches, Bool.or_eq_true, Bool.or_eq_true, hcommitted, hspeculative, or_assoc]
  simp only [Bool.and_eq_true, lists]
  rw [h.committed.exists_contents, h.speculative.exists_contents]

end StoreBuffer
end Culsans.Core
