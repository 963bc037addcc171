import Mathlib.Data.Fin.VecNotation
import Mathlib.Data.List.Chain
import Culsans.Frontend.HalfwordStream
import Culsans.Frontend.InstrQueue
import Culsans.Library.RoundRobin

/-! # The order of the instruction queue

The two queues hold one sequence of instructions, dealt in turn. What is taken of a fetch is
always its beginning, so nothing is left out, and the rest is asked for again.
-/

namespace Culsans.Frontend
open Library Library.RoundRobin

/-! ### Slots of a fetch and their queues -/

theorem getLsbD_bits (f : Fin 2 → Bool) (k : Fin 2) : (bits f).getLsbD k = f k := by
  match k with
  | 0 => cases h0 : f 0 <;> cases h1 : f 1 <;> simp [bits, h0, h1]
  | 1 => cases h0 : f 0 <;> cases h1 : f 1 <;> simp [bits, h0, h1]

theorem getLsbD_rotateLeft : ∀ (v : BitVec 2) (k j : Fin 2),
    (rotateLeft v k).getLsbD (j + k : Fin 2) = v.getLsbD j := by
  decide

theorem getLsbD_rotateRight : ∀ (v : BitVec 2) (k j : Fin 2),
    (rotateRight v k).getLsbD j = v.getLsbD (j + k : Fin 2) := by
  decide

theorem add_self_fin : ∀ k : Fin 2, k + k = 0 := by
  decide

theorem add_add_self (j k : Fin 2) : j + k + k = j := by
  rw [add_assoc, add_self_fin, add_zero]

theorem branchMask_bits : ∀ t : BitVec 2, ((0b011#3 <<< Core.Lzc.trailing t).extractLsb' 1 2).getLsbD 0 = true ∧
    ((0b011#3 <<< Core.Lzc.trailing t).extractLsb' 1 2).getLsbD 1 = !t.getLsbD 0 := by
  decide +kernel

/-- The instruction after one that is taken is not counted. -/
theorem masked_bits (i : QueueIn) : i.masked.getLsbD 0 = i.valid.getLsbD 0 ∧
    i.masked.getLsbD 1 = (i.valid.getLsbD 1 && i.cfType 0 == .noCF) := by
  obtain ⟨h0, h1⟩ := branchMask_bits i.taken
  have ht : i.taken.getLsbD 0 = (i.cfType 0 != .noCF) := getLsbD_bits _ 0
  constructor
  · rw [QueueIn.masked, QueueIn.branchMask, QueueIn.branchIndex, BitVec.getLsbD_and, h0, Bool.and_true]
  · rw [QueueIn.masked, QueueIn.branchMask, QueueIn.branchIndex, BitVec.getLsbD_and, h1, ht, bne, Bool.not_not]

namespace InstrQueue
variable {depth : ℕ} {q : InstrQueue depth} {i : QueueIn}

/-- Slot `j` goes to the queue that is `j` after the position. -/
theorem pushInstr_slot (j : Fin 2) :
    (q.pushInstr i).getLsbD (j + q.idxIs : Fin 2) = (i.masked.getLsbD j && !(q.instrFifo (j + q.idxIs)).full) := by
  rw [pushInstr, BitVec.getLsbD_and, BitVec.getLsbD_not, fifoPos, getLsbD_rotateLeft, instrQueueFull, getLsbD_bits,
    decide_eq_true (Fin.isLt _), Bool.true_and]

theorem consumed_eq (j : Fin 2) :
    (q.consumed i).getLsbD j = ((i.masked.getLsbD j && !(q.instrFifo (j + q.idxIs)).full) && !q.addressOverflow i) := by
  rw [consumed, getLsbD_rotateRight, pushInstrFifo, getLsbD_bits, pushInstr_slot]

theorem pushInstrFifo_eq (k : Fin 2) : (q.pushInstrFifo i).getLsbD k = (q.consumed i).getLsbD (k + q.idxIs :
    Fin 2) := by
  rw [consumed, getLsbD_rotateRight, add_add_self]

theorem pushAddress_iff : q.pushAddress i = true ↔
    ∃ j : Fin 2, (q.pushInstr i).getLsbD (j + q.idxIs : Fin 2) = true ∧ i.cfType j ≠ .noCF := by
  simp only [pushAddress, instrDataIn, Bool.or_eq_true, Bool.and_eq_true, bne_iff_ne, Fin.exists_fin_two]
  match q.idxIs with
  | 0 => rfl
  | 1 => exact or_comm

theorem instrOverflow_iff : q.instrOverflow i = true ↔
    ∃ j : Fin 2, i.masked.getLsbD j = true ∧ (q.instrFifo (j + q.idxIs)).full = true := by
  have hne : ∀ v : BitVec 2, (v != 0) = true ↔ ∃ k : Fin 2, v.getLsbD k = true := by decide
  have hpos (j : Fin 2) : (q.instrQueueFull &&& q.fifoPos i).getLsbD (j + q.idxIs : Fin 2) =
      ((q.instrFifo (j + q.idxIs)).full && i.masked.getLsbD j) := by
    rw [BitVec.getLsbD_and, instrQueueFull, getLsbD_bits, fifoPos, getLsbD_rotateLeft]
  rw [instrOverflow, hne]
  constructor
  · rintro ⟨k, hk⟩
    rw [← add_add_self k q.idxIs, hpos, Bool.and_eq_true] at hk
    exact ⟨k + q.idxIs, hk.2, hk.1⟩
  · rintro ⟨j, hm, hf⟩
    exact ⟨j + q.idxIs, by rw [hpos, hm, hf]; rfl⟩

theorem popcount_rotateRight : ∀ (v : BitVec 2) (k : Fin 2), Fin.ofNat 2 (popcount v).toNat =
    Fin.ofNat 2 (((rotateRight v k).getLsbD 0).toNat + ((rotateRight v k).getLsbD 1).toNat) := by
  decide

/-- As many instructions are pushed as are consumed. -/
theorem shamt_eq : q.shamt i = Fin.ofNat 2 (((q.consumed i).getLsbD 0).toNat + ((q.consumed i).getLsbD 1).toNat) :=
  popcount_rotateRight _ _

/-- What is taken of a fetch is its beginning up to the first that is taken, and a replay asks for
the first instruction that is missing. An address is saved for a taken instruction, no other. -/
structure Takes (q : InstrQueue depth) (i : QueueIn) : Prop where
  valid : ∀ j : Fin 2, (q.consumed i).getLsbD j = true → i.valid.getLsbD j = true
  first : ∀ j k : Fin 2, j < k → (q.consumed i).getLsbD k = true → (q.consumed i).getLsbD j = true ∧ i.cfType j = .noCF
  complete : q.replay i = false → ∀ j : Fin 2, i.valid.getLsbD j = true → (∀ k < j, i.cfType k = .noCF) →
    (q.consumed i).getLsbD j = true
  replay : q.replay i = true → ∃ j : Fin 2, i.valid.getLsbD j = true ∧ (q.consumed i).getLsbD j = false ∧
    (∀ k < j, (q.consumed i).getLsbD k = true) ∧ q.replayAddr i = i.addr j
  address : (q.pushAddress i && !q.addressFifo.full) = true ↔
    ∃ j : Fin 2, (q.consumed i).getLsbD j = true ∧ i.cfType j ≠ .noCF

/-- If the queue of the next instruction is full, both are. -/
def FullTogether (q : InstrQueue depth) : Prop :=
  (q.instrFifo q.idxIs).full = true → ∀ k, (q.instrFifo k).full = true

theorem consumed_zero : (q.consumed i).getLsbD 0 = true ↔
    (i.valid.getLsbD 0 = true ∧ (q.instrFifo q.idxIs).full = false) ∧ q.addressOverflow i = false := by
  have h := consumed_eq (q := q) (i := i) 0
  rw [Fin.val_zero, (masked_bits i).1, zero_add] at h
  rw [h]
  simp only [Bool.and_eq_true, Bool.not_eq_true']

theorem consumed_one : (q.consumed i).getLsbD 1 = true ↔
    ((i.valid.getLsbD 1 = true ∧ i.cfType 0 = .noCF) ∧ (q.instrFifo (1 + q.idxIs)).full = false) ∧
      q.addressOverflow i = false := by
  have h := consumed_eq (q := q) (i := i) 1
  rw [Fin.val_one, (masked_bits i).2] at h
  rw [h]
  simp only [Bool.and_eq_true, Bool.not_eq_true', beq_iff_eq]

theorem instrOverflow_cases (h : q.instrOverflow i = true) :
    (i.valid.getLsbD 0 = true ∧ (q.instrFifo q.idxIs).full = true) ∨
      (i.valid.getLsbD 1 = true ∧ i.cfType 0 = .noCF) ∧ (q.instrFifo (1 + q.idxIs)).full = true := by
  obtain ⟨m0, m1⟩ := masked_bits i
  obtain ⟨j, hm, hf⟩ := instrOverflow_iff.mp h
  match j with
  | 0 =>
    rw [Fin.val_zero, m0] at hm
    rw [zero_add] at hf
    exact .inl ⟨hm, hf⟩
  | 1 =>
    rw [Fin.val_one, m1, Bool.and_eq_true, beq_iff_eq] at hm
    exact .inr ⟨hm, hf⟩

theorem instrOverflow_false (h : q.instrOverflow i = false) :
    (i.valid.getLsbD 0 = true → (q.instrFifo q.idxIs).full = false) ∧
      (i.valid.getLsbD 1 = true → i.cfType 0 = .noCF → (q.instrFifo (1 + q.idxIs)).full = false) := by
  obtain ⟨m0, m1⟩ := masked_bits i
  have hno : ∀ j : Fin 2, i.masked.getLsbD j = true → (q.instrFifo (j + q.idxIs)).full = false := by
    intro j hm
    by_contra hf
    exact Bool.false_ne_true (h.symm.trans (instrOverflow_iff.mpr ⟨j, hm, Bool.eq_true_of_not_eq_false hf⟩))
  constructor
  · intro hv
    have h0 := hno 0 (m0.trans hv)
    rwa [zero_add] at h0
  · intro hv hc
    refine hno 1 (m1.trans ?_)
    rw [hv, hc]
    rfl

theorem consumed_iff (j : Fin 2) : (q.consumed i).getLsbD j = true ↔
    (q.pushInstr i).getLsbD (j + q.idxIs : Fin 2) = true ∧ q.addressOverflow i = false := by
  rw [consumed_eq, pushInstr_slot, Bool.and_eq_true, Bool.not_eq_true']

theorem address_iff : (q.pushAddress i && !q.addressFifo.full) = true ↔
    ∃ j : Fin 2, (q.consumed i).getLsbD j = true ∧ i.cfType j ≠ .noCF := by
  simp only [consumed_iff, Bool.and_eq_true, Bool.not_eq_true']
  constructor
  · rintro ⟨hp, hf⟩
    obtain ⟨j, hj, hc⟩ := pushAddress_iff.mp hp
    exact ⟨j, ⟨hj, by rw [addressOverflow, hf, Bool.false_and]⟩, hc⟩
  · rintro ⟨j, ⟨hj, ho⟩, hc⟩
    have hp := pushAddress_iff.mpr ⟨j, hj, hc⟩
    rw [addressOverflow, hp, Bool.and_true] at ho
    exact ⟨hp, ho⟩

theorem valid_of_pushInstr {j : Fin 2} (h : (q.pushInstr i).getLsbD (j + q.idxIs : Fin 2) = true) :
    i.valid.getLsbD j = true := by
  obtain ⟨m0, m1⟩ := masked_bits i
  rw [pushInstr_slot, Bool.and_eq_true] at h
  match j with
  | 0 => exact m0.symm.trans h.1
  | 1 =>
    have hm := m1.symm.trans h.1
    rw [Bool.and_eq_true] at hm
    exact hm.1

/-- An overflow of the address queue takes nothing, and the replay starts with the fetch. -/
theorem replay_address (hv : i.valid.getLsbD 1 = true → i.valid.getLsbD 0 = true) (ho : q.addressOverflow i = true) :
    i.valid.getLsbD 0 = true ∧ (q.consumed i).getLsbD 0 = false ∧ q.replayAddr i = i.addr 0 := by
  refine ⟨?_, ?_, by rw [replayAddr, if_pos ho]⟩
  · have hp : q.pushAddress i = true := by
      rw [addressOverflow, Bool.and_eq_true] at ho
      exact ho.2
    obtain ⟨j, hj, -⟩ := pushAddress_iff.mp hp
    match j with
    | 0 => exact valid_of_pushInstr hj
    | 1 => exact hv (valid_of_pushInstr hj)
  · rw [Bool.eq_false_iff, ne_eq, consumed_zero, ho]
    simp

theorem takes (hf : q.FullTogether) (hv : i.valid.getLsbD 1 = true → i.valid.getLsbD 0 = true) : q.Takes i where
  valid j hj := valid_of_pushInstr ((consumed_iff j).mp hj).1
  first j k hjk hk := by
    obtain ⟨rfl, rfl⟩ : j = 0 ∧ k = 1 := by omega
    obtain ⟨⟨⟨hv1, hc⟩, hn⟩, ho⟩ := consumed_one.mp hk
    refine ⟨consumed_zero.mpr ⟨⟨hv hv1, ?_⟩, ho⟩, hc⟩
    by_contra hfull
    exact Bool.false_ne_true (hn.symm.trans (hf (Bool.eq_true_of_not_eq_false hfull) _))
  complete hr j hj hc := by
    rw [replay, Bool.or_eq_false_iff] at hr
    obtain ⟨h0, h1⟩ := instrOverflow_false hr.1
    match j with
    | 0 => exact consumed_zero.mpr ⟨⟨hj, h0 hj⟩, hr.2⟩
    | 1 =>
      have hc0 := hc 0 (by decide)
      exact consumed_one.mpr ⟨⟨⟨hj, hc0⟩, h1 hj hc0⟩, hr.2⟩
  replay hr := by
    cases ho : q.addressOverflow i with
    | true =>
      obtain ⟨hv0, hc, ha⟩ := replay_address hv ho
      exact ⟨0, hv0, hc, fun k hk => absurd hk (Fin.not_lt_zero k), ha⟩
    | false =>
      rw [replay, ho, Bool.or_false] at hr
      have ha : q.replayAddr i = i.addr (q.shamt i) := by
        rw [replayAddr, ho]
        rfl
      have hc1 : (q.consumed i).getLsbD 1 = false := by
        rw [Bool.eq_false_iff, ne_eq, consumed_one]
        rintro ⟨⟨-, hn⟩, -⟩
        rcases instrOverflow_cases hr with ⟨-, hfull⟩ | ⟨-, hfull⟩
        · exact Bool.false_ne_true (hn.symm.trans (hf hfull _))
        · exact Bool.false_ne_true (hn.symm.trans hfull)
      cases hc0 : (q.consumed i).getLsbD 0 with
      | false =>
        have hs : q.shamt i = 0 := by
          rw [shamt_eq, hc0, hc1]
          rfl
        refine ⟨0, ?_, hc0, fun k hk => absurd hk (Fin.not_lt_zero k), by rw [ha, hs]⟩
        rcases instrOverflow_cases hr with ⟨hv0, -⟩ | ⟨⟨hv1, -⟩, -⟩
        · exact hv0
        · exact hv hv1
      | true =>
        have hs : q.shamt i = 1 := by
          rw [shamt_eq, hc0, hc1]
          rfl
        refine ⟨1, ?_, hc1, fun k hk => ?_, by rw [ha, hs]⟩
        · rcases instrOverflow_cases hr with ⟨-, hfull⟩ | ⟨⟨hv1, -⟩, -⟩
          · exact absurd (consumed_zero.mp hc0).1.2 (by rw [hfull]; decide)
          · exact hv1
        · obtain rfl : k = 0 := by omega
          exact hc0
  address := address_iff

/-! ### The sequence in the queues -/

end InstrQueue

/-- An instruction that has been taken, with the address that is predicted to follow it. -/
structure Accepted where
  addr : BitVec 64
  data : InstrData
  predict : BitVec 64

/-- What has been taken and what has been put out since the last flush. -/
structure QueueLog where
  accepted : List Accepted
  issued : List FetchEntry

def QueueIn.slot (i : QueueIn) (j : Fin 2) : Accepted :=
  ⟨i.addr j, ⟨i.instr j, i.cfType j, i.exception, i.exceptionAddr, i.exceptionGpaddr, i.exceptionTinst, i.exceptionGva⟩,
    i.predictAddress⟩

namespace InstrQueue
variable {depth : ℕ} {q : InstrQueue depth} {i : QueueIn}

def acceptedNow (q : InstrQueue depth) (i : QueueIn) : List Accepted :=
  (if (q.consumed i).getLsbD 0 then [i.slot 0] else []) ++ if (q.consumed i).getLsbD 1 then [i.slot 1] else []

def issues (q : InstrQueue depth) (i : QueueIn) : Bool := q.fetchEntryValid && i.fetchEntryReady

end InstrQueue

namespace QueueLog
variable {depth : ℕ}

def empty : QueueLog := ⟨[], []⟩

def watch (l : QueueLog) (q : InstrQueue depth) (i : QueueIn) : QueueLog :=
  if i.flush then empty
  else ⟨l.accepted ++ q.acceptedNow i, l.issued ++ if q.issues i then [q.fetchEntry] else []⟩

end QueueLog

/-- The queue with a record of what goes through it. -/
def instrQueue (depth : ℕ) : Machine (InstrQueue depth × QueueLog) QueueIn :=
  Machine.observe ⟨(· = InstrQueue.reset), InstrQueue.step⟩ .empty QueueLog.watch

/-- The instructions of a fetch come in order, and an entry is taken when there is one. -/
structure Packets {depth : ℕ} (x : InstrQueue depth × QueueLog) (i : QueueIn) : Prop where
  valid : i.valid.getLsbD 1 = true → i.valid.getLsbD 0 = true
  ready : i.fetchEntryReady = true → x.1.fetchEntryValid = true

/-- The entry is the instruction, and carries the address predicted for it if it is taken. -/
structure Serves (e : FetchEntry) (a : Accepted) : Prop where
  data : e = a.data.entry e.address e.predictAddress
  predict : a.data.cf ≠ .noCF → e.predictAddress = a.predict

/-- The queue that is next after `m` instructions. -/
def place (m : ℕ) : Fin 2 := Fin.ofNat 2 m

/-- `done` has left the queues, and `rest` is in them. -/
structure Holds {depth : ℕ} (x : InstrQueue depth × QueueLog) (done rest : List Accepted) : Prop where
  accepted : x.2.accepted = done ++ rest
  issued : List.Forall₂ Serves x.2.issued done
  instrInv : ∀ k, (x.1.instrFifo k).Inv
  instr : ∀ k : Fin 2, (x.1.instrFifo (place done.length + k)).toList = (lane 2 rest k).map Accepted.data
  addressInv : x.1.addressFifo.Inv
  address : x.1.addressFifo.toList = (rest.filter (·.data.cf != .noCF)).map Accepted.predict
  idxDs : x.1.idxDs = bits (· == place done.length)
  idxIs : x.1.idxIs = place (done.length + rest.length)
  resetAddress : x.1.resetAddress = x.2.accepted.isEmpty

variable {depth : ℕ} {x : InstrQueue depth × QueueLog} {i : QueueIn} {done rest : List Accepted}

theorem place_add (m n : ℕ) : place (m + n) = place m + place n := by
  rw [place, place, place]
  ext
  simp [Fin.add_def]

theorem val_place (m : ℕ) : (place m : ℕ) = m % 2 := rfl

/-! ### One cycle -/

namespace InstrQueue
variable {q : InstrQueue depth} {d : Fin 2}

theorem getLsbD_idxDs (h : q.idxDs = bits (· == d)) (k : Fin 2) : q.idxDs.getLsbD k = (k == d) := by
  rw [h, getLsbD_bits]

theorem fetchEntry_eq (h : q.idxDs = bits (· == d)) :
    q.fetchEntry = (q.instrFifo d).head.entry q.pc q.addressFifo.head := by
  have h0 := getLsbD_idxDs h 0
  have h1 := getLsbD_idxDs h 1
  rw [Fin.val_zero] at h0
  rw [Fin.val_one] at h1
  rw [fetchEntry, h0, h1]
  match d with
  | 0 => rfl
  | 1 => rfl

theorem popInstr_eq (h : q.idxDs = bits (· == d)) (k : Fin 2) : (q.popInstr i).getLsbD k = (k == d && q.issues i) := by
  rw [popInstr, getLsbD_bits, getLsbD_idxDs h, issues]

theorem popAddress_eq (h : q.idxDs = bits (· == d)) : q.popAddress i = (q.fetchEntry.cf != .noCF && q.issues i) := by
  have hne : ∀ b : Bool, (bits (fun k => k == d && b) != 0) = b := by
    intro b
    match d with
    | 0 => cases b <;> rfl
    | 1 => cases b <;> rfl
  have hp : q.popInstr i = bits fun k => k == d && q.issues i := by
    rw [popInstr]
    congr 1
    funext k
    rw [getLsbD_idxDs h, issues]
  rw [popAddress, hp, hne]

theorem idxDsD_eq (h : q.idxDs = bits (· == d)) :
    q.idxDsD i = bits (· == if i.fetchEntryReady then d + 1 else d) := by
  rw [idxDsD, h]
  cases i.fetchEntryReady with
  | false => rfl
  | true =>
    match d with
    | 0 => rfl
    | 1 => rfl

theorem fetchEntryValid_iff : q.fetchEntryValid = true ↔ ∃ k, (q.instrFifo k).empty = false := by
  rw [fetchEntryValid, instrQueueEmpty, Fin.exists_fin_two]
  cases h0 : (q.instrFifo 0).empty <;> cases h1 : (q.instrFifo 1).empty <;> simp [bits, h0, h1]

end InstrQueue

namespace Holds

/-- The queue that is next to be filled holds no more than the other. -/
theorem fullTogether (h : Holds x done rest) : x.1.FullTogether := by
  intro hf k
  have hlen (j : Fin 2) : (x.1.instrFifo (place done.length + j)).cnt = (lane 2 rest j).length := by
    rw [← Ring.length_toList, h.instr, List.length_map]
  rw [h.idxIs, place_add, Ring.full, beq_iff_eq, hlen, val_place] at hf
  have hk : place done.length + (place done.length + k) = k := by
    rw [← add_assoc, add_self_fin, zero_add]
  have hle := length_next_le (n := 2) rest (place done.length + k).isLt
  have hmax := (h.instrInv k).cnt
  rw [Ring.full, beq_iff_eq]
  rw [← hlen, hk] at hle
  omega

theorem valid_iff (h : Holds x done rest) : x.1.fetchEntryValid = true ↔ rest ≠ [] := by
  rw [InstrQueue.fetchEntryValid_iff]
  constructor
  · rintro ⟨k, hk⟩ rfl
    have hn := h.instr (k - place done.length)
    rw [add_sub_cancel, lane_nil, List.map_nil, Ring.toList_eq_nil] at hn
    exact Bool.false_ne_true (hk.symm.trans hn)
  · intro hne
    refine ⟨place done.length, Bool.eq_false_iff.mpr fun he => hne ?_⟩
    have hn := h.instr 0
    rw [add_zero, Ring.toList_eq_nil.mpr he, eq_comm, List.map_eq_nil_iff] at hn
    have hh := head?_lane_zero (n := 2) rest
    rw [Fin.val_zero] at hn
    rw [hn] at hh
    exact List.head?_eq_none_iff.mp hh.symm

theorem head_instr {a : Accepted} (h : Holds x done (a :: rest)) :
    x.1.fetchEntry = a.data.entry x.1.pc x.1.addressFifo.head := by
  have ht := h.instr 0
  rw [add_zero] at ht
  have hne : (x.1.instrFifo (place done.length)).empty = false := by
    rw [Bool.eq_false_iff]
    intro he
    rw [Ring.toList_eq_nil.mpr he] at ht
    cases ht
  have hh := Ring.head_toList (h.instrInv _) hne
  rw [ht, List.head?_map, Fin.val_zero, head?_lane_zero] at hh
  rw [InstrQueue.fetchEntry_eq h.idxDs, ← Option.some.inj hh]

theorem head_address {a : Accepted} (h : Holds x done (a :: rest)) (hc : a.data.cf ≠ .noCF) :
    x.1.addressFifo.head = a.predict := by
  have ht := h.address
  have hcf : (a.data.cf != .noCF) = true := bne_iff_ne.mpr hc
  simp only [List.filter_cons, hcf, if_true, List.map_cons] at ht
  have hne : x.1.addressFifo.empty = false := by
    rw [Bool.eq_false_iff]
    intro he
    rw [Ring.toList_eq_nil.mpr he] at ht
    cases ht
  have hh := Ring.head_toList h.addressInv hne
  rw [ht] at hh
  exact (Option.some.inj hh).symm

theorem serves {a : Accepted} (h : Holds x done (a :: rest)) : Serves x.1.fetchEntry a := by
  rw [h.head_instr]
  exact ⟨rfl, h.head_address⟩

end Holds

/-- Two more elements go to the two lanes. -/
theorem lane_two {α : Type*} (c : Fin 2 → Bool) (s : Fin 2 → α) (hc : c 1 = true → c 0 = true) (r : List α)
    (k : Fin 2) :
    lane 2 (r ++ ((if c 0 then [s 0] else []) ++ if c 1 then [s 1] else [])) k =
      lane 2 r k ++ if c (k + place r.length) then [s (k + place r.length)] else [] := by
  cases h0 : c 0 with
  | false =>
    have h1 : c 1 = false := Bool.eq_false_iff.mpr fun h => Bool.false_ne_true (h0.symm.trans (hc h))
    have hall : ∀ j, c j = false := Fin.forall_fin_two.mpr ⟨h0, h1⟩
    simp [hall]
  | true =>
    have hlane (l : List α) (a : α) : lane 2 (l ++ [a]) k = lane 2 l k ++ if k = place l.length then [a] else [] := by
      rw [lane_concat l a k.isLt]
      simp only [← val_place, Fin.ext_iff, eq_comm]
    have hplace : place (r.length + 1) = place r.length + 1 := place_add _ _
    cases h1 : c 1 with
    | false =>
      simp only [if_true, Bool.false_eq_true, if_false, List.append_nil, hlane]
      match k, place r.length with
      | 0, 0 => simp [h0]
      | 0, 1 => simp [h1]
      | 1, 0 => simp [h1]
      | 1, 1 => simp [h0]
    | true =>
      simp only [if_true, ← List.append_assoc, hlane, List.length_append, List.length_singleton, hplace]
      match k, place r.length with
      | 0, 0 => simp [h0]
      | 0, 1 => simp [h1]
      | 1, 0 => simp [h1]
      | 1, 1 => simp [h0]

/-- What has left the queues after a cycle. -/
def doneNext (q : InstrQueue depth) (i : QueueIn) (done rest : List Accepted) : List Accepted :=
  if q.issues i then done ++ rest.head?.toList else done

/-- What is left of the queues after a cycle without what has come in. -/
def restNext (q : InstrQueue depth) (i : QueueIn) (rest : List Accepted) : List Accepted :=
  if q.issues i then rest.tail else rest

namespace Holds

theorem exists_head (h : Holds x done rest) (hi : x.1.issues i = true) : ∃ a r, rest = a :: r := by
  rw [InstrQueue.issues, Bool.and_eq_true] at hi
  exact List.exists_cons_of_ne_nil (h.valid_iff.mp hi.1)

theorem next_append (h : Holds x done rest) : doneNext x.1 i done rest ++ restNext x.1 i rest = done ++ rest := by
  rw [doneNext, restNext]
  split_ifs with hi
  · obtain ⟨a, r, rfl⟩ := h.exists_head hi
    simp
  · rfl

theorem place_next (h : Holds x done rest) :
    place (doneNext x.1 i done rest).length = if x.1.issues i then place done.length + 1 else place done.length := by
  rw [doneNext]
  split_ifs with hi
  · obtain ⟨a, r, rfl⟩ := h.exists_head hi
    rw [List.length_append]
    exact place_add _ _
  · rfl

/-- The queues after the entry has been taken. -/
theorem instr_popped (h : Holds x done rest) (k : Fin 2) :
    (if (x.1.popInstr i).getLsbD (place (doneNext x.1 i done rest).length + k : Fin 2) &&
          !(x.1.instrFifo (place (doneNext x.1 i done rest).length + k)).empty then
        (x.1.instrFifo (place (doneNext x.1 i done rest).length + k)).toList.tail
      else (x.1.instrFifo (place (doneNext x.1 i done rest).length + k)).toList) =
      (lane 2 (restNext x.1 i rest) k).map Accepted.data := by
  rw [h.place_next, InstrQueue.popInstr_eq h.idxDs, restNext]
  cases hi : x.1.issues i with
  | false => simpa using h.instr k
  | true =>
    match k with
    | 0 =>
      have hne : (place done.length + 1 + 0 == place done.length) = false := by simp
      simp only [if_true, hne, Bool.false_and, Bool.false_eq_true, if_false]
      rw [add_zero, h.instr, Fin.val_zero, lane_tail]
      rfl
    | 1 =>
      have hk : place done.length + 1 + 1 = place done.length := add_add_self _ _
      have ht := h.instr 0
      rw [add_zero, Fin.val_zero] at ht
      have hne : (x.1.instrFifo (place done.length)).empty = false := by
        obtain ⟨a, r, rfl⟩ := h.exists_head hi
        rw [Bool.eq_false_iff]
        intro he
        rw [Ring.toList_eq_nil.mpr he] at ht
        cases ht
      simp only [if_true, hk, beq_self_eq_true, hne, Bool.not_false, Bool.and_true]
      rw [ht, ← List.map_tail]
      exact congrArg _ (lane_tail_last rest).symm

/-- What comes in goes to the queues that are next. -/
theorem instr_pushed (h : Holds x done rest) (ht : x.1.Takes i) (k : Fin 2) :
    (lane 2 (restNext x.1 i rest) k).map Accepted.data ++
        (if (x.1.pushInstrFifo i).getLsbD (place (doneNext x.1 i done rest).length + k : Fin 2) &&
            !(x.1.instrFifo (place (doneNext x.1 i done rest).length + k)).full then
          [x.1.instrDataIn i (place (doneNext x.1 i done rest).length + k)] else []) =
      (lane 2 (restNext x.1 i rest ++ x.1.acceptedNow i) k).map Accepted.data := by
  have hpos : place (doneNext x.1 i done rest).length + k + x.1.idxIs = k + place (restNext x.1 i rest).length := by
    have hlen : done.length + rest.length = (doneNext x.1 i done rest).length + (restNext x.1 i rest).length := by
      rw [← List.length_append, ← List.length_append, h.next_append]
    rw [h.idxIs, hlen, place_add, add_comm (place _) k, add_assoc, ← add_assoc (place _) (place _), add_self_fin,
      zero_add]
  have hfull : (x.1.consumed i).getLsbD (k + place (restNext x.1 i rest).length : Fin 2) = true →
      (x.1.instrFifo (place (doneNext x.1 i done rest).length + k)).full = false := by
    intro hc
    rw [← hpos, InstrQueue.consumed_eq, add_add_self] at hc
    simp only [Bool.and_eq_true, Bool.not_eq_true'] at hc
    exact hc.1.2
  have hlane : lane 2 (restNext x.1 i rest ++ x.1.acceptedNow i) k = lane 2 (restNext x.1 i rest) k ++
      if (x.1.consumed i).getLsbD (k + place (restNext x.1 i rest).length : Fin 2) then
        [i.slot (k + place (restNext x.1 i rest).length)] else [] :=
    lane_two (fun j => (x.1.consumed i).getLsbD j) i.slot (fun h1 => (ht.first 0 1 (by decide) h1).1) _ k
  rw [hlane, List.map_append, InstrQueue.pushInstrFifo_eq, hpos]
  congr 1
  cases hc : (x.1.consumed i).getLsbD (k + place (restNext x.1 i rest).length : Fin 2) with
  | false => rfl
  | true =>
    rw [hfull hc, ← hpos]
    rfl

/-- The addresses after the entry has been taken. -/
theorem address_popped (h : Holds x done rest) :
    (if x.1.popAddress i && !x.1.addressFifo.empty then x.1.addressFifo.toList.tail else x.1.addressFifo.toList) =
      ((restNext x.1 i rest).filter (·.data.cf != .noCF)).map Accepted.predict := by
  rw [InstrQueue.popAddress_eq h.idxDs, restNext]
  cases hi : x.1.issues i with
  | false => simpa using h.address
  | true =>
    obtain ⟨a, r, rfl⟩ := h.exists_head hi
    have hcf : x.1.fetchEntry.cf = a.data.cf := by
      rw [h.head_instr]
      rfl
    have ht := h.address
    rw [hcf]
    cases hc : a.data.cf != .noCF with
    | false =>
      simp only [List.filter_cons, hc, Bool.false_eq_true, if_false] at ht
      simpa using ht
    | true =>
      simp only [List.filter_cons, hc, if_true, List.map_cons] at ht
      have hne : x.1.addressFifo.empty = false := by
        rw [Bool.eq_false_iff]
        intro he
        rw [Ring.toList_eq_nil.mpr he] at ht
        cases ht
      simp [hne, ht]

end Holds

/-- Of the instructions of a fetch the last that is taken in may be a taken one, no other. -/
theorem acceptedNow_filter {q : InstrQueue depth} (ht : q.Takes i) :
    ((q.acceptedNow i).filter (·.data.cf != .noCF)).map Accepted.predict =
      if q.pushAddress i && !q.addressFifo.full then [i.predictAddress] else [] := by
  have haddr := ht.address
  rw [Fin.exists_fin_two, Fin.val_zero, Fin.val_one] at haddr
  have htaken (j : Fin 2) : ([i.slot j].filter (·.data.cf != .noCF)).map Accepted.predict =
      if i.cfType j = .noCF then [] else [i.predictAddress] := by
    by_cases hc : i.cfType j = .noCF <;> simp [QueueIn.slot, hc]
  rw [InstrQueue.acceptedNow, List.filter_append, List.map_append]
  cases h1 : (q.consumed i).getLsbD 1 with
  | true =>
    obtain ⟨h0, hc0⟩ := ht.first 0 1 (by decide) h1
    rw [Fin.val_zero] at h0
    simp only [h0, h1, hc0, true_and, ne_eq, not_true_eq_false, false_or] at haddr
    rw [h0, if_pos rfl, if_pos rfl, htaken, htaken, if_pos hc0, List.nil_append]
    simp only [haddr, ite_not]
  | false =>
    rw [if_neg Bool.false_ne_true, List.filter_nil, List.map_nil, List.append_nil]
    cases h0 : (q.consumed i).getLsbD 0 with
    | false =>
      simp only [h0, h1, Bool.false_eq_true, false_and, or_false, iff_false] at haddr
      rw [if_neg haddr, if_neg Bool.false_ne_true]
      rfl
    | true =>
      simp only [h0, h1, true_and, Bool.false_eq_true, false_and, or_false] at haddr
      rw [if_pos rfl, htaken]
      simp only [haddr, ne_eq, ite_not]

theorem length_acceptedNow {q : InstrQueue depth} : place (q.acceptedNow i).length = q.shamt i := by
  rw [InstrQueue.shamt_eq, InstrQueue.acceptedNow]
  cases (q.consumed i).getLsbD 0 <;> cases (q.consumed i).getLsbD 1 <;> rfl

theorem acceptedNow_eq_nil {q : InstrQueue depth} (ht : q.Takes i) (hv : i.valid.getLsbD 0 = false) :
    q.acceptedNow i = [] := by
  have h0 : (q.consumed i).getLsbD 0 = false :=
    Bool.eq_false_iff.mpr fun h => Bool.false_ne_true (hv.symm.trans (ht.valid 0 h))
  have h1 : (q.consumed i).getLsbD 1 = false :=
    Bool.eq_false_iff.mpr fun h => Bool.false_ne_true (h0.symm.trans (ht.first 0 1 (by decide) h).1)
  rw [InstrQueue.acceptedNow, h0, h1]
  rfl

namespace Holds

theorem takes (h : Holds x done rest) (hi : Packets x i) : x.1.Takes i := InstrQueue.takes h.fullTogether hi.valid

/-- A ring that holds nothing has room. -/
theorem full_eq_false {α : Type*} {r : Ring α depth} (h : r.Inv) (hn : r.toList = []) : r.full = false := by
  have hd := h.rd
  have hc : r.cnt = 0 := by rw [← Ring.length_toList, hn, List.length_nil]
  rw [Ring.full, hc, beq_eq_false_iff_ne]
  omega

/-- After a flush the first instruction is taken. -/
theorem consumed_first (h : Holds x [] []) (hv : i.valid.getLsbD 0 = true) : (x.1.consumed i).getLsbD 0 = true := by
  have ha : x.1.addressFifo.full = false := full_eq_false h.addressInv h.address
  have hf : (x.1.instrFifo x.1.idxIs).full = false := by
    refine full_eq_false (h.instrInv _) ?_
    have hn := h.instr 0
    rw [add_zero] at hn
    rw [h.idxIs]
    exact hn
  exact InstrQueue.consumed_zero.mpr ⟨⟨hv, hf⟩, by rw [InstrQueue.addressOverflow, ha, Bool.false_and]⟩

theorem reset_next (h : Holds x done rest) (ht : x.1.Takes i) :
    (if i.valid.getLsbD 0 && x.1.resetAddress then false else x.1.resetAddress) =
      (x.2.accepted ++ x.1.acceptedNow i).isEmpty := by
  have hr := h.resetAddress
  cases ha : x.2.accepted with
  | cons a l =>
    rw [hr, ha]
    simp
  | nil =>
    rw [ha, List.isEmpty_nil] at hr
    obtain ⟨rfl, rfl⟩ := List.append_eq_nil_iff.mp (h.accepted.symm.trans ha)
    rw [hr]
    cases hv : i.valid.getLsbD 0 with
    | false =>
      rw [acceptedNow_eq_nil ht hv]
      rfl
    | true =>
      rw [InstrQueue.acceptedNow, h.consumed_first hv]
      rfl

theorem next_eq (hf : i.flush = false) : (instrQueue depth).next x i =
    (x.1.step i, ⟨x.2.accepted ++ x.1.acceptedNow i, x.2.issued ++ if x.1.issues i then [x.1.fetchEntry] else []⟩) := by
  simp [instrQueue, Machine.observe, QueueLog.watch, hf]

theorem step (h : Holds x done rest) (hi : Packets x i) (hf : i.flush = false) :
    Holds ((instrQueue depth).next x i) (doneNext x.1 i done rest) (restNext x.1 i rest ++ x.1.acceptedNow i) := by
  have ht := h.takes hi
  rw [next_eq hf]
  constructor
  case accepted => rw [← List.append_assoc, h.next_append, h.accepted]
  case issued =>
    rw [doneNext]
    split_ifs with hp
    · obtain ⟨a, r, rfl⟩ := h.exists_head hp
      exact List.rel_append h.issued (.cons h.serves .nil)
    · rw [List.append_nil]
      exact h.issued
  case instrInv =>
    intro k
    simp only [InstrQueue.step, hf]
    exact (Ring.step_spec (h.instrInv k) _ _ _).1
  case instr =>
    intro k
    simp only [InstrQueue.step, hf]
    refine (Ring.step_spec (h.instrInv _) _ _ _).2.trans ?_
    rw [h.instr_popped, h.instr_pushed ht]
  case addressInv =>
    simp only [InstrQueue.step, hf]
    exact (Ring.step_spec h.addressInv _ _ _).1
  case address =>
    simp only [InstrQueue.step, hf]
    refine (Ring.step_spec h.addressInv _ _ _).2.trans ?_
    rw [h.address_popped, List.filter_append, List.map_append, acceptedNow_filter ht, Bool.and_assoc, Bool.and_self]
  case idxDs =>
    have hready : x.1.issues i = i.fetchEntryReady := by
      cases hr : i.fetchEntryReady with
      | false => rw [InstrQueue.issues, hr, Bool.and_false]
      | true => rw [InstrQueue.issues, hr, hi.ready hr, Bool.and_self]
    simp only [InstrQueue.step, hf]
    refine (InstrQueue.idxDsD_eq h.idxDs).trans ?_
    rw [h.place_next, hready]
  case idxIs =>
    have hlen := congrArg List.length (h.next_append (i := i))
    rw [List.length_append, List.length_append] at hlen
    simp only [InstrQueue.step, hf, Bool.false_eq_true, if_false]
    rw [List.length_append, ← Nat.add_assoc, hlen, place_add, ← h.idxIs, length_acceptedNow]
  case resetAddress =>
    simp only [InstrQueue.step, hf]
    exact h.reset_next ht

theorem flush (h : Holds x done rest) (hf : i.flush = true) : Holds ((instrQueue depth).next x i) [] [] := by
  have hd : 0 < depth := (Nat.zero_le _).trans_lt h.addressInv.rd
  have hn : (instrQueue depth).next x i = (x.1.step i, .empty) := by
    simp [instrQueue, Machine.observe, QueueLog.watch, hf]
  rw [hn]
  constructor
  case accepted => rfl
  case issued => exact .nil
  case instrInv =>
    intro k
    simp only [InstrQueue.step, hf]
    exact Ring.inv_flush hd _
  case instr =>
    intro k
    simp only [InstrQueue.step, hf]
    rfl
  case addressInv =>
    simp only [InstrQueue.step, hf]
    exact Ring.inv_flush hd _
  case address =>
    simp only [InstrQueue.step, hf]
    rfl
  case idxDs =>
    simp only [InstrQueue.step, hf]
    rfl
  case idxIs =>
    simp only [InstrQueue.step, hf]
    rfl
  case resetAddress =>
    simp only [InstrQueue.step, hf]
    rfl

theorem init (hd : 0 < depth) : Holds ((InstrQueue.reset : InstrQueue depth), .empty) [] [] where
  accepted := rfl
  issued := .nil
  instrInv _ := Ring.inv_reset hd _
  instr _ := rfl
  addressInv := Ring.inv_reset hd _
  address := rfl
  idxDs := rfl
  idxIs := rfl
  resetAddress := rfl

end Holds

theorem holds_of_reachable (hd : 0 < depth) (hr : (instrQueue depth).Reachable Packets x) :
    ∃ done rest, Holds x done rest := by
  refine hr.invariant (P := fun y => ∃ done rest, Holds y done rest) ?_ ?_
  · rintro ⟨q, l⟩ ⟨hq, hl⟩
    obtain rfl : q = InstrQueue.reset := hq
    obtain rfl : l = QueueLog.empty := hl
    exact ⟨[], [], .init hd⟩
  · rintro y i ⟨done, rest, h⟩ hi
    cases hf : i.flush with
    | true => exact ⟨[], [], h.flush hf⟩
    | false => exact ⟨_, _, h.step hi hf⟩

/-! ### Addresses -/

/-- The address that is expected after an instruction. -/
def Accepted.next (a : Accepted) : BitVec 64 :=
  if a.data.cf = .noCF then a.addr + if a.data.instr.extractLsb' 0 2 != 0b11 then 2 else 4 else a.predict

/-- A fetch goes on where the last instruction that has been taken leads. -/
structure Sequential (x : InstrQueue depth × QueueLog) (i : QueueIn) : Prop where
  within : i.valid.getLsbD 1 = true → i.cfType 0 = .noCF → i.addr 1 = (i.slot 0).next
  across : (x.1.consumed i).getLsbD 0 = true → ∀ a ∈ x.2.accepted.getLast?, i.addr 0 = a.next

theorem isCompressed_low (w : BitVec 32) : isCompressed (low w) = (w.extractLsb' 0 2 != 0b11) := by
  have hbits : ∀ b : BitVec 2, (b != 0b11) = !(b.getLsbD 0 && b.getLsbD 1) := by decide
  rw [hbits, isCompressed]
  simp [low]

/-- The address of the instruction that comes out next. -/
def expected (done : List Accepted) : List Accepted → Option (BitVec 64)
  | [] => done.getLast?.map Accepted.next
  | a :: _ => some a.addr

/-- The entries come out under the addresses with which the instructions were taken. -/
structure Addressed (x : InstrQueue depth × QueueLog) (done rest : List Accepted) : Prop where
  pc : ∀ v ∈ expected done rest, x.1.pc = v
  chain : x.2.accepted.IsChain fun a b => b.addr = a.next
  issued : List.Forall₂ (fun e a => e.address = a.addr) x.2.issued done

/-- The instructions of one fetch. -/
theorem acceptedNow_cases {q : InstrQueue depth} (ht : q.Takes i) :
    q.acceptedNow i = [] ∨ (q.consumed i).getLsbD 0 = true ∧ (q.acceptedNow i = [i.slot 0] ∨
      q.acceptedNow i = [i.slot 0, i.slot 1] ∧ i.valid.getLsbD 1 = true ∧ i.cfType 0 = .noCF) := by
  rw [InstrQueue.acceptedNow]
  cases h0 : (q.consumed i).getLsbD 0 with
  | false =>
    have h1 : (q.consumed i).getLsbD 1 = false :=
      Bool.eq_false_iff.mpr fun h => Bool.false_ne_true (h0.symm.trans (ht.first 0 1 (by decide) h).1)
    rw [h1]
    exact .inl rfl
  | true =>
    cases h1 : (q.consumed i).getLsbD 1 with
    | false => exact .inr ⟨rfl, .inl rfl⟩
    | true => exact .inr ⟨rfl, .inr ⟨rfl, ht.valid 1 h1, (ht.first 0 1 (by decide) h1).2⟩⟩

theorem expected_acceptedNow {q : InstrQueue depth} (hc : (q.consumed i).getLsbD 0 = true) :
    expected done (q.acceptedNow i) = some (i.addr 0) := by
  rw [InstrQueue.acceptedNow, hc]
  rfl

/-- The sequence goes on with what comes in. -/
theorem chain_next {q : InstrQueue depth} {l : List Accepted} (ht : q.Takes i)
    (hl : l.IsChain fun a b => b.addr = a.next)
    (hw : i.valid.getLsbD 1 = true → i.cfType 0 = .noCF → i.addr 1 = (i.slot 0).next)
    (ha : (q.consumed i).getLsbD 0 = true → ∀ a ∈ l.getLast?, i.addr 0 = a.next) :
    (l ++ q.acceptedNow i).IsChain fun a b => b.addr = a.next := by
  rw [List.isChain_append]
  rcases acceptedNow_cases ht with hn | ⟨hc, hn | ⟨hn, hv, h0⟩⟩
  · rw [hn]
    exact ⟨hl, .nil, by simp⟩
  · rw [hn]
    refine ⟨hl, .singleton _, fun a hmem b hb => ?_⟩
    obtain rfl := Option.some.inj hb
    exact ha hc a hmem
  · rw [hn]
    refine ⟨hl, .cons_cons (hw hv h0) (.singleton _), fun a hmem b hb => ?_⟩
    obtain rfl := Option.some.inj hb
    exact ha hc a hmem

namespace Holds

/-- The counter goes on to what follows the entry that is taken. -/
theorem pcD_eq {a : Accepted} (h : Holds x done (a :: rest)) (hpc : x.1.pc = a.addr) (hi : x.1.issues i = true) :
    x.1.pcD i = a.next := by
  have hr : x.1.resetAddress = false := by
    rw [h.resetAddress, h.accepted]
    simp
  have hready : i.fetchEntryReady = true := by
    rw [InstrQueue.issues, Bool.and_eq_true] at hi
    exact hi.2
  have hpop : x.1.popAddress i = (a.data.cf != .noCF) := by
    rw [InstrQueue.popAddress_eq h.idxDs, hi, Bool.and_true, h.head_instr]
    rfl
  rw [InstrQueue.pcD, hr, Bool.and_false, if_neg Bool.false_ne_true, hpop, hready, if_pos rfl, Accepted.next,
    h.head_instr, hpc]
  by_cases hc : a.data.cf = .noCF
  · simp [hc, InstrData.entry]
  · rw [if_pos (bne_iff_ne.mpr hc), if_neg hc, h.head_address hc]

/-- Nothing is put out before the first instruction has been taken. -/
theorem issues_nil (h : Holds x done []) : x.1.issues i = false := by
  have hv : x.1.fetchEntryValid = false := Bool.eq_false_iff.mpr fun hv => h.valid_iff.mp hv rfl
  rw [InstrQueue.issues, hv, Bool.false_and]

end Holds

namespace Addressed

/-- What is expected after the entry has been taken, and the counter. -/
theorem popped (ha : Addressed x done rest) (h : Holds x done rest) (hi : Packets x i) (hne : x.2.accepted ≠ []) :
    ∀ v ∈ expected (doneNext x.1 i done rest) (restNext x.1 i rest), x.1.pcD i = v := by
  have hr : x.1.resetAddress = false := by
    rw [h.resetAddress]
    exact Bool.eq_false_iff.mpr fun he => hne (List.isEmpty_iff.mp he)
  rw [doneNext, restNext]
  cases hp : x.1.issues i with
  | false =>
    have hready : i.fetchEntryReady = false := by
      by_contra hready
      have hready := Bool.eq_true_of_not_eq_false hready
      rw [InstrQueue.issues, hready, hi.ready hready] at hp
      cases hp
    have hpc : x.1.pcD i = x.1.pc := by
      rw [InstrQueue.pcD, hr, InstrQueue.popAddress_eq h.idxDs, hp, hready]
      simp
    rw [hpc]
    exact ha.pc
  | true =>
    obtain ⟨a, r, rfl⟩ := h.exists_head hp
    rw [h.pcD_eq (ha.pc _ rfl) hp]
    cases r with
    | nil => simp [expected]
    | cons b r =>
      have hc := ha.chain
      rw [h.accepted, List.isChain_append] at hc
      have hab := (List.isChain_cons_cons.mp hc.2.1).1
      simpa [expected] using hab.symm

theorem step (ha : Addressed x done rest) (h : Holds x done rest) (hi : Packets x i) (hs : Sequential x i)
    (hf : i.flush = false) :
    Addressed ((instrQueue depth).next x i) (doneNext x.1 i done rest) (restNext x.1 i rest ++ x.1.acceptedNow i) := by
  have ht := h.takes hi
  rw [Holds.next_eq hf]
  constructor
  case chain => exact chain_next ht ha.chain hs.within hs.across
  case issued =>
    rw [doneNext]
    split_ifs with hp
    · obtain ⟨a, r, rfl⟩ := h.exists_head hp
      have hpc : x.1.fetchEntry.address = a.addr := by
        rw [h.head_instr]
        exact ha.pc _ rfl
      exact List.rel_append ha.issued (.cons hpc .nil)
    · rw [List.append_nil]
      exact ha.issued
  case pc =>
    have hpc : (x.1.step i).pc = x.1.pcD i := by simp [InstrQueue.step, hf]
    rw [hpc]
    by_cases hne : x.2.accepted = []
    · obtain ⟨rfl, rfl⟩ := List.append_eq_nil_iff.mp (h.accepted.symm.trans hne)
      rw [doneNext, restNext, h.issues_nil, if_neg Bool.false_ne_true, if_neg Bool.false_ne_true, List.nil_append]
      rcases acceptedNow_cases ht with hn | ⟨hc, -⟩
      · rw [hn]
        simp [expected]
      · have hr : x.1.resetAddress = true := by
          rw [h.resetAddress, hne]
          rfl
        rw [expected_acceptedNow hc, InstrQueue.pcD, show i.valid.getLsbD 0 = true from ht.valid 0 hc, hr]
        simp
    · have hpop := ha.popped h hi hne
      cases hr : restNext x.1 i rest with
      | cons b r =>
        rw [hr] at hpop
        exact hpop
      | nil =>
        rw [hr] at hpop
        rcases acceptedNow_cases ht with hn | ⟨hc, hn⟩
        · rw [hn]
          exact hpop
        · have hdone : doneNext x.1 i done rest = x.2.accepted := by
            rw [h.accepted, ← h.next_append (i := i), hr, List.append_nil]
          obtain ⟨a, hlast⟩ : ∃ a, x.2.accepted.getLast? = some a := ⟨_, List.getLast?_eq_some_getLast hne⟩
          rw [List.nil_append, expected_acceptedNow hc, hs.across hc a hlast]
          intro v hv
          obtain rfl := Option.some.inj hv
          refine hpop _ ?_
          rw [expected, hdone, hlast]
          rfl

theorem empty {q : InstrQueue depth} : Addressed (q, .empty) [] [] where
  pc v hv := by cases hv
  chain := .nil
  issued := .nil

end Addressed

theorem addressed_of_reachable (hd : 0 < depth)
    (hr : (instrQueue depth).Reachable (fun x i => Packets x i ∧ Sequential x i) x) :
    ∃ done rest, Holds x done rest ∧ Addressed x done rest := by
  refine hr.invariant (P := fun y => ∃ done rest, Holds y done rest ∧ Addressed y done rest) ?_ ?_
  · rintro ⟨q, l⟩ ⟨hq, hl⟩
    obtain rfl : q = InstrQueue.reset := hq
    obtain rfl : l = QueueLog.empty := hl
    exact ⟨[], [], .init hd, .empty⟩
  · rintro y i ⟨done, rest, h, ha⟩ hi
    cases hf : i.flush with
    | true =>
      have hn : (instrQueue depth).next y i = (y.1.step i, .empty) := by
        simp [instrQueue, Machine.observe, QueueLog.watch, hf]
      exact ⟨[], [], h.flush hf, hn ▸ .empty⟩
    | false => exact ⟨_, _, h.step hi.1 hf, ha.step h hi.1 hi.2 hf⟩

/-- What has been put out is the beginning of what has been taken, and the queues hold the rest in turn. -/
structure InOrder (x : InstrQueue depth × QueueLog) : Prop where
  issued : List.Forall₂ Serves x.2.issued (x.2.accepted.take x.2.issued.length)
  valid : x.1.fetchEntryValid = true ↔ x.2.issued.length < x.2.accepted.length
  entry : ∀ a ∈ x.2.accepted[x.2.issued.length]?, Serves x.1.fetchEntry a
  lanes : ∀ k : Fin 2, (x.1.instrFifo (place x.2.issued.length + k)).toList =
    (lane 2 (x.2.accepted.drop x.2.issued.length) k).map Accepted.data
  levels : ∀ j k, (x.1.instrFifo j).cnt ≤ (x.1.instrFifo k).cnt + 1
  idxIs : x.1.idxIs = place x.2.accepted.length
  idxDs : x.1.idxDs = bits (· == place x.2.issued.length)

theorem Holds.inOrder (h : Holds x done rest) : InOrder x := by
  have hlen : x.2.issued.length = done.length := h.issued.length_eq
  have hdrop : x.2.accepted.drop x.2.issued.length = rest := by
    rw [h.accepted, hlen, List.drop_left]
  have hlanes (k : Fin 2) : (x.1.instrFifo (place x.2.issued.length + k)).toList =
      (lane 2 (x.2.accepted.drop x.2.issued.length) k).map Accepted.data := by
    rw [hdrop, hlen]
    exact h.instr k
  constructor
  case issued =>
    rw [h.accepted, hlen, List.take_left]
    exact h.issued
  case valid =>
    rw [h.valid_iff, h.accepted, hlen, List.length_append, ← List.length_pos_iff]
    omega
  case entry =>
    intro a ha
    rw [h.accepted, hlen, List.getElem?_append_right le_rfl, Nat.sub_self] at ha
    cases rest with
    | nil => cases ha
    | cons b r =>
      obtain rfl := Option.some.inj ha
      exact h.serves
  case lanes => exact hlanes
  case levels =>
    have hcnt (k : Fin 2) : (x.1.instrFifo k).cnt =
        (lane 2 (x.2.accepted.drop x.2.issued.length) (place x.2.issued.length + k : Fin 2)).length := by
      rw [← List.length_map, ← hlanes, Ring.length_toList, ← add_assoc, add_self_fin, zero_add]
    intro j k
    rw [hcnt, hcnt]
    exact length_lane_le _ (Fin.isLt _) (Fin.isLt _)
  case idxIs => rw [h.idxIs, h.accepted, List.length_append]
  case idxDs => rw [h.idxDs, hlen]

/-- Over every run the queue takes the beginning of each fetch, asks for the rest again and puts out
what it has taken in order; and if the fetches follow each other, under the addresses they had. -/
theorem instr_queue_order {depth : ℕ} (hd : 0 < depth) (x : InstrQueue depth × QueueLog)
    (hr : (instrQueue depth).Reachable Packets x) :
    (∀ i, Packets x i → x.1.Takes i) ∧ InOrder x ∧
      ((instrQueue depth).Reachable (fun y i => Packets y i ∧ Sequential y i) x →
        List.Forall₂ (fun e a => e.address = a.addr) x.2.issued (x.2.accepted.take x.2.issued.length) ∧
          ∀ a ∈ x.2.accepted[x.2.issued.length]?, x.1.fetchEntry.address = a.addr) := by
  obtain ⟨done, rest, h⟩ := holds_of_reachable hd hr
  refine ⟨fun i hi => h.takes hi, h.inOrder, fun hs => ?_⟩
  obtain ⟨done, rest, h, ha⟩ := addressed_of_reachable hd hs
  have hlen : x.2.issued.length = done.length := h.issued.length_eq
  constructor
  · rw [h.accepted, hlen, List.take_left]
    exact ha.issued
  · intro a hmem
    rw [h.accepted, hlen, List.getElem?_append_right le_rfl, Nat.sub_self] at hmem
    cases rest with
    | nil => cases hmem
    | cons b r =>
      obtain rfl := Option.some.inj hmem
      rw [h.head_instr]
      exact ha.pc _ rfl

/-- A compressed instruction and a jump, what is at its target, and a cycle without a fetch. -/
def jumping : List QueueIn :=
  [⟨false, ![0x00000001, 0x0000006f], ![0x100, 0x102], 0b11, .feNone, 0, 0, 0, false, 0x200, ![.noCF, .jump], false⟩,
    ⟨false, ![0x00000013, 0], ![0x200, 0], 0b01, .feNone, 0, 0, 0, false, 0, ![.noCF, .noCF], true⟩,
    ⟨false, ![0, 0], ![0, 0], 0b00, .feNone, 0, 0, 0, false, 0, ![.noCF, .noCF], true⟩]

theorem instr_queue_order_jumping :
    let x := (instrQueue 2).run (.reset, .empty) jumping
    x.2.issued.length = 2 ∧ InOrder x ∧ x.1.fetchEntry.address = 0x200 := by
  have hr : (instrQueue 2).Reachable (fun y i => Packets y i ∧
    Sequential y i) ((instrQueue 2).run (.reset, .empty) jumping) := by
    refine .step _ (.step _ (.step _ (.init ⟨rfl, rfl⟩) ?_) ?_) ?_
    · exact ⟨⟨by decide, by decide⟩, by decide, fun _ a ha => by cases ha⟩
    · refine ⟨⟨by decide, by decide +kernel⟩, by decide, fun _ a ha => ?_⟩
      obtain rfl := Option.some.inj ha
      rfl
    · refine ⟨⟨by decide, by decide +kernel⟩, by decide, fun hc => ?_⟩
      exact absurd hc (by decide +kernel)
  obtain ⟨-, ho, ha⟩ := instr_queue_order (by decide) _ (hr.mono fun _ _ h => h.1)
  exact ⟨by decide +kernel, ho, (ha hr).2 _ rfl⟩

end Culsans.Frontend
