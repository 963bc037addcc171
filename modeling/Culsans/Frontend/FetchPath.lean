import Culsans.Frontend.Surroundings

/-! # The path of the front end

The requests go along the words of memory until a prediction or a redirect sends them elsewhere, and
what the re-aligner takes out of them are the instructions on this way, one after the other.
-/

namespace Culsans.Frontend
open Library Culsans.Core

/-- The instruction that memory holds at an address. -/
def instrAt (mem : BitVec 64 → BitVec 16) (v : BitVec 64) : BitVec 32 :=
  if isCompressed (mem v) then 0#16 ++ mem v else mem (v + 2#64) ++ mem v

/-- The bytes that an instruction takes. -/
def instrLen (w : BitVec 32) : BitVec 64 := if w.extractLsb' 0 2 != 0b11 then 2 else 4

variable {mem : BitVec 64 → BitVec 16} {v : BitVec 64} {q : InstrRealign}

/-! ### One fetch -/

/-- An instruction is that of its address. -/
def InMemory (mem : BitVec 64 → BitVec 16) (v : BitVec 64) (w : BitVec 32) : Prop :=
  (significant (v, w)).2 = instrAt mem v

/-- The half instruction that is kept lies right before the next fetch. -/
structure Kept (mem : BitVec 64 → BitVec 16) (q : InstrRealign) (v : BitVec 64) : Prop where
  aligned : q.unaligned = true → v.getLsbD 1 = false
  addr : q.unaligned = true → q.unalignedAddress + 2#64 = v
  instr : q.unaligned = true → q.unalignedInstr = mem q.unalignedAddress
  full : q.unaligned = true → isCompressed q.unalignedInstr = false

/-- The address of the instruction that comes next. -/
def InstrRealign.nextAddr (q : InstrRealign) (v : BitVec 64) : BitVec 64 :=
  if q.unaligned then q.unalignedAddress else v

theorem Kept.of_aligned (h : q.unaligned = false) : Kept mem q v where
  aligned hq := absurd (h.symm.trans hq) Bool.false_ne_true
  addr hq := absurd (h.symm.trans hq) Bool.false_ne_true
  instr hq := absurd (h.symm.trans hq) Bool.false_ne_true
  full hq := absurd (h.symm.trans hq) Bool.false_ne_true

theorem align_add_bit1 : (align v + 4#64).getLsbD 1 = false := by
  rw [bit1_iff, BitVec.toNat_add, toNat_align, BitVec.toNat_ofNat]
  omega

theorem upper_add_two : upper v + 2#64 = align v + 4#64 := by
  apply BitVec.eq_of_toNat_eq
  rw [BitVec.toNat_add, BitVec.toNat_add, toNat_upper, toNat_align]
  simp

/-- What a re-alignment gives, and what it leaves for the next fetch. -/
structure Realigned (mem : BitVec 64 → BitVec 16) (q : InstrRealign) (v : BitVec 64) (r : ReAlign) (q' : InstrRealign) :
    Prop where
  first : r.slot0.valid = true → r.slot0.addr = q.nextAddr v ∧ InMemory mem r.slot0.addr r.slot0.instr
  second : r.slot1.valid = true → r.slot0.valid = true ∧ r.slot1.addr = r.slot0.addr + instrLen r.slot0.instr ∧
    InMemory mem r.slot1.addr r.slot1.instr
  kept : Kept mem q' (align v + 4#64)
  next : q'.nextAddr (align v + 4#64) = if r.slot1.valid then r.slot1.addr + instrLen r.slot1.instr
    else if r.slot0.valid then r.slot0.addr + instrLen r.slot0.instr else q.nextAddr v

theorem instrLen_eq (w : BitVec 32) : instrLen w = if isCompressed (low w) then 2 else 4 := by
  rw [instrLen, isCompressed_low]

theorem inMemory_short (h : isCompressed (mem v) = true) : InMemory mem v (0#16 ++ mem v) := by
  simp [InMemory, significant, instrAt, h]

theorem inMemory_garbage (w : BitVec 16) (h : isCompressed (mem v) = true) : InMemory mem v (w ++ mem v) := by
  simp [InMemory, significant, instrAt, h]

theorem inMemory_full (h : isCompressed (mem v) = false) : InMemory mem v (mem (v + 2#64) ++ mem v) := by
  simp [InMemory, significant, instrAt, h]

theorem realigned_upper (h0 : v.getLsbD 0 = false) (h1 : v.getLsbD 1 = true) (hq : q.unaligned = false) :
    Realigned mem q v (q.reAlign (fetched mem v)) (q.step false (fetched mem v)) := by
  have hv : upper v = v := upper_eq h0 h1
  have h2 : v + 2#64 = align v + 4#64 := by rw [← upper_add_two, hv]
  rw [fetched_upper h0 h1]
  cases hl : isCompressed (mem v) with
  | true =>
    have hm := inMemory_short hl
    constructor
    case kept =>
      apply Kept.of_aligned
      simp [InstrRealign.step, InstrRealign.reAlign, -BitVec.getLsbD_eq_getElem, hq, h1, hl]
    all_goals simp [InstrRealign.step, InstrRealign.reAlign, InstrRealign.nextAddr, instrLen_eq,
      -BitVec.getLsbD_eq_getElem, hq, h1, hl, h2, hm]
  | false =>
    constructor
    case kept =>
      constructor
      all_goals simp [InstrRealign.step, InstrRealign.reAlign, -BitVec.getLsbD_eq_getElem, hq, h1, hl, hv, h2,
        align_add_bit1]
    all_goals simp [InstrRealign.step, InstrRealign.reAlign, InstrRealign.nextAddr, -BitVec.getLsbD_eq_getElem,
      hq, h1, hl, hv]

theorem realigned_lower (h0 : v.getLsbD 0 = false) (h1 : v.getLsbD 1 = false) (hq : q.unaligned = false) :
    Realigned mem q v (q.reAlign (fetched mem v)) (q.step false (fetched mem v)) := by
  have hu : upper v = v + 2#64 := upper_eq_add h0 h1
  have h2 : v + 2#64 + 2#64 = align v + 4#64 := by rw [← upper_add_two, hu]
  have h4 : v + 4#64 = align v + 4#64 := by rw [align_eq h0 h1]
  rw [fetched_lower h0 h1]
  cases hl : isCompressed (mem v) with
  | true =>
    have hm := inMemory_garbage (mem (v + 2#64)) hl
    cases hh : isCompressed (mem (v + 2#64)) with
    | true =>
      have hm2 := inMemory_short hh
      constructor
      case kept =>
        apply Kept.of_aligned
        simp [InstrRealign.step, InstrRealign.reAlign, -BitVec.getLsbD_eq_getElem, hq, h1, hl, hh]
      all_goals simp [InstrRealign.step, InstrRealign.reAlign, InstrRealign.nextAddr, instrLen_eq,
        -BitVec.getLsbD_eq_getElem, hq, h1, hl, hh, hu, h2, hm, hm2]
    | false =>
      constructor
      case kept =>
        constructor
        all_goals simp [InstrRealign.step, InstrRealign.reAlign, -BitVec.getLsbD_eq_getElem, hq, h1, hl, hh, hu, h2,
          align_add_bit1]
      all_goals simp [InstrRealign.step, InstrRealign.reAlign, InstrRealign.nextAddr, instrLen_eq,
        -BitVec.getLsbD_eq_getElem, hq, h1, hl, hh, hu, hm]
  | false =>
    have hm := inMemory_full hl
    constructor
    case kept =>
      apply Kept.of_aligned
      simp [InstrRealign.step, InstrRealign.reAlign, -BitVec.getLsbD_eq_getElem, hq, h1, hl]
    all_goals simp [InstrRealign.step, InstrRealign.reAlign, InstrRealign.nextAddr, instrLen_eq,
      -BitVec.getLsbD_eq_getElem, hq, h1, hl, h4, hm]

theorem realigned_kept (h0 : v.getLsbD 0 = false) (hk : Kept mem q v) (hq : q.unaligned = true) :
    Realigned mem q v (q.reAlign (fetched mem v)) (q.step false (fetched mem v)) := by
  have h1 := hk.aligned hq
  have hi := hk.instr hq
  have hf := hk.full hq
  have hu : upper v = v + 2#64 := upper_eq_add h0 h1
  have h2 : v + 2#64 + 2#64 = align v + 4#64 := by rw [← upper_add_two, hu]
  have hv : q.unalignedAddress + 2#64 = v := hk.addr hq
  have h4 : q.unalignedAddress + 4#64 = v + 2#64 := by
    rw [← hv, add_assoc]
    rfl
  have hm : InMemory mem q.unalignedAddress (mem v ++ q.unalignedInstr) := by
    rw [hi, ← hv]
    exact inMemory_full (by rw [← hi, hf])
  rw [fetched_lower h0 h1]
  cases hh : isCompressed (mem (v + 2#64)) with
  | true =>
    have hm2 := inMemory_short hh
    constructor
    case kept =>
      apply Kept.of_aligned
      simp [InstrRealign.step, InstrRealign.reAlign, -BitVec.getLsbD_eq_getElem, hq, h1, hh]
    all_goals simp [InstrRealign.step, InstrRealign.reAlign, InstrRealign.nextAddr, instrLen_eq,
      -BitVec.getLsbD_eq_getElem, hq, h1, hh, hu, h2, h4, hf, hm, hm2]
  | false =>
    constructor
    case kept =>
      constructor
      all_goals simp [InstrRealign.step, InstrRealign.reAlign, -BitVec.getLsbD_eq_getElem, hq, h1, hh, hu, h2,
        align_add_bit1]
    all_goals simp [InstrRealign.step, InstrRealign.reAlign, InstrRealign.nextAddr, instrLen_eq,
      -BitVec.getLsbD_eq_getElem, hq, h1, hh, hu, h4, hf, hm]

/-- A fetch gives the instructions from where the one before has stopped. -/
theorem realigned (h0 : v.getLsbD 0 = false) (hk : Kept mem q v) :
    Realigned mem q v (q.reAlign (fetched mem v)) (q.step false (fetched mem v)) := by
  cases hq : q.unaligned with
  | true => exact realigned_kept h0 hk hq
  | false =>
    cases h1 : v.getLsbD 1 with
    | true => exact realigned_upper h0 h1 hq
    | false => exact realigned_lower h0 h1 hq

/-! ### What the decoders make of an instruction -/

/-- What the decoders see is what memory holds, whatever lies above a compressed instruction. -/
theorem InMemory.flow {w : BitVec 32} (h : InMemory mem v w) :
    flow w = flow (instrAt mem v) ∧ instrLen w = instrLen (instrAt mem v) := by
  rw [InMemory, significant] at h
  cases hc : isCompressed (low w) with
  | false =>
    rw [hc] at h
    rw [← h]
    exact ⟨rfl, rfl⟩
  | true =>
    rw [hc] at h
    change 0#16 ++ low w = instrAt mem v at h
    have hlow : low (0#16 ++ low w) = low w := low_append _ _
    rw [← h]
    refine ⟨flow_low hlow.symm ?_, ?_⟩
    · rw [isCompressed_low] at hc
      exact bne_iff_ne.mp hc
    · rw [instrLen_eq, instrLen_eq, hlow]

/-- What is predecoded of a word that has been taken out of a fetch is what the decoders make of the instruction
in memory, with the same immediate; only what they refuse may be taken for something else. -/
theorem predecoder_agrees (mem : BitVec 64 → BitVec 16) (v : BitVec 64) (w : BitVec 32) (hw : InMemory mem v w)
    (ht : Core.flow (instrAt mem v) ≠ .trap) :
    ((instrScan w).isBranch = true ↔ ∃ op imm, opIsBranch op = true ∧ Core.flow (instrAt mem v) = .ctrl op imm) ∧
      ((instrScan w).isJump = true ↔ ∃ imm, Core.flow (instrAt mem v) = .ctrl .add imm) ∧
      ((instrScan w).isJumpReg = true ↔ ∃ imm, Core.flow (instrAt mem v) = .ctrl .jalr imm) ∧
      ∀ op imm, op ≠ .jalr → Core.flow (instrAt mem v) = .ctrl op imm →
        (if (instrScan w).rvcBranch || (instrScan w).rvcJump then (instrScan w).rvcImm else (instrScan w).rviImm) =
          imm := by
  have hs := scans_flow w
  rw [hw.flow.1] at hs
  cases hf : Core.flow (instrAt mem v) with
  | trap => exact absurd hf ht
  | plain =>
    rw [hf] at hs
    obtain ⟨hb, hj, hr⟩ := hs
    simp [hb, hj, hr]
  | ctrl op imm =>
    rw [hf] at hs
    obtain ⟨hb, hj, hr, hi, hc⟩ := hs
    refine ⟨?_, ?_, ?_, ?_⟩
    · rw [hb]
      simp
    · rw [hj]
      simp
    · rw [hr]
      simp
    · intro op' imm' hop he
      obtain ⟨rfl, rfl⟩ : op = op' ∧ imm = imm' := by simpa using he
      -- a branch or a jump is found in one of the two forms
      have hfound : (instrScan w).isBranch = true ∨ (instrScan w).isJump = true := by
        rw [hb, hj]
        cases op <;> simp_all [opIsBranch]
      simp only [InstrScan.isBranch, InstrScan.isJump, Bool.or_eq_true] at hfound
      split_ifs with hrvc
      · rw [Bool.or_eq_true] at hrvc
        exact hc hrvc
      · apply hi
        simp only [Bool.or_eq_true, not_or] at hrvc
        rcases hfound with (h | h) | h | h
        · exact .inl h
        · exact absurd h hrvc.1
        · exact .inr h
        · exact absurd h hrvc.2

/-- A compressed jump, with other bits above it. -/
theorem predecoder_agrees_jump :
    (instrScan 0xffffa001).isJump = true ↔ ∃ imm, Core.flow (instrAt (fun _ => 0xa001) 0) = .ctrl .add imm :=
  (predecoder_agrees (fun _ => 0xa001) 0 0xffffa001 (by rw [InMemory]; decide +kernel) (by decide +kernel)).2.1

/-! ### The fetches that are under way -/

variable {depth n : ℕ} {c : FrontendCfg} {x : FrontEnd depth n × FrontLog} {i : FrontendIn}

/-- The address of the fetch that returns next. -/
def nextReturn (c : FrontendCfg) (x : FrontEnd depth n × FrontLog) : BitVec 64 := x.2.pend.getD (x.1.npcNow c)

/-- The address of the fetch that the re-aligner takes next. -/
def nextFetch (c : FrontendCfg) (x : FrontEnd depth n × FrontLog) : BitVec 64 :=
  if x.1.fetch.icacheValid then x.1.fetch.icacheVaddr else nextReturn c x

/-- The fetches that are under way follow each other, and the half instruction that is kept lies before them. -/
structure Fetching (c : FrontendCfg) (mem : BitVec 64 → BitVec 16) (x : FrontEnd depth n × FrontLog) : Prop where
  register : x.1.fetch.icacheValid = true → nextReturn c x = align x.1.fetch.icacheVaddr + 4#64
  data : x.1.fetch.icacheValid = true → x.1.icacheEx = .feNone → x.1.fetch.realignIn = fetched mem x.1.fetch.icacheVaddr
  fault : x.1.fetch.icacheValid = true → x.1.icacheEx ≠ .feNone → x.1.fetch.icacheVaddr.getLsbD 1 = true →
    isCompressed (low x.1.fetch.icacheData) = true
  asked : ∀ v ∈ x.2.pend, x.1.npcNow c = align v + 4#64
  kept : Kept mem x.1.fetch.realign (nextFetch c x)

/-- The address of the instruction that the front end looks at next. -/
def nextAddr (c : FrontendCfg) (x : FrontEnd depth n × FrontLog) : BitVec 64 :=
  x.1.fetch.realign.nextAddr (nextFetch c x)

/-! ### Where the next fetch goes -/

theorem killS1_eq_false (hk : x.1.killS1 i = false) : i.flush = false ∧ x.1.replay i = false := by
  rw [FrontEnd.killS1, Bool.or_eq_false_iff, Bool.or_eq_false_iff] at hk
  exact ⟨hk.1.2, hk.2⟩

theorem killS2_eq_false (hk : x.1.killS2 i = false) : x.1.killS1 i = false ∧ x.1.bpValid i = false := by
  rw [FrontEnd.killS2, Bool.or_eq_false_iff] at hk
  exact hk

theorem fetchAddress_run (hb : x.1.bpValid i = false) : x.1.fetchAddress i c = x.1.npcNow c := by
  rw [FrontEnd.fetchAddress, hb, if_neg Bool.false_ne_true]

/-- The fetch registers after a cycle in which nothing is killed. -/
theorem fetch_next (hk : x.1.killS2 i = false) : ((frontEnd depth n c).next x i).1.fetch =
    x.1.fetch.step ⟨false, i.icache.valid, i.icache.vaddr, i.icache.data⟩ := by
  change x.1.fetch.step (x.1.fetchIn i) = _
  rw [FrontEnd.fetchIn, hk]

theorem npcD_run (hi : Surroundings c mem x i) (hk : x.1.killS1 i = false) :
    x.1.npcD i c = if x.1.ifReady i then align (x.1.fetchAddress i c) + 4#64 else x.1.fetchAddress i c := by
  obtain ⟨hf, hr⟩ := killS1_eq_false hk
  rw [npcD_quiet hi hf, hr, if_neg Bool.false_ne_true]

theorem pend_run (hk : x.1.killS1 i = false) : (x.2.watch c x.1 i).pend =
    if x.1.ifReady i then some (x.1.fetchAddress i c) else if x.1.killS2 i ||
      i.icache.valid then none else x.2.pend := by
  rw [FrontLog.watch, hk]
  rfl

/-- The next return after a cycle in which the request has not been killed. -/
theorem nextReturn_accepted (hi : Surroundings c mem x i) (hk : x.1.killS1 i = false)
    (hp : x.1.ifReady i = true ∨ (x.1.killS2 i || i.icache.valid) = true) :
    nextReturn c ((frontEnd depth n c).next x i) = x.1.fetchAddress i c ∧
      ∀ v ∈ ((frontEnd depth n c).next x i).2.pend, (x.1.step i c).npcNow c = align v + 4#64 := by
  have hnpc : (x.1.step i c).npcNow c = x.1.npcD i c := rfl
  rw [nextReturn, frontEnd_next, pend_run hk, hnpc, npcD_run hi hk]
  cases hr : x.1.ifReady i with
  | true =>
    refine ⟨rfl, fun v hv => ?_⟩
    obtain rfl := Option.some.inj hv
    rfl
  | false =>
    rw [hr] at hp
    rw [if_neg Bool.false_ne_true, if_neg Bool.false_ne_true, if_pos (hp.resolve_left Bool.false_ne_true)]
    exact ⟨rfl, fun v hv => absurd hv (Option.not_mem_none v)⟩

theorem realign_idle {a : RealignIn} (ha : a.valid = false) : q.step false a = q := by
  simp [InstrRealign.step, ha]

/-- Only the upper half of a word is taken if the fetch begins there. -/
theorem low_icacheDataD {a : FetchIn} (h1 : a.vaddr.getLsbD 1 = true) :
    low (FetchRegs.icacheDataD a) = high a.data := by
  rw [FetchRegs.icacheDataD, h1]
  apply BitVec.eq_of_getLsbD_eq
  intro j hj
  simp [low, high, hj, BitVec.getLsbD_ushiftRight, Nat.add_comm]

theorem fetched_ext (mem : BitVec 64 → BitVec 16) (v : BitVec 64) :
    fetched mem v = ⟨true, v, FetchRegs.icacheDataD ⟨false, true, v, wordAt mem v⟩⟩ := rfl

namespace Fetching

/-- What the re-aligner takes in this cycle. -/
theorem realigned (h : Fetching c mem x) (he : EvenAddresses c x) (hv : x.1.fetch.icacheValid = true)
    (hx : x.1.icacheEx = .feNone) :
    Realigned mem x.1.fetch.realign x.1.fetch.icacheVaddr (x.1.fetch.realign.reAlign x.1.fetch.realignIn)
      (x.1.fetch.realign.step false x.1.fetch.realignIn) := by
  have hk := h.kept
  rw [nextFetch, if_pos hv] at hk
  rw [h.data hv hx]
  exact Frontend.realigned he.vaddr hk

/-- A fetch with an exception gives an instruction to carry it. -/
theorem slot_fault (h : Fetching c mem x) (hv : x.1.fetch.icacheValid = true) (hx : x.1.icacheEx ≠ .feNone) :
    (x.1.slot 0).valid = true := by
  have hf := h.fault hv hx
  change (x.1.fetch.realign.reAlign x.1.fetch.realignIn).slot0.valid = true
  simp only [InstrRealign.reAlign, FetchRegs.realignIn, hv]
  split_ifs with h1 h2 h3 h4 <;> simp_all

/-- The re-aligner keeps what lies before the next return. -/
theorem kept_next (h : Fetching c mem x) (he : EvenAddresses c x)
    (hx : x.1.fetch.icacheValid = true → x.1.icacheEx = .feNone) :
    Kept mem (x.1.fetch.realign.step false x.1.fetch.realignIn) (nextReturn c x) := by
  cases hv : x.1.fetch.icacheValid with
  | true =>
    rw [h.register hv]
    exact (h.realigned he hv (hx hv)).kept
  | false =>
    have hk := h.kept
    rw [nextFetch, hv, if_neg Bool.false_ne_true] at hk
    rw [realign_idle hv]
    exact hk

/-- The answer of the cache comes into the register, and the next request goes out. -/
theorem goOn_valid (h : Fetching c mem x) (he : EvenAddresses c x) (hi : Surroundings c mem x i)
    (hk : x.1.killS2 i = false) (hx : x.1.fetch.icacheValid = true → x.1.icacheEx = .feNone)
    (hv : i.icache.valid = true) :
    Fetching c mem ((frontEnd depth n c).next x i) ∧ nextFetch c ((frontEnd depth n c).next x i) = nextReturn c x := by
  obtain ⟨hk1, hb⟩ := killS2_eq_false hk
  have hreg : ((frontEnd depth n c).next x i).1.fetch = x.1.fetch.step ⟨false, i.icache.valid, i.icache.vaddr,
    i.icache.data⟩ :=
    fetch_next hk
  have hp := (hi.answer hv).1
  have hret : nextReturn c x = i.icache.vaddr := by
    rw [nextReturn, hp]
    rfl
  obtain ⟨hn, ha⟩ := nextReturn_accepted hi hk1 (.inr (by rw [hv, Bool.or_true]))
  have hvalid : ((frontEnd depth n c).next x i).1.fetch.icacheValid = true := hv
  have hvaddr : ((frontEnd depth n c).next x i).1.fetch.icacheVaddr = i.icache.vaddr := if_pos hv
  have hword : ((frontEnd depth n c).next x i).1.fetch.icacheData =
      FetchRegs.icacheDataD ⟨false, i.icache.valid, i.icache.vaddr, i.icache.data⟩ := by
    rw [hreg]
    exact if_pos hv
  have hex : ((frontEnd depth n c).next x i).1.icacheEx = frontendException i.icache.exCause := if_pos hv
  have hnext : nextFetch c ((frontEnd depth n c).next x i) = nextReturn c x := by
    rw [nextFetch, if_pos hvalid, hvaddr, hret]
  refine ⟨?_, hnext⟩
  constructor
  case register =>
    intro _
    rw [hn, fetchAddress_run hb, hvaddr]
    exact h.asked _ hp
  case data =>
    intro _ hnone
    rw [hex] at hnone
    rw [hvaddr, FetchRegs.realignIn, hvalid, hvaddr, hword, fetched_ext, hi.data hv (not_not.mpr hnone)]
    rfl
  case fault =>
    intro _ hsome h1
    rw [hex] at hsome
    rw [hvaddr] at h1
    rw [hword, low_icacheDataD h1]
    exact hi.fault hv hsome h1
  case asked => exact ha
  case kept =>
    rw [hnext, hreg]
    exact h.kept_next he hx

/-- The cache does not answer. -/
theorem goOn_wait (h : Fetching c mem x) (he : EvenAddresses c x) (hi : Surroundings c mem x i)
    (hk : x.1.killS2 i = false) (hx : x.1.fetch.icacheValid = true → x.1.icacheEx = .feNone)
    (hv : i.icache.valid = false) :
    Fetching c mem ((frontEnd depth n c).next x i) ∧ nextFetch c ((frontEnd depth n c).next x i) = nextReturn c x := by
  obtain ⟨hk1, hb⟩ := killS2_eq_false hk
  have hvalid : ((frontEnd depth n c).next x i).1.fetch.icacheValid = false := hv
  have hsame : nextReturn c ((frontEnd depth n c).next x i) = nextReturn c x ∧
      ∀ v ∈ ((frontEnd depth n c).next x i).2.pend, (x.1.step i c).npcNow c = align v + 4#64 := by
    cases hr : x.1.ifReady i with
    | true =>
      have hnone : x.2.pend = none := by
        rw [FrontEnd.ifReady, Bool.and_eq_true] at hr
        rcases hi.ready hr.1 with hp | hp | hp
        · exact hp
        · exact absurd (hv.symm.trans hp) Bool.false_ne_true
        · exact absurd (hk.symm.trans hp) Bool.false_ne_true
      obtain ⟨hn, ha⟩ := nextReturn_accepted hi hk1 (.inl hr)
      refine ⟨?_, ha⟩
      rw [hn, fetchAddress_run hb, nextReturn, hnone]
      rfl
    | false =>
      have hpend : ((frontEnd depth n c).next x i).2.pend = x.2.pend := by
        rw [frontEnd_next, pend_run hk1, hr, hk, hv]
        rfl
      have hnpc : (x.1.step i c).npcNow c = x.1.npcNow c := by
        have hstep : (x.1.step i c).npcNow c = x.1.npcD i c := rfl
        rw [hstep, npcD_run hi hk1, hr, if_neg Bool.false_ne_true, fetchAddress_run hb]
      constructor
      · rw [nextReturn, hpend, nextReturn]
        exact congrArg _ hnpc
      · rw [hpend, hnpc]
        exact h.asked
  have hnext : nextFetch c ((frontEnd depth n c).next x i) = nextReturn c x := by
    rw [nextFetch, hvalid, if_neg Bool.false_ne_true, hsame.1]
  refine ⟨?_, hnext⟩
  constructor
  case register => exact fun hn => absurd (hvalid.symm.trans hn) Bool.false_ne_true
  case data => exact fun hn => absurd (hvalid.symm.trans hn) Bool.false_ne_true
  case fault => exact fun hn => absurd (hvalid.symm.trans hn) Bool.false_ne_true
  case asked => exact hsame.2
  case kept =>
    rw [hnext, fetch_next hk]
    exact h.kept_next he hx

/-- Nothing is sent elsewhere: the fetches go on. -/
theorem goOn (h : Fetching c mem x) (he : EvenAddresses c x) (hi : Surroundings c mem x i) (hk : x.1.killS2 i = false)
    (hx : x.1.fetch.icacheValid = true → x.1.icacheEx = .feNone) :
    Fetching c mem ((frontEnd depth n c).next x i) ∧ nextFetch c ((frontEnd depth n c).next x i) = nextReturn c x := by
  cases hv : i.icache.valid with
  | true => exact h.goOn_valid he hi hk hx hv
  | false => exact h.goOn_wait he hi hk hx hv

/-- Everything under way is killed: the next fetch is where the front end goes. -/
theorem kill (hi : Surroundings c mem x i) (hk : x.1.killS2 i = true) {t : BitVec 64}
    (ht : t = if x.1.killS1 i then x.1.npcD i c else x.1.predictAddress i) :
    Fetching c mem ((frontEnd depth n c).next x i) ∧ nextAddr c ((frontEnd depth n c).next x i) = t := by
  have hvalid : ((frontEnd depth n c).next x i).1.fetch.icacheValid = false := by
    change i.icache.valid = false
    rw [Bool.eq_false_iff]
    intro hv
    exact Bool.false_ne_true ((hi.answer hv).2.symm.trans hk)
  have hun : ((frontEnd depth n c).next x i).1.fetch.realign.unaligned = false := by
    change (if x.1.killS2 i then false else _) = false
    rw [hk, if_pos rfl]
  have hret : nextReturn c ((frontEnd depth n c).next x i) = t ∧
      ∀ v ∈ ((frontEnd depth n c).next x i).2.pend, (x.1.step i c).npcNow c = align v + 4#64 := by
    rw [ht]
    cases hk1 : x.1.killS1 i with
    | true =>
      have hpend : ((frontEnd depth n c).next x i).2.pend = none := by
        rw [frontEnd_next, FrontLog.watch, hk1]
        rfl
      constructor
      · rw [nextReturn, hpend]
        rfl
      · rw [hpend]
        exact fun v hv => absurd hv (Option.not_mem_none v)
    | false =>
      have hb : x.1.bpValid i = true := by
        rw [FrontEnd.killS2, hk1, Bool.false_or] at hk
        exact hk
      obtain ⟨hn, ha⟩ := nextReturn_accepted hi hk1 (.inr (by rw [hk, Bool.true_or]))
      refine ⟨?_, ha⟩
      rw [hn, FrontEnd.fetchAddress, if_pos hb]
      rfl
  constructor
  · constructor
    case register => exact fun hn => absurd (hvalid.symm.trans hn) Bool.false_ne_true
    case data => exact fun hn => absurd (hvalid.symm.trans hn) Bool.false_ne_true
    case fault => exact fun hn => absurd (hvalid.symm.trans hn) Bool.false_ne_true
    case asked => exact hret.2
    case kept => exact .of_aligned hun
  · rw [nextAddr, InstrRealign.nextAddr, hun, if_neg Bool.false_ne_true, nextFetch, hvalid,
      if_neg Bool.false_ne_true, hret.1]

end Fetching
end Culsans.Frontend
