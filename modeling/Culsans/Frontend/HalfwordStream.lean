import Culsans.Frontend.InstrRealign

/-! # The instructions in memory

From its start address on, memory is a sequence of instructions of one or two half words. The
re-aligner takes fetches of consecutive words apart into this sequence.
-/

namespace Culsans.Frontend
open Library Library.PairStream

/-- A half word with its address. -/
abbrev Half := BitVec 64 × BitVec 16

/-- The half word is an instruction of its own. -/
def short (u : Half) : Bool := isCompressed u.2

/-- An instruction; a compressed one has no upper half. -/
def Item.instr : Item Half → BitVec 64 × BitVec 32
  | .one u => (u.1, 0#16 ++ u.2)
  | .two u t => (u.1, t.2 ++ u.2)

/-- An instruction without what lies above a compressed one. -/
def significant (e : BitVec 64 × BitVec 32) : BitVec 64 × BitVec 32 :=
  (e.1, if isCompressed (low e.2) then 0#16 ++ low e.2 else e.2)

/-- The aligned word in which an address lies. -/
def wordAt (mem : BitVec 64 → BitVec 16) (v : BitVec 64) : BitVec 32 := mem (upper v) ++ mem (align v)

/-- The address of fetch `k` from a start address. -/
def fetchAddr (start : BitVec 64) (k : ℕ) : BitVec 64 := if k = 0 then start else align start + BitVec.ofNat 64 (4 * k)

/-- The half words of the first `k` fetches: the first fetch may begin in the middle of a word. -/
def halves (mem : BitVec 64 → BitVec 16) (start : BitVec 64) (k : ℕ) : List Half :=
  (List.range (2 * k - (start.getLsbD 1).toNat)).map fun j =>
    (start + BitVec.ofNat 64 (2 * j), mem (start + BitVec.ofNat 64 (2 * j)))

/-- The half words of one fetch. -/
def halvesOf (mem : BitVec 64 → BitVec 16) (v : BitVec 64) : List Half :=
  if v.getLsbD 1 then [(v, mem v)] else [(v, mem v), (v + 2#64, mem (v + 2#64))]

/-- The half instruction that is kept. -/
def InstrRealign.pending (q : InstrRealign) : Option Half :=
  if q.unaligned then some (q.unalignedAddress, q.unalignedInstr) else none

variable {mem : BitVec 64 → BitVec 16} {v start : BitVec 64} {k : ℕ} {q : InstrRealign} {p : Option Half}

/-! ### Addresses -/

theorem toNat_align : (align v).toNat = v.toNat / 4 * 4 := by
  have hv := v.isLt
  simp only [align, BitVec.toNat_append, BitVec.extractLsb'_toNat, Nat.shiftRight_eq_div_pow]
  rw [← Nat.shiftLeft_add_eq_or_of_lt (by decide), Nat.shiftLeft_eq]
  simp
  omega

theorem toNat_upper : (upper v).toNat = v.toNat / 4 * 4 + 2 := by
  have hv := v.isLt
  simp only [upper, BitVec.toNat_append, BitVec.extractLsb'_toNat, Nat.shiftRight_eq_div_pow]
  rw [← Nat.shiftLeft_add_eq_or_of_lt (by decide), Nat.shiftLeft_eq]
  simp
  omega

theorem bit0_iff : v.getLsbD 0 = false ↔ v.toNat % 2 = 0 := by
  simp [BitVec.getLsbD, Nat.testBit_zero]

theorem bit1_iff : v.getLsbD 1 = false ↔ v.toNat / 2 % 2 = 0 := by
  simp [BitVec.getLsbD, Nat.testBit_succ, Nat.testBit_zero]

theorem upper_eq (h0 : v.getLsbD 0 = false) (h1 : v.getLsbD 1 = true) : upper v = v := by
  have hb := bit0_iff.mp h0
  have hb1 : ¬ v.toNat / 2 % 2 = 0 := fun h => Bool.false_ne_true ((bit1_iff.mpr h).symm.trans h1)
  apply BitVec.eq_of_toNat_eq
  rw [toNat_upper]
  omega

theorem align_eq (h0 : v.getLsbD 0 = false) (h1 : v.getLsbD 1 = false) : align v = v := by
  have hb := bit0_iff.mp h0
  have hb1 := bit1_iff.mp h1
  apply BitVec.eq_of_toNat_eq
  rw [toNat_align]
  omega

theorem upper_eq_add (h0 : v.getLsbD 0 = false) (h1 : v.getLsbD 1 = false) : upper v = v + 2#64 := by
  have hb := bit0_iff.mp h0
  have hb1 := bit1_iff.mp h1
  have hv := v.isLt
  apply BitVec.eq_of_toNat_eq
  rw [toNat_upper, BitVec.toNat_add]
  simp
  omega

theorem fetchAddr_bit0 (h0 : start.getLsbD 0 = false) : (fetchAddr start k).getLsbD 0 = false := by
  rw [fetchAddr]
  split_ifs
  · exact h0
  · rw [bit0_iff, BitVec.toNat_add, toNat_align, BitVec.toNat_ofNat]
    omega

theorem fetchAddr_bit1 (hk : k ≠ 0) : (fetchAddr start k).getLsbD 1 = false := by
  rw [fetchAddr, if_neg hk, bit1_iff, BitVec.toNat_add, toNat_align, BitVec.toNat_ofNat]
  omega

/-- The first half word of a fetch follows the half words of the fetches before it. -/
theorem fetchAddr_eq (h0 : start.getLsbD 0 = false) :
    fetchAddr start k = start + BitVec.ofNat 64 (2 * (2 * k - (start.getLsbD 1).toNat)) := by
  rw [fetchAddr]
  split_ifs with hk
  · simp [hk]
  · have hb := bit0_iff.mp h0
    have hs := start.isLt
    apply BitVec.eq_of_toNat_eq
    rw [BitVec.toNat_add, BitVec.toNat_add, toNat_align, BitVec.toNat_ofNat, BitVec.toNat_ofNat]
    cases h1 : start.getLsbD 1 with
    | false =>
      have hb1 := bit1_iff.mp h1
      simp only [Bool.toNat_false]
      omega
    | true =>
      have hb1 : ¬ start.toNat / 2 % 2 = 0 := fun h => Bool.false_ne_true ((bit1_iff.mpr h).symm.trans h1)
      simp only [Bool.toNat_true]
      omega

/-- The fetches cover the half words one after the other. -/
theorem halves_succ (h0 : start.getLsbD 0 = false) (k : ℕ) :
    halves mem start (k + 1) = halves mem start k ++ halvesOf mem (fetchAddr start k) := by
  have hv := fetchAddr_eq (k := k) h0
  have hb : (start.getLsbD 1).toNat ≤ 1 := Bool.toNat_le _
  rw [halves, halves, halvesOf]
  split_ifs with h1
  · have hk : k = 0 := by
      by_contra hk
      exact Bool.false_ne_true ((fetchAddr_bit1 hk).symm.trans h1)
    subst hk
    have h1' : start.getLsbD 1 = true := h1
    rw [h1']
    simp [fetchAddr]
  · have hlen : 2 * (k + 1) - (start.getLsbD 1).toNat = (2 * k - (start.getLsbD 1).toNat) + 2 := by
      by_cases hk : k = 0
      · subst hk
        have h1' : start.getLsbD 1 = false := Bool.eq_false_iff.mpr h1
        rw [h1']
        rfl
      · omega
    rw [hlen, List.range_add, List.map_append, hv]
    congr 1
    simp [List.range_succ, BitVec.add_assoc, Nat.mul_add, BitVec.ofNat_add]

/-! ### One fetch -/

/-- What the cache has answered with, as the re-aligner sees it. -/
def fetched (mem : BitVec 64 → BitVec 16) (v : BitVec 64) : RealignIn :=
  ⟨true, v, FetchRegs.icacheDataD ⟨false, true, v, wordAt mem v⟩⟩

@[simp] theorem low_append (h l : BitVec 16) : low (h ++ l) = l :=
  BitVec.extractLsb'_append_eq_right

@[simp] theorem high_append (h l : BitVec 16) : high (h ++ l) = h :=
  BitVec.extractLsb'_append_eq_left

theorem shiftRight_append (h l : BitVec 16) : (h ++ l) >>> 16 = 0#16 ++ h := by
  have hl := l.isLt
  apply BitVec.eq_of_toNat_eq
  rw [BitVec.toNat_ushiftRight, BitVec.toNat_append, BitVec.toNat_append, ← Nat.shiftLeft_add_eq_or_of_lt hl,
    Nat.shiftLeft_eq, Nat.shiftRight_eq_div_pow]
  simp
  omega

theorem fetched_lower (h0 : v.getLsbD 0 = false) (h1 : v.getLsbD 1 = false) :
    fetched mem v = ⟨true, v, mem (v + 2#64) ++ mem v⟩ := by
  simp only [fetched, FetchRegs.icacheDataD, wordAt, h1, upper_eq_add h0 h1, align_eq h0 h1]
  simp

theorem fetched_upper (h0 : v.getLsbD 0 = false) (h1 : v.getLsbD 1 = true) :
    fetched mem v = ⟨true, v, 0#16 ++ mem v⟩ := by
  simp only [fetched, FetchRegs.icacheDataD, wordAt, h1, upper_eq h0 h1, Bool.toNat_true, mul_one, shiftRight_append]

@[simp] theorem isCompressed_zero : isCompressed 0#16 = true := rfl

theorem pending_of_unaligned (h : q.unaligned = true) : q.pending = some (q.unalignedAddress, q.unalignedInstr) :=
  if_pos h

theorem pending_of_aligned (h : q.unaligned = false) : q.pending = none := by
  simp [InstrRealign.pending, h]

/-- A fetch that begins in the middle of a word gives one half word. -/
theorem realign_upper (h0 : v.getLsbD 0 = false) (h1 : v.getLsbD 1 = true) (hq : q.unaligned = false) :
    (q.reAlign (fetched mem v)).emits.map significant = (parse short none (halvesOf mem v)).map Item.instr ∧
      (q.step false (fetched mem v)).pending = rest short none (halvesOf mem v) := by
  rw [fetched_upper h0 h1, halvesOf, if_pos h1]
  cases hl : isCompressed (mem v) with
  | true =>
    simp [InstrRealign.reAlign, InstrRealign.step, InstrRealign.pending, ReAlign.emits, parse, rest, short, significant,
        Item.instr, -BitVec.getLsbD_eq_getElem, hq, h1, hl]
  | false =>
    simp [InstrRealign.reAlign, InstrRealign.step, InstrRealign.pending, ReAlign.emits, parse, rest, short,
        -BitVec.getLsbD_eq_getElem, hq, h1, hl, upper_eq h0 h1]

/-- The first half word of a whole word ends the instruction that is kept. -/
theorem realign_kept (h0 : v.getLsbD 0 = false) (h1 : v.getLsbD 1 = false) (hq : q.unaligned = true)
    (hs : isCompressed q.unalignedInstr = false) :
    (q.reAlign (fetched mem v)).emits.map significant = (parse short q.pending (halvesOf mem v)).map Item.instr ∧
      (q.step false (fetched mem v)).pending = rest short q.pending (halvesOf mem v) := by
  rw [fetched_lower h0 h1, halvesOf, if_neg (by simp only [h1, Bool.false_eq_true, not_false_eq_true]),
    pending_of_unaligned hq]
  cases hh : isCompressed (mem (v + 2#64)) with
  | true =>
    simp [InstrRealign.reAlign, InstrRealign.step, InstrRealign.pending, ReAlign.emits, parse, rest, short, significant,
        Item.instr, -BitVec.getLsbD_eq_getElem, hq, h1, hs, hh, upper_eq_add h0 h1]
  | false =>
    simp [InstrRealign.reAlign, InstrRealign.step, InstrRealign.pending, ReAlign.emits, parse, rest, short, significant,
        Item.instr, -BitVec.getLsbD_eq_getElem, hq, h1, hs, hh, upper_eq_add h0 h1]

/-- The two half words of a word are one instruction, or begin one each. -/
theorem realign_lower (h0 : v.getLsbD 0 = false) (h1 : v.getLsbD 1 = false) (hq : q.unaligned = false) :
    (q.reAlign (fetched mem v)).emits.map significant = (parse short none (halvesOf mem v)).map Item.instr ∧
      (q.step false (fetched mem v)).pending = rest short none (halvesOf mem v) := by
  rw [fetched_lower h0 h1, halvesOf, if_neg (by simp only [h1, Bool.false_eq_true, not_false_eq_true])]
  cases hl : isCompressed (mem v) with
  | false =>
    simp [InstrRealign.reAlign, InstrRealign.step, InstrRealign.pending, ReAlign.emits, parse, rest, short, significant,
        Item.instr, -BitVec.getLsbD_eq_getElem, hq, h1, hl]
  | true =>
    cases hh : isCompressed (mem (v + 2#64)) with
    | true =>
      simp [InstrRealign.reAlign, InstrRealign.step, InstrRealign.pending, ReAlign.emits, parse, rest, short,
        significant, Item.instr, -BitVec.getLsbD_eq_getElem, hq, h1, hl, hh, upper_eq_add h0 h1]
    | false =>
      simp [InstrRealign.reAlign, InstrRealign.step, InstrRealign.pending, ReAlign.emits, parse, rest, short,
        significant, Item.instr, -BitVec.getLsbD_eq_getElem, hq, h1, hl, hh, upper_eq_add h0 h1]

/-- A fetch is parsed where the one before it has stopped. -/
theorem realign_fetch (mem : BitVec 64 → BitVec 16) (h0 : v.getLsbD 0 = false)
    (hp : v.getLsbD 1 = true → q.pending = none) (hs : ∀ u ∈ q.pending, short u = false) :
    (q.reAlign (fetched mem v)).emits.map significant = (parse short q.pending (halvesOf mem v)).map Item.instr ∧
      (q.step false (fetched mem v)).pending = rest short q.pending (halvesOf mem v) := by
  cases hq : q.unaligned with
  | true =>
    have hn := pending_of_unaligned hq
    cases h1 : v.getLsbD 1 with
    | true =>
      rw [hp h1] at hn
      cases hn
    | false =>
      refine realign_kept h0 h1 hq (hs (q.unalignedAddress, q.unalignedInstr) ?_)
      rw [hn]
      rfl
  | false =>
    rw [pending_of_aligned hq]
    cases h1 : v.getLsbD 1 with
    | true => exact realign_upper h0 h1 hq
    | false => exact realign_lower h0 h1 hq

theorem emits_idle {i : RealignIn} (hi : i.valid = false) : (q.reAlign i).emits = [] := by
  have h0 : (q.reAlign i).slot0.valid = false := by
    simp only [InstrRealign.reAlign, hi, Bool.false_and]
    split_ifs <;> first | rfl | contradiction
  have h1 : (q.reAlign i).slot1.valid = false := by
    simp only [InstrRealign.reAlign, hi, Bool.false_and]
    split_ifs <;> rfl
  simp [ReAlign.emits, h0, h1]

theorem pending_idle {i : RealignIn} (hi : i.valid = false) : (q.step false i).pending = q.pending := by
  simp [InstrRealign.step, InstrRealign.pending, hi]

theorem pending_flush {i : RealignIn} : (q.step true i).pending = none := by
  simp [InstrRealign.step, InstrRealign.pending]

/-! ### Sequences of fetches -/

/-- What has happened since the last flush: the fetches that the cache has returned, those that
the re-aligner has taken, and the instructions that have been put out. -/
structure FetchLog where
  start : BitVec 64
  returned : ℕ
  taken : ℕ
  emitted : List (BitVec 64 × BitVec 32)

namespace FetchLog

def empty : FetchLog := ⟨0, 0, 0, []⟩

def watch (l : FetchLog) (q : FetchRegs) (i : FetchIn) : FetchLog :=
  if i.killS2 then empty
  else
    { start := if i.valid && l.returned == 0 then i.vaddr else l.start
      returned := l.returned + i.valid.toNat
      taken := l.returned
      emitted := l.emitted ++ q.emits }

end FetchLog

/-- The frontend with a record of the fetches. -/
def fetches : Machine (FetchRegs × FetchLog) FetchIn :=
  Machine.observe ⟨(· = FetchRegs.reset), FetchRegs.step⟩ .empty FetchLog.watch

/-- The fetches after a flush follow each other from an even address; none returns with the flush. -/
structure Consecutive (mem : BitVec 64 → BitVec 16) (x : FetchRegs × FetchLog) (i : FetchIn) : Prop where
  killed : i.killS2 = true → i.valid = false
  data : i.valid = true → i.data = wordAt mem i.vaddr
  even : i.valid = true → x.2.returned = 0 → i.vaddr.getLsbD 0 = false
  next : i.valid = true → x.2.returned ≠ 0 → i.vaddr = fetchAddr x.2.start x.2.returned

/-- What has been put out and what is kept is the parse of the fetches that have been taken. -/
structure Parsed (mem : BitVec 64 → BitVec 16) (x : FetchRegs × FetchLog) : Prop where
  count : x.2.returned = x.2.taken + x.1.icacheValid.toNat
  even : x.2.start.getLsbD 0 = false
  register : x.1.icacheValid = true → x.1.realignIn = fetched mem (fetchAddr x.2.start x.2.taken)
  emitted : x.2.emitted.map significant = (parse short none (halves mem x.2.start x.2.taken)).map Item.instr
  kept : x.1.realign.pending = rest short none (halves mem x.2.start x.2.taken)

variable {x : FetchRegs × FetchLog} {i : FetchIn}

theorem halves_zero : halves mem start 0 = [] := by
  simp [halves]

theorem Parsed.empty {r : InstrRealign} (hr : r.pending = none) {a : BitVec 64} {d : BitVec 32} :
    Parsed mem (⟨r, false, a, d⟩, .empty) where
  count := rfl
  even := BitVec.getLsbD_zero
  register h := by cases h
  emitted := by
    simp only [FetchLog.empty]
    rw [halves_zero, parse_nil]
    rfl
  kept := by
    simp only [FetchLog.empty]
    rw [halves_zero, rest_nil]
    exact hr

/-- The cycle in which the re-aligner takes the register. -/
theorem Parsed.take (h : Parsed mem x) :
    (x.2.emitted ++ x.1.emits).map significant = (parse short none (halves mem x.2.start x.2.returned)).map Item.instr ∧
      (x.1.realign.step false x.1.realignIn).pending = rest short none (halves mem x.2.start x.2.returned) := by
  rw [h.count]
  cases hv : x.1.icacheValid with
  | false =>
    have hi : x.1.realignIn.valid = false := hv
    rw [FetchRegs.emits, emits_idle hi, pending_idle hi, List.append_nil]
    exact ⟨h.emitted, h.kept⟩
  | true =>
    have hp : (fetchAddr x.2.start x.2.taken).getLsbD 1 = true → x.1.realign.pending = none := by
      intro h1
      have ht : x.2.taken = 0 := by
        by_contra ht
        exact Bool.false_ne_true ((fetchAddr_bit1 ht).symm.trans h1)
      rw [h.kept, ht, halves_zero, rest_nil]
    have hs : ∀ u ∈ x.1.realign.pending, short u = false := by
      rw [h.kept]
      exact rest_first (fun u hu => absurd hu (Option.not_mem_none u)) _
    obtain ⟨he, hk⟩ := realign_fetch mem (fetchAddr_bit0 h.even) hp hs
    rw [Bool.toNat_true, halves_succ h.even, parse_append, rest_append, ← h.kept, List.map_append, List.map_append,
      ← h.emitted, FetchRegs.emits, h.register hv, he]
    exact ⟨rfl, hk⟩

theorem Parsed.step (h : Parsed mem x) (hi : Consecutive mem x i) : Parsed mem (fetches.next x i) := by
  cases hk : i.killS2 with
  | true =>
    have hv := hi.killed hk
    have hn : fetches.next x i = (⟨x.1.realign.step true x.1.realignIn, false, x.1.icacheVaddr, x.1.icacheData⟩,
      .empty) := by
      simp [fetches, Machine.observe, FetchLog.watch, FetchRegs.step, hk, hv]
    rw [hn]
    exact .empty pending_flush
  | false =>
    obtain ⟨he, hp⟩ := h.take
    have hn : fetches.next x i = (x.1.step i, ⟨if i.valid && x.2.returned == 0 then i.vaddr else x.2.start,
        x.2.returned + i.valid.toNat, x.2.returned, x.2.emitted ++ x.1.emits⟩) := by
      simp [fetches, Machine.observe, FetchLog.watch, hk]
    rw [hn]
    -- the start is not read before the first fetch
    have hst : halves mem (if i.valid && x.2.returned == 0 then i.vaddr else x.2.start) x.2.returned =
      halves mem x.2.start x.2.returned := by
      by_cases hr : x.2.returned = 0
      · rw [hr, halves_zero, halves_zero]
      · simp [hr]
    constructor
    case count => rfl
    case even =>
      change (if i.valid && x.2.returned == 0 then i.vaddr else x.2.start).getLsbD 0 = false
      split_ifs with hf
      · rw [Bool.and_eq_true, beq_iff_eq] at hf
        exact hi.even hf.1 hf.2
      · exact h.even
    case register =>
      intro hv
      change i.valid = true at hv
      have ha : i.vaddr = fetchAddr (if i.valid && x.2.returned == 0 then i.vaddr else x.2.start) x.2.returned := by
        by_cases hr : x.2.returned = 0
        · simp [hr, hv, fetchAddr]
        · simpa [hr] using hi.next hv hr
      have hd : FetchRegs.icacheDataD i = (fetched mem i.vaddr).data := by
        simp [fetched, FetchRegs.icacheDataD, hi.data hv]
      change (⟨i.valid, if i.valid then i.vaddr else x.1.icacheVaddr,
        if i.valid then FetchRegs.icacheDataD i else x.1.icacheData⟩ : RealignIn) =
        fetched mem (fetchAddr (if i.valid && x.2.returned == 0 then i.vaddr else x.2.start) x.2.returned)
      rw [← ha, if_pos hv, if_pos hv, hv, hd]
      rfl
    case emitted =>
      rw [hst]
      exact he
    case kept =>
      rw [hst, ← hp]
      simp [FetchRegs.step, hk]

theorem parsed_of_reachable (hr : fetches.Reachable (Consecutive mem) x) : Parsed mem x := by
  refine hr.invariant ?_ fun y i hy hi => hy.step hi
  rintro ⟨q, l⟩ ⟨hq, hl⟩
  obtain rfl : q = FetchRegs.reset := hq
  obtain rfl : l = FetchLog.empty := hl
  exact .empty rfl

/-- Over every sequence of fetches the instructions put out are the parse of the half words from
the start on, and what is kept is the half instruction at their end. -/
theorem realign_stream (mem : BitVec 64 → BitVec 16) (x : FetchRegs × FetchLog)
    (hr : fetches.Reachable (Consecutive mem) x) :
    (x.2.emitted ++ x.1.emits).map significant =
        (parse short none (halves mem x.2.start x.2.returned)).map Item.instr ∧
      (∀ i, i.killS2 = false → (x.1.step i).realign.pending = rest short none (halves mem x.2.start x.2.returned)) ∧
      (∀ i, i.killS2 = true → (x.1.step i).realign.pending = none) ∧
      (parse short none (halves mem x.2.start x.2.returned)).flatMap Item.units ++
          (rest short none (halves mem x.2.start x.2.returned)).toList = halves mem x.2.start x.2.returned := by
  obtain ⟨he, hp⟩ := (parsed_of_reachable hr).take
  refine ⟨he, fun i hi => ?_, fun i hi => ?_, units_parse _⟩
  · rw [← hp, FetchRegs.step, hi]
  · rw [FetchRegs.step, hi]
    exact pending_flush

/-- A memory with an instruction across two words and compressed ones. -/
def straddling (a : BitVec 64) : BitVec 16 := if a = 0x1002 then 0x0013 else if a = 0x1004 then 0x1234 else 0x0001

theorem realign_stream_straddling :
    let x := fetches.run (FetchRegs.reset, .empty) [⟨false, true, 0x1002, wordAt straddling 0x1002⟩,
      ⟨false, false, 0, 0⟩, ⟨false, true, 0x1004, wordAt straddling 0x1004⟩]
    (x.2.emitted ++ x.1.emits).map significant = [(0x1002, 0x12340013), (0x1006, 0x00000001)] := by
  refine (realign_stream straddling _ ?_).1.trans (by decide +kernel)
  refine .step _ (.step _ (.step _ (.init ⟨rfl, rfl⟩) ?_) ?_) ?_
  · exact ⟨by decide, fun _ => rfl, fun _ _ => by decide, fun _ h => absurd rfl h⟩
  · exact ⟨by decide, by decide, by decide, by decide⟩
  · exact ⟨by decide, fun _ => rfl, fun _ h => absurd h (by decide), fun _ _ => by decide⟩

end Culsans.Frontend
