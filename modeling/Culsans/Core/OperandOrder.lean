import Culsans.Core.IssueReadOperands

/-! # Operands in program order

The entries of the scoreboard are the instructions in flight: an entry tells its result once
it is valid, unless the commit stage is going to write something else. An instruction is
issued with what the entries before it tell, and so with what they have written when it is
committed.
-/

namespace Culsans.Core
open Library

variable {b p : ℕ}

/-! ### Entries -/

@[simp] theorem regAddr_setWidth (r : BitVec 5) : regAddr (r.setWidth 6) = r := by
  simp [regAddr]

/-- No name bit is set. -/
def Plain (r : BitVec 6) : Prop := r = (regAddr r).setWidth 6

theorem Plain.eq {r r' : BitVec 6} (h : Plain r) (h' : Plain r') (he : regAddr r = regAddr r') : r = r' := by
  rw [h, h', he]

theorem plain_setWidth (r : BitVec 5) : Plain (r.setWidth 6) := by
  rw [Plain, regAddr_setWidth]

/-- What an instruction in the scoreboard keeps from its issue on. -/
structure SbMem.Entry (m : SbMem b) : Prop where
  flag : m.isRdFprFlag = m.sbe.op.rdFpr
  rd : Plain m.sbe.rd
  csr : m.sbe.fu = .csr → m.sbe.op.rdFpr = false
  amo : m.sbe.op.kind = .amo → m.sbe.fu = .store ∧ m.sbe.op.rdFpr = false
  quiet : m.sbe.ex.valid = false → m.sbe.op.kind ≠ .other ∨ m.sbe.fu = .store → m.sbe.op.kind ≠ .amo → m.sbe.dest = none
  none : m.sbe.fu = .none → m.sbe.dest = none
  noOffload : m.sbe.fu ≠ .cvxif

/-- An entry and the same entry after write-backs. -/
structure SbMem.Advances (m m' : SbMem b) : Prop where
  flag : m'.isRdFprFlag = m.isRdFprFlag
  fu : m'.sbe.fu = m.sbe.fu
  op : m'.sbe.op = m.sbe.op
  rd : m'.sbe.rd = m.sbe.rd
  result : m.sbe.valid = true → m'.sbe.valid = true ∧ m'.sbe.result = m.sbe.result ∧ m'.sbe.ex = m.sbe.ex
  ex : m'.sbe.ex.valid = false → m.sbe.ex.valid = false

namespace SbMem
variable {m m' old : SbMem b} {t : BitVec 64} {w : WbPort b} {x : Bool}

theorem Advances.dest (h : m.Advances m') : m'.sbe.dest = m.sbe.dest := by
  rw [SbEntry.dest, SbEntry.dest, h.op, h.rd]

theorem Advances.entry (h : m.Advances m') (he : m.Entry) : m'.Entry where
  flag := by rw [h.flag, h.op, he.flag]
  rd := by
    rw [h.rd]
    exact he.rd
  csr := by
    rw [h.fu, h.op]
    exact he.csr
  amo := by
    rw [h.fu, h.op]
    exact he.amo
  none := by
    rw [h.fu, h.dest]
    exact he.none
  quiet hex := by
    rw [h.fu, h.op, h.dest]
    exact he.quiet (h.ex hex)
  noOffload := by
    rw [h.fu]
    exact he.noOffload

theorem Advances.refl (m : SbMem b) : m.Advances m :=
  ⟨rfl, rfl, rfl, rfl, fun hv => ⟨hv, rfl, rfl⟩, fun he => he⟩

theorem Advances.setValid (m : SbMem b) : m.Advances m.setValid :=
  ⟨rfl, rfl, rfl, rfl, fun _ => ⟨rfl, rfl, rfl⟩, fun he => he⟩

/-- A result is written where none was valid. -/
theorem Advances.writeResult (h : m.Advances m') (hv : m.sbe.valid = false) (hf : m.sbe.fu ≠ .cvxif) :
    m.Advances (m'.writeResult old t w x) where
  flag := h.flag
  fu := h.fu
  op := h.op
  rd := (if_neg fun h' => hf (h.fu ▸ h'.1)).trans h.rd
  result h' := by
    rw [hv] at h'
    cases h'
  ex := by
    simp only [SbMem.writeResult]
    split_ifs with hw
    · intro h'
      rw [hw] at h'
      cases h'
    · exact h.ex
    · exact h.ex

end SbMem

namespace Scoreboard
variable {q : Scoreboard b} {i : SbIn b p} {j : BitVec (b + 1)}

/-- A slot that no port addresses is left as it is. -/
theorem memWb_of_ne (h : ∀ k, (i.wb k).wtValid = true → (i.wb k).transId ≠ j) : q.memWb i j = q.memNone i j := by
  refine foldl_writeBack_of_ne _ _ _ (.inr fun w hw => ?_)
  obtain ⟨k, -, rfl⟩ := List.mem_map.mp hw
  exact h k

/-- The only port that addresses a slot writes its result. -/
theorem memWb_of_port (hd : ∀ k l, (i.wb k).wtValid = true → (i.wb l).wtValid = true →
      (i.wb k).transId = (i.wb l).transId → k = l) {k : Fin p} (hv : (i.wb k).wtValid = true)
    (hi : (q.mem (i.wb k).transId).issued = true) : q.memWb i (i.wb k).transId =
      (q.memNone i (i.wb k).transId).writeResult (q.mem (i.wb k).transId) i.targetAddress (i.wb k) i.xWe := by
  obtain ⟨l, l', hl⟩ := List.append_of_mem (List.mem_finRange k)
  have hnd := List.nodup_finRange p
  rw [hl, List.nodup_append, List.nodup_cons] at hnd
  have hother {s : List (Fin p)} (hs : k ∉ s) (m : BitVec (b + 1) → SbMem b) :
      (s.map i.wb).foldl (q.writeBack i) m (i.wb k).transId = m (i.wb k).transId := by
    refine foldl_writeBack_of_ne _ _ _ (.inr fun w hw hwv he => ?_)
    obtain ⟨n, hn, rfl⟩ := List.mem_map.mp hw
    exact hs (hd n k hwv hv he ▸ hn)
  have hleft : k ∉ l := fun h => hnd.2.2 k h k (List.mem_cons_self ..) rfl
  rw [memWb, hl, List.map_append, List.map_cons, List.foldl_append, List.foldl_cons, hother hnd.2.1.1, writeBack,
    hv, hi, Bool.and_self, if_pos rfl, Function.update_self, hother hleft]

/-- What the write-back ports are promised to address. -/
structure WbOk (q : Scoreboard b) (i : SbIn b p) : Prop where
  writeBack : ∀ k, (i.wb k).wtValid = true →
    (q.mem (i.wb k).transId).issued = true ∧ (q.mem (i.wb k).transId).sbe.valid = false
  distinct : ∀ k l, (i.wb k).wtValid = true → (i.wb l).wtValid = true → (i.wb k).transId = (i.wb l).transId → k = l

theorem memNone_advances (hj : ¬(q.issueEn i = true ∧ j = q.issuePointer)) : (q.mem j).Advances (q.memNone i j) := by
  rw [memNone, memIssue_eq, if_neg hj]
  split_ifs
  · exact .setValid _
  · exact .refl _

/-- The instructions in the scoreboard stay what they are; results are written once. -/
theorem memWb_advances (hw : q.WbOk i) (hj : ¬(q.issueEn i = true ∧ j = q.issuePointer)) (he : (q.mem j).Entry) :
    (q.mem j).Advances (q.memWb i j) := by
  by_cases hk : ∃ k, (i.wb k).wtValid = true ∧ (i.wb k).transId = j
  · obtain ⟨k, hv, rfl⟩ := hk
    obtain ⟨hi, hnv⟩ := hw.writeBack k hv
    rw [memWb_of_port hw.distinct hv hi]
    exact (memNone_advances hj).writeResult hnv he.noOffload
  · rw [memWb_of_ne fun k hv ht => hk ⟨k, hv, ht⟩]
    exact memNone_advances hj

theorem step_mem (hf : i.flush = false) (hr : ¬ q.Retired i j) : (q.step i).mem j = q.memWb i j := by
  change q.memN i j = _
  rw [memN, hf, if_neg Bool.false_ne_true, (memCommit_eq j).2 hr]

/-- The slot of the new instruction holds what was decoded. -/
theorem step_issued (hw : q.WbOk i) (hf : i.flush = false) (he : q.issueEn i = true) (hr : ¬ q.Retired i q.issuePointer)
    (hn : (q.mem q.issuePointer).issued = false) :
    (q.step i).mem q.issuePointer = ⟨true, i.decodedInstr.op.rdFpr, i.decodedInstr⟩ := by
  have hwb (k : Fin p) (hv : (i.wb k).wtValid = true) : (i.wb k).transId ≠ q.issuePointer := by
    intro ht
    have hi := (hw.writeBack k hv).1
    rw [ht, hn] at hi
    cases hi
  have hnone : ¬((q.mem q.issuePointer).sbe.fu = .none ∧ (q.mem q.issuePointer).issued = true) := by
    rintro ⟨-, hi⟩
    rw [hn] at hi
    cases hi
  rw [step_mem hf hr, memWb_of_ne hwb, memNone, if_neg hnone, memIssue_eq, if_pos ⟨he, rfl⟩]

/-! ### Clobbered and forwarded registers -/

variable {m : SbMem b} {fpr : Bool} {r : BitVec 6}

theorem regAddr_eq_zero (hr : Plain r) : regAddr r = 0 ↔ r = 0 := by
  constructor
  · intro h
    rw [hr, h]
    rfl
  · rintro rfl
    rfl

/-- The register of a read port, unless it is `x0`. -/
theorem dest_iff (he : m.Entry) (hr : Plain r) : m.sbe.dest = some (regOf fpr r) ↔
    m.isRdFprFlag = fpr ∧ m.sbe.rd = r ∧ (fpr = true ∨ r ≠ 0) := by
  have haddr : regAddr m.sbe.rd = regAddr r ↔ m.sbe.rd = r :=
    ⟨fun h => he.rd.eq hr h, fun h => congrArg regAddr h⟩
  rw [SbEntry.dest, ← he.flag]
  cases m.isRdFprFlag <;> cases fpr
  · simp only [Bool.false_eq_true, if_false, regOf, false_or, true_and]
    split_ifs with h0
    · rw [false_iff]
      rintro ⟨hrd, hne⟩
      exact hne ((regAddr_eq_zero hr).mp (hrd ▸ h0))
    · rw [Option.some.injEq, Reg.x.injEq, haddr]
      refine ⟨fun h => ⟨h, fun hz => h0 ?_⟩, fun h => h.1⟩
      rw [h, hz]
      rfl
  · simp only [Bool.false_eq_true, if_false, regOf, if_true, false_and, iff_false]
    split_ifs <;> simp
  · simp [regOf]
  · simp [regOf, haddr]

/-- What clobbers a register is the unit of an instruction that is going to write it. -/
theorem exists_of_dest (hent : ∀ k, (q.mem k).issued = true → (q.mem k).Entry) (hr : Plain r)
    (hi : (q.mem j).issued = true) (hd : (q.mem j).sbe.dest = some (regOf fpr r)) :
    ∃ k, (q.mem k).issued = true ∧ (q.mem k).sbe.dest = some (regOf fpr r) ∧ q.rdClobber fpr r = (q.mem k).sbe.fu := by
  obtain ⟨hflag, hrd, h0⟩ := (dest_iff (hent j hi) hr).mp hd
  have hz : (!fpr && r == 0) = false := by
    rcases h0 with rfl | h
    · rfl
    · rw [beq_eq_false_iff_ne.mpr h, Bool.and_false]
  have hreq : q.clobberVld fpr r j.toNat = true := by
    simp only [clobberVld, hz, BitVec.ofNat_toNat, BitVec.setWidth_eq, hi, hflag, hrd, j.isLt, Bool.false_eq_true,
      if_false, if_true, beq_self_eq_true, Bool.and_self]
  have htwo : 1 < 2 ^ (b + 1) := Nat.one_lt_two_pow (Nat.succ_ne_zero b)
  have hp : Picks (q.clobberVld fpr r) q.clobberFu 0 (2 ^ (b + 1) + 1)
      (RrArbTree.root (2 ^ (b + 1) + 1) (q.clobberVld fpr r) q.clobberFu .none) := RrArbTree.root_picks (by omega)
  have hsome : (RrArbTree.root (2 ^ (b + 1) + 1) (q.clobberVld fpr r) q.clobberFu .none).1 = true := by
    by_contra hno
    have hfalse := hp.none (by simpa using hno) j.toNat (Nat.zero_le _) (by have := j.isLt; omega)
    rw [hreq] at hfalse
    cases hfalse
  obtain ⟨n, -, -, hn, hfu, hbefore⟩ := hp.some hsome
  have hle : n ≤ j.toNat := by
    by_contra hlt
    have hfalse := hbefore j.toNat (Nat.zero_le _) (by omega)
    rw [hreq] at hfalse
    cases hfalse
  have hlt : n < 2 ^ (b + 1) := hle.trans_lt j.isLt
  simp only [clobberVld, hz, Bool.false_eq_true, if_false, hlt, if_true, Bool.and_eq_true, beq_iff_eq] at hn
  obtain ⟨⟨hi', hflag'⟩, hrd'⟩ := hn
  refine ⟨BitVec.ofNat _ n, hi', (dest_iff (hent _ hi') hr).mpr ⟨hflag', hrd', h0⟩, ?_⟩
  rw [rdClobber, hfu, clobberFu, if_pos hlt]

/-- No instruction is going to write a register that is not clobbered. -/
theorem not_dest_of_clobber (hent : ∀ k, (q.mem k).issued = true → (q.mem k).Entry) (hr : Plain r)
    (hc : q.rdClobber fpr r = .none) (hi : (q.mem j).issued = true) : (q.mem j).sbe.dest ≠ some (regOf fpr r) := by
  intro hd
  obtain ⟨k, hk, hdk, hfu⟩ := exists_of_dest hent hr hi hd
  rw [(hent k hk).none (hfu.symm.trans hc)] at hdk
  cases hdk

/-- The result of slot `t` is `v`, or is just being written back. -/
def Tells (q : Scoreboard b) (wb : Fin p → WbPort b) (t : BitVec (b + 1)) (v : BitVec 64) : Prop :=
  (∃ k, (wb k).wtValid = true ∧ (wb k).ex.valid = false ∧ (wb k).transId = t ∧ (wb k).data = v) ∨
    (q.mem t).sbe.valid = true ∧ (q.mem t).sbe.result = v

/-- What is forwarded is the result of an instruction that is going to write the register. -/
theorem exists_of_forward {wb : Fin p → WbPort b} (hent : ∀ k, (q.mem k).issued = true → (q.mem k).Entry)
    (hwb : ∀ k, (wb k).wtValid = true → (q.mem (wb k).transId).issued = true) (hr : Plain r) (h0 : fpr = true ∨ r ≠ 0)
    (hf : (q.forward wb fpr r).1 = true) : ∃ t, (q.mem t).issued = true ∧ (q.mem t).sbe.dest = some (regOf fpr r) ∧
      q.Tells wb t (q.forward wb fpr r).2 := by
  have htwo : 1 < 2 ^ (b + 1) := Nat.one_lt_two_pow (Nat.succ_ne_zero b)
  have hp : Picks (q.fwdReq wb fpr r) (q.rsData wb) 0 (2 ^ (b + 1) + p) (q.forward wb fpr r) :=
    RrArbTree.root_picks (by omega)
  obtain ⟨n, -, -, hn, hv, -⟩ := hp.some hf
  by_cases hlt : n < p
  · simp only [fwdReq, hlt, dif_pos, Bool.and_eq_true, beq_iff_eq, Bool.not_eq_true'] at hn
    obtain ⟨⟨⟨hrd, hw⟩, hex⟩, hflag⟩ := hn
    have hi := hwb _ hw
    refine ⟨_, hi, (dest_iff (hent _ hi) hr).mpr ⟨hflag, hrd, h0⟩, .inl ⟨_, hw, hex, rfl, ?_⟩⟩
    rw [hv, rsData, dif_pos hlt]
  · simp only [fwdReq, hlt, dif_neg, not_false_eq_true, Bool.and_eq_true, beq_iff_eq] at hn
    obtain ⟨⟨⟨hrd, hi⟩, hvalid⟩, hflag⟩ := hn
    refine ⟨_, hi, (dest_iff (hent _ hi) hr).mpr ⟨hflag, hrd, h0⟩, .inr ⟨hvalid, ?_⟩⟩
    rw [hv, rsData, dif_neg hlt]

end Scoreboard

/-! ### The commit ports -/

namespace CommitIn
variable {c : CommitIn b} {k : Fin 2}

/-- An instruction that writes a register waits on the first port for the stores, its write enable already set. -/
def Held (c : CommitIn b) : Prop :=
  let e := c.commitInstr 0
  c.ready = true ∧ c.isAmo = false ∧ e.dest ≠ none ∧ (e.fu = .store ∧ c.commitLsuReady = false ∨
    (e.op.kind ≠ .other ∨ c.flushDcache = true ∧ e.fu ≠ .store) ∧ c.noStPending = false)

/-- CSR instructions and AMOs are what the decoder makes them. -/
structure Fits (c : CommitIn b) : Prop where
  csr : ∀ k, (c.commitInstr k).valid = true → (c.commitInstr k).fu = .csr → (c.commitInstr k).op.rdFpr = false
  amo : ∀ k, (c.commitInstr k).valid = true → (c.commitInstr k).op.kind = .amo →
    (c.commitInstr k).fu = .store ∧ (c.commitInstr k).op.rdFpr = false

theorem valid_of_ready (h : c.ready = true) : (c.commitInstr 0).valid = true ∧ (c.commitInstr 0).ex.valid = false := by
  simp only [ready, Bool.and_eq_true, Bool.not_eq_true'] at h
  exact h.1

/-- What writes a register is acknowledged, unless it is held. -/
theorem ack_of_ready (hr : c.ready = true) (ha : c.isAmo = false) (hd : (c.commitInstr 0).dest ≠ none)
    (hc : ¬((c.commitInstr 0).fu = .csr ∧ c.csrExceptionValid = true)) (hh : ¬ c.Held) : c.commitAck0 = true := by
  have hwait : ¬((c.commitInstr 0).fu = .store ∧ c.commitLsuReady = false ∨
      ((c.commitInstr 0).op.kind ≠ .other ∨ c.flushDcache = true ∧ (c.commitInstr 0).fu ≠ .store) ∧
        c.noStPending = false) :=
    fun h => hh ⟨hr, ha, hd, h⟩
  rw [not_or, not_and, not_and, Bool.not_eq_false, Bool.not_eq_false] at hwait
  obtain ⟨hst, hdrain⟩ := hwait
  cases hn : c.noStPending with
  | true =>
    by_cases hcsr : (c.commitInstr 0).fu = .csr
    · have hexc : c.csrExceptionValid = false := by simpa [hcsr] using hc
      simp [commitAck0, hr, ha, hn, hcsr, hexc]
    · by_cases hs : (c.commitInstr 0).fu = .store
      · simp [commitAck0, hr, ha, hn, hs, hst hs]
      · simp [commitAck0, hr, ha, hn, hs, hcsr]
  | false =>
    have hno : (c.commitInstr 0).op.kind = .other := by
      by_contra hk
      rw [hdrain (.inl hk)] at hn
      cases hn
    have hfl : ¬(c.flushDcache = true ∧ (c.commitInstr 0).fu ≠ .store) := by
      intro h
      rw [hdrain (.inr h)] at hn
      cases hn
    by_cases hs : (c.commitInstr 0).fu = .store
    · simp [commitAck0, hr, ha, hno, hs, hst hs]
    · have hf : c.flushDcache = false := by simpa [hs] using hfl
      by_cases hcsr : (c.commitInstr 0).fu = .csr
      · have hexc : c.csrExceptionValid = false := by simpa [hcsr] using hc
        simp [commitAck0, hr, ha, hno, hf, hcsr, hexc]
      · simp [commitAck0, hr, ha, hno, hs, hf, hcsr]

theorem isAmo_eq_false : c.isAmo = false ↔ (c.commitInstr 0).op.kind ≠ .amo := by
  rw [isAmo, beq_eq_false_iff_ne]

theorem ready_of_ack (h : c.commitAck 0 = true) : c.ready = true := by
  by_contra hr
  simp [commitAck, commitAck0, hr] at h

theorem ack_amo (h : c.ready = true) (ha : c.isAmo = true) : c.commitAck 0 = c.amoAck := by
  simp [commitAck, commitAck0, h, ha]

/-- The second port commits with the first one, and not behind an AMO. -/
theorem second_port (h : c.commitAck 1 = true) : c.commitAck 0 = true ∧ c.isAmo = false ∧
    (c.commitInstr 1).ex.valid = false ∧ (c.commitInstr 1).fu ≠ .store := by
  have hfirst := c.commitAck_first h
  simp only [commitAck, commitAck1, Bool.and_eq_true, Bool.not_eq_true', Bool.or_eq_true, beq_iff_eq] at h
  refine ⟨hfirst, h.1.1.1.1.2, h.1.2, fun hs => ?_⟩
  rw [hs] at h
  simp at h

/-- The write enables of a port that is ready. -/
theorem weGpr_zero (h : c.ready = true) : c.weGpr 0 = if c.isAmo then c.amoAck else
    !(c.commitInstr 0).op.rdFpr && !((c.commitInstr 0).fu == .csr && c.csrExceptionValid) := by
  simp only [weGpr, h, if_true]
  cases c.isAmo <;> cases (c.commitInstr 0).fu == .csr && c.csrExceptionValid <;> simp

theorem ready_of_we (h : c.weGpr 0 = true ∨ c.weFpr 0 = true) : c.ready = true := by
  by_contra hr
  rw [Bool.not_eq_true] at hr
  simp [weGpr, weFpr, hr] at h

/-- A port writes one register file. -/
theorem weGpr_of_weFpr (hfit : c.Fits) (h : c.weFpr k = true) : c.weGpr k = false := by
  match k, h with
  | 0, h =>
    have hr := ready_of_we (.inr h)
    have hf : (c.commitInstr 0).op.rdFpr = true := by simpa [weFpr, hr] using h
    have ha : c.isAmo = false := by
      by_contra ha
      have hk : (c.commitInstr 0).op.kind = .amo := by simpa [isAmo] using ha
      rw [(hfit.amo 0 (valid_of_ready hr).1 hk).2] at hf
      cases hf
    rw [weGpr_zero hr, ha, hf]
    rfl
  | 1, h =>
    simp only [weFpr, Bool.and_eq_true] at h
    simp [weGpr, h.2]

/-- What is not acknowledged writes nothing. -/
theorem written_of_not_ack (hfit : c.Fits) (hh : ¬ c.Held) (hk : c.commitAck k = false) : c.written k = none := by
  match k, hk with
  | 0, hk =>
    by_contra hw
    have hwe : c.weGpr 0 = true ∨ c.weFpr 0 = true := by
      by_contra hno
      rw [not_or, Bool.not_eq_true, Bool.not_eq_true] at hno
      exact hw (by simp [written, hno])
    have hr := ready_of_we hwe
    have hvalid := (valid_of_ready hr).1
    cases ha : c.isAmo with
    | true =>
      have hrd := (hfit.amo 0 hvalid (by simpa [isAmo] using ha)).2
      rw [ack_amo hr ha] at hk
      exact hw (by simp [written, weFpr, hrd, weGpr_zero hr, ha, hk])
    | false =>
      have hack : c.commitAck 0 = true := by
        refine ack_of_ready hr ha (fun hd => hw ?_) (fun hc => ?_) hh
        · rw [SbEntry.dest] at hd
          split_ifs at hd with hf h0
          have hf' : (c.commitInstr 0).op.rdFpr = false := by simpa using hf
          simp [written, weFpr, hf', waddr, h0]
        · have hrd := hfit.csr 0 hvalid hc.1
          exact hw (by simp [written, weFpr, hrd, weGpr_zero hr, ha, hc.1, hc.2])
      rw [hack] at hk
      cases hk
  | 1, hk =>
    change c.commitAck1 = false at hk
    simp [written, weFpr, weGpr, hk]

/-- A committed instruction writes its destination, or nothing if it is a CSR instruction. -/
theorem written_of_ack (hfit : c.Fits) (hk : c.commitAck k = true) :
    c.written k = (c.commitInstr k).dest ∨ c.written k = none ∧ (c.commitInstr k).fu = .csr := by
  match k, hk with
  | 0, hk =>
    have hr := ready_of_ack hk
    have hvalid := (valid_of_ready hr).1
    cases ha : c.isAmo with
    | true =>
      have hrd := (hfit.amo 0 hvalid (by simpa [isAmo] using ha)).2
      rw [ack_amo hr ha] at hk
      refine .inl ?_
      simp only [written, weFpr, hr, hrd, weGpr_zero hr, ha, hk, SbEntry.dest, waddr]
      split_ifs <;> simp_all
    | false =>
      cases hrd : (c.commitInstr 0).op.rdFpr with
      | true =>
        refine .inl ?_
        simp [written, weFpr, hr, hrd, SbEntry.dest, waddr]
      | false =>
        by_cases hc : (c.commitInstr 0).fu = .csr ∧ c.csrExceptionValid = true
        · exact .inr ⟨by simp [written, weFpr, hrd, weGpr_zero hr, ha, hc.1, hc.2], hc.1⟩
        · have hexc : ((c.commitInstr 0).fu == .csr && c.csrExceptionValid) = false := by simpa using hc
          have hwe : c.weGpr 0 = true := by
            rw [weGpr_zero hr, ha, hrd, hexc]
            rfl
          refine .inl ?_
          simp only [written, weFpr, hrd, hwe, SbEntry.dest, waddr]
          split_ifs <;> simp_all
  | 1, hk =>
    change c.commitAck1 = true at hk
    refine .inl ?_
    cases hrd : (c.commitInstr 1).op.rdFpr
    · simp only [written, weFpr, weGpr, hk, hrd, SbEntry.dest, waddr]
      split_ifs <;> simp_all
    · simp [written, weFpr, hk, hrd, SbEntry.dest, waddr]

end CommitIn

/-! ### The invariant -/

namespace IssueStage
variable {s : IssueStage b} {g : OperandLog b} {i : IssueIn b p} {regs : Reg → BitVec 64}

/-- An entry of the scoreboard with the operands it was issued with. -/
def inFlight (m : SbMem b) (o : List (Reg × BitVec 64)) : InFlight Reg (BitVec 64) where
  dest := m.sbe.dest
  value := if m.sbe.valid && !(m.sbe.fu == .csr) && !(m.sbe.op.kind == .amo) then some m.sbe.result else none
  operands := o
  lasting := !m.sbe.ex.valid && !(m.sbe.op.kind == .amo)

theorem settles_of_advances {m m' : SbMem b} (h : m.Advances m') (o : List (Reg × BitVec 64)) :
    Settles (inFlight m o) (inFlight m' o) where
  dest := h.dest
  operands := rfl
  value v hv := by
    simp only [inFlight] at hv ⊢
    rw [h.fu, h.op]
    split_ifs at hv with hval
    simp only [Bool.and_eq_true] at hval
    obtain ⟨hvalid, hresult, -⟩ := h.result hval.1.1
    rw [hvalid, hresult, Bool.true_and, if_pos (by rw [hval.1.2, hval.2]; rfl)]
    exact hv
  lasting hl := by
    simp only [inFlight, Bool.and_eq_true, Bool.not_eq_true'] at hl ⊢
    exact ⟨h.ex hl.1, h.op ▸ hl.2⟩

structure Inv (regs : Reg → BitVec 64) (s : IssueStage b) (g : OperandLog b) : Prop where
  sb : s.sb.Inv
  entry : ∀ j, (s.sb.mem j).issued = true → (s.sb.mem j).Entry
  /-- two instructions that have not failed write different registers -/
  unique : ∀ j k, (s.sb.mem j).issued = true → (s.sb.mem k).issued = true → (s.sb.mem j).sbe.ex.valid = false →
    (s.sb.mem k).sbe.ex.valid = false → (s.sb.mem j).sbe.dest = (s.sb.mem k).sbe.dest →
      (s.sb.mem j).sbe.dest ≠ none → j = k
  zero : s.gpr 0 = 0
  read : ∀ r, s.read r = lastWrite regs g.done r
  order : InOrder regs g.done
  captured : Captured (fun r => some (lastWrite regs g.done r))
    (s.sb.queue.map fun j => inFlight (s.sb.mem j) (g.operands j))

/-- The commit stage and the issue stage keep the promises of the scoreboard. -/
theorem sbOk (s : IssueStage b) (i : IssueIn b p) : s.sb.Ok (s.sbIn i) where
  valid := (s.commitIn i).commitAck_valid
  first := (s.commitIn i).commitAck_first
  issue h := by
    change s.issueAck i = true at h
    simp only [issueAck] at h
    split_ifs at h
    rw [Bool.and_eq_true] at h
    have hv := h.1
    simp only [issueInstrValid, Bool.and_eq_true] at hv
    simp [Scoreboard.issueInstrValid, sbIn, hv.1, hv.2]

theorem Ok.wbOk (h : s.Ok i) : s.sb.WbOk (s.sbIn i) := ⟨h.writeBack, h.distinct⟩

theorem Inv.fits (h : Inv regs s g) (i : IssueIn b p) : (s.commitIn i).Fits where
  csr _ hv := (h.entry _ (h.sb.valid _ hv)).csr
  amo _ hv := (h.entry _ (h.sb.valid _ hv)).amo

/-! ### Leaving the queue -/

/-- What leaves through a port. -/
def leaving (g : OperandLog b) (s : IssueStage b) (i : IssueIn b p) (k : Fin 2) : Committed Reg (BitVec 64) :=
  ⟨g.operands (s.sb.commitPointer k), (s.commitIn i).written k, s.wdata i k⟩

theorem watch_done : (watch g s i).done = g.done ++ (Scoreboard.acks (s.sbIn i)).map (leaving g s i) := rfl

/-- The slots that are not committed. -/
def rest (s : IssueStage b) (i : IssueIn b p) : List (BitVec (b + 1)) :=
  slots (s.sb.commitPointer 0 + BitVec.ofNat (b + 1) (Scoreboard.commits (s.sbIn i)))
    (s.sb.issueCnt.toNat - Scoreboard.commits (s.sbIn i))

theorem queue_eq (h : s.sb.Inv) : s.sb.queue = (Scoreboard.acks (s.sbIn i)).map s.sb.commitPointer ++ s.rest i := by
  rw [Scoreboard.acks_map (sbOk s i) h]
  exact slots_drop (Scoreboard.commits_le (sbOk s i) h)

theorem staying_eq (h : s.sb.Inv) : s.sb.staying (s.sbIn i) =
    s.rest i ++ if s.sb.issueEn (s.sbIn i) then [s.sb.issuePointer] else [] := by
  have hsplit := Scoreboard.queue_split (sbOk s i) h
  rw [queue_eq (i := i) h, Scoreboard.acks_map (sbOk s i) h, List.append_assoc] at hsplit
  exact (List.append_cancel_left hsplit).symm

/-- No instruction in the queue is in the slot that is issued to. -/
theorem not_issued_to (h : s.sb.Inv) {j : BitVec (b + 1)} (hj : (s.sb.mem j).issued = true) :
    ¬(s.sb.issueEn (s.sbIn i) = true ∧ j = s.sb.issuePointer) := by
  rintro ⟨he, hp⟩
  have hnd := Scoreboard.nodup_issued (i := s.sbIn i) h
  rw [he, if_pos rfl, List.nodup_append] at hnd
  exact hnd.2.2 j ((h.issued j).mp hj) _ (List.mem_singleton_self _) hp

theorem Inv.advances (h : Inv regs s g) (hok : s.Ok i) {j : BitVec (b + 1)} (hj : (s.sb.mem j).issued = true) :
    (s.sb.mem j).Advances (s.sb.memWb (s.sbIn i) j) :=
  Scoreboard.memWb_advances hok.wbOk (not_issued_to h.sb hj) (h.entry j hj)

/-- The queue with the results of this cycle. -/
def settled (g : OperandLog b) (s : IssueStage b) (i : IssueIn b p) (l : List (BitVec (b + 1))) :
    List (InFlight Reg (BitVec 64)) :=
  l.map fun j => inFlight (s.sb.memWb (s.sbIn i) j) (g.operands j)

theorem captured_settled (h : Inv regs s g) (hok : s.Ok i) :
    Captured (fun r => some (lastWrite regs g.done r)) (settled g s i s.sb.queue) := by
  refine h.captured.mono (fun _ _ hv => hv) ?_
  rw [settled, List.forall₂_map_left_iff, List.forall₂_map_right_iff, List.forall₂_same]
  intro j hj
  exact settles_of_advances (h.advances hok ((h.sb.issued j).mpr hj)) _

/-- A committed instruction writes what its entry has told. -/
theorem leaves_of_ack (h : Inv regs s g) (hok : s.Ok i) {k : Fin 2} (hk : (s.commitIn i).commitAck k = true) :
    Leaves (inFlight (s.sb.memWb (s.sbIn i) (s.sb.commitPointer k)) (g.operands (s.sb.commitPointer k)))
      (leaving g s i k) := by
  have hvalid : (s.sb.mem (s.sb.commitPointer k)).sbe.valid = true := (sbOk s i).valid k hk
  have hadv := h.advances hok (h.sb.valid _ hvalid)
  have hresult := (hadv.result hvalid).2.1
  refine ⟨?_, rfl, fun v hv => ?_⟩
  · rcases CommitIn.written_of_ack (h.fits i) hk with hw | ⟨hw, hcsr⟩
    · exact .inl (hw.trans hadv.dest.symm)
    · refine .inr ⟨hw, ?_⟩
      have hfu : (s.sb.memWb (s.sbIn i) (s.sb.commitPointer k)).sbe.fu = .csr := hadv.fu.trans hcsr
      simp [inFlight, hfu]
  · simp only [inFlight, hadv.fu, hadv.op, hresult] at hv
    split_ifs at hv with hval
    simp only [Bool.and_eq_true, Bool.not_eq_true', beq_eq_false_iff_ne] at hval
    rw [← Option.some.inj hv]
    match k with
    | 0 =>
      have ha : i.amoAck = false := by
        by_contra ha
        have hamo := (hok.amo (by simpa using ha)).2
        have hkind : ((s.commitIn i).commitInstr 0).op.kind = .amo := by simpa [CommitIn.isAmo] using hamo
        exact hval.2 hkind
      have hcsr : ((s.commitIn i).commitInstr 0).fu ≠ .csr := hval.1.2
      simp only [leaving, wdata, CommitIn.wdata]
      rw [if_neg (by simp [hcsr]), if_neg (by simp [commitIn, ha])]
      rfl
    | 1 => rfl

/-- An AMO flushes what is behind it. -/
theorem not_amo_of_ack (hk : (s.commitIn i).commitAck 0 = true) (hf : s.flush i = false) :
    (s.commitIn i).isAmo = false := by
  by_contra ha
  rw [Bool.not_eq_false] at ha
  have hr := CommitIn.ready_of_ack hk
  rw [CommitIn.ack_amo hr ha] at hk
  simp [flush, CommitIn.flushCommit, hr, ha, hk] at hf

theorem lasting_of_ack (h : Inv regs s g) (hok : s.Ok i) {k : Fin 2} (hk : (s.commitIn i).commitAck k = true)
    (hex : (s.sb.mem (s.sb.commitPointer k)).sbe.ex.valid = false)
    (ha : (s.sb.mem (s.sb.commitPointer k)).sbe.op.kind ≠ .amo) (o : List (Reg × BitVec 64)) :
    (inFlight (s.sb.memWb (s.sbIn i) (s.sb.commitPointer k)) o).lasting = true := by
  have hvalid : (s.sb.mem (s.sb.commitPointer k)).sbe.valid = true := (sbOk s i).valid k hk
  have hadv := h.advances hok (h.sb.valid _ hvalid)
  simp only [inFlight, (hadv.result hvalid).2.2, hadv.op, hex, Bool.not_false, Bool.true_and, Bool.not_eq_true',
    beq_eq_false_iff_ne]
  exact ha

/-- What is committed has its operands, and what stays sees what the committed instructions have written. -/
theorem leave_step (h : Inv regs s g) (hok : s.Ok i) : InOrder regs (watch g s i).done ∧ (s.flush i = false →
    Captured (fun r => some (lastWrite regs (watch g s i).done r)) (settled g s i (s.rest i)) ∧
      ∀ r v, (settled g s i s.sb.queue).foldl behind (fun r => some (lastWrite regs g.done r)) r = some v →
        (settled g s i (s.rest i)).foldl behind (fun r => some (lastWrite regs (watch g s i).done r)) r = some v) := by
  have hc := captured_settled h hok
  have hacks : Scoreboard.acks (s.sbIn i) = (if (s.commitIn i).commitAck 0 then [0] else []) ++
      (if (s.commitIn i).commitAck 1 then [1] else []) := Scoreboard.acks_eq _
  rw [queue_eq (i := i) h.sb] at hc ⊢
  rw [watch_done]
  cases h1 : (s.commitIn i).commitAck 1 with
  | false =>
    cases h0 : (s.commitIn i).commitAck 0 with
    | false =>
      rw [h0, h1] at hacks
      simp only [hacks, Bool.false_eq_true, if_false, List.append_nil, List.map_nil, List.nil_append] at hc ⊢
      exact ⟨h.order, fun _ => ⟨hc, fun _ _ hv => hv⟩⟩
    | true =>
      rw [h0, h1] at hacks
      simp only [hacks, Bool.false_eq_true, if_false, if_true, List.append_nil, List.map_cons, List.map_nil,
        List.singleton_append] at hc ⊢
      have hl := leaves_of_ack h hok h0
      have hex := (CommitIn.valid_of_ready (CommitIn.ready_of_ack h0)).2
      obtain ⟨hord, hcap⟩ := hc.leave h.order hl
      refine ⟨hord, fun hf => ⟨hcap ?_, fun r v hv => hl.told v hv⟩⟩
      exact lasting_of_ack h hok h0 hex (CommitIn.isAmo_eq_false.mp (not_amo_of_ack h0 hf)) _
  | true =>
    obtain ⟨h0, ha, hex1, hst⟩ := CommitIn.second_port h1
    rw [h0, h1] at hacks
    simp only [hacks, if_true, List.map_cons, List.map_nil, List.cons_append, List.nil_append] at hc ⊢
    have hl0 := leaves_of_ack h hok h0
    have hl1 := leaves_of_ack h hok h1
    have hex := (CommitIn.valid_of_ready (CommitIn.ready_of_ack h0)).2
    have hamo : (s.sb.mem (s.sb.commitPointer 1)).sbe.op.kind ≠ .amo := by
      intro hk
      exact hst ((h.fits i).amo 1 ((s.commitIn i).commitAck_valid 1 h1) hk).1
    obtain ⟨hord0, hcap0⟩ := hc.leave h.order hl0
    obtain ⟨hord1, hcap1⟩ := (hcap0 (lasting_of_ack h hok h0 hex (CommitIn.isAmo_eq_false.mp ha) _)).leave hord0 hl1
    have hdone : g.done ++ [leaving g s i 0, leaving g s i 1] = (g.done ++ [leaving g s i 0]) ++ [leaving g s i 1] := by
      rw [List.append_assoc]
      rfl
    rw [hdone]
    exact ⟨hord1, fun _ => ⟨hcap1 (lasting_of_ack h hok h1 hex1 hamo _), fun r v hv => hl1.told v (hl0.told v hv)⟩⟩

/-! ### The registers -/

/-- A register holds what was written last. -/
theorem read_step (hfit : (s.commitIn i).Fits) (hz : s.gpr 0 = 0) (r : Reg) : (s.step i).read r =
    if (s.commitIn i).written 1 = some r then s.wdata i 1
    else if (s.commitIn i).written 0 = some r then s.wdata i 0 else s.read r := by
  have hports : List.finRange 2 = [0, 1] := rfl
  cases r with
  | f n =>
    have hw (k : Fin 2) : (s.commitIn i).written k = some (.f n) ↔
        ((s.commitIn i).weFpr k && (s.commitIn i).waddr k == n) = true := by
      rw [CommitIn.written]
      cases (s.commitIn i).weFpr k
      · simp only [Bool.false_eq_true, if_false, Bool.false_and, iff_false]
        split_ifs <;> simp
      · simp
    simp only [hw, read, step, writeRegs, hports, List.foldl_cons, List.foldl_nil, Bool.false_and,
      Bool.false_eq_true, if_false]
  | x n =>
    have hw (hn : n ≠ 0) (k : Fin 2) : (s.commitIn i).written k = some (.x n) ↔
        ((s.commitIn i).weGpr k && (s.commitIn i).waddr k == n) = true := by
      rw [CommitIn.written]
      cases hf : (s.commitIn i).weFpr k with
      | true => simp [CommitIn.weGpr_of_weFpr hfit hf]
      | false =>
        simp only [Bool.false_eq_true, if_false]
        split_ifs with hg
        · simp only [Bool.and_eq_true] at hg
          simp [hg.1]
        · simp only [Bool.and_eq_true, beq_iff_eq, false_iff]
          rintro ⟨hwe, rfl⟩
          rw [hwe, Bool.true_and, bne_iff_ne] at hg
          exact hg hn
    by_cases hn : n = 0
    · subst hn
      have hw0 (k : Fin 2) : (s.commitIn i).written k ≠ some (.x 0) := by
        rw [CommitIn.written]
        split_ifs with h1 h2
        · simp
        · simp only [Bool.and_eq_true, bne_iff_ne] at h2
          simpa using h2.2
        · simp
      rw [if_neg (hw0 1), if_neg (hw0 0)]
      exact hz.symm
    · simp only [hw hn, read, step, writeRegs, hports, List.foldl_cons, List.foldl_nil, beq_eq_false_iff_ne.mpr hn,
        Bool.and_false, Bool.false_eq_true, if_false]

theorem inv_read_step (h : Inv regs s g) (hh : ¬ (s.commitIn i).Held) (r : Reg) :
    (s.step i).read r = lastWrite regs (watch g s i).done r := by
  have hfit := h.fits i
  have hacks : Scoreboard.acks (s.sbIn i) = (if (s.commitIn i).commitAck 0 then [0] else []) ++
      (if (s.commitIn i).commitAck 1 then [1] else []) := Scoreboard.acks_eq _
  rw [read_step hfit h.zero, watch_done, hacks]
  cases h1 : (s.commitIn i).commitAck 1 with
  | false =>
    rw [CommitIn.written_of_not_ack hfit hh h1, if_neg (Option.some_ne_none r).symm]
    cases h0 : (s.commitIn i).commitAck 0 with
    | false =>
      rw [CommitIn.written_of_not_ack hfit hh h0, if_neg (Option.some_ne_none r).symm, h.read]
      simp
    | true =>
      rw [h.read]
      change _ = lastWrite regs (g.done ++ [leaving g s i 0]) r
      rw [lastWrite_concat]
      rfl
  | true =>
    have hdone : g.done ++ [leaving g s i 0, leaving g s i 1] = (g.done ++ [leaving g s i 0]) ++ [leaving g s i 1] := by
      rw [List.append_assoc]
      rfl
    rw [(CommitIn.second_port h1).1, h.read]
    change _ = lastWrite regs (g.done ++ [leaving g s i 0, leaving g s i 1]) r
    rw [hdone, lastWrite_concat, lastWrite_concat]
    rfl

end IssueStage
end Culsans.Core
