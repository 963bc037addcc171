import Culsans.Core.OperandOrder

/-! # Operands over whole runs

What an instruction gets at its issue is what the registers and the instructions in flight tell;
this is kept from the issue to the commit, and so over every run.
-/

namespace Culsans.Core
open Library

namespace IssueStage
variable {b p : ℕ} {s : IssueStage b} {g : OperandLog b} {i : IssueIn b p} {regs : Reg → BitVec 64}

/-! ### What is read at the issue -/

/-- No instruction in flight has failed or is an AMO, which would flush the ones behind it. -/
def AllLasting (s : IssueStage b) : Prop :=
  ∀ j, (s.sb.mem j).issued = true → (s.sb.mem j).sbe.ex.valid = false ∧ (s.sb.mem j).sbe.op.kind ≠ .amo

theorem Inv.unique_lasting (h : Inv regs s g) (hl : s.AllLasting) {j k : BitVec (b + 1)} {r : Reg}
    (hj : (s.sb.mem j).issued = true) (hk : (s.sb.mem k).issued = true) (hdj : (s.sb.mem j).sbe.dest = some r)
    (hdk : (s.sb.mem k).sbe.dest = some r) : j = k :=
  h.unique j k hj hk (hl j hj).1 (hl k hk).1 (hdj.trans hdk.symm) (by rw [hdj]; exact Option.some_ne_none r)

/-- A result that is told in this cycle is in the entry after the write-backs. -/
theorem value_of_tells (h : Inv regs s g) (hok : s.Ok i) {t : BitVec (b + 1)} {v : BitVec 64}
    (ht : (s.sb.mem t).issued = true) (hcsr : (s.sb.mem t).sbe.fu ≠ .csr) (hamo : (s.sb.mem t).sbe.op.kind ≠ .amo)
    (hv : s.sb.Tells i.wb t v) (o : List (Reg × BitVec 64)) :
    (inFlight (s.sb.memWb (s.sbIn i) t) o).value = some v := by
  have hadv := h.advances hok ht
  have hres : (s.sb.memWb (s.sbIn i) t).sbe.valid = true ∧ (s.sb.memWb (s.sbIn i) t).sbe.result = v := by
    rcases hv with ⟨k, hw, -, rfl, rfl⟩ | ⟨hvalid, rfl⟩
    · have hport := Scoreboard.memWb_of_port (q := s.sb) (i := s.sbIn i) hok.distinct hw ht
      exact ⟨congrArg (fun m => m.sbe.valid) hport, congrArg (fun m => m.sbe.result) hport⟩
    · exact ⟨(hadv.result hvalid).1, (hadv.result hvalid).2.1⟩
  have hfu : ((s.sb.memWb (s.sbIn i) t).sbe.fu == .csr) = false := by
    rw [hadv.fu]
    exact beq_eq_false_iff_ne.mpr hcsr
  have hkind : ((s.sb.memWb (s.sbIn i) t).sbe.op.kind == .amo) = false := by
    rw [hadv.op]
    exact beq_eq_false_iff_ne.mpr hamo
  simp only [inFlight, hres.1, hres.2, hfu, hkind, Bool.not_false, Bool.and_self, if_true]

theorem dest_settled (h : Inv regs s g) (hok : s.Ok i) {j : BitVec (b + 1)} (hj : j ∈ s.sb.queue)
    (o : List (Reg × BitVec 64)) : (inFlight (s.sb.memWb (s.sbIn i) j) o).dest = (s.sb.mem j).sbe.dest :=
  (h.advances hok ((h.sb.issued j).mpr hj)).dest

/-- Nothing in flight writes an unclobbered register, so the register file has its value. -/
theorem told_of_free (h : Inv regs s g) (hok : s.Ok i) {fpr : Bool} {r : BitVec 6} (hr : Plain r)
    (hc : s.sb.rdClobber fpr r = .none) :
    (settled g s i s.sb.queue).foldl behind (fun r => some (lastWrite regs g.done r)) (regOf fpr r) =
      some (s.regfile fpr r) := by
  have hread : s.regfile fpr r = s.read (regOf fpr r) := by
    cases fpr <;> rfl
  rw [foldl_behind_of_ne, hread, h.read]
  intro e he
  obtain ⟨j, hj, rfl⟩ := List.mem_map.mp he
  rw [dest_settled h hok hj]
  exact Scoreboard.not_dest_of_clobber h.entry hr hc ((h.sb.issued j).mpr hj)

/-- What is forwarded is what the only instruction with that destination is going to write. -/
theorem told_of_forward (h : Inv regs s g) (hok : s.Ok i) (hl : s.AllLasting) {fpr : Bool} {r : BitVec 6} (hr : Plain r)
    (h0 : fpr = true ∨ r ≠ 0) (hf : (s.sb.forward i.wb fpr r).1 = true)
    (hcsr : fpr = true ∨ s.sb.rdClobber fpr r ≠ .csr) :
    (settled g s i s.sb.queue).foldl behind (fun r => some (lastWrite regs g.done r)) (regOf fpr r) =
      some (s.sb.forward i.wb fpr r).2 := by
  obtain ⟨t, ht, hd, htell⟩ := Scoreboard.exists_of_forward h.entry (fun k hk => (hok.writeBack k hk).1) hr h0 hf
  have hne : (s.sb.mem t).sbe.fu ≠ .csr := by
    intro hfu
    rcases hcsr with rfl | hclob
    · have hrd := (h.entry t ht).csr hfu
      simp only [SbEntry.dest, hrd, regOf, Bool.false_eq_true, if_false, if_true] at hd
      split_ifs at hd
      simp at hd
    · obtain ⟨k, hk, hdk, he⟩ := Scoreboard.exists_of_dest h.entry hr ht hd
      rw [he, h.unique_lasting hl hk ht hdk hd, hfu] at hclob
      exact hclob rfl
  have hval := value_of_tells h hok ht hne (hl t ht).2 htell (g.operands t)
  have hmem : t ∈ s.sb.queue := (h.sb.issued t).mp ht
  rw [settled, foldl_behind_of_dest (List.mem_map_of_mem hmem) ((dest_settled h hok hmem _).trans hd), hval]
  intro x hx hdx
  obtain ⟨j, hj, rfl⟩ := List.mem_map.mp hx
  have hj' := (h.sb.issued j).mpr hj
  rw [dest_settled h hok hj] at hdx
  rw [h.unique_lasting hl hj' ht hdx hd]

/-- An operand is forwarded if anything is going to write its register. -/
theorem told_of_operand (h : Inv regs s g) (hok : s.Ok i) (hl : s.AllLasting) {fpr fwd : Bool} {r : BitVec 6}
    (hr : Plain r) (hfree : fwd = false → s.sb.rdClobber fpr r = .none)
    (hfwd : fwd = true → (s.sb.forward i.wb fpr r).1 = true ∧ (fpr = true ∨ r ≠ 0) ∧
      (fpr = true ∨ s.sb.rdClobber fpr r ≠ .csr)) :
    (settled g s i s.sb.queue).foldl behind (fun r => some (lastWrite regs g.done r)) (regOf fpr r) =
      some (if fwd then (s.sb.forward i.wb fpr r).2 else s.regfile fpr r) := by
  cases fwd with
  | false => exact told_of_free h hok hr (hfree rfl)
  | true =>
    obtain ⟨hf, h0, hcsr⟩ := hfwd rfl
    exact told_of_forward h hok hl hr h0 hf hcsr

theorem mayForward_spec {fpr : Bool} {r : BitVec 6} (h : s.mayForward i fpr r = true)
    (hf : (issueInstr i).isTlbFence = true → fpr = false → s.sb.rdClobber false r ≠ .csr) :
    (s.sb.forward i.wb fpr r).1 = true ∧ (fpr = true ∨ r ≠ 0) ∧ (fpr = true ∨ s.sb.rdClobber fpr r ≠ .csr) := by
  simp only [mayForward, rsValid, Bool.and_eq_true, Bool.or_eq_true, bne_iff_ne] at h
  obtain ⟨⟨hv, h0⟩, hcsr⟩ := h
  refine ⟨hv, h0.symm, ?_⟩
  cases fpr with
  | true => exact .inl rfl
  | false =>
    refine .inr ?_
    rcases hcsr with (hfpr | hne) | hfence
    · cases hfpr
    · exact hne
    · exact hf hfence rfl

theorem plain_rs1 (i : IssueIn b p) : Plain (issueInstr i).rs1 := plain_setWidth _

theorem plain_rs2 (i : IssueIn b p) : Plain (issueInstr i).rs2 := plain_setWidth _

/-- The third register operand is encoded in five bits. -/
theorem plain_rs3 (h : (issueInstr i).immFpr = true) : Plain (issueInstr i).rs3 := by
  have hres : (issueInstr i).sbe.result = (i.decodedInstr.sbe.result.setWidth 5).setWidth 64 := by
    change (if i.decodedInstr.immFpr then _ else _) = _
    exact if_pos h
  rw [IssueInstr.rs3, hres, BitVec.setWidth_setWidth_of_le _ (by decide)]
  exact plain_setWidth _

/-- What is issued to a functional unit has not stalled. -/
theorem not_stall_of_ack (hack : s.issueAck i = true) (hu : (issueInstr i).toUnit = true) : s.stall i = false := by
  simp only [IssueInstr.toUnit, Bool.and_eq_true, Bool.not_eq_true'] at hu
  simp only [issueAck] at hack
  split_ifs at hack
  simp only [hu.1, hu.2, Bool.or_false, Bool.and_eq_true, Bool.not_eq_true'] at hack
  exact hack.2.1.1

theorem told_rs1 (h : Inv regs s g) (hok : s.Ok i) (hl : s.AllLasting) (hstall : s.stall i = false)
    (hfence : s.fenceOverCsr i = false) (hz : ((issueInstr i).useZimm || (issueInstr i).usePc) = false) :
    (settled g s i s.sb.queue).foldl behind (fun r => some (lastWrite regs g.done r))
      (regOf (issueInstr i).rs1Fpr (issueInstr i).rs1) = some (s.operandA i) := by
  simp only [stall, Bool.or_eq_false_iff] at hstall
  rw [Bool.or_eq_false_iff] at hz
  have hop : s.operandA i = if s.forwardRs1 i then (s.sb.forward i.wb (issueInstr i).rs1Fpr (issueInstr i).rs1).2
      else s.regfile (issueInstr i).rs1Fpr (issueInstr i).rs1 := by
    simp only [operandA, hz, Bool.false_eq_true, if_false]
  rw [hop]
  refine told_of_operand h hok hl (plain_rs1 i) (fun hno => ?_) (fun hf => ?_)
  · have hc := hstall.1.1
    simp only [hno, Bool.not_false, Bool.and_true, clobbered1, hz.1, Bool.true_and, bne_eq_false_iff_eq] at hc
    exact hc
  · have hm : s.mayForward i (issueInstr i).rs1Fpr (issueInstr i).rs1 = true := by
      rw [forwardRs1, Bool.and_eq_true] at hf
      exact hf.2
    refine mayForward_spec hm fun hfen hfpr hcsr => ?_
    simp [fenceOverCsr, hfen, hf, hfpr, hcsr] at hfence

theorem told_rs2 (h : Inv regs s g) (hok : s.Ok i) (hl : s.AllLasting) (hstall : s.stall i = false)
    (hfence : s.fenceOverCsr i = false) (hb : (issueInstr i).immB = false) :
    (settled g s i s.sb.queue).foldl behind (fun r => some (lastWrite regs g.done r))
      (regOf (issueInstr i).rs2Fpr (issueInstr i).rs2) = some (s.operandB i) := by
  simp only [stall, Bool.or_eq_false_iff] at hstall
  have hop : s.operandB i = if s.forwardRs2 i then (s.sb.forward i.wb (issueInstr i).rs2Fpr (issueInstr i).rs2).2
      else s.regfile (issueInstr i).rs2Fpr (issueInstr i).rs2 := by
    simp only [operandB, hb, Bool.false_eq_true, if_false]
  rw [hop]
  refine told_of_operand h hok hl (plain_rs2 i) (fun hno => ?_) (fun hf => ?_)
  · have hc := hstall.1.2
    simp only [hno, Bool.not_false, Bool.and_true, clobbered2, bne_eq_false_iff_eq] at hc
    exact hc
  · have hm : s.mayForward i (issueInstr i).rs2Fpr (issueInstr i).rs2 = true := by
      rw [forwardRs2, Bool.and_eq_true] at hf
      exact hf.2
    refine mayForward_spec hm fun hfen hfpr hcsr => ?_
    simp [fenceOverCsr, hfen, hf, hfpr, hcsr] at hfence

theorem told_rs3 (h : Inv regs s g) (hok : s.Ok i) (hl : s.AllLasting) (hstall : s.stall i = false)
    (himm : (issueInstr i).immFpr = true) :
    (settled g s i s.sb.queue).foldl behind (fun r => some (lastWrite regs g.done r))
      (regOf true (issueInstr i).rs3) = some (s.imm i) := by
  simp only [stall, Bool.or_eq_false_iff] at hstall
  have hop : s.imm i = if s.forwardRs3 i then (s.sb.forward i.wb true (issueInstr i).rs3).2
      else s.regfile true (issueInstr i).rs3 := by
    simp only [imm, himm, if_true, regfile]
  rw [hop]
  refine told_of_operand h hok hl (plain_rs3 himm) (fun hno => ?_) (fun hf => ?_)
  · have hc := hstall.2
    simp only [hno, Bool.not_false, Bool.and_true, clobbered3, himm, Bool.true_and, bne_eq_false_iff_eq] at hc
    exact hc
  · rw [forwardRs3, Bool.and_eq_true] at hf
    exact ⟨hf.2, .inl rfl, .inl rfl⟩

/-- Every register operand is what the instructions in front have written or are going to write. -/
theorem told_of_issue (h : Inv regs s g) (hok : s.Ok i) (hl : s.AllLasting) (hack : s.issueAck i = true)
    (hfence : s.fenceOverCsr i = false) (o : Reg × BitVec 64) (ho : o ∈ s.operands i) :
    (settled g s i s.sb.queue).foldl behind (fun r => some (lastWrite regs g.done r)) o.1 = some o.2 := by
  cases hu : (issueInstr i).toUnit with
  | false => simp [operands, hu] at ho
  | true =>
    have hstall := not_stall_of_ack hack hu
    simp only [operands, hu, if_true, List.mem_append] at ho
    rcases ho with (ho | ho) | ho
    · cases hz : (issueInstr i).useZimm || (issueInstr i).usePc with
      | true => simp [hz] at ho
      | false =>
        rw [hz, if_neg Bool.false_ne_true, List.mem_singleton] at ho
        subst ho
        exact told_rs1 h hok hl hstall hfence hz
    · cases hb : (issueInstr i).immB with
      | true => simp [hb] at ho
      | false =>
        rw [hb, if_neg Bool.false_ne_true, List.mem_singleton] at ho
        subst ho
        exact told_rs2 h hok hl hstall hfence hb
    · cases himm : (issueInstr i).immFpr with
      | false => simp [himm] at ho
      | true =>
        rw [himm, if_pos rfl, List.mem_singleton] at ho
        subst ho
        exact told_rs3 h hok hl hstall himm

/-! ### One cycle -/

/-- What is in the scoreboard after a cycle has stayed or was issued. -/
theorem issued_cases (h : s.sb.Inv) {j : BitVec (b + 1)} (hj : ((s.step i).sb.mem j).issued = true) :
    s.flush i = false ∧ ¬ s.sb.Retired (s.sbIn i) j ∧
      (s.sb.issueEn (s.sbIn i) = true ∧ j = s.sb.issuePointer ∧
          (s.sb.mem j).issued = false ∨
        ¬(s.sb.issueEn (s.sbIn i) = true ∧ j = s.sb.issuePointer) ∧ (s.sb.mem j).issued = true) := by
  obtain ⟨hf, hr, hor⟩ := (Scoreboard.memN_issued (i := s.sbIn i) j).mp hj
  refine ⟨hf, hr, ?_⟩
  by_cases hi : (s.sb.mem j).issued = true
  · exact .inr ⟨not_issued_to h hi, hi⟩
  · have hnew := hor.resolve_right hi
    exact .inl ⟨hnew.1, hnew.2, by simpa using hi⟩

/-- The new entry is what was decoded. -/
theorem step_new (hok : s.Ok i) (hf : s.flush i = false) (he : s.sb.issueEn (s.sbIn i) = true)
    (hr : ¬ s.sb.Retired (s.sbIn i) s.sb.issuePointer) (hn : (s.sb.mem s.sb.issuePointer).issued = false) :
    (s.step i).sb.mem s.sb.issuePointer = ⟨true, (issueInstr i).sbe.op.rdFpr, (issueInstr i).sbe⟩ :=
  Scoreboard.step_issued hok.wbOk hf he hr hn

theorem ack_of_issueEn (h : s.sb.issueEn (s.sbIn i) = true) : i.decodedInstrValid = true ∧ s.issueAck i = true := by
  simp only [Scoreboard.issueEn, Scoreboard.decodedInstrAck, Bool.and_eq_true] at h
  exact ⟨h.1.1, h.1.2.1⟩

theorem decoded_reName {e : IssueInstr b} (h : Decoded e) : Decoded e.reName where
  csr := h.csr
  amo := h.amo
  none hfu := by
    have hd := h.none hfu
    simp only [SbEntry.dest, IssueInstr.reName, regAddr_setWidth] at hd ⊢
    exact hd
  quiet hex hq ha := by
    have hd := h.quiet hex hq ha
    simp only [SbEntry.dest, IssueInstr.reName, regAddr_setWidth] at hd ⊢
    exact hd
  noOffload := h.noOffload

theorem entry_of_decoded {e : IssueInstr b} (h : Decoded e) :
    (⟨true, e.reName.sbe.op.rdFpr, e.reName.sbe⟩ : SbMem b).Entry where
  flag := rfl
  rd := plain_setWidth _
  csr := (decoded_reName h).csr
  amo := (decoded_reName h).amo
  none := (decoded_reName h).none
  quiet := (decoded_reName h).quiet
  noOffload := (decoded_reName h).noOffload

theorem entry_step (h : Inv regs s g) (hok : s.Ok i) (j : BitVec (b + 1)) (hj : ((s.step i).sb.mem j).issued = true) :
    ((s.step i).sb.mem j).Entry := by
  obtain ⟨hf, hr, ⟨he, rfl, hn⟩ | ⟨-, hi⟩⟩ := issued_cases h.sb hj
  · rw [step_new hok hf he hr hn]
    exact entry_of_decoded (hok.decoded (ack_of_issueEn he).1)
  · have hmem : (s.step i).sb.mem j = s.sb.memWb (s.sbIn i) j := Scoreboard.step_mem hf hr
    rw [hmem]
    exact (h.advances hok hi).entry (h.entry j hi)

/-- A commit port that writes the destination of the new instruction. -/
theorem written_of_writesRd (hfit : (s.commitIn i).Fits) {k : Fin 2}
    (hdest : (issueInstr i).sbe.dest = some (regOf (issueInstr i).sbe.op.rdFpr (issueInstr i).sbe.rd))
    (hd : (issueInstr i).sbe.dest ≠ none)
    (hwe : (if (issueInstr i).sbe.op.rdFpr then (s.commitIn i).weFpr k else (s.commitIn i).weGpr k) = true)
    (haddr : ((s.commitIn i).waddr k).setWidth 6 = (issueInstr i).sbe.rd) :
    (s.commitIn i).written k = (issueInstr i).sbe.dest := by
  have hreg : regAddr (issueInstr i).sbe.rd = (s.commitIn i).waddr k := by
    rw [← haddr, regAddr_setWidth]
  cases hf : (issueInstr i).sbe.op.rdFpr with
  | true =>
    rw [hf, if_pos rfl] at hwe
    rw [hdest, hf, CommitIn.written, hwe, if_pos rfl, regOf, if_pos rfl, hreg]
  | false =>
    rw [hf, if_neg Bool.false_ne_true] at hwe
    have hnf : (s.commitIn i).weFpr k = false := by
      by_contra hnf
      rw [CommitIn.weGpr_of_weFpr hfit (by simpa using hnf)] at hwe
      cases hwe
    have h0 : (s.commitIn i).waddr k ≠ 0 := by
      intro h0
      refine hd ?_
      rw [SbEntry.dest, hf, if_neg Bool.false_ne_true, hreg, if_pos h0]
    rw [hdest, hf, CommitIn.written, hnf, hwe, if_neg Bool.false_ne_true, Bool.true_and, bne_iff_ne.mpr h0,
      if_pos rfl, regOf, if_neg Bool.false_ne_true, hreg]

theorem CommitIn.ex_of_ack {c : CommitIn b} {k : Fin 2} (hk : c.commitAck k = true) :
    (c.commitInstr k).ex.valid = false := by
  match k, hk with
  | 0, hk => exact (CommitIn.valid_of_ready (CommitIn.ready_of_ack hk)).2
  | 1, hk => exact (CommitIn.second_port hk).2.2.1

/-- A new instruction that writes a register is issued when no other one that stays writes it. -/
theorem dest_ne_of_issue (h : Inv regs s g) (hok : s.Ok i) (hh : ¬ (s.commitIn i).Held) (hack : s.issueAck i = true)
    (hv : i.decodedInstrValid = true) (hex : (issueInstr i).sbe.ex.valid = false) (hd : (issueInstr i).sbe.dest ≠ none)
    {j : BitVec (b + 1)} (hj : (s.sb.mem j).issued = true) (hjex : (s.sb.mem j).sbe.ex.valid = false)
    (hr : ¬ s.sb.Retired (s.sbIn i) j) : (s.sb.mem j).sbe.dest ≠ (issueInstr i).sbe.dest := by
  have hrd : Plain (issueInstr i).sbe.rd := plain_setWidth _
  have hfu : (issueInstr i).sbe.fu ≠ .none := fun hfu => hd ((decoded_reName (hok.decoded hv)).none hfu)
  have hdest : (issueInstr i).sbe.dest = some (regOf (issueInstr i).sbe.op.rdFpr (issueInstr i).sbe.rd) := by
    simp only [SbEntry.dest, regOf] at hd ⊢
    split_ifs at hd ⊢ <;> first | rfl | exact absurd rfl hd
  have hfree : s.sb.rdClobber (issueInstr i).sbe.op.rdFpr (issueInstr i).sbe.rd = .none ∨ s.writesRd i = true := by
    simp only [issueAck] at hack
    split_ifs at hack
    simp only [hex, beq_eq_false_iff_ne.mpr hfu, Bool.or_false, Bool.and_eq_true, Bool.or_eq_true, beq_iff_eq] at hack
    exact hack.2.2
  rcases hfree with hfree | hw
  · rw [hdest]
    exact Scoreboard.not_dest_of_clobber h.entry hrd hfree hj
  · -- the destination is freed by a commit of this cycle, and only the instruction that leaves had it
    simp only [writesRd, List.any_eq_true, List.mem_finRange, true_and, Bool.and_eq_true, beq_iff_eq] at hw
    obtain ⟨k, hwe, haddr⟩ := hw
    have hwr : (s.commitIn i).written k = (issueInstr i).sbe.dest := written_of_writesRd (h.fits i) hdest hd hwe haddr
    have hk : (s.commitIn i).commitAck k = true := by
      by_contra hk
      rw [CommitIn.written_of_not_ack (h.fits i) hh (by simpa using hk)] at hwr
      exact hd hwr.symm
    have hleft : (s.sb.mem (s.sb.commitPointer k)).sbe.dest = (issueInstr i).sbe.dest := by
      rcases CommitIn.written_of_ack (h.fits i) hk with he | ⟨he, -⟩
      · exact he.symm.trans hwr
      · rw [he] at hwr
        exact absurd hwr.symm hd
    have hvalid : (s.sb.mem (s.sb.commitPointer k)).sbe.valid = true := (sbOk s i).valid k hk
    intro hsame
    have heq := h.unique j _ hj (h.sb.valid _ hvalid) hjex (CommitIn.ex_of_ack hk) (hsame.trans hleft.symm)
      (by rw [hsame]; exact hd)
    apply hr
    induction k using Fin.cases with
    | zero => exact .inl ⟨hk, heq⟩
    | succ k =>
      obtain rfl : k = 0 := Subsingleton.elim _ _
      exact .inr ⟨hk, heq⟩

theorem unique_step (h : Inv regs s g) (hok : s.Ok i) (hh : ¬ (s.commitIn i).Held) (j k : BitVec (b + 1))
    (hj : ((s.step i).sb.mem j).issued = true) (hk : ((s.step i).sb.mem k).issued = true)
    (hjex : ((s.step i).sb.mem j).sbe.ex.valid = false) (hkex : ((s.step i).sb.mem k).sbe.ex.valid = false)
    (hd : ((s.step i).sb.mem j).sbe.dest = ((s.step i).sb.mem k).sbe.dest)
    (hne : ((s.step i).sb.mem j).sbe.dest ≠ none) : j = k := by
  obtain ⟨hf, hjr, hjc⟩ := issued_cases h.sb hj
  obtain ⟨-, hkr, hkc⟩ := issued_cases h.sb hk
  have hold {l : BitVec (b + 1)} (hl : ¬ s.sb.Retired (s.sbIn i) l) (hi : (s.sb.mem l).issued = true) :
      (s.sb.mem l).Advances ((s.step i).sb.mem l) := by
    have hmem : (s.step i).sb.mem l = s.sb.memWb (s.sbIn i) l := Scoreboard.step_mem hf hl
    rw [hmem]
    exact h.advances hok hi
  have hmixed {l : BitVec (b + 1)} (hl : ¬ s.sb.Retired (s.sbIn i) l) (hi : (s.sb.mem l).issued = true)
      (hlex : ((s.step i).sb.mem l).sbe.ex.valid = false) (he : s.sb.issueEn (s.sbIn i) = true)
      (hex : (issueInstr i).sbe.ex.valid = false) (hdn : (issueInstr i).sbe.dest ≠ none) :
      ((s.step i).sb.mem l).sbe.dest ≠ (issueInstr i).sbe.dest := by
    rw [(hold hl hi).dest]
    exact dest_ne_of_issue h hok hh (ack_of_issueEn he).2 (ack_of_issueEn he).1 hex hdn hi ((hold hl hi).ex hlex) hl
  rcases hjc with ⟨he, rfl, hn⟩ | ⟨-, hji⟩
  · rcases hkc with ⟨-, rfl, -⟩ | ⟨-, hki⟩
    · rfl
    · rw [step_new hok hf he hjr hn] at hjex hd hne
      exact absurd hd.symm (hmixed hkr hki hkex he hjex hne)
  · rcases hkc with ⟨he, rfl, hn⟩ | ⟨-, hki⟩
    · rw [hd] at hne
      rw [step_new hok hf he hkr hn] at hkex hd hne
      exact absurd hd (hmixed hjr hji hjex he hkex hne)
    · rw [(hold hjr hji).dest, (hold hkr hki).dest] at hd
      rw [(hold hjr hji).dest] at hne
      exact h.unique j k hji hki ((hold hjr hji).ex hjex) ((hold hkr hki).ex hkex) hd hne

theorem zero_step : (s.step i).gpr 0 = 0 := by
  simp [step, writeRegs]

theorem mem_rest (h : s.sb.Inv) {j : BitVec (b + 1)} (hj : j ∈ s.rest i) :
    ¬ s.sb.Retired (s.sbIn i) j ∧ (s.sb.mem j).issued = true := by
  have hq := queue_eq (i := i) h
  have hnd : s.sb.queue.Nodup := nodup_slots h.cnt
  rw [hq, List.nodup_append] at hnd
  refine ⟨fun hr => ?_, (h.issued j).mpr (by rw [hq]; exact List.mem_append_right _ hj)⟩
  rw [Scoreboard.retired_iff (sbOk s i) h, ← Scoreboard.acks_map (sbOk s i) h] at hr
  exact hnd.2.2 j hr j hj rfl

/-- When nothing is flushed, every instruction that is committed is lasting, as it would be if it stayed. -/
theorem allLasting (h : Inv regs s g) (hok : s.Ok i) (hf : s.flush i = false)
    (hl : ∀ x ∈ settled g s i (s.rest i), x.lasting = true) : s.AllLasting := by
  intro j hj
  have hlast : (inFlight (s.sb.memWb (s.sbIn i) j) (g.operands j)).lasting = true →
      (s.sb.mem j).sbe.ex.valid = false ∧ (s.sb.mem j).sbe.op.kind ≠ .amo := by
    intro hl
    have hadv := h.advances hok hj
    simp only [inFlight, Bool.and_eq_true, Bool.not_eq_true', beq_eq_false_iff_ne] at hl
    exact ⟨hadv.ex hl.1, hadv.op ▸ hl.2⟩
  by_cases hr : s.sb.Retired (s.sbIn i) j
  · rcases hr with ⟨h0, rfl⟩ | ⟨h1, rfl⟩
    · change (s.commitIn i).commitAck 0 = true at h0
      exact ⟨CommitIn.ex_of_ack h0, CommitIn.isAmo_eq_false.mp (not_amo_of_ack h0 hf)⟩
    · change (s.commitIn i).commitAck 1 = true at h1
      refine ⟨CommitIn.ex_of_ack h1, fun hk => (CommitIn.second_port h1).2.2.2 ?_⟩
      exact ((h.fits i).amo 1 ((s.commitIn i).commitAck_valid 1 h1) hk).1
  · refine hlast (hl _ (List.mem_map_of_mem ?_))
    have hq := (h.sb.issued j).mp hj
    rw [queue_eq (i := i) h.sb, Scoreboard.acks_map (sbOk s i) h.sb, List.mem_append] at hq
    exact hq.resolve_left fun hin => hr ((Scoreboard.retired_iff (sbOk s i) h.sb j).mpr hin)

theorem watch_operands : (watch g s i).operands =
    if s.sb.issueEn (s.sbIn i) then
      Function.update g.operands s.sb.issuePointer (if s.fenceOverCsr i then [] else s.operands i)
    else g.operands :=
  rfl

/-- The instructions in flight have their operands, the new one too. -/
theorem captured_step (h : Inv regs s g) (hok : s.Ok i) :
    Captured (fun r => some (lastWrite regs (watch g s i).done r))
      ((s.step i).sb.queue.map fun j => inFlight ((s.step i).sb.mem j) ((watch g s i).operands j)) := by
  cases hf : s.flush i with
  | true =>
    have hq : (s.step i).sb.queue = [] := Scoreboard.queue_flush (q := s.sb) (i := s.sbIn i) hf
    rw [hq]
    trivial
  | false =>
    obtain ⟨hcap, htold⟩ := (leave_step h hok).2 hf
    have hq : (s.step i).sb.queue = s.rest i ++ if s.sb.issueEn (s.sbIn i) then [s.sb.issuePointer] else [] :=
      (Scoreboard.queue_step (sbOk s i) h.sb hf).trans (staying_eq h.sb)
    have hrest : (s.rest i).map (fun j => inFlight ((s.step i).sb.mem j) ((watch g s i).operands j)) =
        settled g s i (s.rest i) := by
      refine List.map_congr_left fun j hj => ?_
      obtain ⟨hr, hi⟩ := mem_rest h.sb hj
      have hmem : (s.step i).sb.mem j = s.sb.memWb (s.sbIn i) j := Scoreboard.step_mem hf hr
      have hop : (watch g s i).operands j = g.operands j := by
        by_cases he : s.sb.issueEn (s.sbIn i) = true
        · rw [watch_operands, if_pos he, Function.update_of_ne fun hp => not_issued_to h.sb hi ⟨he, hp⟩]
        · rw [watch_operands, if_neg he]
      rw [hmem, hop]
    rw [hq, List.map_append, hrest]
    cases he : s.sb.issueEn (s.sbIn i) with
    | false => simpa using hcap
    | true =>
      rw [if_pos rfl, List.map_cons, List.map_nil]
      refine hcap.concat fun hl o ho => ?_
      have hop : (watch g s i).operands s.sb.issuePointer = if s.fenceOverCsr i then [] else s.operands i := by
        rw [watch_operands, if_pos he, Function.update_self]
      change o ∈ (watch g s i).operands s.sb.issuePointer at ho
      rw [hop] at ho
      cases hfence : s.fenceOverCsr i with
      | true => simp [hfence] at ho
      | false =>
        rw [hfence, if_neg Bool.false_ne_true] at ho
        exact htold _ _ (told_of_issue h hok (allLasting h hok hf hl) (ack_of_issueEn he).2 hfence o ho)

theorem inv_step (h : Inv regs s g) (hok : s.Ok i) (hh : ¬ (s.commitIn i).Held) : Inv regs (s.step i)
    (watch g s i) where
  sb := h.sb.step (sbOk s i)
  entry := entry_step h hok
  unique := unique_step h hok hh
  zero := zero_step
  read := inv_read_step h hh
  order := (leave_step h hok).1
  captured := captured_step h hok

theorem inv_init {s : IssueStage b} (hs : s.sb = .reset) (hr : s.read = regs) (hz : regs (.x 0) = 0) :
    Inv regs s ⟨fun _ => [], []⟩ where
  sb := by
    rw [hs]
    exact .reset
  entry j hj := by simp [hs, Scoreboard.reset, SbMem.zero] at hj
  unique j k hj := by simp [hs, Scoreboard.reset, SbMem.zero] at hj
  zero := by
    have hx : s.read (.x 0) = regs (.x 0) := congrFun hr _
    exact hx.trans hz
  read r := congrFun hr r
  order := .nil
  captured := by
    have hq : s.sb.queue = [] := by simp [hs, Scoreboard.queue, Scoreboard.reset]
    rw [hq]
    trivial

end IssueStage
end Culsans.Core
