import Culsans.Frontend.Frontend

/-! # What is predicted

The first instruction of a fetch that is predicted to be taken gives the address to go on. What is
predicted fits the instruction: a jump is always taken and goes where it goes, a branch goes to its target
if it is taken, and nothing is predicted for what is not control flow.
-/

namespace Culsans.Frontend
open Library Culsans.Core

variable {depth n : ℕ}

namespace FrontEnd
variable (q : FrontEnd depth n) (i : FrontendIn)

/-- What is predicted for an instruction. -/
def cfOf (k : Fin 2) : Cf :=
  match q.isBranch k, q.isReturn k, q.isJump k, q.isJalr k with
  | false, false, false, true => if (q.btbPredictionShifted i k).valid then .jumpR else .noCF
  | false, false, true, false => .jump
  | false, true, false, false => .ret
  | true, false, false, false => if q.takenRvi i k || q.takenRvc i k then .branch else .noCF
  | _, _, _, _ => .noCF

/-- Where an instruction is predicted to go. -/
def targetOf (k : Fin 2) : BitVec 64 :=
  match q.isBranch k, q.isReturn k, q.isJump k, q.isJalr k with
  | false, false, false, true => (q.btbPredictionShifted i k).targetAddress
  | false, false, true, false => q.immTarget (q.scan k).rvcJump k
  | false, true, false, false => (q.ras 0).ra
  | _, _, _, _ => q.immTarget (q.takenRvc i k) k

variable {q i}

theorem speculate_eq (consumed : BitVec 2) (s : Speculation) (k : Fin 2) :
    (q.speculate i consumed s k).cfType = (if q.cfOf i k = .noCF then s.cfType
      else Function.update s.cfType k (q.cfOf i k)) ∧ (q.speculate i consumed s k).predictAddress = if q.cfOf i k =
      .noCF then s.predictAddress else q.targetOf i k := by
  have hcall (s : Speculation) (b : Bool) (p : Bool) (u : BitVec 64) :
      (if b then { s with rasPush := p, rasUpdate := u } else s).cfType = s.cfType ∧
        (if b then { s with rasPush := p, rasUpdate := u } else s).predictAddress = s.predictAddress := by
    cases b <;> exact ⟨rfl, rfl⟩
  rw [speculate, (hcall _ _ _ _).1, (hcall _ _ _ _).2]
  cases hb : q.isBranch k <;> cases hr : q.isReturn k <;> cases hj : q.isJump k <;> cases hl : q.isJalr k <;>
    simp only [cfOf, targetOf, hb, hr, hj, hl] <;> try exact ⟨rfl, rfl⟩
  case false.false.false.true => cases (q.btbPredictionShifted i k).valid <;> exact ⟨rfl, rfl⟩
  case true.false.false.false => cases q.takenRvi i k || q.takenRvc i k <;> exact ⟨rfl, rfl⟩

/-- The round of the other instruction does not change what is predicted for one. -/
theorem cfType_eq (k : Fin 2) : q.cfType i k = q.cfOf i k := by
  rw [cfType, speculation, (speculate_eq 0 _ 0).1, (speculate_eq 0 _ 1).1]
  match k with
  | 0 => split_ifs <;> simp_all
  | 1 => split_ifs <;> simp_all

/-- The address is that of the first instruction that is taken. -/
theorem predictAddress_eq : q.predictAddress i =
    if q.cfOf i 0 ≠ .noCF then q.targetOf i 0 else if q.cfOf i 1 ≠ .noCF then q.targetOf i 1 else 0 := by
  rw [predictAddress, speculation, (speculate_eq 0 _ 0).2, (speculate_eq 0 _ 1).2, ite_not, ite_not]

theorem cfOf_idle {k : Fin 2} (hv : (q.slot k).valid = false) : q.cfOf i k = .noCF := by
  simp [cfOf, isBranch, isReturn, isJump, isJalr, hv]

theorem slot_valid {k : Fin 2} (hc : q.cfType i k ≠ .noCF) : (q.slot k).valid = true := by
  by_contra hv
  rw [cfType_eq] at hc
  exact hc (cfOf_idle (Bool.eq_false_iff.mpr hv))

/-- The predictions are followed unless the only ones are returns without an address. -/
theorem bpValid_eq_false (hb : q.bpValid i = false) (k : Fin 2) :
    q.cfType i k = .noCF ∨ q.cfType i k = .ret ∧ (q.ras 0).valid = false := by
  have hone : ∀ k, (q.cfType i k != .noCF && q.cfType i k != .ret || q.cfType i k == .ret && (q.ras 0).valid) =
    false := by
    rw [bpValid, Bool.or_eq_false_iff] at hb
    exact Fin.forall_fin_two.mpr hb
  have hk := hone k
  cases hc : q.cfType i k <;> simp_all

theorem bpValid_taken (hb : q.bpValid i = true) : ∃ k, q.cfType i k ≠ .noCF := by
  by_contra hn
  rw [not_exists] at hn
  simp [bpValid, not_ne_iff.mp (hn 0), not_ne_iff.mp (hn 1)] at hb

end FrontEnd

/-! ### Predictions fit the instructions -/

/-- A prediction that is right as far as it can be known without registers. -/
def Fits (cf : Cf) (addr predict : BitVec 64) : Flow → Prop
  | .plain => cf = .noCF
  | .ctrl op imm =>
    if opIsBranch op then cf = .noCF ∨ cf = .branch ∧ predict = addr + imm
    else if op = .add then cf = .jump ∧ predict = addr + imm
    else cf = .noCF ∨ cf = .jumpR ∨ cf = .ret
  | .trap => True

namespace FrontEnd
variable {q : FrontEnd depth n} {i : FrontendIn} {k : Fin 2}

theorem isJumpReg_iff (hv : (q.slot k).valid = true) : (q.scan k).isJumpReg = (q.isReturn k || q.isJalr k) := by
  have hr : (q.scan k).isReturn = true → (q.scan k).isJumpReg = true := isReturn_jumpReg
  rw [isJalr, isReturn, hv]
  cases h : (q.scan k).isReturn with
  | true => simp [hr h]
  | false => simp

theorem takenRvc_branch (h : q.takenRvc i k = true) : (q.scan k).rvcBranch = true := by
  rw [takenRvc] at h
  split_ifs at h <;> simp_all

theorem takenRvi_branch (h : q.takenRvi i k = true) : (q.scan k).rviBranch = true := by
  rw [takenRvi] at h
  split_ifs at h <;> simp_all

theorem immTarget_branch {imm : BitVec 64} (hi : (q.scan k).rviBranch = true → (q.scan k).rviImm = imm)
    (hc : (q.scan k).rvcBranch = true → (q.scan k).rvcImm = imm) (ht : (q.takenRvi i k || q.takenRvc i k) = true) :
    q.immTarget (q.takenRvc i k) k = (q.slot k).addr + imm := by
  rw [immTarget]
  cases h : q.takenRvc i k with
  | true => rw [if_pos rfl, hc (takenRvc_branch h)]
  | false =>
    rw [h, Bool.or_false] at ht
    rw [if_neg Bool.false_ne_true, hi (takenRvi_branch ht)]

theorem immTarget_jump {imm : BitVec 64} (hi : (q.scan k).rviJump = true → (q.scan k).rviImm = imm)
    (hc : (q.scan k).rvcJump = true → (q.scan k).rvcImm = imm) (hj : (q.scan k).isJump = true) :
    q.immTarget (q.scan k).rvcJump k = (q.slot k).addr + imm := by
  rw [immTarget]
  cases h : (q.scan k).rvcJump with
  | true => rw [if_pos rfl, hc h]
  | false =>
    rw [InstrScan.isJump, h, Bool.or_false] at hj
    rw [if_neg Bool.false_ne_true, hi hj]

/-- What is predicted for a branch. -/
theorem fits_branch {op : BranchOp} {imm : BitVec 64} (hs : Scans (q.scan k) (.ctrl op imm))
    (hop : opIsBranch op = true) (hv : (q.slot k).valid = true) :
    q.cfOf i k = .noCF ∨ q.cfOf i k = .branch ∧ q.targetOf i k = (q.slot k).addr + imm := by
  obtain ⟨hb, hj, hr, hi, hc⟩ := hs
  have hne : (op == .add) = false ∧ (op == .jalr) = false := by cases op <;> simp_all [opIsBranch]
  rw [isJumpReg_iff hv, hne.2, Bool.or_eq_false_iff] at hr
  have hb : q.isBranch k = true := by rw [isBranch, hv, Bool.true_and, hb, hop]
  have hj : q.isJump k = false := by rw [isJump, hv, Bool.true_and, hj, hne.1]
  simp only [cfOf, targetOf, hb, hj, hr]
  split_ifs with ht
  · exact .inr ⟨rfl, immTarget_branch (fun h => hi (.inl h)) (fun h => hc (.inl h)) ht⟩
  · exact .inl rfl

theorem fits_jump {imm : BitVec 64} (hs : Scans (q.scan k) (.ctrl .add imm)) (hv : (q.slot k).valid = true) :
    q.cfOf i k = .jump ∧ q.targetOf i k = (q.slot k).addr + imm := by
  obtain ⟨hb, hj, hr, hi, hc⟩ := hs
  have ht := immTarget_jump (fun h => hi (.inr h)) (fun h => hc (.inr h)) hj
  have hr : (q.isReturn k || q.isJalr k) = false := (isJumpReg_iff hv).symm.trans hr
  rw [Bool.or_eq_false_iff] at hr
  have hb : q.isBranch k = false := by rw [isBranch, hv, Bool.true_and, hb]; rfl
  have hj : q.isJump k = true := by rw [isJump, hv, Bool.true_and, hj]; rfl
  constructor
  · simp only [cfOf, hb, hj, hr]
  · simp only [targetOf, hb, hj, hr, ht]

theorem fits_jalr {imm : BitVec 64} (hs : Scans (q.scan k) (.ctrl .jalr imm)) (hv : (q.slot k).valid = true) :
    q.cfOf i k = .noCF ∨ q.cfOf i k = .jumpR ∨ q.cfOf i k = .ret := by
  obtain ⟨hb, hj, hr, -, -⟩ := hs
  have hr : (q.isReturn k || q.isJalr k) = true := (isJumpReg_iff hv).symm.trans hr
  have hb : q.isBranch k = false := by rw [isBranch, hv, Bool.true_and, hb]; rfl
  have hj : q.isJump k = false := by rw [isJump, hv, Bool.true_and, hj]; rfl
  cases hret : q.isReturn k with
  | true =>
    have hl : q.isJalr k = false := by simp [isJalr, hret]
    right
    right
    simp only [cfOf, hb, hj, hret, hl]
  | false =>
    have hl : q.isJalr k = true := by rwa [hret, Bool.false_or] at hr
    simp only [cfOf, hb, hj, hret, hl]
    split_ifs
    · exact .inr (.inl rfl)
    · exact .inl rfl

/-- What is predicted for an instruction fits what the decoders make of it. -/
theorem fits (hv : (q.slot k).valid = true) :
    Fits (q.cfOf i k) (q.slot k).addr (q.targetOf i k) (flow (q.slot k).instr) := by
  have hs : Scans (q.scan k) (flow (q.slot k).instr) := scans_flow _
  cases hf : flow (q.slot k).instr with
  | trap => trivial
  | plain =>
    rw [hf] at hs
    obtain ⟨hb, hj, hr⟩ := hs
    rw [isJumpReg_iff hv, Bool.or_eq_false_iff] at hr
    simp [Fits, cfOf, isBranch, isJump, hb, hj, hr]
  | ctrl op imm =>
    rw [hf] at hs
    rw [Fits]
    split_ifs with hop hadd
    · exact fits_branch hs hop hv
    · subst hadd
      exact fits_jump hs hv
    · have hj : op = .jalr := by cases op <;> simp_all [opIsBranch]
      subst hj
      exact fits_jalr hs hv

end FrontEnd

/-! ### Predicted addresses are even -/

theorem even_add {v w : BitVec 64} (hv : v.getLsbD 0 = false) (hw : w.getLsbD 0 = false) :
    (v + w).getLsbD 0 = false := by
  rw [bit0_iff] at hv hw ⊢
  rw [BitVec.toNat_add]
  omega

/-- An immediate that ends in zero. -/
theorem even_signExtend {w : ℕ} (v : BitVec w) : ((v ++ 0#1).signExtend 64).getLsbD 0 = false := by
  rw [BitVec.getLsbD_signExtend, decide_eq_true (Nat.succ_pos _), if_pos (Nat.succ_pos _), Bool.true_and,
    BitVec.getLsbD_append, if_pos Nat.one_pos]
  rfl

theorem even_rviImm (w : BitVec 32) : (Scan.rviImm w).getLsbD 0 = false := by
  rw [Scan.rviImm]
  split_ifs
  · rfl
  · exact even_signExtend _
  · exact even_signExtend _

theorem even_rvcImm (w : BitVec 32) : (Scan.rvcImm w).getLsbD 0 = false := by
  rw [Scan.rvcImm]
  split_ifs
  · exact even_signExtend _
  · exact even_signExtend _

/-- The immediates of branches and of JAL, which are added to the address of the instruction. -/
theorem even_flow {w : BitVec 32} {op : BranchOp} {imm : BitVec 64} (h : flow w = .ctrl op imm) (hop : op ≠ .jalr) :
    imm.getLsbD 0 = false := by
  have hsb (w : BitVec 32) : (immSb w).getLsbD 0 = false := even_signExtend _
  have huj (w : BitVec 32) : (immUj w).getLsbD 0 = false := even_signExtend _
  have hd (w : BitVec 32) (h : decoderFlow w = .ctrl op imm) : imm.getLsbD 0 = false := by
    rw [decoderFlow] at h
    split_ifs at h
    · split at h <;> cases h <;> exact hsb w
    · cases h
      exact absurd rfl hop
    · cases h
      exact huj w
  rw [flow] at h
  split_ifs at h
  exact hd _ h

namespace FrontEnd
variable {q : FrontEnd depth n} {i : FrontendIn}

/-- What the predictions are taken from is even. -/
structure EvenHints (q : FrontEnd depth n) (i : FrontendIn) : Prop where
  slot : ∀ k, (q.slot k).addr.getLsbD 0 = false
  btb : q.btb.valid = true → q.btb.targetAddress.getLsbD 0 = false
  btbPrediction : ∀ k, (i.btbPrediction k).valid = true → (i.btbPrediction k).targetAddress.getLsbD 0 = false
  ras : (q.ras 0).ra.getLsbD 0 = false

theorem EvenHints.immTarget (h : EvenHints q i) (rvc : Bool) (k : Fin 2) : (q.immTarget rvc k).getLsbD 0 = false := by
  apply even_add (h.slot k)
  split_ifs
  · exact even_rvcImm _
  · exact even_rviImm _

theorem EvenHints.shifted (h : EvenHints q i) {k : Fin 2} (hv : (q.btbPredictionShifted i k).valid = true) :
    (q.btbPredictionShifted i k).targetAddress.getLsbD 0 = false := by
  rw [btbPredictionShifted] at hv ⊢
  split_ifs at hv ⊢
  · exact h.btb hv
  · exact h.btbPrediction _ hv

theorem EvenHints.targetOf (h : EvenHints q i) {k : Fin 2} (hc : q.cfOf i k ≠ .noCF) :
    (q.targetOf i k).getLsbD 0 = false := by
  cases hb : q.isBranch k <;> cases hr : q.isReturn k <;> cases hj : q.isJump k <;> cases hl : q.isJalr k <;>
    simp only [cfOf, FrontEnd.targetOf, hb, hr, hj, hl] at hc ⊢ <;> try exact h.immTarget _ k
  case false.false.false.true =>
    apply h.shifted
    by_contra hv
    rw [if_neg hv] at hc
    exact hc rfl
  case false.true.false.false => exact h.ras

theorem EvenHints.predictAddress (h : EvenHints q i) : (q.predictAddress i).getLsbD 0 = false := by
  rw [predictAddress_eq]
  split_ifs with h0 h1
  · exact h.targetOf h0
  · exact h.targetOf h1
  · rfl

theorem speculate_rasUpdate {P : BitVec 64 → Prop} {consumed : BitVec 2} {s : Speculation} {k : Fin 2}
    (hs : P s.rasUpdate) (hk : ∀ b : Bool, P ((q.slot k).addr + if b then 2 else 4)) :
    P (q.speculate i consumed s k).rasUpdate := by
  have hcall (s : Speculation) (b : Bool) (p : Bool) (u : BitVec 64) (hs : P s.rasUpdate) (hu : P u) :
      P (if b then { s with rasPush := p, rasUpdate := u } else s).rasUpdate := by
    cases b
    · exact hs
    · exact hu
  rw [speculate]
  refine hcall _ _ _ _ ?_ (hk _)
  cases hb : q.isBranch k <;> cases hr : q.isReturn k <;> cases hj : q.isJump k <;> cases hl : q.isJalr k <;>
    dsimp only <;> try exact hs
  case false.false.false.true => cases (q.btbPredictionShifted i k).valid <;> exact hs
  case true.false.false.false => cases q.takenRvi i k || q.takenRvc i k <;> exact hs

/-- The address after a call is even. -/
theorem even_rasUpdate (h : ∀ k, (q.slot k).addr.getLsbD 0 = false) (consumed : BitVec 2) :
    (q.speculation i consumed).rasUpdate.getLsbD 0 = false := by
  have hk (k : Fin 2) (b : Bool) : ((q.slot k).addr + if b then 2 else 4).getLsbD 0 = false := by
    apply even_add (h k)
    cases b <;> rfl
  exact speculate_rasUpdate (P := fun v => v.getLsbD 0 = false) (speculate_rasUpdate
    (P := fun v => v.getLsbD 0 = false) rfl (hk 1)) (hk 0)

end FrontEnd

/-! ### The return address stack -/

/-- What is pushed, and an entry without an address at the bottom, are all that comes into the stack. -/
theorem Ras.step_forall {P : RasEntry → Prop} {s : Ras n} {flush push pop : Bool} {data : BitVec 64} (h : ∀ k, P (s k))
    (h0 : P ⟨false, 0⟩) (hd : P ⟨true, data⟩) : ∀ k, P (s.step flush push pop data k) := by
  have hpush (t : Fin n → RasEntry) (ht : ∀ k, P (t k)) : ∀ k, P ((Fin.cons ⟨true, data⟩ t : Ras n) k) := by
    intro k
    cases k using Fin.cases with
    | zero => exact hd
    | succ k => exact ht k
  have hpop : ∀ k, P ((Fin.snoc (Fin.tail s) ⟨false, 0⟩ : Ras n) k) := by
    intro k
    cases k using Fin.lastCases with
    | last =>
      rw [Fin.snoc_last]
      exact h0
    | cast k =>
      rw [Fin.snoc_castSucc]
      exact h k.succ
  rw [Ras.step]
  split_ifs
  · exact fun _ => h0
  · exact hpush _ fun k => h k.succ
  · exact hpop
  · exact hpush _ fun k => h k.castSucc
  · exact h

end Culsans.Frontend
