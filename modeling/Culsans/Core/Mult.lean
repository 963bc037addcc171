import Culsans.Core.DivisionLoop

/-! # The multiply and divide unit (`mult`)

Only the division side is here; the multiplier is a pipeline of its own whose results
take precedence on the shared output. A word division runs on extended operands, and
the lower half of its result is extended.
-/

namespace Culsans.Core
open Library
variable {w v t : ℕ}

/-- The operations of `fu_op` that the unit tells apart. -/
inductive MultOp
  | mul | mulh | mulhu | mulhsu | mulw | clmul | clmulh | clmulr
  | div | divu | divw | divuw | rem | remu | remw | remuw
  | other
deriving DecidableEq

namespace MultOp

def isDiv : MultOp → Bool
  | .div | .divu | .divw | .divuw | .rem | .remu | .remw | .remuw => true
  | _ => false

/-- `div_signed` -/
def divSigned : MultOp → Bool
  | .div | .divw | .rem | .remw => true
  | _ => false

def isRem : MultOp → Bool
  | .rem | .remu | .remw | .remuw => true
  | _ => false

def isWord : MultOp → Bool
  | .divw | .divuw | .remw | .remuw => true
  | _ => false

end MultOp

/-- The registers of the division side. -/
structure Mult (t : ℕ) where
  div : Serdiv 64 t
  wordOp : Bool

structure MultIn (t : ℕ) where
  flush : Bool
  operation : MultOp
  transId : BitVec t
  operandA : BitVec 64
  operandB : BitVec 64
  multValid : Bool
  /-- the outputs of `i_multiplier` -/
  mulValid : Bool
  mulResult : BitVec 64
  mulTransId : BitVec t

structure MultOut (t : ℕ) where
  result : BitVec 64
  valid : Bool
  ready : Bool
  transId : BitVec t

def sext32 (x : BitVec 32) : BitVec 64 := x.signExtend 64

namespace Mult

/-- A division reaches the unit. -/
def divReq (i : MultIn t) : Bool := i.multValid && i.operation.isDiv

/-- The operand after input silencing and word extension. -/
def operand (i : MultIn t) (x : BitVec 64) : BitVec 64 :=
  if divReq i then
    if i.operation.isWord then
      if i.operation.divSigned then sext32 (x.extractLsb' 0 32) else (x.extractLsb' 0 32).setWidth 64
    else x
  else 0

def serdivIn (i : MultIn t) : SerdivIn 64 t where
  id := i.transId
  opA := operand i i.operandA
  opB := operand i i.operandB
  opcode := BitVec.ofBool i.operation.isRem ++ BitVec.ofBool i.operation.divSigned
  inVld := !i.flush && divReq i
  flush := i.flush
  outRdy := !i.mulValid

def out (q : Mult t) (i : MultIn t) : MultOut t :=
  let c := q.div.fsm (serdivIn i)
  let divResult := if q.wordOp then sext32 (q.div.resO.extractLsb' 0 32) else q.div.resO
  { result := if i.mulValid then i.mulResult else divResult
    valid := c.outVld || i.mulValid
    ready := c.inRdy
    transId := if i.mulValid then i.mulTransId else q.div.id }

def step (q : Mult t) (i : MultIn t) : Mult t where
  div := q.div.step (serdivIn i)
  wordOp := if divReq i then i.operation.isWord else q.wordOp

def machine (t : ℕ) : Machine (Mult t) (MultIn t) := ⟨fun q => q = ⟨.reset, false⟩, step⟩

end Mult

/-- The divisions of RISC-V: a word operation works on the lower halves and extends its result. -/
def MultOp.spec (o : MultOp) (a b : BitVec 64) : BitVec 64 :=
  if o.isWord then sext32 (riscvDiv o.divSigned o.isRem (a.extractLsb' 0 32) (b.extractLsb' 0 32))
  else riscvDiv o.divSigned o.isRem a b

/-! ### Word operations -/

/-- Sign or zero extension. -/
def extend (w : ℕ) (sg : Bool) (x : BitVec v) : BitVec w := if sg then x.signExtend w else x.setWidth w

theorem setWidth_ofInt (h : v ≤ w) (x : ℤ) : (BitVec.ofInt w x).setWidth v = BitVec.ofInt v x := by
  apply BitVec.eq_of_toNat_eq
  rw [BitVec.toNat_setWidth, BitVec.toNat_ofInt, BitVec.toNat_ofInt]
  have hw : (0 : ℤ) ≤ x % ((2 ^ w : ℕ) : ℤ) := Int.emod_nonneg x (Int.ofNat_ne_zero.mpr (Nat.two_pow_pos w).ne')
  have hv : (0 : ℤ) ≤ x % ((2 ^ v : ℕ) : ℤ) := Int.emod_nonneg x (Int.ofNat_ne_zero.mpr (Nat.two_pow_pos v).ne')
  have hdvd : ((2 ^ v : ℕ) : ℤ) ∣ ((2 ^ w : ℕ) : ℤ) := by exact_mod_cast Nat.pow_dvd_pow 2 h
  apply Int.ofNat_inj.mp
  rw [Int.natCast_mod, Int.toNat_of_nonneg hw, Int.toNat_of_nonneg hv, Int.emod_emod_of_dvd x hdvd]

theorem setWidth_extend (h : v ≤ w) (sg : Bool) (x : BitVec v) : (extend w sg x).setWidth v = x := by
  cases sg with
  | false => simp [extend, h]
  | true =>
    change (BitVec.ofInt w x.toInt).setWidth v = x
    rw [setWidth_ofInt h, BitVec.ofInt_toInt]

theorem extend_eq_zero (h : v ≤ w) (sg : Bool) (x : BitVec v) : extend w sg x = 0 ↔ x = 0 := by
  refine ⟨fun h0 => ?_, fun h0 => ?_⟩
  · rw [← setWidth_extend h sg x, h0]
    simp
  · cases sg with
    | false => simp [extend, h0]
    | true =>
      change BitVec.ofInt w x.toInt = 0
      simp [h0]

theorem extend_toInt (h : v ≤ w) (x : BitVec v) : (extend w true x).toInt = x.toInt :=
  BitVec.toInt_signExtend_of_le h

theorem extend_toNat (h : v ≤ w) (x : BitVec v) : (extend w false x).toNat = x.toNat := by
  have hlt : x.toNat < 2 ^ w := x.isLt.trans_le (Nat.pow_le_pow_right (by omega) h)
  simp [extend, Nat.mod_eq_of_lt hlt]

/-- The lower half of a division of extended operands is the division of the halves. -/
theorem riscvDiv_extend (h : v ≤ w) (sg rm : Bool) (a b : BitVec v) :
    (riscvDiv sg rm (extend w sg a) (extend w sg b)).setWidth v = riscvDiv sg rm a b := by
  simp only [riscvDiv, extend_eq_zero h]
  by_cases hb : b = 0
  · rw [if_pos hb, if_pos hb]
    cases rm with
    | true => exact setWidth_extend h sg a
    | false =>
      ext j hj
      simp [show j < w by omega]
  · rw [if_neg hb, if_neg hb]
    cases sg with
    | false =>
      rw [extend_toNat h, extend_toNat h]
      exact BitVec.setWidth_ofNat_of_le h _
    | true =>
      rw [extend_toInt h, extend_toInt h]
      exact setWidth_ofInt h _

/-! ### Runs -/

namespace Mult
variable {q : Mult t} {u : ℕ → MultIn t}

/-- The divider gets the operands of the operation, extended for a word operation. -/
theorem serdivIn_spec {i : MultIn t} (hr : divReq i = true) :
    (if i.operation.isWord then
      sext32 ((riscvDiv (Serdiv.isSigned (serdivIn i)) (Serdiv.isRem (serdivIn i)) (serdivIn i).opA
        (serdivIn i).opB).extractLsb' 0 32)
      else riscvDiv (Serdiv.isSigned (serdivIn i)) (Serdiv.isRem (serdivIn i)) (serdivIn i).opA (serdivIn i).opB) =
      i.operation.spec i.operandA i.operandB := by
  have hs : Serdiv.isSigned (serdivIn i) = i.operation.divSigned := by
    cases h1 : i.operation.isRem <;> cases h2 : i.operation.divSigned <;>
      simp [Serdiv.isSigned, serdivIn, h1, h2]
  have hm : Serdiv.isRem (serdivIn i) = i.operation.isRem := by
    cases h1 : i.operation.isRem <;> cases h2 : i.operation.divSigned <;>
      simp [Serdiv.isRem, serdivIn, h1, h2]
  rw [hs, hm, MultOp.spec]
  cases hw : i.operation.isWord with
  | true =>
    have hext : ∀ x, operand i x = extend 64 i.operation.divSigned (x.extractLsb' 0 32) := fun x => by
      simp [operand, hr, hw, extend, sext32]
    have hlow : ∀ x : BitVec 64, x.extractLsb' 0 32 = x.setWidth 32 := fun x => by
      ext j hj
      simp
    simp only [if_true]
    rw [hlow, show (serdivIn i).opA = operand i i.operandA from rfl,
      show (serdivIn i).opB = operand i i.operandB from rfl, hext, hext, riscvDiv_extend (by decide)]
  | false => simp [serdivIn, operand, hr, hw]

/-- The divider of the unit runs by itself. -/
theorem states_div (n : ℕ) :
    ((machine t).states q u n).div = (Serdiv.machine 64 t).states q.div (fun n => serdivIn (u n)) n := by
  induction n with
  | zero => rfl
  | succ n ih =>
    change ((machine t).states q u n).div.step _ = Serdiv.step _ _
    rw [ih]

end Mult

namespace Mult
variable {q : Mult t} {u : ℕ → MultIn t}

/-- The unit remembers whether the division under way is a word operation. -/
theorem wordOp_states (hr : divReq (u 0) = true) {n : ℕ} (hn : 0 < n)
    (hq : ∀ m, 0 < m → m < n → divReq (u m) = false) :
    ((machine t).states q u n).wordOp = (u 0).operation.isWord := by
  induction n, hn using Nat.le_induction with
  | base =>
    change (Mult.step _ (u 0)).wordOp = _
    rw [step, hr]
    rfl
  | succ n hn ih =>
    change (Mult.step _ (u n)).wordOp = _
    rw [step, hq n hn (Nat.lt_succ_self n)]
    exact ih fun m h1 h2 => hq m h1 (by omega)

/-- A division that reaches the unit ends in time; its result waits while the multiplier has the output. -/
theorem division_delivered (hs : q.div.state = .idle) (hr : divReq (u 0) = true) (hf : ∀ n, (u n).flush = false)
    (hbusy : ∀ n, ((machine t).states q u n).div.state ≠ .idle → divReq (u n) = false) :
    ∃ n, 0 < n ∧ n ≤ 66 ∧
      ∀ m, n ≤ m → (∀ k, n ≤ k → k < m → (u k).mulValid = true) →
        (((machine t).states q u m).out (u m)).valid = true ∧
        ((u m).mulValid = false →
          (((machine t).states q u m).out (u m)).transId = (u 0).transId ∧
          (((machine t).states q u m).out (u m)).result = (u 0).operation.spec (u 0).operandA (u 0).operandB) := by
  have hv : (serdivIn (u 0)).inVld = true := by simp [serdivIn, hf 0, hr]
  have hg : ¬ Serdiv.Truncates (serdivIn (u 0)) := fun hg => absurd hg.1.1 (by decide)
  obtain ⟨n, h1, h2, h3, h4⟩ := Serdiv.division_run (u := fun n => serdivIn (u n)) (by decide) hg hs hv hf
  refine ⟨n, h1, h2, fun m hm hmul => ?_⟩
  have hdone : ∀ k, n ≤ k → k ≤ m → Serdiv.Done (serdivIn (u 0)) ((machine t).states q u k).div := by
    intro k hk hkm
    rw [states_div]
    exact h4 k hk fun j hj hjk => by simp [serdivIn, hmul j hj (by omega)]
  have hquiet : ∀ k, 0 < k → k < m → divReq (u k) = false := fun k hk hkm => by
    refine hbusy k ?_
    rcases Nat.lt_or_ge k n with hlt | hge
    · rw [states_div, (h3 k hlt).2 hk]
      decide
    · rcases (hdone k hge hkm.le).state with h | h
      · simp [h]
      · simp [h.1]
  have hword := wordOp_states (q := q) hr (h1.trans_le hm) hquiet
  have hd := hdone m hm le_rfl
  have hvld : (((machine t).states q u m).div.fsm (serdivIn (u m))).outVld = true := hd.outVld (hf m)
  refine ⟨by simp [out, hvld], fun hnm => ⟨?_, ?_⟩⟩
  · simp only [out, hnm, Bool.false_eq_true, if_false]
    exact hd.id
  · simp only [out, hnm, Bool.false_eq_true, if_false]
    rw [hword, hd.resO]
    exact serdivIn_spec hr

end Mult

/-- The divider, of any width, and the unit around it: from every idle state, whatever its registers
hold, a division that no flush meets ends in time with the RISC-V result, which waits with its id
for the receiver, unless it is one of -1 by 1 in less than 32 bits; a flush makes the state idle. In the unit, which
has 64 bits, every division ends so. A division does not reach a unit that is busy. -/
theorem division_correct (t : ℕ) :
    (∀ (w : ℕ) (q : Serdiv w t) (u : ℕ → SerdivIn w t), 2 ≤ w → q.state = .idle → (u 0).inVld = true →
      (∀ n, (u n).flush = false) →
      (q.Divides u ↔ 32 ≤ w ∨ ¬ (Serdiv.isSigned (u 0) = true ∧ (u 0).opA = -1#w ∧ (u 0).opB = 1#w))) ∧
    (∀ (w : ℕ) (q : Serdiv w t) (i : SerdivIn w t), i.flush = true → (q.step i).state = .idle) ∧
    ∀ (q : Mult t) (u : ℕ → MultIn t), q.div.state = .idle → Mult.divReq (u 0) = true →
      (∀ n, (u n).flush = false) →
      (∀ n, ((Mult.machine t).states q u n).div.state ≠ .idle → Mult.divReq (u n) = false) →
      ∃ n, 0 < n ∧ n ≤ 66 ∧
        ∀ m, n ≤ m → (∀ k, n ≤ k → k < m → (u k).mulValid = true) →
          (((Mult.machine t).states q u m).out (u m)).valid = true ∧
          ((u m).mulValid = false →
            (((Mult.machine t).states q u m).out (u m)).transId = (u 0).transId ∧
            (((Mult.machine t).states q u m).out (u m)).result =
              (u 0).operation.spec (u 0).operandA (u 0).operandB) := by
  refine ⟨fun w q u hw hs hv hf => ?_, fun w q i hf => Serdiv.flush_idle hf,
    fun q u hs hr hf hbusy => Mult.division_delivered hs hr hf hbusy⟩
  have hcond : ¬ Serdiv.Truncates (u 0) ↔
      32 ≤ w ∨ ¬ (Serdiv.isSigned (u 0) = true ∧ (u 0).opA = -1#w ∧ (u 0).opB = 1#w) := by
    rw [Serdiv.Truncates, Serdiv.Missed, ← Nat.not_lt]
    tauto
  rw [← hcond]
  exact ⟨fun hd hg => Serdiv.not_divides hw hg hs hv hf hd, fun hg => Serdiv.divides hw hg hs hv hf⟩

/-- The signed division of -1 by 1, the dividend of which has a zero complement. -/
def minusOneIn : SerdivIn 64 3 := ⟨5, -1, 1, 1, true, false, false⟩

theorem division_correct_minus_one : ∃ n, 0 < n ∧ n ≤ 66 ∧
    ((Serdiv.machine 64 3).states .reset (fun _ => minusOneIn) n).resO = -1 := by
  obtain ⟨n, h1, h2, -, h4⟩ :=
    ((division_correct 3).1 64 .reset (fun _ => minusOneIn) (by decide) rfl rfl fun _ => rfl).mpr (.inl (by decide))
  exact ⟨n, h1, h2, (h4 n le_rfl fun k hk hkn => by omega).2.2.trans (by decide +kernel)⟩

/-! ### A narrow divider -/

/-- The same division in 8 bits. -/
def narrowIn : SerdivIn 8 3 := ⟨5, -1, 1, 1, true, false, false⟩

/-- The dividend is not recognised as -1, so the divisor seems to be larger and the quotient is zero. -/
theorem division_narrow : Serdiv.shiftA narrowIn = 8 ∧ Serdiv.divShift narrowIn = -1 ∧
    ((Serdiv.reset : Serdiv 8 3).step narrowIn).resO = 0 ∧ ¬ (Serdiv.reset : Serdiv 8 3).Divides fun _ => narrowIn := by
  refine ⟨by decide +kernel, by decide +kernel, by decide +kernel, ?_⟩
  rintro ⟨n, h1, -, h3, h4⟩
  have hvld : (((Serdiv.machine 8 3).states .reset (fun _ => narrowIn) 1).fsm narrowIn).outVld = true :=
    by decide +kernel
  obtain rfl : n = 1 := by
    by_contra hn
    exact Bool.false_ne_true ((h3 1 (by omega)).symm.trans hvld)
  have hres := (h4 1 le_rfl fun k hk hk' => absurd hk' (by omega)).2.2
  revert hres
  decide +kernel

end Culsans.Core
