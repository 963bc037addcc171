import Culsans.Core.StoreUnit
import Culsans.Dcache.MissHandler
import Culsans.Dcache.AxiAdapter

/-! # Atomics on byte lanes

What the RISC-V atomics do to the 8-byte word they address, and what the memory side
does with an AXI write: atomics on the lanes of their size, exclusive writes if they
succeed. The operand and the lanes chosen by the miss handler make the two agree.
-/

namespace Culsans.Core.FuOp
variable {n : ℕ}

/-! ### The instructions -/

def isWord : FuOp → Bool
  | amoLrw | amoScw | amoSwapw | amoAddw | amoAndw | amoOrw | amoXorw | amoMaxw | amoMaxwu | amoMinw
  | amoMinwu => true
  | _ => false

def isLr : FuOp → Bool
  | amoLrw | amoLrd => true
  | _ => false

def isSc : FuOp → Bool
  | amoScw | amoScd => true
  | _ => false

/-- The operation on the old value and `rs2`. -/
def combine (op : FuOp) (old rs2 : BitVec n) : BitVec n :=
  match op with
  | amoAddw | amoAddd => old + rs2
  | amoAndw | amoAndd => old &&& rs2
  | amoOrw | amoOrd => old ||| rs2
  | amoXorw | amoXord => old ^^^ rs2
  | amoMaxw | amoMaxd => if old.slt rs2 then rs2 else old
  | amoMaxwu | amoMaxdu => if old.ult rs2 then rs2 else old
  | amoMinw | amoMind => if old.slt rs2 then old else rs2
  | amoMinwu | amoMindu => if old.ult rs2 then old else rs2
  | _ => rs2

/-- The value left in memory; `ok` is the fate of a store-conditional. -/
def stored (op : FuOp) (ok : Bool) (old rs2 : BitVec n) : BitVec n :=
  if op.isLr then old else if op.isSc && !ok then old else op.combine old rs2

/-- The value returned. -/
def returned (op : FuOp) (ok : Bool) (old : BitVec n) : BitVec n :=
  if op.isSc then (if ok then 0 else 1) else old

/-- The half of a word that is addressed. -/
def half (upper : Bool) (v : BitVec 64) : BitVec 32 := if upper then v.extractLsb' 32 32 else v.extractLsb' 0 32

def setHalf (upper : Bool) (v : BitVec 64) (x : BitVec 32) : BitVec 64 :=
  if upper then x ++ v.extractLsb' 0 32 else v.extractLsb' 32 32 ++ x

/-- The 8-byte word after the instruction. -/
def memory (op : FuOp) (upper ok : Bool) (old rs2 : BitVec 64) : BitVec 64 :=
  if op.isWord then setHalf upper old (op.stored ok (half upper old) (rs2.setWidth 32)) else op.stored ok old rs2

/-- The register written by the instruction. -/
def result (op : FuOp) (upper ok : Bool) (old : BitVec 64) : BitVec 64 :=
  if op.isWord then (op.returned ok (half upper old)).signExtend 64 else op.returned ok old

end Culsans.Core.FuOp

namespace Culsans.Subsystem
open Dcache Culsans.Core Library

/-! ### The memory side -/

/-- The AXI5 atomics. -/
def axiAtomic {n : ℕ} (t : Atop) (old data : BitVec n) : BitVec n :=
  match t with
  | .none | .swap => data
  | .add => old + data
  | .clr => old &&& ~~~data
  | .set => old ||| data
  | .eor => old ^^^ data
  | .smax => if old.slt data then data else old
  | .umax => if old.ult data then data else old
  | .smin => if old.slt data then old else data
  | .umin => if old.ult data then old else data

/-- The first lane of a transfer of `n` bytes. -/
def firstLane (addr : Offset) (n : ℕ) : ℕ := addr.toNat % 8 / n * n

def lanes (w : Word) (b n : ℕ) : Fin n → Byte := fun j => w (Fin.ofNat 8 (b + j.val))

/-- The word with an operation done on the lanes of a transfer. -/
def onLanes (t : Atop) (addr : Offset) (size : BitVec 2) (old data : Word) : Word := fun k =>
  let n := 2 ^ size.toNat
  let b := firstLane addr n
  if h : b ≤ k.val ∧ k.val < b + n then
    toBytes (axiAtomic t (ofBytes (lanes old b n)) (ofBytes (lanes data b n))) ⟨k.val - b, by omega⟩
  else old k

theorem onLanes_word {b : ℕ} (t : Atop) {addr : Offset} (hb : firstLane addr 4 = b) (old data : Word) (k : Fin 8) :
    onLanes t addr 2 old data k =
      if h : b ≤ k.val ∧ k.val < b + 4 then
        toBytes (axiAtomic t (ofBytes (lanes old b 4)) (ofBytes (lanes data b 4))) (⟨k.val - b, by omega⟩ : Fin 4)
      else old k := by
  subst hb
  rfl

theorem onLanes_double (t : Atop) (addr : Offset) (old data : Word) (k : Fin 8) :
    onLanes t addr 3 old data k = toBytes (axiAtomic t (ofBytes old) (ofBytes data)) k := by
  have hb : firstLane addr 8 = 0 := by
    simp only [firstLane]
    omega
  have hall : ∀ w : Word, lanes w 0 8 = w := by
    intro w
    funext j
    have hj := j.isLt
    simp only [lanes, Nat.zero_add]
    congr 1
    ext
    simp only [Fin.val_ofNat]
    omega
  have hk := k.isLt
  have hn : 2 ^ (3 : BitVec 2).toNat = 8 := rfl
  simp only [onLanes, hn, hb]
  rw [dif_pos ⟨Nat.zero_le _, by omega⟩]
  change toBytes (axiAtomic t (ofBytes (lanes old 0 8)) (ofBytes (lanes data 0 8))) k = _
  rw [hall, hall]

/-- A write of one beat: only strobed lanes change, and an exclusive write may fail. -/
def execute (aw : AwChan) (w : WChan) (ok : Bool) (old : Word) : Word := fun k =>
  if w.strb k && !(aw.lock && !ok) then onLanes aw.atop aw.addr.offset aw.size old w.data k else old k

/-! ### Lanes and halves -/

/-- Naturally aligned for the size of the instruction. -/
def Aligned (op : FuOp) (p : PAddr) : Prop := p.offset.toNat % 2 ^ op.extractTransferSize.toNat = 0

/-- Address bit 2. -/
def upper (p : PAddr) : Bool := p.offset.getLsbD 2

theorem ofBytes_lanes (w : Word) {b n : ℕ} (h : b + n ≤ 8) :
    ofBytes (lanes w b n) = (ofBytes w).extractLsb' (8 * b) (8 * n) := by
  rw [← ofBytes_slice w b h]
  congr 1
  funext j
  have hj := j.isLt
  simp only [lanes]
  congr 1
  ext
  simp only [Fin.val_ofNat]
  omega

theorem ofBytes_lanes_negate (w : Word) (b n : ℕ) :
    ofBytes (lanes (MissHandler.negate w) b n) = ~~~ ofBytes (lanes w b n) := ofBytes_not _

theorem lanes_upperHalf (w : Word) : lanes (MissHandler.upperHalf w) 4 4 = lanes w 0 4 := by
  funext j
  have hj := j.isLt
  have hval : (Fin.ofNat 8 (4 + j.val)).val = 4 + j.val := by
    simp only [Fin.val_ofNat]
    omega
  simp only [lanes, MissHandler.upperHalf, hval]
  rw [if_pos (by omega)]
  congr 1
  ext
  simp only [Fin.val_ofNat]
  omega

theorem ofBytes_lanes_half (v : BitVec 64) (u : Bool) :
    ofBytes (lanes (toBytes (v : BitVec (8 * 8))) (4 * u.toNat) 4) = FuOp.half u v := by
  cases u <;> rw [ofBytes_lanes _ (by decide), ofBytes_toBytes] <;> rfl

theorem getLsbD_half (v : BitVec 64) (u : Bool) {i : ℕ} (hi : i < 32) :
    (FuOp.half u v).getLsbD i = v.getLsbD (32 * u.toNat + i) := by
  cases u <;> simp [FuOp.half, hi]

theorem setHalf_half (v : BitVec 64) (u : Bool) : FuOp.setHalf u v (FuOp.half u v) = v := by
  apply BitVec.eq_of_getLsbD_eq
  intro i hi
  cases u <;> simp only [FuOp.setHalf, FuOp.half, Bool.false_eq_true, if_false, if_true, BitVec.getLsbD_append,
    BitVec.getLsbD_extractLsb'] <;> split_ifs with h
  · simp [h]
  · rw [decide_eq_true (by omega), Bool.true_and, Nat.add_sub_cancel' (by omega)]
  · simp [h]
  · rw [decide_eq_true (by omega), Bool.true_and, Nat.add_sub_cancel' (by omega)]

/-- A half is replaced by the bytes of a number. -/
theorem toBytes_setHalf (v : BitVec 64) (x : BitVec 32) (u : Bool) (k : Fin 8) :
    toBytes (FuOp.setHalf u v x : BitVec (8 * 8)) k =
      if h : 4 * u.toNat ≤ k.val ∧ k.val < 4 * u.toNat + 4 then
        toBytes (x : BitVec (8 * 4)) (⟨k.val - 4 * u.toNat, by omega⟩ : Fin 4)
      else toBytes (v : BitVec (8 * 8)) k := by
  have hk := k.isLt
  apply BitVec.eq_of_getLsbD_eq
  intro i hi
  rw [getLsbD_toBytes _ _ hi]
  cases u with
  | false =>
    simp only [FuOp.setHalf, Bool.false_eq_true, if_false, BitVec.getLsbD_append, BitVec.getLsbD_extractLsb',
      Bool.toNat_false, Nat.mul_zero, Nat.zero_le, true_and, Nat.zero_add, Nat.sub_zero]
    split_ifs with h1 h2 h2
    · rw [getLsbD_toBytes _ _ hi]
    · omega
    · omega
    · rw [getLsbD_toBytes _ _ hi, decide_eq_true (by omega), Bool.true_and]
      congr 1
      omega
  | true =>
    simp only [FuOp.setHalf, if_true, BitVec.getLsbD_append, BitVec.getLsbD_extractLsb', Bool.toNat_true,
      Nat.mul_one, Nat.zero_add]
    split_ifs with h1 h2 h2
    · omega
    · rw [getLsbD_toBytes _ _ hi, decide_eq_true (by omega), Bool.true_and]
    · rw [getLsbD_toBytes _ _ hi]
      congr 1
      simp only
      omega
    · omega

theorem signExtend_eq (w : Word) (u : Bool) (k : Fin 8) : MissHandler.signExtend (!u) w k =
    if h : k.val < 4 then w ⟨4 * u.toNat + k.val, by have := u.toNat_le; omega⟩
    else if (w ⟨4 * u.toNat + 3, by have := u.toNat_le; omega⟩).getLsbD 7 then 255 else 0 := by
  cases u <;> rfl

theorem signExtend_toBytes (v : BitVec 64) (u : Bool) : MissHandler.signExtend (!u) (toBytes (v : BitVec (8 * 8))) =
    toBytes ((FuOp.half u v).signExtend 64 : BitVec (8 * 8)) := by
  have hone : ∀ i : ℕ, i < 8 → (255 : Byte).getLsbD i = true := by decide
  funext k
  have hk := k.isLt
  have hu := u.toNat_le
  apply BitVec.eq_of_getLsbD_eq
  intro i hi
  rw [getLsbD_toBytes _ _ hi, BitVec.getLsbD_signExtend, decide_eq_true (by omega), Bool.true_and, signExtend_eq]
  split_ifs with h4 h32 hs h32
  · rw [getLsbD_toBytes _ _ hi, getLsbD_half _ _ h32]
    congr 1
    simp only
    omega
  · omega
  · omega
  · rw [getLsbD_toBytes _ _ (by decide)] at hs
    rw [hone i hi, BitVec.msb_eq_getLsbD_last, getLsbD_half _ _ (by decide), ← hs]
    congr 1
    simp only
    omega
  · omega
  · rw [getLsbD_toBytes _ _ (by decide), Bool.not_eq_true] at hs
    have hz : (0 : Byte).getLsbD i = false := BitVec.getLsbD_zero
    rw [hz, BitVec.msb_eq_getLsbD_last, getLsbD_half _ _ (by decide), ← hs]
    congr 1
    simp only
    omega

/-! ### The operand -/

/-- The AXI operation and the operand of an instruction make what the instruction means. -/
theorem axiAtomic_combine {n : ℕ} (op : FuOp) (hop : op.isAmo = true) (hlr : op.isLr = false) (old rs2 : BitVec n) :
    axiAtomic (atopFromAmo op.amoOpD) old (if op.amoOpD = .and then ~~~ rs2 else rs2) = op.combine old rs2 := by
  cases op <;> simp_all [FuOp.isAmo, FuOp.isLr, FuOp.amoOpD, atopFromAmo, axiAtomic, FuOp.combine]

/-- Every AMO but LR and SC returns data. -/
theorem amoReturnsData_iff (op : FuOp) (hop : op.isAmo = true) (hlr : op.isLr = false) :
    amoReturnsData op.amoOpD = !op.isSc := by
  revert hop hlr
  cases op <;> decide

theorem amoOpD_eq_sc (op : FuOp) : (op.amoOpD == .sc) = op.isSc := by
  cases op <;> rfl

theorem amoOpD_eq_lr (op : FuOp) : (op.amoOpD == .lr) = op.isLr := by
  cases op <;> rfl

theorem low_iff (p : PAddr) (h : p.offset.toNat % 4 = 0) : (p.offset.getLsbD 0 = false ∧
    p.offset.getLsbD 1 = false ∧ p.offset.getLsbD 2 = false) ↔ upper p = false := by
  have hall : ∀ o : Offset, o.toNat % 4 = 0 → ((o.getLsbD 0 = false ∧ o.getLsbD 1 = false ∧ o.getLsbD 2 = false) ↔
      o.getLsbD 2 = false) := by decide
  exact hall p.offset h

theorem firstLane_word (p : PAddr) : firstLane p.offset 4 = 4 * (upper p).toNat := by
  have hall : ∀ o : Offset, firstLane o 4 = 4 * (o.getLsbD 2).toNat := by decide
  exact hall p.offset

theorem size_word {op : FuOp} (h : op.isWord = true) : op.extractTransferSize = 2 := by
  cases op <;> simp_all [FuOp.isWord, FuOp.extractTransferSize]

theorem size_double {op : FuOp} (hop : op.isAmo = true) (h : op.isWord = false) : op.extractTransferSize = 3 := by
  cases op <;> simp_all [FuOp.isWord, FuOp.isAmo, FuOp.extractTransferSize]

/-! ### The request of the miss handler -/

section Request
variable {c : Cfg} {q : MissHandler} {op : FuOp} {p : PAddr} {rs2 old : BitVec 64}

theorem amoReq_operand (hop : op.isAmo = true) : (amoReqO op p rs2).operandB = toBytes (rs2 : BitVec (8 * 8)) := by
  simp [amoReqO, stDataN, hop]

/-- A doubleword: all lanes, and the operand negated for CLR. -/
theorem request_double (hq : q.state = .amoReq) (hop : op.isAmo = true) (hw : op.isWord = false) :
    (q.amoBypassReq c (amoReqO op p rs2)).be = (fun _ => true) ∧
      (q.amoBypassReq c (amoReqO op p rs2)).wdata =
        if op.amoOpD = .and then MissHandler.negate (toBytes (rs2 : BitVec (8 * 8)))
        else toBytes (rs2 : BitVec (8 * 8)) := by
  have hs : (amoReqO op p rs2).size = 3 := size_double hop hw
  simp only [MissHandler.amoBypassReq, hq, beq_self_eq_true, if_true, hs, true_or, amoReq_operand hop, beq_iff_eq]
  exact ⟨trivial, rfl⟩

/-- A word: the lanes of its half, where the low half of the operand lies. -/
theorem request_word (hq : q.state = .amoReq) (hop : op.isAmo = true) (hw : op.isWord = true) (hal : Aligned op p) :
    (∀ k, (q.amoBypassReq c (amoReqO op p rs2)).be k =
      decide (4 * (upper p).toNat ≤ k.val ∧ k.val < 4 * (upper p).toNat + 4)) ∧
      lanes (q.amoBypassReq c (amoReqO op p rs2)).wdata (4 * (upper p).toNat) 4 =
        lanes (if op.amoOpD = .and then MissHandler.negate (toBytes (rs2 : BitVec (8 * 8)))
          else toBytes (rs2 : BitVec (8 * 8))) 0 4 := by
  have hs : (amoReqO op p rs2).size = 2 := size_word hw
  have hlow := low_iff p (by simpa [Aligned, size_word hw] using hal)
  have ha : (amoReqO op p rs2).operandA = p := rfl
  simp only [MissHandler.amoBypassReq, hq, beq_self_eq_true, if_true, hs, ha, hlow, amoReq_operand hop, beq_iff_eq]
  have hne : ¬ (2 : BitVec 2) = 3 := by decide
  cases hu : upper p
  · simp only [if_neg hne, or_true, if_true, Bool.toNat_false, Nat.mul_zero, Nat.zero_le, true_and, Nat.zero_add]
    exact ⟨fun _ => trivial, rfl⟩
  · simp only [hne, or_self, Bool.true_eq_false, if_false, Bool.toNat_true, Nat.mul_one]
    refine ⟨fun k => ?_, lanes_upperHalf _⟩
    have hk := k.isLt
    rw [decide_eq_decide]
    omega

/-- The operation of the memory side on the lanes of the request is that of the instruction. -/
theorem onLanes_request (hq : q.state = .amoReq) (hop : op.isAmo = true) (hlr : op.isLr = false)
    (hal : Aligned op p) (k : Fin 8) :
    (if (q.amoBypassReq c (amoReqO op p rs2)).be k then
      onLanes (atopFromAmo op.amoOpD) p.offset op.extractTransferSize (toBytes (old : BitVec (8 * 8)))
        (q.amoBypassReq c (amoReqO op p rs2)).wdata k
      else toBytes (old : BitVec (8 * 8)) k) =
    toBytes ((if op.isWord then
      FuOp.setHalf (upper p) old (op.combine (FuOp.half (upper p) old) (rs2.setWidth 32))
      else op.combine old rs2 : BitVec 64) : BitVec (8 * 8)) k := by
  have hk := k.isLt
  cases hw : op.isWord with
  | true =>
    obtain ⟨hbe, hwd⟩ := @request_word c q op p rs2 hq hop hw hal
    have hdata : ofBytes (lanes (if op.amoOpD = .and then MissHandler.negate (toBytes (rs2 : BitVec (8 * 8)))
        else toBytes (rs2 : BitVec (8 * 8))) 0 4) =
        (if op.amoOpD = .and then ~~~ (rs2.setWidth 32) else rs2.setWidth 32 : BitVec 32) := by
      have hlow : ofBytes (lanes (toBytes (rs2 : BitVec (8 * 8))) 0 4) = rs2.setWidth 32 :=
        (ofBytes_lanes_half rs2 false).trans (BitVec.setWidth_eq_extractLsb' (by decide)).symm
      split_ifs
      · rw [ofBytes_lanes_negate, hlow]
      · exact hlow
    rw [if_pos rfl, toBytes_setHalf, hbe k, size_word hw, onLanes_word _ (firstLane_word p), hwd, ofBytes_lanes_half,
      hdata, axiAtomic_combine op hop hlr]
    split_ifs with h1 h2 h2
    · rfl
    · exact absurd (of_decide_eq_true h1) h2
    · exact absurd (decide_eq_true h2) h1
    · rfl
  | false =>
    obtain ⟨hbe, hwd⟩ := @request_double c q op p rs2 hq hop hw
    have hdata : ofBytes (if op.amoOpD = .and then MissHandler.negate (toBytes (rs2 : BitVec (8 * 8)))
        else toBytes (rs2 : BitVec (8 * 8))) = (if op.amoOpD = .and then ~~~ rs2 else rs2 : BitVec 64) := by
      split_ifs
      · exact (ofBytes_not _).trans (by rw [ofBytes_toBytes])
      · exact ofBytes_toBytes _
    rw [hbe, hwd, size_double hop hw, onLanes_double, ofBytes_toBytes, hdata]
    simp only [if_true, Bool.false_eq_true, if_false]
    exact congrArg (fun v => toBytes v k) (axiAtomic_combine op hop hlr old rs2)

/-- What an accepted request leaves in memory. -/
theorem execute_request (hq : q.state = .amoReq) (hop : op.isAmo = true) (hlr : op.isLr = false)
    (hal : Aligned op p) (ok : Bool) {aw : AwChan} {w : WChan} (ha : aw.addr = p)
    (hs : aw.size = op.extractTransferSize) (ht : aw.atop = atopFromAmo op.amoOpD) (hl : aw.lock = op.isSc)
    (hw : w.data = (q.amoBypassReq c (amoReqO op p rs2)).wdata)
    (hb : w.strb = (q.amoBypassReq c (amoReqO op p rs2)).be) :
    execute aw w ok (toBytes (old : BitVec (8 * 8))) =
      toBytes (op.memory (upper p) ok old rs2 : BitVec (8 * 8)) := by
  funext k
  simp only [execute, ha, hs, ht, hl, hw, hb]
  cases hfail : op.isSc && !ok
  · have hrun := @onLanes_request c q op p rs2 old hq hop hlr hal k
    simpa [FuOp.memory, FuOp.stored, hlr, hfail] using hrun
  · -- a failed store-conditional writes nothing
    simp only [Bool.not_true, Bool.and_false, Bool.false_eq_true, if_false, FuOp.memory, FuOp.stored, hlr, hfail,
      if_true, setHalf_half, ite_self]

/-- The answer of the miss handler: a word is taken from the addressed half and sign-extended. -/
theorem result_request (hop : op.isAmo = true) (hal : Aligned op p) (v : BitVec 64) :
    (if op.extractTransferSize = 2 then
        MissHandler.signExtend (decide (p.offset.extractLsb' 0 3 = 0)) (toBytes (v : BitVec (8 * 8)))
      else toBytes (v : BitVec (8 * 8))) =
    toBytes ((if op.isWord then (FuOp.half (upper p) v).signExtend 64 else v : BitVec 64) : BitVec (8 * 8)) := by
  cases hw : op.isWord with
  | false => simp [size_double hop hw]
  | true =>
    have hlow : decide (p.offset.extractLsb' 0 3 = 0) = !upper p := by
      have hall : ∀ o : Offset, o.toNat % 4 = 0 → decide (o.extractLsb' 0 3 = 0) = !o.getLsbD 2 := by decide
      exact hall p.offset (by simpa [Aligned, size_word hw] using hal)
    rw [if_pos (size_word hw), if_pos rfl, hlow, signExtend_toBytes]

/-- The word a store-conditional answers with holds its fate in either half. -/
theorem scAnswer (hsc : op.isSc = true) (u ok : Bool) :
    ∃ v : BitVec 64, (if ok then (fun _ => 0) else AxiAdapter.scFailure op.extractTransferSize) =
        toBytes (v : BitVec (8 * 8)) ∧
      (op.isWord = true → FuOp.half u v = if ok then 0 else 1) ∧ (op.isWord = false → v = if ok then 0 else 1) := by
  have hz : (fun _ => 0 : Word) = toBytes (0 : BitVec (8 * 8)) := by decide
  cases ok
  · cases op <;> simp only [FuOp.isSc, Bool.false_eq_true] at hsc
    · exact ⟨0x0000000100000001, by decide, fun _ => by cases u <;> rfl, fun h => absurd h (by decide)⟩
    · exact ⟨1, by decide, fun h => absurd h (by decide), fun _ => rfl⟩
  · exact ⟨0, hz, fun _ => by cases u <;> rfl, fun _ => rfl⟩

end Request
end Culsans.Subsystem
