import Culsans.Core.Serdiv

/-! # The loop of the serial divider

Every iteration finds one bit of the quotient of the magnitudes, whatever the sign in
which the loop runs. By zero every bit is set and the dividend is left.
-/

namespace Culsans.Core
open Library
variable {w t : ℕ}

namespace Serdiv

/-! ### The loop -/

section Loop
variable {i j : SerdivIn w t} {q : Serdiv w t} {n r c : ℕ}

/-- The sign of the numbers in the loop. -/
def neg (i : SerdivIn w t) : Bool := isSigned i && i.opB.msb

def dividend (i : SerdivIn w t) : ℕ := mag (isSigned i) i.opA

def divisor (i : SerdivIn w t) : ℕ := mag (isSigned i) i.opB

theorem divisor_eq_zero : divisor i = 0 ↔ i.opB = 0 := mag_eq_zero

theorem neg_of_zero (h : divisor i = 0) : neg i = false := by
  rw [divisor_eq_zero] at h
  simp [neg, h]

theorem dividend_lt : dividend i < 2 ^ w := mag_lt

/-- The comparator compares magnitudes. -/
theorem abComp_eq (ha : q.opA = rep w q.compInv r) (hb : q.opB = rep w q.compInv c) (hz : q.opBZero = false)
    (hr : r < 2 ^ w) (hc : 0 < c) (hcw : c ≤ 2 ^ w) (hcp : q.compInv = false → c < 2 ^ w) :
    q.abComp = decide (c ≤ r) := by
  have hp : 0 < 2 ^ w := Nat.two_pow_pos w
  rcases Nat.eq_zero_or_pos r with rfl | hr0
  · simp [abComp, ha, hz, show ¬ c ≤ 0 by omega]
  · have hane : (q.opA != 0) = true := by
      rw [bne_iff_ne, ne_eq, ha]
      intro h0
      have hn := congrArg BitVec.toNat h0
      cases hi : q.compInv with
      | false => rw [hi, rep_false_toNat hr] at hn; simp at hn; omega
      | true => rw [hi, rep_true_toNat hr0 hr.le] at hn; simp at hn; omega
    rw [abComp, hane, Bool.true_or, Bool.and_true, Bool.eq_iff_iff, decide_eq_true_eq, Bool.or_eq_true, beq_iff_eq,
      ← BitVec.toNat_inj, BitVec.ult, ha, hb]
    cases hi : q.compInv with
    | false =>
      rw [rep_false_toNat hr, rep_false_toNat (hcp hi)]
      simp
      omega
    | true =>
      rw [rep_true_toNat hr0 hr.le, rep_true_toNat hc hcw]
      simp
      omega

theorem abComp_zero (hb : q.opB = 0) (hi : q.compInv = false) (hz : q.opBZero = true) : q.abComp = true := by
  rw [abComp, hb, hi, hz, Bool.or_true, Bool.and_true]
  cases h : q.opA == 0 with
  | true => rfl
  | false =>
    rw [beq_eq_false_iff_ne, ne_eq, ← BitVec.toNat_inj] at h
    have hpos : 0 < q.opA.toNat := Nat.pos_of_ne_zero (by simpa using h)
    simp [BitVec.ult, hpos]

theorem toNat_append_bit {v : ℕ} (x : BitVec v) (b : Bool) :
    (x ++ BitVec.ofBool b).toNat = 2 * x.toNat + b.toNat := by
  have hb : b.toNat < 2 ^ 1 := Bool.toNat_lt b
  rw [BitVec.toNat_append, BitVec.toNat_ofBool, ← Nat.shiftLeft_add_eq_or_of_lt hb, Nat.shiftLeft_eq]
  ring

/-- A quotient bit is shifted in. -/
theorem append_bit (b : Bool) :
    (BitVec.ofNat w n ++ BitVec.ofBool b).setWidth w = BitVec.ofNat w (2 * n + b.toNat) := by
  apply BitVec.eq_of_toNat_eq
  rw [BitVec.toNat_setWidth, toNat_append_bit, BitVec.toNat_ofNat, BitVec.toNat_ofNat]
  simp [Nat.add_mod, Nat.mul_mod]

/-- The divisor moves one place. -/
theorem rep_half (hw : 0 < w) (hc : q.compInv = true → 0 < c) (hcw : 2 * c ≤ 2 ^ w)
    (hcp : q.compInv = false → 2 * c < 2 ^ w) (hb : q.opB = rep w q.compInv (2 * c)) :
    (BitVec.ofBool q.compInv ++ q.opB.extractLsb' 1 (w - 1)).setWidth w = rep w q.compInv c := by
  have hp : 2 ^ w = 2 * 2 ^ (w - 1) := by
    rw [← Nat.pow_succ', Nat.succ_eq_add_one, Nat.sub_add_cancel hw]
  have hlow : (q.opB.extractLsb' 1 (w - 1)).toNat = q.opB.toNat / 2 := by
    have hx := q.opB.isLt
    rw [BitVec.extractLsb'_toNat, Nat.shiftRight_one, Nat.mod_eq_of_lt (by omega)]
  apply BitVec.eq_of_toNat_eq
  have hlt : q.opB.toNat / 2 < 2 ^ (w - 1) := by
    have hx := q.opB.isLt
    omega
  rw [BitVec.toNat_setWidth, BitVec.toNat_append, hlow, BitVec.toNat_ofBool, ← Nat.shiftLeft_add_eq_or_of_lt hlt,
    Nat.shiftLeft_eq, hb]
  cases hi : q.compInv with
  | false =>
    have h2 := hcp hi
    rw [rep_false_toNat h2, rep_false_toNat (by omega), Bool.toNat_false, Nat.zero_mul, Nat.zero_add,
      Nat.mul_div_cancel_left c (by omega)]
    exact Nat.mod_eq_of_lt (by omega)
  | true =>
    have h0 := hc hi
    rw [rep_true_toNat (by omega) hcw, rep_true_toNat h0 (by omega)]
    rw [Bool.toNat_true, Nat.one_mul, show 2 ^ (w - 1) + (2 ^ w - 2 * c) / 2 = 2 ^ w - c by omega]
    exact Nat.mod_eq_of_lt (by omega)

/-- The flags of the operation under way. -/
structure Loaded (i : SerdivIn w t) (q : Serdiv w t) : Prop where
  id : q.id = i.id
  remSel : q.remSel = isRem i
  compInv : q.compInv = neg i
  resInv : q.resInv = ((!(i.opB == 0) || isRem i) && isSigned i && (i.opA.msb != i.opB.msb))
  opBZero : q.opBZero = (i.opB == 0)

/-- With quotient bits to be found from `s` down, `n` is found and `r` is left; by zero all bits are set. -/
structure Found (i : SerdivIn w t) (s n r : ℕ) : Prop where
  div : divisor i ≠ 0 → LongDivision (dividend i) (divisor i) s n r
  zero : divisor i = 0 → r = dividend i ∧ n + 1 = 2 ^ (w + 1 - s)

/-- The loop, with the bit `cnt` to be found next. -/
structure Dividing (i : SerdivIn w t) (q : Serdiv w t) : Prop extends Loaded i q where
  state : q.state = .divide
  divResZero : q.divResZero = false
  cnt : q.cnt ≤ w
  opB : q.opB = rep w (neg i) (divisor i * 2 ^ q.cnt)
  fits : divisor i * 2 ^ q.cnt ≤ 2 ^ w
  fitsPos : neg i = false → divisor i * 2 ^ q.cnt < 2 ^ w
  found : ∃ n r, Found i (q.cnt + 1) n r ∧ r < 2 ^ w ∧ q.opA = rep w (neg i) r ∧ q.res = BitVec.ofNat w n

/-- The result is in the registers. -/
structure Done (i : SerdivIn w t) (q : Serdiv w t) : Prop extends Loaded i q where
  state : q.state = .finish ∨ (q.state = .divide ∧ q.divResZero = true)
  found : ∃ n r, Found i 0 n r ∧ q.opA = rep w (neg i) r ∧ q.res = BitVec.ofNat w n

theorem Loaded.step (h : Loaded i q) (hs : q.state ≠ .idle) (hf : j.flush = false) : Loaded i (q.step j) := by
  have hl : (q.fsm j).loadEn = false := by
    cases hst : q.state with
    | idle => exact absurd hst hs
    | divide =>
      rw [fsm, hst, hf]
      dsimp only
      split_ifs <;> rfl
    | finish => simp [fsm, hst, hf]
  simp only [Serdiv.step, hl, Bool.false_eq_true, if_false]
  exact ⟨h.id, h.remSel, h.compInv, h.resInv, h.opBZero⟩

theorem Found.next_set {s : ℕ} (h : Found i (s + 1) n r) (hs : s ≤ w) (hle : divisor i * 2 ^ s ≤ r) :
    Found i s (2 * n + 1) (r - divisor i * 2 ^ s) where
  div hb := (h.div hb).set hle
  zero hb := by
    obtain ⟨hr, hn⟩ := h.zero hb
    rw [hb, Nat.zero_mul, Nat.sub_zero]
    refine ⟨hr, ?_⟩
    rw [show w + 1 - s = w + 1 - (s + 1) + 1 by omega, pow_succ]
    omega

theorem Found.next_skip {s : ℕ} (h : Found i (s + 1) n r) (hlt : r < divisor i * 2 ^ s) : Found i s (2 * n) r where
  div hb := (h.div hb).skip hlt
  zero hb := by
    rw [hb, Nat.zero_mul] at hlt
    omega

/-- The comparator of the loop. -/
theorem Dividing.abComp (h : Dividing i q) (ha : q.opA = rep w (neg i) r) (hr : r < 2 ^ w) :
    q.abComp = decide (divisor i * 2 ^ q.cnt ≤ r) := by
  rcases Nat.eq_zero_or_pos (divisor i) with h0 | h0
  · have hb : q.opB = 0 := by rw [h.opB, h0, Nat.zero_mul, rep_zero]
    rw [abComp_zero hb (h.compInv.trans (neg_of_zero h0)) (h.opBZero.trans (by simp [divisor_eq_zero.mp h0]))]
    simp [h0]
  · have hz : q.opBZero = false := by
      rw [h.opBZero, beq_eq_false_iff_ne, ne_eq, ← divisor_eq_zero]
      omega
    refine abComp_eq (by rw [ha, h.compInv]) (by rw [h.opB, h.compInv]) hz hr ?_ h.fits fun hi => ?_
    · exact Nat.mul_pos h0 (Nat.two_pow_pos _)
    · exact h.fitsPos (h.compInv.symm.trans hi)

/-- One iteration finds one bit. -/
theorem Dividing.iterate (h : Dividing i q) (hf : j.flush = false) :
    ∃ n r, Found i q.cnt n r ∧ r < 2 ^ w ∧ (q.step j).opA = rep w (neg i) r ∧ (q.step j).res = BitVec.ofNat w n := by
  obtain ⟨n, r, hfound, hr, ha, hres⟩ := h.found
  have hcomp := h.abComp ha hr
  have hstep : (q.step j).opA = (if q.abComp then q.opA - q.opB else q.opA) ∧
      (q.step j).res = (q.res ++ BitVec.ofBool q.abComp).setWidth w := by
    simp [Serdiv.step, fsm, h.state, h.divResZero, hf, addOut]
  by_cases hle : divisor i * 2 ^ q.cnt ≤ r
  · refine ⟨_, _, hfound.next_set h.cnt hle, by omega, ?_, ?_⟩
    · rw [hstep.1, hcomp, decide_eq_true hle, if_pos rfl, ha, h.opB, rep_sub hle]
    · rw [hstep.2, hcomp, decide_eq_true hle, hres, append_bit]
      rfl
  · refine ⟨_, _, hfound.next_skip (by omega), hr, ?_, ?_⟩
    · rw [hstep.1, hcomp, decide_eq_false hle, if_neg (by simp), ha]
    · rw [hstep.2, hcomp, decide_eq_false hle, hres, append_bit]
      rfl

theorem Dividing.step (hw : 0 < w) (h : Dividing i q) (hf : j.flush = false) :
    (q.cnt = 0 ∧ Done i (q.step j)) ∨ (Dividing i (q.step j) ∧ (q.step j).cnt + 1 = q.cnt) := by
  obtain ⟨n, r, hfound, hr, ha, hres⟩ := h.iterate hf
  have hloaded := h.toLoaded.step (j := j) (by simp [h.state]) hf
  cases hc : q.cnt with
  | zero =>
    have hst : (q.step j).state = .finish := by simp [Serdiv.step, fsm, h.state, h.divResZero, hf, hc]
    rw [hc] at hfound
    exact .inl ⟨rfl, hloaded, .inl hst, n, r, hfound, ha, hres⟩
  | succ s =>
    have hregs : (q.step j).state = .divide ∧ (q.step j).divResZero = false ∧ (q.step j).cnt = s ∧
        (q.step j).opB = (BitVec.ofBool q.compInv ++ q.opB.extractLsb' 1 (w - 1)).setWidth w := by
      simp [Serdiv.step, fsm, h.state, h.divResZero, hf, hc]
    obtain ⟨hst, hz, hcnt, hb⟩ := hregs
    have hsw := h.cnt
    have hfits := h.fits
    have hpos := h.fitsPos
    have hopB := h.opB
    have hdouble : divisor i * 2 ^ (s + 1) = 2 * (divisor i * 2 ^ s) := by rw [pow_succ]; ring
    rw [hc, hdouble] at hfits hpos hopB
    rw [hc] at hsw hfound
    have hp : 0 < 2 ^ s := Nat.two_pow_pos s
    have hhalf : (q.step j).opB = rep w (neg i) (divisor i * 2 ^ s) := by
      rw [hb, ← h.compInv]
      refine rep_half hw (fun hi => ?_) hfits (fun hi => hpos (h.compInv.symm.trans hi)) (by rw [hopB, h.compInv])
      by_contra h0
      have hz0 : divisor i = 0 := by
        rcases Nat.eq_zero_or_pos (divisor i) with hd | hd
        · exact hd
        · exact absurd (Nat.mul_pos hd hp) h0
      rw [h.compInv, neg_of_zero hz0] at hi
      cases hi
    refine .inr ⟨⟨hloaded, hst, hz, by omega, ?_, ?_, fun hn => ?_, ?_⟩, by omega⟩
    · rw [hcnt]
      exact hhalf
    · rw [hcnt]
      omega
    · have hlt := hpos hn
      rw [hcnt]
      omega
    · rw [hcnt]
      exact ⟨n, r, hfound, hr, ha, hres⟩

/-- The result waits for the receiver. -/
theorem Done.step (h : Done i q) (hf : j.flush = false) (hr : j.outRdy = false) : Done i (q.step j) := by
  have hne : q.state ≠ .idle := by
    rcases h.state with hs | hs
    · simp [hs]
    · simp [hs.1]
  have hloaded := h.toLoaded.step (j := j) hne hf
  have hkeep : (q.step j).state = .finish ∧ (q.step j).opA = q.opA ∧ (q.step j).res = q.res := by
    rcases h.state with hs | ⟨hs, hz⟩
    · simp [Serdiv.step, fsm, hs, hf, hr]
    · simp [Serdiv.step, fsm, hs, hz, hf, hr]
  obtain ⟨n, r, hfound, ha, hres⟩ := h.found
  exact ⟨hloaded, .inl hkeep.1, n, r, hfound, hkeep.2.1.trans ha, hkeep.2.2.trans hres⟩

theorem Done.outVld (h : Done i q) (hf : j.flush = false) : (q.fsm j).outVld = true := by
  rcases h.state with hs | ⟨hs, hz⟩
  · simp [fsm, hs, hf]
  · simp [fsm, hs, hz, hf]

theorem Dividing.outVld (h : Dividing i q) : (q.fsm j).outVld = false := by
  cases hf : j.flush <;> simp [fsm, h.state, h.divResZero, hf]

/-! ### Begin and end -/

/-- The adder gives the dividend the sign of the divisor. -/
theorem addOut_load : q.addOut i true = rep w (neg i) (dividend i) := by
  have hx : rep w (isSigned i && i.opA.msb) (mag (isSigned i) i.opA) = i.opA := rep_mag
  cases hsg : isSigned i with
  | false =>
    rw [hsg] at hx
    simpa [addOut, neg, dividend, hsg] using hx.symm
  | true =>
    rw [hsg, Bool.true_and] at hx
    by_cases hm : i.opA.msb = i.opB.msb
    · simp only [addOut, neg, dividend, hsg, hm, bne_self_eq_false, Bool.and_false, Bool.not_false, Bool.and_self,
        if_true, Bool.true_and]
      rw [← hm, hx]
      simp
    · have hflip : i.opB.msb = !i.opA.msb := by
        cases h1 : i.opA.msb <;> cases h2 : i.opB.msb <;> simp_all
      have hne : (i.opA.msb != i.opB.msb) = true := bne_iff_ne.mpr hm
      simp only [addOut, neg, dividend, hsg, hne, Bool.and_self, Bool.not_true, Bool.and_false, Bool.false_eq_true,
        if_false, if_true, Bool.true_and]
      rw [hflip, ← neg_rep, hx]
      simp

/-- The shift fits in its registers. -/
theorem divShift_mod {s b : ℕ} (hs : divShift i = s) (hsw : s ≤ w) (hb : cntWidth w ≤ b) :
    (divShift i % 2 ^ b).toNat = s := by
  have hlt : w + 1 ≤ 2 ^ cntWidth w := Nat.le_pow_clog (by omega) (w + 1)
  have hle : 2 ^ cntWidth w ≤ 2 ^ b := Nat.pow_le_pow_right (by omega) hb
  rw [hs]
  have hmod : (s : ℤ) % 2 ^ b = s := by
    apply Int.emod_eq_of_lt (by omega)
    exact_mod_cast (show s < 2 ^ b by omega)
  rw [hmod]
  rfl

theorem load (hw : 2 ≤ w) (hg : ¬ Truncates i) (hs : q.state = .idle) (hv : i.inVld = true) (hf : i.flush = false) :
    Dividing i (q.step i) ∨ Done i (q.step i) := by
  have hload : Loaded i (q.step i) := by
    constructor <;> simp [Serdiv.step, fsm, hs, hv, hf, neg]
  have hregs : (q.step i).state = .divide ∧ (q.step i).opA = rep w (neg i) (dividend i) ∧ (q.step i).opB = alignedB i ∧
      (q.step i).res = 0 ∧ (q.step i).cnt = (divShift i % 2 ^ cntWidth w).toNat ∧
      (q.step i).divResZero = decide (divShift i < 0) := by
    simp [Serdiv.step, fsm, hs, hv, hf, addOut_load]
  obtain ⟨hst, ha, hb, hres, hcnt, hz⟩ := hregs
  rcases lt_or_ge (divShift i) 0 with hneg | hpos
  · have hb0 : i.opB ≠ 0 := fun h0 => by
      rw [divShift_zero hw h0] at hneg
      omega
    have hlt := (divShift_spec hw hg hb0).2.1 hneg
    refine .inr ⟨hload, .inr ⟨hst, by rw [hz, decide_eq_true hneg]⟩, 0, dividend i, ⟨fun _ => ?_, fun h0 => ?_⟩, ha,
      hres⟩
    · exact .start (by simpa [dividend, divisor] using hlt)
    · exact absurd (divisor_eq_zero.mp h0) hb0
  · obtain ⟨s, hs⟩ := Int.eq_ofNat_of_zero_le hpos
    have hsw : s ≤ w := by
      by_cases h0 : i.opB = 0
      · have := divShift_zero hw h0
        omega
      · have := (divShift_spec hw hg h0).1
        omega
    have hc : (q.step i).cnt = s := hcnt.trans (divShift_mod hs hsw le_rfl)
    have hopB : (q.step i).opB = rep w (neg i) (divisor i * 2 ^ s) := by
      have hrep : i.opB = rep w (neg i) (divisor i) := rep_mag.symm
      rw [hb, alignedB, divShift_mod hs hsw (Nat.le_succ _), ← rep_shiftLeft, ← hrep]
    have hfits : divisor i * 2 ^ s ≤ 2 ^ w ∧ (neg i = false → divisor i * 2 ^ s < 2 ^ w) := by
      by_cases h0 : i.opB = 0
      · rw [divisor_eq_zero.mpr h0, Nat.zero_mul]
        exact ⟨Nat.zero_le _, fun _ => Nat.two_pow_pos w⟩
      · exact ((divShift_spec hw hg h0).2.2 s hs).2
    refine .inl ⟨hload, hst, ?_, by omega, ?_, ?_, ?_, 0, dividend i, ⟨fun h0 => ?_, fun h0 =>
      ?_⟩, dividend_lt, ha, hres⟩
    · rw [hz, decide_eq_false (by omega)]
    · rw [hc, hopB]
    · rw [hc]
      exact hfits.1
    · rw [hc]
      exact hfits.2
    · rw [hc]
      exact .start ((divShift_spec hw hg fun hb0 => h0 (divisor_eq_zero.mpr hb0)).2.2 s hs).1
    · have hw' := divShift_zero hw (divisor_eq_zero.mp h0)
      have hsw' : s = w := by omega
      rw [hc, hsw', Nat.sub_self]
      exact ⟨rfl, rfl⟩

/-- A quotient that is taken to be zero ends the division at once. -/
theorem load_truncates (hw : 2 ≤ w) (hg : Truncates i) (hs : q.state = .idle) (hv : i.inVld = true)
    (hf : i.flush = false) : (q.step i).state = .divide ∧ (q.step i).divResZero = true ∧
      (q.step i).resO = if isRem i then -1#w else 0 := by
  obtain ⟨hm, hb⟩ := hg
  obtain ⟨hsh, hone⟩ := missed_spec hw hm
  obtain ⟨-, hsg, ha⟩ := hm
  have hp : 1 < 2 ^ (w - 1) := Nat.one_lt_two_pow (by omega)
  have hp' : 2 ^ w = 2 * 2 ^ (w - 1) := by rw [← Nat.pow_succ']; congr 1; omega
  have hbn : i.opB.toNat = 1 := by rw [hb, BitVec.toNat_ofNat, Nat.mod_eq_of_lt (by omega)]
  have hbm : i.opB.msb = false := by
    rw [BitVec.msb_eq_false_iff_two_mul_lt]
    omega
  have ham : i.opA.msb = true := by
    rw [ha, BitVec.msb_eq_true_iff_two_mul_ge, BitVec.neg_one_eq_allOnes, BitVec.toNat_allOnes]
    omega
  have hb0 : i.opB ≠ 0#w := by
    rw [ne_eq, ← BitVec.toNat_inj, hbn]
    simp
  have hneg : neg i = false := by rw [neg, hbm, Bool.and_false]
  have hz : divShift i < 0 := by
    have he : Lzc.empty (lzcBInput i) = false := by
      by_contra he
      have hz := (Lzc.cnt_spec hw (lzcBInput i)).1 (by simpa using he)
      rw [lzcBInput, hbm, Bool.and_false, if_neg Bool.false_ne_true, hbn] at hz
      omega
    have hlt := ((Lzc.cnt_spec hw (lzcBInput i)).2 he).1
    rw [divShift, he, if_neg Bool.false_ne_true, hsh]
    omega
  have hregs : (q.step i).state = .divide ∧ (q.step i).opA = rep w (neg i) (dividend i) ∧ (q.step i).res = 0 ∧
      (q.step i).remSel = isRem i ∧ (q.step i).resInv = true ∧ (q.step i).divResZero = decide (divShift i < 0) := by
    simp [Serdiv.step, fsm, hs, hv, hf, addOut_load, hsg, ham, hbm, hb0]
  obtain ⟨hst, hopA, hres, hrem, hinv, hdz⟩ := hregs
  refine ⟨hst, by rw [hdz, decide_eq_true hz], ?_⟩
  rw [Serdiv.resO, hrem, hinv, hopA, hres, hneg, dividend, hone]
  cases isRem i <;> simp [rep]

theorem toInt_eq (hsg : isSigned i = true) (x : BitVec w) :
    x.toInt = if x.msb then -(mag (isSigned i) x : ℤ) else mag (isSigned i) x := by
  have hx := x.isLt
  rw [hsg]
  split_ifs with hm
  · rw [mag_neg (by simp [hm]), BitVec.toInt_eq_msb_cond, if_pos hm]
    omega
  · rw [mag_pos (by simp [hm]), BitVec.toInt_eq_msb_cond, if_neg hm]

theorem ofInt_rep (b : Bool) (m : ℕ) : BitVec.ofInt w (if b then -(m : ℤ) else m) = rep w b m := by
  cases b <;> simp [rep, BitVec.ofInt_neg]

/-- What waits in the registers is the result. -/
theorem Done.resO (h : Done i q) : q.resO = riscvDiv (isSigned i) (isRem i) i.opA i.opB := by
  obtain ⟨n, r, hfound, ha, hres⟩ := h.found
  have hA : i.opA = rep w (isSigned i && i.opA.msb) (dividend i) := rep_mag.symm
  by_cases h0 : i.opB = 0
  · obtain ⟨rfl, hn⟩ := hfound.zero (divisor_eq_zero.mpr h0)
    have hng : neg i = false := neg_of_zero (divisor_eq_zero.mpr h0)
    rw [riscvDiv, if_pos h0, Serdiv.resO, h.remSel, h.resInv, ha, hres, hng]
    cases hrem : isRem i with
    | true =>
      have hinv : ((!(i.opB == 0) || true) && isSigned i && (i.opA.msb != i.opB.msb)) = (isSigned i && i.opA.msb) := by
        simp [h0]
      rw [hinv, if_pos rfl, if_pos rfl]
      cases hs : isSigned i && i.opA.msb with
      | true =>
        rw [hs] at hA
        rw [if_pos rfl, neg_rep]
        exact hA.symm
      | false =>
        rw [hs] at hA
        exact hA.symm
    | false =>
      have hall : BitVec.ofNat w n = BitVec.allOnes w := by
        have hp : 0 < 2 ^ w := Nat.two_pow_pos w
        apply BitVec.eq_of_toNat_eq
        rw [BitVec.toNat_ofNat, BitVec.toNat_allOnes]
        have hn2 : n = 2 ^ w - 1 + 2 ^ w := by
          rw [Nat.sub_zero, pow_succ] at hn
          omega
        rw [hn2, Nat.add_mod_right, Nat.mod_eq_of_lt (by omega)]
      simp [h0, hall]
  · have hB : divisor i ≠ 0 := fun hb => h0 (divisor_eq_zero.mp hb)
    obtain ⟨rfl, rfl⟩ := (hfound.div hB).done
    rw [riscvDiv, if_neg h0, Serdiv.resO, h.remSel, h.resInv, ha, hres]
    have hbne : (!(i.opB == 0)) = true := by
      rw [Bool.not_eq_true', beq_eq_false_iff_ne]
      exact h0
    rw [hbne, Bool.true_or, Bool.true_and]
    cases hsg : isSigned i with
    | false => cases hrem : isRem i <;> simp [rep, neg, dividend, divisor, mag, hsg]
    | true =>
      have hta := toInt_eq hsg i.opA
      have htb := toInt_eq hsg i.opB
      change i.opA.toInt = if i.opA.msb then -(dividend i : ℤ) else dividend i at hta
      change i.opB.toInt = if i.opB.msb then -(divisor i : ℤ) else divisor i at htb
      have hng : neg i = i.opB.msb := by rw [neg, hsg, Bool.true_and]
      have hquo : i.opA.toInt.tdiv i.opB.toInt =
          if i.opA.msb != i.opB.msb then -((dividend i / divisor i : ℕ) : ℤ) else (dividend i / divisor i : ℕ) := by
        rw [hta, htb, Int.ofNat_tdiv]
        cases i.opA.msb <;> cases i.opB.msb <;> simp [Int.neg_tdiv, Int.tdiv_neg]
      have hrem' : i.opA.toInt.tmod i.opB.toInt =
          if i.opA.msb then -((dividend i % divisor i : ℕ) : ℤ) else (dividend i % divisor i : ℕ) := by
        rw [hta, htb, Int.ofNat_tmod]
        cases i.opA.msb <;> cases i.opB.msb <;> simp [Int.neg_tmod, Int.tmod_neg]
      rw [hquo, hrem', Bool.true_and, hng]
      cases hr : isRem i with
      | false =>
        simp only [Bool.false_eq_true, if_false, if_true]
        rw [ofInt_rep]
        cases hx : i.opA.msb != i.opB.msb <;> simp [rep]
      | true =>
        simp only [if_true]
        rw [ofInt_rep]
        cases ham : i.opA.msb <;> cases hbm : i.opB.msb <;> simp [rep]

end Loop

/-! ### Runs -/

section Run
variable {q : Serdiv w t} {i : SerdivIn w t} {u : ℕ → SerdivIn w t}

theorem loop_run (hw : 0 < w) (hf : ∀ n, (u n).flush = false) {k : ℕ} (h : Dividing i ((machine w t).states q u k)) :
    ∃ n, k < n ∧ n ≤ k + ((machine w t).states q u k).cnt + 1 ∧
      (∀ m, k ≤ m → m < n → (((machine w t).states q u m).fsm (u m)).outVld = false ∧
        ((machine w t).states q u m).state = .divide) ∧
      Done i ((machine w t).states q u n) := by
  induction hc : ((machine w t).states q u k).cnt generalizing k with
  | zero =>
    rcases h.step (j := u k) hw (hf k) with ⟨-, hd⟩ | ⟨-, hcnt⟩
    · refine ⟨k + 1, by omega, by omega, fun m h1 h2 => ?_, hd⟩
      rw [show m = k by omega]
      exact ⟨h.outVld, h.state⟩
    · omega
  | succ c ih =>
    rcases h.step (j := u k) hw (hf k) with ⟨h0, -⟩ | ⟨hd, hcnt⟩
    · omega
    · obtain ⟨n, h1, h2, h3, h4⟩ := ih (k := k + 1) hd (by
        change ((Serdiv.step _ _).cnt) = c
        omega)
      refine ⟨n, by omega, by omega, fun m hm hn => ?_, h4⟩
      rcases hm.lt_or_eq with hlt | rfl
      · exact h3 m hlt hn
      · exact ⟨h.outVld, h.state⟩

/-- From any idle state a division whose quotient is not truncated ends in time, and its result waits for the
receiver. -/
theorem division_run (hw : 2 ≤ w) (hg : ¬ Truncates (u 0)) (hs : q.state = .idle) (hv : (u 0).inVld = true)
    (hf : ∀ n, (u n).flush = false) :
    ∃ n, 0 < n ∧ n ≤ w + 2 ∧
      (∀ m < n, (((machine w t).states q u m).fsm (u m)).outVld = false ∧
        (0 < m → ((machine w t).states q u m).state = .divide)) ∧
      ∀ m, n ≤ m → (∀ k, n ≤ k → k < m → (u k).outRdy = false) → Done (u 0) ((machine w t).states q u m) := by
  have hfirst : ((((machine w t).states q u 0)).fsm (u 0)).outVld = false := by
    simp [fsm, hs, hv, hf 0]
  have hreach : ∃ n, 0 < n ∧ n ≤ w + 2 ∧
      (∀ m < n, (((machine w t).states q u m).fsm (u m)).outVld = false ∧
        (0 < m → ((machine w t).states q u m).state = .divide)) ∧
      Done (u 0) ((machine w t).states q u n) := by
    rcases load hw hg hs hv (hf 0) with hd | hd
    · obtain ⟨n, h1, h2, h3, h4⟩ := loop_run (q := q) (k := 1) (by omega) hf hd
      have hcnt : ((machine w t).states q u 1).cnt ≤ w := Dividing.cnt hd
      refine ⟨n, by omega, by omega, fun m hm => ?_, h4⟩
      rcases Nat.eq_zero_or_pos m with rfl | h0
      · exact ⟨hfirst, fun h => absurd h (Nat.lt_irrefl 0)⟩
      · exact ⟨(h3 m h0 hm).1, fun _ => (h3 m h0 hm).2⟩
    · refine ⟨1, by omega, by omega, fun m hm => ?_, hd⟩
      rw [show m = 0 by omega]
      exact ⟨hfirst, fun h => absurd h (Nat.lt_irrefl 0)⟩
  obtain ⟨n, h1, h2, h3, h4⟩ := hreach
  refine ⟨n, h1, h2, h3, fun m hm hrdy => ?_⟩
  induction m, hm using Nat.le_induction with
  | base => exact h4
  | succ m hm ih => exact (ih fun k h5 h6 => hrdy k h5 (by omega)).step (hf m) (hrdy m hm (by omega))

/-- The division of the first cycle ends in time with the result of RISC-V, which waits with its id for the
receiver. -/
def Divides (q : Serdiv w t) (u : ℕ → SerdivIn w t) : Prop :=
  ∃ n, 0 < n ∧ n ≤ w + 2 ∧
    (∀ m < n, (((machine w t).states q u m).fsm (u m)).outVld = false) ∧
    ∀ m, n ≤ m → (∀ k, n ≤ k → k < m → (u k).outRdy = false) →
      (((machine w t).states q u m).fsm (u m)).outVld = true ∧
      ((machine w t).states q u m).id = (u 0).id ∧
      ((machine w t).states q u m).resO = riscvDiv (isSigned (u 0)) (isRem (u 0)) (u 0).opA (u 0).opB

theorem divides (hw : 2 ≤ w) (hg : ¬ Truncates (u 0)) (hs : q.state = .idle) (hv : (u 0).inVld = true)
    (hf : ∀ n, (u n).flush = false) : q.Divides u := by
  obtain ⟨n, h1, h2, h3, h4⟩ := division_run hw hg hs hv hf
  refine ⟨n, h1, h2, fun m hm => (h3 m hm).1, fun m hm hrdy => ?_⟩
  have hd := h4 m hm hrdy
  exact ⟨hd.outVld (hf m), hd.id, hd.resO⟩

/-- The quotient and the remainder of -1 by 1. -/
theorem riscvDiv_minus_one (hw : 2 ≤ w) (rm : Bool) : riscvDiv true rm (-1#w) 1#w = if rm then 0 else -1#w := by
  have hone : (1#w).toInt = 1 := BitVec.toInt_one (by omega)
  have hnone : (-1#w).toInt = -1 := by rw [BitVec.neg_one_eq_allOnes, BitVec.toInt_allOnes, if_pos (by omega)]
  have h0 : ¬ 1#w = 0 := by
    rw [← BitVec.toInt_inj, hone]
    simp
  rw [riscvDiv, if_neg h0, if_pos rfl, hone, hnone]
  cases rm with
  | true => simp
  | false => simp [BitVec.ofInt_neg]

/-- A quotient that is taken to be zero is delivered as zero, and the dividend as the remainder. -/
theorem not_divides (hw : 2 ≤ w) (hg : Truncates (u 0)) (hs : q.state = .idle) (hv : (u 0).inVld = true)
    (hf : ∀ n, (u n).flush = false) : ¬ q.Divides u := by
  rintro ⟨n, h1, -, h3, h4⟩
  obtain ⟨hst, hz, hres⟩ := load_truncates hw hg hs hv (hf 0)
  have hvld : (((machine w t).states q u 1).fsm (u 1)).outVld = true := by
    change ((q.step (u 0)).fsm (u 1)).outVld = true
    simp [fsm, hst, hz, hf 1]
  obtain rfl : n = 1 := by
    by_contra hn
    exact Bool.false_ne_true ((h3 1 (by omega)).symm.trans hvld)
  obtain ⟨-, -, hspec⟩ := h4 1 le_rfl fun k hk hk' => absurd hk' (by omega)
  obtain ⟨⟨-, hsg, ha⟩, hb⟩ := hg
  rw [hsg, ha, hb, riscvDiv_minus_one hw] at hspec
  have hne : -1#w ≠ 0#w := by
    rw [ne_eq, BitVec.neg_eq_zero_iff, ← BitVec.toNat_inj, BitVec.toNat_ofNat,
      Nat.mod_eq_of_lt (Nat.one_lt_two_pow (by omega))]
    simp
  rw [show (machine w t).states q u 1 = q.step (u 0) from rfl, hres] at hspec
  cases hr : isRem (u 0) with
  | true => exact hne (by simpa [hr] using hspec)
  | false => exact hne (by simpa [hr] using hspec.symm)

/-- A flush returns to the idle state. -/
theorem flush_idle (hf : i.flush = true) : (q.step i).state = .idle := by
  simp [step, fsm, hf]

end Run
end Serdiv
end Culsans.Core
