import Culsans.Mmu.Tlb

/-! # The page table walker (`ptw`)

The walker serves misses of both buffers, one at a time. The U, SUM and privilege
checks are left to the units that use the entry; the A and R checks, and MXR, are made here.
-/

namespace Culsans.Mmu
open Tlb
variable {w : ℕ}

inductive PtwState
  | idle | waitGrant | pteLookup | waitRvalid | propagateError | propagateAccessError
deriving DecidableEq

inductive PtwLvl
  | lvl1 | lvl2 | lvl3
deriving DecidableEq

/-- The registers of the walker. -/
structure Ptw (w : ℕ) where
  state : PtwState
  lvl : PtwLvl
  isInstrPtw : Bool
  globalMapping : Bool
  tagValid : Bool
  tlbUpdateAsid : BitVec w
  vaddr : BitVec 64
  pptr : BitVec 56
  dataRvalid : Bool
  dataRdata : Pte

structure PtwIn (w : ℕ) where
  flush : Bool
  enableTranslation : Bool
  enLdStTranslation : Bool
  lsuIsStore : Bool
  asid : BitVec w
  satpPpn : BitVec 44
  mxr : Bool
  itlbAccess : Bool
  itlbHit : Bool
  itlbVaddr : BitVec 64
  dtlbAccess : Bool
  dtlbHit : Bool
  dtlbVaddr : BitVec 64
  dataGnt : Bool
  dataRvalid : Bool
  dataRdata : Pte
  /-- `allow_o` of `i_pmp_ptw` -/
  allowAccess : Bool

namespace Ptw

def reset : Ptw w where
  state := .idle
  lvl := .lvl1
  isInstrPtw := false
  globalMapping := false
  tagValid := false
  tlbUpdateAsid := 0
  vaddr := 0
  pptr := 0
  dataRvalid := false
  dataRdata := zeroPte

/-- What PTE_LOOKUP does with an entry that has arrived. -/
structure PteVerdict where
  state : PtwState
  lvl : PtwLvl
  pptr : BitVec 56
  itlbValid : Bool
  dtlbValid : Bool

def misaligned (q : Ptw w) : Bool :=
  (q.lvl == .lvl1 && q.dataRdata.ppn.extractLsb' 0 18 != 0) ||
    (q.lvl == .lvl2 && q.dataRdata.ppn.extractLsb' 0 9 != 0)

def leafVerdict (q : Ptw w) (i : PtwIn w) : PteVerdict :=
  let pte := q.dataRdata
  let error : PteVerdict := ⟨.propagateError, q.lvl, q.pptr, false, false⟩
  if q.misaligned then error
  else if q.isInstrPtw then
    if !pte.x || !pte.a then error else ⟨.idle, q.lvl, q.pptr, true, false⟩
  -- a store is checked further, whatever the first check said
  else if i.lsuIsStore && (!pte.w || !pte.d) then error
  else if pte.a && (pte.r || (pte.x && i.mxr)) then ⟨.idle, q.lvl, q.pptr, false, true⟩
  else error

def tableVerdict (q : Ptw w) : PteVerdict :=
  match q.lvl with
  | .lvl1 => ⟨.waitGrant, .lvl2, pteAddr q.dataRdata.ppn (q.vaddr.extractLsb' 21 9), false, false⟩
  | .lvl2 => ⟨.waitGrant, .lvl3, pteAddr q.dataRdata.ppn (q.vaddr.extractLsb' 12 9), false, false⟩
  | .lvl3 => ⟨.propagateError, .lvl3, q.pptr, false, false⟩

def pteVerdict (q : Ptw w) (i : PtwIn w) : PteVerdict :=
  let pte := q.dataRdata
  let v :=
    if !pte.v || (!pte.r && pte.w) then ⟨.propagateError, q.lvl, q.pptr, false, false⟩
    else if pte.r || pte.x then q.leafVerdict i
    else q.tableVerdict
  if i.allowAccess then v else ⟨.propagateAccessError, v.lvl, q.pptr, false, false⟩

/-- The registers after a cycle without flush, less the input registers. -/
def core (q : Ptw w) (i : PtwIn w) : Ptw w :=
  let q' := { q with tagValid := false }
  match q.state with
  | .idle =>
    let q' := { q' with lvl := .lvl1, globalMapping := false, isInstrPtw := false }
    if i.enableTranslation && i.itlbAccess && !i.itlbHit && !i.dtlbAccess then
      { q' with
        pptr := pteAddr i.satpPpn (i.itlbVaddr.extractLsb' 30 9)
        isInstrPtw := true
        tlbUpdateAsid := i.asid
        vaddr := i.itlbVaddr
        state := .waitGrant }
    else if i.enLdStTranslation && i.dtlbAccess && !i.dtlbHit then
      { q' with
        pptr := pteAddr i.satpPpn (i.dtlbVaddr.extractLsb' 30 9)
        tlbUpdateAsid := i.asid
        vaddr := i.dtlbVaddr
        state := .waitGrant }
    else q'
  | .waitGrant => if i.dataGnt then { q' with tagValid := true, state := .pteLookup } else q'
  | .pteLookup =>
    if q.dataRvalid then
      let v := q.pteVerdict i
      { q' with
        globalMapping := q.globalMapping || q.dataRdata.g
        state := v.state
        lvl := v.lvl
        pptr := v.pptr }
    else q'
  | .propagateError => { q' with state := .idle }
  | .propagateAccessError => { q' with state := .idle }
  | .waitRvalid => if q.dataRvalid then { q' with state := .idle } else q'

/-- A read that was granted is waited for. -/
def flushState (q : Ptw w) (i : PtwIn w) : PtwState :=
  if ((q.state == .pteLookup || q.state == .waitRvalid) && !q.dataRvalid) ||
      (q.state == .waitGrant && i.dataGnt) then .waitRvalid
  else .idle

def step (q : Ptw w) (i : PtwIn w) : Ptw w :=
  { q.core i with
    state := if i.flush then q.flushState i else (q.core i).state
    dataRvalid := i.dataRvalid
    dataRdata := i.dataRdata }

/-! ### Outputs -/

def ptwActive (q : Ptw w) : Bool := q.state != .idle

def ptwError (q : Ptw w) : Bool := q.state == .propagateError

def ptwAccessException (q : Ptw w) : Bool := q.state == .propagateAccessError

/-- `req_port_o.data_req`; the address is `pptr`. -/
def dataReq (q : Ptw w) : Bool := q.state == .waitGrant

def update (q : Ptw w) (valid : Bool) : TlbUpdate w where
  valid := valid
  is2M := q.lvl == .lvl2
  is1G := q.lvl == .lvl1
  vpn := q.vaddr.extractLsb' 12 27
  asid := q.tlbUpdateAsid
  content := { q.dataRdata with g := q.dataRdata.g || q.globalMapping }

def itlbUpdate (q : Ptw w) (i : PtwIn w) : TlbUpdate w :=
  q.update (q.state == .pteLookup && q.dataRvalid && (q.pteVerdict i).itlbValid)

def dtlbUpdate (q : Ptw w) (i : PtwIn w) : TlbUpdate w :=
  q.update (q.state == .pteLookup && q.dataRvalid && (q.pteVerdict i).dtlbValid)

/-! ### The walk -/

/-- The Sv39 level of a walk level. -/
def depth : PtwLvl → ℕ
  | .lvl1 => 2
  | .lvl2 => 1
  | .lvl3 => 0

/-- The walker is at an entry of its walk. -/
def walking (q : Ptw w) : Prop := q.state = .waitGrant ∨ q.state = .pteLookup

/-- The read that is granted and not answered after a cycle. -/
def outstanding (q : Ptw w) (i : PtwIn w) (pend : Option (BitVec 56)) : Option (BitVec 56) :=
  if q.dataReq && i.dataGnt then some q.pptr else if i.dataRvalid then none else pend

/-- The memory answers the read that is outstanding, with the entry at its address. -/
def Answers (mem : BitVec 56 → Pte) (pend : Option (BitVec 56)) (i : PtwIn w) : Prop :=
  i.dataRvalid = true → ∃ p, pend = some p ∧ i.dataRdata = mem p

instance (mem : BitVec 56 → Pte) (pend : Option (BitVec 56)) (i : PtwIn w) : Decidable (Answers mem pend i) :=
  match pend with
  | none => decidable_of_iff (i.dataRvalid = false) (by simp [Answers])
  | some p => decidable_of_iff (i.dataRvalid = true → i.dataRdata = mem p) (by simp [Answers])

variable {mem : BitVec 56 → Pte} {root : BitVec 44} {q : Ptw w} {i : PtwIn w} {pend : Option (BitVec 56)}

/-- A read is waited for at its address, and what arrives is the entry asked for. -/
structure Reads (mem : BitVec 56 → Pte) (q : Ptw w) (pend : Option (BitVec 56)) : Prop where
  pend : ∀ p, pend = some p → (q.state = .pteLookup ∨ q.state = .waitRvalid) ∧ q.pptr = p ∧ q.dataRvalid = false
  data : q.dataRvalid = true → q.state = .pteLookup → q.dataRdata = mem q.pptr

/-- The walk that is left finds the leaf of the whole walk. -/
structure Inv (mem : BitVec 56 → Pte) (root : BitVec 44) (q : Ptw w) (pend : Option (BitVec 56)) : Prop
    extends Reads mem q pend where
  ptr : q.walking → ∃ b, q.pptr = pteAddr b (vpn q.vaddr (depth q.lvl)) ∧
    walkFrom mem q.vaddr (depth q.lvl) b = walk mem root q.vaddr

theorem reads_reset : (reset : Ptw w).Reads mem none where
  pend p hp := by simp at hp
  data h := by simp [reset] at h

theorem inv_reset : (reset : Ptw w).Inv mem root none where
  toReads := reads_reset
  ptr h := by simp [walking, reset] at h

/-- An entry at which the walk arrives: where it is, and the walk from it. -/
theorem entry_spec (h : q.Inv mem root pend) (hs : q.state = .pteLookup) (hv : q.dataRvalid = true) :
    ∃ b, q.dataRdata = mem (pteAddr b (vpn q.vaddr (depth q.lvl))) ∧
      walkFrom mem q.vaddr (depth q.lvl) b = walk mem root q.vaddr := by
  obtain ⟨b, hb, hw⟩ := h.ptr (.inr hs)
  exact ⟨b, (h.data hv hs).trans (by rw [hb]), hw⟩

/-- The three outcomes of an entry, with the leaf of the walk. -/
theorem walk_cases (h : q.Inv mem root pend) (hs : q.state = .pteLookup) (hv : q.dataRvalid = true) :
    (q.dataRdata.invalid = true ∧ walk mem root q.vaddr = none) ∨
    (q.dataRdata.invalid = false ∧ (q.dataRdata.r || q.dataRdata.x) = true ∧
      walk mem root q.vaddr = some (depth q.lvl, q.dataRdata)) ∨
    (q.dataRdata.invalid = false ∧ (q.dataRdata.r || q.dataRdata.x) = false) := by
  obtain ⟨b, hd, hw⟩ := entry_spec h hs hv
  rw [← hw, hd]
  cases hi : (mem (pteAddr b (vpn q.vaddr (depth q.lvl)))).invalid with
  | true => exact .inl ⟨rfl, walkFrom_invalid hi⟩
  | false =>
    cases hl : ((mem (pteAddr b (vpn q.vaddr (depth q.lvl)))).r ||
        (mem (pteAddr b (vpn q.vaddr (depth q.lvl)))).x) with
    | true => exact .inr (.inl ⟨rfl, rfl, walkFrom_leaf hi hl⟩)
    | false => exact .inr (.inr ⟨rfl, rfl⟩)

theorem misaligned_iff : q.misaligned = !q.dataRdata.aligned (depth q.lvl) := by
  cases hl : q.lvl <;> simp [misaligned, Pte.aligned, depth, hl, bne]

/-- A pointer is followed to the table below, and there is no leaf below the last table. -/
theorem table_spec (h : q.Inv mem root pend) (hs : q.state = .pteLookup) (hv : q.dataRvalid = true)
    (hi : q.dataRdata.invalid = false) (hl : (q.dataRdata.r || q.dataRdata.x) = false) :
    (q.tableVerdict.state = .waitGrant ∧ ∃ b,
      q.tableVerdict.pptr = pteAddr b (vpn q.vaddr (depth q.tableVerdict.lvl)) ∧
      walkFrom mem q.vaddr (depth q.tableVerdict.lvl) b = walk mem root q.vaddr) ∨
    (q.tableVerdict.state = .propagateError ∧ walk mem root q.vaddr = none) := by
  obtain ⟨b, hd, hw⟩ := entry_spec h hs hv
  rw [← hw]
  cases hlvl : q.lvl with
  | lvl1 =>
    rw [hlvl] at hd
    rw [hd] at hi hl
    refine .inl ⟨by simp [tableVerdict, hlvl], q.dataRdata.ppn, by simp [tableVerdict, hlvl, depth, vpn], ?_⟩
    rw [hd]
    simpa [tableVerdict, hlvl, depth] using (walkFrom_table hi hl).symm
  | lvl2 =>
    rw [hlvl] at hd
    rw [hd] at hi hl
    refine .inl ⟨by simp [tableVerdict, hlvl], q.dataRdata.ppn, by simp [tableVerdict, hlvl, depth, vpn], ?_⟩
    rw [hd]
    simpa [tableVerdict, hlvl, depth] using (walkFrom_table hi hl).symm
  | lvl3 =>
    rw [hlvl] at hd
    rw [hd] at hi hl
    exact .inr ⟨by simp [tableVerdict, hlvl], walkFrom_table_zero hi hl⟩

/-- What the walker decides on a data walk: an entry for the buffer is a leaf that passed the
checks, and an error is a fault for every privilege and SUM. -/
theorem pteVerdict_data (h : q.Inv mem root pend) (hs : q.state = .pteLookup) (hv : q.dataRvalid = true)
    (hd : q.isInstrPtw = false) (ha : i.allowAccess = true) :
    ((q.pteVerdict i).dtlbValid = true →
      Cached mem root q.vaddr { q.dataRdata with g := q.dataRdata.g || q.globalMapping } (depth q.lvl) q.dataRdata) ∧
    ((q.pteVerdict i).state = .propagateError → ∀ m : Mode, m.mxr = i.mxr →
      sv39 mem root m i.lsuIsStore q.vaddr = none) := by
  rcases walk_cases h hs hv with ⟨hi, hw⟩ | ⟨hi, hl, hw⟩ | ⟨hi, hl⟩
  · have hvd : q.pteVerdict i = ⟨.propagateError, q.lvl, q.pptr, false, false⟩ := by
      rw [Pte.invalid] at hi
      simp [pteVerdict, ha, hi]
    rw [hvd]
    exact ⟨by simp, fun _ m _ => sv39_eq_none_of_walk hw⟩
  · have hvd : q.pteVerdict i = q.leafVerdict i := by
      rw [Pte.invalid] at hi
      simp [pteVerdict, ha, hi, hl]
    rw [hvd, leafVerdict, hd, misaligned_iff]
    cases hal : q.dataRdata.aligned (depth q.lvl) with
    | false =>
      refine ⟨by simp, fun _ m _ => ?_⟩
      simp [sv39_of_walk hw, hal]
    | true =>
      simp only [Bool.not_true, Bool.false_eq_true, if_false]
      split_ifs with hst hld
      · refine ⟨by simp, fun _ m _ => ?_⟩
        rw [sv39_of_walk hw]
        simp only [Bool.and_eq_true, Bool.or_eq_true, Bool.not_eq_true'] at hst
        rcases hst.2 with hw0 | hd0
        · simp [Mode.allows, hst.1, Mode.storeOk, hw0]
        · simp [Mode.allows, hst.1, Mode.storeOk, hd0]
      · refine ⟨fun _ => ⟨hw, hi, hl, hal, ?_, rfl⟩, by simp⟩
        exact (Bool.and_eq_true_iff.mp hld).1
      · refine ⟨by simp, fun _ m hm => ?_⟩
        rw [Bool.not_eq_true, ← hm] at hld
        have hno : m.loadOk q.dataRdata = false := by
          rw [Mode.loadOk, hld, Bool.false_and]
        rw [sv39_of_walk hw]
        simp [Mode.allows, Mode.storeOk, hno]
  · have hvd : q.pteVerdict i = q.tableVerdict := by
      rw [Pte.invalid] at hi
      simp [pteVerdict, ha, hi, hl]
    rw [hvd]
    refine ⟨fun hf => ?_, fun he m _ => ?_⟩
    · cases hlvl : q.lvl <;> simp [tableVerdict, hlvl] at hf
    · rcases table_spec h hs hv hi hl with ⟨ht, -⟩ | ⟨-, hw⟩
      · rw [ht] at he
        cases he
      · exact sv39_eq_none_of_walk hw

/-- A walk goes on at the table that the entry points to. -/
theorem pteVerdict_walking (h : q.Inv mem root pend) (hs : q.state = .pteLookup) (hv : q.dataRvalid = true)
    (hw : (q.pteVerdict i).state = .waitGrant ∨ (q.pteVerdict i).state = .pteLookup) :
    ∃ b, (q.pteVerdict i).pptr = pteAddr b (vpn q.vaddr (depth (q.pteVerdict i).lvl)) ∧
      walkFrom mem q.vaddr (depth (q.pteVerdict i).lvl) b = walk mem root q.vaddr := by
  cases ha : i.allowAccess with
  | false => simp [pteVerdict, ha] at hw
  | true =>
    rcases walk_cases h hs hv with ⟨hi, -⟩ | ⟨hi, hl, -⟩ | ⟨hi, hl⟩
    · rw [Pte.invalid] at hi
      simp [pteVerdict, ha, hi] at hw
    · have hvd : q.pteVerdict i = q.leafVerdict i := by
        rw [Pte.invalid] at hi
        simp [pteVerdict, ha, hi, hl]
      rw [hvd, leafVerdict] at hw
      split_ifs at hw <;> simp at hw
    · have hvd : q.pteVerdict i = q.tableVerdict := by
        rw [Pte.invalid] at hi
        simp [pteVerdict, ha, hi, hl]
      rw [hvd] at hw ⊢
      rcases table_spec h hs hv hi hl with ⟨-, hb⟩ | ⟨he, -⟩
      · exact hb
      · simp [he] at hw

/-- A flush leaves no walk. -/
theorem not_walking_flush (hf : i.flush = true) : ¬(q.step i).walking := by
  simp only [walking, step, hf, if_true, flushState]
  split_ifs <;> simp

theorem ptr_step (h : q.Inv mem root pend) (hr : i.satpPpn = root) (hw : (q.step i).walking) :
    ∃ b, (q.step i).pptr = pteAddr b (vpn (q.step i).vaddr (depth (q.step i).lvl)) ∧
      walkFrom mem (q.step i).vaddr (depth (q.step i).lvl) b = walk mem root (q.step i).vaddr := by
  have hf : i.flush = false := by
    by_contra hf
    exact not_walking_flush (Bool.eq_true_of_not_eq_false hf) hw
  cases hs : q.state with
  | idle =>
    simp only [walking, step, core, hs, hf, Bool.false_eq_true, if_false] at hw ⊢
    split_ifs at hw ⊢ with hitlb hdtlb
    · exact ⟨root, by simp [hr, vpn, depth], rfl⟩
    · exact ⟨root, by simp [hr, vpn, depth], rfl⟩
    · simp at hw
  | waitGrant =>
    have hptr := h.ptr (.inl hs)
    simp only [step, core, hs]
    split_ifs <;> exact hptr
  | pteLookup =>
    have hptr := h.ptr (.inr hs)
    simp only [walking, step, core, hs, hf, Bool.false_eq_true, if_false] at hw ⊢
    split_ifs at hw ⊢ with hv
    · exact pteVerdict_walking h hs hv hw
    · exact hptr
  | waitRvalid =>
    simp only [walking, step, core, hs, hf, Bool.false_eq_true, if_false] at hw
    split_ifs at hw <;> simp at hw
  | propagateError => simp [walking, step, core, hs, hf] at hw
  | propagateAccessError => simp [walking, step, core, hs, hf] at hw

/-- A read that stays outstanding is waited for at its address. -/
theorem outstanding_step (h : q.Reads mem pend) (ha : Answers mem pend i) {p : BitVec 56}
    (hp : q.outstanding i pend = some p) :
    ((q.step i).state = .pteLookup ∨ (q.step i).state = .waitRvalid) ∧ (q.step i).pptr = p ∧
      (q.step i).dataRvalid = false := by
  have hnone : q.state ≠ .pteLookup → q.state ≠ .waitRvalid → pend = none := fun h1 h2 => by
    cases hpe : pend with
    | none => rfl
    | some p' => exact absurd (h.pend p' hpe).1 (by simp [h1, h2])
  unfold outstanding at hp
  split_ifs at hp with hg hv
  · simp only [dataReq, Bool.and_eq_true, beq_iff_eq] at hg
    have hrv : i.dataRvalid = false := by
      by_contra hc
      obtain ⟨p', hp', -⟩ := ha (Bool.eq_true_of_not_eq_false hc)
      rw [hnone (by simp [hg.1]) (by simp [hg.1])] at hp'
      cases hp'
    rw [Option.some.injEq] at hp
    refine ⟨?_, by simpa [step, core, hg.1, hg.2] using hp, hrv⟩
    cases hf : i.flush <;> simp [step, core, flushState, hg.1, hg.2, hf]
  · obtain ⟨hst, hptr, hd⟩ := h.pend p hp
    rw [Bool.not_eq_true] at hv
    rcases hst with hs | hs
    · refine ⟨?_, by simpa [step, core, hs, hd] using hptr, hv⟩
      cases hf : i.flush <;> simp [step, core, flushState, hs, hd, hf]
    · refine ⟨?_, by simpa [step, core, hs, hd] using hptr, hv⟩
      cases hf : i.flush <;> simp [step, core, flushState, hs, hd, hf]

/-- What arrives is the entry that was asked for. -/
theorem data_step (h : q.Reads mem pend) (ha : Answers mem pend i) (hv : (q.step i).dataRvalid = true) :
    (q.step i).dataRdata = mem (q.step i).pptr := by
  obtain ⟨p, hp, hd⟩ := ha hv
  obtain ⟨hst, hptr, hrv⟩ := h.pend p hp
  have hkeep : (q.step i).pptr = q.pptr := by
    rcases hst with hs0 | hs0 <;> simp [step, core, hs0, hrv]
  rw [hkeep, hptr]
  exact hd

theorem reads_step (h : q.Reads mem pend) (ha : Answers mem pend i) :
    (q.step i).Reads mem (q.outstanding i pend) where
  pend _ := outstanding_step h ha
  data hv _ := data_step h ha hv

theorem inv_step (h : q.Inv mem root pend) (hr : i.satpPpn = root) (ha : Answers mem pend i) :
    (q.step i).Inv mem root (q.outstanding i pend) where
  toReads := reads_step h.toReads ha
  ptr := ptr_step h hr

/-- An error is decided in the lookup state, on the entry that has arrived. -/
theorem step_error {e : PtwState} (he : e = .propagateError ∨ e = .propagateAccessError)
    (h : (q.step i).state = e) :
    q.state = .pteLookup ∧ q.dataRvalid = true ∧ i.flush = false ∧ (q.pteVerdict i).state = e ∧
      (q.step i).isInstrPtw = q.isInstrPtw ∧ (q.step i).vaddr = q.vaddr := by
  have hno : e ≠ .idle ∧ e ≠ .waitGrant ∧ e ≠ .pteLookup ∧ e ≠ .waitRvalid := by
    rcases he with rfl | rfl <;> decide
  cases hf : i.flush with
  | true =>
    simp only [step, hf, if_true, flushState] at h
    split_ifs at h
    · exact absurd h.symm hno.2.2.2
    · exact absurd h.symm hno.1
  | false =>
    simp only [step, hf, Bool.false_eq_true, if_false] at h ⊢
    cases hs : q.state with
    | pteLookup =>
      cases hv : q.dataRvalid with
      | true =>
        exact ⟨rfl, rfl, trivial, by simpa [core, hs, hv] using h, by simp [core, hs, hv], by simp [core, hs, hv]⟩
      | false => exact absurd (by simpa [core, hs, hv] using h.symm) hno.2.2.1
    | idle =>
      simp only [core, hs] at h
      split_ifs at h
      · exact absurd h.symm hno.2.1
      · exact absurd h.symm hno.2.1
      · exact absurd h.symm hno.1
    | waitGrant =>
      simp only [core, hs] at h
      split_ifs at h
      · exact absurd h.symm hno.2.2.1
      · exact absurd h.symm hno.2.1
    | waitRvalid =>
      simp only [core, hs] at h
      split_ifs at h
      · exact absurd h.symm hno.1
      · exact absurd h.symm hno.2.2.2
    | propagateError => exact absurd (by simpa [core, hs] using h.symm) hno.1
    | propagateAccessError => exact absurd (by simpa [core, hs] using h.symm) hno.1

/-- A walk is the walk of the cycle before, or begins for a miss. -/
theorem step_walking (hw : (q.step i).walking) :
    (i.flush = false ∧ q.walking ∧ (q.step i).isInstrPtw = q.isInstrPtw ∧ (q.step i).vaddr = q.vaddr) ∨
      (q.state = .idle ∧ ((q.step i).isInstrPtw = true ∨ (q.step i).vaddr = i.dtlbVaddr)) := by
  have hf : i.flush = false := by
    by_contra hf
    exact not_walking_flush (Bool.eq_true_of_not_eq_false hf) hw
  cases hs : q.state with
  | idle =>
    refine .inr ⟨rfl, ?_⟩
    simp only [walking, step, core, hs, hf, Bool.false_eq_true, if_false] at hw ⊢
    split_ifs at hw ⊢ with hitlb hdtlb
    · exact .inl rfl
    · exact .inr rfl
    · simp at hw
  | waitGrant =>
    refine .inl ⟨hf, .inl hs, ?_⟩
    simp only [step, core, hs]
    split_ifs <;> exact ⟨rfl, rfl⟩
  | pteLookup =>
    refine .inl ⟨hf, .inr hs, ?_⟩
    simp only [step, core, hs]
    split_ifs <;> exact ⟨rfl, rfl⟩
  | waitRvalid =>
    simp only [walking, step, core, hs, hf, Bool.false_eq_true, if_false] at hw
    split_ifs at hw <;> simp at hw
  | propagateError => simp [walking, step, core, hs, hf] at hw
  | propagateAccessError => simp [walking, step, core, hs, hf] at hw

/-- Who decides about an entry. -/
theorem pteVerdict_cases :
    (i.allowAccess = false ∧ ∃ l, q.pteVerdict i = ⟨.propagateAccessError, l, q.pptr, false, false⟩) ∨
    q.pteVerdict i = ⟨.propagateError, q.lvl, q.pptr, false, false⟩ ∨
    q.pteVerdict i = q.leafVerdict i ∨ q.pteVerdict i = q.tableVerdict := by
  cases ha : i.allowAccess with
  | false => exact .inl ⟨rfl, _, by rw [pteVerdict, ha]; rfl⟩
  | true =>
    refine .inr ?_
    simp only [pteVerdict, ha, if_true]
    split_ifs
    · exact .inl rfl
    · exact .inr (.inl rfl)
    · exact .inr (.inr rfl)

theorem leafVerdict_state : (q.leafVerdict i).state = .propagateError ∨ (q.leafVerdict i).state = .idle := by
  simp only [leafVerdict]
  split_ifs <;> simp

theorem leafVerdict_instr (hd : q.isInstrPtw = true) : (q.leafVerdict i).dtlbValid = false := by
  simp only [leafVerdict, hd, if_true]
  split_ifs <;> rfl

theorem tableVerdict_state :
    (q.tableVerdict.state = .waitGrant ∨ q.tableVerdict.state = .propagateError) ∧
      q.tableVerdict.dtlbValid = false := by
  rw [tableVerdict]
  cases q.lvl <;> simp

/-- A walk for the other buffer does not fill this one. -/
theorem dtlbValid_instr (hd : q.isInstrPtw = true) : (q.pteVerdict i).dtlbValid = false := by
  obtain ⟨-, l, h⟩ | h | h | h := q.pteVerdict_cases (i := i) <;> rw [h]
  · exact leafVerdict_instr hd
  · exact tableVerdict_state.2

/-- Without a PMP violation there is no access exception. -/
theorem pteVerdict_allowed (ha : i.allowAccess = true) : (q.pteVerdict i).state ≠ .propagateAccessError := by
  obtain ⟨hn, -⟩ | h | h | h := q.pteVerdict_cases (i := i)
  · exact absurd (ha.symm.trans hn) (by decide)
  all_goals rw [h]
  · nofun
  · rcases leafVerdict_state (q := q) (i := i) with h | h <;> rw [h] <;> nofun
  · rcases (tableVerdict_state (q := q)).1 with h | h <;> rw [h] <;> nofun

end Ptw
end Culsans.Mmu
