import Culsans.Mmu.DataInterface

/-! # Data accesses against the current permissions

Every valid DTLB entry is a leaf of the page table for all addresses it matches, so
a hit needs only the checks that depend on the mode. SUM, the privilege, W and D are
checked on a hit; R or X with MXR is checked by the walker only.
-/

namespace Culsans.Mmu
open Library Tlb

namespace MmuRegs
variable {w ki kd : ℕ} {mem : BitVec 56 → Pte} {root : BitVec 44}
variable {x : MmuRegs w ki kd × Past} {i : MmuIn w}

structure Inv (mem : BitVec 56 → Pte) (root : BitVec 44) (x : MmuRegs w ki kd × Past) : Prop where
  dtlb : x.1.dtlb.Sound mem root
  ptw : x.1.ptw.Inv mem root x.2.pend
  hold : x.1.ptw.walking → x.1.ptw.isInstrPtw = false → x.1.ptw.vaddr = x.1.data.lsuVaddr
  /-- an error of a data walk is a fault of the access that waits, until MXR may change -/
  error : x.1.ptw.state = .propagateError → x.1.ptw.isInstrPtw = false →
    x.2.flushed = false ∧ x.1.ptw.vaddr = x.1.data.lsuVaddr ∧
      ∀ m : Mode, m.mxr = x.2.mxr → sv39 mem root m x.1.data.lsuIsStore x.1.data.lsuVaddr = none
  noAccess : x.1.ptw.state ≠ .propagateAccessError
  hit : x.1.data.dtlbHit = true →
    Exact mem root x.1.data.lsuVaddr ⟨x.1.data.dtlbPte, x.1.data.dtlbIs2M, x.1.data.dtlbIs1G, true⟩

theorem inv_reset : Inv mem root ((reset : MmuRegs w ki kd), ⟨none, false, true⟩) where
  dtlb := sound_reset
  ptw := Ptw.inv_reset
  hold h := by simp [reset, Ptw.reset, Ptw.walking] at h
  error h := by simp [reset, Ptw.reset] at h
  noAccess := by simp [reset, Ptw.reset]
  hit h := by simp [reset] at h

/-- The walker fills the DTLB with sound entries. -/
theorem update_sound (h : Inv mem root x) (ho : Ok mem root x i)
    (hv : (x.1.ptw.dtlbUpdate (x.1.ptwIn i)).valid = true) :
    TagSound mem root (updateTag (x.1.ptw.dtlbUpdate (x.1.ptwIn i))) (x.1.ptw.dtlbUpdate (x.1.ptwIn i)).content := by
  simp only [Ptw.dtlbUpdate, Ptw.update, Bool.and_eq_true, beq_iff_eq] at hv
  obtain ⟨⟨hs, hr⟩, hd⟩ := hv
  have hdata : x.1.ptw.isInstrPtw = false := by
    by_contra hi
    rw [Bool.not_eq_false] at hi
    exact absurd hd (by simp [Ptw.dtlbValid_instr hi])
  have hc := (Ptw.pteVerdict_data h.ptw hs hr hdata ho.ptwAllow).1 hd
  refine tagSound_update rfl ⟨?_, ?_⟩ hc
  · cases hl : x.1.ptw.lvl <;> simp [Ptw.dtlbUpdate, Ptw.update, Ptw.depth, hl]
  · cases hl : x.1.ptw.lvl <;> simp [Ptw.dtlbUpdate, Ptw.update, Ptw.depth, hl]

theorem hold_step (h : Inv mem root x) (ho : Ok mem root x i) (hw : (x.1.step i).ptw.walking)
    (hd : (x.1.step i).ptw.isInstrPtw = false) : (x.1.step i).ptw.vaddr = i.lsuVaddr := by
  rcases Ptw.step_walking hw with ⟨hf, hw0, hinstr, hva⟩ | ⟨-, hinstr | hva⟩
  · rw [show (x.1.step i).ptw.vaddr = x.1.ptw.vaddr from hva]
    have hd0 : x.1.ptw.isInstrPtw = false := hinstr.symm.trans hd
    rw [h.hold hw0 hd0, ho.hold hw0 hd0 hf]
  · exact absurd (hd.symm.trans hinstr) (by decide)
  · exact hva

theorem error_step (h : Inv mem root x) (ho : Ok mem root x i) (he : (x.1.step i).ptw.state = .propagateError)
    (hd : (x.1.step i).ptw.isInstrPtw = false) :
    i.flush = false ∧ (x.1.step i).ptw.vaddr = i.lsuVaddr ∧
      ∀ m : Mode, m.mxr = i.mode.mxr → sv39 mem root m i.lsuIsStore i.lsuVaddr = none := by
  obtain ⟨hs, hv, hf, hvd, hinstr, hva⟩ := Ptw.step_error (.inl rfl) he
  have hd0 : x.1.ptw.isInstrPtw = false := hinstr.symm.trans hd
  have haddr : x.1.ptw.vaddr = i.lsuVaddr := by
    rw [h.hold (.inr hs) hd0, ho.hold (.inr hs) hd0 hf]
  refine ⟨hf, hva.trans haddr, fun m hm => ?_⟩
  rw [← haddr]
  exact (Ptw.pteVerdict_data h.ptw hs hv hd0 ho.ptwAllow).2 hvd m hm

theorem noAccess_step (ho : Ok mem root x i) :
    (x.1.step i).ptw.state ≠ .propagateAccessError := by
  intro he
  obtain ⟨-, -, -, hvd, -, -⟩ := Ptw.step_error (.inr rfl) he
  exact Ptw.pteVerdict_allowed ho.ptwAllow hvd

theorem inv_step (h : Inv mem root x) (ho : Ok mem root x i) :
    Inv mem root (x.1.step i, watch x.2 x.1 i) where
  dtlb := sound_step h.dtlb (update_sound h ho)
  ptw := Ptw.inv_step h.ptw ho.satp ho.answers
  hold := hold_step h ho
  error := error_step h ho
  noAccess := noAccess_step ho
  hit := lookup_exact h.dtlb

theorem inv_of_reachable (hr : (machine w ki kd).Reachable (Ok mem root) x) : Inv mem root x := by
  refine hr.invariant (fun s h0 => ?_) fun s i hi ho => inv_step hi ho
  obtain ⟨s, g⟩ := s
  obtain ⟨rfl, rfl⟩ := h0
  exact inv_reset

/-! ### The verdict -/

variable {s : MmuRegs w ki kd} {m : Mode} {isStore : Bool} {r : Outcome}

/-- The page offset and the slice above it are one slice. -/
theorem append_slices {a l h : ℕ} (x : BitVec a) (va : BitVec 64) (j : ℕ) :
    (x ++ va.extractLsb' l h ++ va.extractLsb' 0 l).getLsbD j = (x ++ va.extractLsb' 0 (h + l)).getLsbD j := by
  simp only [BitVec.getLsbD_append, BitVec.getLsbD_extractLsb']
  by_cases h1 : j < l
  · simp [h1, show j < h + l by omega]
  · by_cases h2 : j - l < h
    · simp [h1, h2, show j < h + l by omega, show l + (j - l) = j by omega]
    · simp [h1, h2, show ¬ j < h + l by omega, show j - l - h = j - (h + l) by omega]

theorem physAddr_mega (p : Pte) (va : BitVec 64) :
    physAddr p va 1 = p.ppn.extractLsb' 9 35 ++ va.extractLsb' 0 21 :=
  BitVec.eq_of_getLsbD_eq fun j _ => append_slices (p.ppn.extractLsb' 9 35) va j

theorem physAddr_giga (p : Pte) (va : BitVec 64) :
    physAddr p va 2 = p.ppn.extractLsb' 18 26 ++ va.extractLsb' 0 30 := by
  have hvpn : vpn va 1 ++ vpn va 0 = va.extractLsb' 12 18 :=
    BitVec.extractLsb'_append_extractLsb'_eq_extractLsb' rfl
  change p.ppn.extractLsb' 18 26 ++ (vpn va 1 ++ vpn va 0) ++ va.extractLsb' 0 12 = _
  rw [hvpn]
  exact BitVec.eq_of_getLsbD_eq fun j _ => append_slices (p.ppn.extractLsb' 18 26) va j

/-- The address put together from the registers is that of the leaf. -/
theorem pagePaddr_eq {d : DataRegs} {n : ℕ} {p : Pte} (hc : Cached mem root d.lsuVaddr d.dtlbPte n p)
    (hl : AtLevel n d.dtlbIs2M d.dtlbIs1G) : pagePaddr d = physAddr p d.lsuVaddr n := by
  have hppn : d.dtlbPte.ppn = p.ppn := by rw [hc.content_eq]
  have hn := walk_level_le hc.walk
  rw [pagePaddr, hl.mega, hl.giga, hppn]
  match n with
  | 0 => rfl
  | 1 => exact (physAddr_mega p d.lsuVaddr).symm
  | 2 => exact (physAddr_giga p d.lsuVaddr).symm

theorem daccessErr_eq {d : DataRegs} (he : i.enLdStTranslation = true) : daccessErr d i = !i.mode.privOk d.dtlbPte := by
  simp [daccessErr, Mode.privOk, he, Bool.not_and, Bool.not_or]

/-- On a hit the algorithm is evaluated on the registers. -/
theorem sv39_hit {d : DataRegs} (h : Exact mem root d.lsuVaddr ⟨d.dtlbPte, d.dtlbIs2M, d.dtlbIs1G, true⟩) :
    d.dtlbPte.a = true ∧ (d.dtlbPte.r || d.dtlbPte.x) = true ∧ (d.dtlbPte.w = true → d.dtlbPte.r = true) ∧
      sv39 mem root m d.lsuIsStore d.lsuVaddr =
        if m.allows d.lsuIsStore d.dtlbPte then some (pagePaddr d) else none := by
  obtain ⟨n, p, hc, hl⟩ := h
  dsimp only at hc hl
  have hpte := hc.content_eq
  have hallows : m.allows d.lsuIsStore d.dtlbPte = m.allows d.lsuIsStore p := by
    rw [hpte]
    rfl
  refine ⟨?_, ?_, fun hw => ?_, ?_⟩
  · rw [hpte]
    exact hc.accessed
  · rw [hpte]
    exact hc.leaf
  · have hv := hc.valid
    rw [hpte] at hw ⊢
    simp only [Pte.invalid, Bool.or_eq_false_iff, Bool.and_eq_false_iff, Bool.not_eq_false'] at hv
    exact hv.2.resolve_right (by simp [show p.w = true from hw])
  · rw [sv39_of_walk hc.walk, hc.aligned, Bool.true_and, hallows, pagePaddr_eq hc hl]

/-- A hit is answered by the checks on the registers. -/
theorem answer_hit (he : i.enLdStTranslation = true) (hm : s.data.misalignedEx = none)
    (hh : (s.data.dtlbHit && s.data.lsuReq) = true) :
    s.answer i = some (match hitException s.data i with
      | none => .paddr (pagePaddr s.data)
      | some e => .exception e) := by
  have ho : (s.dataInterface i).valid = true ∧ (s.dataInterface i).paddr = pagePaddr s.data ∧
      (s.dataInterface i).ex = hitException s.data i := by
    simp [dataInterface, he, hm, hh]
  obtain ⟨hvalid, hpaddr, hex⟩ := ho
  refine (if_pos (by simp [he, hm, hvalid])).trans ?_
  cases hx : hitException s.data i with
  | none => exact congrArg some (by simp only [hex, hx, hpaddr])
  | some e => exact congrArg some (by simp only [hex, hx])

/-- What answers a miss is an error of a data walk. -/
theorem answer_miss (hna : s.ptw.state ≠ .propagateAccessError) (hh : (s.data.dtlbHit && s.data.lsuReq) = false)
    (ha : s.answer i = some r) :
    s.ptw.state = .propagateError ∧ s.ptw.isInstrPtw = false ∧ r = .exception (pageFault s.data s.ptw.vaddr) := by
  have hacc : s.ptw.ptwAccessException = false := by simpa [Ptw.ptwAccessException] using hna
  simp only [answer] at ha
  split_ifs at ha with hv
  simp only [Bool.and_eq_true] at hv
  obtain ⟨⟨he, hm⟩, hvalid⟩ := hv
  simp only [dataInterface, he, hm, hh, hacc, Bool.and_self, if_true, Bool.false_eq_true, if_false] at ha hvalid
  split_ifs at ha hvalid with hact herr
  · simp only [Bool.and_eq_true, Bool.not_eq_true'] at hact
    simp only [Option.some.injEq] at ha
    exact ⟨by simpa [Ptw.ptwError] using herr, hact.2, ha.symm⟩

/-- The checks of a hit that depend on the mode are those of the algorithm, but for R and MXR. -/
theorem hitException_eq {d : DataRegs} (he : i.enLdStTranslation = true) (hp : i.pmpDataAllow = true)
    (ha : d.dtlbPte.a = true) (hl : (d.dtlbPte.r || d.dtlbPte.x) = true)
    (hw : d.dtlbPte.w = true → d.dtlbPte.r = true) :
    hitException d i =
      if i.mode.allows d.lsuIsStore d.dtlbPte ||
          (!d.lsuIsStore && !d.dtlbPte.r && !i.mode.mxr && i.mode.privOk d.dtlbPte) then none
      else some (pageFault d d.lsuVaddr) := by
  rw [hitException, daccessErr_eq he]
  cases hst : d.lsuIsStore with
  | true =>
    cases hwr : d.dtlbPte.w with
    | false => simp [Mode.allows, Mode.storeOk, hwr]
    | true =>
      cases hpr : i.mode.privOk d.dtlbPte with
      | false => simp [Mode.allows, Mode.storeOk, Mode.loadOk, hpr]
      | true =>
        cases hdt : d.dtlbPte.d <;>
          simp [Mode.allows, Mode.storeOk, Mode.loadOk, hwr, ha, hw hwr, hp, hpr, hdt]
  | false =>
    cases hpr : i.mode.privOk d.dtlbPte with
    | false => simp [Mode.allows, Mode.loadOk, hpr]
    | true =>
      cases hrd : d.dtlbPte.r with
      | true => simp [Mode.allows, Mode.loadOk, hpr, ha, hp, hrd]
      | false =>
        have hx : d.dtlbPte.x = true := by simpa [hrd] using hl
        cases hmxr : i.mode.mxr <;> simp [Mode.allows, Mode.loadOk, hpr, ha, hp, hrd, hx, hmxr]

/-- In every run the outcome of a translated access is that of the Sv39 algorithm under the mode
in force, exactly when it is not a load that hits a page without R while MXR is clear. -/
theorem data_access_checked (hr : (machine w ki kd).Reachable (Ok mem root) x) (ho : Ok mem root x i)
    (ha : x.1.answer i = some r) :
    r = required mem root i.mode x.1.data ↔ x.1.staleLoad i = false := by
  have h := inv_of_reachable hr
  cases hh : (x.1.data.dtlbHit && x.1.data.lsuReq) with
  | false =>
    obtain ⟨hs, hd, rfl⟩ := answer_miss h.noAccess hh ha
    obtain ⟨hf, hva, hnone⟩ := h.error hs hd
    have hreq : required mem root i.mode x.1.data = .exception (pageFault x.1.data x.1.ptw.vaddr) := by
      rw [required, hnone i.mode (ho.mxr hf), hva]
      rfl
    simp [hreq, staleLoad, hh]
  | true =>
    obtain ⟨he, hm⟩ : i.enLdStTranslation = true ∧ x.1.data.misalignedEx = none := by
      simp only [answer] at ha
      split_ifs at ha with hv
      simp only [Bool.and_eq_true, Option.isNone_iff_eq_none] at hv
      exact hv.1
    rw [answer_hit he hm hh, Option.some.injEq] at ha
    obtain ⟨hacc, hleaf, hwr, hsv⟩ := sv39_hit (m := i.mode) (h.hit (Bool.and_eq_true_iff.mp hh).1)
    have hst : x.1.staleLoad i =
        (!x.1.data.lsuIsStore && !x.1.data.dtlbPte.r && !i.mode.mxr && i.mode.privOk x.1.data.dtlbPte) := by
      rw [staleLoad, hh, Bool.true_and]
    rw [hitException_eq he ho.pmpDataAllow hacc hleaf hwr, ← hst] at ha
    rw [← ha, required, hsv]
    cases hal : i.mode.allows x.1.data.lsuIsStore x.1.data.dtlbPte with
    | true =>
      have hns : x.1.staleLoad i = false := by
        rw [hst]
        cases hl : x.1.data.lsuIsStore with
        | true => rfl
        | false =>
          cases hrd : x.1.data.dtlbPte.r with
          | true => rfl
          | false =>
            have hm1 : i.mode.mxr = true := by
              simp only [Mode.allows, hl, Mode.loadOk, hrd, Bool.false_eq_true, if_false, Bool.false_or,
                Bool.and_eq_true] at hal
              exact hal.1.2.2
            simp [hm1]
      simp [hns]
    | false => cases hs : x.1.staleLoad i <;> simp [pageFault]

/-! ### A run with a stale permission -/

instance (q : Ptw w) : Decidable q.walking := inferInstanceAs (Decidable (_ ∨ _))

instance (mem : BitVec 56 → Pte) (root : BitVec 44) (x : MmuRegs w ki kd × Past) (i : MmuIn w) :
    Decidable (Ok mem root x i) :=
  decidable_of_iff (i.satpPpn = root ∧ Ptw.Answers mem x.2.pend (x.1.ptwIn i) ∧ i.ptwAllow = true ∧
      i.pmpDataAllow = true ∧ (x.2.flushed = false → i.mode.mxr = x.2.mxr) ∧
      (x.1.ptw.walking → x.1.ptw.isInstrPtw = false → i.flush = false → i.lsuVaddr = x.1.data.lsuVaddr))
    ⟨fun ⟨a, b, c, d, e, f⟩ => ⟨a, b, c, d, e, f⟩, fun ⟨a, b, c, d, e, f⟩ => ⟨a, b, c, d, e, f⟩⟩

/-- A page table with one giga page that may only be executed. -/
def execOnly (p : BitVec 56) : Pte :=
  if p = 0 then { zeroPte with ppn := 0x40000, v := true, x := true, a := true } else zeroPte

/-- A supervisor load from address `0x1234`. -/
def loadIn (mxr : Bool) : MmuIn 1 where
  flush := false
  enableTranslation := false
  enLdStTranslation := true
  fetchReq := false
  fetchVaddr := 0
  misalignedEx := none
  lsuReq := true
  lsuVaddr := 0x1234
  lsuIsStore := false
  mode := ⟨.s, false, mxr⟩
  satpPpn := 0
  asid := 0
  asidToBeFlushed := 0
  vaddrToBeFlushed := 0
  flushTlb := false
  dataGnt := false
  dataRvalid := false
  dataRdata := zeroPte
  ptwAllow := true
  pmpDataAllow := true

/-- A load fills the DTLB while MXR is set and hits afterwards. -/
def fillRun : List (MmuIn 1) :=
  [loadIn true, { loadIn true with dataGnt := true }, { loadIn true with dataRvalid := true, dataRdata := execOnly 0 },
    loadIn true, loadIn true]

/-- A CSR write, which flushes the pipeline, clears MXR; then the load is made again. -/
def clearRun : List (MmuIn 1) := fillRun ++ [{ loadIn true with flush := true }, loadIn false]

def start (is : List (MmuIn 1)) : MmuRegs 1 4 4 × Past := (machine 1 4 4).run (reset, ⟨none, false, true⟩) is

theorem start_reachable (is : List (MmuIn 1))
    (h : (machine 1 4 4).Along (Ok execOnly 0) (reset, ⟨none, false, true⟩) is) :
    (machine 1 4 4).Reachable (Ok execOnly 0) (start is) := by
  have h0 : (machine 1 4 4).init (reset, ⟨none, false, true⟩) := ⟨rfl, rfl⟩
  exact .run (.init h0) h

set_option maxRecDepth 10000 in
/-- After the fill the load is answered as required. -/
theorem data_access_checked_fill :
    (start fillRun).1.answer (loadIn true) = some (.paddr 0x40001234) ∧
      required execOnly 0 (loadIn true).mode (start fillRun).1.data = .paddr 0x40001234 := by
  have ha : (start fillRun).1.answer (loadIn true) = some (.paddr 0x40001234) := by decide +kernel
  refine ⟨ha, ?_⟩
  have h := data_access_checked (start_reachable fillRun (by decide +kernel))
    (i := loadIn true) (by decide +kernel) ha
  exact (h.mpr (by decide +kernel)).symm

set_option maxRecDepth 10000 in
/-- After MXR is cleared the same load still succeeds. -/
theorem data_access_stale :
    ¬ ∀ x : MmuRegs 1 4 4 × Past, (machine 1 4 4).Reachable (Ok execOnly 0) x → ∀ i, Ok execOnly 0 x i →
      ∀ r, x.1.answer i = some r → r = required execOnly 0 i.mode x.1.data := by
  intro h
  have hr := h (start clearRun) (start_reachable clearRun (by decide +kernel)) (loadIn false) (by decide +kernel)
    (.paddr 0x40001234) (by decide +kernel)
  exact absurd hr (by decide +kernel)

end MmuRegs
end Culsans.Mmu
