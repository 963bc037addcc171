import Culsans.Dcache.Invariants

/-! # The refill adapter under the miss handler

The miss handler and its adapter move in step: the adapter is busy only in the
states that wait for it, and with the kind of transfer that state has asked for.
-/

namespace Culsans.Dcache

namespace AxiAdapter
variable {q : AxiAdapter 1} {r : AdapterReq 1} {a : AxiResp}

@[simp] theorem cntMod_one : cntMod 1 = 2 := by decide

/-- Reading a line. -/
def reading (q : AxiAdapter 1) : Bool := q.state == .waitRValidMultiple || q.state == .completeRead

/-- Writing a line. -/
def writing (q : AxiAdapter 1) : Bool :=
  q.state == .waitLastWReady || q.state == .waitLastWReadyAwReady || q.state == .waitAwReadyBurst ||
    q.state == .waitBValid

theorem step_idle_none (h : q.state = .idle) (hr : r.req = false) : (q.step r a).state = .idle := by
  simp [step, stepState, stepIdle, h, hr]

/-- A line read is granted when its address is taken. -/
theorem step_idle_read (h : q.state = .idle) (hr : r.req = true) (hw : r.we = false)
    (ht : r.type = .cacheLineReq) :
    q.gnt r a = a.arReady ∧ (q.step r a).state = if a.arReady then .waitRValidMultiple else .idle := by
  simp [step, stepState, stepIdle, gnt, h, hr, hw, ht]
  split_ifs <;> rfl

theorem step_idle_write (h : q.state = .idle) (hr : r.req = true) (hw : r.we = true)
    (ht : r.type = .cacheLineReq) : (q.step r a).state = .idle ∨ (q.step r a).writing = true := by
  simp only [step, stepState, stepIdle, writing, h, hr, hw, ht]
  cases a.awReady <;> cases a.wReady <;> simp

theorem step_reading (h : q.reading = true) :
    (q.valid a = true ∧ (q.step r a).state = .idle) ∨
      (q.valid a = false ∧ (q.step r a).reading = true) := by
  simp only [reading, Bool.or_eq_true, beq_iff_eq] at h
  rcases h with h | h
  · refine .inr ⟨by simp [valid, h], ?_⟩
    simp only [reading, step, stepState, stepRead, h]
    grind
  · exact .inl ⟨by simp [valid, h], by simp [step, stepState, h]⟩

theorem step_writing (h : q.writing = true) (hn : q.amo = .none) :
    (q.valid a = true ∧ (q.step r a).state = .idle) ∨
      (q.valid a = false ∧ (q.step r a).writing = true) := by
  simp only [writing, Bool.or_eq_true, beq_iff_eq] at h
  rcases h with ((h | h) | h) | h <;>
    simp only [writing, step, stepState, valid, h, hn, amoReturnsData, atopFromAmo] <;> grind

theorem step_amo (hn : q.amo = .none) (ht : r.amo = .none) : (q.step r a).amo = .none := by
  simp only [step, stepState]
  cases h : q.state <;> simp only [stepIdle, stepRead] <;> grind

end AxiAdapter

namespace MissHandler

theorem axiReq_amo (c : Cfg) (q : MissHandler) : (q.axiReq c).amo = .none := by
  unfold axiReq
  cases q.state <;> rfl

theorem axiReq_type (c : Cfg) (q : MissHandler) : (q.axiReq c).type = .cacheLineReq := by
  unfold axiReq
  cases q.state <;> rfl

/-- A read of a line is asked for in two states, and nothing is asked for while waiting. -/
theorem axiReq_read {c : Cfg} {q : MissHandler}
    (h : q.state = .reqCacheline ∨ q.state = .reqCachelineUnique ∨ q.state = .sendClean) :
    (q.axiReq c).req = true ∧ (q.axiReq c).we = false := by
  rcases h with h | h | h <;> simp [axiReq, h]

/-- The states that write a victim back. -/
def writingBack (q : MissHandler) : Bool :=
  q.state == .wbCachelineMiss || q.state == .wbCachelineFlush || q.state == .wbCachelineAmo

theorem axiReq_write {c : Cfg} {q : MissHandler} (h : q.writingBack = true) :
    (q.axiReq c).req = true ∧ (q.axiReq c).we = true := by
  simp only [writingBack, Bool.or_eq_true, beq_iff_eq] at h
  rcases h with (h | h) | h <;> simp [axiReq, h]

/-- The byte strobes of a write-back burst, as a line. -/
def lineOfBe (d : Fin 2 → WordBe) : LineBe := fun b => d (if wordOfByte b then 1 else 0) (laneOfByte b)

theorem byteOfLane_laneOfByte (b : Fin 16) : byteOfLane (wordOfByte b) (laneOfByte b) = b := by
  revert b
  decide

theorem lineOfBe_burstBe (d : LineBe) : lineOfBe (burstBe d) = d := by
  funext b
  have hb := byteOfLane_laneOfByte b
  cases hw : wordOfByte b <;> simp_all [lineOfBe, burstBe]

theorem lineOfWords_burstWords (d : LineData) : lineOfWords (burstWords d) = d := by
  funext b
  have hb := byteOfLane_laneOfByte b
  cases hw : wordOfByte b <;> simp_all [lineOfWords, burstWords, LineData.word]

/-- The line, the strobes and the data of a write-back. -/
theorem axiReq_back {c : Cfg} {q : MissHandler} (h : q.writingBack = true) :
    (q.axiReq c).addr = ⟨q.evictCl.tag, q.cnt, 0⟩ ∧ lineOfBe (q.axiReq c).be = q.evictCl.dirty ∧
      lineOfWords (q.axiReq c).wdata = q.evictCl.data := by
  simp only [writingBack, Bool.or_eq_true, beq_iff_eq] at h
  rcases h with (h | h) | h <;> simp [axiReq, h, lineOfBe_burstBe, lineOfWords_burstWords]

theorem axiReq_rest {c : Cfg} {q : MissHandler} (h1 : q.state ≠ .reqCacheline)
    (h2 : q.state ≠ .reqCachelineUnique) (h3 : q.state ≠ .sendClean) (h4 : q.writingBack = false) :
    (q.axiReq c).req = false := by
  unfold axiReq
  cases hq : q.state <;> simp_all [writingBack]

end MissHandler

namespace Nbdcache
variable {c : Cfg} {s : Nbdcache} {i : CacheIn}

/-- The adapter is where the state of the miss handler needs it. -/
def adapterFits (st : MissState) (q : AxiAdapter 1) : Prop :=
  match st with
  | .saveCacheline => q.reading = true
  | .sendClean => q.state = .idle ∨ q.reading = true
  | .wbCachelineMiss | .wbCachelineFlush | .wbCachelineAmo => q.state = .idle ∨ q.writing = true
  | _ => q.state = .idle

structure AdapterInv (s : Nbdcache) : Prop where
  amo : s.axi.amo = .none
  fits : adapterFits s.miss.state s.axi

theorem adapterFits_of_idle {st : MissState} {q : AxiAdapter 1} (h : q.state = .idle)
    (hs : st ≠ .saveCacheline) : adapterFits st q := by
  cases st <;> simp_all [adapterFits]

/-- Without an answer a waiting state is kept. -/
theorem step_state_of_invalid (h : s.miss.state = .saveCacheline ∨ s.miss.state = .sendClean ∨
      s.miss.writingBack = true) (hv : s.axi.valid i.axiData = false) :
    (s.step c i).miss.state = s.miss.state := by
  have hv' : (s.missIn c i).axi.valid = false := hv
  show (s.miss.step (s.missIn c i)).state = _
  simp only [MissHandler.writingBack, Bool.or_eq_true, beq_iff_eq] at h
  rcases h with h | h | (h | h) | h <;> simp [MissHandler.step, MissHandler.stepSave, h, hv']

theorem step_ne_save (h1 : s.miss.state ≠ .reqCacheline) (h2 : s.miss.state ≠ .reqCachelineUnique)
    (h3 : s.miss.state = .saveCacheline → s.axi.valid i.axiData = true) :
    (s.step c i).miss.state ≠ .saveCacheline := by
  intro hs
  rcases (MissHandler.step_saveCacheline hs).2.2 with ⟨hq | hq, -⟩ | ⟨hq, hv⟩
  · exact h1 hq
  · exact h2 hq
  · exact absurd ((h3 hq).symm.trans hv) (by decide)

theorem adapterFits_step_back (h : s.AdapterInv) (hw : s.miss.writingBack = true) :
    adapterFits (s.step c i).miss.state (s.step c i).axi := by
  have hf := h.fits
  have hfit : ∀ q : AxiAdapter 1, adapterFits s.miss.state q ↔ q.state = .idle ∨ q.writing = true := by
    simp only [MissHandler.writingBack, Bool.or_eq_true, beq_iff_eq] at hw
    rcases hw with (hw | hw) | hw <;> simp [adapterFits, hw]
  have hne : s.miss.state ≠ .saveCacheline ∧ s.miss.state ≠ .reqCacheline ∧
      s.miss.state ≠ .reqCachelineUnique := by grind [MissHandler.writingBack]
  rcases (hfit _).mp hf with hi | hwr
  · obtain ⟨hr, hwe⟩ := MissHandler.axiReq_write (c := c) hw
    rw [step_state_of_invalid (.inr (.inr hw)) (by simp [AxiAdapter.valid, hi]), hfit]
    exact AxiAdapter.step_idle_write hi hr hwe (MissHandler.axiReq_type c s.miss)
  · rcases AxiAdapter.step_writing (r := s.miss.axiReq c) (a := i.axiData) hwr h.amo with ⟨hv, hi⟩ | ⟨hv, hs⟩
    · exact adapterFits_of_idle hi (step_ne_save hne.2.1 hne.2.2 fun hn => absurd hn hne.1)
    · rw [step_state_of_invalid (.inr (.inr hw)) hv, hfit]
      exact .inr hs

theorem adapterFits_step_request (h : s.AdapterInv)
    (hq : s.miss.state = .reqCacheline ∨ s.miss.state = .reqCachelineUnique) :
    adapterFits (s.step c i).miss.state (s.step c i).axi := by
  have hi : s.axi.state = .idle := by
    have hf := h.fits
    rcases hq with hq | hq <;> simpa [adapterFits, hq] using hf
  obtain ⟨hr, hwe⟩ := MissHandler.axiReq_read (c := c) (q := s.miss) (by tauto)
  obtain ⟨hg, hs⟩ := AxiAdapter.step_idle_read (a := i.axiData) hi hr hwe (MissHandler.axiReq_type c s.miss)
  have hs' : (s.step c i).axi.state = if i.axiData.arReady then .waitRValidMultiple else .idle := hs
  have hg' : (s.missIn c i).axi.gnt = i.axiData.arReady := hg
  have hm : (s.step c i).miss.state = if i.axiData.arReady then .saveCacheline else s.miss.state := by
    show (s.miss.step (s.missIn c i)).state = _
    rcases hq with hq | hq <;> simp [MissHandler.step, hq, hg'] <;> split_ifs <;> rfl
  cases ha : i.axiData.arReady
  · simp only [ha, Bool.false_eq_true, if_false] at hs' hm
    exact adapterFits_of_idle hs' (by rw [hm]; rcases hq with hq | hq <;> simp [hq])
  · simp only [ha, if_true] at hs' hm
    simp [hm, adapterFits, AxiAdapter.reading, hs']

theorem adapterFits_step_read
    (hq : s.miss.state = .saveCacheline ∨ s.miss.state = .sendClean) (hr : s.axi.reading = true) :
    adapterFits (s.step c i).miss.state (s.step c i).axi := by
  rcases AxiAdapter.step_reading (r := s.miss.axiReq c) (a := i.axiData) hr with ⟨hv, hi⟩ | ⟨hv, hs⟩
  · refine adapterFits_of_idle hi (step_ne_save ?_ ?_ fun _ => hv) <;> rcases hq with hq | hq <;> simp [hq]
  · have hs' : (s.step c i).axi.reading = true := hs
    rw [step_state_of_invalid (hq.imp_right .inl) hv]
    rcases hq with hq | hq <;> simp [adapterFits, hq, hs']

theorem adapterFits_step (h : s.AdapterInv) : adapterFits (s.step c i).miss.state (s.step c i).axi := by
  have hf := h.fits
  by_cases hw : s.miss.writingBack = true
  · exact adapterFits_step_back h hw
  by_cases hq : s.miss.state = .reqCacheline ∨ s.miss.state = .reqCachelineUnique
  · exact adapterFits_step_request h hq
  by_cases hr : (s.miss.state = .saveCacheline ∨ s.miss.state = .sendClean) ∧ s.axi.reading = true
  · exact adapterFits_step_read hr.1 hr.2
  have hsave : s.miss.state ≠ .saveCacheline := fun hs => hr ⟨.inl hs, by simpa [adapterFits, hs] using hf⟩
  push Not at hq
  have hi : s.axi.state = .idle := by
    cases hs : s.miss.state <;> simp_all [adapterFits, MissHandler.writingBack]
  by_cases hc : s.miss.state = .sendClean
  · obtain ⟨hreq, hwe⟩ := MissHandler.axiReq_read (c := c) (q := s.miss) (by tauto)
    obtain ⟨-, hs⟩ := AxiAdapter.step_idle_read (a := i.axiData) hi hreq hwe (MissHandler.axiReq_type c s.miss)
    have hs' : (s.step c i).axi.state = if i.axiData.arReady then .waitRValidMultiple else .idle := hs
    rw [step_state_of_invalid (.inr (.inl hc)) (by simp [AxiAdapter.valid, hi])]
    cases ha : i.axiData.arReady <;> simp [ha] at hs' <;> simp [adapterFits, hc, AxiAdapter.reading, hs']
  · refine adapterFits_of_idle (AxiAdapter.step_idle_none hi ?_) (step_ne_save hq.1 hq.2 fun hn => absurd hn hsave)
    exact MissHandler.axiReq_rest hq.1 hq.2 hc (by simpa using hw)

theorem adapterInv_init (h : s.IsReset) : s.AdapterInv := by
  constructor <;> simp [h.axi, h.miss, AxiAdapter.reset, MissHandler.reset, adapterFits]

theorem adapterInv_reachable {ok : Nbdcache → CacheIn → Prop} (h : (machine c).Reachable ok s) :
    s.AdapterInv :=
  Library.Machine.Reachable.invariant (P := AdapterInv) (fun _ => adapterInv_init)
    (fun s _ ha _ => ⟨AxiAdapter.step_amo ha.amo (MissHandler.axiReq_amo c s.miss), adapterFits_step ha⟩) h

end Nbdcache
end Culsans.Dcache
