import Culsans.Dcache.Sweep
import Culsans.Dcache.Eviction

/-! # Refusing a snoop does not wait for the interconnect

The interconnect serves one coherent transaction at a time and waits until every
snooped core has taken its AC. A core that refuses one must therefore not depend on
a transaction of its own that the interconnect has to serve first.
-/

namespace Culsans.Dcache

namespace AxiAdapter
variable {burst : ℕ} {q : AxiAdapter burst} {r : AdapterReq burst} {a : AxiResp}

/-- A write has been taken in part, or waits for its response. -/
def writes (q : AxiAdapter burst) : Bool :=
  q.state == .waitBValid || q.state == .waitAwReady || q.state == .waitLastWReady ||
    q.state == .waitLastWReadyAwReady || q.state == .waitAwReadyBurst || q.state == .waitAmoRValid

/-- The adapter is busy with what it was busy with, or with the request. -/
theorem step_busy (h : (q.step r a).state ≠ .idle) :
    (q.state ≠ .idle ∧ q.valid a = false ∧ (q.step r a).writes = q.writes) ∨
      (q.state = .idle ∧ r.req = true ∧ (q.step r a).writes = r.we) := by
  simp only [step, stepState] at h ⊢
  cases hq : q.state <;>
    simp only [hq, stepIdle, stepRead, valid, writes] at h ⊢ <;> grind

end AxiAdapter

namespace CacheCtrl
variable {c : Cfg} {q : CacheCtrl} {i : CtrlIn} {gnt : Bool}

/-- The direction of a saved request comes from the port. -/
theorem step_we : (q.step c i gnt).memReq.we = q.memReq.we ∨
    (q.step c i gnt).memReq.we = i.reqPort.dataWe := by
  simp only [step, stepState]
  cases hq : q.state <;>
    simp only [stepIdle, stepWaitTag, stepHit, stepWaitGnt, stepMakeUnique, stepStoreReq,
      stepWaitMshr, stepWaitTagBypassed, stepWaitRefillGnt, stepWaitCriticalWord,
      stepWaitRefillValid, base, MemReq.save] <;> grind

theorem step_idle (hq : q.state = .idle) (hr : i.reqPort.dataReq = false) :
    (q.step c i gnt).state = .idle := by
  simp [step, stepState, stepIdle, base, hq, hr]

/-- A bypassed request that is taken is waited for. -/
theorem step_of_bypassGnt (hq : q.state = .waitRefillGnt)
    (ha : i.mshrAddrMatches = false ∨ i.activeServing = true) (hg : i.missGnt = false)
    (hb : i.bypassGnt = true) : (q.step c i gnt).state = .waitRefillValid := by
  rcases ha with ha | ha <;> simp [step, stepState, stepWaitRefillGnt, hq, ha, hg, hb, unkillable]

theorem step_of_waitRefillValid (hq : q.state = .waitRefillValid) (hk : i.reqPort.killReq = false)
    (hv : i.bypassValid = false) : (q.step c i gnt).state = .waitRefillValid := by
  simp [step, stepState, stepWaitRefillValid, base, hq, hk, hv]

end CacheCtrl

/-- A flush or an atomic is being served. -/
def MissHandler.maintains (q : MissHandler) : Bool := q.flushes || q.amoPrepares || q.amoPresents

namespace Nbdcache
open Library MissHandler CacheArray

variable {c : Cfg} {s : Nbdcache} {i : CacheIn}

/-- What the core promises: the page-table walker and the load unit never write, the store unit never
kills a request, and no store is requested with a flush or an atomic, which wait until the store buffer
has drained. -/
def coreOk (s : Nbdcache) (i : CacheIn) : Prop :=
  (i.reqPorts 0).dataWe = false ∧ (i.reqPorts 1).dataWe = false ∧ (i.reqPorts 2).killReq = false ∧
    ((i.flush || i.amoReq.req || s.miss.maintains) = true → (i.reqPorts 2).dataReq = false)

/-- A bypassed store is taken in the cycle in which its controller turns to the MSHR instead of waiting
for it. An MSHR only holds a bypassed line if the cache is disabled during a miss. -/
def strays (c : Cfg) (s : Nbdcache) (i : CacheIn) : Bool :=
  (s.ctrl 2).state == .waitRefillGnt && (s.ctrlIn c i 2).bypassGnt && (s.ctrlIn c i 2).mshrAddrMatches &&
    !(s.ctrlIn c i 2).activeServing

def holdOk (c : Cfg) (s : Nbdcache) (i : CacheIn) : Prop := coreOk s i ∧ strays c s i = false

instance (s : Nbdcache) (i : CacheIn) : Decidable (coreOk s i) :=
  inferInstanceAs (Decidable (_ ∧ _ ∧ _ ∧ (_ → _)))

instance (c : Cfg) (s : Nbdcache) (i : CacheIn) : Decidable (holdOk c s i) :=
  inferInstanceAs (Decidable (_ ∧ _))

/-- Who the bypass serves. -/
structure HoldInv (s : Nbdcache) : Prop where
  loads : ∀ p, p ≠ 2 → (s.ctrl p).memReq.we = false
  stores : ∀ p, (s.ctrl p).state = .storeReq ∨ (s.ctrl p).state = .makeUnique → (s.ctrl p).memReq.we = true
  store : s.miss.maintains = true → (s.ctrl 2).state = .idle
  serving : s.arb.serving = true → s.arb.req.req = true
  writing : s.arb.serving = true → s.arb.req.we = true →
    (s.arb.sel = 2 ∧ (s.ctrl 2).state = .waitRefillValid) ∨ (s.arb.sel = 3 ∧ s.miss.state = .amoWaitResp)
  adapter : s.bypassAxi.state ≠ .idle → s.arb.serving = true ∧ s.bypassAxi.writes = s.arb.req.we
  cnt : s.axi.cnt ≤ 1

/-- Only the store controller and an atomic ask the bypass for a write. -/
theorem bypassReq_we (h : s.HoldInv) {p : Fin 4} (hr : (s.bypassReq c i p).req = true)
    (hw : (s.bypassReq c i p).we = true) :
    (p = 2 ∧ (s.ctrl 2).state = .waitRefillGnt ∧ (s.ctrl 2).memReq.bypass = true) ∨
      (p = 3 ∧ s.miss.state = .amoReq) := by
  have hctrl : ∀ k : Fin 3, (portBypassReq c k (s.ctrl k).missReq).req = true →
      (portBypassReq c k (s.ctrl k).missReq).we = true →
      k = 2 ∧ (s.ctrl k).state = .waitRefillGnt ∧ (s.ctrl k).memReq.bypass = true := by
    intro k hr hw
    have hl := h.loads k
    simp only [portBypassReq, CacheCtrl.missReq] at hr hw
    cases hs : (s.ctrl k).state <;> simp_all
  fin_cases p
  · exact absurd (hctrl 0 hr hw).1 (by decide)
  · exact absurd (hctrl 1 hr hw).1 (by decide)
  · exact .inl ⟨rfl, (hctrl 2 hr hw).2⟩
  · refine .inr ⟨rfl, ?_⟩
    have hr' : (s.miss.amoBypassReq c i.amoReq).req = true := hr
    by_contra hn
    simp [amoBypassReq, hn, BypassReq.none] at hr'

theorem loads_step (h : s.HoldInv) (hok : holdOk c s i) (p : Fin 3) (hp : p ≠ 2) :
    ((s.step c i).ctrl p).memReq.we = false := by
  have hd : (i.reqPorts p).dataWe = false := by
    fin_cases p
    · exact hok.1.1
    · exact hok.1.2.1
    · exact absurd rfl hp
  have hwe : ((s.step c i).ctrl p).memReq.we = (s.ctrl p).memReq.we ∨
      ((s.step c i).ctrl p).memReq.we = (i.reqPorts p).dataWe := CacheCtrl.step_we
  rcases hwe with hs | hs
  · exact hs.trans (h.loads p hp)
  · exact hs.trans hd

/-- Only a store gets to STORE_REQ. -/
theorem stores_step (h : s.HoldInv) (p : Fin 3)
    (hs : ((s.step c i).ctrl p).state = .storeReq ∨ ((s.step c i).ctrl p).state = .makeUnique) :
    ((s.step c i).ctrl p).memReq.we = true := by
  rcases hs with hs | hs
  · rcases CacheCtrl.step_storeReq hs with hh | ⟨hq, -, -, hd, -⟩ | ⟨hq, -, -, hd, -⟩
    · exact hh.we'
    · exact hd.2.2.1.trans (h.stores p (.inr hq))
    · exact hd.2.2.1.trans (h.stores p (.inl hq))
  · rcases CacheCtrl.step_makeUnique hs with hh | ⟨hq, -, hd, -⟩ | ⟨hq, -, -, hd⟩
    · exact hh.we'
    · exact hd.2.2.1.trans (h.stores p (.inr hq))
    · exact hd.2.2.1.trans (h.stores p (.inl hq))

/-- Maintenance begins with every controller idle and goes on until it is answered. -/
theorem maintains_of_step (hm : (s.step c i).miss.maintains = true) :
    (s.ctrl 2).state = .idle ∧ (i.flush = true ∨ i.amoReq.req = true) ∨ s.miss.maintains = true := by
  have hd : (s.step c i).miss = s.miss.step (s.missIn c i) := rfl
  have hv := serves s.miss (s.missIn c i)
  generalize s.miss.step (s.missIn c i) = d at hd hv
  rw [hd] at hm
  cases hv with
  | accept hq hr hb ha => exact .inl ⟨ctrl_idle_of_busy hb 2, ha⟩
  | other _ hq hq' hq'' hd1 hd2 hd3 => simp [maintains, hd1, hd2, hd3] at hm
  | _ => right; grind [maintains, flushes, amoPrepares, amoPresents]

theorem storePort_step (h : s.HoldInv) (hok : holdOk c s i) (hm : (s.step c i).miss.maintains = true) :
    ((s.step c i).ctrl 2).state = .idle := by
  have hidle : (s.ctrl 2).state = .idle ∧ (i.reqPorts 2).dataReq = false := by
    rcases maintains_of_step hm with ⟨hi, hr⟩ | hq
    · refine ⟨hi, hok.1.2.2.2 ?_⟩
      rcases hr with hr | hr <;> simp [hr]
    · exact ⟨h.store hq, hok.1.2.2.2 (by simp [hq])⟩
  exact CacheCtrl.step_idle hidle.1 hidle.2

/-- A request that the bypass takes keeps its owner waiting. -/
theorem bypassWrite_step (hb : s.Basic) (h : s.HoldInv) (hok : holdOk c s i)
    (hs : (s.step c i).arb.serving = true) (hw : (s.step c i).arb.req.we = true) :
    ((s.step c i).arb.sel = 2 ∧ ((s.step c i).ctrl 2).state = .waitRefillValid) ∨
      ((s.step c i).arb.sel = 3 ∧ (s.step c i).miss.state = .amoWaitResp) := by
  have ha : (s.step c i).arb = s.arb.step (s.bypassReq c i) (s.bypassAxi.valid i.axiBypass) := rfl
  cases hq : s.arb.serving
  · -- a new request
    have hd : (s.step c i).arb = ⟨(s.bypassReq c i (s.arb.selD (s.bypassReq c i))).req,
        s.arb.selD (s.bypassReq c i), s.bypassReq c i (s.arb.selD (s.bypassReq c i))⟩ := by
      rw [ha]
      simp [BypassArbiter.step, hq]
    rw [hd] at hs hw ⊢
    rcases bypassReq_we h hs hw with ⟨hp, hst, hby⟩ | ⟨hp, hst⟩
    · refine .inl ⟨hp, ?_⟩
      have hg : (s.ctrlIn c i 2).bypassGnt = true := by
        have hreq : (s.bypassReq c i 2).req = true := hp ▸ hs
        simp [ctrlIn, bypassRsp, BypassArbiter.rsp, hq, hp, hreq]
      apply CacheCtrl.step_of_bypassGnt hst ?_ ?_ hg
      · have hno := hok.2
        simp only [strays, hst, hg] at hno
        cases hx : (s.ctrlIn c i 2).mshrAddrMatches <;> simp_all
      · by_contra hgn
        obtain ⟨hst', hid, -, hu⟩ := granted_of_missGnt (c := c) hb hst (by simpa using hgn)
        have hr := (hb.mshr.refilling (by rcases hst' with h' | h' <;> simp [refilling, h']) hu).2.2
        rw [hid, hby] at hr
        exact absurd hr (by decide)
    · refine .inr ⟨hp, ?_⟩
      have hg : (s.missIn c i).amoRsp.gnt = true ∧ (s.missIn c i).amoRsp.valid = false := by
        have hreq : (s.bypassReq c i 3).req = true := hp ▸ hs
        simp [missIn, bypassRsp, BypassArbiter.rsp, hq, hp, hreq]
      simp [step, MissHandler.step, hst, hg.1, hg.2]
  · -- the request being served is not answered yet
    have hd : (s.step c i).arb = { s.arb with serving := !(s.bypassAxi.valid i.axiBypass) } := by
      rw [ha]
      simp [BypassArbiter.step, hq]
    have hnv : s.bypassAxi.valid i.axiBypass = false := by simpa [hd] using hs
    rw [hd] at hw ⊢
    rcases h.writing hq hw with ⟨hp, hst⟩ | ⟨hp, hst⟩
    · refine .inl ⟨hp, ?_⟩
      apply CacheCtrl.step_of_waitRefillValid hst hok.1.2.2.1
      simp [ctrlIn, bypassRsp, BypassArbiter.rsp, hnv]
    · refine .inr ⟨hp, ?_⟩
      have hv : (s.missIn c i).amoRsp.valid = false := by simp [missIn, bypassRsp, BypassArbiter.rsp, hnv]
      simp [step, MissHandler.step, hst, hv]

theorem bypassAdapter_step (h : s.HoldInv) (hn : (s.step c i).bypassAxi.state ≠ .idle) :
    (s.step c i).arb.serving = true ∧ (s.step c i).bypassAxi.writes = (s.step c i).arb.req.we := by
  have ha : (s.step c i).arb = s.arb.step (s.bypassReq c i) (s.bypassAxi.valid i.axiBypass) := rfl
  rcases AxiAdapter.step_busy hn with ⟨hq, hv, hw⟩ | ⟨hq, hr, hw⟩
  · obtain ⟨hs, hwe⟩ := h.adapter hq
    rw [ha, BypassArbiter.step, hs, if_pos rfl, hv]
    exact ⟨rfl, hw.trans hwe⟩
  · have hv : s.bypassAxi.valid i.axiBypass = false := by simp [AxiAdapter.valid, hq]
    rw [ha, BypassArbiter.step, hv]
    have hw' : (s.step c i).bypassAxi.writes = (s.arb.reqO (s.bypassReq c i)).we := hw
    have hr' : (s.arb.reqO (s.bypassReq c i)).req = true := hr
    rw [hw']
    cases hs : s.arb.serving <;> simp_all [BypassArbiter.reqO]

theorem holdInv_step (hb : s.Basic) (h : s.HoldInv) (hok : holdOk c s i) : (s.step c i).HoldInv where
  loads := loads_step h hok
  stores := stores_step h
  store := storePort_step h hok
  serving := by
    intro hs
    have ha : (s.step c i).arb = s.arb.step (s.bypassReq c i) (s.bypassAxi.valid i.axiBypass) := rfl
    rw [ha] at hs ⊢
    cases hq : s.arb.serving
    · simpa [BypassArbiter.step, hq] using hs
    · simpa [BypassArbiter.step, hq] using h.serving hq
  writing := bypassWrite_step hb h hok
  adapter := bypassAdapter_step h
  cnt := by
    have hc := h.cnt
    simp only [step, AxiAdapter.step, AxiAdapter.stepState]
    cases hq : s.axi.state <;> simp only [AxiAdapter.stepIdle, AxiAdapter.stepRead, AxiAdapter.cntMod_one] <;> grind

theorem holdInv_reachable (h : (machine c).Reachable (holdOk c) s) : s.HoldInv := by
  refine Machine.Reachable.invariant_of (P := Basic) (Q := HoldInv) (fun _ => basic_reachable) ?_
    (fun _ _ hb hh hok => holdInv_step hb hh hok) h
  intro s (hs : s.IsReset)
  constructor <;> simp [hs.ctrl, hs.miss, hs.arb, hs.bypassAxi, hs.axi, CacheCtrl.reset, MemReq.zero,
    BypassArbiter.reset, AxiAdapter.reset]

/-! ## What a refusal depends on -/

/-- `snoop_aw_trs` of `ace_trs_dec`: every write but WRITE_BACK and WRITE_NO_SNOOP goes through the CCU. -/
def snoopAwTrs (aw : AwChan) : Bool :=
  let writeBack := aw.snoop == 0b011#3 &&
    (aw.domain == 0b00#2 || aw.domain == 0b01#2 || aw.domain == 0b10#2)
  let writeNoSnoop := aw.snoop == 0b000#3 && (aw.domain == 0b00#2 || aw.domain == 0b11#2)
  !(writeBack || writeNoSnoop)

/-- The idle snoop controller does not accept a valid AC. -/
def refuses (c : Cfg) (s : Nbdcache) (i : CacheIn) : Bool :=
  s.snoop.state == .idle && i.snoopPort.acValid && !s.snoop.accepts (s.snoopIn c i)

/-- The bypass adapter has a write that is taken in part, unanswered or on offer. -/
def bypassWrites (c : Cfg) (s : Nbdcache) (i : CacheIn) : Bool :=
  s.bypassAxi.writes || ((s.bypassAdapterReq c i).req && (s.bypassAdapterReq c i).we)

/-- A refusal comes from a flush or from an atomic whose own copy is being dealt with; in the last case
the atomic is presented for the first time in this cycle. -/
theorem refuses_cases (hs : s.miss.Serving) (hr : refuses c s i = true) :
    s.snoop.state = .idle ∧ i.snoopPort.acValid = true ∧
      (s.miss.flushes = true ∨ s.miss.amoPrepares = true ∨
        (s.miss.state = .amoReq ∧ s.miss.serveAmo = true)) := by
  simp only [refuses, Bool.and_eq_true, beq_iff_eq, Bool.not_eq_true'] at hr
  obtain ⟨⟨hidle, hv⟩, hacc⟩ := hr
  refine ⟨hidle, hv, ?_⟩
  have hhold : s.miss.flushingO = true ∨ s.miss.serveAmo = true := by
    by_contra hn
    simp only [not_or, Bool.not_eq_true] at hn
    simp [SnoopCtrl.accepts, SnoopCtrl.acReady, snoopIn, hidle, hv, hn.1, hn.2] at hacc
  rcases hhold with hf | ha
  · left
    grind [flushingO, flushes]
  · rcases hs.serve ha with hf | hp | hq
    · exact .inl hf
    · exact .inr (.inl hp)
    · exact .inr (.inr ⟨hq, ha⟩)

/-- A refused AC leaves the snoop controller idle. -/
theorem snoop_of_refuses (hr : refuses c s i = true) : (s.step c i).snoop.state = .idle := by
  simp only [refuses, Bool.and_eq_true, beq_iff_eq, Bool.not_eq_true'] at hr
  simp [step, SnoopCtrl.step, SnoopCtrl.stepIdle, hr.1.1, hr.2]

/-- The cycles for which an AC can still be refused, those of waiting for the bus not counted. -/
def holdEffort (c : Cfg) (s : Nbdcache) : ℕ :=
  if s.miss.flushes then s.flushEffort c else
  match s.miss.state with
  | .amoWbReq => 7
  | .amoWb => 6
  | .wbCachelineAmo => 1 + s.axi.handshakesLeft (s.miss.axiReq c)
  | .amoReq => if s.miss.serveAmo then 1 else 0
  | _ => 0

section Refusal
variable (hb : s.Basic) (ha : s.AdapterInv) (hs : s.miss.Serving) (h : s.HoldInv)
include ha h

/-- The line adapter while something is written back or nothing is asked of it. -/
theorem lineWrite_of_fits (hq : s.miss.maintains = true) : s.axi.LineWrite := by
  refine ⟨ha.amo, ?_, h.cnt⟩
  have hf := ha.fits
  simp only [maintains, flushes, amoPrepares, amoPresents, Bool.or_eq_true, beq_iff_eq] at hq
  rcases hq with (((hq | hq) | hq) | ((hq | hq) | hq)) | (hq | hq) <;> simp_all [adapterFits]

include hb in
theorem sweeping_of_refuses (hr : refuses c s i = true) (hf : s.miss.flushes = true) : s.Sweeping := by
  have hm : s.miss.maintains = true := by simp [maintains, hf]
  have hidle : s.snoop.state = .idle := by
    simp only [refuses, Bool.and_eq_true, beq_iff_eq] at hr
    exact hr.1.1
  refine ⟨hf, ⟨hidle, fun p hp => ?_⟩, lineWrite_of_fits ha h hm, hb.lookups.flushing, fun hq => ?_⟩
  · by_cases h2 : p = 2
    · subst h2
      simp [h.store hm] at hp
    · have hwe := h.stores p (.inl hp)
      simp [h.loads p h2] at hwe
  · have hfit := ha.fits
    simp only [flushes, Bool.or_eq_true, beq_iff_eq] at hf
    rcases hf with (hf | hf) | hf
    · simpa [adapterFits, hf] using hfit
    · simpa [adapterFits, hf] using hfit
    · exact absurd hf hq

/-- The preparation of an atomic advances in every cycle in which it does not wait for the bus. -/
theorem prepare_effort (hp : s.miss.amoPrepares = true) :
    (s.step c i).holdEffort c < s.holdEffort c ∨
      (s.waitsForBus c i ∧ (s.step c i).holdEffort c = s.holdEffort c) := by
  have hm : s.miss.maintains = true := by simp [maintains, hp]
  have hlw := lineWrite_of_fits ha h hm
  have hd : (s.step c i).miss = s.miss.step (s.missIn c i) := rfl
  simp only [amoPrepares, Bool.or_eq_true, beq_iff_eq] at hp
  rcases hp with (hq | hq) | hq
  · left
    have hst : (s.step c i).miss.state = .amoWb := by simp [hd, MissHandler.step, hq]
    simp [holdEffort, flushes, hst, hq]
  · left
    have hi : (s.step c i).axi.state = .idle := by
      have hfit := ha.fits
      simp only [adapterFits, hq] at hfit
      exact AxiAdapter.step_idle_none hfit (by simp [axiReq, hq])
    have hst : (s.step c i).miss.state = .wbCachelineAmo ∨ (s.step c i).miss.state = .amoReq := by
      rw [hd]
      simp only [MissHandler.step, hq, stepAmoWb]
      split
      · split_ifs <;> simp
      · simp
    have hle : (s.step c i).holdEffort c ≤ 5 := by
      rcases hst with hst | hst
      · simp [holdEffort, flushes, hst, AxiAdapter.handshakesLeft, AxiAdapter.awsLeft, AxiAdapter.beatsLeft, hi]
      · simp only [holdEffort, flushes, hst]
        split_ifs <;> simp_all
    have heff : s.holdEffort c = 6 := by simp [holdEffort, flushes, hq]
    omega
  · have hw : s.miss.writingBack = true := by simp [writingBack, hq]
    have heff : s.holdEffort c = 1 + s.axi.handshakesLeft (s.miss.axiReq c) := by
      simp [holdEffort, flushes, hq]
    cases hv : s.axi.valid i.axiData
    · obtain ⟨hmm, hreq, -, -, -⟩ := back_send (c := c) hlw hw hv
      have heff' : (s.step c i).holdEffort c = 1 + (s.step c i).axi.handshakesLeft (s.miss.axiReq c) := by
        simp only [holdEffort, hreq]
        rw [hmm]
        simp [flushes, hq]
      rcases back_handshakes (c := c) hlw hw hv with hlt | ⟨hwait, haw, hbt⟩
      · left
        omega
      · refine .inr ⟨hwait, ?_⟩
        rw [heff', heff, AxiAdapter.handshakesLeft, AxiAdapter.handshakesLeft, haw, hbt]
    · left
      have hv' : (s.missIn c i).axi.valid = true := hv
      have hst : (s.step c i).miss.state = .amoReq := by simp [hd, MissHandler.step, hq, hv']
      have hle : (s.step c i).holdEffort c ≤ 1 := by
        simp only [holdEffort, flushes, hst]
        split_ifs <;> simp_all
      rw [heff, AxiAdapter.handshakesLeft]
      omega

include hb hs in
/-- A refusal comes to its end step by step, and only waits for the response to a write-back. -/
theorem refusal_effort (hr : refuses c s i = true) :
    (s.step c i).holdEffort c < s.holdEffort c ∨
      (s.waitsForBus c i ∧ (s.step c i).holdEffort c = s.holdEffort c) := by
  obtain ⟨-, -, hf | hp | ⟨hq, hsv⟩⟩ := refuses_cases hs hr
  · have hsw := sweeping_of_refuses hb ha h hr hf
    have heff : s.holdEffort c = s.flushEffort c := by simp [holdEffort, hf]
    cases hn : (s.step c i).miss.flushes
    · left
      -- the last set has been swept
      have hv := serves s.miss (s.missIn c i)
      have hd : (s.step c i).miss = s.miss.step (s.missIn c i) := rfl
      generalize s.miss.step (s.missIn c i) = d at hd hv
      have hzero : (s.step c i).holdEffort c = 0 := by
        rw [holdEffort, hn, hd]
        rw [hd] at hn
        cases hv with
        | swept => cases s.miss.serveAmo <;> simp
        | _ => simp_all [flushes, amoPrepares, amoPresents]
      have hpos : 0 < s.flushEffort c := by
        rw [flushEffort]
        split_ifs <;> omega
      omega
    · have heff' : (s.step c i).holdEffort c = (s.step c i).flushEffort c := by simp [holdEffort, hn]
      rw [heff, heff']
      exact sweep_effort hsw hn
  · exact prepare_effort ha h hp
  · left
    have hzero : (s.step c i).holdEffort c = 0 := by
      simp only [holdEffort, flushes, step, MissHandler.step, hq]
      split_ifs <;> simp_all
    have hone : s.holdEffort c = 1 := by simp [holdEffort, flushes, hq, hsv]
    omega

end Refusal

/-- What the miss handler asks of the line adapter while an AC is refused. -/
structure OnlyWritesBack (c : Cfg) (s : Nbdcache) (i : CacheIn) : Prop where
  noMiss : s.miss.occupied = false
  noRead : s.axi.reading = false ∧ (s.axiOut c i).arValid = false
  busy : s.axi.state ≠ .idle → s.miss.writingBack = true
  asks : (s.miss.axiReq c).req = true → (s.miss.axiReq c).transType = .writeBack
  around : (s.axiOut c i).awValid = true → snoopAwTrs (s.axiOut c i).aw = false

theorem onlyWritesBack (ha : s.AdapterInv) (hq : s.miss.maintains = true) : OnlyWritesBack c s i := by
  have hf := ha.fits
  simp only [maintains, flushes, amoPrepares, amoPresents, Bool.or_eq_true, beq_iff_eq] at hq
  have hcase : s.miss.writingBack = true ∧ (s.axi.state = .idle ∨ s.axi.writing = true) ∧
        (s.miss.axiReq c).transType = .writeBack ∧ (s.miss.axiReq c).we = true ∨
      (s.axi.state = .idle ∧ (s.miss.axiReq c).req = false) := by
    rcases hq with (((hq | hq) | hq) | ((hq | hq) | hq)) | (hq | hq) <;>
      simp_all [adapterFits, writingBack, axiReq]
  have hocc : s.miss.occupied = false := by grind [occupied]
  rcases hcase with ⟨hw, hst, ht, hwe⟩ | ⟨hi, hreq⟩
  · refine ⟨hocc, ?_, fun _ => hw, fun _ => ht, ?_⟩
    · simp only [AxiAdapter.writing, Bool.or_eq_true, beq_iff_eq] at hst
      rcases hst with hst | ((hst | hst) | hst) | hst <;>
        simp [AxiAdapter.reading, axiOut, AxiAdapter.axiReq, hst, hwe]
      split_ifs <;> rfl
    · intro _
      have hsn : ((s.axiOut c i).aw).snoop = 0b011#3 ∧ ((s.axiOut c i).aw).domain = 0b00#2 := by
        simp only [axiOut, AxiAdapter.axiReq, ht, AxiAdapter.awSnoop]
        cases s.axi.state <;> simp
        split_ifs <;> simp
      simp [snoopAwTrs, hsn.1, hsn.2]
  · refine ⟨hocc, ?_, fun hn => absurd hi hn, fun hr => absurd (hr.symm.trans hreq) (by decide), ?_⟩
    · simp [AxiAdapter.reading, axiOut, AxiAdapter.axiReq, hi, hreq]
    · simp [axiOut, AxiAdapter.axiReq, hi, hreq]

/-- The bypass has no write under way, and offers none but an atomic in its first cycle. -/
theorem bypass_of_maintains (h : s.HoldInv) (hq : s.miss.maintains = true) (hn : s.miss.state ≠ .amoWaitResp) :
    s.bypassAxi.writes = false ∧ (bypassWrites c s i = true → s.miss.state = .amoReq) := by
  have hst := h.store hq
  have hserve : s.arb.serving = true → s.arb.req.we = false := by
    intro hs
    by_contra hw
    rcases h.writing hs (by simpa using hw) with ⟨-, h2⟩ | ⟨-, h3⟩
    · simp [hst] at h2
    · exact hn h3
  have hw : s.bypassAxi.writes = false := by
    by_cases hi : s.bypassAxi.state = .idle
    · simp [AxiAdapter.writes, hi]
    · obtain ⟨hs, hwe⟩ := h.adapter hi
      exact hwe.trans (hserve hs)
  refine ⟨hw, fun hb => ?_⟩
  simp only [bypassWrites, hw, Bool.false_or, Bool.and_eq_true] at hb
  obtain ⟨hreq, hwe⟩ := hb
  have hreq' : (s.arb.reqO (s.bypassReq c i)).req = true := hreq
  have hwe' : (s.arb.reqO (s.bypassReq c i)).we = true := hwe
  cases hs : s.arb.serving
  · simp only [BypassArbiter.reqO, hs, Bool.false_eq_true, if_false] at hreq' hwe'
    rcases bypassReq_we h hreq' hwe' with ⟨-, h2, -⟩ | ⟨-, h3⟩
    · simp [hst] at h2
    · exact h3
  · simp [BypassArbiter.reqO, hs, hserve hs] at hwe'

instance (c : Cfg) (s : Nbdcache) (i : CacheIn) : Decidable (s.waitsForBus c i) :=
  inferInstanceAs (Decidable (_ ∧ _ ∧ _ ∧ _))

/-- From a refusal on, the core keeps its promises, the AC is held until it is accepted, and write-backs
are answered. Nothing is asked of the interconnect. -/
structure Held (c : Cfg) (s : Nbdcache) (u : ℕ → CacheIn) : Prop where
  core : ∀ n, coreOk ((machine c).states s u n) (u n)
  ac : ∀ n, (∀ m < n, refuses c ((machine c).states s u m) (u m) = true) → (u n).snoopPort.acValid = true
  bus : Answers c ((machine c).states s u) u

section Progress
variable {u : ℕ → CacheIn}

theorem maintains_of_refuses (hs : s.miss.Serving) (hr : refuses c s i = true) :
    s.miss.maintains = true ∧ s.miss.state ≠ .amoWaitResp := by
  obtain ⟨-, -, hf | hp | ⟨hq, -⟩⟩ := refuses_cases hs hr
  · exact ⟨by simp [maintains, hf], by grind [flushes]⟩
  · exact ⟨by simp [maintains, hp], by grind [amoPrepares]⟩
  · exact ⟨by simp [maintains, amoPresents, hq], by simp [hq]⟩

/-- While an AC is refused the store controller is idle, so that no store strays. -/
theorem reachable_of_held (h : (machine c).Reachable (holdOk c) s) (hu : Held c s u) {n : ℕ}
    (hn : ∀ m < n, refuses c ((machine c).states s u m) (u m) = true) :
    (machine c).Reachable (holdOk c) ((machine c).states s u n) := by
  induction n with
  | zero => exact h
  | succ n ih =>
    have hr := ih fun m hm => hn m (by omega)
    have hq := (maintains_of_refuses (serving_reachable hr) (hn n (by omega))).1
    refine .step _ hr ⟨hu.core n, ?_⟩
    simp [strays, (holdInv_reachable hr).store hq]

theorem effort_of_held (h : (machine c).Reachable (holdOk c) s) (hu : Held c s u) {n : ℕ}
    (hn : ∀ m ≤ n, refuses c ((machine c).states s u m) (u m) = true) :
    ((machine c).states s u (n + 1)).holdEffort c < ((machine c).states s u n).holdEffort c ∨
      (((machine c).states s u n).waitsForBus c (u n) ∧
        ((machine c).states s u (n + 1)).holdEffort c = ((machine c).states s u n).holdEffort c) := by
  have hr := reachable_of_held (n := n) h hu fun m hm => hn m hm.le
  exact refusal_effort (basic_reachable hr) (adapterInv_reachable hr) (serving_reachable hr)
    (holdInv_reachable hr) (hn n le_rfl)

theorem holdEffort_le (c : Cfg) (s : Nbdcache) : s.holdEffort c ≤ 14852 := by
  have hh : s.axi.handshakesLeft (s.miss.axiReq c) ≤ 4 := by
    simp only [AxiAdapter.handshakesLeft, AxiAdapter.awsLeft, AxiAdapter.beatsLeft]
    cases s.axi.state <;> simp <;> split_ifs <;> simp
  have hflush : s.flushEffort c ≤ 14852 := by
    have hd := dirtyCount_le_lines s.arr
    have hc := dirtyCount_le_lines (clearedArr s.arr s.miss.cnt s.miss.evictWay)
    rw [flushEffort]
    split_ifs <;> omega
  rw [holdEffort]
  cases s.miss.flushes
  · cases s.miss.state <;> cases s.miss.serveAmo <;> simp
    all_goals omega
  · simpa using hflush

/-- The refusal ends, after a bounded number of cycles that do not wait for a write-back. -/
theorem accepted_of_held (h : (machine c).Reachable (holdOk c) s) (hu : Held c s u) (hr : refuses c s (u 0) = true) :
    ∃ n, ((machine c).states s u n).snoop.accepts (((machine c).states s u n).snoopIn c (u n)) = true ∧
      (∀ m < n, refuses c ((machine c).states s u m) (u m) = true) ∧
      ((Finset.range n).filter fun m => ¬ ((machine c).states s u m).waitsForBus c (u m)).card ≤ 14852 := by
  have hle : (∀ n, ¬ refuses c ((machine c).states s u n) (u n) = false) → ∀ n,
      ((machine c).states s u (n + 1)).holdEffort c ≤ ((machine c).states s u n).holdEffort c := by
    intro hno n
    exact (effort_of_held h hu fun m _ => by simpa using hno m).elim le_of_lt fun he => he.2.le
  have hlt : (∀ n, ¬ refuses c ((machine c).states s u n) (u n) = false) → ∀ n, ∃ m, n ≤ m ∧
      ((machine c).states s u (m + 1)).holdEffort c < ((machine c).states s u m).holdEffort c := by
    intro hno n
    have hall : ∀ m, refuses c ((machine c).states s u m) (u m) = true := fun m => by simpa using hno m
    by_contra hstuck
    have hw : ∀ k, n ≤ k → ((machine c).states s u k).waitsForBus c (u k) := fun k hk =>
      ((effort_of_held h hu fun m _ => hall m).resolve_left fun hd => hstuck ⟨k, hk, hd⟩).1
    refine not_waits_forever hu.bus (fun _ _ => rfl) (fun k _ => ?_) hw
    have hrk := reachable_of_held (n := k) h hu fun m _ => hall m
    exact lineWrite_of_fits (adapterInv_reachable hrk) (holdInv_reachable hrk)
      (maintains_of_refuses (serving_reachable hrk) (hall k)).1
  obtain ⟨n, hgoal, hfirst⟩ := exists_first_of_measure
    (g := fun n => refuses c ((machine c).states s u n) (u n) = false)
    (μ := fun n => ((machine c).states s u n).holdEffort c) hle hlt
  have hall : ∀ m < n, refuses c ((machine c).states s u m) (u m) = true := by
    intro m hm
    simpa using hfirst m hm
  refine ⟨n, ?_, hall, ?_⟩
  · obtain ⟨k, rfl⟩ : ∃ k, n = k + 1 := by
      refine ⟨n - 1, ?_⟩
      by_contra hn
      obtain rfl : n = 0 := by omega
      exact absurd (hr.symm.trans hgoal) (by decide)
    have hidle : ((machine c).states s u (k + 1)).snoop.state = .idle := snoop_of_refuses (hall k (by omega))
    have hac := hu.ac (k + 1) hall
    simp only [refuses, hac, Bool.and_true] at hgoal
    rw [hidle] at hgoal
    simpa using hgoal
  · have hcard := card_dropping_le (μ := fun n => ((machine c).states s u n).holdEffort c)
      (P := fun m => ((machine c).states s u m).waitsForBus c (u m)) (n := n)
      (fun m hm => effort_of_held h hu fun k hk => hall k (by omega))
    have hmax := holdEffort_le c s
    simp only [Machine.states_zero] at hcard
    omega

/-- While an AC is refused, no transaction of this core waits for the CCU, except an atomic in the cycle
in which it is first presented, and the refusal ends with that cycle. It always ends, and the only
responses it waits for are those of write-backs, which are routed around the CCU. -/
theorem refusal_without_ccu (h : (machine c).Reachable (holdOk c) s) (hr : refuses c s i = true) :
    OnlyWritesBack c s i ∧ s.miss.state ≠ .amoWaitResp ∧ s.bypassAxi.writes = false ∧
      (bypassWrites c s i = true → s.miss.state = .amoReq) ∧
      (s.miss.state = .amoReq → (s.step c i).miss.flushingO = false ∧ (s.step c i).miss.serveAmo = false) ∧
      ∀ u, u 0 = i → Held c s u →
        ∃ n, ((machine c).states s u n).snoop.accepts (((machine c).states s u n).snoopIn c (u n)) = true ∧
          (∀ m < n, refuses c ((machine c).states s u m) (u m) = true) ∧
          ((Finset.range n).filter fun m => ¬ ((machine c).states s u m).waitsForBus c (u m)).card ≤ 14852 := by
  have hinv := holdInv_reachable h
  obtain ⟨hq, hn⟩ := maintains_of_refuses (serving_reachable h) hr
  obtain ⟨hw, hamo⟩ := bypass_of_maintains (c := c) (i := i) hinv hq hn
  refine ⟨onlyWritesBack (adapterInv_reachable h) hq, hn, hw, hamo, fun hs => ?_, fun u h0 hu => ?_⟩
  · simp only [step, MissHandler.step, hs, flushingO]
    split_ifs <;> simp
  · exact accepted_of_held h hu (h0 ▸ hr)

end Progress

section Runs
open Stimuli

/-- A flush during which an AC is held, on a bus that takes and answers everything at once. -/
def snoopedFlush : CacheIn :=
  { snooping quiet .cleanInvalid 2 1 with
    flush := true, axiData := { AxiResp.none with awReady := true, wReady := true, bValid := true } }

set_option maxRecDepth 10000 in
theorem refusal_without_ccu_run :
    ∃ s, (machine cfg).Reachable (holdOk cfg) s ∧ refuses cfg s snoopedFlush = true ∧
      OnlyWritesBack cfg s snoopedFlush ∧
      ∃ n, ((machine cfg).states s (fun _ => snoopedFlush) n).snoop.accepts
        (((machine cfg).states s (fun _ => snoopedFlush) n).snoopIn cfg snoopedFlush) = true := by
  have hr : (machine cfg).Reachable (holdOk cfg) ((machine cfg).run initial [quiet, { quiet with flush := true }]) :=
    .run (.init initial_isReset) (by decide +kernel)
  have href : refuses cfg ((machine cfg).run initial [quiet, { quiet with flush := true }]) snoopedFlush = true := by
    decide +kernel
  obtain ⟨hback, -, -, -, -, hend⟩ := refusal_without_ccu hr href
  have hheld : Held cfg ((machine cfg).run initial [quiet, { quiet with flush := true }]) fun _ => snoopedFlush :=
    ⟨fun _ => ⟨rfl, rfl, rfl, fun _ => rfl⟩, fun _ _ => rfl,
      ⟨fun n _ _ => ⟨n, le_rfl, rfl⟩, fun n _ _ => ⟨n, le_rfl, rfl⟩, fun n _ _ => ⟨n, le_rfl, rfl⟩⟩⟩
  obtain ⟨n, hacc, -⟩ := hend _ rfl hheld
  exact ⟨_, hr, href, hback, n, hacc⟩

/-- The line of an atomic is snooped in the cycle in which the atomic is first presented. -/
def snoopedAtomic : List CacheIn := [quiet, atomic 2 1 quiet, atomic 2 1 quiet, atomic 2 1 quiet]

/-- A store to a line that is being refilled, after the cache has been disabled; then an atomic on the line. -/
def disabledDuringMiss : List CacheIn :=
  [quiet, load 1 1, tag 1 2, { Stimuli.store 2 1 with enable := false }, { Stimuli.store 2 1 with enable := false },
    { Stimuli.store 2 1 with enable := false, axiBypass := { AxiResp.none with awReady := true, wReady := true } }] ++
    refill false ++ [quiet, quiet, quiet, quiet, atomic 2 1 quiet]

set_option maxRecDepth 10000 in
theorem write_through_ccu_while_refusing :
    let i := atomic 2 1 (snooping quiet .cleanInvalid 2 1)
    (∃ s, (machine cfg).Reachable (holdOk cfg) s ∧ refuses cfg s i = true ∧
      (s.bypassAxi.axiReq (s.bypassAdapterReq cfg i) i.axiBypass).awValid = true ∧
      snoopAwTrs (s.bypassAxi.axiReq (s.bypassAdapterReq cfg i) i.axiBypass).aw = true) ∧
    ∃ s, (machine cfg).Reachable coreOk s ∧ refuses cfg s i = true ∧ s.miss.state = .amoWbReq ∧
      s.bypassAxi.state = .waitBValid ∧ s.arb.req.acetype = .writeUnique := by
  have hatomic : (machine cfg).Reachable (holdOk cfg) ((machine cfg).run initial snoopedAtomic) :=
    .run (.init initial_isReset) (by decide +kernel)
  have hstray : (machine cfg).Reachable coreOk ((machine cfg).run initial disabledDuringMiss) :=
    .run (.init initial_isReset) (by decide +kernel)
  exact ⟨⟨_, hatomic, by decide +kernel⟩, ⟨_, hstray, by decide +kernel⟩⟩

end Runs
end Nbdcache
end Culsans.Dcache
