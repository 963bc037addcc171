import Culsans.Dcache.StoreHits
import Culsans.Dcache.LineAdapter

/-! # The MSHR isolates a miss

While the MSHR is valid no store reaches its set and no other port is answered for
its line. The victim is therefore still what was captured when its write-back
completes, and nothing unwritten is lost when the refill overwrites it.
-/

namespace Culsans.Dcache.Nbdcache
open Library TagCmp

variable {c : Cfg} {s : Nbdcache} {i : CacheIn}

/-- What an observer of a miss remembers: whether the cache has always been enabled, and whether
a snoop has invalidated the victim since it was chosen. -/
structure EvictWatch where
  enabled : Bool
  snooped : Bool

/-- A snoop invalidates the way `w` of the set of the MSHR. -/
def invalidatesVictim (c : Cfg) (s : Nbdcache) (i : CacheIn) : Bool :=
  s.snoop.state == .invalidate && s.snoopGnt c i && s.snoop.memReq.index == s.miss.mshr.addr.index &&
    anyWay fun w => s.snoop.hitWay w && (s.step c i).miss.evictWay w

def EvictWatch.start : EvictWatch := ⟨true, false⟩

def EvictWatch.step (c : Cfg) (g : EvictWatch) (s : Nbdcache) (i : CacheIn) : EvictWatch where
  enabled := g.enabled && i.enable
  snooped := (!(s.miss.state == .missRepl) && g.snooped) || invalidatesVictim c s i

def evictWatched (c : Cfg) : Machine (Nbdcache × EvictWatch) CacheIn :=
  (machine c).observe EvictWatch.start (EvictWatch.step c)

theorem evictWatched_init : (evictWatched c).init (initial, .start) := ⟨initial_isReset, rfl⟩

/-- The memory ends a refill with its second beat. -/
def refillBeats (s : Nbdcache) (i : CacheIn) : Bool :=
  !(s.miss.state == .saveCacheline && s.axi.state == .waitRValidMultiple && i.axiData.rValid) ||
    i.axiData.rLast == (s.axi.cnt == 0)

/-- The kind of access a controller makes fits its address. -/
structure RequestInv (c : Cfg) (s : Nbdcache) : Prop where
  refill : ∀ p, (s.ctrl p).state = .waitRefillGnt → (s.ctrl p).memReq.bypass = false →
    c.isInsideCacheableRegions (s.ctrl p).memReq.tag = true
  store : ∀ p, (s.ctrl p).state = .makeUnique ∨ (s.ctrl p).state = .storeReq →
    c.isInsideCacheableRegions (s.ctrl p).memReq.tag = true
  bypassed : ∀ p, (s.ctrl p).state = .waitTagBypassed ∨ (s.ctrl p).state = .waitRefillValid →
    (s.ctrl p).memReq.bypass = true
  mshr : s.miss.mshr.valid = true → c.isInsideCacheableRegions s.miss.mshr.addr.tag = true

theorem refill_cacheable_step (h : s.RequestInv c) (p : Fin 3)
    (hs : ((s.step c i).ctrl p).state = .waitRefillGnt)
    (hb : ((s.step c i).ctrl p).memReq.bypass = false) :
    c.isInsideCacheableRegions ((s.step c i).ctrl p).memReq.tag = true := by
  rcases CacheCtrl.step_waitRefillGnt hs with hm | ⟨hq, hd⟩ | ⟨hq, hd⟩
  · rw [show ((s.step c i).ctrl p).memReq.tag = _ from hm.tag]
    by_contra hc
    exact absurd ((hm.uncached (by simpa using hc)).symm.trans hb) (by decide)
  · exact absurd ((h.bypassed p (.inl hq)).symm.trans (hd.symm.trans hb)) (by decide)
  · rw [show ((s.step c i).ctrl p).memReq.tag = _ from hd.2.2.2.2.tag]
    exact h.refill p hq (hd.2.2.2.1.symm.trans hb)

theorem store_cacheable_step (h : s.RequestInv c) (p : Fin 3)
    (hs : ((s.step c i).ctrl p).state = .makeUnique ∨ ((s.step c i).ctrl p).state = .storeReq) :
    c.isInsideCacheableRegions ((s.step c i).ctrl p).memReq.tag = true := by
  have hhit : CacheCtrl.StoreHit c (s.ctrl p) (s.ctrlIn c i p) ((s.step c i).ctrl p) →
      c.isInsideCacheableRegions ((s.step c i).ctrl p).memReq.tag = true := fun hh => by
    rw [show ((s.step c i).ctrl p).memReq.tag = _ from congrArg PAddr.tag hh.memReq]
    exact hh.cacheable
  have hsame : ((s.ctrl p).state = .makeUnique ∨ (s.ctrl p).state = .storeReq) →
      (s.ctrl p).SameRequest ((s.step c i).ctrl p) →
      c.isInsideCacheableRegions ((s.step c i).ctrl p).memReq.tag = true := fun hq hd => by
    rw [hd.tag]
    exact h.store p hq
  rcases hs with hs | hs
  · rcases CacheCtrl.step_makeUnique hs with hh | ⟨hq, -, hd, -⟩ | ⟨hq, -, -, hd⟩
    · exact hhit hh
    · exact hsame (.inl hq) hd
    · exact hsame (.inr hq) hd
  · rcases CacheCtrl.step_storeReq hs with hh | ⟨hq, -, -, hd, -⟩ | ⟨hq, -, -, hd, -⟩
    · exact hhit hh
    · exact hsame (.inl hq) hd
    · exact hsame (.inr hq) hd

theorem bypassed_request_step (h : s.RequestInv c) (p : Fin 3)
    (hs : ((s.step c i).ctrl p).state = .waitTagBypassed ∨
      ((s.step c i).ctrl p).state = .waitRefillValid) : ((s.step c i).ctrl p).memReq.bypass = true := by
  rcases hs with hs | hs
  · rcases CacheCtrl.step_waitTagBypassed hs with ⟨-, hb⟩ | ⟨hq, hb⟩
    · exact hb
    · exact hb.trans (h.bypassed p (.inl hq))
  · obtain ⟨hq, -, hb⟩ := CacheCtrl.step_waitRefillValid hs
    refine hb.trans ?_
    rcases hq with ⟨hq, hg⟩ | hq
    · by_contra hn
      have hg' := bypassGnt_of_cached (c := c) (s := s) (i := i) (p := p)
        (by simpa [CacheCtrl.missReq, hq] using hn)
      exact absurd (hg.symm.trans hg') (by decide)
    · exact h.bypassed p (.inr hq)

theorem mshr_cacheable_step (hb : s.Basic) (h : s.RequestInv c)
    (hv : (s.step c i).miss.mshr.valid = true) :
    c.isInsideCacheableRegions (s.step c i).miss.mshr.addr.tag = true := by
  rcases MissHandler.step_mshr_valid hb.mshr.miss hv with ⟨hq, hd⟩ | ⟨p, hq, hr, hd⟩
  · rw [show (s.step c i).miss.mshr = s.miss.mshr from hd]
    exact h.mshr hq
  · rw [show (s.step c i).miss.mshr = MissHandler.allocate p (s.ctrl p).missReq from hd]
    obtain ⟨hval, hk⟩ := requester_spec hr
    obtain ⟨ha, -, hcase⟩ := missReq_cases hval
    show c.isInsideCacheableRegions (s.ctrl p).missReq.addr.tag = true
    rw [ha]
    rcases hcase with ⟨hs, -⟩ | ⟨hs, hu, hbp⟩
    · exact h.store p (.inl hs)
    · refine h.refill p hs (hbp.symm.trans (hk.resolve_left fun hn => ?_))
      exact absurd (hu.symm.trans hn) (by decide)

theorem requestInv_step (hb : s.Basic) (h : s.RequestInv c) : (s.step c i).RequestInv c where
  refill := refill_cacheable_step h
  store := store_cacheable_step h
  bypassed := bypassed_request_step h
  mshr := mshr_cacheable_step hb h

theorem requestInv_init (h : s.IsReset) : s.RequestInv c := by
  constructor <;> simp [h.ctrl, h.miss, CacheCtrl.reset, MissHandler.reset]

/-- With the cache always enabled, only uncacheable addresses are bypassed. -/
structure EnabledInv (c : Cfg) (s : Nbdcache) : Prop where
  cached : ∀ p, (s.ctrl p).cached = true → (s.ctrl p).memReq.bypass = false
  never : ∀ p, (s.ctrl p).state ≠ .waitTagBypassed
  uncached : ∀ p, (s.ctrl p).state = .waitRefillGnt ∨ (s.ctrl p).state = .waitRefillValid →
    (s.ctrl p).memReq.bypass = true → c.isInsideCacheableRegions (s.ctrl p).memReq.tag = false

theorem enabledInv_step (hr : s.RequestInv c) (h : s.EnabledInv c) (he : i.enable = true) :
    (s.step c i).EnabledInv c where
  cached p hs := by
    rcases CacheCtrl.step_cached hs with hb | ⟨hb, hq | ⟨hq, hm⟩⟩
    · exact hb
    · exact hb.trans (h.cached p hq)
    · refine hb.trans ?_
      by_contra hn
      have hu := h.uncached p (.inl hq) (by simpa using hn)
      have hm' : s.miss.mshrAddrMatches (s.ctrl p).memReq.addr = true := by
        simpa [ctrlIn, CacheCtrl.mshrAddr, hq] using hm
      simp only [MissHandler.mshrAddrMatches, Bool.and_eq_true, PAddr.sameLine_iff] at hm'
      have hc := hr.mshr hm'.1
      rw [← hm'.2.1] at hc
      exact absurd (hu.symm.trans hc) (by decide)
  never p hs := by
    rcases CacheCtrl.step_waitTagBypassed hs with ⟨hb, -⟩ | ⟨hq, -⟩
    · simp [ctrlIn, he] at hb
    · exact h.never p hq
  uncached p hs hb := by
    rcases hs with hs | hs
    · rcases CacheCtrl.step_waitRefillGnt hs with hm | ⟨hq, -⟩ | ⟨hq, hd⟩
      · rw [show ((s.step c i).ctrl p).memReq.tag = _ from hm.tag]
        by_contra hc
        have hbp := (hm.cached (by simpa using hc)).2.2.2.2
        have hf := h.cached p (by simp [CacheCtrl.cached, hm.looking])
        exact absurd (hb.symm.trans (hbp.trans hf)) (by decide)
      · exact absurd hq (h.never p)
      · rw [show ((s.step c i).ctrl p).memReq.tag = _ from hd.2.2.2.2.tag]
        exact h.uncached p (.inl hq) (hd.2.2.2.1.symm.trans hb)
    · obtain ⟨hq, ht, hbp⟩ := CacheCtrl.step_waitRefillValid hs
      rw [show ((s.step c i).ctrl p).memReq.tag = _ from ht]
      exact h.uncached p (hq.imp And.left id) (hbp.symm.trans hb)

theorem enabledInv_init (h : s.IsReset) : s.EnabledInv c := by
  constructor <;> simp [h.ctrl, CacheCtrl.reset, CacheCtrl.cached, CacheCtrl.lookingUp]

/-- A load waits for its critical word while its own refill is being read. -/
structure CriticalInv (s : Nbdcache) : Prop where
  offset : s.axi.addrOffset < 2
  waiting : ∀ p, (s.ctrl p).state = .waitCriticalWord → s.miss.state = .saveCacheline ∧
    s.miss.mshr.id = p ∧ s.axi.state = .waitRValidMultiple ∧
    (s.axi.cnt = 1 ∨ (s.axi.cnt = 0 ∧ s.axi.addrOffset = 1))

theorem offset_step (h : s.CriticalInv) : (s.step c i).axi.addrOffset < 2 := by
  have ho := h.offset
  show (s.axi.step (s.miss.axiReq c) i.axiData).addrOffset < 2
  simp only [AxiAdapter.step, AxiAdapter.stepState]
  cases hs : s.axi.state <;>
    simp only [AxiAdapter.stepIdle, AxiAdapter.stepRead, AxiAdapter.cntMod_one] <;> grind

/-- A load enters the wait for its critical word when its own refill is granted. -/
theorem granted_of_missGnt (hb : s.Basic) {p : Fin 3} (hq : (s.ctrl p).state = .waitRefillGnt)
    (hg : (s.ctrlIn c i p).missGnt = true) :
    (s.miss.state = .reqCacheline ∨ s.miss.state = .reqCachelineUnique) ∧ s.miss.mshr.id = p ∧
      (s.missIn c i).axi.gnt = true ∧ s.miss.mshr.makeUnique = false := by
  obtain ⟨hid, ⟨hs, hx, hn⟩ | ⟨hs, -, -, hu⟩ | ⟨hs, -, -⟩⟩ := MissHandler.missGnt_cases hg
  · exact ⟨hs, hid, hx, hn⟩
  all_goals
    have hv : s.miss.mshr.valid = true := by
      rw [hb.mshr.miss.occupied]
      simp [MissHandler.occupied, hs]
    have hu : s.miss.mshr.makeUnique = true := by
      first
      | assumption
      | exact hb.mshr.miss.cleaning (by simp [MissHandler.cleaning, hs])
    have hst := (hb.mshr.makeUnique hv hu).1
    rw [hid, hq] at hst
    exact absurd hst (by decide)

/-- A granted refill is being read from its first beat. -/
theorem read_of_granted (ha : s.AdapterInv)
    (hs : s.miss.state = .reqCacheline ∨ s.miss.state = .reqCachelineUnique)
    (hg : (s.missIn c i).axi.gnt = true) :
    (s.step c i).miss.state = .saveCacheline ∧ (s.step c i).miss.mshr = s.miss.mshr ∧
      (s.step c i).axi.state = .waitRValidMultiple ∧ (s.step c i).axi.cnt = 1 ∧
      (s.step c i).axi.addrOffset = s.miss.mshr.addr.dword % 2 := by
  have hi : s.axi.state = .idle := by
    have hf := ha.fits
    rcases hs with hs | hs <;> simpa [adapterFits, hs] using hf
  obtain ⟨hr, hwe⟩ := MissHandler.axiReq_read (c := c) (q := s.miss) (by tauto)
  have ht := MissHandler.axiReq_type c s.miss
  have hadr : (s.miss.axiReq c).addr = s.miss.mshr.addr := by
    rcases hs with hs | hs <;> simp [MissHandler.axiReq, hs]
  have hready : i.axiData.arReady = true := by
    have hg' : s.axi.gnt (s.miss.axiReq c) i.axiData = true := hg
    simpa [AxiAdapter.gnt, hi, hr, hwe] using hg'
  refine ⟨?_, ?_, ?_, ?_, ?_⟩
  · show (s.miss.step (s.missIn c i)).state = _
    rcases hs with hs | hs <;> simp [MissHandler.step, hs, hg]
  · show (s.miss.step (s.missIn c i)).mshr = _
    rcases hs with hs | hs <;> simp [MissHandler.step, hs, hg]
  all_goals
    simp [step, AxiAdapter.step, AxiAdapter.stepState, AxiAdapter.stepIdle, hi, hr, hwe, ht, hready, hadr]

theorem waiting_critical_step (hb : s.Basic) (ha : s.AdapterInv) (h : s.CriticalInv)
    (hok : refillBeats s i = true) (p : Fin 3) (hs : ((s.step c i).ctrl p).state = .waitCriticalWord) :
    (s.step c i).miss.state = .saveCacheline ∧ (s.step c i).miss.mshr.id = p ∧
      (s.step c i).axi.state = .waitRValidMultiple ∧
      ((s.step c i).axi.cnt = 1 ∨ ((s.step c i).axi.cnt = 0 ∧ (s.step c i).axi.addrOffset = 1)) := by
  rcases CacheCtrl.step_waitCriticalWord hs with ⟨hq, hg, -⟩ | ⟨hq, hcw, -⟩
  · obtain ⟨hst, hid, hgnt, -⟩ := granted_of_missGnt hb hq hg
    obtain ⟨h1, h2, h3, h4, -⟩ := read_of_granted ha hst hgnt
    exact ⟨h1, by rw [h2, hid], h3, .inl h4⟩
  · obtain ⟨hst, hid, hx, hcnt⟩ := h.waiting p hq
    have ho := h.offset
    have hv : s.axi.valid i.axiData = false := by simp [AxiAdapter.valid, hx]
    have hmshr : (s.step c i).miss.mshr = s.miss.mshr := by
      have hv' : (s.missIn c i).axi.valid = false := hv
      show (s.miss.step (s.missIn c i)).mshr = _
      simp [MissHandler.step, MissHandler.stepSave, hst, hv']
    refine ⟨(step_state_of_invalid (.inl hst) hv).trans hst, by rw [hmshr, hid], ?_⟩
    have hcw' : s.axi.criticalWordValid i.axiData = false := hcw
    simp only [AxiAdapter.criticalWordValid, AxiAdapter.index, hx, AxiAdapter.cntMod_one] at hcw'
    simp only [refillBeats, hst, hx] at hok
    simp only [step, AxiAdapter.step, AxiAdapter.stepState, AxiAdapter.stepRead, hx,
      AxiAdapter.cntMod_one]
    grind

/-- A store is only written outside the set of the MSHR. -/
theorem store_outside_set {p : Fin 3} (hv : s.miss.mshr.valid = true) (h : s.storeGranted c i p = true) :
    (s.ctrl p).memReq.index ≠ s.miss.mshr.addr.index := by
  simp only [storeGranted, CacheCtrl.storing, Bool.and_eq_true, beq_iff_eq, Bool.not_eq_true'] at h
  obtain ⟨⟨⟨⟨hs, hm⟩, -⟩, -⟩, -⟩ := h
  intro hi
  simp [ctrlIn, CacheCtrl.mshrAddr, hs, MissHandler.mshrIndexMatches, hv, MemReq.addr, hi] at hm

/-- Before the refill is saved, a line in the set of the MSHR is kept or loses its status. -/
theorem LineEvent.in_set {w : Way} {l : CacheLine} (h : LineEvent c s i s.miss.mshr.addr.index w l)
    (hv : s.miss.mshr.valid = true) (hn : s.miss.saves (s.missIn c i) = false) :
    (l.tag = (s.arr s.miss.mshr.addr.index w).tag ∧ l.data = (s.arr s.miss.mshr.addr.index w).data) ∧
    ((l.dirty = (s.arr s.miss.mshr.addr.index w).dirty ∧ l.valid = (s.arr s.miss.mshr.addr.index w).valid) ∨
      (l = (s.arr s.miss.mshr.addr.index w).invalidated ∧
        ((∃ ways, s.miss.cleared (s.missIn c i) = some (s.miss.mshr.addr.index, ways) ∧ ways w = true) ∨
          (s.snoop.state = .invalidate ∧ s.snoopGnt c i = true ∧
            s.miss.mshr.addr.index = s.snoop.memReq.index ∧ s.snoop.hitWay w = true)))) := by
  cases h with
  | keep => exact ⟨⟨rfl, rfl⟩, .inl ⟨rfl, rfl⟩⟩
  | save hs => simp [hs] at hn
  | clear ways hs hw => exact ⟨⟨rfl, rfl⟩, .inr ⟨rfl, .inl ⟨ways, hs, hw⟩⟩⟩
  | share => exact ⟨⟨rfl, rfl⟩, .inl ⟨rfl, rfl⟩⟩
  | invalidate hs hg hi hw => exact ⟨⟨rfl, rfl⟩, .inr ⟨rfl, .inr ⟨hs, hg, hi, hw⟩⟩⟩
  | store p hs hi hw => exact absurd hi.symm (store_outside_set hv hs)

/-- No byte in the set of the MSHR becomes dirty, and no line becomes valid, before the refill. -/
theorem dirty_of_step (hv : s.miss.mshr.valid = true) (hn : s.miss.saves (s.missIn c i) = false) (w : Way) :
    (∀ b, ((s.step c i).arr s.miss.mshr.addr.index w).dirty b = true →
      (s.arr s.miss.mshr.addr.index w).dirty b = true) ∧
    (((s.step c i).arr s.miss.mshr.addr.index w).valid = true →
      (s.arr s.miss.mshr.addr.index w).valid = true) := by
  obtain ⟨-, ⟨hd, hva⟩ | ⟨hl, -⟩⟩ := (step_line c s i s.miss.mshr.addr.index w).in_set hv hn
  · rw [hd, hva]
    exact ⟨fun _ => id, id⟩
  · rw [hl]
    simp [CacheLine.invalidated]

/-- What the miss handler may rely on about its victim. -/
structure VictimInv (s : Nbdcache) (g : EvictWatch) : Prop where
  captured : s.miss.state = .wbCachelineMiss → g.snooped = false → ∀ w, s.miss.evictWay w = true →
    (s.arr s.miss.mshr.addr.index w).tag = s.miss.evictCl.tag ∧
    (s.arr s.miss.mshr.addr.index w).data = s.miss.evictCl.data ∧
    (s.arr s.miss.mshr.addr.index w).dirty = s.miss.evictCl.dirty
  clean : s.miss.state = .reqCacheline ∨ s.miss.state = .reqCachelineUnique ∨
    s.miss.state = .saveCacheline → ∀ w, s.miss.evictWay w = true →
    (s.arr s.miss.mshr.addr.index w).valid = true → ∀ b, (s.arr s.miss.mshr.addr.index w).dirty b = false

variable {g : EvictWatch}

/-- A victim that no snoop touches keeps what was captured of it. -/
theorem victim_kept (hv : s.miss.mshr.valid = true) (hc : s.miss.cleared (s.missIn c i) = none)
    (hn : s.miss.saves (s.missIn c i) = false) (hs : invalidatesVictim c s i = false) {w : Way}
    (hw : (s.step c i).miss.evictWay w = true) :
    ((s.step c i).arr s.miss.mshr.addr.index w).tag = (s.arr s.miss.mshr.addr.index w).tag ∧
    ((s.step c i).arr s.miss.mshr.addr.index w).data = (s.arr s.miss.mshr.addr.index w).data ∧
    ((s.step c i).arr s.miss.mshr.addr.index w).dirty = (s.arr s.miss.mshr.addr.index w).dirty := by
  obtain ⟨⟨ht, hd⟩, ⟨hdy, -⟩ | ⟨-, ⟨ways, hcl, -⟩ | ⟨h1, h2, h3, h4⟩⟩⟩ :=
    (step_line c s i s.miss.mshr.addr.index w).in_set hv hn
  · exact ⟨ht, hd, hdy⟩
  · simp [hc] at hcl
  · have hi : invalidatesVictim c s i = true := by
      simp only [invalidatesVictim, Bool.and_eq_true, beq_iff_eq, anyWay_iff]
      exact ⟨⟨⟨h1, h2⟩, h3.symm⟩, w, h4, hw⟩
    simp [hi] at hs

theorem captured_step (hb : s.Basic) (h : s.VictimInv g) (hs : (s.step c i).miss.state = .wbCachelineMiss)
    (hg : (g.step c s i).snooped = false) (w : Way) (hw : (s.step c i).miss.evictWay w = true) :
    ((s.step c i).arr (s.step c i).miss.mshr.addr.index w).tag = (s.step c i).miss.evictCl.tag ∧
    ((s.step c i).arr (s.step c i).miss.mshr.addr.index w).data = (s.step c i).miss.evictCl.data ∧
    ((s.step c i).arr (s.step c i).miss.mshr.addr.index w).dirty = (s.step c i).miss.evictCl.dirty := by
  simp only [EvictWatch.step, Bool.or_eq_false_iff] at hg
  obtain ⟨hg, hinv⟩ := hg
  have hstep : (s.step c i).miss = s.miss.step (s.missIn c i) := rfl
  rcases MissHandler.step_wbCachelineMiss hs with ⟨hq, hd⟩ | ⟨hq, hv, hd⟩
  · have hval : s.miss.mshr.valid = true := by
      rw [hb.mshr.miss.occupied]
      simp [MissHandler.occupied, hq]
    obtain ⟨ht, hda, hdy⟩ := victim_kept hval (by simp [MissHandler.cleared, hq])
      (by simp [MissHandler.saves, hq]) hinv hw
    rw [hstep, hd] at hw ⊢
    have hlw : w = s.miss.lfsrBin := by simpa [oneHot] using hw
    have hr := hb.lookups.miss (.inl hq) s.miss.lfsrBin
    subst hlw
    rw [← hr] at ht hda hdy
    exact ⟨ht, hda, hdy⟩
  · have hval : s.miss.mshr.valid = true := by
      rw [hb.mshr.miss.occupied]
      simp [MissHandler.occupied, hq]
    obtain ⟨ht, hda, hdy⟩ := victim_kept hval (by simp [MissHandler.cleared, hq, hv])
      (by simp [MissHandler.saves, hq]) hinv hw
    rw [hstep, hd] at hw ⊢
    obtain ⟨h1, h2, h3⟩ := h.captured hq (by simpa [hq] using hg) w hw
    exact ⟨ht.trans h1, hda.trans h2, hdy.trans h3⟩

/-- A victim is refilled only when it is invalid or clean. -/
theorem clean_victim_step (hb : s.Basic) (h : s.VictimInv g)
    (hs : (s.step c i).miss.state = .reqCacheline ∨ (s.step c i).miss.state = .reqCachelineUnique ∨
      (s.step c i).miss.state = .saveCacheline) (w : Way) (hw : (s.step c i).miss.evictWay w = true)
    (hva : ((s.step c i).arr (s.step c i).miss.mshr.addr.index w).valid = true) (b : Fin 16) :
    ((s.step c i).arr (s.step c i).miss.mshr.addr.index w).dirty b = false := by
  have hm := MissHandler.moves s.miss (s.missIn c i)
  have hstep : (s.step c i).miss = s.miss.step (s.missIn c i) := rfl
  have hclean : ∀ (hv : s.miss.mshr.valid = true) (hn : s.miss.saves (s.missIn c i) = false)
      (hva : ((s.step c i).arr s.miss.mshr.addr.index w).valid = true)
      (hq : (s.arr s.miss.mshr.addr.index w).valid = true →
        (s.arr s.miss.mshr.addr.index w).dirty b = false),
      ((s.step c i).arr s.miss.mshr.addr.index w).dirty b = false := by
    intro hv hn hva hq
    obtain ⟨hd, hval⟩ := dirty_of_step (c := c) (i := i) hv hn w
    by_contra hb'
    exact absurd (hq (hval hva)) (by simp [hd b (by simpa using hb')])
  have hocc := hb.mshr.miss.occupied
  have hlook := hb.lookups.miss
  have hcl := h.clean
  rw [hstep] at hs hw hva ⊢
  generalize s.miss.step (s.missIn c i) = d at hm hs hw hva
  cases hm with
  | allocate => grind
  | free hq hf =>
    refine hclean (by simp [hocc, MissHandler.occupied, hq]) (by simp [MissHandler.saves, hq]) hva ?_
    have hany : anyWay (fun v => !(s.rd.rdata v).valid) = true := by
      simpa [MissHandler.full, missIn] using hf
    have hvic := oneHotToBin_spec hany
    have hwv : w = oneHotToBin fun v => !(s.rd.rdata v).valid := by
      simpa [getVictimCl, oneHot, MissHandler.validWay, missIn] using hw
    rw [← hwv, hlook (.inl hq)] at hvic
    intro hv
    simp [hv] at hvic
  | clean hq hf hd =>
    refine hclean (by simp [hocc, MissHandler.occupied, hq]) (by simp [MissHandler.saves, hq]) hva ?_
    have hwv : w = s.miss.lfsrBin := by simpa [oneHot] using hw
    have hd' : anyByte (s.rd.rdata w).dirty = false := by rw [hwv]; exact hd
    rw [hlook (.inl hq)] at hd'
    exact fun _ => anyByte_eq_false_iff.mp hd' b
  | written hq hv =>
    have hcleared : s.miss.cleared (s.missIn c i) = some (s.miss.mshr.addr.index, s.miss.evictWay) := by
      simp [MissHandler.cleared, hq, hv, hb.mshr.miss.evictIndex hq]
    have hw' : s.miss.evictWay w = true := hw
    simp [step_arr_of_cleared hcleared, hw', CacheLine.invalidated] at hva
  | granted hq hg =>
    exact hclean (by simp [hocc, MissHandler.occupied, hq]) (by simp [MissHandler.saves, hq]) hva
      fun hv => hcl (.inl hq) w hw hv b
  | grantedUnique hq hg =>
    exact hclean (by simp [hocc, MissHandler.occupied, hq]) (by simp [MissHandler.saves, hq]) hva
      fun hv => hcl (.inr (.inl hq)) w hw hv b
  | wait hwt =>
    exact hclean (by rw [hocc]; grind [MissHandler.occupied]) (by grind [MissHandler.saves, MissHandler.waiting])
      hva fun hv => hcl hs w hw hv b
  | other _ _ hd => grind [MissHandler.occupied]
  | _ => simp at hs

theorem victimInv_step (hb : s.Basic) (h : s.VictimInv g) : (s.step c i).VictimInv (g.step c s i) where
  captured := captured_step hb h
  clean := clean_victim_step hb h

/-- The address a controller answers its load for. -/
def loadAddr (s : Nbdcache) (i : CacheIn) (p : Fin 3) : PAddr :=
  ⟨(s.ctrl p).tagO (i.reqPorts p), (s.ctrl p).memReq.index, (s.ctrl p).memReq.offset⟩

/-- Everything known about a miss in an observed run. -/
structure MissInv (c : Cfg) (s : Nbdcache) (g : EvictWatch) : Prop where
  basic : s.Basic
  adapter : s.AdapterInv
  request : s.RequestInv c
  enabled : g.enabled = true → s.EnabledInv c
  critical : s.CriticalInv
  victim : s.VictimInv g

theorem missInv_step (h : s.MissInv c g) (hok : refillBeats s i = true) :
    (s.step c i).MissInv c (g.step c s i) where
  basic := ⟨lookups_step h.basic.lookups, mshrInv_step h.basic.mshr⟩
  adapter := ⟨AxiAdapter.step_amo h.adapter.amo (MissHandler.axiReq_amo c s.miss), adapterFits_step h.adapter⟩
  request := requestInv_step h.basic h.request
  enabled he := by
    simp only [EvictWatch.step, Bool.and_eq_true] at he
    exact enabledInv_step h.request (h.enabled he.1) he.2
  critical := ⟨offset_step h.critical, waiting_critical_step h.basic h.adapter h.critical hok⟩
  victim := victimInv_step h.basic h.victim

theorem missInv_init (h : s.IsReset) : s.MissInv c .start where
  basic := basic_init h
  adapter := adapterInv_init h
  request := requestInv_init h
  enabled _ := enabledInv_init h
  critical := by constructor <;> simp [h.axi, h.ctrl, AxiAdapter.reset, CacheCtrl.reset]
  victim := by constructor <;> simp [h.miss, MissHandler.reset]

theorem missInv_reachable {x : Nbdcache × EvictWatch}
    (h : (evictWatched c).Reachable (fun x i => refillBeats x.1 i = true) x) : x.1.MissInv c x.2 :=
  Machine.Reachable.invariant (P := fun x : Nbdcache × EvictWatch => x.1.MissInv c x.2)
    (fun x h0 => by rw [h0.2]; exact missInv_init h0.1) (fun _ _ hm hok => missInv_step hm hok) h

/-- No other port is answered for the line of a valid MSHR. -/
theorem not_answered (h : s.MissInv c g) (hv : s.miss.mshr.valid = true) {p : Fin 3}
    (hp : p ≠ s.miss.mshr.id) (hk : (i.reqPorts p).killReq = false)
    (hr : (s.reqPortO c i p).dataRvalid = true)
    (hc : g.enabled = true ∨ (s.ctrl p).memReq.bypass = false) :
    (s.loadAddr i p).sameLine s.miss.mshr.addr = false := by
  have hl : (s.ctrl p).loadRvalid (s.ctrlIn c i p) = true := by
    simpa [reqPortO, CacheCtrl.reqPortO, ctrlIn, hk] using hr
  have hlook : (s.ctrl p).lookingUp = true → (s.ctrl p).tagOk (i.reqPorts p) = true →
      (s.ctrlIn c i p).mshrAddrMatches = false → (s.loadAddr i p).sameLine s.miss.mshr.addr = false := by
    intro h1 h2 h3
    simpa [ctrlIn, mshrAddr_of_lookup h1 h2, MissHandler.mshrAddrMatches, hv, loadAddr] using h3
  unfold CacheCtrl.loadRvalid at hl
  cases hs : (s.ctrl p).state <;> simp only [hs] at hl <;> try contradiction
  case waitTag => exact hlook (by simp [CacheCtrl.lookingUp, hs]) (by grind [ctrlIn]) (by grind)
  case waitTagSaved => exact hlook (by simp [CacheCtrl.lookingUp, hs]) (by grind [ctrlIn]) (by grind)
  case waitCriticalWord => exact absurd (h.critical.waiting p hs).2.1.symm hp
  case waitRefillValid =>
    have hb := h.request.bypassed p (.inr hs)
    rcases hc with hc | hc
    · have hu := (h.enabled hc).uncached p (.inr hs) hb
      by_contra hsl
      simp only [Bool.not_eq_false, PAddr.sameLine_iff] at hsl
      have ht : (s.loadAddr i p).tag = (s.ctrl p).memReq.tag := by simp [loadAddr, CacheCtrl.tagO, hs]
      have hcm := h.request.mshr hv
      rw [← hsl.1, ht] at hcm
      exact absurd (hu.symm.trans hcm) (by decide)
    · exact absurd (hb.symm.trans hc) (by decide)

/-- The MSHR isolates a miss, and an eviction loses no store. -/
theorem mshr_isolates {x : Nbdcache × EvictWatch}
    (h : (evictWatched c).Reachable (fun x i => refillBeats x.1 i = true) x) (i : CacheIn) :
    (x.1.miss.mshr.valid = true →
      (∀ p, x.1.storeGranted c i p = true → (x.1.ctrl p).memReq.index ≠ x.1.miss.mshr.addr.index) ∧
      (∀ p, p ≠ x.1.miss.mshr.id → (i.reqPorts p).killReq = false →
        (x.1.reqPortO c i p).dataRvalid = true →
        x.2.enabled = true ∨ (x.1.ctrl p).memReq.bypass = false →
        (x.1.loadAddr i p).sameLine x.1.miss.mshr.addr = false) ∧
      ((x.1.step c i).miss.mshr.valid = true → (x.1.step c i).miss.mshr = x.1.miss.mshr) ∧
      (x.1.miss.saves (x.1.missIn c i) = false → ∀ w b,
        ((x.1.step c i).arr x.1.miss.mshr.addr.index w).dirty b = true →
        (x.1.arr x.1.miss.mshr.addr.index w).dirty b = true)) ∧
    (x.1.miss.state = .wbCachelineMiss → x.2.snooped = false → ∀ w, x.1.miss.evictWay w = true →
      x.1.miss.evictCl.tag = (x.1.arr x.1.miss.mshr.addr.index w).tag ∧
      x.1.miss.evictCl.data = (x.1.arr x.1.miss.mshr.addr.index w).data ∧
      x.1.miss.evictCl.dirty = (x.1.arr x.1.miss.mshr.addr.index w).dirty) ∧
    (x.1.miss.saves (x.1.missIn c i) = true → ∀ w, x.1.miss.evictWay w = true →
      (x.1.arr x.1.miss.mshr.addr.index w).valid = true →
      ∀ b, (x.1.arr x.1.miss.mshr.addr.index w).dirty b = false) := by
  have hinv := missInv_reachable h
  refine ⟨fun hv => ⟨fun p => store_outside_set hv, fun p => not_answered hinv hv, fun hv' => ?_,
    fun hn w => (dirty_of_step hv hn w).1⟩, fun hs hg w hw => ?_, fun hs => ?_⟩
  · rcases MissHandler.step_mshr_valid hinv.basic.mshr.miss hv' with ⟨-, hd⟩ | ⟨p, hq, -⟩
    · exact hd
    · rw [hinv.basic.mshr.miss.occupied] at hv
      simp [MissHandler.occupied, hq] at hv
  · obtain ⟨ht, hd, hdy⟩ := hinv.victim.captured hs hg w hw
    exact ⟨ht.symm, hd.symm, hdy.symm⟩
  · exact hinv.victim.clean (.inr (.inr (by grind [MissHandler.saves])))

section Runs
open Stimuli

/-- A full set with a dirty line in way 0, which the next miss evicts. -/
def dirtyEviction : List CacheIn :=
  fillSet ++ [Stimuli.store 1 1, Stimuli.store 1 1, quiet, load 1 1, tag 1 9, quiet, quiet, quiet]

set_option maxRecDepth 10000 in
theorem mshr_isolates_run :
    let x := (evictWatched cfg).run (initial, .start) dirtyEviction
    x.1.miss.state = .wbCachelineMiss ∧ x.1.miss.evictWay 0 = true ∧ anyByte x.1.miss.evictCl.dirty = true ∧
      x.1.miss.evictCl.data = (x.1.arr x.1.miss.mshr.addr.index 0).data := by
  have hr : (evictWatched cfg).Reachable (fun x i => refillBeats x.1 i = true)
      ((evictWatched cfg).run (initial, .start) dirtyEviction) :=
    .run (.init evictWatched_init) (by decide +kernel)
  have hs : ((evictWatched cfg).run (initial, .start) dirtyEviction).1.miss.state = .wbCachelineMiss ∧
      ((evictWatched cfg).run (initial, .start) dirtyEviction).1.miss.evictWay 0 = true ∧
      anyByte ((evictWatched cfg).run (initial, .start) dirtyEviction).1.miss.evictCl.dirty = true ∧
      ((evictWatched cfg).run (initial, .start) dirtyEviction).2.snooped = false := by decide +kernel
  obtain ⟨hst, hw, hd, hg⟩ := hs
  exact ⟨hst, hw, hd, ((mshr_isolates hr quiet).2.1 hst hg 0 hw).2.1⟩

def disabled (i : CacheIn) : CacheIn := { i with enable := false }

/-- The bypass bus takes the address of a read, and gives its word. -/
def readTaken (i : CacheIn) : CacheIn := { i with axiBypass := arReady }

def readDone (i : CacheIn) : CacheIn := { i with axiBypass := beat true false }

/-- A load of port 1 goes to the bypass before the cache is enabled; then port 0 misses on its line. -/
def bypassedLoad : List CacheIn :=
  [disabled quiet, disabled (load 1 1), disabled (tag 1 3), readTaken (disabled quiet), readTaken (disabled quiet),
    load 0 1, tag 0 3, quiet, quiet, readDone quiet]

set_option maxRecDepth 10000 in
/-- The bypassed load is answered while the MSHR of the other port holds its line. -/
theorem bypassed_load_answered :
    let x := (evictWatched cfg).run (initial, .start) bypassedLoad
    (evictWatched cfg).Reachable (fun x i => refillBeats x.1 i = true) x ∧
      x.1.miss.mshr.valid = true ∧ x.1.miss.mshr.id = 0 ∧ (quiet.reqPorts 1).killReq = false ∧
        (x.1.reqPortO cfg quiet 1).dataRvalid = true ∧ (x.1.loadAddr quiet 1).sameLine x.1.miss.mshr.addr = true :=
  ⟨.run (.init evictWatched_init) (by decide +kernel), by decide +kernel, by decide +kernel, rfl, by decide +kernel,
    by decide +kernel⟩

end Runs
end Culsans.Dcache.Nbdcache
