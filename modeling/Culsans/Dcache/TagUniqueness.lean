import Culsans.Dcache.StoreHits

/-! # Tags are unique within a set

Valid bits are set by refills and by stores. A store only re-validates the line it
holds, and a refill only brings a line that no way of the set holds: neither a
lookup of another port nor a snoop can bring it back while the MSHR is occupied.
-/

namespace Culsans.Dcache.Nbdcache
open Library TagCmp

variable {c : Cfg} {s : Nbdcache} {i : CacheIn}

/-- No way holds the line of the address. -/
def Absent (s : Nbdcache) (a : PAddr) : Prop := ∀ w, ¬ s.Holds a w

/-- A refill is on its way into the array. -/
def fetching (s : Nbdcache) : Bool := s.miss.refilling || s.miss.state == .saveCacheline

/-- SAVE_CACHELINE brings the line of the address in this cycle. -/
def SavesLine (c : Cfg) (s : Nbdcache) (i : CacheIn) (a : PAddr) : Prop :=
  s.miss.saves (s.missIn c i) = true ∧ a.sameLine s.miss.mshr.addr = true

/-- A line that is held after a cycle was held before or has just been saved. -/
theorem holds_of_step (h : s.StoreInv) {a : PAddr} {w : Way} (hs : (s.step c i).Holds a w) :
    s.Holds a w ∨ (SavesLine c s i a ∧ s.miss.evictWay w = true) := by
  unfold Holds at hs ⊢
  have he := step_line c s i a.index w
  generalize (s.step c i).arr a.index w = l at he hs
  cases he with
  | keep => exact .inl hs
  | save h1 h2 h3 => exact .inr ⟨⟨h1, PAddr.sameLine_iff.mpr ⟨hs.2.symm, h2⟩⟩, h3⟩
  | clear => simp [CacheLine.invalidated] at hs
  | share => exact .inl hs
  | invalidate => simp [CacheLine.invalidated] at hs
  | store p h1 h2 h3 =>
    simp only [storeGranted, CacheCtrl.storing, Bool.and_eq_true, beq_iff_eq] at h1
    have hold := h.store p h1.1.1.1.1 (by simpa using h1.1.1.2) w h3
    rw [h2]
    exact .inl ⟨hold.1, (h2 ▸ hs).2⟩

theorem absent_step (h : s.StoreInv) {a : PAddr} (ha : s.Absent a) (hn : ¬ SavesLine c s i a) :
    (s.step c i).Absent a := by
  intro w hw
  rcases holds_of_step h hw with hw | hw
  · exact ha w hw
  · exact hn hw.1

theorem Absent.congr {a b : PAddr} (h : s.Absent a) (hab : b.sameLine a = true) : s.Absent b := by
  obtain ⟨ht, hi⟩ := PAddr.sameLine_iff.mp hab
  intro w hw
  exact h w (by simpa [Holds, ht, hi] using hw)

/-- Lines on their way into the array are not there yet. -/
structure FetchInv (s : Nbdcache) : Prop where
  absent : s.fetching = true → s.Absent s.miss.mshr.addr
  waiting : ∀ p, (s.ctrl p).state = .waitRefillGnt → (s.ctrl p).memReq.bypass = false →
    s.Absent (s.ctrl p).memReq.addr
  bypassed : ∀ p, (s.ctrl p).state = .waitTagBypassed → (s.ctrl p).memReq.bypass = true
  served : s.miss.state = .saveCacheline → (s.ctrl s.miss.mshr.id).state = .waitRefillGnt →
    (s.ctrl s.miss.mshr.id).memReq.bypass = false →
    (s.ctrl s.miss.mshr.id).memReq.addr.sameLine s.miss.mshr.addr = false
  unsnooped : s.fetching = true → s.snoop.writing = true →
    s.snoop.memReq.sameLine s.miss.mshr.addr = false
  requested : s.miss.state = .reqCacheline ∨ s.miss.state = .saveCacheline → s.miss.collidingClean = false
  relooking : s.miss.state = .reqBeforeClean → s.miss.collidingClean = false
  checking : s.miss.state = .checkBeforeClean → s.miss.collidingClean = true →
    s.snoop.state = .invalidate ∧ s.snoop.memReq.sameLine s.miss.mshr.addr = true
  cleaning : s.miss.state = .sendClean → s.miss.collidingClean = true → s.Absent s.miss.mshr.addr
  snooped : s.snoop.writing = true → ∀ w, s.Holds s.snoop.memReq w → s.snoop.hitWay w = true
  victim : s.miss.state = .wbCachelineMiss ∨ s.miss.state = .reqCacheline ∨
    s.miss.state = .reqCachelineUnique ∨ s.miss.state = .saveCacheline →
    ∃ v, s.miss.evictWay = oneHot v
  unique : ∀ a w v, s.Holds a w → s.Holds a v → w = v

/-- A detected collision is an invalidation of the line in the MSHR. -/
theorem detectClean_cases {q : MissHandler} {j : MissIn} (h : q.detectClean j = true) :
    q.collidingClean = true ∨
      (j.snoopInvalidate = true ∧ j.snoopInvalidateAddr.sameLine q.mshr.addr = true) := by
  unfold MissHandler.detectClean at h
  split_ifs at h with hd
  · simp only [Bool.and_eq_true] at hd
    exact .inr ⟨hd.1.1.1, h⟩
  · exact .inl h

/-- The line of a snoop that hits is in the array. -/
theorem not_absent_of_hit (hl : s.Lookups) (he : s.snoop.state = .evalFlags)
    (hh : anyWay (s.hitWay i) = true) : ¬ s.Absent s.snoop.memReq := by
  obtain ⟨w, hw⟩ := anyWay_iff.mp hh
  intro ha
  obtain ⟨ht, hv⟩ := hitWay_evalFlags hl he hw
  exact ha w ⟨hv, ht⟩

/-- The request an MSHR is allocated to has missed. -/
theorem absent_of_requester (h : s.FetchInv) {p : Fin 3}
    (hr : MissHandler.requester (s.missIn c i) = some p) (hu : (s.ctrl p).missReq.makeUnique = false) :
    s.Absent (s.ctrl p).missReq.addr := by
  obtain ⟨hv, hk⟩ := requester_spec hr
  have hb : (s.ctrl p).missReq.bypass = false :=
    hk.resolve_left fun hk => absurd (hu.symm.trans hk) (by decide)
  obtain ⟨ha, -, ⟨-, hn⟩ | ⟨hs, -, hbq⟩⟩ := missReq_cases hv
  · exact absurd (hu.symm.trans hn) (by decide)
  · exact ha ▸ h.waiting p hs (hbq ▸ hb)

/-- A failed check means that the line is gone. -/
theorem absent_of_gone (hl : s.Lookups) (hs : s.miss.state = .checkBeforeClean)
    (hm : anyWay (s.miss.matchingWay (s.missIn c i)) = false) : s.Absent s.miss.mshr.addr := by
  intro w hw
  have hn := anyWay_eq_false_iff.mp hm w
  have hr := hl.miss (.inr hs) w
  simp only [MissHandler.matchingWay, missIn, hr] at hn
  simp [hw.1, hw.2] at hn

/-- A refill goes on, or it starts with its line absent and the array free. -/
theorem fetching_step (hb : s.Basic) (h : s.FetchInv) (hf : (s.step c i).fetching = true) :
    s.Absent (s.step c i).miss.mshr.addr ∧
      ((s.fetching = true ∧ (s.step c i).miss.mshr = s.miss.mshr) ∨ (s.missPort c i).active = false) ∧
      s.miss.saves (s.missIn c i) = false := by
  have hm := MissHandler.moves s.miss (s.missIn c i)
  have hd : (s.step c i).miss = s.miss.step (s.missIn c i) := rfl
  rw [fetching, hd] at hf
  rw [hd]
  have habs := h.absent
  have hreq := h.requested
  generalize s.miss.step (s.missIn c i) = d at hm hf
  cases hm with
  | allocate p hq hr n =>
    have hu : (s.ctrl p).missReq.makeUnique = false := by
      by_contra hu
      have hu' : ((s.missIn c i).missReq p).makeUnique = true := by simpa [missIn] using hu
      simp [MissHandler.refilling, hu'] at hf
    refine ⟨absent_of_requester h hr hu, .inr ?_, ?_⟩
    · simp [missPort, MissHandler.port, hq]
    · simp [MissHandler.saves, hq]
  | gone hq hm =>
    refine ⟨absent_of_gone hb.lookups hq hm, .inr ?_, ?_⟩
    · simp [missPort, MissHandler.port, hq]
    · simp [MissHandler.saves, hq]
  | refetch hq hv hc =>
    refine ⟨h.cleaning hq hc, .inr ?_, ?_⟩
    · simp [missPort, MissHandler.port, hq]
    · simp [MissHandler.saves, hq]
  | restart hq hv hc => simp [hreq (.inr hq)] at hc
  | other _ ho hd' => grind [MissHandler.occupied, MissHandler.refilling]
  | wait hw =>
    refine ⟨habs hf, .inl ⟨hf, rfl⟩, ?_⟩
    grind [MissHandler.saves, MissHandler.waiting]
  | upgrade => simp [MissHandler.refilling] at hf
  | relook => simp [MissHandler.refilling] at hf
  | saved => simp [MissHandler.refilling] at hf
  | cleaned => simp [MissHandler.refilling] at hf
  | _ =>
    have hold : s.fetching = true := by simp_all [fetching, MissHandler.refilling]
    exact ⟨habs hold, .inl ⟨hold, rfl⟩, by simp_all [MissHandler.saves]⟩

theorem fetch_absent_step (hb : s.Basic) (hs : s.StoreInv) (h : s.FetchInv)
    (hf : (s.step c i).fetching = true) : (s.step c i).Absent (s.step c i).miss.mshr.addr := by
  obtain ⟨ha, -, hn⟩ := fetching_step hb h hf
  exact absent_step hs ha fun hl => by simp [hl.1] at hn

/-- A snoop that waits with its status write holds the array off the miss handler's grant. -/
theorem writing_step (hw : (s.step c i).snoop.writing = true) :
    (s.step c i).snoop.memReq = s.snoop.memReq ∧
      ((s.snoop.state = .evalFlags ∧ anyWay (s.hitWay i) = true ∧
          (s.step c i).snoop.hitWay = s.hitWay i) ∨
        (s.snoop.writing = true ∧ (s.missPort c i).active = true ∧ (s.step c i).snoop = s.snoop)) := by
  rcases SnoopCtrl.step_writing hw with ⟨he, hh, hd, hm, -⟩ | ⟨hq, hg, hd⟩
  · exact ⟨hm, .inl ⟨he, hh, hd⟩⟩
  · rw [gnt_one, snoopGnt] at hg
    exact ⟨congrArg SnoopCtrl.memReq hd, .inr ⟨hq, by simpa using hg, hd⟩⟩

theorem unsnooped_step (hb : s.Basic) (h : s.FetchInv) (hf : (s.step c i).fetching = true)
    (hw : (s.step c i).snoop.writing = true) :
    (s.step c i).snoop.memReq.sameLine (s.step c i).miss.mshr.addr = false := by
  obtain ⟨ha, hk, -⟩ := fetching_step hb h hf
  obtain ⟨hm, ⟨he, hh, -⟩ | ⟨hq, hact, -⟩⟩ := writing_step hw
  · rw [hm]
    by_contra hsl
    exact not_absent_of_hit hb.lookups he hh (ha.congr (by simpa using hsl))
  · rw [hm]
    rcases hk with ⟨hf', hmshr⟩ | hidle
    · exact hmshr ▸ h.unsnooped hf' hq
    · simp [hact] at hidle

theorem snooped_step (hb : s.Basic) (hs : s.StoreInv) (h : s.FetchInv)
    (hw : (s.step c i).snoop.writing = true) (w : Way)
    (hold : (s.step c i).Holds (s.step c i).snoop.memReq w) : (s.step c i).snoop.hitWay w = true := by
  obtain ⟨hm, hk⟩ := writing_step hw
  rw [hm] at hold
  have hsave : ¬ SavesLine c s i s.snoop.memReq := by
    intro hsl
    have hf : s.fetching = true := by grind [SavesLine, fetching, MissHandler.saves]
    rcases hk with ⟨he, hh, -⟩ | ⟨hq, -, -⟩
    · exact not_absent_of_hit hb.lookups he hh ((h.absent hf).congr hsl.2)
    · exact absurd hsl.2 (by simp [h.unsnooped hf hq])
  have hold' : s.Holds s.snoop.memReq w := (holds_of_step hs hold).resolve_right fun hn => hsave hn.1
  rcases hk with ⟨he, -, hd⟩ | ⟨hq, -, hd⟩
  · rw [hd, hitWay, hitWay_iff]
    obtain ⟨hid, hr⟩ := hb.lookups.evalFlags he
    rw [hr, selTag, hid]
    simpa [SnoopCtrl.tagO, SnoopCtrl.acReady, he] using hold'.symm
  · rw [hd]
    exact h.snooped hq w hold'

/-- A cacheable request that waits for its refill missed, or has waited before. -/
theorem waiting_cases (h : s.FetchInv) {p : Fin 3} (hs : ((s.step c i).ctrl p).state = .waitRefillGnt)
    (hb : ((s.step c i).ctrl p).memReq.bypass = false) :
    ((s.ctrl p).lookingUp = true ∧ anyWay (s.hitWay i) = false ∧
      ((s.step c i).ctrl p).memReq.addr =
        ⟨(s.ctrl p).tagO (i.reqPorts p), (s.ctrl p).memReq.index, (s.ctrl p).memReq.offset⟩ ∧
      s.miss.mshrAddrMatches ((s.step c i).ctrl p).memReq.addr = false) ∨
    ((s.ctrl p).state = .waitRefillGnt ∧ (s.ctrl p).memReq.bypass = false ∧
      (s.ctrl p).StillWaiting (s.ctrlIn c i p) ((s.step c i).ctrl p)) := by
  rcases CacheCtrl.step_waitRefillGnt hs with hm | ⟨hq, hd⟩ | ⟨hq, hd⟩
  · have hc : c.isInsideCacheableRegions ((s.ctrl p).tagO (i.reqPorts p)) = true := by
      by_contra hc
      exact absurd ((hm.uncached (by simpa [ctrlIn] using hc)).symm.trans hb) (by decide)
    obtain ⟨hh, hma, -, ha, -⟩ := hm.cached hc
    refine .inl ⟨hm.looking, hh, ha, ?_⟩
    have ha' : ((s.step c i).ctrl p).memReq.addr = (s.ctrl p).mshrAddr (i.reqPorts p) :=
      ha.trans (mshrAddr_of_lookup hm.looking hm.tagOk).symm
    rw [ha']
    exact hma
  · exact absurd ((h.bypassed p hq).symm.trans (hd.symm.trans hb)) (by decide)
  · exact .inr ⟨hq, hd.2.2.2.1.symm.trans hb, hd⟩

theorem not_savesLine (hm : s.MshrInv) {a : PAddr} (h : s.miss.mshrAddrMatches a = false) :
    ¬ SavesLine c s i a := by
  intro hs
  simp [MissHandler.mshrAddrMatches, mshr_valid_of_saves hm hs.1, hs.2] at h

theorem waiting_step (hb : s.Basic) (hi : s.StoreInv) (h : s.FetchInv) (p : Fin 3)
    (hs : ((s.step c i).ctrl p).state = .waitRefillGnt)
    (hbp : ((s.step c i).ctrl p).memReq.bypass = false) :
    (s.step c i).Absent ((s.step c i).ctrl p).memReq.addr := by
  rcases waiting_cases h hs hbp with ⟨hl, hh, ha, hm⟩ | ⟨hq, hbq, hd⟩
  · refine absent_step hi ?_ (not_savesLine hb.mshr hm)
    rw [ha]
    intro w hw
    have hn := anyWay_eq_false_iff.mp hh w
    simp [(holds_of_lookup hb.lookups hl).mpr hw] at hn
  · rw [hd.2.2.2.2.2.1]
    refine absent_step hi (h.waiting p hq hbq) fun hsl => ?_
    have hst : s.miss.state = .saveCacheline := by grind [SavesLine, MissHandler.saves]
    have hv := mshr_valid_of_saves hb.mshr hsl.1
    have hid : s.miss.mshr.id = p := by
      rcases hd.1 with hn | ha
      · simp [ctrlIn, CacheCtrl.mshrAddr, hq, MissHandler.mshrAddrMatches, hv, hsl.2] at hn
      · simpa [ctrlIn, MissHandler.activeServing, hv] using ha
    have hser := h.served hst
    rw [hid] at hser
    exact absurd hsl.2 (by simp [hser hq hbq])

theorem served_step (hb : s.Basic) (h : s.FetchInv) (hs : (s.step c i).miss.state = .saveCacheline)
    (hq : ((s.step c i).ctrl (s.step c i).miss.mshr.id).state = .waitRefillGnt)
    (hbp : ((s.step c i).ctrl (s.step c i).miss.mshr.id).memReq.bypass = false) :
    ((s.step c i).ctrl (s.step c i).miss.mshr.id).memReq.addr.sameLine (s.step c i).miss.mshr.addr =
      false := by
  have hmshr : (s.step c i).miss.mshr = s.miss.mshr := (MissHandler.step_saveCacheline hs).1
  have hk := (MissHandler.step_saveCacheline hs).2.2
  have hv : s.miss.mshr.valid = true := by
    rw [hb.mshr.miss.occupied]
    grind [MissHandler.occupied]
  rw [hmshr] at hq hbp ⊢
  rcases waiting_cases h hq hbp with ⟨-, -, -, hm⟩ | ⟨hq', hbq, hd⟩
  · simpa [MissHandler.mshrAddrMatches, hv] using hm
  · rw [hd.2.2.2.2.2.1]
    rcases hk with ⟨hst, hg⟩ | ⟨hst, -⟩
    · have hnu : s.miss.mshr.makeUnique = false := by
        by_contra hu
        have hmk := (hb.mshr.makeUnique hv (by simpa using hu)).1
        simp [hq'] at hmk
      have hgnt := hd.2.1
      rcases hst with hst | hst <;> simp [ctrlIn, MissHandler.missGnt, hst, hg, hnu] at hgnt
    · exact h.served hst hq' hbq

/-- A fetch does not collide: its line is not being invalidated. -/
theorem detectClean_of_fetching (h : s.FetchInv) (hf : s.fetching = true)
    (hc : s.miss.collidingClean = false) : s.miss.detectClean (s.missIn c i) = false := by
  by_contra hd
  rcases detectClean_cases (by simpa using hd) with hcc | ⟨hinv, hl⟩
  · simp [hc] at hcc
  · have hw : s.snoop.writing = true := by
      simp only [missIn, SnoopCtrl.invalidate, beq_iff_eq] at hinv
      simp [SnoopCtrl.writing, hinv]
    exact absurd hl (by simp [missIn, h.unsnooped hf hw])

theorem requested_step (h : s.FetchInv)
    (hs : (s.step c i).miss.state = .reqCacheline ∨ (s.step c i).miss.state = .saveCacheline) :
    (s.step c i).miss.collidingClean = false := by
  have hm := MissHandler.moves s.miss (s.missIn c i)
  have hd : (s.step c i).miss = s.miss.step (s.missIn c i) := rfl
  rw [hd] at hs ⊢
  have hdet := detectClean_of_fetching (c := c) (i := i) h
  have hreq := h.requested
  generalize s.miss.step (s.missIn c i) = d at hm hs
  cases hm with
  | allocate => grind -ring -linarith
  | other _ _ hd' => grind -ring -linarith [MissHandler.occupied]
  | wait hw => exact hdet (by grind -ring -linarith [fetching, MissHandler.refilling]) (hreq hs)
  | free hq => exact hdet (by simp [fetching, MissHandler.refilling, hq]) (by grind [MissHandler.refillState])
  | clean hq => exact hdet (by simp [fetching, MissHandler.refilling, hq]) (by grind [MissHandler.refillState])
  | written hq => exact hdet (by simp [fetching, MissHandler.refilling, hq]) (by grind [MissHandler.refillState])
  | granted hq => exact hdet (by simp [fetching, MissHandler.refilling, hq]) (hreq (.inl hq))
  | grantedUnique => rfl
  | _ => simp at hs

theorem relooking_step (hs : (s.step c i).miss.state = .reqBeforeClean) :
    (s.step c i).miss.collidingClean = false := by
  have hm := MissHandler.moves s.miss (s.missIn c i)
  have hd : (s.step c i).miss = s.miss.step (s.missIn c i) := rfl
  rw [hd] at hs ⊢
  generalize s.miss.step (s.missIn c i) = d at hm hs
  cases hm with
  | allocate => rfl
  | other _ _ hd' => grind [MissHandler.occupied]
  | wait hw => grind [MissHandler.waiting]
  | _ => grind [MissHandler.refillState]

/-- A collision noticed while the line is looked up is still pending in the check. -/
theorem checking_step (h : s.FetchInv) (hs : (s.step c i).miss.state = .checkBeforeClean)
    (hc : (s.step c i).miss.collidingClean = true) :
    (s.step c i).snoop.state = .invalidate ∧
      (s.step c i).snoop.memReq.sameLine (s.step c i).miss.mshr.addr = true := by
  obtain ⟨hq, hmshr⟩ := MissHandler.step_checkBeforeClean hs
  have hmshr' : (s.step c i).miss.mshr = s.miss.mshr := hmshr
  have hcc : (s.step c i).miss.collidingClean = s.miss.detectClean (s.missIn c i) := by
    simp [step, MissHandler.step, hq]
  rw [hcc] at hc
  rcases detectClean_cases hc with hcl | ⟨hinv, hl⟩
  · simp [h.relooking hq] at hcl
  · have hst : s.snoop.state = .invalidate := by simpa [missIn, SnoopCtrl.invalidate] using hinv
    have hg : s.gnt c i 1 = false := by
      simp [gnt_one, snoopGnt, missPort, MissHandler.port, hq]
    have hkeep : (s.step c i).snoop = s.snoop := by
      simp [step, SnoopCtrl.step, hst, hg]
    rw [hkeep, hmshr']
    exact ⟨hst, hl⟩

/-- A granted INVALIDATE leaves no copy of its line. -/
theorem absent_of_invalidate (hb : s.Basic) (hi : s.StoreInv) (h : s.FetchInv)
    (hs : s.snoop.state = .invalidate) (hg : s.gnt c i 1 = true)
    (hn : s.miss.saves (s.missIn c i) = false) : (s.step c i).Absent s.snoop.memReq := by
  intro w hw
  have hold : s.Holds s.snoop.memReq w :=
    (holds_of_step hi hw).resolve_right fun hsl => by simp [hsl.1.1] at hn
  have hh := h.snooped (by simp [SnoopCtrl.writing, hs]) w hold
  have hz := hw.1
  rw [step_arr_of_invalidate hb.lookups hs hg hh] at hz
  simp [CacheLine.invalidated] at hz

theorem cleaning_step (hb : s.Basic) (hi : s.StoreInv) (h : s.FetchInv)
    (hs : (s.step c i).miss.state = .sendClean) (hc : (s.step c i).miss.collidingClean = true) :
    (s.step c i).Absent (s.step c i).miss.mshr.addr := by
  obtain ⟨hst', hcd, hmshr⟩ : _ ∧ _ ∧ (s.step c i).miss.mshr = s.miss.mshr := MissHandler.step_sendClean hs
  have hst : s.miss.state = .checkBeforeClean ∨ s.miss.state = .sendClean := hst'.imp And.left id
  have hd : s.miss.detectClean (s.missIn c i) = true := hcd.symm.trans hc
  rw [hmshr]
  have hn : s.miss.saves (s.missIn c i) = false := by grind [MissHandler.saves]
  have hinv : s.snoop.state = .invalidate → s.snoop.memReq.sameLine s.miss.mshr.addr = true →
      (s.step c i).Absent s.miss.mshr.addr := by
    intro h1 h2
    have hg : s.gnt c i 1 = true := by
      rcases hst with hst | hst <;> simp [gnt_one, snoopGnt, missPort, MissHandler.port, hst]
    refine (absent_of_invalidate hb hi h h1 hg hn).congr ?_
    rw [PAddr.sameLine_iff] at h2 ⊢
    exact ⟨h2.1.symm, h2.2.symm⟩
  rcases detectClean_cases hd with hcc | ⟨h1, h2⟩
  · rcases hst with hst | hst
    · exact hinv (h.checking hst hcc).1 (h.checking hst hcc).2
    · exact absent_step hi (h.cleaning hst hcc) fun hsl => by simp [hsl.1] at hn
  · exact hinv (by simpa [missIn, SnoopCtrl.invalidate] using h1) h2

theorem bypassed_step (h : s.FetchInv) (p : Fin 3)
    (hs : ((s.step c i).ctrl p).state = .waitTagBypassed) :
    ((s.step c i).ctrl p).memReq.bypass = true := by
  rcases CacheCtrl.step_waitTagBypassed hs with ⟨-, hb⟩ | ⟨hq, hb⟩
  · exact hb
  · exact hb.trans (h.bypassed p hq)

theorem victim_step (h : s.FetchInv)
    (hs : (s.step c i).miss.state = .wbCachelineMiss ∨ (s.step c i).miss.state = .reqCacheline ∨
      (s.step c i).miss.state = .reqCachelineUnique ∨ (s.step c i).miss.state = .saveCacheline) :
    ∃ v, (s.step c i).miss.evictWay = oneHot v := by
  have hm := MissHandler.moves s.miss (s.missIn c i)
  have hd : (s.step c i).miss = s.miss.step (s.missIn c i) := rfl
  rw [hd] at hs ⊢
  have hv := h.victim
  generalize s.miss.step (s.missIn c i) = d at hm hs
  cases hm with
  | allocate => grind
  | free => exact ⟨_, rfl⟩
  | clean => exact ⟨_, rfl⟩
  | dirty => exact ⟨_, rfl⟩
  | written hq => exact hv (.inl hq)
  | granted hq => exact hv (.inr (.inl hq))
  | grantedUnique hq => exact hv (.inr (.inr (.inl hq)))
  | wait => exact hv hs
  | other _ _ hd' => grind [MissHandler.occupied]
  | _ => simp at hs

theorem unique_step (hi : s.StoreInv) (h : s.FetchInv) (a : PAddr) (w v : Way)
    (hw : (s.step c i).Holds a w) (hv : (s.step c i).Holds a v) : w = v := by
  have habs : SavesLine c s i a → s.Absent a := fun hsl =>
    (h.absent (by grind [SavesLine, fetching, MissHandler.saves])).congr hsl.2
  rcases holds_of_step hi hw with hw | ⟨hsw, hew⟩ <;> rcases holds_of_step hi hv with hv | ⟨hsv, hev⟩
  · exact h.unique a w v hw hv
  · exact absurd hw (habs hsv w)
  · exact absurd hv (habs hsw v)
  · obtain ⟨u, hu⟩ := h.victim (.inr (.inr (.inr (by grind [SavesLine, MissHandler.saves]))))
    simp only [hu, oneHot, beq_iff_eq] at hew hev
    rw [hew, hev]

theorem fetchInv_step (hb : s.Basic) (hi : s.StoreInv) (h : s.FetchInv) : (s.step c i).FetchInv where
  absent := fetch_absent_step hb hi h
  waiting := waiting_step hb hi h
  bypassed := bypassed_step h
  served := served_step hb h
  unsnooped := unsnooped_step hb h
  requested := requested_step h
  relooking := relooking_step
  checking := checking_step h
  cleaning := cleaning_step hb hi h
  snooped := snooped_step hb hi h
  victim := victim_step h
  unique := unique_step hi h

theorem fetchInv_init (h : s.IsReset) : s.FetchInv := by
  have habs : ∀ a w, ¬ s.Holds a w := fun a w hw => by simp [Holds, h.arr] at hw
  constructor
  · exact fun _ w => habs _ w
  · exact fun _ _ _ w => habs _ w
  · simp [h.ctrl, CacheCtrl.reset]
  · simp [h.miss, MissHandler.reset]
  · simp [h.miss, fetching, MissHandler.reset, MissHandler.refilling]
  · simp [h.miss, MissHandler.reset]
  · simp [h.miss, MissHandler.reset]
  · simp [h.miss, MissHandler.reset]
  · simp [h.miss, MissHandler.reset]
  · exact fun _ w hw => absurd hw (habs _ w)
  · simp [h.miss, MissHandler.reset]
  · exact fun a w v hw => absurd hw (habs a w)

theorem fetchInv_reachable (h : (machine c).Reachable (fun s i => storeHazard c s i = false) s) :
    s.FetchInv :=
  Machine.Reachable.invariant_of (P := fun s => s.Basic ∧ s.StoreInv) (Q := FetchInv)
    (fun _ hr => ⟨basic_reachable hr, storeInv_reachable hr⟩) (fun _ => fetchInv_init)
    (fun _ _ hp hq _ => fetchInv_step hp.1 hp.2 hq) h

/-- No set holds a tag twice, and so every full-set lookup hits at most once. -/
theorem tags_unique (h : (machine c).Reachable (fun s i => storeHazard c s i = false) s) :
    (∀ idx w v, (s.arr idx w).valid = true → (s.arr idx v).valid = true →
      (s.arr idx w).tag = (s.arr idx v).tag → w = v) ∧
    ∀ i k a, s.gnt c i k = true → s.ports c i k = .lookup a →
      ∀ j w v, (s.step c i).hitWay j w = true → (s.step c i).hitWay j v = true → w = v := by
  have hu := (fetchInv_reachable h).unique
  have harr : ∀ idx w v, (s.arr idx w).valid = true → (s.arr idx v).valid = true →
      (s.arr idx w).tag = (s.arr idx v).tag → w = v := fun idx w v hw hv ht =>
    hu ⟨(s.arr idx v).tag, idx, 0⟩ w v ⟨hw, ht⟩ ⟨hv, rfl⟩
  refine ⟨harr, fun i k a hg hp j w v hw hv => ?_⟩
  obtain ⟨-, hr, -⟩ := step_of_lookup hg hp
  rw [hitWay, hitWay_iff, hr] at hw hv
  exact harr a w v hw.2 hv.2 (hw.1.trans hv.1.symm)

section Runs
open Stimuli

set_option maxRecDepth 10000 in
theorem tags_unique_run :
    let s := (machine cfg).run initial loadThenStore
    (s.arr 1 0).valid = true ∧ ∀ v, (s.arr 1 v).valid = true → (s.arr 1 v).tag = (s.arr 1 0).tag → v = 0 := by
  have hr : (machine cfg).Reachable (fun s i => storeHazard cfg s i = false)
      ((machine cfg).run initial loadThenStore) :=
    .run (.init initial_isReset) (by decide +kernel)
  have hv : (((machine cfg).run initial loadThenStore).arr 1 0).valid = true := by decide +kernel
  exact ⟨hv, fun v hw ht => (tags_unique hr).1 1 v 0 hw hv ht⟩

set_option maxRecDepth 10000 in
theorem tags_duplicated :
    ∃ s, (machine cfg).Reachable (fun _ _ => True) s ∧ (s.arr 1 0).valid = true ∧
      (s.arr 1 1).valid = true ∧ (s.arr 1 0).tag = 2 ∧ (s.arr 1 1).tag = 2 :=
  ⟨_, Machine.reachable_run _ initial_isReset (refetchedElsewhere ++ [quiet]), by decide +kernel⟩

end Runs
end Culsans.Dcache.Nbdcache
