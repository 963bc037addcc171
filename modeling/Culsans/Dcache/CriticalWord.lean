import Culsans.Dcache.Eviction

/-! # The critical word of a refill

The refill adapter tells every controller that the beat of the requested word is there,
whatever it reads. Only a load waits for it, and only while its own refill is read.
-/

namespace Culsans.Dcache

namespace CacheCtrl
variable {c : Cfg} {q : CacheCtrl} {i : CtrlIn} {gnt : Bool}

/-- A granted load waits for its word. -/
theorem step_granted (hq : q.state = .waitRefillGnt) (hg : i.missGnt = true) (hw : q.memReq.we = false)
    (ha : i.activeServing = true) : (q.step c i gnt).state = .waitCriticalWord := by
  simp [step, stepState, stepWaitRefillGnt, hq, hg, hw, ha, unkillable]

theorem step_of_waitCriticalWord (hq : q.state = .waitCriticalWord) (hv : i.criticalWordValid = false) :
    (q.step c i gnt).state = .waitCriticalWord := by
  simp [step, stepState, stepWaitCriticalWord, base, hq, hv, unkillable]

/-- In every other state a controller does not look at the critical word. -/
theorem ignores_criticalWord (hq : q.state ≠ .waitCriticalWord) (w : Word) (v : Bool) :
    q.step c { i with criticalWord := w, criticalWordValid := v } gnt = q.step c i gnt ∧
      q.reqPortO { i with criticalWord := w, criticalWordValid := v } gnt = q.reqPortO i gnt ∧
        q.port { i with criticalWord := w, criticalWordValid := v } = q.port i := by
  cases hs : q.state
  case waitCriticalWord => exact absurd hs hq
  all_goals
    simp only [step, stepState, reqPortO, dataGnt, loadRvalid, dataRdata, port, hs]
    exact ⟨rfl, by trivial, by trivial⟩

end CacheCtrl

namespace Nbdcache
open Library TagCmp
variable {c : Cfg} {s : Nbdcache} {i : CacheIn}

/-- An address accepted on the AR channel of the refill adapter, with what has come of it. -/
structure Refill where
  ar : ArChan
  /-- the MSHR it is read for -/
  mshr : Mshr
  /-- the beats answered so far -/
  beats : ℕ
  /-- the words the controllers have taken -/
  taken : ℕ

/-- The refill of a load miss. -/
def Refill.load (f : Refill) : Bool := !f.mshr.we && !f.mshr.makeUnique

/-- The critical word goes to controller `p`. -/
def takesWord (s : Nbdcache) (i : CacheIn) (p : Fin 3) : Bool :=
  (s.ctrl p).state == .waitCriticalWord && s.axi.criticalWordValid i.axiData

/-- The bus of the refill adapter. -/
def refillBus (c : Cfg) (s : Nbdcache) (i : CacheIn) : AxiReq := s.axi.axiReq (s.miss.axiReq c) i.axiData

def arAccepted (c : Cfg) (s : Nbdcache) (i : CacheIn) : Bool := (refillBus c s i).arValid && i.axiData.arReady

def rAccepted (c : Cfg) (s : Nbdcache) (i : CacheIn) : Bool := (refillBus c s i).rReady && i.axiData.rValid

def watchRefill (c : Cfg) (g : Option Refill) (s : Nbdcache) (i : CacheIn) : Option Refill :=
  if arAccepted c s i then some ⟨(refillBus c s i).ar, s.miss.mshr, 0, 0⟩
  else g.map fun f => { f with
    beats := f.beats + (rAccepted c s i).toNat
    taken := f.taken + (List.finRange 3).countP (takesWord s i) }

/-- The cache with an observer of the last refill. -/
def refillWatched (c : Cfg) : Machine (Nbdcache × Option Refill) CacheIn := (machine c).observe none (watchRefill c)

/-- The word of its line that a controller asks for. -/
def wordIndex (q : CacheCtrl) : ℕ := if q.memReq.addr.word then 1 else 0

/-- The snoop code of `CleanUnique`. -/
def isCleanUnique (ar : ArChan) : Bool := ar.snoop == (AxiAdapter.arSnoop .cleanUnique).1

/-! ### Invariants -/

/-- The MSHR of a miss keeps the direction of the request. -/
def WeInv (s : Nbdcache) : Prop :=
  s.miss.refilling = true → s.miss.mshr.makeUnique = false →
    (s.ctrl s.miss.mshr.id).memReq.we = s.miss.mshr.we

theorem weInv_step (h : s.MshrInv) (hw : s.WeInv) : (s.step c i).WeInv := by
  intro hf hu
  rcases MissHandler.step_refilling h.miss hf hu with ⟨hq, hd, hg⟩ | ⟨p, hq, hr, hd⟩
  · have hd' : (s.step c i).miss.mshr = s.miss.mshr := hd
    rw [hd'] at hu ⊢
    obtain ⟨hs, -, hb⟩ := h.refilling hq hu
    have hv : s.miss.mshr.valid = true := by
      rw [h.miss.occupied]
      grind [MissHandler.refilling, MissHandler.occupied]
    obtain ⟨-, -, hsame⟩ := step_waiting (c := c) hs
      (.inr (by simp [ctrlIn, MissHandler.activeServing, hv])) (hg _)
      (bypassGnt_of_cached (by simp [CacheCtrl.missReq, hs, hb]))
    exact hsame.2.2.1.trans (hw hq hu)
  · have hd' : (s.step c i).miss.mshr = MissHandler.allocate p (s.ctrl p).missReq := hd
    rw [hd'] at hu ⊢
    obtain ⟨hv, hk⟩ := requester_spec hr
    have hb : (s.ctrl p).missReq.bypass = false := hk.resolve_left (fun hk => absurd (hu.symm.trans hk) (by decide))
    obtain ⟨-, hwe, hk⟩ := missReq_cases hv
    rcases hk with ⟨-, hn⟩ | ⟨hs, -, -⟩
    · exact absurd (hu.symm.trans hn) (by decide)
    · have hvalid : s.miss.mshr.valid = false := by
        rw [h.miss.occupied]
        simp [MissHandler.occupied, hq]
      obtain ⟨-, -, hsame⟩ := step_waiting (c := c) hs
        (.inl (by simp [ctrlIn, MissHandler.mshrAddrMatches, hvalid]))
        (by simp [ctrlIn, MissHandler.missGnt, hq]) (bypassGnt_of_cached hb)
      exact hsame.2.2.1.trans hwe.symm

/-- What the observer knows about a load that waits, and about the words taken. -/
structure RefillInv (s : Nbdcache) (g : Option Refill) : Prop where
  waiting : ∀ p, (s.ctrl p).state = .waitCriticalWord → s.miss.mshr.addr = (s.ctrl p).memReq.addr ∧
    s.axi.addrOffset = wordIndex (s.ctrl p) ∧
      ∃ f ∈ g, f.mshr = s.miss.mshr ∧ f.load = true ∧ f.taken = 0 ∧ f.ar.addr = s.miss.mshr.addr.align ∧
        f.ar.len = 1 ∧ isCleanUnique f.ar = false ∧ f.beats + s.axi.cnt = 1
  clean : ∀ f ∈ g, isCleanUnique f.ar = true → f.load = false
  store : ∀ f ∈ g, f.load = false → f.taken = 0
  load : ∀ f ∈ g, f.load = true → f.taken = 1 ∨ (f.taken = 0 ∧ (s.ctrl f.mshr.id).state = .waitCriticalWord)

/-- All that is known in an observed run. -/
structure CriticalRun (s : Nbdcache) (g : Option Refill) : Prop where
  basic : s.Basic
  adapter : s.AdapterInv
  critical : s.CriticalInv
  we : s.WeInv
  refill : s.RefillInv g

variable {g : Option Refill}

/-- An address is accepted from an idle adapter, for the request of one of three states. -/
theorem reading_of_arAccepted (h : arAccepted c s i = true) :
    s.axi.state = .idle ∧
      (s.miss.state = .reqCacheline ∨ s.miss.state = .reqCachelineUnique ∨ s.miss.state = .sendClean) := by
  simp only [arAccepted, refillBus, Bool.and_eq_true] at h
  have hi : s.axi.state = .idle := by
    cases hs : s.axi.state <;> simp_all [AxiAdapter.axiReq]
  refine ⟨hi, ?_⟩
  by_contra hn
  push Not at hn
  have hr : (s.miss.axiReq c).req = false ∨ (s.miss.axiReq c).we = true := by
    by_cases hw : s.miss.writingBack = true
    · exact .inr (MissHandler.axiReq_write hw).2
    · exact .inl (MissHandler.axiReq_rest hn.1 hn.2.1 hn.2.2 (by simpa using hw))
  rcases hr with hr | hr <;> simp [AxiAdapter.axiReq, hi, hr] at h
  split_ifs at h <;> simp at h

theorem arAccepted_of_gnt (h : s.AdapterInv)
    (hs : s.miss.state = .reqCacheline ∨ s.miss.state = .reqCachelineUnique) :
    arAccepted c s i = (s.missIn c i).axi.gnt := by
  have hi : s.axi.state = .idle := by
    have hf := h.fits
    rcases hs with hs | hs <;> simpa [adapterFits, hs] using hf
  obtain ⟨hr, hwe⟩ := MissHandler.axiReq_read (c := c) (q := s.miss) (by tauto)
  simp [arAccepted, refillBus, missIn, missAxi, AxiAdapter.axiReq, AxiAdapter.gnt, hi, hr, hwe]

/-- The address of a granted refill. -/
theorem ar_of_request (hi : s.axi.state = .idle)
    (hs : s.miss.state = .reqCacheline ∨ s.miss.state = .reqCachelineUnique) :
    (refillBus c s i).ar.addr = s.miss.mshr.addr.align ∧ (refillBus c s i).ar.len = 1 ∧
      isCleanUnique (refillBus c s i).ar = false := by
  obtain ⟨hr, hwe⟩ := MissHandler.axiReq_read (c := c) (q := s.miss) (by tauto)
  have ht := MissHandler.axiReq_type c s.miss
  have hadr : (s.miss.axiReq c).addr = s.miss.mshr.addr ∧ (s.miss.axiReq c).transType = s.miss.refillType c := by
    rcases hs with hs | hs <;> simp [MissHandler.axiReq, hs]
  refine ⟨?_, ?_, ?_⟩
  · simp [refillBus, AxiAdapter.axiReq, hi, hr, hwe, ht, hadr.1]
  · simp [refillBus, AxiAdapter.axiReq, hi, hr, hwe, ht]
  · simp only [isCleanUnique, refillBus, AxiAdapter.axiReq, hi, hr, hwe, hadr.2, MissHandler.refillType]
    split_ifs <;> simp [AxiAdapter.arSnoop]

theorem wordIndex_eq (q : CacheCtrl) : q.memReq.addr.dword % 2 = wordIndex q := by
  simp only [PAddr.dword, wordIndex]
  split_ifs <;> omega

/-- The words are taken by the one controller that waits. -/
theorem countP_takesWord (h : s.CriticalInv) {p : Fin 3} (hp : (s.ctrl p).state = .waitCriticalWord) :
    (List.finRange 3).countP (takesWord s i) = (s.axi.criticalWordValid i.axiData).toNat := by
  have hone : ∀ q, takesWord s i q = (q == p && s.axi.criticalWordValid i.axiData) := by
    intro q
    rw [takesWord]
    congr 1
    rw [Bool.eq_iff_iff, beq_iff_eq, beq_iff_eq]
    refine ⟨fun hq => ?_, fun hq => hq ▸ hp⟩
    exact (h.waiting q hq).2.1.symm.trans (h.waiting p hp).2.1
  rw [funext hone]
  cases s.axi.criticalWordValid i.axiData
  · simp
  · fin_cases p <;> decide

theorem countP_takesWord_none (h : ∀ p, (s.ctrl p).state ≠ .waitCriticalWord) :
    (List.finRange 3).countP (takesWord s i) = 0 := by
  simp [takesWord, h]

/-- The MSHR stays while its line is read. -/
theorem step_mshr_of_read (hs : s.miss.state = .saveCacheline) (hx : s.axi.state = .waitRValidMultiple) :
    (s.step c i).miss.mshr = s.miss.mshr := by
  have hv : (s.missIn c i).axi.valid = false := by simp [missIn, missAxi, AxiAdapter.valid, hx]
  show (s.miss.step (s.missIn c i)).mshr = _
  simp [MissHandler.step, MissHandler.stepSave, hs, hv]

/-- A beat that is not the critical word is the first of two. -/
theorem step_cnt_of_read (h : s.CriticalInv) {p : Fin 3} (hp : (s.ctrl p).state = .waitCriticalWord)
    (hcw : s.axi.criticalWordValid i.axiData = false) :
    (s.step c i).axi.addrOffset = s.axi.addrOffset ∧ (s.step c i).axi.cnt + i.axiData.rValid.toNat = s.axi.cnt := by
  obtain ⟨-, -, hx, hcnt⟩ := h.waiting p hp
  have ho := h.offset
  simp only [AxiAdapter.criticalWordValid, AxiAdapter.index, hx, AxiAdapter.cntMod_one] at hcw
  simp only [step, AxiAdapter.step, AxiAdapter.stepState, AxiAdapter.stepRead, hx, AxiAdapter.cntMod_one]
  cases hr : i.axiData.rValid
  · simp
  · rcases hcnt with hcnt | ⟨hcnt, hoff⟩
    · simp [hcnt]
    · simp [hr, hcnt, hoff] at hcw

/-- A load enters the wait with the address of its own refill. -/
theorem waiting_of_granted (h : s.CriticalRun g) {p : Fin 3} (hq : (s.ctrl p).state = .waitRefillGnt)
    (hg : (s.ctrlIn c i p).missGnt = true) (hw : (s.ctrl p).memReq.we = false)
    (hd : (s.ctrl p).SameRequest ((s.step c i).ctrl p)) :
    arAccepted c s i = true ∧ (s.step c i).miss.mshr = s.miss.mshr ∧
      s.miss.mshr.addr = ((s.step c i).ctrl p).memReq.addr ∧
      (s.step c i).axi.addrOffset = wordIndex ((s.step c i).ctrl p) ∧ (s.step c i).axi.cnt = 1 ∧
      s.miss.mshr.we = false ∧ s.miss.mshr.makeUnique = false ∧
      (s.miss.state = .reqCacheline ∨ s.miss.state = .reqCachelineUnique) := by
  obtain ⟨hst, hid, hgnt, hu⟩ := granted_of_missGnt h.basic hq hg
  obtain ⟨-, hm, -, hcnt, hoff⟩ := read_of_granted h.adapter hst hgnt
  have hf : s.miss.refilling = true := by
    rcases hst with hst | hst <;> simp [MissHandler.refilling, hst]
  have haddr := (h.basic.mshr.refilling hf hu).2.1
  have hwe := h.we hf hu
  rw [hid] at haddr hwe
  have hsame : s.miss.mshr.addr = ((s.step c i).ctrl p).memReq.addr := haddr.symm.trans hd.2.1.symm
  refine ⟨(arAccepted_of_gnt h.adapter hst).trans hgnt, hm, hsame, ?_, hcnt, hwe.symm.trans hw, hu, hst⟩
  rw [hoff, hsame, wordIndex_eq]

/-- The line of a miss that is no upgrade is read without `CleanUnique`. -/
theorem request_of_load (h : s.MshrInv) (hl : s.miss.mshr.makeUnique = false)
    (hs : s.miss.state = .reqCacheline ∨ s.miss.state = .reqCachelineUnique ∨ s.miss.state = .sendClean) :
    s.miss.state = .reqCacheline ∨ s.miss.state = .reqCachelineUnique := by
  rcases hs with hs | hs | hs
  · exact .inl hs
  · exact .inr hs
  · have hu := h.miss.cleaning (by simp [MissHandler.cleaning, hs])
    exact absurd (hu.symm.trans hl) (by decide)

/-- A new address: nobody waits, and only the load it is for starts to. -/
theorem refillInv_step_accepted (h : s.CriticalRun g) (ha : arAccepted c s i = true) :
    (s.step c i).RefillInv (watchRefill c g s i) := by
  obtain ⟨hi, hreq⟩ := reading_of_arAccepted ha
  have hnone : ∀ p, (s.ctrl p).state ≠ .waitCriticalWord := by
    intro p hp
    exact absurd (hi.symm.trans (h.critical.waiting p hp).2.2.1) (by decide)
  rw [watchRefill, if_pos ha]
  constructor
  · intro p hs
    rcases CacheCtrl.step_waitCriticalWord hs with ⟨hq, hg, hw, -, hd⟩ | ⟨hq, -⟩
    · obtain ⟨-, hm, haddr, hoff, hcnt, hwe, hu, hst⟩ := waiting_of_granted h hq hg hw hd
      obtain ⟨har, hlen, hcu⟩ := ar_of_request (c := c) (i := i) hi hst
      rw [hm]
      exact ⟨haddr, hoff, _, rfl, rfl, by simp [Refill.load, hwe, hu], rfl, har, hlen, hcu, by simp [hcnt]⟩
    · exact absurd hq (hnone p)
  · rintro _ ⟨⟩ hcu
    by_contra hl
    simp only [Refill.load, Bool.not_eq_false, Bool.and_eq_true, Bool.not_eq_true'] at hl
    have hn := (ar_of_request (c := c) (i := i) hi (request_of_load h.basic.mshr hl.2 hreq)).2.2
    exact absurd (hcu.symm.trans hn) (by decide)
  · rintro _ ⟨⟩ -
    rfl
  · rintro _ ⟨⟩ hl
    simp only [Refill.load, Bool.and_eq_true, Bool.not_eq_true'] at hl
    have hst := request_of_load h.basic.mshr hl.2 hreq
    have hf : s.miss.refilling = true := by
      rcases hst with hst | hst <;> simp [MissHandler.refilling, hst]
    obtain ⟨hq, -⟩ := h.basic.mshr.refilling hf hl.2
    have hv : s.miss.mshr.valid = true := by
      rw [h.basic.mshr.miss.occupied]
      rcases hst with hst | hst <;> simp [MissHandler.occupied, hst]
    have hgnt := (arAccepted_of_gnt h.adapter hst).symm.trans ha
    have hg : (s.ctrlIn c i s.miss.mshr.id).missGnt = true := by
      rcases hst with hst | hst <;> simp [ctrlIn, MissHandler.missGnt, hst, hgnt, hl.2]
    have hserve : (s.ctrlIn c i s.miss.mshr.id).activeServing = true := by
      simp [ctrlIn, MissHandler.activeServing, hv]
    exact .inr ⟨rfl, CacheCtrl.step_granted hq hg ((h.we hf hl.2).trans hl.1) hserve⟩

/-- Without a new address, a load waits until the beat of its word. -/
theorem refillInv_step_beat (h : s.CriticalRun g) (ha : arAccepted c s i = false) :
    (s.step c i).RefillInv (watchRefill c g s i) := by
  simp only [watchRefill, ha, Bool.false_eq_true, if_false]
  constructor
  · intro p hs
    rcases CacheCtrl.step_waitCriticalWord hs with ⟨hq, hg, hw, -, hd⟩ | ⟨hq, hcw, hd⟩
    · exact absurd ((waiting_of_granted h hq hg hw hd).1.symm.trans ha) (by decide)
    · obtain ⟨haddr, hoff, f, hf, hmshr, hload, htaken, har, hlen, hcu, hcnt⟩ := h.refill.waiting p hq
      obtain ⟨hst, -, hx, -⟩ := h.critical.waiting p hq
      have hm := step_mshr_of_read hst hx (c := c) (i := i)
      have hcw' : s.axi.criticalWordValid i.axiData = false := hcw
      have hsame : ((s.step c i).ctrl p).memReq.addr = (s.ctrl p).memReq.addr := hd.2.1
      have hword : wordIndex ((s.step c i).ctrl p) = wordIndex (s.ctrl p) := by rw [wordIndex, wordIndex, hsame]
      obtain ⟨hoff', hcnt'⟩ := step_cnt_of_read (c := c) (i := i) h.critical hq hcw'
      refine ⟨by rw [hm, haddr, hsame], by rw [hoff', hoff, hword], _, Option.mem_map_of_mem _ hf, ?_⟩
      rw [hm]
      refine ⟨hmshr, hload, ?_, har, hlen, hcu, ?_⟩
      · show f.taken + _ = 0
        rw [htaken, countP_takesWord h.critical hq, hcw']
        rfl
      · show f.beats + (rAccepted c s i).toNat + (s.step c i).axi.cnt = 1
        have hr : rAccepted c s i = i.axiData.rValid := by simp [rAccepted, refillBus, AxiAdapter.axiReq, hx]
        rw [hr]
        omega
  · intro f hf hcu
    obtain ⟨f₀, hf₀, rfl⟩ := Option.mem_map.mp hf
    exact h.refill.clean f₀ hf₀ hcu
  · intro f hf hl
    obtain ⟨f₀, hf₀, rfl⟩ := Option.mem_map.mp hf
    have hnone : ∀ p, (s.ctrl p).state ≠ .waitCriticalWord := by
      intro p hp
      obtain ⟨-, -, f₁, hf₁, -, hload, -⟩ := h.refill.waiting p hp
      obtain rfl := Option.mem_unique hf₀ hf₁
      exact absurd (hload.symm.trans hl) (by decide)
    show f₀.taken + _ = 0
    rw [h.refill.store f₀ hf₀ hl, countP_takesWord_none hnone]
  · intro f hf hl
    obtain ⟨f₀, hf₀, rfl⟩ := Option.mem_map.mp hf
    rcases h.refill.load f₀ hf₀ hl with ht | ⟨ht, hw⟩
    · have hnone : ∀ p, (s.ctrl p).state ≠ .waitCriticalWord := by
        intro p hp
        obtain ⟨-, -, f₁, hf₁, -, -, htaken, -⟩ := h.refill.waiting p hp
        obtain rfl := Option.mem_unique hf₀ hf₁
        omega
      refine .inl ?_
      show f₀.taken + _ = 1
      rw [ht, countP_takesWord_none hnone]
    · have hcount := countP_takesWord (i := i) h.critical hw
      cases hcw : s.axi.criticalWordValid i.axiData
      · refine .inr ⟨?_, CacheCtrl.step_of_waitCriticalWord hw hcw⟩
        show f₀.taken + _ = 0
        rw [ht, hcount, hcw]
        rfl
      · refine .inl ?_
        show f₀.taken + _ = 1
        rw [ht, hcount, hcw]
        rfl

theorem criticalRun_step (h : s.CriticalRun g) (hok : refillBeats s i = true) :
    (s.step c i).CriticalRun (watchRefill c g s i) where
  basic := ⟨lookups_step h.basic.lookups, mshrInv_step h.basic.mshr⟩
  adapter := ⟨AxiAdapter.step_amo h.adapter.amo (MissHandler.axiReq_amo c s.miss), adapterFits_step h.adapter⟩
  critical := ⟨offset_step h.critical, waiting_critical_step h.basic h.adapter h.critical hok⟩
  we := weInv_step h.basic.mshr h.we
  refill := by
    cases ha : arAccepted c s i
    · exact refillInv_step_beat h ha
    · exact refillInv_step_accepted h ha

theorem criticalRun_init (h : s.IsReset) : s.CriticalRun none where
  basic := basic_init h
  adapter := adapterInv_init h
  critical := by constructor <;> simp [h.axi, h.ctrl, AxiAdapter.reset, CacheCtrl.reset]
  we := by simp [WeInv, h.miss, MissHandler.reset, MissHandler.refilling]
  refill := by constructor <;> simp [h.ctrl, CacheCtrl.reset]

theorem criticalRun_reachable {x : Nbdcache × Option Refill}
    (h : (refillWatched c).Reachable (fun x i => refillBeats x.1 i = true) x) : x.1.CriticalRun x.2 :=
  Machine.Reachable.invariant (P := fun x : Nbdcache × Option Refill => x.1.CriticalRun x.2)
    (fun x h0 => by rw [h0.2]; exact criticalRun_init h0.1) (fun _ _ hm hok => criticalRun_step hm hok) h

/-- The beat that is taken is the one of the word asked for. -/
theorem beats_of_takesWord (h : s.CriticalRun g) {p : Fin 3} (ht : takesWord s i p = true) :
    ∃ f ∈ g, f.mshr = s.miss.mshr ∧ f.load = true ∧ f.taken = 0 ∧
      f.ar.addr = (s.ctrl p).memReq.addr.align ∧ f.beats = wordIndex (s.ctrl p) ∧ rAccepted c s i = true := by
  simp only [takesWord, Bool.and_eq_true, beq_iff_eq] at ht
  obtain ⟨hq, hcw⟩ := ht
  obtain ⟨haddr, hoff, f, hf, hm, hload, htaken, har, -, -, hcnt⟩ := h.refill.waiting p hq
  obtain ⟨-, -, hx, hc⟩ := h.critical.waiting p hq
  simp only [AxiAdapter.criticalWordValid, AxiAdapter.index, AxiAdapter.cntMod_one, Bool.and_eq_true, beq_iff_eq] at hcw
  refine ⟨f, hf, hm, hload, htaken, haddr ▸ har, ?_, by simp [rAccepted, refillBus, AxiAdapter.axiReq, hx, hcw.1.2]⟩
  have hindex := hcw.2
  rcases hc with hc | ⟨hc, -⟩ <;> rw [hc] at hindex <;> omega

/-- The critical word goes to the load whose line is read, once, and to nobody else. -/
theorem critical_word {x : Nbdcache × Option Refill}
    (h : (refillWatched c).Reachable (fun x i => refillBeats x.1 i = true) x) (i : CacheIn) :
    (∀ p p', (x.1.ctrl p).state = .waitCriticalWord → (x.1.ctrl p').state = .waitCriticalWord → p = p') ∧
    (∀ p, (x.1.ctrl p).state = .waitCriticalWord →
      x.1.miss.mshr.valid = true ∧ x.1.miss.mshr.id = p ∧ x.1.miss.mshr.addr = (x.1.ctrl p).memReq.addr ∧
      ∃ f ∈ x.2, f.mshr = x.1.miss.mshr ∧ f.load = true ∧ f.taken = 0 ∧ f.ar.len = 1 ∧ f.beats < 2 ∧
        f.ar.addr = (x.1.ctrl p).memReq.addr.align ∧ isCleanUnique f.ar = false) ∧
    (∀ p, takesWord x.1 i p = true →
      (x.1.reqPortO c i p).dataRdata = i.axiData.rData ∧
      (x.1.reqPortO c i p).dataRvalid = (!(x.1.ctrl p).memReq.killed || (i.reqPorts p).killReq) ∧
      ∃ f ∈ x.2, f.mshr = x.1.miss.mshr ∧ f.load = true ∧ f.taken = 0 ∧ rAccepted c x.1 i = true ∧
        f.ar.addr = (x.1.ctrl p).memReq.addr.align ∧ f.beats = wordIndex (x.1.ctrl p)) ∧
    (∀ f ∈ x.2, (f.load = false ∨ isCleanUnique f.ar = true → f.taken = 0) ∧ f.taken ≤ 1 ∧
      (f.load = true → f.taken = 1 ∨ (x.1.ctrl f.mshr.id).state = .waitCriticalWord)) ∧
    (∀ p w v, (x.1.ctrl p).state ≠ .waitCriticalWord →
      let j := { x.1.ctrlIn c i p with criticalWord := w, criticalWordValid := v }
      (x.1.ctrl p).step c j (x.1.ctrlGnt c i p) = (x.1.step c i).ctrl p ∧
        (x.1.ctrl p).reqPortO j (x.1.ctrlGnt c i p) = x.1.reqPortO c i p ∧
          (x.1.ctrl p).port j = x.1.ctrlPort c i p) := by
  have hinv := criticalRun_reachable h
  refine ⟨fun p p' hp hp' => ?_, fun p hp => ?_, fun p ht => ?_, fun f hf => ⟨fun hl => ?_, ?_, ?_⟩,
    fun p w v hp => ?_⟩
  · exact (hinv.critical.waiting p hp).2.1.symm.trans (hinv.critical.waiting p' hp').2.1
  · obtain ⟨hst, hid, -⟩ := hinv.critical.waiting p hp
    obtain ⟨haddr, -, f, hf, hm, hload, htaken, har, hlen, hcu, hcnt⟩ := hinv.refill.waiting p hp
    have hv : x.1.miss.mshr.valid = true := by
      rw [hinv.basic.mshr.miss.occupied]
      simp [MissHandler.occupied, hst]
    exact ⟨hv, hid, haddr, f, hf, hm, hload, htaken, hlen, by omega, haddr ▸ har, hcu⟩
  · obtain ⟨f, hf, hm, hload, htaken, har, hbeats, hr⟩ := beats_of_takesWord (c := c) hinv ht
    simp only [takesWord, Bool.and_eq_true, beq_iff_eq] at ht
    refine ⟨?_, ?_, f, hf, hm, hload, htaken, hr, har, hbeats⟩
    · simp [reqPortO, CacheCtrl.reqPortO, CacheCtrl.dataRdata, ht, ctrlIn]
    · simp [reqPortO, CacheCtrl.reqPortO, CacheCtrl.loadRvalid, ht, ctrlIn]
  · exact hinv.refill.store f hf (hl.elim id (hinv.refill.clean f hf))
  · cases hl : f.load
    · simp [hinv.refill.store f hf hl]
    · rcases hinv.refill.load f hf hl with ht | ⟨ht, -⟩ <;> omega
  · exact fun hl => (hinv.refill.load f hf hl).imp_right And.right
  · exact CacheCtrl.ignores_criticalWord hp w v

section Runs
open Stimuli

/-- A load that misses, up to the second beat of its refill. -/
def afterFirstBeat : Nbdcache × Option Refill :=
  (refillWatched cfg).run (initial, none) [quiet,
    onPort 1 { DcacheReqI.none with addressIndex := 1, addressOffset := 8, dataReq := true },
    tag 1 3, quiet, quiet, quiet, bus arReady, bus (beat false false)]

set_option maxRecDepth 10000 in
theorem critical_word_second_beat :
    takesWord afterFirstBeat.1 (bus (beat true false)) 1 = true ∧
      ∃ f ∈ afterFirstBeat.2, f.taken = 0 ∧ f.beats = wordIndex (afterFirstBeat.1.ctrl 1) := by
  have hreset : (refillWatched cfg).Reachable (fun x i => refillBeats x.1 i = true) (initial, none) :=
    .init ⟨initial_isReset, rfl⟩
  have hr : (refillWatched cfg).Reachable (fun x i => refillBeats x.1 i = true) afterFirstBeat :=
    hreset.run (by decide +kernel)
  have ht : takesWord afterFirstBeat.1 (bus (beat true false)) 1 = true := by decide +kernel
  obtain ⟨-, -, f, hf, -, -, htaken, -, -, hbeats⟩ := (critical_word hr (bus (beat true false))).2.2.1 1 ht
  exact ⟨ht, f, hf, htaken, hbeats⟩

end Runs
end Nbdcache
end Culsans.Dcache
