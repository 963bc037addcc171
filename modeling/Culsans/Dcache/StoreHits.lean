import Culsans.Dcache.SnoopStatus

/-! # Store hits land in their line

The way of a store is fixed in its lookup and used any number of cycles later. The
line is still there when the store is written, in every run without the four
interleavings that the controllers do not detect.
-/

namespace Culsans.Dcache.Nbdcache
open Library TagCmp

variable {c : Cfg} {s : Nbdcache} {i : CacheIn}

/-- The way holds the line of the address. -/
def Holds (s : Nbdcache) (a : PAddr) (w : Way) : Prop :=
  (s.arr a.index w).valid = true ∧ (s.arr a.index w).tag = a.tag

/-- CHECK_BEFORE_CLEAN finds the line of a waiting store, but not in all of its ways. -/
def matchesOtherWay (c : Cfg) (s : Nbdcache) (i : CacheIn) : Bool :=
  s.miss.state == .checkBeforeClean && anyWay (s.miss.matchingWay (s.missIn c i)) &&
    anyWay fun w => (s.ctrl s.miss.mshr.id).hitWay w && !s.miss.matchingWay (s.missIn c i) w

/-- A snoop invalidates the line in the very cycle in which its upgrade completes. -/
def invalidatesCleaned (c : Cfg) (s : Nbdcache) (i : CacheIn) : Bool :=
  s.miss.state == .sendClean && (s.missAxi c i).valid && !s.miss.collidingClean &&
    s.snoop.invalidate && s.snoop.memReq.sameLine s.miss.mshr.addr

/-- A flush or an atomic drops a way in which a store of some port has hit. -/
def dropsStored (c : Cfg) (s : Nbdcache) (i : CacheIn) : Bool :=
  !(s.miss.state == .wbCachelineMiss) &&
    match s.miss.cleared (s.missIn c i) with
    | some (idx, ways) => (List.finRange 3).any fun p => (s.ctrl p).memReq.index == idx &&
        anyWay fun w => ways w &&
          (((s.ctrl p).state == .storeReq && (s.ctrl p).hitWay w) ||
            ((s.ctrl p).lookingUp && (s.ctrl p).memReq.we && (s.ctrl p).tagOk (i.reqPorts p) &&
              s.hitWay i w && anyWay fun v => !s.sharedWay v && s.hitWay i v))
    | none => false

/-- The interleavings that let a store lose its line. -/
def storeHazard (c : Cfg) (s : Nbdcache) (i : CacheIn) : Bool :=
  overwritesSnooped c s i || matchesOtherWay c s i || invalidatesCleaned c s i || dropsStored c s i

/-- Stores that may write hold their line. -/
structure StoreInv (s : Nbdcache) : Prop where
  owns : s.SnoopOwns
  hits : ∀ p, (s.ctrl p).state = .makeUnique ∨ (s.ctrl p).state = .storeReq →
    anyWay (s.ctrl p).hitWay = true
  store : ∀ p, (s.ctrl p).state = .storeReq → (s.ctrl p).collidingClean = false →
    ∀ w, (s.ctrl p).hitWay w = true → s.Holds (s.ctrl p).memReq.addr w
  clean : s.miss.state = .sendClean → s.miss.collidingClean = false →
    ∀ w, (s.ctrl s.miss.mshr.id).hitWay w = true → s.Holds s.miss.mshr.addr w

theorem hits_step (h : s.StoreInv) (p : Fin 3)
    (hs : ((s.step c i).ctrl p).state = .makeUnique ∨ ((s.step c i).ctrl p).state = .storeReq) :
    anyWay ((s.step c i).ctrl p).hitWay = true := by
  have hsame : ∀ q d : CacheCtrl, q.SameRequest d → anyWay q.hitWay = true → anyWay d.hitWay = true :=
    fun q d hq => hq.1 ▸ id
  rcases hs with hs | hs
  · rcases CacheCtrl.step_makeUnique hs with hh | ⟨hq, -, hd, -⟩ | ⟨hq, -, -, hd⟩
    · exact (congrArg anyWay hh.hitWay).trans hh.hit
    · exact hsame _ _ hd (h.hits p (.inl hq))
    · exact hsame _ _ hd (h.hits p (.inr hq))
  · rcases CacheCtrl.step_storeReq hs with hh | ⟨hq, -, -, hd, -⟩ | ⟨hq, -, -, hd, -⟩
    · exact (congrArg anyWay hh.hitWay).trans hh.hit
    · exact hsame _ _ hd (h.hits p (.inl hq))
    · exact hsame _ _ hd (h.hits p (.inr hq))

/-- A line that is held stays held, unless it is replaced, cleared or invalidated. -/
theorem holds_step {a : PAddr} {w : Way} (h : s.Holds a w)
    (hsave : s.miss.saves (s.missIn c i) = true → a.index = s.miss.mshr.addr.index → s.miss.evictWay w = false)
    (hclear : ∀ ways, s.miss.cleared (s.missIn c i) = some (a.index, ways) → ways w = false)
    (hinv : s.snoop.state = .invalidate → s.snoopGnt c i = true → a.index = s.snoop.memReq.index →
      s.snoop.hitWay w = false) : (s.step c i).Holds a w := by
  unfold Holds at h ⊢
  have he := step_line c s i a.index w
  generalize (s.step c i).arr a.index w = l at he
  cases he with
  | keep => exact h
  | save hs hi hw => simp [hsave hs hi] at hw
  | clear ways hs hw => simp [hclear ways hs] at hw
  | share => exact h
  | invalidate hs hg hi hw => simp [hinv hs hg hi] at hw
  | store p hs hi hw => exact ⟨rfl, h.2⟩

theorem mshr_valid_of_saves (hm : s.MshrInv) (h : s.miss.saves (s.missIn c i) = true) :
    s.miss.mshr.valid = true := by
  rw [hm.miss.occupied]
  grind [MissHandler.saves, MissHandler.occupied]

/-- Where the MSHR does not match the set, the miss path leaves the set alone. -/
theorem set_kept (hm : s.MshrInv) {a : PAddr} (hf : s.miss.mshrIndexMatches a = false) :
    (s.miss.saves (s.missIn c i) = true → a.index ≠ s.miss.mshr.addr.index) ∧
      ∀ ways, s.miss.cleared (s.missIn c i) = some (a.index, ways) → s.miss.state ≠ .wbCachelineMiss := by
  constructor
  · intro hs hi
    simp [MissHandler.mshrIndexMatches, mshr_valid_of_saves hm hs, hi] at hf
  · intro ways hc hs
    have hv : s.miss.mshr.valid = true := by
      rw [hm.miss.occupied]
      simp [MissHandler.occupied, hs]
    have hi : s.miss.mshr.addr.index = a.index := by
      rw [← hm.miss.evictIndex hs]
      simp only [MissHandler.cleared, hs] at hc
      grind
    simp [MissHandler.mshrIndexMatches, hv, hi] at hf

/-- A snoop that invalidates a held way is a snoop of the held line. -/
theorem sameLine_of_invalidate (ho : s.SnoopOwns) {a : PAddr} {w : Way} (h : s.Holds a w)
    (hs : s.snoop.state = .invalidate) (hi : a.index = s.snoop.memReq.index)
    (hw : s.snoop.hitWay w = true) : s.snoop.memReq.sameLine a = true := by
  have ht := ho (by simp [SnoopCtrl.writing, hs]) w hw
  rw [PAddr.sameLine_iff]
  rw [← hi, h.2] at ht
  exact ⟨ht.symm, hi.symm⟩

/-- The hit of a lookup names ways that hold the looked-up line. -/
theorem holds_of_lookup (hl : s.Lookups) {p : Fin 3} (hp : (s.ctrl p).lookingUp = true) {w : Way} :
    s.hitWay i w = true ↔
      s.Holds ⟨(s.ctrl p).tagO (i.reqPorts p), (s.ctrl p).memReq.index, (s.ctrl p).memReq.offset⟩ w := by
  obtain ⟨hid, hr, -⟩ := hl.ctrl p hp
  have ht : s.selTag i = (s.ctrl p).tagO (i.reqPorts p) := by
    rw [selTag, hid]
    fin_cases p <;> rfl
  rw [hitWay, hitWay_iff, ht, hr, Holds, and_comm]

/-- The MSHR is asked about the looked-up line. -/
theorem mshrAddr_of_lookup {q : CacheCtrl} {r : DcacheReqI} (hl : q.lookingUp = true)
    (ht : q.tagOk r = true) : q.mshrAddr r = ⟨q.tagO r, q.memReq.index, q.memReq.offset⟩ := by
  simp only [CacheCtrl.lookingUp, Bool.or_eq_true, beq_iff_eq] at hl
  rcases hl with hl | hl <;> simp [CacheCtrl.mshrAddr, hl, ht]

/-- Without a dropped store, the status of its way is not cleared under it. -/
theorem not_dropped (hok : dropsStored c s i = false) (hs : s.miss.state ≠ .wbCachelineMiss)
    {ways : WaySet} {p : Fin 3} {w : Way}
    (hc : s.miss.cleared (s.missIn c i) = some ((s.ctrl p).memReq.index, ways))
    (hp : ((s.ctrl p).state = .storeReq ∧ (s.ctrl p).hitWay w = true) ∨
      ((s.ctrl p).lookingUp = true ∧ (s.ctrl p).memReq.we = true ∧
        (s.ctrl p).tagOk (i.reqPorts p) = true ∧ s.hitWay i w = true ∧
        anyWay (fun v => !s.sharedWay v && s.hitWay i v) = true)) : ways w = false := by
  by_contra hw
  have hd : dropsStored c s i = true := by
    simp only [dropsStored, hc, Bool.and_eq_true, List.any_eq_true, anyWay_iff, Bool.or_eq_true]
    refine ⟨by simp [hs], p, List.mem_finRange p, by simp, w, by simpa using hw, ?_⟩
    rcases hp with ⟨h1, h2⟩ | ⟨h1, h2, h3, h4, h5⟩
    · exact .inl ⟨by simp [h1], h2⟩
    · exact .inr ⟨⟨⟨⟨h1, h2⟩, h3⟩, h4⟩, by simpa only [anyWay_iff, Bool.and_eq_true] using h5⟩
  simp [hd] at hok

/-- A store that hits in its lookup holds its line in the next cycle. -/
theorem store_step_hit (hb : s.Basic) (hok : dropsStored c s i = false) {p : Fin 3}
    (hs : ((s.step c i).ctrl p).state = .storeReq)
    (hh : CacheCtrl.StoreHit c (s.ctrl p) (s.ctrlIn c i p) ((s.step c i).ctrl p)) {w : Way}
    (hw : ((s.step c i).ctrl p).hitWay w = true) :
    (s.step c i).Holds ((s.step c i).ctrl p).memReq.addr w := by
  have hhit : s.hitWay i w = true := (congrFun hh.hitWay w).symm.trans hw
  have hold := (holds_of_lookup hb.lookups hh.looking).mp hhit
  have hidx : s.miss.mshrIndexMatches
      ⟨(s.ctrl p).tagO (i.reqPorts p), (s.ctrl p).memReq.index, (s.ctrl p).memReq.offset⟩ = false := by
    have ht : (s.ctrl p).tagOk (i.reqPorts p) = true := hh.tagOk
    rw [← mshrAddr_of_lookup hh.looking ht]
    exact hh.index
  obtain ⟨hsave, hclear⟩ := set_kept (c := c) (i := i) hb.mshr hidx
  rw [hh.memReq]
  refine holds_step hold (fun h1 h2 => absurd h2 (hsave h1)) (fun ways hc => ?_) fun hs => ?_
  · exact not_dropped hok (hclear ways hc) hc
      (.inr ⟨hh.looking, hh.we, hh.tagOk, hhit, hh.unshared hs⟩)
  · have hf := (hb.lookups.ctrl p hh.looking).2.2
    simp [SnoopCtrl.inFlight, hs] at hf

/-- A store leaves MAKE_UNIQUE for STORE_REQ when its own upgrade completes. -/
theorem upgraded_of_missGnt (hb : s.Basic) {p : Fin 3} (hq : (s.ctrl p).state = .makeUnique)
    (hg : (s.ctrlIn c i p).missGnt = true) (hd : (s.ctrlIn c i p).missWriteDone = false) :
    s.miss.state = .sendClean ∧ (s.missAxi c i).valid = true ∧ s.miss.collidingClean = false ∧
      s.miss.mshr.id = p ∧ s.miss.mshr.makeUnique = true ∧ (s.ctrl p).memReq.addr = s.miss.mshr.addr := by
  obtain ⟨hid, ⟨hs, hx, hn⟩ | ⟨hs, hx, hc, hu⟩ | ⟨hs, hx, hc⟩⟩ := MissHandler.missGnt_cases hg
  · have hr : s.miss.refilling = true := by grind [MissHandler.refilling]
    have hst := (hb.mshr.refilling hr hn).1
    rw [hid, hq] at hst
    exact absurd hst (by decide)
  · simp [ctrlIn, MissHandler.missWriteDone, hs, hx, hc, hu] at hd
  · have hv : s.miss.mshr.valid = true := by
      rw [hb.mshr.miss.occupied]
      simp [MissHandler.occupied, hs]
    have hu := hb.mshr.miss.cleaning (by simp [MissHandler.cleaning, hs])
    exact ⟨hs, hx, hc, hid, hu, hid ▸ (hb.mshr.makeUnique hv hu).2⟩

/-- An answered upgrade hands the store its line. -/
theorem store_step_cleaned (hb : s.Basic) (h : s.StoreInv) (hok : invalidatesCleaned c s i = false)
    {p : Fin 3} (hq : (s.ctrl p).state = .makeUnique) (hg : (s.ctrlIn c i p).missGnt = true)
    (hd : (s.ctrlIn c i p).missWriteDone = false)
    (hsame : (s.ctrl p).SameRequest ((s.step c i).ctrl p)) {w : Way}
    (hw : ((s.step c i).ctrl p).hitWay w = true) :
    (s.step c i).Holds ((s.step c i).ctrl p).memReq.addr w := by
  obtain ⟨hs, hx, hc, hid, -, haddr⟩ := upgraded_of_missGnt hb hq hg hd
  rw [hsame.1] at hw
  have hold := h.clean hs hc w (hid ▸ hw)
  rw [hsame.2.1, haddr]
  refine holds_step hold (fun h1 => ?_) (fun ways h1 => ?_) fun h1 h2 h3 => ?_
  · simp [MissHandler.saves, hs] at h1
  · simp [MissHandler.cleared, hs] at h1
  · by_contra hh
    have hl := sameLine_of_invalidate h.owns hold h1 h3 (by simpa using hh)
    simp [invalidatesCleaned, hs, hx, hc, SnoopCtrl.invalidate, h1, hl] at hok

/-- A store that waits for the array keeps its line or learns that it lost it. -/
theorem store_step_wait (hb : s.Basic) (h : s.StoreInv) (hok : dropsStored c s i = false) {p : Fin 3}
    (hq : (s.ctrl p).state = .storeReq) (hi : (s.ctrlIn c i p).mshrIndexMatches = false)
    (hc : (s.ctrl p).detectClean (s.ctrlIn c i p) = false)
    (hsame : (s.ctrl p).SameRequest ((s.step c i).ctrl p)) {w : Way}
    (hw : ((s.step c i).ctrl p).hitWay w = true) :
    (s.step c i).Holds ((s.step c i).ctrl p).memReq.addr w := by
  rw [hsame.1] at hw
  have hcc : (s.ctrl p).collidingClean = false := by grind [CacheCtrl.detectClean]
  have hold := h.store p hq hcc w hw
  have hidx : s.miss.mshrIndexMatches (s.ctrl p).memReq.addr = false := by
    simpa [ctrlIn, CacheCtrl.mshrAddr, hq] using hi
  obtain ⟨hsave, hclear⟩ := set_kept (c := c) (i := i) hb.mshr hidx
  rw [hsame.2.1]
  refine holds_step hold (fun h1 h2 => absurd h2 (hsave h1)) (fun ways h1 => ?_) fun h1 h2 h3 => ?_
  · exact not_dropped hok (hclear ways h1) h1 (.inl ⟨hq, hw⟩)
  · by_contra hh
    have hl := sameLine_of_invalidate h.owns hold h1 h3 (by simpa using hh)
    simp [CacheCtrl.detectClean, CacheCtrl.matchesLine, ctrlIn, SnoopCtrl.invalidate, h1, hl, hcc] at hc

theorem store_step (hb : s.Basic) (h : s.StoreInv) (hok : storeHazard c s i = false) (p : Fin 3)
    (hs : ((s.step c i).ctrl p).state = .storeReq) (hc : ((s.step c i).ctrl p).collidingClean = false)
    (w : Way) (hw : ((s.step c i).ctrl p).hitWay w = true) :
    (s.step c i).Holds ((s.step c i).ctrl p).memReq.addr w := by
  simp only [storeHazard, Bool.or_eq_false_iff] at hok
  rcases CacheCtrl.step_storeReq hs with hh | ⟨hq, hg, hd, hsame, -⟩ | ⟨hq, hi, -, hsame, -, hd⟩
  · exact store_step_hit hb hok.2 hs hh hw
  · exact store_step_cleaned hb h hok.1.2 hq hg hd hsame hw
  · exact store_step_wait hb h hok.2 hq hi (hd.symm.trans hc) hsame hw

/-- The requester of an upgrade keeps its ways while the upgrade is under way. -/
theorem hitWay_step_of_cleaning (hb : s.Basic) (hq : s.miss.mshr.valid = true)
    (hu : s.miss.mshr.makeUnique = true) (hv : (s.step c i).miss.mshr.valid = true) :
    ((s.step c i).ctrl s.miss.mshr.id).hitWay = (s.ctrl s.miss.mshr.id).hitWay := by
  have hg : s.miss.missGnt (s.missIn c i) s.miss.mshr.id = false :=
    MissHandler.missGnt_of_step hv hu s.miss.mshr.id
  have hk : ((s.step c i).ctrl s.miss.mshr.id).state = .makeUnique ∧
      (s.ctrl s.miss.mshr.id).SameRequest ((s.step c i).ctrl s.miss.mshr.id) :=
    CacheCtrl.step_of_makeUnique (hb.mshr.makeUnique hq hu).1 hg
  exact hk.2.1

/-- An undetected invalidation is not one of the line in the MSHR. -/
theorem not_invalidated (ho : s.SnoopOwns) (hq : s.miss.mshr.valid = true)
    (hu : s.miss.mshr.makeUnique = true) (hc : s.miss.collidingClean = false)
    (hd : s.miss.detectClean (s.missIn c i) = false) {w : Way} (h : s.Holds s.miss.mshr.addr w)
    (hs : s.snoop.state = .invalidate) (hi : s.miss.mshr.addr.index = s.snoop.memReq.index) :
    s.snoop.hitWay w = false := by
  by_contra hh
  have hl := sameLine_of_invalidate ho h hs hi (by simpa using hh)
  simp [MissHandler.detectClean, missIn, SnoopCtrl.invalidate, hs, hq, hu, hc, hl] at hd

theorem clean_step (hb : s.Basic) (h : s.StoreInv) (hok : matchesOtherWay c s i = false)
    (hs : (s.step c i).miss.state = .sendClean) (hc : (s.step c i).miss.collidingClean = false)
    (w : Way) (hw : ((s.step c i).ctrl (s.step c i).miss.mshr.id).hitWay w = true) :
    (s.step c i).Holds (s.step c i).miss.mshr.addr w := by
  have hv : (s.step c i).miss.mshr.valid = true := by
    rw [(mshrInv_step hb.mshr).miss.occupied]
    simp [MissHandler.occupied, hs]
  obtain ⟨hst, hcd, hmshr⟩ : _ ∧ _ ∧ (s.step c i).miss.mshr = s.miss.mshr := MissHandler.step_sendClean hs
  have hd : s.miss.detectClean (s.missIn c i) = false := hcd.symm.trans hc
  have hcl : s.miss.cleaning = true := by grind [MissHandler.cleaning]
  have hq : s.miss.mshr.valid = true := by rw [← hmshr]; exact hv
  have hu := hb.mshr.miss.cleaning hcl
  have hcc : s.miss.collidingClean = false := by grind [MissHandler.detectClean]
  rw [hmshr] at hw ⊢
  rw [hitWay_step_of_cleaning hb hq hu hv] at hw
  have hold : s.Holds s.miss.mshr.addr w := by
    rcases hst with ⟨hst, hany⟩ | hst
    · have hmatch : s.miss.matchingWay (s.missIn c i) w = true := by
        by_contra hn
        have : matchesOtherWay c s i = true := by
          simp only [matchesOtherWay, hst, hany, Bool.and_eq_true, anyWay_iff]
          exact ⟨⟨by decide, trivial⟩, w, hw, by simpa using hn⟩
        simp [this] at hok
      have hr := hb.lookups.miss (.inr hst) w
      simp only [MissHandler.matchingWay, missIn, hr, Bool.and_eq_true, beq_iff_eq] at hmatch
      exact hmatch
    · exact h.clean hst hcc w hw
  refine holds_step hold (fun h1 => ?_) (fun ways h1 => ?_) fun h1 _ h3 =>
    not_invalidated h.owns hq hu hcc hd hold h1 h3
  · grind [MissHandler.saves]
  · grind [MissHandler.cleared]

theorem storeInv_step (hb : s.Basic) (h : s.StoreInv) (hok : storeHazard c s i = false) :
    (s.step c i).StoreInv where
  owns := by
    simp only [storeHazard, Bool.or_eq_false_iff] at hok
    exact snoopOwns_step hb.lookups h.owns hok.1.1.1
  hits := hits_step h
  store := store_step hb h hok
  clean := by
    simp only [storeHazard, Bool.or_eq_false_iff] at hok
    exact clean_step hb h hok.1.1.2

theorem storeInv_init (h : s.IsReset) : s.StoreInv where
  owns hw := by simp [h.snoop, SnoopCtrl.reset, SnoopCtrl.writing] at hw
  hits p hp := by simp [h.ctrl, CacheCtrl.reset] at hp
  store p hp := by simp [h.ctrl, CacheCtrl.reset] at hp
  clean hm := by simp [h.miss, MissHandler.reset] at hm

theorem storeInv_reachable (h : (machine c).Reachable (fun s i => storeHazard c s i = false) s) :
    s.StoreInv :=
  Machine.Reachable.invariant_of (P := Basic) (Q := StoreInv) (fun _ => basic_reachable)
    (fun _ => storeInv_init) (fun _ _ => storeInv_step) h

/-- Every store hit is written to ways that hold its line. -/
theorem store_hit_own_line (h : (machine c).Reachable (fun s i => storeHazard c s i = false) s)
    (i : CacheIn) (p : Fin 3) (hs : s.storeGranted c i p = true) :
    (∃ w, (s.ctrl p).hitWay w = true) ∧ ∀ w, (s.ctrl p).hitWay w = true →
      (s.arr (s.ctrl p).memReq.index w).valid = true ∧
      (s.arr (s.ctrl p).memReq.index w).tag = (s.ctrl p).memReq.tag := by
  have hinv := storeInv_reachable h
  simp only [storeGranted, CacheCtrl.storing, Bool.and_eq_true, beq_iff_eq] at hs
  have hst : (s.ctrl p).state = .storeReq := hs.1.1.1.1
  refine ⟨anyWay_iff.mp (hinv.hits p (.inr hst)), fun w hw => ?_⟩
  exact hinv.store p hst (by simpa using hs.1.1.2) w hw

section Runs
open Stimuli

/-- A line is loaded and then stored to. -/
def loadThenStore : List CacheIn :=
  quiet :: loadMiss 1 2 1 false ++ [Stimuli.store 2 1, Stimuli.store 2 1]

set_option maxRecDepth 10000 in
theorem store_hit_own_line_run :
    let s := (machine cfg).run initial loadThenStore
    s.storeGranted cfg quiet 2 = true ∧ (s.ctrl 2).hitWay 0 = true ∧ (s.arr 1 0).tag = 2 := by
  have hr : (machine cfg).Reachable (fun s i => storeHazard cfg s i = false)
      ((machine cfg).run initial loadThenStore) :=
    .run (.init initial_isReset) (by decide +kernel)
  have hs : ((machine cfg).run initial loadThenStore).storeGranted cfg quiet 2 = true ∧
      (((machine cfg).run initial loadThenStore).ctrl 2).hitWay 0 = true ∧
      (((machine cfg).run initial loadThenStore).ctrl 2).memReq.index = 1 ∧
      (((machine cfg).run initial loadThenStore).ctrl 2).memReq.tag = 2 := by decide +kernel
  obtain ⟨hg, hh, hi, ht⟩ := hs
  have hold := (store_hit_own_line hr quiet 2 hg).2 0 hh
  rw [hi, ht] at hold
  exact ⟨hg, hh, hold.2⟩

/-- Way 0 is free and way 1 holds a shared line. While a store to that line waits for the miss
handler, the line is invalidated and brought back into way 0 by a load; the check before the
upgrade then finds it there. -/
def refetchedElsewhere : List CacheIn :=
  quiet :: loadMiss 1 1 1 false ++ loadMiss 1 2 1 true ++
    [snooping quiet .cleanInvalid 1 1, quiet, quiet, quiet, quiet] ++
    [load 0 2, tag 0 7, Stimuli.store 2 1, Stimuli.store 2 1, quiet] ++
    [snooping quiet .cleanInvalid 2 1, quiet, quiet, quiet, quiet] ++
    [load 1 1, tag 1 2] ++ refill false ++ [quiet, quiet, quiet] ++ refill false ++
    [quiet, quiet, quiet, bus arReady, bus (beat true false), quiet]

set_option maxRecDepth 10000 in
theorem store_hit_lost_line :
    ∃ s, (machine cfg).Reachable (fun _ _ => True) s ∧ s.storeGranted cfg quiet 2 = true ∧
      (s.ctrl 2).memReq.addr = ⟨2, 1, 0⟩ ∧ (s.ctrl 2).hitWay 1 = true ∧ (s.arr 1 1).valid = false ∧
      ((s.step cfg quiet).arr 1 1).valid = true :=
  ⟨_, Machine.reachable_run _ initial_isReset refetchedElsewhere, by decide +kernel⟩

end Runs
end Culsans.Dcache.Nbdcache
