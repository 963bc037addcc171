import Culsans.Dcache.StoreHits

/-! # Snoops are atomic with respect to stores

From its granted lookup to its granted status write a snoop keeps the array to
itself. A store that already had its permission by then is told so by one of the
collision flags; the one cycle the flags miss is that in which an upgrade completes.
-/

namespace Culsans.Dcache.Nbdcache
open Library TagCmp

variable {c : Cfg} {s : Nbdcache} {i : CacheIn}

/-- What an observer of the snoops remembers: the stores whose permission was taken by an
invalidation or by a ReadShared, and the set as the last granted lookup found it. -/
structure Watch where
  invalidated : Fin 3 → Bool
  shared : Fin 3 → Bool
  looked : Way → CacheLine

def Watch.none : Watch := ⟨fun _ => false, fun _ => false, fun _ => .zero⟩

/-- The controller holds a store that has found its line. -/
def storePending (s : Nbdcache) (p : Fin 3) : Bool :=
  (s.ctrl p).state == .makeUnique || (s.ctrl p).state == .storeReq

/-- A status write is granted for the line of the store of port `p`. -/
def statusGranted (c : Cfg) (s : Nbdcache) (i : CacheIn) (kind : SnoopState) (p : Fin 3) : Bool :=
  s.snoop.state == kind && s.gnt c i 1 && s.snoop.memReq.sameLine (s.ctrl p).memReq.addr

/-- The permission lost to an invalidation is renewed by a lookup, of the store itself or of the
miss handler on its behalf; the one lost to a ReadShared by sending CLEAN_UNIQUE again. -/
def Watch.step (c : Cfg) (g : Watch) (s : Nbdcache) (i : CacheIn) : Watch where
  invalidated p := s.storePending p && (s.step c i).storePending p &&
    (statusGranted c s i .invalidate p ||
      (g.invalidated p && !(s.miss.state == .reqBeforeClean && s.miss.mshr.id == p)))
  shared p := s.storePending p && (s.step c i).storePending p &&
    (statusGranted c s i .updateShared p ||
      (g.shared p && !(s.miss.state == .checkBeforeClean && s.miss.mshr.id == p &&
        (s.step c i).miss.state == .sendClean)))
  looked := if (s.step c i).snoop.state == .evalFlags then s.arr s.snoop.memReq.index else g.looked

/-- The cache together with the observer. -/
def watched (c : Cfg) : Machine (Nbdcache × Watch) CacheIn :=
  (machine c).observe Watch.none (Watch.step c)

theorem watched_init : (watched c).init (initial, .none) := ⟨initial_isReset, rfl⟩

theorem reachable_of_watched {ok : Nbdcache × Watch → CacheIn → Prop} {x : Nbdcache × Watch}
    (h : (watched c).Reachable ok x) : (machine c).Reachable (fun _ _ => True) x.1 :=
  Machine.Reachable.of_observe (fun _ _ _ => trivial) h

/-- A store whose permission was taken knows it, or is looked up again first. -/
structure WatchInv (s : Nbdcache) (g : Watch) : Prop where
  pending : ∀ p, g.invalidated p = true ∨ g.shared p = true → s.storePending p = true
  storeInvalidated : ∀ p, g.invalidated p = true → (s.ctrl p).state = .storeReq →
    (s.ctrl p).collidingClean = true
  uniqueInvalidated : ∀ p, g.invalidated p = true → s.miss.mshr.valid = true → s.miss.mshr.id = p →
    s.miss.mshr.makeUnique = true → s.miss.state = .checkBeforeClean ∨ s.miss.state = .sendClean →
    s.miss.collidingClean = true
  storeShared : ∀ p, g.shared p = true → (s.ctrl p).state = .storeReq → (s.ctrl p).collidingRead = true
  uniqueShared : ∀ p, g.shared p = true → s.miss.state = .sendClean → s.miss.mshr.id = p →
    (s.ctrl p).collidingRead = true
  looked : s.snoop.state = .evalFlags → ∀ w, g.looked w = s.arr s.snoop.memReq.index w
  data : s.snoop.answering = true → s.snoop.crResp.dataTransfer = true → ∃ w, s.snoop.hitWay w = true ∧
    (g.looked w).valid = true ∧ (g.looked w).tag = s.snoop.memReq.tag ∧ s.snoop.cacheData = (g.looked w).data

variable {g : Watch}

theorem storeInvalidated_step (hb : s.Basic) (h : s.WatchInv g) (hok : invalidatesCleaned c s i = false)
    (p : Fin 3) (hg : (g.step c s i).invalidated p = true)
    (hs : ((s.step c i).ctrl p).state = .storeReq) : ((s.step c i).ctrl p).collidingClean = true := by
  simp only [Watch.step, Bool.and_eq_true, Bool.or_eq_true] at hg
  obtain ⟨⟨hp, -⟩, hg⟩ := hg
  rcases CacheCtrl.step_storeReq hs with hh | ⟨hq, hgnt, hd, -⟩ | ⟨hq, -, -, -, -, hd⟩
  · have hl := hh.looking
    grind [storePending, CacheCtrl.lookingUp]
  · exfalso
    obtain ⟨hst, hx, hc, hid, hu, haddr⟩ := upgraded_of_missGnt hb hq hgnt hd
    rcases hg with hg | ⟨hg, -⟩
    · simp only [statusGranted, Bool.and_eq_true, beq_iff_eq] at hg
      rw [haddr] at hg
      simp [invalidatesCleaned, hst, hx, hc, SnoopCtrl.invalidate, hg.1.1, hg.2] at hok
    · have hv : s.miss.mshr.valid = true := by
        rw [hb.mshr.miss.occupied]
        simp [MissHandler.occupied, hst]
      simp [h.uniqueInvalidated p hg hv hid hu (.inr hst)] at hc
  · rw [show ((s.step c i).ctrl p).collidingClean = _ from hd]
    rcases hg with hg | ⟨hg, -⟩
    · simp only [statusGranted, Bool.and_eq_true, beq_iff_eq] at hg
      simp [CacheCtrl.detectClean, CacheCtrl.matchesLine, ctrlIn, SnoopCtrl.invalidate, hg.1.1, hg.2]
    · simp [CacheCtrl.detectClean, h.storeInvalidated p hg hq]

theorem uniqueInvalidated_step (hb : s.Basic) (h : s.WatchInv g) (p : Fin 3)
    (hg : (g.step c s i).invalidated p = true) (hv : (s.step c i).miss.mshr.valid = true)
    (hid : (s.step c i).miss.mshr.id = p) (hu : (s.step c i).miss.mshr.makeUnique = true)
    (hs : (s.step c i).miss.state = .checkBeforeClean ∨ (s.step c i).miss.state = .sendClean) :
    (s.step c i).miss.collidingClean = true := by
  simp only [Watch.step, Bool.and_eq_true, Bool.or_eq_true] at hg
  obtain ⟨⟨hp, -⟩, hg⟩ := hg
  rcases hs with hs | hs
  · obtain ⟨hq, hmshr⟩ := MissHandler.step_checkBeforeClean hs
    have hmshr' : (s.step c i).miss.mshr = s.miss.mshr := hmshr
    rw [hmshr'] at hid
    rcases hg with hg | ⟨-, hg⟩
    · simp [statusGranted, gnt_one, snoopGnt, missPort, MissHandler.port, hq] at hg
    · simp [hq, hid] at hg
  · obtain ⟨hst, hcd, hmshr⟩ : _ ∧ _ ∧ (s.step c i).miss.mshr = s.miss.mshr :=
      MissHandler.step_sendClean hs
    rw [hmshr] at hv hid hu
    rw [show (s.step c i).miss.collidingClean = _ from hcd]
    rcases hg with hg | ⟨hg, -⟩
    · simp only [statusGranted, Bool.and_eq_true, beq_iff_eq] at hg
      rw [← hid, (hb.mshr.makeUnique hv hu).2] at hg
      simp [MissHandler.detectClean, missIn, SnoopCtrl.invalidate, hg.1.1, hg.2, hv, hu]
    · have hc := h.uniqueInvalidated p hg hv hid hu (hst.imp And.left id)
      simp [MissHandler.detectClean, hc]

/-- A granted UPDATE_SHARED of its line is noticed by every waiting store. -/
theorem detectRead_of_granted {p : Fin 3} (h : statusGranted c s i .updateShared p = true) :
    (s.ctrl p).detectRead (s.ctrlIn c i p) = true := by
  simp only [statusGranted, Bool.and_eq_true, beq_iff_eq, gnt_one] at h
  obtain ⟨⟨hs, hg⟩, hl⟩ := h
  cases hr : (s.ctrl p).collidingRead <;>
    simp [CacheCtrl.detectRead, CacheCtrl.matchesLine, ctrlIn, SnoopCtrl.readsharedDone, hs, hg, hl, hr]

theorem detectRead_of_colliding {q : CacheCtrl} {j : CtrlIn} (h : q.collidingRead = true) :
    q.detectRead j = true := by
  simp [CacheCtrl.detectRead, h]

theorem storeShared_step (hb : s.Basic) (h : s.WatchInv g) (p : Fin 3)
    (hg : (g.step c s i).shared p = true) (hs : ((s.step c i).ctrl p).state = .storeReq) :
    ((s.step c i).ctrl p).collidingRead = true := by
  simp only [Watch.step, Bool.and_eq_true, Bool.or_eq_true] at hg
  obtain ⟨⟨hp, -⟩, hg⟩ := hg
  rcases CacheCtrl.step_storeReq hs with hh | ⟨hq, hgnt, hd, -, hr⟩ | ⟨hq, -, -, -, hr, -⟩
  · have hl := hh.looking
    grind [storePending, CacheCtrl.lookingUp]
  · obtain ⟨hst, -, -, hid, -⟩ := upgraded_of_missGnt hb hq hgnt hd
    rw [show ((s.step c i).ctrl p).collidingRead = _ from hr]
    exact hg.elim detectRead_of_granted fun hg => detectRead_of_colliding (h.uniqueShared p hg.1 hst hid)
  · rw [show ((s.step c i).ctrl p).collidingRead = _ from hr]
    exact hg.elim detectRead_of_granted fun hg => detectRead_of_colliding (h.storeShared p hg.1 hq)

theorem uniqueShared_step (hb : s.Basic) (h : s.WatchInv g) (p : Fin 3)
    (hg : (g.step c s i).shared p = true) (hs : (s.step c i).miss.state = .sendClean)
    (hid : (s.step c i).miss.mshr.id = p) : ((s.step c i).ctrl p).collidingRead = true := by
  simp only [Watch.step, Bool.and_eq_true, Bool.or_eq_true] at hg
  obtain ⟨⟨hp, -⟩, hg⟩ := hg
  obtain ⟨hst, -, hmshr⟩ : _ ∧ _ ∧ (s.step c i).miss.mshr = s.miss.mshr := MissHandler.step_sendClean hs
  have hinv := mshrInv_step (c := c) (i := i) hb.mshr
  have hv : (s.step c i).miss.mshr.valid = true := by
    rw [hinv.miss.occupied]
    simp [MissHandler.occupied, hs]
  have hu := hinv.miss.cleaning (by simp [MissHandler.cleaning, hs])
  have hq' := (hinv.makeUnique hv hu).1
  rw [hmshr] at hv hu hid
  have hq := (hb.mshr.makeUnique hv hu).1
  rw [hmshr, hid] at hq'
  rw [hid] at hq
  have hr : ((s.step c i).ctrl p).collidingRead = (s.ctrl p).detectRead (s.ctrlIn c i p) := by
    rcases CacheCtrl.step_makeUnique hq' with hh | ⟨-, -, -, hr⟩ | ⟨hn, -⟩
    · have hl := hh.looking
      grind [CacheCtrl.lookingUp]
    · exact hr
    · simp [hq] at hn
  rw [hr]
  rcases hg with hg | ⟨hg, hn⟩
  · exact detectRead_of_granted hg
  · rcases hst with ⟨hst, -⟩ | hst
    · simp [hst, hid, hs] at hn
    · exact detectRead_of_colliding (h.uniqueShared p hg hst hid)

theorem looked_step (h : (s.step c i).snoop.state = .evalFlags) (w : Way) :
    (g.step c s i).looked w = (s.step c i).arr (s.step c i).snoop.memReq.index w := by
  obtain ⟨-, hg, hp, hd⟩ := SnoopCtrl.step_evalFlags h
  have hm : (s.step c i).snoop.memReq = s.snoop.memReq := by
    show (s.snoop.step (s.snoopIn c i) (s.gnt c i 1)).memReq = _
    rw [hd]
  obtain ⟨ha, -, -⟩ := step_of_lookup (k := 1) hg hp
  rw [hm, ha]
  simp [Watch.step, h]

theorem data_step (hb : s.Basic) (h : s.WatchInv g) (ha : (s.step c i).snoop.answering = true)
    (ht : (s.step c i).snoop.crResp.dataTransfer = true) :
    ∃ w, (s.step c i).snoop.hitWay w = true ∧ ((g.step c s i).looked w).valid = true ∧
      ((g.step c s i).looked w).tag = (s.step c i).snoop.memReq.tag ∧
      (s.step c i).snoop.cacheData = ((g.step c s i).looked w).data := by
  have hl : (g.step c s i).looked = g.looked := by
    have hn : (s.step c i).snoop.state ≠ .evalFlags := by
      grind [SnoopCtrl.answering, SnoopCtrl.writing]
    simp [Watch.step, hn]
  obtain ⟨hm, hk⟩ : (s.step c i).snoop.memReq = s.snoop.memReq ∧ _ := SnoopCtrl.step_answering ha ht
  rw [hl, hm]
  rcases hk with ⟨he, hh, hd, hdata⟩ | ⟨hq, htq, hd, hdata⟩
  · obtain ⟨w, hw, hsel⟩ := CacheCtrl.selectLine_spec s.rd.rdata hh
    obtain ⟨htag, hv⟩ := hitWay_evalFlags hb.lookups he hw
    refine ⟨w, (congrFun hd w).trans hw, ?_⟩
    rw [h.looked he]
    exact ⟨hv, htag, hdata.trans (hsel.trans (by rw [(hb.lookups.evalFlags he).2]))⟩
  · obtain ⟨w, hw, hrest, htag, hdat⟩ := h.data hq htq
    exact ⟨w, (congrFun hd w).trans hw, hrest, htag, hdata.trans hdat⟩

theorem watchInv_step (hb : s.Basic) (h : s.WatchInv g) (hok : invalidatesCleaned c s i = false) :
    (s.step c i).WatchInv (g.step c s i) where
  pending p hp := by
    simp only [Watch.step, Bool.and_eq_true] at hp
    exact hp.elim (·.1.2) (·.1.2)
  storeInvalidated := storeInvalidated_step hb h hok
  uniqueInvalidated := uniqueInvalidated_step hb h
  storeShared := storeShared_step hb h
  uniqueShared := uniqueShared_step hb h
  looked := looked_step
  data := data_step hb h

theorem watchInv_init (h : s.IsReset) : s.WatchInv .none := by
  constructor <;>
    simp [Watch.none, h.snoop, SnoopCtrl.reset, SnoopCtrl.answering, SnoopCtrl.writing]

theorem watchInv_reachable {x : Nbdcache × Watch}
    (h : (watched c).Reachable (fun x i => invalidatesCleaned c x.1 i = false) x) : x.1.WatchInv x.2 := by
  refine Machine.Reachable.invariant_of (P := fun x => x.1.Basic) (Q := fun x => x.1.WatchInv x.2)
    (fun x hr => ?_) (fun x h0 => ?_) (fun x i hb hq hok => watchInv_step hb hq hok) h
  · exact basic_reachable (reachable_of_watched hr)
  · exact h0.2 ▸ watchInv_init h0.1

/-- The snoop holds the array from its granted lookup to its granted status write. -/
def snoopOwnsArray (c : Cfg) (s : Nbdcache) (i : CacheIn) : Bool :=
  s.snoop.inFlight || (s.snoop.state == .waitGnt && (s.step c i).snoop.state == .evalFlags)

theorem no_store_under_snoop (hl : s.Lookups) (h : snoopOwnsArray c s i = true) (p : Fin 3) :
    s.storeGranted c i p = false := by
  simp only [snoopOwnsArray, Bool.or_eq_true, Bool.and_eq_true, beq_iff_eq] at h
  have hg : s.ctrlGnt c i p = false := by
    rcases h with h | ⟨-, h⟩
    · exact ctrlGnt_of_inFlight hl.writing h p
    · by_contra hg
      obtain ⟨-, -, hp, -⟩ := SnoopCtrl.step_evalFlags h
      have ha := (snoopPort_inactive_of_ctrlGnt (by simpa using hg)).2
      simp [snoopPort, hp] at ha
  simp [storeGranted, hg]

/-- No store is written under a snoop, the data a snoop returns is that of its lookup, and a store
whose permission a snoop has taken is not written before it has a new one. -/
theorem snoop_atomic {x : Nbdcache × Watch}
    (h : (watched c).Reachable (fun x i => invalidatesCleaned c x.1 i = false) x) (i : CacheIn) :
    (∀ p, snoopOwnsArray c x.1 i = true → x.1.storeGranted c i p = false) ∧
    (x.1.snoop.answering = true → x.1.snoop.crResp.dataTransfer = true →
      ∃ w, x.1.snoop.hitWay w = true ∧ (x.2.looked w).valid = true ∧
        (x.2.looked w).tag = x.1.snoop.memReq.tag ∧ x.1.snoop.cacheData = (x.2.looked w).data) ∧
    ∀ p, x.1.storeGranted c i p = true → x.2.invalidated p = false ∧ x.2.shared p = false := by
  have hr := reachable_of_watched h
  have hinv := watchInv_reachable h
  refine ⟨fun p hs => no_store_under_snoop (basic_reachable hr).lookups hs p, hinv.data, fun p hs => ?_⟩
  simp only [storeGranted, CacheCtrl.storing, Bool.and_eq_true, beq_iff_eq, Bool.not_eq_true'] at hs
  obtain ⟨⟨⟨⟨hst, -⟩, hc⟩, hread⟩, -⟩ := hs
  constructor
  · by_contra hn
    simp [hinv.storeInvalidated p (by simpa using hn) hst] at hc
  · by_contra hn
    simp [hinv.storeShared p (by simpa using hn) hst] at hread

section Runs
open Stimuli

/-- A store to a shared line waits in MAKE_UNIQUE when a ReadShared of the line passes. -/
def sharedUnderUpgrade : List CacheIn :=
  quiet :: loadMiss 1 2 1 true ++ [Stimuli.store 2 1, Stimuli.store 2 1] ++
    [snooping quiet .readShared 2 1, quiet, quiet, quiet, quiet]

set_option maxRecDepth 10000 in
theorem snoop_atomic_run :
    let x := (watched cfg).run (initial, .none) sharedUnderUpgrade
    x.2.shared 2 = true ∧ x.1.storeGranted cfg quiet 2 = false := by
  have hr : (watched cfg).Reachable (fun x i => invalidatesCleaned cfg x.1 i = false)
      ((watched cfg).run (initial, .none) sharedUnderUpgrade) :=
    .run (.init watched_init) (by decide +kernel)
  have hs : ((watched cfg).run (initial, .none) sharedUnderUpgrade).2.shared 2 = true := by decide +kernel
  refine ⟨hs, ?_⟩
  by_contra hg
  simp [((snoop_atomic hr quiet).2.2 2 (by simpa using hg)).2] at hs

/-- The invalidation of a line is granted in the cycle in which its upgrade completes. -/
def invalidatedOnCompletion : List CacheIn :=
  quiet :: loadMiss 1 2 1 true ++ [Stimuli.store 2 1, Stimuli.store 2 1, quiet, quiet, quiet] ++
    [bus arReady, snooping quiet .cleanInvalid 2 1, quiet, bus (beat true false), quiet]

set_option maxRecDepth 10000 in
theorem store_after_invalidation :
    ∃ x, (watched cfg).Reachable (fun _ _ => True) x ∧ x.1.storeGranted cfg quiet 2 = true ∧
      x.2.invalidated 2 = true ∧ (x.1.arr 1 0).valid = false ∧
      ((x.1.step cfg quiet).arr 1 0).valid = true :=
  ⟨_, Machine.reachable_run _ watched_init invalidatedOnCompletion,
    by decide +kernel⟩

end Runs
end Culsans.Dcache.Nbdcache
