import Culsans.Dcache.StdNbdcache

/-! # What one cycle can do

Inversion lemmas for the controllers and for the array. Every change of a line is
one of six events, and every state that relies on a lookup was entered by a granted
one; the invariants of the cache are proved from these facts alone.
-/

namespace Culsans.Dcache
open Library TagCmp

namespace CacheCtrl
variable {c : Cfg} {q : CacheCtrl} {i : CtrlIn} {gnt : Bool}

/-- The controller waits for the answer to its own lookup. -/
def lookingUp (q : CacheCtrl) : Bool := q.state == .waitTag || q.state == .waitTagSaved

/-- A controller that does not fall back to IDLE took the branch of its state. -/
theorem step_eq_stepState (h : (q.step c i gnt).state ≠ .idle) :
    q.step c i gnt = q.stepState c i gnt ∧ (i.reqPort.killReq = false ∨ unkillable q.state = true) := by
  unfold step at h ⊢
  grind

theorem step_lookingUp (h : (q.step c i gnt).lookingUp = true) :
    gnt = true ∧ q.port i = .lookup (q.step c i gnt).memReq.index := by
  have hs : q.step c i gnt = q.stepState c i gnt := (step_eq_stepState (by grind [lookingUp])).1
  rw [hs] at h ⊢
  unfold stepState at h ⊢
  cases hq : q.state <;>
    simp only [hq, stepIdle, stepWaitTag, stepWaitGnt, stepMakeUnique, stepStoreReq, stepWaitMshr,
      stepWaitTagBypassed, stepWaitRefillGnt, stepWaitCriticalWord, stepWaitRefillValid, stepHit, port,
      lookingUp, base, MemReq.save] at h ⊢ <;> grind

/-- What a store keeps from one state to the next. -/
def SameRequest (q d : CacheCtrl) : Prop :=
  d.hitWay = q.hitWay ∧ d.memReq.addr = q.memReq.addr ∧ d.memReq.we = q.memReq.we ∧
    d.memReq.be = q.memReq.be ∧ d.memReq.wdata = q.memReq.wdata

theorem SameRequest.tag {d : CacheCtrl} (h : q.SameRequest d) : d.memReq.tag = q.memReq.tag :=
  congrArg PAddr.tag h.2.1

/-- A store found its line in WAIT_TAG and no MSHR holds it back. -/
structure StoreHit (c : Cfg) (q : CacheCtrl) (i : CtrlIn) (d : CacheCtrl) : Prop where
  looking : q.lookingUp = true
  cacheable : c.isInsideCacheableRegions (q.tagO i.reqPort) = true
  tagOk : q.tagOk i.reqPort = true
  we : q.memReq.we = true
  index : i.mshrIndexMatches = false
  addr : i.mshrAddrMatches = false
  hitWay : d.hitWay = i.hitWay
  hit : anyWay i.hitWay = true
  memReq : d.memReq.addr = ⟨q.tagO i.reqPort, q.memReq.index, q.memReq.offset⟩
  we' : d.memReq.we = true
  unshared : d.state = .storeReq → anyWay (fun w => !i.sharedWay w && i.hitWay w) = true
  collidingRead : d.collidingRead = false

theorem stepWaitTag_storeHit (hl : q.lookingUp = true)
    (h : (q.stepWaitTag c i gnt).state = .storeReq ∨ (q.stepWaitTag c i gnt).state = .makeUnique) :
    StoreHit c q i (q.stepWaitTag c i gnt) := by
  have hs : q.state ≠ .storeReq ∧ q.state ≠ .makeUnique := by grind [lookingUp]
  unfold stepWaitTag at h ⊢
  by_cases ht : q.tagOk i.reqPort = true
  · by_cases hh : anyWay i.hitWay = true
    · by_cases hw : q.memReq.we = true
      · simp only [ht, hh, hw, stepHit, base, if_true] at h ⊢
        constructor <;> grind [MemReq.addr]
      · simp only [ht, hh, hw, stepHit, base, if_true] at h ⊢
        grind
    · simp only [ht, hh, base] at h ⊢
      grind
  · simp only [ht, base] at h ⊢
    grind

theorem stepStoreReq_storeReq (h : (q.stepStoreReq i gnt).state = .storeReq) :
    i.mshrIndexMatches = false ∧ gnt = false ∧ q.SameRequest (q.stepStoreReq i gnt) ∧
      (q.stepStoreReq i gnt).collidingRead = q.detectRead i ∧
      (q.stepStoreReq i gnt).collidingClean = q.detectClean i := by
  simp only [stepStoreReq, base, SameRequest, MemReq.addr] at h ⊢
  split_ifs at h ⊢ <;> simp_all

theorem stepStoreReq_makeUnique (h : (q.stepStoreReq i gnt).state = .makeUnique)
    (hq : q.state = .storeReq) :
    i.mshrIndexMatches = false ∧ q.collidingRead = true ∧ q.SameRequest (q.stepStoreReq i gnt) := by
  simp only [stepStoreReq, base, SameRequest, MemReq.addr] at h ⊢
  split_ifs at h ⊢ <;> simp_all

theorem stepMakeUnique_storeReq (h : (q.stepMakeUnique i).state = .storeReq)
    (hq : q.state = .makeUnique) :
    i.missGnt = true ∧ i.missWriteDone = false ∧ q.SameRequest (q.stepMakeUnique i) ∧
      (q.stepMakeUnique i).collidingRead = q.detectRead i := by
  simp only [stepMakeUnique, base, SameRequest, MemReq.addr] at h ⊢
  split_ifs at h ⊢
  all_goals simp_all

theorem stepMakeUnique_makeUnique (h : (q.stepMakeUnique i).state = .makeUnique) :
    i.missGnt = false ∧ q.SameRequest (q.stepMakeUnique i) ∧
      (q.stepMakeUnique i).collidingRead = q.detectRead i := by
  simp only [stepMakeUnique, base, SameRequest, MemReq.addr] at h ⊢
  split_ifs at h ⊢
  simp_all

/-- A store reaches its permission only from a lookup or from the miss handler. -/
theorem stepState_store (hl : q.lookingUp = false) (hm : q.state ≠ .makeUnique)
    (hr : q.state ≠ .storeReq) :
    (q.stepState c i gnt).state ≠ .storeReq ∧ (q.stepState c i gnt).state ≠ .makeUnique := by
  unfold stepState
  cases hq : q.state <;>
    simp only [hq, lookingUp, stepIdle, stepWaitGnt, stepWaitMshr, stepWaitTagBypassed,
      stepWaitRefillGnt, stepWaitCriticalWord, stepWaitRefillValid, base] at * <;> grind

theorem stepState_lookingUp (hl : q.lookingUp = true) :
    q.stepState c i gnt = q.stepWaitTag c i gnt := by
  grind [lookingUp, stepState]

theorem step_storeReq (h : (q.step c i gnt).state = .storeReq) :
    StoreHit c q i (q.step c i gnt) ∨
    (q.state = .makeUnique ∧ i.missGnt = true ∧ i.missWriteDone = false ∧
      q.SameRequest (q.step c i gnt) ∧ (q.step c i gnt).collidingRead = q.detectRead i) ∨
    (q.state = .storeReq ∧ i.mshrIndexMatches = false ∧ gnt = false ∧
      q.SameRequest (q.step c i gnt) ∧ (q.step c i gnt).collidingRead = q.detectRead i ∧
      (q.step c i gnt).collidingClean = q.detectClean i) := by
  have hs : q.step c i gnt = q.stepState c i gnt := (step_eq_stepState (by simp [h])).1
  rw [hs] at h ⊢
  by_cases hl : q.lookingUp = true
  · rw [stepState_lookingUp hl] at h ⊢
    exact .inl (stepWaitTag_storeHit hl (.inl h))
  · by_cases hm : q.state = .makeUnique
    · have hd : q.stepState c i gnt = q.stepMakeUnique i := by simp [stepState, hm]
      rw [hd] at h ⊢
      exact .inr (.inl ⟨hm, stepMakeUnique_storeReq h hm⟩)
    · by_cases hr : q.state = .storeReq
      · have hd : q.stepState c i gnt = q.stepStoreReq i gnt := by simp [stepState, hr]
        rw [hd] at h ⊢
        exact .inr (.inr ⟨hr, stepStoreReq_storeReq h⟩)
      · exact absurd h (stepState_store (by simpa using hl) hm hr).1

theorem step_makeUnique (h : (q.step c i gnt).state = .makeUnique) :
    StoreHit c q i (q.step c i gnt) ∨
    (q.state = .makeUnique ∧ i.missGnt = false ∧ q.SameRequest (q.step c i gnt) ∧
      (q.step c i gnt).collidingRead = q.detectRead i) ∨
    (q.state = .storeReq ∧ i.mshrIndexMatches = false ∧ q.collidingRead = true ∧
      q.SameRequest (q.step c i gnt)) := by
  have hs : q.step c i gnt = q.stepState c i gnt := (step_eq_stepState (by simp [h])).1
  rw [hs] at h ⊢
  by_cases hl : q.lookingUp = true
  · rw [stepState_lookingUp hl] at h ⊢
    exact .inl (stepWaitTag_storeHit hl (.inr h))
  · by_cases hm : q.state = .makeUnique
    · have hd : q.stepState c i gnt = q.stepMakeUnique i := by simp [stepState, hm]
      rw [hd] at h ⊢
      exact .inr (.inl ⟨hm, stepMakeUnique_makeUnique h⟩)
    · by_cases hr : q.state = .storeReq
      · have hd : q.stepState c i gnt = q.stepStoreReq i gnt := by simp [stepState, hr]
        rw [hd] at h ⊢
        exact .inr (.inr ⟨hr, stepStoreReq_makeUnique h hr⟩)
      · exact absurd h (stepState_store (by simpa using hl) hm hr).2

/-- The request goes through the cache: it has not been turned into a bypass. -/
def cached (q : CacheCtrl) : Bool :=
  q.lookingUp || q.state == .waitGnt || q.state == .waitGntSaved || q.state == .waitMshr ||
    q.state == .makeUnique || q.state == .storeReq

theorem step_cached (h : (q.step c i gnt).cached = true) :
    (q.step c i gnt).memReq.bypass = false ∨
      ((q.step c i gnt).memReq.bypass = q.memReq.bypass ∧
        (q.cached = true ∨ (q.state = .waitRefillGnt ∧ i.mshrAddrMatches = true))) := by
  have hs : q.step c i gnt = q.stepState c i gnt :=
    (step_eq_stepState (by grind [cached, lookingUp])).1
  rw [hs] at h ⊢
  unfold stepState at h ⊢
  cases hq : q.state <;>
    simp only [hq, stepIdle, stepWaitTag, stepHit, stepWaitGnt, stepMakeUnique, stepStoreReq,
      stepWaitMshr, stepWaitTagBypassed, stepWaitRefillGnt, stepWaitCriticalWord,
      stepWaitRefillValid, base, MemReq.save, cached, lookingUp] at h ⊢ <;> grind

/-- A controller leaves MAKE_UNIQUE only when the miss handler answers it. -/
theorem step_of_makeUnique (hq : q.state = .makeUnique) (hg : i.missGnt = false) :
    (q.step c i gnt).state = .makeUnique ∧ q.SameRequest (q.step c i gnt) := by
  simp [step, stepState, stepMakeUnique, hq, hg, unkillable, SameRequest, base, MemReq.addr]

/-- A request misses in WAIT_TAG, or its address is not cacheable. -/
structure LookupMiss (c : Cfg) (q : CacheCtrl) (i : CtrlIn) (d : CacheCtrl) : Prop where
  looking : q.lookingUp = true
  tagOk : q.tagOk i.reqPort = true
  tag : d.memReq.tag = q.tagO i.reqPort
  uncached : c.isInsideCacheableRegions (q.tagO i.reqPort) = false → d.memReq.bypass = true
  cached : c.isInsideCacheableRegions (q.tagO i.reqPort) = true → anyWay i.hitWay = false ∧
    i.mshrAddrMatches = false ∧ (i.mshrIndexMatches && q.memReq.we) = false ∧
    d.memReq.addr = ⟨q.tagO i.reqPort, q.memReq.index, q.memReq.offset⟩ ∧
    d.memReq.bypass = q.memReq.bypass

theorem stepWaitTag_miss (hl : q.lookingUp = true)
    (h : (q.stepWaitTag c i gnt).state = .waitRefillGnt) :
    LookupMiss c q i (q.stepWaitTag c i gnt) := by
  have hs : q.state ≠ .waitRefillGnt := by grind [lookingUp]
  unfold stepWaitTag at h ⊢
  by_cases ht : q.tagOk i.reqPort = true
  · by_cases hh : anyWay i.hitWay = true
    · simp only [ht, hh, stepHit, base, if_true, MemReq.save] at h ⊢
      constructor <;> grind [MemReq.addr]
    · simp only [ht, hh, base, if_true] at h ⊢
      constructor <;> grind [MemReq.addr]
  · simp only [ht, base] at h ⊢
    grind

/-- A waiting refill request goes on waiting. -/
def StillWaiting (q : CacheCtrl) (i : CtrlIn) (d : CacheCtrl) : Prop :=
  (i.mshrAddrMatches = false ∨ i.activeServing = true) ∧ i.missGnt = false ∧ i.bypassGnt = false ∧
    d.memReq.bypass = q.memReq.bypass ∧ q.SameRequest d

theorem step_waitRefillGnt (h : (q.step c i gnt).state = .waitRefillGnt) :
    LookupMiss c q i (q.step c i gnt) ∨
    (q.state = .waitTagBypassed ∧ (q.step c i gnt).memReq.bypass = q.memReq.bypass) ∨
    (q.state = .waitRefillGnt ∧ q.StillWaiting i (q.step c i gnt)) := by
  have hs : q.step c i gnt = q.stepState c i gnt := (step_eq_stepState (by simp [h])).1
  rw [hs] at h ⊢
  by_cases hl : q.lookingUp = true
  · rw [stepState_lookingUp hl] at h ⊢
    exact .inl (stepWaitTag_miss hl h)
  · refine .inr ?_
    unfold stepState at h ⊢
    cases hq : q.state <;>
      simp only [hq, lookingUp, stepIdle, stepWaitGnt, stepMakeUnique, stepStoreReq, stepWaitMshr,
        stepWaitTagBypassed, stepWaitRefillGnt, stepWaitCriticalWord, stepWaitRefillValid,
        base, StillWaiting, SameRequest, MemReq.addr] at hl h ⊢ <;> grind

theorem step_of_waitRefillGnt (hq : q.state = .waitRefillGnt)
    (ha : i.mshrAddrMatches = false ∨ i.activeServing = true) (hg : i.missGnt = false)
    (hb : i.bypassGnt = false) :
    (q.step c i gnt).state = .waitRefillGnt ∧ (q.step c i gnt).memReq.bypass = q.memReq.bypass ∧
      q.SameRequest (q.step c i gnt) := by
  rcases ha with ha | ha <;>
    simp [step, stepState, stepWaitRefillGnt, hq, ha, hg, hb, unkillable, SameRequest, base, MemReq.addr]

theorem step_waitCriticalWord (h : (q.step c i gnt).state = .waitCriticalWord) :
    (q.state = .waitRefillGnt ∧ i.missGnt = true ∧ q.memReq.we = false ∧
      (i.mshrAddrMatches = false ∨ i.activeServing = true) ∧ q.SameRequest (q.step c i gnt)) ∨
    (q.state = .waitCriticalWord ∧ i.criticalWordValid = false ∧ q.SameRequest (q.step c i gnt)) := by
  have hs : q.step c i gnt = q.stepState c i gnt := (step_eq_stepState (by simp [h])).1
  rw [hs] at h ⊢
  unfold stepState at h ⊢
  cases hq : q.state <;>
    simp only [hq, stepIdle, stepWaitTag, stepHit, stepWaitGnt, stepMakeUnique, stepStoreReq,
      stepWaitMshr, stepWaitTagBypassed, stepWaitRefillGnt, stepWaitCriticalWord,
      stepWaitRefillValid, base, SameRequest, MemReq.addr] at h ⊢ <;> grind

theorem step_waitTagBypassed (h : (q.step c i gnt).state = .waitTagBypassed) :
    (i.bypass = true ∧ (q.step c i gnt).memReq.bypass = true) ∨
      (q.state = .waitTagBypassed ∧ (q.step c i gnt).memReq.bypass = q.memReq.bypass) := by
  have hs : q.step c i gnt = q.stepState c i gnt := (step_eq_stepState (by simp [h])).1
  rw [hs] at h ⊢
  unfold stepState at h ⊢
  cases hq : q.state <;>
    simp only [hq, stepIdle, stepWaitTag, stepHit, stepWaitGnt, stepMakeUnique, stepStoreReq,
      stepWaitMshr, stepWaitTagBypassed, stepWaitRefillGnt, stepWaitCriticalWord,
      stepWaitRefillValid, base] at h ⊢ <;> grind

theorem step_waitRefillValid (h : (q.step c i gnt).state = .waitRefillValid) :
    (q.state = .waitRefillGnt ∧ i.bypassGnt = true ∨ q.state = .waitRefillValid) ∧
      (q.step c i gnt).memReq.tag = q.memReq.tag ∧ (q.step c i gnt).memReq.bypass = q.memReq.bypass := by
  have hs : q.step c i gnt = q.stepState c i gnt := (step_eq_stepState (by simp [h])).1
  rw [hs] at h ⊢
  unfold stepState at h ⊢
  cases hq : q.state <;>
    simp only [hq, stepIdle, stepWaitTag, stepHit, stepWaitGnt, stepMakeUnique, stepStoreReq,
      stepWaitMshr, stepWaitTagBypassed, stepWaitRefillGnt, stepWaitCriticalWord,
      stepWaitRefillValid, base] at h ⊢ <;> grind

end CacheCtrl

namespace SnoopCtrl
variable {q : SnoopCtrl} {i : SnoopIn} {gnt : Bool}

/-- The snoop has looked its line up and not yet written the status back. -/
def inFlight (q : SnoopCtrl) : Bool :=
  q.state == .evalFlags || q.state == .updateShared || q.state == .invalidate

/-- The snoop is about to write the status of the ways it hit. -/
def writing (q : SnoopCtrl) : Bool := q.state == .updateShared || q.state == .invalidate

theorem step_evalFlags (h : (q.step i gnt).state = .evalFlags) :
    q.state = .waitGnt ∧ gnt = true ∧ q.port i = .lookup q.memReq.index ∧
      q.step i gnt = { q with state := .evalFlags } := by
  unfold step at h ⊢
  cases hq : q.state <;> simp only [hq, stepIdle, stepEvalFlags, evalFlags, port] at h ⊢ <;> grind

/-- A status write is entered from a lookup that hit, and waits for its grant. -/
theorem step_writing (h : (q.step i gnt).writing = true) :
    (q.state = .evalFlags ∧ anyWay i.hitWay = true ∧ (q.step i gnt).hitWay = i.hitWay ∧
      (q.step i gnt).memReq = q.memReq ∧ q.acSnoop ≠ .readOnce ∧
      (q.step i gnt).cacheData = CacheCtrl.selectLine i.rdata i.hitWay) ∨
    (q.writing = true ∧ gnt = false ∧ q.step i gnt = q) := by
  unfold step writing at h
  unfold step writing
  cases hq : q.state <;> simp only [hq, stepIdle, stepEvalFlags, evalFlags] at h ⊢ <;> grind

/-- The snoop has its answer: it writes the status or responds. -/
def answering (q : SnoopCtrl) : Bool :=
  q.writing || q.state == .sendCrResp || q.state == .sendCdResp

/-- Data is only ever returned from the lookup that hit. -/
theorem step_answering (h : (q.step i gnt).answering = true)
    (hd : (q.step i gnt).crResp.dataTransfer = true) :
    (q.step i gnt).memReq = q.memReq ∧
    ((q.state = .evalFlags ∧ anyWay i.hitWay = true ∧ (q.step i gnt).hitWay = i.hitWay ∧
        (q.step i gnt).cacheData = CacheCtrl.selectLine i.rdata i.hitWay) ∨
      (q.answering = true ∧ q.crResp.dataTransfer = true ∧ (q.step i gnt).hitWay = q.hitWay ∧
        (q.step i gnt).cacheData = q.cacheData)) := by
  unfold step answering writing at *
  cases hq : q.state <;>
    simp only [hq, stepIdle, stepEvalFlags, evalFlags, CrResp.zero] at h hd ⊢ <;> grind

end SnoopCtrl

namespace MissHandler

/-- The set and the ways whose status bits the miss handler clears in this cycle. -/
def cleared (q : MissHandler) (i : MissIn) : Option (Index × WaySet) :=
  match q.state with
  | .wbCachelineFlush | .wbCachelineMiss | .wbCachelineAmo =>
    if i.axi.valid then some (q.cnt, q.evictWay) else none
  | .flushing => if anyWay (dirtyWay i) then none else some (q.cnt, allWays)
  | .init => some (q.cnt, allWays)
  | .amoWb =>
    match amoWay i with
    | some w =>
      if anyByte (i.rdata w).dirty then none else some (i.amoReq.operandA.index, oneHot w)
    | none => none
  | _ => none

/-- SAVE_CACHELINE writes the refilled line. -/
def saves (q : MissHandler) (i : MissIn) : Bool := q.state == .saveCacheline && i.axi.valid

theorem port_write {q : MissHandler} {i : MissIn} (h : (q.port i).we = true) :
    (q.saves i = true ∧ q.port i = q.saveWrite i.axi) ∨
      ∃ a ways, q.cleared i = some (a, ways) ∧ q.port i = clearStatus a ways := by
  unfold port at h ⊢
  cases hq : q.state <;> simp only [hq, cleared, saves] at h ⊢ <;> grind [ArrayPort.lookup_we, ArrayPort.idle_we]

theorem port_of_cleared {q : MissHandler} {i : MissIn} {a : Index} {ways : WaySet}
    (h : q.cleared i = some (a, ways)) : q.port i = clearStatus a ways := by
  unfold cleared at h
  unfold port
  cases hq : q.state <;> simp only [hq] at h ⊢ <;> grind

/-- The states in which the MSHR is occupied. -/
def occupied (q : MissHandler) : Bool :=
  q.state == .miss || q.state == .missRepl || q.state == .wbCachelineMiss || q.state == .reqCacheline ||
    q.state == .reqCachelineUnique || q.state == .saveCacheline || q.state == .reqBeforeClean ||
    q.state == .checkBeforeClean || q.state == .sendClean

/-- The states of a miss before its refill is granted. -/
def refilling (q : MissHandler) : Bool :=
  q.state == .miss || q.state == .missRepl || q.state == .wbCachelineMiss || q.state == .reqCacheline ||
    q.state == .reqCachelineUnique

/-- The states of an upgrade before its completion. -/
def cleaning (q : MissHandler) : Bool :=
  q.state == .reqBeforeClean || q.state == .checkBeforeClean || q.state == .sendClean

/-- The adapter has not yet answered. -/
def waiting (q : MissHandler) (i : MissIn) : Bool :=
  ((q.state == .wbCachelineMiss || q.state == .saveCacheline || q.state == .sendClean) && !i.axi.valid) ||
    ((q.state == .reqCacheline || q.state == .reqCachelineUnique) && !i.axi.gnt)

/-- The edges of the miss handler; flushes, atomics and the initial sweep are one case. -/
inductive Moves (q : MissHandler) (i : MissIn) : MissHandler → Prop
  | allocate (p : Fin 3) (hq : q.state = .idle) (hr : requester i = some p) (n : Index) :
    Moves q i { q with state := if (i.missReq p).makeUnique then .reqBeforeClean else .miss
                       mshr := allocate p (i.missReq p), serveAmo := false, collidingClean := false
                       cnt := n }
  | lookup (hq : q.state = .miss) :
    Moves q i { q with state := .missRepl, collidingClean := q.detectClean i }
  | free (hq : q.state = .missRepl) (hf : full i = false) :
    Moves q i { q with state := q.refillState, collidingClean := q.detectClean i
                       evictWay := getVictimCl fun w => !validWay i w }
  | clean (hq : q.state = .missRepl) (hf : full i = true)
      (hd : anyByte (i.rdata q.lfsrBin).dirty = false) :
    Moves q i { q with state := q.refillState, collidingClean := q.detectClean i
                       evictWay := oneHot q.lfsrBin, lfsr := q.lfsrNext }
  | dirty (hq : q.state = .missRepl) (hf : full i = true)
      (hd : anyByte (i.rdata q.lfsrBin).dirty = true) :
    Moves q i { q with state := .wbCachelineMiss, collidingClean := q.detectClean i
                       evictWay := oneHot q.lfsrBin, lfsr := q.lfsrNext
                       evictCl := { q.evictCl with tag := (i.rdata q.lfsrBin).tag
                                                   data := (i.rdata q.lfsrBin).data
                                                   dirty := (i.rdata q.lfsrBin).dirty }
                       cnt := q.mshr.addr.index }
  | written (hq : q.state = .wbCachelineMiss) (hv : i.axi.valid = true) :
    Moves q i { q with state := q.refillState, collidingClean := q.detectClean i }
  | granted (hq : q.state = .reqCacheline) (hg : i.axi.gnt = true) :
    Moves q i { q with state := .saveCacheline, collidingClean := q.detectClean i }
  | grantedUnique (hq : q.state = .reqCachelineUnique) (hg : i.axi.gnt = true) :
    Moves q i { q with state := .saveCacheline, collidingClean := false }
  | saved (hq : q.state = .saveCacheline) (hv : i.axi.valid = true) (hc : q.collidingClean = false) :
    Moves q i { q with state := .idle, collidingClean := false, mshr := { q.mshr with valid := false } }
  | restart (hq : q.state = .saveCacheline) (hv : i.axi.valid = true) (hc : q.collidingClean = true) :
    Moves q i { q with state := .miss, collidingClean := false }
  | relook (hq : q.state = .reqBeforeClean) :
    Moves q i { q with state := .checkBeforeClean, collidingClean := q.detectClean i }
  | upgrade (hq : q.state = .checkBeforeClean) (hm : anyWay (q.matchingWay i) = true) :
    Moves q i { q with state := .sendClean, collidingClean := q.detectClean i }
  | gone (hq : q.state = .checkBeforeClean) (hm : anyWay (q.matchingWay i) = false) :
    Moves q i { q with state := .miss, collidingClean := q.detectClean i }
  | cleaned (hq : q.state = .sendClean) (hv : i.axi.valid = true) (hc : q.collidingClean = false) :
    Moves q i { q with state := .idle, collidingClean := q.detectClean i
                       mshr := { q.mshr with valid := false } }
  | refetch (hq : q.state = .sendClean) (hv : i.axi.valid = true) (hc : q.collidingClean = true) :
    Moves q i { q with state := .miss, collidingClean := q.detectClean i }
  | wait (hw : q.waiting i = true) : Moves q i { q with collidingClean := q.detectClean i }
  | other (d : MissHandler) (hq : q.occupied = false) (hd : d.occupied = false) (hm : d.mshr = q.mshr) :
    Moves q i d

/-- Outside the occupied states the MSHR is left alone. -/
theorem moves_maintenance {q : MissHandler} {i : MissIn} (ho : q.occupied = false)
    (hi : q.state ≠ .idle) : Moves q i (q.step i) := by
  refine .other _ ho ?_ ?_ <;>
  · unfold step
    cases ha : amoWay i <;> cases hq : q.state <;>
      simp only [hq, ha, occupied, stepFlushing, stepAmoWb] at ho hi ⊢ <;> grind

theorem moves_idle {q : MissHandler} {i : MissIn} (hq : q.state = .idle) : Moves q i (q.step i) := by
  simp only [step, hq, stepIdle]
  cases hr : requester i with
  | some p => exact .allocate p hq hr _
  | none =>
    refine .other _ (by simp [occupied, hq]) ?_ rfl
    simp only [occupied]
    split_ifs <;> rfl

theorem moves (q : MissHandler) (i : MissIn) : Moves q i (q.step i) := by
  cases hq : q.state with
  | idle => exact moves_idle hq
  | miss => simpa only [step, hq] using Moves.lookup hq
  | missRepl =>
    simp only [step, hq, stepMissRepl]
    split_ifs with hf hd
    · exact .dirty hq hf hd
    · exact .clean hq hf (by simpa using hd)
    · exact .free hq (by simpa using hf)
  | wbCachelineMiss =>
    simp only [step, hq]
    split_ifs with hv
    · exact .written hq hv
    · exact hq ▸ .wait (by simp [waiting, hq, hv])
  | reqCacheline =>
    simp only [step, hq]
    split_ifs with hg
    · exact .granted hq hg
    · exact hq ▸ .wait (by simp [waiting, hq, hg])
  | reqCachelineUnique =>
    simp only [step, hq]
    split_ifs with hg
    · exact .grantedUnique hq hg
    · exact hq ▸ .wait (by simp [waiting, hq, hg])
  | saveCacheline =>
    simp only [step, hq, stepSave]
    split_ifs with hv hc
    · exact .restart hq hv hc
    · exact .saved hq hv (by simpa using hc)
    · exact hq ▸ .wait (by simp [waiting, hq, hv])
  | reqBeforeClean => simpa only [step, hq] using Moves.relook hq
  | checkBeforeClean =>
    simp only [step, hq]
    split_ifs with hm
    · exact .upgrade hq hm
    · exact .gone hq (by simpa using hm)
  | sendClean =>
    simp only [step, hq]
    split_ifs with hv hc
    · exact .refetch hq hv hc
    · exact .cleaned hq hv (by simpa using hc)
    · exact hq ▸ .wait (by simp [waiting, hq, hv])
  | _ => exact moves_maintenance (by simp [occupied, hq]) (by simp [hq])

section Targets
variable {q : MissHandler} {i : MissIn}

theorem step_missRepl (h : (q.step i).state = .missRepl) :
    q.state = .miss ∧ (q.step i).mshr = q.mshr := by
  unfold step at h ⊢
  cases hq : q.state <;>
    simp only [hq, stepIdle, stepMissRepl, stepSave, stepFlushing, stepAmoWb, refillState] at h ⊢ <;> grind

theorem step_checkBeforeClean (h : (q.step i).state = .checkBeforeClean) :
    q.state = .reqBeforeClean ∧ (q.step i).mshr = q.mshr := by
  unfold step at h ⊢
  cases hq : q.state <;>
    simp only [hq, stepIdle, stepMissRepl, stepSave, stepFlushing, stepAmoWb, refillState] at h ⊢ <;> grind

theorem step_flushing (h : (q.step i).state = .flushing) :
    q.state = .flushReqStatus ∧ (q.step i).cnt = q.cnt := by
  unfold step at h ⊢
  cases hq : q.state <;>
    simp only [hq, stepIdle, stepMissRepl, stepSave, stepFlushing, stepAmoWb, refillState] at h ⊢ <;> grind

/-- SEND_CLEAN is entered from a successful check and notes every invalidation of its line. -/
theorem step_sendClean (h : (q.step i).state = .sendClean) :
    (q.state = .checkBeforeClean ∧ anyWay (q.matchingWay i) = true ∨ q.state = .sendClean) ∧
      (q.step i).collidingClean = q.detectClean i ∧ (q.step i).mshr = q.mshr := by
  have hm := moves q i
  generalize q.step i = d at hm h
  cases hm with
  | allocate => grind
  | upgrade hq hm => exact ⟨.inl ⟨hq, hm⟩, rfl, rfl⟩
  | wait hw => exact ⟨.inr h, rfl, rfl⟩
  | other _ _ hd => simp [occupied, h] at hd
  | _ => grind [refillState]

theorem step_wbCachelineMiss (h : (q.step i).state = .wbCachelineMiss) :
    (q.state = .missRepl ∧
      q.step i = { q with state := .wbCachelineMiss, collidingClean := q.detectClean i
                          evictWay := oneHot q.lfsrBin, lfsr := q.lfsrNext
                          evictCl := { q.evictCl with tag := (i.rdata q.lfsrBin).tag
                                                      data := (i.rdata q.lfsrBin).data
                                                      dirty := (i.rdata q.lfsrBin).dirty }
                          cnt := q.mshr.addr.index }) ∨
      (q.state = .wbCachelineMiss ∧ i.axi.valid = false ∧
        q.step i = { q with collidingClean := q.detectClean i }) := by
  have hm := moves q i
  generalize q.step i = d at hm h
  cases hm with
  | allocate => grind
  | dirty hq => exact .inl ⟨hq, rfl⟩
  | wait hw => exact .inr ⟨h, by grind [waiting], rfl⟩
  | other _ _ hd => simp [occupied, h] at hd
  | _ => grind [refillState]

theorem step_saveCacheline (h : (q.step i).state = .saveCacheline) :
    (q.step i).mshr = q.mshr ∧ (q.step i).evictWay = q.evictWay ∧
      (((q.state = .reqCacheline ∨ q.state = .reqCachelineUnique) ∧ i.axi.gnt = true) ∨
        q.state = .saveCacheline ∧ i.axi.valid = false) := by
  have hm := moves q i
  generalize q.step i = d at hm h
  cases hm with
  | allocate => grind
  | granted hq hg => exact ⟨rfl, rfl, .inl ⟨.inl hq, hg⟩⟩
  | grantedUnique hq hg => exact ⟨rfl, rfl, .inl ⟨.inr hq, hg⟩⟩
  | wait hw => exact ⟨rfl, rfl, .inr ⟨h, by grind [waiting]⟩⟩
  | other _ _ hd => simp [occupied, h] at hd
  | _ => grind [refillState]

end Targets
end MissHandler

/-- Valid, shared and dirty bits cleared. -/
def CacheLine.invalidated (l : CacheLine) : CacheLine :=
  { l with dirty := fun _ => false, valid := false, shared := false }

/-- The line after the array write of a store. -/
def CacheCtrl.storeLine (q : CacheCtrl) (l : CacheLine) : CacheLine where
  tag := l.tag
  data b := if placeBe q.memReq.addr.word q.memReq.be b then q.memReq.wdata (laneOfByte b) else l.data b
  dirty b := placeBe q.memReq.addr.word q.memReq.be b || l.dirty b
  valid := true
  shared := false

namespace Nbdcache
variable {c : Cfg} {s : Nbdcache} {i : CacheIn}

theorem ramPort_of_gnt {k : Port} (hg : s.gnt c i k = true) (ha : (s.ports c i k).active = true) :
    s.ramPort c i = s.ports c i k := by
  rw [ramPort, selected_of_gnt hg ha]

theorem step_arr_of_gnt {k : Port} (hg : s.gnt c i k = true) (ha : (s.ports c i k).active = true) :
    (s.step c i).arr = s.arr.write (s.ports c i k) := by
  rw [← ramPort_of_gnt hg ha]
  rfl

theorem gnt_one : s.gnt c i 1 = s.snoopGnt c i := by
  rw [Bool.eq_iff_iff, gnt, gnt_iff, snoopGnt, Bool.not_eq_true']
  constructor
  · intro h
    exact h 0 (by decide)
  · intro h j hj
    rw [(Fin.lt_one_iff j).mp hj]
    exact h

/-- A granted full-set lookup is answered in the next cycle with the set as it then is. -/
theorem step_of_lookup {k : Port} {a : Index} (hg : s.gnt c i k = true)
    (hp : s.ports c i k = .lookup a) :
    (s.step c i).arr = s.arr ∧ (∀ w, (s.step c i).rd.rdata w = s.arr a w) ∧
      (s.step c i).idq = some k := by
  have ha : (s.ports c i k).active = true := by simp [hp]
  have hr : s.ramPort c i = .lookup a := (ramPort_of_gnt hg ha).trans hp
  refine ⟨?_, fun w => ?_, ?_⟩
  · simp only [step, hr]
    exact CacheArray.write_of_not_we rfl
  · simp only [step, hr]
    exact ReadRegs.step_lookup _ _ rfl rfl w
  · simp only [step, selected_of_gnt hg ha]

/-- The controller writes its store to the array in this cycle. -/
def storeGranted (c : Cfg) (s : Nbdcache) (i : CacheIn) (p : Fin 3) : Bool :=
  (s.ctrl p).storing (s.ctrlIn c i p) && s.ctrlGnt c i p

/-- The six ways in which a cycle can treat one line of the array. -/
inductive LineEvent (c : Cfg) (s : Nbdcache) (i : CacheIn) (idx : Index) (w : Way) : CacheLine → Prop
  | keep : LineEvent c s i idx w (s.arr idx w)
  | save (h : s.miss.saves (s.missIn c i) = true) (hi : idx = s.miss.mshr.addr.index)
      (hw : s.miss.evictWay w = true) : LineEvent c s i idx w (s.miss.saveLine (s.missAxi c i))
  | clear (ways : WaySet) (h : s.miss.cleared (s.missIn c i) = some (idx, ways)) (hw : ways w = true) :
      LineEvent c s i idx w (s.arr idx w).invalidated
  | share (h : s.snoop.state = .updateShared) (hg : s.snoopGnt c i = true)
      (hi : idx = s.snoop.memReq.index) (hw : s.snoop.hitWay w = true) :
      LineEvent c s i idx w { s.arr idx w with shared := true }
  | invalidate (h : s.snoop.state = .invalidate) (hg : s.snoopGnt c i = true)
      (hi : idx = s.snoop.memReq.index) (hw : s.snoop.hitWay w = true) :
      LineEvent c s i idx w (s.arr idx w).invalidated
  | store (p : Fin 3) (h : s.storeGranted c i p = true) (hi : idx = (s.ctrl p).memReq.index)
      (hw : (s.ctrl p).hitWay w = true) : LineEvent c s i idx w ((s.ctrl p).storeLine (s.arr idx w))

theorem ports_ctrl (p : Fin 3) : s.ports c i (ctrlPortId p) = s.ctrlPort c i p := by
  fin_cases p <;> rfl

end Nbdcache

namespace CacheLine
variable (l : CacheLine) (w : Way)

theorem write_storeWrite (q : CacheCtrl) :
    l.write q.storeWrite w = if q.hitWay w then q.storeLine l else l := by
  cases h : q.hitWay w
  · simp [write, CacheCtrl.storeWrite, h, VldrtyBe.none]
  · simp only [write, CacheCtrl.storeWrite, CacheCtrl.storeLine, h, placeWord]
    congr 1
    · funext b
      grind [placeBe]
    · funext b
      grind

theorem write_clearStatus (a : Index) (ways : WaySet) :
    l.write (MissHandler.clearStatus a ways) w = if ways w then l.invalidated else l := by
  cases h : ways w <;>
    simp [write, MissHandler.clearStatus, ClBe.status, ClBe.none, VldrtyBe.none, VldrtyBe.all, zero,
      invalidated, h]

theorem write_saveWrite (q : MissHandler) (a : MissAxi) :
    l.write (q.saveWrite a) w = if q.evictWay w then q.saveLine a else l := by
  cases h : q.evictWay w <;>
    simp [write, MissHandler.saveWrite, ClBe.status, ClBe.none, VldrtyBe.none, VldrtyBe.all, h]

theorem write_updateShared (q : SnoopCtrl) :
    l.write q.updateSharedWrite w = if q.hitWay w then { l with shared := true } else l := by
  cases h : q.hitWay w <;>
    simp [write, SnoopCtrl.updateSharedWrite, ClBe.none, VldrtyBe.none, zero, h]

theorem write_invalidate (q : SnoopCtrl) :
    l.write q.invalidateWrite w = if q.hitWay w then l.invalidated else l := by
  cases h : q.hitWay w <;>
    simp [write, SnoopCtrl.invalidateWrite, ClBe.status, ClBe.none, VldrtyBe.none, VldrtyBe.all, zero,
      invalidated, h]

end CacheLine

namespace Nbdcache
variable {c : Cfg} {s : Nbdcache} {i : CacheIn}

theorem storing_of_write {q : CacheCtrl} {j : CtrlIn} (h : (q.port j).we = true) :
    q.storing j = true ∧ q.port j = q.storeWrite := by
  unfold CacheCtrl.port at h ⊢
  cases hq : q.state <;> simp only [hq, CacheCtrl.storing] at h ⊢ <;>
    grind [ArrayPort.lookup_we, ArrayPort.idle_we]

theorem snoop_write {q : SnoopCtrl} {j : SnoopIn} (h : (q.port j).we = true) :
    (q.state = .updateShared ∧ q.port j = q.updateSharedWrite) ∨
      (q.state = .invalidate ∧ q.port j = q.invalidateWrite) := by
  unfold SnoopCtrl.port at h ⊢
  cases hq : q.state <;> simp only [hq] at h ⊢ <;> grind [ArrayPort.lookup_we, ArrayPort.idle_we]

/-- The selected port is granted, so that its owner sees the grant. -/
theorem port_cases (k : Port) : k = 0 ∨ k = 1 ∨ ∃ p : Fin 3, k = ctrlPortId p := by
  fin_cases k
  · exact .inl rfl
  · exact .inr (.inl rfl)
  · exact .inr (.inr ⟨0, rfl⟩)
  · exact .inr (.inr ⟨1, rfl⟩)
  · exact .inr (.inr ⟨2, rfl⟩)

/-- A write by the selected port is one of the five writing events. -/
theorem lineEvent_of_write {k : Port} (hg : s.gnt c i k = true) (hw : (s.ports c i k).we = true)
    {idx : Index} (hi : idx = (s.ports c i k).addr) (w : Way) :
    LineEvent c s i idx w ((s.arr idx w).write (s.ports c i k) w) := by
  obtain rfl | rfl | ⟨p, rfl⟩ := port_cases k
  · rcases MissHandler.port_write hw with ⟨h, hp⟩ | ⟨a, ways, h, hp⟩
    · have hp' : s.ports c i 0 = s.miss.saveWrite (s.missAxi c i) := hp
      rw [hp'] at hi ⊢
      rw [CacheLine.write_saveWrite]
      split_ifs with hv
      · exact .save h hi hv
      · exact .keep
    · have hp' : s.ports c i 0 = MissHandler.clearStatus a ways := hp
      rw [hp'] at hi ⊢
      rw [CacheLine.write_clearStatus]
      obtain rfl : idx = a := hi
      split_ifs with hv
      · exact .clear ways h hv
      · exact .keep
  · rw [gnt_one] at hg
    rcases snoop_write hw with ⟨h, hp⟩ | ⟨h, hp⟩
    · have hp' : s.ports c i 1 = s.snoop.updateSharedWrite := hp
      rw [hp'] at hi ⊢
      rw [CacheLine.write_updateShared]
      split_ifs with hv
      · exact .share h hg hi hv
      · exact .keep
    · have hp' : s.ports c i 1 = s.snoop.invalidateWrite := hp
      rw [hp'] at hi ⊢
      rw [CacheLine.write_invalidate]
      split_ifs with hv
      · exact .invalidate h hg hi hv
      · exact .keep
  · rw [ports_ctrl] at hw hi ⊢
    obtain ⟨h, hp⟩ := storing_of_write hw
    have hp' : s.ctrlPort c i p = (s.ctrl p).storeWrite := hp
    rw [hp'] at hi ⊢
    rw [CacheLine.write_storeWrite]
    split_ifs with hv
    · exact .store p (by rw [storeGranted, h, ctrlGnt, hg]; rfl) hi hv
    · exact .keep

/-- The miss handler is never refused, so that the ways it clears are cleared. -/
theorem step_arr_of_cleared {idx : Index} {ways : WaySet}
    (h : s.miss.cleared (s.missIn c i) = some (idx, ways)) (w : Way) :
    (s.step c i).arr idx w = if ways w then (s.arr idx w).invalidated else s.arr idx w := by
  have hp : s.ports c i 0 = MissHandler.clearStatus idx ways := MissHandler.port_of_cleared h
  have ha : (MissHandler.clearStatus idx ways).active = true := by
    simp [ArrayPort.active, MissHandler.clearStatus]
  rw [step_arr_of_gnt (k := 0) (gnt_zero _) (by rw [hp]; exact ha), hp, CacheArray.write,
    if_pos (by rw [ha]; simp [MissHandler.clearStatus]), CacheLine.write_clearStatus]

/-- Every line of the next array comes from the present one by one of the six events. -/
theorem step_line (c : Cfg) (s : Nbdcache) (i : CacheIn) (idx : Index) (w : Way) :
    LineEvent c s i idx w ((s.step c i).arr idx w) := by
  have harr : (s.step c i).arr idx w = s.arr.write (s.ramPort c i) idx w := rfl
  rw [harr, CacheArray.write]
  split_ifs with h
  · simp only [Bool.and_eq_true, beq_iff_eq] at h
    exact lineEvent_of_write (gnt_selected _) h.1.2 h.2 w
  · exact .keep

end Nbdcache
end Culsans.Dcache
