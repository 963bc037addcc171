import Culsans.Dcache.Eviction

/-! # The requests of a controller

Where a controller takes up a new request, where it has handed it to the bypass, and what
becomes of a kill.
-/

namespace Culsans.Dcache

namespace CacheCtrl
variable {c : Cfg} {q : CacheCtrl} {i : CtrlIn} {gnt : Bool}

/-- A new request is taken up: from IDLE, or with the answer to the one before. -/
def begins (c : Cfg) (q : CacheCtrl) (i : CtrlIn) (gnt : Bool) : Bool :=
  (q.state == .idle && !((q.step c i gnt).state == .idle)) ||
    ((q.lookingUp || q.state == .waitCriticalWord) && q.dataGnt i gnt)

/-- The request has not been handed to the bypass. -/
def pending (q : CacheCtrl) : Bool := !(q.state == .idle) && !(q.state == .waitRefillValid)

/-- A granted bypass request goes astray: the MSHR of another port holds its line. -/
def strays (q : CacheCtrl) (i : CtrlIn) : Bool :=
  q.state == .waitRefillGnt && i.bypassGnt && i.mshrAddrMatches && !i.activeServing

theorem begins_of_bypassing (h : q.state = .waitRefillGnt ∨ q.state = .waitRefillValid) :
    q.begins c i gnt = false := by
  rcases h with h | h <;> simp [begins, lookingUp, h]

/-- A request that is taken up is one that has not been handed over. -/
theorem step_pending (h : (q.step c i gnt).pending = true) :
    q.begins c i gnt = true ∨
      (q.pending = true ∧ (q.state = .waitRefillGnt → i.bypassGnt = true → i.missGnt = true ∨ q.strays i = true)) := by
  by_cases hi : q.state = .idle
  · left
    simp only [pending, Bool.and_eq_true] at h
    simp [begins, hi, h.1]
  · have hs : q.step c i gnt = q.stepState c i gnt := (step_eq_stepState (by grind [pending])).1
    rw [hs] at h
    unfold stepState at h
    refine .inr ⟨?_, fun hq hb => ?_⟩
    · cases hq : q.state <;> simp [pending, hq] at hi ⊢
      simp only [hq, stepWaitRefillValid, base, pending] at h
      grind
    · simp only [hq, stepWaitRefillGnt, base, pending] at h
      grind [strays]

/-- A granted bypass request waits for its answer. -/
theorem step_handed (hq : q.state = .waitRefillGnt) (hb : i.bypassGnt = true) (hm : i.missGnt = false)
    (hs : q.strays i = false) : (q.step c i gnt).state = .waitRefillValid := by
  simp only [strays, hq, hb] at hs
  cases ha : i.mshrAddrMatches <;> cases hv : i.activeServing <;>
    simp_all [step, stepState, stepWaitRefillGnt, unkillable]

theorem step_answered (hq : q.state = .waitRefillValid) (h : (q.step c i gnt).state = .waitRefillValid) :
    i.bypassValid = false := by
  simp only [step, stepState, stepWaitRefillValid, base, hq] at h
  grind

theorem step_unanswered (hq : q.state = .waitRefillValid) (hv : i.bypassValid = false)
    (hk : i.reqPort.killReq = false) : (q.step c i gnt).state = .waitRefillValid := by
  simp [step, stepState, stepWaitRefillValid, base, hq, hv, hk]

/-- A kill is remembered until the next request; only cacheable lines are hit. -/
theorem step_killed (hc : q.lookingUp = true → anyWay i.hitWay = true →
      c.isInsideCacheableRegions (q.tagO i.reqPort) = true) (h : (q.step c i gnt).state ≠ .idle) :
    (q.step c i gnt).memReq.killed = if q.begins c i gnt then i.reqPort.killReq
      else q.memReq.killed || i.reqPort.killReq := by
  obtain ⟨hs, hk⟩ := step_eq_stepState h
  simp only [begins, hs]
  rw [hs] at h
  unfold stepState at h ⊢
  cases hq : q.state <;>
    simp only [hq, lookingUp, dataGnt, stepIdle, stepWaitTag, stepHit, stepWaitGnt, stepMakeUnique, stepStoreReq,
      stepWaitMshr, stepWaitTagBypassed, stepWaitRefillGnt, stepWaitCriticalWord,
      stepWaitRefillValid, base, MemReq.save, unkillable] at hc hk h ⊢ <;> grind

end CacheCtrl

namespace Nbdcache
open TagCmp
variable {c : Cfg} {s : Nbdcache} {i : CacheIn}

/-- The lines of the cache, and those that stores have hit, are cacheable. -/
structure LinesCacheable (c : Cfg) (s : Nbdcache) : Prop where
  valid : ∀ idx w, (s.arr idx w).valid = true → c.isInsideCacheableRegions (s.arr idx w).tag = true
  stored : ∀ p, (s.ctrl p).state = .makeUnique ∨ (s.ctrl p).state = .storeReq → ∀ w, (s.ctrl p).hitWay w = true →
    c.isInsideCacheableRegions (s.arr (s.ctrl p).memReq.index w).tag = true

/-- A tag is only replaced by that of the MSHR. -/
theorem cacheable_tag_step (hm : s.MshrInv) (hr : s.RequestInv c) {idx : Index} {w : Way}
    (h : c.isInsideCacheableRegions (s.arr idx w).tag = true) :
    c.isInsideCacheableRegions ((s.step c i).arr idx w).tag = true := by
  have hl := step_line c s i idx w
  generalize (s.step c i).arr idx w = l at hl
  cases hl with
  | save hs => exact hr.mshr (mshr_valid_of_saves hm hs)
  | _ => exact h

/-- A store that reaches its permission has hit cacheable lines. -/
theorem stored_cacheable_step (hb : s.Basic) (hr : s.RequestInv c) (h : s.LinesCacheable c) (p : Fin 3)
    (hs : ((s.step c i).ctrl p).state = .makeUnique ∨ ((s.step c i).ctrl p).state = .storeReq) (w : Way)
    (hw : ((s.step c i).ctrl p).hitWay w = true) :
    c.isInsideCacheableRegions ((s.step c i).arr ((s.step c i).ctrl p).memReq.index w).tag = true := by
  have hhit : CacheCtrl.StoreHit c (s.ctrl p) (s.ctrlIn c i p) ((s.step c i).ctrl p) →
      c.isInsideCacheableRegions ((s.step c i).arr ((s.step c i).ctrl p).memReq.index w).tag = true := fun hh => by
    have hold := (holds_of_lookup hb.lookups hh.looking).mp ((congrFun hh.hitWay w).symm.trans hw)
    have hidx : ((s.step c i).ctrl p).memReq.index = (s.ctrl p).memReq.index := congrArg PAddr.index hh.memReq
    rw [hidx]
    exact cacheable_tag_step hb.mshr hr (h.valid _ _ hold.1)
  have hsame : (s.ctrl p).SameRequest ((s.step c i).ctrl p) →
      ((s.ctrl p).state = .makeUnique ∨ (s.ctrl p).state = .storeReq) →
      c.isInsideCacheableRegions ((s.step c i).arr ((s.step c i).ctrl p).memReq.index w).tag = true := fun hd hq => by
    have hidx : ((s.step c i).ctrl p).memReq.index = (s.ctrl p).memReq.index := congrArg PAddr.index hd.2.1
    rw [hidx]
    exact cacheable_tag_step hb.mshr hr (h.stored p hq w (hd.1 ▸ hw))
  rcases hs with hs | hs
  · rcases CacheCtrl.step_makeUnique hs with hh | ⟨hq, -, hd, -⟩ | ⟨hq, -, -, hd⟩
    · exact hhit hh
    · exact hsame hd (.inl hq)
    · exact hsame hd (.inr hq)
  · rcases CacheCtrl.step_storeReq hs with hh | ⟨hq, -, -, hd, -⟩ | ⟨hq, -, -, hd, -⟩
    · exact hhit hh
    · exact hsame hd (.inl hq)
    · exact hsame hd (.inr hq)

theorem linesCacheable_step (hb : s.Basic) (hr : s.RequestInv c) (h : s.LinesCacheable c) :
    (s.step c i).LinesCacheable c where
  valid idx w hv := by
    have hl := step_line c s i idx w
    generalize (s.step c i).arr idx w = l at hl hv
    cases hl with
    | keep => exact h.valid idx w hv
    | save hs => exact hr.mshr (mshr_valid_of_saves hb.mshr hs)
    | clear | invalidate => simp [CacheLine.invalidated] at hv
    | share => exact h.valid idx w hv
    | store p hs hi hw =>
      simp only [storeGranted, CacheCtrl.storing, Bool.and_eq_true, beq_iff_eq] at hs
      subst hi
      exact h.stored p (.inr hs.1.1.1.1) w hw
  stored := stored_cacheable_step hb hr h

theorem linesCacheable_init (h : s.IsReset) : s.LinesCacheable c := by
  constructor <;> simp [h.arr, h.ctrl, CacheCtrl.reset]

/-- A lookup that hits is for a cacheable address. -/
theorem cacheable_of_hit (hl : s.Lookups) (h : s.LinesCacheable c) {p : Fin 3} (hp : (s.ctrl p).lookingUp = true)
    (hh : anyWay (s.hitWay i) = true) : c.isInsideCacheableRegions ((s.ctrl p).tagO (i.reqPorts p)) = true := by
  obtain ⟨w, hw⟩ := anyWay_iff.mp hh
  obtain ⟨hv, ht⟩ := (holds_of_lookup hl hp).mp hw
  have hc := h.valid _ _ hv
  rwa [ht] at hc

end Nbdcache
end Culsans.Dcache
