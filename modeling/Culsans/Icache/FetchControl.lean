import Culsans.Icache.FetchLedger

/-! # The control of the instruction cache

What the state machine does in each state when there are no invalidations, and the requests and
returns that follow.
-/

namespace Culsans.Icache
open Library

variable {c : ArianeCfg} {q : Cva6Icache} {i : IcacheIn}

/-! ### What each state does -/

/-- The lookup gives an answer: there is a hit, or an exception. -/
def Cva6Icache.answers (q : Cva6Icache) (i : IcacheIn) : Bool := q.clHit i != 0 && q.cacheEn || i.fetchException

/-- There is a translation that may be used. -/
def translates (c : ArianeCfg) (i : IcacheIn) : Bool := i.fetchValid && (!i.spec || !Cva6Icache.addrNi c i)

/-- The outputs in the lookup state before a decision is made. -/
def Cva6Icache.lookup (q : Cva6Icache) (i : IcacheIn) : Fsm :=
  { q.fsmDefault i with fetchReq := true, cmpEnD := q.cacheEn, cacheRden := q.cacheEn }

/-- What the state machine does, by its state. -/
inductive Does (c : ArianeCfg) (q : Cva6Icache) (i : IcacheIn) : Fsm → Prop
  | clear (hs : q.state = .flush) :
      Does c q i { q.fsmDefault i with
        flushEn := true, stateD := if q.flushDone then .idle else .flush,
        flushD := if q.flushDone then false else q.flushQ || i.flush,
        cacheEnD := if q.flushDone then i.en else (q.cacheEn || i.initN) && i.en }
  | enter (hs : q.state = .idle) : Does c q i { q.fsmDefault i with cmpEnD := q.cacheEn, stateD := .flush }
  | stall (hs : q.state = .idle) (he : (i.en && !q.cacheEn && !i.initN) = false) :
    Does c q i { q.fsmDefault i with cmpEnD := q.cacheEn }
  | accept (hs : q.state = .idle) (he : (i.en && !q.cacheEn && !i.initN) = false) (hf : (q.flushQ || i.flush) = false) :
      Does c q i { q.fsmDefault i with
        cmpEnD := q.cacheEn, ready := true, cacheRden := i.req,
        stateD := if i.req && !i.killS1 then .read else .idle }
  | drop (hs : q.state = .read) (ht : translates c i = true) (hk : (i.killS2 || (q.flushQ || i.flush)) = true) :
      Does c q i { q.lookup i with stateD := .idle }
  | answer (hs : q.state = .read) (ht : translates c i = true) (hf : (q.flushQ || i.flush) = false)
    (ha : q.answers i = true) :
      Does c q i { q.lookup i with
        valid := !i.killS2, ready := true,
        stateD := if i.req && !i.killS1 then .read else .idle }
  | fetch (hs : q.state = .read) (ht : translates c i = true) (hf : (q.flushQ || i.flush) = false)
    (ha : q.answers i = false) (hk : i.killS2 = false) :
      Does c q i { q.lookup i with
        cmpEnD := false, memDataReq := true,
        miss := i.memDataAck && !q.paddrIsNc c i, stateD := if i.memDataAck then .miss else .read }
  | abandon (hs : q.state = .read) (ht : translates c i = false) (hk : (i.killS2 || (q.flushQ || i.flush)) = true) :
      Does c q i { q.lookup i with stateD := .killAtrans }
  | wait (hs : q.state = .read) (ht : translates c i = false) (hk : (i.killS2 || (q.flushQ || i.flush)) = false) :
    Does c q i (q.lookup i)
  | fill (hs : q.state = .miss) (ha : i.ifillAck = true) (hk : (i.killS2 || (q.flushQ || i.flush)) = false) :
      Does c q i { q.fsmDefault i with stateD := .idle, valid := true, cacheWren := !q.paddrIsNc c i }
  | discard (hs : q.state = .miss) (ha : i.ifillAck = true) (hk : (i.killS2 || (q.flushQ || i.flush)) = true) :
      Does c q i { q.fsmDefault i with stateD := .idle }
  | kill (hs : q.state = .miss) (ha : i.ifillAck = false) (hk : (i.killS2 || (q.flushQ || i.flush)) = true) :
      Does c q i { q.fsmDefault i with stateD := .killMiss }
  | pend (hs : q.state = .miss) (ha : i.ifillAck = false) (hk : (i.killS2 || (q.flushQ || i.flush)) = false) :
    Does c q i (q.fsmDefault i)
  | killAtrans (hs : q.state = .killAtrans) :
      Does c q i { q.fsmDefault i with fetchReq := true, stateD := if i.fetchValid then .idle else .killAtrans }
  | killMiss (hs : q.state = .killMiss) : Does c q i { q.fsmDefault i with
    stateD := if i.ifillAck then .idle else .killMiss }

theorem fsm_read (hs : q.state = .read) (hr : i.memRtrnVld = false) (hq : q.invQ = false) : Does c q i (q.fsm c i) := by
  have he : q.fsm c i = q.fsmRead c i := by rw [Cva6Icache.fsm, hs]
  have key {f : Fsm} (h : q.fsmRead c i = f) (d : Does c q i f) : Does c q i (q.fsm c i) := (he.trans h) ▸ d
  cases ht : translates c i with
  | false =>
    have hc : ¬(i.fetchValid && (!i.spec || !Cva6Icache.addrNi c i)) = true := Bool.eq_false_iff.mp ht
    cases hk : i.killS2 || (q.flushQ || i.flush) with
    | true =>
      refine key ?_ (.abandon hs ht hk)
      rw [Cva6Icache.fsmRead, if_neg hc]
      exact if_pos hk
    | false =>
      refine key ?_ (.wait hs ht hk)
      rw [Cva6Icache.fsmRead, if_neg hc]
      exact if_neg (Bool.eq_false_iff.mp hk)
  | true =>
    have hc : (i.fetchValid && (!i.spec || !Cva6Icache.addrNi c i)) = true := ht
    cases hf : q.flushQ || i.flush with
    | true =>
      refine key ?_ (.drop hs ht (by rw [hf, Bool.or_true]))
      rw [Cva6Icache.fsmRead, if_pos hc]
      exact if_pos hf
    | false =>
      have hfd : ¬(q.lookup i).flushD = true := Bool.eq_false_iff.mp hf
      cases ha : q.answers i with
      | true =>
        have hans : ((q.clHit i != 0 && q.cacheEn || i.fetchException) && !q.invQ) = true := by
          rw [hq, Bool.not_false, Bool.and_true]
          exact ha
        refine key ?_ (.answer hs ht hf ha)
        rw [Cva6Icache.fsmRead, if_pos hc]
        refine (if_neg hfd).trans ((if_pos hans).trans ?_)
        simp only [hr, Bool.not_false, if_true, Cva6Icache.lookup]
        cases i.req <;> cases i.killS1 <;> rfl
      | false =>
        have hans : ¬((q.clHit i != 0 && q.cacheEn || i.fetchException) && !q.invQ) = true := by
          rw [hq, Bool.not_false, Bool.and_true]
          exact Bool.eq_false_iff.mp ha
        cases hk : i.killS2 with
        | true =>
          refine key ?_ (.drop hs ht (by rw [hk, Bool.true_or]))
          rw [Cva6Icache.fsmRead, if_pos hc]
          exact (if_neg hfd).trans ((if_neg hans).trans (if_pos hk))
        | false =>
          refine key ?_ (.fetch hs ht hf ha hk)
          rw [Cva6Icache.fsmRead, if_pos hc]
          refine (if_neg hfd).trans ((if_neg hans).trans ((if_neg (Bool.eq_false_iff.mp hk)).trans ?_))
          simp only [hq, Bool.not_false, if_true, Cva6Icache.lookup]
          cases i.memDataAck
          · simp [Cva6Icache.fsmDefault, hs]
          · simp

theorem fsm_idle (hs : q.state = .idle) (hr : i.memRtrnVld = false) : Does c q i (q.fsm c i) := by
  have he : q.fsm c i = q.fsmIdle i := by rw [Cva6Icache.fsm, hs]
  have key {f : Fsm} (h : q.fsmIdle i = f) (d : Does c q i f) : Does c q i (q.fsm c i) := (he.trans h) ▸ d
  cases hf : q.flushQ || i.flush with
  | true =>
    refine key ?_ (.enter hs)
    simp [Cva6Icache.fsmIdle, Cva6Icache.fsmDefault, hf]
  | false =>
    cases hen : i.en && !q.cacheEn && !i.initN with
    | true =>
      refine key ?_ (.enter hs)
      simp only [Cva6Icache.fsmIdle, Cva6Icache.fsmDefault, hf, hen, Bool.or_true, if_true]
    | false =>
      cases hst : i.stall with
      | true =>
        refine key ?_ (.stall hs hen)
        simp only [Cva6Icache.fsmIdle, Cva6Icache.fsmDefault, hf, hen, hst, Bool.or_false, Bool.not_true,
          Bool.false_eq_true, if_false]
      | false =>
        refine key ?_ (.accept hs hen hf)
        simp only [Cva6Icache.fsmIdle, Cva6Icache.fsmDefault, hf, hen, hst, hr, hs, Bool.or_false, Bool.not_false,
          Bool.false_eq_true, if_false, if_true]
        cases i.req <;> cases i.killS1 <;> rfl

theorem fsm_flush (hs : q.state = .flush) : Does c q i (q.fsm c i) := by
  have he : q.fsm c i = q.fsmFlush i := by rw [Cva6Icache.fsm, hs]
  have hd := Does.clear (c := c) (i := i) hs
  rw [he, Cva6Icache.fsmFlush]
  cases hdone : q.flushDone with
  | true =>
    rw [hdone] at hd
    exact hd
  | false =>
    rw [hdone] at hd
    simpa [Cva6Icache.fsmDefault, hs] using hd

theorem fsm_miss (hs : q.state = .miss) : Does c q i (q.fsm c i) := by
  have he : q.fsm c i = q.fsmMiss c i := by rw [Cva6Icache.fsm, hs]
  rw [he, Cva6Icache.fsmMiss]
  cases ha : i.ifillAck <;> cases hk : i.killS2 || (q.flushQ || i.flush)
  case true.false => simpa [Cva6Icache.fsmDefault, hk] using Does.fill (c := c) hs ha hk
  case true.true => simpa [Cva6Icache.fsmDefault, hk] using Does.discard (c := c) hs ha hk
  case false.true => simpa [Cva6Icache.fsmDefault, hk] using Does.kill (c := c) hs ha hk
  case false.false => simpa [Cva6Icache.fsmDefault, hk] using Does.pend (c := c) hs ha hk

theorem fsm_killAtrans (hs : q.state = .killAtrans) : Does c q i (q.fsm c i) := by
  have hd := Does.killAtrans (c := c) (i := i) hs
  rw [Cva6Icache.fsm, hs]
  cases hv : i.fetchValid <;> simpa [Cva6Icache.fsmKillAtrans, Cva6Icache.fsmDefault, hv, hs] using hd

theorem fsm_killMiss (hs : q.state = .killMiss) : Does c q i (q.fsm c i) := by
  have hd := Does.killMiss (c := c) (i := i) hs
  rw [Cva6Icache.fsm, hs]
  cases ha : i.ifillAck <;> simpa [Cva6Icache.fsmKillMiss, Cva6Icache.fsmDefault, ha, hs] using hd

/-! ### Requests and returns -/

variable {x : Cva6Icache × Ledger}

/-- A request that waits for its answer is looked up or fetched, and a return is awaited for each
memory request that has been sent and not answered. -/
structure Control (x : Cva6Icache × Ledger) : Prop where
  live : x.2.live = true ↔ x.1.state = .read ∨ x.1.state = .miss
  quiet : x.1.state = .read ∨ x.1.state = .miss → x.1.flushQ = false
  outstanding : x.2.outstanding.isSome = true ↔ x.1.state = .miss ∨ x.1.state = .killMiss
  count : x.2.sent = x.2.consumed + x.2.outstanding.isSome.toNat
  invQ : x.1.invQ = false
  flushCnt : x.1.state ≠ .flush → x.1.flushCnt = 0
  cleared : x.1.state ≠ .flush → x.2.cleared = true

theorem Env.invEn_eq (hi : Env c x i) : i.invEn = false := by
  rw [IcacheIn.invEn]
  cases hr : i.memRtrnVld with
  | false => rfl
  | true => rw [hi.noInval hr]; rfl

namespace Control

/-- Nothing returns if nothing has been asked for. -/
theorem memRtrnVld_eq (h : Control x) (hi : Env c x i) (hs : x.1.state ≠ .miss ∧ x.1.state ≠ .killMiss) :
    i.memRtrnVld = false := by
  rw [Bool.eq_false_iff]
  intro hr
  rcases h.outstanding.mp (hi.answers hr) with hm | hm
  · exact hs.1 hm
  · exact hs.2 hm

theorem does (h : Control x) (hi : Env c x i) : Does c x.1 i (x.1.fsm c i) := by
  cases hs : x.1.state with
  | flush => exact fsm_flush hs
  | idle => exact fsm_idle hs (h.memRtrnVld_eq hi (by rw [hs]; decide))
  | read => exact fsm_read hs (h.memRtrnVld_eq hi (by rw [hs]; decide)) h.invQ
  | miss => exact fsm_miss hs
  | killAtrans => exact fsm_killAtrans hs
  | killMiss => exact fsm_killMiss hs

theorem ifillAck_eq (h : Control x) (hi : Env c x i) (hs : x.1.state ≠ .miss ∧ x.1.state ≠ .killMiss) :
    i.ifillAck = false := by
  rw [IcacheIn.ifillAck, h.memRtrnVld_eq hi hs, Bool.false_and]

theorem live_step (h : Control x) (hi : Env c x i) : (x.2.watch c x.1 i).live = true ↔
    (x.1.step c i).state = .read ∨ (x.1.step c i).state = .miss := by
  have hd := h.does hi
  have hl := h.live
  have hq := h.quiet
  generalize hf : x.1.fsm c i = f at hd
  simp only [Ledger.watch, Ledger.accepts, Cva6Icache.step, hf]
  clear hf
  cases hd <;> simp_all [Cva6Icache.fsmDefault, Cva6Icache.lookup]
  case clear | killAtrans | killMiss => split_ifs <;> simp
  case drop hk | abandon hk | discard hk | kill hk => rcases hk with hk | hk <;> simp [hk]
  case accept | answer => split_ifs <;> simp_all

theorem quiet_step (h : Control x) (hi : Env c x i) :
    (x.1.step c i).state = .read ∨ (x.1.step c i).state = .miss → (x.1.step c i).flushQ = false := by
  have hd := h.does hi
  generalize hf : x.1.fsm c i = f at hd
  simp only [Cva6Icache.step, hf]
  clear hf
  cases hd <;> simp_all [Cva6Icache.fsmDefault, Cva6Icache.lookup]
  case clear | killAtrans | killMiss => split_ifs <;> simp

theorem outstanding_step (h : Control x) (hi : Env c x i) : (x.2.watch c x.1 i).outstanding.isSome = true ↔
    (x.1.step c i).state = .miss ∨ (x.1.step c i).state = .killMiss := by
  have hd := h.does hi
  have ho := h.outstanding
  have ha := h.ifillAck_eq hi
  generalize hf : x.1.fsm c i = f at hd
  simp only [Ledger.watch, Ledger.sends, Cva6Icache.step, hf]
  clear hf
  cases hd <;> simp_all [Cva6Icache.fsmDefault, Cva6Icache.lookup]
  case clear | accept | answer | killAtrans => split_ifs <;> simp
  case fetch => cases i.memDataAck <;> simp
  case killMiss => cases i.ifillAck <;> simp [ho]

theorem count_step (h : Control x) (hi : Env c x i) : (x.2.watch c x.1 i).sent =
    (x.2.watch c x.1 i).consumed + (x.2.watch c x.1 i).outstanding.isSome.toNat := by
  have hd := h.does hi
  have ho := h.outstanding
  have ha := h.ifillAck_eq hi
  have hc := h.count
  generalize hf : x.1.fsm c i = f at hd
  simp only [Ledger.watch, Ledger.sends, Ledger.consumes, hf]
  clear hf
  cases hd <;> simp_all [Cva6Icache.fsmDefault, Cva6Icache.lookup]
  case fetch => cases i.memDataAck <;> rfl
  case killMiss => cases i.ifillAck <;> simp [ho]

theorem flushCnt_step (h : Control x) (hi : Env c x i) : (x.1.step c i).state ≠ .flush →
    (x.1.step c i).flushCnt = 0 := by
  have hd := h.does hi
  have hc := h.flushCnt
  generalize hf : x.1.fsm c i = f at hd
  simp only [Cva6Icache.step, hf]
  clear hf
  cases hd <;> simp_all [Cva6Icache.fsmDefault, Cva6Icache.lookup]

theorem cleared_step (h : Control x) (hi : Env c x i) : (x.1.step c i).state ≠ .flush →
    (x.2.watch c x.1 i).cleared = true := by
  have hd := h.does hi
  have hc := h.cleared
  generalize hf : x.1.fsm c i = f at hd
  simp only [Cva6Icache.step, Ledger.watch, Ledger.clears, hf]
  clear hf
  cases hd <;> simp_all [Cva6Icache.fsmDefault, Cva6Icache.lookup]

theorem step (h : Control x) (hi : Env c x i) : Control ((icache c).next x i) where
  live := h.live_step hi
  quiet := h.quiet_step hi
  outstanding := h.outstanding_step hi
  count := h.count_step hi
  invQ := hi.invEn_eq
  flushCnt := h.flushCnt_step hi
  cleared := h.cleared_step hi

theorem init {q : Cva6Icache} (hq : q.Init) : Control (q, .empty) where
  live := by simp [Ledger.empty, hq.state]
  quiet := by simp [hq.state]
  outstanding := by simp [Ledger.empty, hq.state]
  count := rfl
  invQ := hq.invQ
  flushCnt := by simp [hq.state]
  cleared := by simp [hq.state]

end Control

theorem control_of_reachable (hr : (icache c).Reachable (Env c) x) : Control x := by
  refine hr.invariant (P := Control) ?_ fun y i h hi => h.step hi
  rintro ⟨q, l⟩ ⟨hq, hl⟩
  obtain rfl : l = Ledger.empty := hl
  exact .init hq

end Culsans.Icache
