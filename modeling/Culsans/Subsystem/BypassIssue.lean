import Culsans.Subsystem.WriteHandshakes
import Culsans.Dcache.Requests

/-! # Bypass requests on the bus

The arbiter of the bypass hands one request at a time to its adapter. What the
adapter puts on AW, W and AR is compared, request by request, with what was granted.
-/

namespace Culsans.Subsystem
open Dcache

/-- A granted request, with its port and its number at that port. -/
structure Granted where
  port : Fin 4
  number : ℕ
  req : BypassReq

/-- A request in the form the bypass adapter takes. -/
def adapterForm (r : BypassReq) : AdapterReq 0 :=
  ⟨r.req, r.reqtype, r.acetype, r.amo, r.id, r.addr, fun _ => r.wdata, r.we, fun _ => r.be, r.size⟩

/-- The AR payload a single read stands for. -/
def arPayload (r : AdapterReq 0) : ArChan where
  addr := r.addr
  len := 0
  size := r.size
  lock := r.amo == .lr
  id := r.id
  snoop := (AxiAdapter.arSnoop r.transType).1
  domain := (AxiAdapter.arSnoop r.transType).2

/-- What has been accepted on AW, W and AR. -/
@[ext] structure Bus where
  aws : List AwChan
  ws : List WChan
  ars : List ArChan

namespace Bus

def empty : Bus := ⟨[], [], []⟩

/-- One cycle adds what has both valid and ready. -/
def next (b : Bus) (o : AxiReq) (a : AxiResp) : Bus where
  aws := if o.awValid && a.awReady then b.aws ++ [o.aw] else b.aws
  ws := if o.wValid && a.wReady then b.ws ++ [o.w] else b.ws
  ars := if o.arValid && a.arReady then b.ars ++ [o.ar] else b.ars

def after (b d : Bus) : Bus := ⟨b.aws ++ d.aws, b.ws ++ d.ws, b.ars ++ d.ars⟩

@[simp] theorem after_empty (b : Bus) : b.after .empty = b := by
  simp [after, empty]

theorem after_next (b d : Bus) (o : AxiReq) (a : AxiResp) : (b.after d).next o a = b.after (d.next o a) := by
  ext1 <;> simp only [next, after] <;> split_ifs <;> simp

/-- Nothing passes while nothing is offered. -/
theorem next_of_quiet (b : Bus) {o : AxiReq} (a : AxiResp) (haw : o.awValid = false) (hw : o.wValid = false)
    (har : o.arValid = false) : b.next o a = b := by
  simp [next, haw, hw, har]

/-- What one request puts on the bus. -/
def ofReq (r : AdapterReq 0) : Bus :=
  if r.we then ⟨[awPayload r], burstOf r, []⟩ else ⟨[], [], [arPayload r]⟩

end Bus

/-- The last word accepted on R. -/
def lastWord (w : Word) (o : AxiReq) (a : AxiResp) : Word := if o.rReady && a.rValid then a.rData else w

/-- What the granted requests put on the bus, in their order. -/
def issued (l : List Granted) : Bus := l.foldl (fun b k => b.after (.ofReq (adapterForm k.req))) .empty

theorem issued_append (l : List Granted) (k : Granted) :
    issued (l ++ [k]) = (issued l).after (.ofReq (adapterForm k.req)) := by
  simp [issued]

section Adapter
variable {r : AdapterReq 0} {q : AxiAdapter 0} {a : AxiResp} {b : Bus} {w : Word}

/-- How far the adapter is with a request, what it has put on the bus for it and the word it has read. -/
def Serving (r : AdapterReq 0) (q : AxiAdapter 0) (b : Bus) (w : Word) : Prop :=
  if r.we then b.ars = [] ∧ ∃ m p, Stage r m q p ∧ b.aws = p.aws ∧ b.ws = p.ws
  else b.aws = [] ∧ b.ws = [] ∧ match q.state with
    | .idle => b.ars = []
    | .waitRValid => b.ars = [arPayload r]
    | .completeRead => b.ars = [arPayload r] ∧ q.cacheLine 0 = w
    | _ => False

theorem serving_start (hi : q.state = .idle) : Serving r q .empty w := by
  unfold Serving
  split_ifs
  · exact ⟨rfl, q.amo, .none, by simp [Stage, hi], rfl, rfl⟩
  · simp [hi, Bus.empty]

theorem serving_read_step (h : Serving r q b w) (hr : r.req = true) (ht : r.type = .singleReq) (hw : r.we = false)
    (hv : q.valid a = false) : Serving r (q.step r a) (b.next (q.axiReq r a) a) (lastWord w (q.axiReq r a) a) := by
  simp only [Serving, hw, Bool.false_eq_true, if_false] at h ⊢
  obtain ⟨haw, hws, hst⟩ := h
  cases hs : q.state <;> simp only [hs] at hst
  case idle =>
    cases hready : a.arReady <;>
      simp [Bus.next, AxiAdapter.axiReq, AxiAdapter.step, AxiAdapter.stepState, AxiAdapter.stepIdle, arPayload,
        hs, hw, ht, hr, hready, haw, hws, hst]
  case waitRValid =>
    cases hrv : a.rValid <;> cases hl : a.rLast <;>
      simp [Bus.next, lastWord, AxiAdapter.axiReq, AxiAdapter.step, AxiAdapter.stepState, AxiAdapter.stepRead, hs,
        hrv, hl, haw, hws, hst]
  case completeRead => simp [AxiAdapter.valid, hs] at hv

theorem serving_write_step (h : Serving r q b w) (hr : r.req = true) (ht : r.type = .singleReq) (hw : r.we = true)
    (hf : q.state = .idle → r.amo = .sc → a.wReady = true → a.awReady = true) (hv : q.valid a = false) :
    Serving r (q.step r a) (b.next (q.axiReq r a) a) (lastWord w (q.axiReq r a) a) := by
  simp only [Serving, hw, if_true] at h ⊢
  obtain ⟨har, m, p, hst, haw, hws⟩ := h
  have hline : r.type = .cacheLineReq → False := fun hl => absurd (ht.symm.trans hl) (by decide)
  have hnext : Stage r m (q.step r a) (p.next (q.axiReq r a) a) :=
    stage_step hst ⟨hr, hw⟩ (fun hl => (hline hl).elim) (fun _ => rfl)
      (fun hi => ⟨fun _ => hf hi, fun hl => (hline hl).elim⟩) (fun _ _ => by simp [ht]) hv
  refine ⟨?_, m, p.next (q.axiReq r a) a, hnext, ?_, ?_⟩
  · have hno : (q.axiReq r a).arValid = false := by
      cases hs : q.state <;> simp [AxiAdapter.axiReq, hs, hr, hw]
    simp [Bus.next, hno, har]
  · simp only [Bus.next, Passed.next, haw]
  · simp only [Bus.next, Passed.next, hws]

theorem serving_step (h : Serving r q b w) (hr : r.req = true) (ht : r.type = .singleReq)
    (hf : q.state = .idle → r.we = true → r.amo = .sc → a.wReady = true → a.awReady = true)
    (hv : q.valid a = false) : Serving r (q.step r a) (b.next (q.axiReq r a) a) (lastWord w (q.axiReq r a) a) := by
  cases hw : r.we
  · exact serving_read_step h hr ht hw hv
  · exact serving_write_step h hr ht hw (fun hi => hf hi hw) hv

/-- The answer comes when all of the request has been accepted, and ends it. -/
theorem serving_done (h : Serving r q b w) (hv : q.valid a = true) :
    b = .ofReq r ∧ b.next (q.axiReq r a) a = b ∧ (r.we = false → q.rdata a 0 = w) := by
  unfold Serving at h
  cases hw : r.we <;> simp only [hw, Bool.false_eq_true, if_false, if_true] at h
  · obtain ⟨haw, hws, hst⟩ := h
    cases hs : q.state <;> simp only [hs] at hst <;> simp [AxiAdapter.valid, hs] at hv
    obtain ⟨har, hword⟩ := hst
    refine ⟨?_, ?_, fun _ => by simp [AxiAdapter.rdata, hs, hword]⟩
    · ext1 <;> simp [Bus.ofReq, hw, haw, hws, har]
    · apply Bus.next_of_quiet <;> simp [AxiAdapter.axiReq, hs]
  · obtain ⟨har, m, p, hst, haw, hws⟩ := h
    have hdone : p.aws = [awPayload r] ∧ p.ws = burstOf r ∧ b.next (q.axiReq r a) a = b := by
      cases hs : q.state <;> simp [AxiAdapter.valid, hs] at hv <;> simp only [Stage, hs] at hst <;>
        obtain ⟨-, rfl⟩ := hst
      all_goals
        refine ⟨rfl, rfl, ?_⟩
        apply Bus.next_of_quiet <;> simp [AxiAdapter.axiReq, hs]
    refine ⟨?_, hdone.2.2, by simp⟩
    ext1 <;> simp [Bus.ofReq, hw, haw, hws, har, hdone.1, hdone.2.1]

/-- What has been issued of a request is the beginning of what it stands for. -/
theorem Serving.isPrefix (h : Serving r q b w) :
    b.aws <+: (Bus.ofReq r).aws ∧ b.ws <+: (Bus.ofReq r).ws ∧ b.ars <+: (Bus.ofReq r).ars := by
  unfold Serving at h
  cases hw : r.we <;> simp only [hw, Bool.false_eq_true, if_false, if_true] at h
  · obtain ⟨haw, hws, hst⟩ := h
    refine ⟨by simp [haw], by simp [hws], ?_⟩
    cases hs : q.state <;> simp only [hs] at hst <;> simp [Bus.ofReq, hw, hst]
  · obtain ⟨har, m, p, hst, haw, hws⟩ := h
    rw [har, haw, hws]
    simp only [Bus.ofReq, hw, if_true]
    have hsend : ∀ n, Sending r n p → p.ws <+: burstOf r := fun n hn => ⟨_, hn.sent⟩
    cases hs : q.state <;> simp only [Stage, hs] at hst
    case idle | waitBValid | waitAmoRValid => simp [hst.2, Passed.none]
    case waitAwReady | waitAwReadyBurst => simp [hst.2.2]
    case waitLastWReady => simp [hst.2.1, hsend _ hst.2.2]
    case waitLastWReadyAwReady => simp [hst.2.2.1, hsend _ hst.2.2.2]

end Adapter

/-! ### The arbiter and its adapter -/

/-- What an observer of the bypass writes down. -/
structure BypassLog where
  /-- the number of the request each port is making -/
  number : Fin 4 → ℕ
  /-- the requests of the controllers that have been killed -/
  killed : Fin 3 → ℕ → Bool
  granted : List Granted
  answered : List (Fin 4)
  bus : Bus
  word : Word

namespace BypassLog

def start : BypassLog := ⟨fun _ => 0, fun _ _ => false, [], [], .empty, fun _ => 0⟩

end BypassLog

section Cache
open Nbdcache
variable (c : Cfg) (s : Nbdcache) (i : CacheIn)

/-- The ports granted in this cycle. -/
def grantedPorts : List (Fin 4) := (List.finRange 4).filter fun p => (s.bypassRsp c i p).gnt

/-- The ports answered in this cycle. -/
def answeredPorts : List (Fin 4) := (List.finRange 4).filter fun p => (s.bypassRsp c i p).valid

/-- The bus of the bypass adapter. -/
def bypassBus : AxiReq := s.bypassAxi.axiReq (s.bypassAdapterReq c i) i.axiBypass

/-- What the observer writes down of grants, answers and the bus. -/
def logIssue (g : BypassLog) : BypassLog :=
  { g with
    granted := g.granted ++ (grantedPorts c s i).map fun p => ⟨p, g.number p, s.bypassReq c i p⟩
    answered := g.answered ++ answeredPorts c s i
    bus := g.bus.next (bypassBus c s i) i.axiBypass
    word := lastWord g.word (bypassBus c s i) i.axiBypass }

/-- The word of a store-conditional is not accepted before its address. -/
def addressFirst : Bool :=
  !(s.bypassAxi.state == .idle && (s.bypassAdapterReq c i).req && (s.bypassAdapterReq c i).we &&
    (s.bypassAdapterReq c i).amo == .sc && i.axiBypass.wReady && !i.axiBypass.awReady)

variable {c s i} {g : BypassLog}

theorem filter_finRange_eq {n : ℕ} {f : Fin n → Bool} {k : Fin n} (hk : ∀ p, f p = (p == k)) :
    (List.finRange n).filter f = [k] := by
  rw [funext hk, List.filter_beq, List.count_eq_one_of_mem (List.nodup_finRange n) (List.mem_finRange k)]
  rfl

/-- A free arbiter grants the request it selects, and only that. -/
theorem grantedPorts_eq : grantedPorts c s i =
    if s.arb.serving = false ∧ (s.bypassReq c i (s.arb.selD (s.bypassReq c i))).req = true then
      [s.arb.selD (s.bypassReq c i)] else [] := by
  split_ifs with h
  · apply filter_finRange_eq
    intro p
    by_cases hp : p = s.arb.selD (s.bypassReq c i)
    · subst hp
      simp [bypassRsp, BypassArbiter.rsp, h.1, h.2]
    · simp [bypassRsp, BypassArbiter.rsp, beq_eq_false_iff_ne.mpr hp]
  · rw [grantedPorts, List.filter_eq_nil_iff]
    intro p _ hg
    simp only [bypassRsp, BypassArbiter.rsp, Bool.and_eq_true, Bool.not_eq_true', beq_iff_eq] at hg
    exact h ⟨hg.1.1, hg.1.2 ▸ hg.2⟩

theorem answeredPorts_eq : answeredPorts c s i =
    if s.arb.serving = true ∧ s.bypassAxi.valid i.axiBypass = true then [s.arb.sel] else [] := by
  split_ifs with h
  · apply filter_finRange_eq
    intro p
    simp [bypassRsp, BypassArbiter.rsp, h.1, h.2]
  · rw [answeredPorts, List.filter_eq_nil_iff]
    intro p _ hg
    simp only [bypassRsp, BypassArbiter.rsp, Bool.and_eq_true, beq_iff_eq] at hg
    exact h ⟨hg.1.1, hg.2⟩

/-- A request that is asked for is for one word. -/
theorem bypassReq_single (p : Fin 4) : (s.bypassReq c i p).reqtype = .singleReq := by
  simp only [bypassReq, MissHandler.portBypassReq, MissHandler.amoBypassReq]
  split_ifs <;> rfl

/-- The requests on the bus are the granted ones, the last of which may be unfinished. -/
structure IssueInv (s : Nbdcache) (g : BypassLog) : Prop where
  free : s.arb.serving = false → s.bypassAxi.state = .idle ∧ g.answered = g.granted.map Granted.port ∧
    g.bus = issued g.granted
  busy : s.arb.serving = true → ∃ past k b, g.granted = past ++ [k] ∧ g.answered = past.map Granted.port ∧
    k.port = s.arb.sel ∧ k.req = s.arb.req ∧ k.req.req = true ∧ k.req.reqtype = .singleReq ∧
    g.bus = (issued past).after b ∧ Serving (adapterForm k.req) s.bypassAxi b g.word

/-- The next arbiter and adapter. -/
theorem step_arb : (s.step c i).arb = s.arb.step (s.bypassReq c i) (s.bypassAxi.valid i.axiBypass) := rfl

theorem step_bypassAxi : (s.step c i).bypassAxi =
    s.bypassAxi.step (adapterForm (s.arb.reqO (s.bypassReq c i))) i.axiBypass := rfl

theorem bypassBus_eq : bypassBus c s i =
    s.bypassAxi.axiReq (adapterForm (s.arb.reqO (s.bypassReq c i))) i.axiBypass := rfl

theorem first_of_addressFirst {r : BypassReq} (hf : addressFirst c s i = true) (hi : s.bypassAxi.state = .idle)
    (hr : s.arb.reqO (s.bypassReq c i) = r) (hon : r.req = true) (hw : (adapterForm r).we = true)
    (hsc : (adapterForm r).amo = .sc) (hwr : i.axiBypass.wReady = true) : i.axiBypass.awReady = true := by
  simp only [adapterForm] at hw hsc
  simpa [addressFirst, bypassAdapterReq, hi, hr, hon, hw, hsc, hwr] using hf

theorem issueInv_step_free (h : IssueInv s g) (hf : addressFirst c s i = true) (hs : s.arb.serving = false) :
    IssueInv (s.step c i) (logIssue c s i g) := by
  obtain ⟨hidle, hans, hbus⟩ := h.free hs
  set p := s.arb.selD (s.bypassReq c i) with hp
  have hreqO : s.arb.reqO (s.bypassReq c i) = s.bypassReq c i p := by simp [BypassArbiter.reqO, hs, hp]
  have hvalid : s.bypassAxi.valid i.axiBypass = false := by simp [AxiAdapter.valid, hidle]
  have hansw : answeredPorts c s i = [] := by simp [answeredPorts_eq, hs]
  have harb : (s.step c i).arb = ⟨(s.bypassReq c i p).req, p, s.bypassReq c i p⟩ := by
    simp [step_arb, BypassArbiter.step, hs, hp]
  cases hr : (s.bypassReq c i p).req
  · have hgrant : grantedPorts c s i = [] := by simp [grantedPorts_eq, ← hp, hr]
    have hquiet : g.bus.next (bypassBus c s i) i.axiBypass = g.bus := by
      apply Bus.next_of_quiet <;> simp [bypassBus_eq, hreqO, AxiAdapter.axiReq, hidle, adapterForm, hr]
    refine ⟨fun _ => ⟨?_, ?_, ?_⟩, fun hb => ?_⟩
    · rw [step_bypassAxi, hreqO]
      simp [AxiAdapter.step, AxiAdapter.stepState, AxiAdapter.stepIdle, hidle, adapterForm, hr]
    · simp [logIssue, hansw, hgrant, hans]
    · simp only [logIssue, hgrant, hquiet, List.map_nil, List.append_nil]
      exact hbus
    · simp [harb, hr] at hb
  · have hgrant : grantedPorts c s i = [p] := by simp [grantedPorts_eq, hs, ← hp, hr]
    have hserve : Serving (adapterForm (s.bypassReq c i p)) (s.step c i).bypassAxi
        (Bus.empty.next (bypassBus c s i) i.axiBypass) (lastWord g.word (bypassBus c s i) i.axiBypass) := by
      rw [step_bypassAxi, bypassBus_eq, hreqO]
      exact serving_step (serving_start hidle) hr (bypassReq_single p)
        (fun _ => first_of_addressFirst hf hidle hreqO hr) hvalid
    refine ⟨fun hb => by simp [harb, hr] at hb, fun _ => ⟨g.granted, ⟨p, g.number p, s.bypassReq c i p⟩,
      Bus.empty.next (bypassBus c s i) i.axiBypass, ?_, ?_, ?_, ?_, hr, bypassReq_single p, ?_, hserve⟩⟩
    · simp [logIssue, hgrant]
    · simp [logIssue, hansw, hans]
    · rw [harb]
    · rw [harb]
    · rw [← Bus.after_next, Bus.after_empty, ← hbus]
      rfl

theorem issueInv_step_busy (h : IssueInv s g) (hf : addressFirst c s i = true) (hs : s.arb.serving = true) :
    IssueInv (s.step c i) (logIssue c s i g) := by
  obtain ⟨past, k, b, hgr, hans, hport, hreq, hon, hone, hbus, hserve⟩ := h.busy hs
  have hreqO : s.arb.reqO (s.bypassReq c i) = k.req := by simp [BypassArbiter.reqO, hs, hreq]
  have hgrant : (logIssue c s i g).granted = past ++ [k] := by simp [logIssue, grantedPorts_eq, hs, hgr]
  have hnext : (logIssue c s i g).bus = (issued past).after (b.next (bypassBus c s i) i.axiBypass) := by
    rw [← Bus.after_next, ← hbus]
    rfl
  have harb : (s.step c i).arb = { s.arb with serving := !s.bypassAxi.valid i.axiBypass } := by
    simp [step_arb, BypassArbiter.step, hs]
  cases hv : s.bypassAxi.valid i.axiBypass
  · have hansw : (logIssue c s i g).answered = past.map Granted.port := by simp [logIssue, answeredPorts_eq, hv, hans]
    refine ⟨fun hb => by simp [harb, hv] at hb, fun _ => ⟨past, k, _, hgrant, hansw, ?_, ?_, hon, hone, hnext, ?_⟩⟩
    · rw [harb, hport]
    · rw [harb, hreq]
    · change Serving _ _ _ (lastWord g.word (bypassBus c s i) i.axiBypass)
      rw [step_bypassAxi, hreqO, bypassBus_eq, hreqO]
      exact serving_step hserve hon hone (fun hi => first_of_addressFirst hf hi hreqO hon) hv
  · obtain ⟨hb, hkeep, -⟩ := serving_done hserve hv
    refine ⟨fun _ => ⟨?_, ?_, ?_⟩, fun hb => by simp [harb, hv] at hb⟩
    · rw [step_bypassAxi]
      exact idle_of_valid hv
    · simp [logIssue, answeredPorts_eq, hs, hv, hans, grantedPorts_eq, hgr, hport]
    · rw [hnext, hgrant, issued_append, bypassBus_eq, hreqO, hkeep, hb]

theorem issueInv_step (h : IssueInv s g) (hf : addressFirst c s i = true) :
    IssueInv (s.step c i) (logIssue c s i g) := by
  cases hs : s.arb.serving
  · exact issueInv_step_free h hf hs
  · exact issueInv_step_busy h hf hs

end Cache
end Culsans.Subsystem
