import Culsans.Subsystem.AmoLanes
import Culsans.Subsystem.WriteHandshakes

/-! # An atomic from the AMO buffer to memory and back

The run of the cache from the cycle in which the bypass arbiter takes the atomic of the
miss handler to its acknowledgement, with the memory side behind the bypass adapter.
-/

namespace Culsans.Subsystem
open Dcache Culsans.Core Library

/-- The memory word after the writes that have passed. -/
def memoryAfter (g : Passed) (ok : Bool) (old : Word) : Word :=
  (g.aws.zip g.ws).foldl (fun m x => execute x.1 x.2 ok m) old

/-- `amo_resp_o` of the cache. -/
def amoRespO (c : Cfg) (s : Nbdcache) (i : CacheIn) : AmoResp := s.miss.amoResp (s.missIn c i)

/-- What has passed at the bypass adapter along a run of the cache. -/
def bypassPassed (c : Cfg) (s : Nbdcache) (u : ℕ → CacheIn) : ℕ → Passed
  | 0 => .none
  | n + 1 =>
    let x := (Nbdcache.machine c).states s u n
    (bypassPassed c s u n).next (x.bypassAxi.axiReq (x.bypassAdapterReq c (u n)) (u n).axiBypass) (u n).axiBypass

/-- An atomic that is taken by the bypass arbiter, and the memory side that serves it. -/
structure AmoRun (c : Cfg) where
  op : FuOp
  paddr : PAddr
  rs2 : BitVec 64
  /-- the memory word before the atomic -/
  old : BitVec 64
  /-- the fate of an exclusive write -/
  ok : Bool
  start : Nbdcache
  u : ℕ → CacheIn
  amo : op.isAmo = true
  aligned : Aligned op paddr
  state : start.miss.state = .amoReq
  taken : (start.bypassRsp c (u 0) 3).gnt = true
  /-- the adapter is idle when the arbiter is (`idle_of_free`) -/
  idle : start.bypassAxi.state = .idle
  /-- the AMO buffer holds its request until the acknowledgement -/
  held : ∀ n, (∀ m < n, (amoRespO c ((Nbdcache.machine c).states start u m) (u m)).ack = false) →
    (u n).amoReq = amoReqO op paddr rs2
  /-- the old word is returned, in one beat -/
  word : ∀ n, (u n).axiBypass.rValid = true →
    (u n).axiBypass.rData = toBytes (old : BitVec (8 * 8)) ∧ (u n).axiBypass.rLast = true
  exokay : ∀ n, (u n).axiBypass.bValid = true → (u n).axiBypass.bExokay = ok
  /-- the word of a store-conditional is not taken before its address (`word_after_address`) -/
  order : op.isSc = true → ∀ n, (u n).axiBypass.wReady = true → ∃ m ≤ n, (u m).axiBypass.awReady = true

namespace AmoRun
variable {c : Cfg} (x : AmoRun c)

def states (n : ℕ) : Nbdcache := (Nbdcache.machine c).states x.start x.u n

def resp (n : ℕ) : AmoResp := amoRespO c (x.states n) (x.u n)

def passed (n : ℕ) : Passed := bypassPassed c x.start x.u n

/-- The atomic has not been acknowledged before cycle `n`. -/
def Waiting (n : ℕ) : Prop := ∀ m < n, (x.resp m).ack = false

/-- What the miss handler asks for. -/
def bypass : BypassReq := x.start.miss.amoBypassReq c (amoReqO x.op x.paddr x.rs2)

/-- The request of the atomic at the adapter. -/
def request : AdapterReq 0 :=
  ⟨x.bypass.req, x.bypass.reqtype, x.bypass.acetype, x.bypass.amo, x.bypass.id, x.bypass.addr,
    fun _ => x.bypass.wdata, x.bypass.we, fun _ => x.bypass.be, x.bypass.size⟩

def bus (n : ℕ) : AxiResp := (x.u n).axiBypass

/-- The adapter, asked for the atomic in every cycle. -/
def adapter (n : ℕ) : AxiAdapter 0 × Passed := adapterRun x.start.bypassAxi (fun _ => x.request) x.bus n

theorem request_eq : x.request.req = true ∧ x.request.type = .singleReq ∧ x.request.amo = x.op.amoOpD ∧
    x.request.addr = x.paddr ∧ x.request.size = x.op.extractTransferSize ∧
    x.request.we = !(x.op.amoOpD == .lr) := by
  simp [request, bypass, MissHandler.amoBypassReq, x.state, amoReqO]

/-- Where the cache is in the `n`-th cycle of a pending atomic. -/
structure Path (n : ℕ) : Prop where
  axi : (x.states n).bypassAxi = (x.adapter n).1
  passed : x.passed n = (x.adapter n).2
  request : (x.states n).bypassAdapterReq c (x.u n) = x.request
  waiting : n ≠ 0 → (x.states n).miss.state = .amoWaitResp ∧ (x.states n).arb.serving = true ∧
    (x.states n).arb.sel = 3 ∧ (x.states n).arb.req = x.bypass

variable {x} {n : ℕ}

/-- In the first cycle the arbiter passes the request on. -/
theorem first (x : AmoRun c) : x.start.arb.serving = false ∧ x.start.arb.selD (x.start.bypassReq c (x.u 0)) = 3 ∧
    x.start.bypassReq c (x.u 0) 3 = x.bypass := by
  have ht := x.taken
  simp only [Nbdcache.bypassRsp, BypassArbiter.rsp, Bool.and_eq_true, Bool.not_eq_true', beq_iff_eq] at ht
  refine ⟨ht.1.1, ht.1.2.symm, ?_⟩
  have hreq : (x.u 0).amoReq = amoReqO x.op x.paddr x.rs2 := x.held 0 fun m hm => absurd hm (by omega)
  simp only [Nbdcache.bypassReq, bypass, hreq]
  rfl

theorem path_zero : x.Path 0 := by
  obtain ⟨hs, hsel, hreq⟩ := x.first
  refine ⟨rfl, rfl, ?_, fun h => absurd rfl h⟩
  have hst : x.states 0 = x.start := rfl
  simp only [hst, Nbdcache.bypassAdapterReq, BypassArbiter.reqO, hs, Bool.false_eq_true, if_false, hsel, hreq]
  rfl

/-- The acknowledgement is the answer of the adapter. -/
theorem Path.ack (h : x.Path n) : (x.resp n).ack = (decide (n ≠ 0) && (x.adapter n).1.valid (x.bus n)) := by
  by_cases hn : n = 0
  · subst hn
    have hst : x.states 0 = x.start := rfl
    simp [AmoRun.resp, amoRespO, MissHandler.amoResp, hst, x.state, Nbdcache.missIn, Nbdcache.bypassRsp,
      BypassArbiter.rsp, x.first.1]
  · obtain ⟨hm, hserv, hsel, -⟩ := h.waiting hn
    have hv : ((x.states n).bypassRsp c (x.u n) 3).valid = (x.adapter n).1.valid (x.bus n) := by
      simp [Nbdcache.bypassRsp, BypassArbiter.rsp, hserv, hsel, h.axi, bus]
    rw [AmoRun.resp, amoRespO, MissHandler.amoResp, hm, decide_eq_true hn, Bool.true_and, ← hv]
    cases hb : ((x.states n).bypassRsp c (x.u n) 3).valid <;> simp [Nbdcache.missIn, hb]

theorem Path.next (h : x.Path n) (ha : (x.resp n).ack = false) : x.Path (n + 1) := by
  have hax := h.axi
  have hrq := h.request
  have hpass := h.passed
  have hstep : x.states (n + 1) = (x.states n).step c (x.u n) := rfl
  have hmiss : (x.states (n + 1)).miss = (x.states n).miss.step ((x.states n).missIn c (x.u n)) := rfl
  have harb : (x.states (n + 1)).arb = (x.states n).arb.step ((x.states n).bypassReq c (x.u n))
      ((x.states n).bypassAxi.valid (x.u n).axiBypass) := rfl
  have hnext : (x.states (n + 1)).miss.state = .amoWaitResp ∧ (x.states (n + 1)).arb.serving = true ∧
      (x.states (n + 1)).arb.sel = 3 ∧ (x.states (n + 1)).arb.req = x.bypass := by
    rw [hmiss, harb]
    by_cases hn : n = 0
    · subst hn
      obtain ⟨hs, hsel, hreq⟩ := x.first
      have hst : x.states 0 = x.start := rfl
      have hon : x.bypass.req = true := x.request_eq.1
      simp [MissHandler.step, hst, x.state, Nbdcache.missIn, Nbdcache.bypassRsp, BypassArbiter.rsp,
        BypassArbiter.step, hs, hsel, hreq, hon]
    · obtain ⟨hm, hserv, hsel, hreq⟩ := h.waiting hn
      have hv : (x.states n).bypassAxi.valid (x.u n).axiBypass = false := by
        rw [h.ack, decide_eq_true hn, Bool.true_and] at ha
        rw [hax]
        exact ha
      simp [MissHandler.step, hm, Nbdcache.missIn, Nbdcache.bypassRsp, BypassArbiter.rsp, BypassArbiter.step,
        hserv, hsel, hreq, hv]
  refine ⟨?_, ?_, ?_, fun _ => hnext⟩
  · rw [hstep, Nbdcache.step, hax, hrq]
    rfl
  · change (x.passed n).next ((x.states n).bypassAxi.axiReq ((x.states n).bypassAdapterReq c (x.u n)) (x.bus n))
      (x.bus n) = (x.adapter (n + 1)).2
    rw [hpass, hax, hrq]
    rfl
  · simp only [Nbdcache.bypassAdapterReq, BypassArbiter.reqO, hnext.2.1, if_true, hnext.2.2.2]
    rfl

theorem path (hw : x.Waiting n) : x.Path n := by
  induction n with
  | zero => exact path_zero
  | succ n ih => exact (ih fun m hm => hw m (Nat.lt_succ_of_lt hm)).next (hw n (Nat.lt_succ_self n))

/-- While the atomic waits the adapter has not answered. -/
theorem not_valid (hw : x.Waiting n) {m : ℕ} (hm : m < n) : (x.adapter m).1.valid (x.bus m) = false := by
  have hp : x.Path m := path fun k hk => hw k (hk.trans hm)
  have ha := hw m hm
  rw [hp.ack] at ha
  by_cases h0 : m = 0
  · subst h0
    simp [adapter, adapterRun, AxiAdapter.valid, x.idle]
  · simpa [h0] using ha

/-- The value returned. -/
theorem result_eq (hw : x.Waiting n) (ha : (x.resp n).ack = true) :
    (x.resp n).result = if x.op.extractTransferSize = 2 then
        MissHandler.signExtend (decide (x.paddr.offset.extractLsb' 0 3 = 0)) ((x.adapter n).1.rdata (x.bus n) 0)
      else (x.adapter n).1.rdata (x.bus n) 0 := by
  have hp := path hw
  have hn : n ≠ 0 := by
    rintro rfl
    simp [hp.ack] at ha
  obtain ⟨hm, hserv, hsel, -⟩ := hp.waiting hn
  have hreq : (x.u n).amoReq = amoReqO x.op x.paddr x.rs2 := x.held n hw
  have hrd : ((x.states n).bypassRsp c (x.u n) 3).rdata = (x.adapter n).1.rdata (x.bus n) 0 := by
    simp [Nbdcache.bypassRsp, BypassArbiter.rsp, hsel, hp.axi, bus]
  have hv : ((x.states n).bypassRsp c (x.u n) 3).valid = true := by
    have hyes := ha
    rw [hp.ack, decide_eq_true hn, Bool.true_and] at hyes
    simp [Nbdcache.bypassRsp, BypassArbiter.rsp, hserv, hsel, hp.axi]
    exact hyes
  rw [resp, amoRespO, MissHandler.amoResp, hm]
  simp only [Nbdcache.missIn, hv, if_true, hrd, hreq]
  rfl

/-! ### Atomics that write -/

/-- Everything but LR is a write of the adapter. -/
def write (x : AmoRun c) (hlr : x.op.isLr = false) : WriteRun 0 where
  start := x.start.bypassAxi
  r := x.request
  reqs := fun _ => x.request
  bus := x.bus
  idle := x.idle
  write := ⟨x.request_eq.1, by
    rw [x.request_eq.2.2.2.2.2, amoOpD_eq_lr, hlr]
    rfl⟩
  unburst := fun h => by
    rw [x.request_eq.2.1] at h
    cases h
  held := fun _ _ => rfl

theorem clean (x : AmoRun c) (hlr : x.op.isLr = false) : (x.write hlr).Clean := by
  have hline : ¬ x.request.type = .cacheLineReq := by simp [x.request_eq.2.1]
  refine ⟨fun _ hsc => ?_, fun h => absurd h hline, fun h => absurd h hline⟩
  have hop : x.op.isSc = true := by
    rw [← amoOpD_eq_sc, ← x.request_eq.2.2.1]
    exact beq_iff_eq.mpr hsc
  rintro ⟨t, hw, hb⟩
  obtain ⟨m, hm, ha⟩ := x.order hop t hw
  exact absurd (ha.symm.trans (hb m hm)) (by decide)

theorem pending (hlr : x.op.isLr = false) (hw : x.Waiting n) : (x.write hlr).Pending n :=
  fun _ hm => x.not_valid hw hm

/-- One address and one word have passed. -/
theorem write_passed (hlr : x.op.isLr = false) (hw : x.Waiting n) (ha : (x.resp n).ack = true) :
    x.passed (n + 1) = ⟨[awPayload x.request], burstOf x.request, 1, WriteRun.readsBack x.request⟩ := by
  have hp := path hw
  have hv : (x.write hlr).valid n = true := by
    have hyes := ha
    rw [hp.ack, Bool.and_eq_true] at hyes
    exact hyes.2
  refine Eq.trans ?_ ((x.clean hlr).complete (pending hlr hw) hv)
  change (x.passed n).next ((x.states n).bypassAxi.axiReq ((x.states n).bypassAdapterReq c (x.u n)) (x.bus n))
    (x.bus n) = _
  rw [hp.passed, hp.axi, hp.request]
  rfl

/-- The memory word after the write. -/
theorem write_memory (hlr : x.op.isLr = false) (hw : x.Waiting n) (ha : (x.resp n).ack = true) :
    memoryAfter (x.passed (n + 1)) x.ok (toBytes (x.old : BitVec (8 * 8))) =
      toBytes (x.op.memory (upper x.paddr) x.ok x.old x.rs2 : BitVec (8 * 8)) := by
  obtain ⟨-, ht, hamo, haddr, hsize, -⟩ := x.request_eq
  have hword : burstOf x.request = [⟨x.bypass.wdata, x.bypass.be, true⟩] := by
    rw [burstOf, if_pos ht]
    rfl
  rw [write_passed hlr hw ha, memoryAfter, hword]
  refine execute_request x.state x.amo hlr x.aligned x.ok haddr hsize ?_ ?_ rfl rfl
  · simp [awPayload, hamo]
  · simp only [awPayload, hamo, amoOpD_eq_sc]

/-- The size is kept with the address of a single write. -/
theorem size_step {q : AxiAdapter 0} {r : AdapterReq 0} {a : AxiResp} (hw : r.req = true ∧ r.we = true)
    (ht : r.type = .singleReq) (h : q.state ≠ .idle → q.state ≠ .waitAwReady → q.size = r.size) :
    (q.step r a).state ≠ .idle → (q.step r a).state ≠ .waitAwReady → (q.step r a).size = r.size := by
  cases hs : q.state
  case idle =>
    cases ha : a.awReady <;> cases hwr : a.wReady <;>
      simp [AxiAdapter.step, AxiAdapter.stepState, AxiAdapter.stepIdle, hs, hw.1, hw.2, ht, ha, hwr]
  case waitAwReady =>
    cases ha : a.awReady <;> simp [AxiAdapter.step, AxiAdapter.stepState, hs, ha]
  all_goals
    have hsize := h (by simp [hs]) (by simp [hs])
    intro _ _
    rw [← hsize]
    simp only [AxiAdapter.step, AxiAdapter.stepState, AxiAdapter.stepRead, hs]
    repeat' split
    all_goals rfl

theorem size_kept (hlr : x.op.isLr = false) : (x.adapter n).1.state ≠ .idle →
    (x.adapter n).1.state ≠ .waitAwReady → (x.adapter n).1.size = x.request.size := by
  induction n with
  | zero => exact fun h => absurd x.idle h
  | succ n ih => exact size_step (x.write hlr).write x.request_eq.2.1 ih

/-- What the adapter answers: the old word, or the fate of a store-conditional. -/
theorem write_rdata (hlr : x.op.isLr = false) (hw : x.Waiting n) (ha : (x.resp n).ack = true) :
    (x.adapter n).1.rdata (x.bus n) 0 =
      if x.op.isSc then (if x.ok then fun _ => 0 else AxiAdapter.scFailure x.op.extractTransferSize)
      else toBytes (x.old : BitVec (8 * 8)) := by
  have hinv : (x.write hlr).Inv n := (x.clean hlr).inv (pending hlr hw)
  have hv : (x.adapter n).1.valid (x.bus n) = true := by
    have hyes := ha
    rw [(path hw).ack, Bool.and_eq_true] at hyes
    exact hyes.2
  have hret := amoReturnsData_iff x.op x.amo hlr
  have hstage := hinv.stage
  have hst : (x.write hlr).state n = (x.adapter n).1 := rfl
  have hr : (x.write hlr).r = x.request := rfl
  rw [hst, hr] at hstage
  cases hs : (x.adapter n).1.state <;> simp only [AxiAdapter.valid, hs, reduceCtorEq] at hv <;>
    simp only [Stage, hs, x.request_eq.2.1, x.request_eq.2.2.1, if_true] at hstage
  · have hsize := size_kept hlr (n := n) (by simp [hs]) (by simp [hs])
    rw [x.request_eq.2.2.2.2.1] at hsize
    obtain ⟨hm, -⟩ := hstage
    simp only [AxiAdapter.rdata, hs, hm, hret, hsize]
    rw [hm, hret] at hv
    have hb : (x.bus n).bValid = true := by simpa using (Bool.and_eq_true_iff.mp hv).1
    cases hsc : x.op.isSc
    · rw [hsc] at hv
      have hr : (x.bus n).rValid = true := by simpa [hb] using hv
      have hold : (x.bus n).rData = toBytes (x.old : BitVec (8 * 8)) := (x.word n hr).1
      simp [hb, hr, hold]
    · have hexo : (x.bus n).bExokay = x.ok := x.exokay n hb
      have hamo : (x.op.amoOpD == .sc) = true := by rw [amoOpD_eq_sc, hsc]
      cases hok : x.ok <;> simp [hb, hexo, hamo, hok]
  · have hsc : x.op.isSc = false := by simpa [hret] using hstage.1
    have hold : (x.bus n).rData = toBytes (x.old : BitVec (8 * 8)) := (x.word n hv).1
    simp [AxiAdapter.rdata, hs, hv, hsc, hold]

/-! ### LR -/

/-- What the adapter has done for an LR, by its state. -/
def Loading (w : Word) (q : AxiAdapter 0) (g : Passed) : Prop :=
  g.aws = [] ∧ g.ws = [] ∧
    match q.state with
    | .idle | .waitRValid => True
    | .completeRead => q.cacheLine 0 = w
    | _ => False

theorem loading_step {w : Word} {q : AxiAdapter 0} {g : Passed} {r : AdapterReq 0} {a : AxiResp}
    (h : Loading w q g) (hw : r.we = false) (ht : r.type = .singleReq)
    (ha : a.rValid = true → a.rData = w ∧ a.rLast = true) (hv : q.valid a = false) :
    Loading w (q.step r a) (g.next (q.axiReq r a) a) := by
  obtain ⟨h1, h2, hst⟩ := h
  cases hs : q.state <;> simp only [hs] at hst
  case idle =>
    cases hr : r.req <;> cases hready : a.arReady <;>
      simp [Loading, AxiAdapter.step, AxiAdapter.stepState, AxiAdapter.stepIdle, AxiAdapter.axiReq, Passed.next,
        hs, hw, ht, hr, hready, h1, h2]
  case waitRValid =>
    cases hr : a.rValid
    · simp [Loading, AxiAdapter.step, AxiAdapter.stepState, AxiAdapter.stepRead, AxiAdapter.axiReq, Passed.next,
        hs, hr, h1, h2]
    · obtain ⟨hd, hl⟩ := ha hr
      simp [Loading, AxiAdapter.step, AxiAdapter.stepState, AxiAdapter.stepRead, AxiAdapter.axiReq, Passed.next,
        hs, hr, hd, hl, h1, h2]
  case completeRead => simp [AxiAdapter.valid, hs] at hv

theorem loading (hlr : x.op.isLr = true) (hw : x.Waiting n) :
    Loading (toBytes (x.old : BitVec (8 * 8))) (x.adapter n).1 (x.adapter n).2 := by
  have hwe : x.request.we = false := by rw [x.request_eq.2.2.2.2.2, amoOpD_eq_lr, hlr]; rfl
  induction n with
  | zero => exact ⟨rfl, rfl, by simp [adapter, adapterRun, x.idle]⟩
  | succ n ih =>
    exact loading_step (ih fun m hm => hw m (Nat.lt_succ_of_lt hm)) hwe x.request_eq.2.1 (x.word n)
      (x.not_valid hw (Nat.lt_succ_self n))

/-- An LR writes nothing and answers the word. -/
theorem load_spec (hlr : x.op.isLr = true) (hw : x.Waiting n) (ha : (x.resp n).ack = true) :
    (x.adapter n).1.rdata (x.bus n) 0 = toBytes (x.old : BitVec (8 * 8)) ∧
      (x.passed (n + 1)).aws = [] := by
  have hp := path hw
  obtain ⟨haw, -, hst⟩ := loading hlr hw
  have hv : (x.adapter n).1.valid (x.bus n) = true := by
    have hyes := ha
    rw [hp.ack, Bool.and_eq_true] at hyes
    exact hyes.2
  have hdone : (x.adapter n).1.state = .completeRead := by
    cases hs : (x.adapter n).1.state <;> simp_all [AxiAdapter.valid]
  rw [hdone] at hst
  constructor
  · simpa [AxiAdapter.rdata, hdone] using hst
  · change ((x.passed n).next ((x.states n).bypassAxi.axiReq ((x.states n).bypassAdapterReq c (x.u n)) (x.bus n))
      (x.bus n)).aws = []
    rw [hp.passed, hp.axi, Passed.next_aws]
    simp [AxiAdapter.axiReq, hdone, haw]

/-! ### The atomics -/

/-- For every AMO the memory word and the value returned are those of the instruction. -/
theorem amo_lanes (x : AmoRun c) (hw : x.Waiting n) (ha : (x.resp n).ack = true) :
    (x.resp n).result = toBytes (x.op.result (upper x.paddr) x.ok x.old : BitVec (8 * 8)) ∧
    memoryAfter (x.passed (n + 1)) x.ok (toBytes (x.old : BitVec (8 * 8))) =
      toBytes (x.op.memory (upper x.paddr) x.ok x.old x.rs2 : BitVec (8 * 8)) := by
  rw [result_eq hw ha]
  cases hlr : x.op.isLr with
  | true =>
    obtain ⟨hrd, hno⟩ := load_spec hlr hw ha
    have hsc : x.op.isSc = false := by
      cases hx : x.op <;> simp_all [FuOp.isLr, FuOp.isSc]
    refine ⟨?_, ?_⟩
    · rw [hrd, result_request x.amo x.aligned]
      simp [FuOp.result, FuOp.returned, hsc]
    · simp [memoryAfter, hno, FuOp.memory, FuOp.stored, hlr, setHalf_half]
  | false =>
    refine ⟨?_, write_memory hlr hw ha⟩
    rw [write_rdata hlr hw ha]
    cases hsc : x.op.isSc
    · simp only [Bool.false_eq_true, if_false]
      rw [result_request x.amo x.aligned]
      simp [FuOp.result, FuOp.returned, hsc]
    · obtain ⟨v, hv, hhalf, hfull⟩ := scAnswer hsc (upper x.paddr) x.ok
      rw [if_pos rfl, hv, result_request x.amo x.aligned]
      cases hword : x.op.isWord
      · simp [FuOp.result, FuOp.returned, hsc, hword, hfull hword]
      · simp [FuOp.result, FuOp.returned, hsc, hword, hhalf hword]

/-- `amoand.w` on the upper half of the word at address 0. -/
def andUpper : AmoRun Stimuli.cfg where
  op := .amoAndw
  paddr := ⟨0, 0, 4⟩
  rs2 := 0x00000000f0f0f0f0
  old := 0x8765432112345678
  ok := false
  start := { Nbdcache.initial with miss := { MissHandler.reset with state := .amoReq } }
  u := fun
    | 0 => { Stimuli.quiet with amoReq := amoReqO .amoAndw ⟨0, 0, 4⟩ 0x00000000f0f0f0f0
                                axiBypass := { AxiResp.none with awReady := true, wReady := true } }
    | 1 => { Stimuli.quiet with amoReq := amoReqO .amoAndw ⟨0, 0, 4⟩ 0x00000000f0f0f0f0
                                axiBypass := { AxiResp.none with
                                  bValid := true, rValid := true, rLast := true
                                  rData := toBytes (0x8765432112345678 : BitVec (8 * 8)) } }
    | _ => { Stimuli.quiet with amoReq := amoReqO .amoAndw ⟨0, 0, 4⟩ 0x00000000f0f0f0f0 }
  amo := rfl
  aligned := rfl
  state := rfl
  taken := rfl
  idle := rfl
  held := fun n _ => match n with
    | 0 => rfl
    | 1 => rfl
    | _ + 2 => rfl
  word := fun n h => match n with
    | 0 => by cases h
    | 1 => ⟨rfl, rfl⟩
    | _ + 2 => by cases h
  exokay := fun n h => match n with
    | 0 => by cases h
    | 1 => rfl
    | _ + 2 => by cases h
  order := fun h => by cases h

theorem amo_lanes_andUpper : (andUpper.resp 1).ack = true ∧
    (andUpper.resp 1).result = toBytes (0xffffffff87654321 : BitVec (8 * 8)) ∧
    memoryAfter (andUpper.passed 2) false (toBytes (0x8765432112345678 : BitVec (8 * 8))) =
      toBytes (0x8060402012345678 : BitVec (8 * 8)) := by
  have hw : andUpper.Waiting 1 := fun m hm => by
    obtain rfl : m = 0 := by omega
    rfl
  exact ⟨rfl, andUpper.amo_lanes hw rfl⟩

/-! ### What a run relies on -/

/-- The adapter is idle when the bypass arbiter is. -/
theorem idle_of_free {ok : Nbdcache → CacheIn → Prop} {s : Nbdcache}
    (h : (Nbdcache.machine c).Reachable ok s) : s.arb.serving = false → s.bypassAxi.state = .idle := by
  refine Machine.Reachable.invariant (P := fun s => s.arb.serving = false → s.bypassAxi.state = .idle)
    (fun s hs _ => by rw [hs.bypassAxi]; rfl) (fun s i hi _ hn => ?_) h
  change (s.arb.step (s.bypassReq c i) (s.bypassAxi.valid i.axiBypass)).serving = false at hn
  change (s.bypassAxi.step (s.bypassAdapterReq c i) i.axiBypass).state = .idle
  cases hs : s.arb.serving
  · have hidle := hi hs
    have hno : (s.bypassAdapterReq c i).req = false := by
      simpa [BypassArbiter.step, hs, Nbdcache.bypassAdapterReq, BypassArbiter.reqO] using hn
    simp [AxiAdapter.step, AxiAdapter.stepState, AxiAdapter.stepIdle, hidle, hno]
  · exact idle_of_valid (by simpa [BypassArbiter.step, hs] using hn)

/-- The port takes no word of the bypass adapter before its address. -/
theorem word_after_address {s : ℕ → Port} {i : ℕ → StepIn} (hs : ∀ n, s (n + 1) = (s n).step (i n))
    (hinv : ∀ n, (s n).Inv) (hidle : ((s 0).writer .bypass).isIdle = true) {n : ℕ}
    (hw : (unitResp (s n).fifo (i n).toPortIn .bypass).wReady = true) :
    ∃ m ≤ n, (unitResp (s m).fifo (i m).toPortIn .bypass).awReady = true := by
  by_contra hno
  push Not at hno
  -- only a unit whose address is taken is selected
  have hsel : ∀ m, ((s m).writer .bypass).isIdle = true →
      (unitResp (s m).fifo (i m).toPortIn .bypass).wReady = false := by
    intro m hm
    rw [Port.isIdle_iff] at hm
    by_contra hyes
    simp only [unitResp, Bool.not_eq_false, Bool.and_eq_true, beq_iff_eq] at hyes
    have hne : (s m).fifo.empty = false := by
      by_contra he
      rw [Bool.not_eq_false] at he
      simp [wSelectArbiter, he] at hyes
    have hhead := Ring.head_toList (hinv m).ring hne
    have hmem : CacheUnit.bypass ∈ (s m).fifo.toList := by
      simp only [wSelectArbiter, hne, Bool.false_eq_true, if_false] at hyes
      rw [hyes.2] at hhead
      exact List.mem_of_mem_head? hhead
    exact (((hinv m).mem _).mp hmem).2 hm.2
  have hall : ∀ m, m ≤ n → ((s m).writer .bypass).isIdle = true := by
    intro m
    induction m with
    | zero => exact fun _ => hidle
    | succ m ih =>
      intro hm
      have hi := ih (by omega)
      have haw : Port.awTaken (i m) (s m) .bypass = false := by
        have hready := hno m (by omega)
        simp only [Bool.not_eq_true] at hready
        simp [Port.awTaken, hready]
      have hwt : Port.wTaken (i m) (s m) .bypass = false := by simp [Port.wTaken, hsel m hi]
      rw [hs m]
      simpa [Port.step, haw, hwt, Writer.next] using hi
  exact absurd (hw.symm.trans (hsel n (hall n le_rfl))) (by decide)

end AmoRun
end Culsans.Subsystem
