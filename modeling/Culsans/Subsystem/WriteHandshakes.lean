import Culsans.Library.Progress
import Culsans.Subsystem.AdapterWrites
import Mathlib.Order.Interval.Finset.Nat
import Mathlib.Data.Nat.Count

/-! # The handshakes of one write

A write is followed cycle by cycle from an idle adapter, with what has passed on AW, W,
B and R so far. The readies come in any order. The request is held until it is
granted, and is free afterwards.
-/

namespace Culsans.Subsystem
open Dcache

variable {b : ℕ}

/-- What has passed on the channels of an adapter. -/
@[ext] structure Passed where
  aws : List AwChan
  ws : List WChan
  bs : ℕ
  rs : ℕ

namespace Passed

def none : Passed := ⟨[], [], 0, 0⟩

/-- One cycle adds what has both valid and ready. -/
def next (p : Passed) (o : AxiReq) (a : AxiResp) : Passed where
  aws := if o.awValid && a.awReady then p.aws ++ [o.aw] else p.aws
  ws := if o.wValid && a.wReady then p.ws ++ [o.w] else p.ws
  bs := if o.bReady && a.bValid then p.bs + 1 else p.bs
  rs := if o.rReady && a.rValid then p.rs + 1 else p.rs

theorem next_aws (p : Passed) (o : AxiReq) (a : AxiResp) :
    (p.next o a).aws = if o.awValid && a.awReady then p.aws ++ [o.aw] else p.aws := rfl

theorem next_ws (p : Passed) (o : AxiReq) (a : AxiResp) :
    (p.next o a).ws = if o.wValid && a.wReady then p.ws ++ [o.w] else p.ws := rfl

end Passed

/-- The AW payload a write request stands for. -/
def awPayload (r : AdapterReq b) : AwChan where
  addr := r.addr
  len := if r.type = .singleReq then 0 else b
  size := r.size
  lock := r.amo == .sc
  id := r.id
  atop := atopFromAmo r.amo
  snoop := (AxiAdapter.awSnoop r.transType).1
  domain := (AxiAdapter.awSnoop r.transType).2

/-- The adapter along streams of requests and answers. -/
def adapterRun (q : AxiAdapter b) (reqs : ℕ → AdapterReq b) (bus : ℕ → AxiResp) : ℕ → AxiAdapter b × Passed
  | 0 => (q, .none)
  | t + 1 =>
    let x := adapterRun q reqs bus t
    (x.1.step (reqs t) (bus t), x.2.next (x.1.axiReq (reqs t) (bus t)) (bus t))

/-- A write request met by an idle adapter, and held until it is granted. -/
structure WriteRun (b : ℕ) where
  start : AxiAdapter b
  r : AdapterReq b
  reqs : ℕ → AdapterReq b
  bus : ℕ → AxiResp
  idle : start.state = .idle
  write : r.req = true ∧ r.we = true
  /-- bursts of AMOs are unsupported -/
  unburst : r.type = .cacheLineReq → r.amo = .none
  held : ∀ t, (∀ s < t, (adapterRun start reqs bus s).1.gnt (reqs s) (bus s) = false) → reqs t = r

namespace WriteRun
variable (x : WriteRun b)

def state (t : ℕ) : AxiAdapter b := (adapterRun x.start x.reqs x.bus t).1

def passed (t : ℕ) : Passed := (adapterRun x.start x.reqs x.bus t).2

def out (t : ℕ) : AxiReq := (x.state t).axiReq (x.reqs t) (x.bus t)

def gnt (t : ℕ) : Bool := (x.state t).gnt (x.reqs t) (x.bus t)

def valid (t : ℕ) : Bool := (x.state t).valid (x.bus t)

/-- The write has not been answered before cycle `t`. -/
def Pending (t : ℕ) : Prop := ∀ s < t, x.valid s = false

@[simp] theorem state_zero : x.state 0 = x.start := rfl

@[simp] theorem passed_zero : x.passed 0 = .none := rfl

theorem state_succ (t : ℕ) : x.state (t + 1) = (x.state t).step (x.reqs t) (x.bus t) := rfl

theorem passed_succ (t : ℕ) : x.passed (t + 1) = (x.passed t).next (x.out t) (x.bus t) := rfl

/-- The bus does not let the write wait for ever on any channel. -/
structure Served : Prop where
  aw : ∀ t, (x.passed t).aws = [] → ∃ u, t ≤ u ∧ (x.bus u).awReady = true
  w : ∀ t, (x.passed t).ws ≠ burstOf x.r → ∃ u, t ≤ u ∧ (x.bus u).wReady = true
  b : ∀ t, (x.passed t).aws ≠ [] → (x.passed t).ws = burstOf x.r → (x.passed t).bs = 0 →
    ∃ u, t ≤ u ∧ (x.bus u).bValid = true
  r : ∀ t, (x.passed t).bs ≠ 0 → amoReturnsData x.r.amo = true → (x.passed t).rs = 0 →
    ∃ u, t ≤ u ∧ (x.bus u).rValid = true

/-- The beats of R that answer a request: the old value of an atomic. -/
def readsBack (r : AdapterReq b) : ℕ := if amoReturnsData r.amo then 1 else 0

/-- The write is one AXI write, whatever the order of the readies. -/
structure ObeysAxi : Prop where
  /-- the payload of AW stands from the first cycle to the handshake -/
  aw_held : ∀ t, (x.passed t).aws = [] → (x.out t).awValid = true ∧ (x.out t).aw = awPayload x.r
  /-- there is no second AW handshake -/
  aw_once : ∀ t, x.Pending t → (x.passed (t + 1)).aws.length ≤ 1
  /-- the words pass in order, with `last` on the final one -/
  beats : ∀ t, x.Pending t → (x.passed (t + 1)).ws <+: burstOf x.r
  /-- the answer comes with B, and with R for an atomic that returns data -/
  valid_iff : ∀ t, x.Pending t →
    (x.valid t = true ↔ (x.passed (t + 1)).bs = 1 ∧ (x.passed (t + 1)).rs = readsBack x.r)
  /-- by then all handshakes have been made, each once -/
  complete : ∀ t, x.Pending t → x.valid t = true →
    x.passed (t + 1) = ⟨[awPayload x.r], burstOf x.r, 1, readsBack x.r⟩
  /-- the answer comes -/
  answered : x.Served → ∃ t, x.Pending t ∧ x.valid t = true
  /-- and is not repeated without another request -/
  quiet : ∀ t u, x.Pending t → x.valid t = true → t < u → (∀ s, t < s → s ≤ u → (x.reqs s).req = false) →
    x.valid u = false

/-- AW and all words of a burst have been accepted before cycle `t`. -/
def accepted (bus : ℕ → AxiResp) (b t : ℕ) : Prop :=
  (∃ s < t, (bus s).awReady = true) ∧ b + 1 ≤ Nat.count (fun s => (bus s).wReady = true) t

/-- The requests and orders of readies that reach none of the three defects. -/
structure Clean : Prop where
  /-- a store-conditional whose word is not accepted before its address -/
  lock : x.r.type = .singleReq → x.r.amo = .sc →
    ¬ ∃ t, (x.bus t).wReady = true ∧ ∀ s ≤ t, (x.bus s).awReady = false
  /-- a line of one word, accepted after its address -/
  word : x.r.type = .cacheLineReq → b = 0 →
    ¬ ∃ t, (x.bus t).wReady = true ∧ ∀ s < t, (x.bus s).awReady = false
  /-- a line, answered by an adapter whose last single write returned no data -/
  stale : x.r.type = .cacheLineReq → amoReturnsData x.start.amo = true →
    ∀ t, accepted x.bus b t → (x.bus t).bValid = false

end WriteRun

/-! ### One cycle -/

section Step
variable {q : AxiAdapter b} {r r' : AdapterReq b} {a : AxiResp} {p : Passed} {m : Amo}

/-- The word offered with `n` more to come. -/
def beat (r : AdapterReq b) (n : ℕ) : WChan where
  data := if r.type = .singleReq then r.wdata 0 else AxiAdapter.pick r.wdata (b - n)
  strb := if r.type = .singleReq then r.be 0 else AxiAdapter.pick r.be (b - n)
  last := n == 0

theorem lastBeats_succ {n : ℕ} (h : n + 1 ≤ (burstOf r).length) : lastBeats r (n + 1) = beat r n :: lastBeats r n := by
  rw [← tail_lastBeats h]
  exact List.eq_cons_of_mem_head? (head_lastBeats h)

theorem burstOf_ne_nil (r : AdapterReq b) : burstOf r ≠ [] := by
  rw [← List.length_pos_iff_ne_nil, length_burstOf]
  split_ifs <;> omega

/-- Words are left to send, `n` after the next one. -/
structure Sending (r : AdapterReq b) (n : ℕ) (p : Passed) : Prop where
  left : n + 1 ≤ (burstOf r).length
  sent : p.ws ++ lastBeats r (n + 1) = burstOf r
  bs : p.bs = 0
  rs : p.rs = 0

/-- What the adapter has done, by its state; `m` is the atomic it last accepted. -/
def Stage (r : AdapterReq b) (m : Amo) (q : AxiAdapter b) (p : Passed) : Prop :=
  match q.state with
  | .idle => q.amo = m ∧ p = .none
  | .waitAwReady => r.type = .singleReq ∧ r.amo ≠ .sc ∧ p = ⟨[], burstOf r, 0, 0⟩
  | .waitLastWReadyAwReady => r.type = .cacheLineReq ∧ q.amo = m ∧ p.aws = [] ∧ Sending r q.cnt p
  | .waitAwReadyBurst => r.type = .cacheLineReq ∧ q.amo = m ∧ p = ⟨[], burstOf r, 0, 0⟩
  | .waitLastWReady =>
    q.amo = (if r.type = .singleReq then r.amo else m) ∧ p.aws = [awPayload r] ∧ Sending r q.cnt p
  | .waitBValid => q.amo = (if r.type = .singleReq then r.amo else m) ∧ p = ⟨[awPayload r], burstOf r, 0, 0⟩
  | .waitAmoRValid => amoReturnsData r.amo = true ∧ p = ⟨[awPayload r], burstOf r, 1, 0⟩
  | _ => False

/-- The request is still looked at. -/
def asking (q : AxiAdapter b) : Bool := q.state == .idle || writing q

/-- A word is accepted. -/
theorem Sending.next {n : ℕ} (h : Sending r (n + 1) p) {o : AxiReq} (hw : (o.wValid && a.wReady) = true)
    (ho : o.w = beat r (n + 1)) (hb : o.bReady = false) (hr : o.rReady = false) : Sending r n (p.next o a) := by
  have hsent := h.sent
  rw [lastBeats_succ h.left] at hsent
  have hleft := h.left
  refine ⟨by omega, ?_, by simp [Passed.next, hb, h.bs], by simp [Passed.next, hr, h.rs]⟩
  simpa [Passed.next, hw, ho] using hsent

/-- The last word is accepted. -/
theorem Sending.done (h : Sending r 0 p) {o : AxiReq} (hw : (o.wValid && a.wReady) = true) (ho : o.w = beat r 0)
    (hb : o.bReady = false) (hr : o.rReady = false) :
    p.next o a = ⟨(p.next o a).aws, burstOf r, 0, 0⟩ := by
  have hsent := h.sent
  rw [lastBeats_succ h.left, lastBeats_zero] at hsent
  ext1
  · rfl
  · simp only [Passed.next, hw, if_true, ho]
    exact hsent
  · simp [Passed.next, hb, h.bs]
  · simp [Passed.next, hr, h.rs]

/-- No word is accepted. -/
theorem Sending.keep {n : ℕ} (h : Sending r n p) {o : AxiReq} (hw : (o.wValid && a.wReady) = false)
    (hb : o.bReady = false) (hr : o.rReady = false) : Sending r n (p.next o a) := by
  refine ⟨h.left, ?_, by simp [Passed.next, hb, h.bs], by simp [Passed.next, hr, h.rs]⟩
  simpa [Passed.next, hw] using h.sent

theorem Sending.ws_ne {n : ℕ} (h : Sending r n p) : p.ws ≠ burstOf r := by
  intro he
  have hsent := h.sent
  rw [he, lastBeats_succ h.left] at hsent
  simp at hsent

/-- Until its request is granted the adapter offers on AW and W just what has not passed. -/
theorem Stage.offers (h : Stage r m q p) (hw : r.req = true ∧ r.we = true)
    (hun : r.type = .cacheLineReq → r.amo = .none) (hr : asking q = true → r' = r) :
    ((q.axiReq r' a).awValid = true ↔ p.aws = []) ∧ (p.aws = [] → (q.axiReq r' a).aw = awPayload r) ∧
      ((q.axiReq r' a).wValid = true ↔ p.ws ≠ burstOf r) := by
  have hne := burstOf_ne_nil r
  simp only [asking, writing] at hr
  cases hs : q.state <;> simp only [Stage, hs] at h
  case idle =>
    obtain rfl : r' = r := hr (by simp [hs])
    obtain ⟨-, rfl⟩ := h
    cases ht : r'.type <;> simp [AxiAdapter.axiReq, hs, hw.1, hw.2, Passed.none, awPayload, ht, hne.symm]
  case waitAwReady =>
    obtain rfl : r' = r := hr (by simp [hs])
    obtain ⟨ht, hsc, rfl⟩ := h
    have hl : (r'.amo == .sc) = false := by simpa using hsc
    simp [AxiAdapter.axiReq, hs, awPayload, ht, hl]
  case waitLastWReadyAwReady =>
    obtain rfl : r' = r := hr (by simp [hs])
    obtain ⟨ht, -, ha, hsend⟩ := h
    have hl : (r'.amo == .sc) = false := by simp [hun ht]
    simp [AxiAdapter.axiReq, hs, awPayload, ht, hl, ha, hsend.ws_ne]
  case waitAwReadyBurst =>
    obtain rfl : r' = r := hr (by simp [hs])
    obtain ⟨ht, -, rfl⟩ := h
    have hl : (r'.amo == .sc) = false := by simp [hun ht]
    simp [AxiAdapter.axiReq, hs, awPayload, ht, hl]
  case waitLastWReady =>
    obtain ⟨-, ha, hsend⟩ := h
    simp [AxiAdapter.axiReq, hs, ha, hsend.ws_ne]
  case waitBValid =>
    obtain ⟨-, rfl⟩ := h
    simp [AxiAdapter.axiReq, hs]
  case waitAmoRValid =>
    obtain ⟨-, rfl⟩ := h
    simp [AxiAdapter.axiReq, hs]

/-- What an idle adapter must not meet. -/
structure Fine (r : AdapterReq b) (a : AxiResp) : Prop where
  lock : r.type = .singleReq → r.amo = .sc → a.wReady = true → a.awReady = true
  word : r.type = .cacheLineReq → b = 0 → a.wReady = false

/-- An idle adapter takes up a single write. -/
theorem stage_idle_single (h : Stage r m q p) (hs : q.state = .idle) (hw : r.req = true ∧ r.we = true)
    (ht : r.type = .singleReq) (hf : Fine r a) : Stage r m (q.step r a) (p.next (q.axiReq r a) a) := by
  simp only [Stage, hs] at h
  obtain ⟨hm, rfl⟩ := h
  have hword : burstOf r = [⟨r.wdata 0, r.be 0, true⟩] := by simp [burstOf, ht]
  have hlast : lastBeats r 1 = burstOf r := lastBeats_all (by simp [length_burstOf, ht])
  have hreq : q.axiReq r a = { q.axiReq r a with
      awValid := true, wValid := true, bReady := false, rReady := false
      aw := awPayload r, w := ⟨r.wdata 0, r.be 0, true⟩ } := by
    simp [AxiAdapter.axiReq, hs, hw.1, hw.2, ht, awPayload, AxiAdapter.pick]
  rw [hreq]
  cases ha : a.awReady <;> cases hwr : a.wReady <;>
    simp only [Stage, AxiAdapter.step, AxiAdapter.stepState, AxiAdapter.stepIdle, hs, hw.1, hw.2, ht, ha, hwr,
      Passed.next, Passed.none, if_true, beq_self_eq_true]
  · simpa using hm
  · refine ⟨trivial, fun hsc => ?_, by simp [hword]⟩
    simpa [ha] using hf.lock ht hsc hwr
  · exact ⟨trivial, rfl, by simp [length_burstOf, ht], hlast, rfl, rfl⟩
  · exact ⟨trivial, by simp [hword]⟩

/-- An idle adapter takes up a line. -/
theorem stage_idle_line (h : Stage r m q p) (hs : q.state = .idle) (hw : r.req = true ∧ r.we = true)
    (ht : r.type = .cacheLineReq) (hf : Fine r a) :
    Stage r m (q.step r a) (p.next (q.axiReq r a) a) := by
  simp only [Stage, hs] at h
  obtain ⟨hm, rfl⟩ := h
  have hlen : (burstOf r).length = b + 1 := by simp [length_burstOf, ht]
  have hall : lastBeats r (b + 1) = burstOf r := lastBeats_all hlen
  have hreq : q.axiReq r a = { q.axiReq r a with
      awValid := true, wValid := true, bReady := false, rReady := false
      aw := awPayload r, w := ⟨AxiAdapter.pick r.wdata 0, AxiAdapter.pick r.be 0, false⟩ } := by
    simp [AxiAdapter.axiReq, hs, hw.1, hw.2, ht, awPayload, AxiAdapter.pick]
  -- a word is accepted here only if others follow
  have hfirst : a.wReady = true → 0 < b ∧ [⟨AxiAdapter.pick r.wdata 0, AxiAdapter.pick r.be 0, false⟩] ++
      lastBeats r b = burstOf r := by
    intro hwr
    have hb : 0 < b := by
      by_contra hz
      have hno := hf.word ht (by omega)
      simp [hwr] at hno
    have hbeat : beat r b = ⟨AxiAdapter.pick r.wdata 0, AxiAdapter.pick r.be 0, false⟩ := by
      simp [beat, ht]
      omega
    rw [← hall, lastBeats_succ (by omega), hbeat]
    exact ⟨hb, rfl⟩
  rw [hreq]
  cases ha : a.awReady <;> cases hwr : a.wReady <;>
    simp only [Stage, AxiAdapter.step, AxiAdapter.stepState, AxiAdapter.stepIdle, hs, hw.1, hw.2, ht, ha, hwr,
      Passed.next, Passed.none, if_true, reduceCtorEq, if_false, beq_iff_eq]
  · simpa using hm
  · obtain ⟨hb, hsent⟩ := hfirst hwr
    rw [AxiAdapter.cnt_pred hb]
    refine ⟨trivial, hm, rfl, by omega, ?_, rfl, rfl⟩
    rwa [Nat.sub_add_cancel hb]
  · exact ⟨hm, rfl, by omega, hall, rfl, rfl⟩
  · obtain ⟨hb, hsent⟩ := hfirst hwr
    rw [AxiAdapter.cnt_pred hb]
    refine ⟨hm, rfl, by omega, ?_, rfl, rfl⟩
    rwa [Nat.sub_add_cancel hb]

/-- All words are sent, and the address is waited for. -/
theorem stage_waitAw (h : Stage r m q p) (hs : q.state = .waitAwReady ∨ q.state = .waitAwReadyBurst)
    (hun : r.type = .cacheLineReq → r.amo = .none) : Stage r m (q.step r a) (p.next (q.axiReq r a) a) := by
  rcases hs with hs | hs <;> simp only [Stage, hs] at h
  · obtain ⟨ht, hsc, rfl⟩ := h
    have hl : (r.amo == .sc) = false := by simpa using hsc
    cases ha : a.awReady <;> simp [Stage, AxiAdapter.step, AxiAdapter.stepState, AxiAdapter.axiReq, hs, ht, ha,
      Passed.next, hsc, awPayload, hl]
  · obtain ⟨ht, hm, rfl⟩ := h
    cases ha : a.awReady <;> simp [Stage, AxiAdapter.step, AxiAdapter.stepState, AxiAdapter.axiReq, hs, ht, ha,
      Passed.next, awPayload, hun ht, hm]

/-- The words after the address. -/
theorem stage_waitW (h : Stage r m q p) (hs : q.state = .waitLastWReady) :
    Stage r m (q.step r a) (p.next (q.axiReq r a) a) := by
  simp only [Stage, hs] at h
  obtain ⟨hm, haw, hsend⟩ := h
  have hbeat : (q.axiReq r a).w = beat r q.cnt := by
    cases ht : r.type <;> simp [AxiAdapter.axiReq, hs, beat, ht, AxiAdapter.pick]
  have ho : (q.axiReq r a).awValid = false ∧ (q.axiReq r a).wValid = true ∧ (q.axiReq r a).bReady = false ∧
      (q.axiReq r a).rReady = false := by simp [AxiAdapter.axiReq, hs]
  have haws : (p.next (q.axiReq r a) a).aws = [awPayload r] := by simp [Passed.next, ho, haw]
  cases hwr : a.wReady
  · have hst : (q.step r a).state = .waitLastWReady ∧ (q.step r a).cnt = q.cnt ∧ (q.step r a).amo = q.amo := by
      simp [AxiAdapter.step, AxiAdapter.stepState, hs, hwr]
    simp only [Stage, hst]
    exact ⟨hm, haws, hsend.keep (by simp [hwr]) ho.2.2.1 ho.2.2.2⟩
  · cases hc : q.cnt with
    | zero =>
      have hst : (q.step r a).state = .waitBValid ∧ (q.step r a).amo = q.amo := by
        simp [AxiAdapter.step, AxiAdapter.stepState, hs, hwr, hc]
      simp only [Stage, hst]
      rw [hc] at hsend hbeat
      rw [hsend.done (by simp [ho, hwr]) hbeat ho.2.2.1 ho.2.2.2, haws]
      exact ⟨hm, rfl⟩
    | succ n =>
      have hst : (q.step r a).state = .waitLastWReady ∧ (q.step r a).cnt = n ∧ (q.step r a).amo = q.amo := by
        simp [AxiAdapter.step, AxiAdapter.stepState, hs, hwr, hc]
      simp only [Stage, hst]
      rw [hc] at hsend hbeat
      exact ⟨hm, haws, hsend.next (by simp [ho, hwr]) hbeat ho.2.2.1 ho.2.2.2⟩

/-- The words before or with the address. -/
theorem stage_waitBoth (h : Stage r m q p) (hs : q.state = .waitLastWReadyAwReady)
    (hun : r.type = .cacheLineReq → r.amo = .none) : Stage r m (q.step r a) (p.next (q.axiReq r a) a) := by
  simp only [Stage, hs] at h
  obtain ⟨ht, hm, haw, hsend⟩ := h
  have hline : ¬ r.type = .singleReq := by simp [ht]
  have hbeat : (q.axiReq r a).w = beat r q.cnt := by simp [AxiAdapter.axiReq, hs, beat, ht, AxiAdapter.pick]
  have ho : (q.axiReq r a).awValid = true ∧ (q.axiReq r a).wValid = true ∧ (q.axiReq r a).bReady = false ∧
      (q.axiReq r a).rReady = false ∧ (q.axiReq r a).aw = awPayload r := by
    simp [AxiAdapter.axiReq, hs, awPayload, ht, hun ht]
  have haws : (p.next (q.axiReq r a) a).aws = if a.awReady then [awPayload r] else [] := by
    simp [Passed.next, ho, haw]
  have hamo : (q.step r a).amo = q.amo := by
    cases ha : a.awReady <;> cases hwr : a.wReady <;> cases hc : q.cnt <;>
      simp [AxiAdapter.step, AxiAdapter.stepState, hs, ha, hwr, hc]
  cases hwr : a.wReady
  · have hst : (q.step r a).cnt = q.cnt ∧ (q.step r a).state =
        if a.awReady then .waitLastWReady else .waitLastWReadyAwReady := by
      cases ha : a.awReady <;> simp [AxiAdapter.step, AxiAdapter.stepState, hs, hwr, ha]
    have hkeep := hsend.keep (a := a) (o := q.axiReq r a) (by simp [hwr]) ho.2.2.1 ho.2.2.2.1
    cases ha : a.awReady <;> simp only [ha, Bool.false_eq_true, if_false, if_true] at hst haws <;>
      simp only [Stage, hst, hamo, if_neg hline]
    · exact ⟨ht, hm, haws, hkeep⟩
    · exact ⟨hm, haws, hkeep⟩
  · cases hc : q.cnt with
    | zero =>
      have hst : (q.step r a).state = if a.awReady then .waitBValid else .waitAwReadyBurst := by
        cases ha : a.awReady <;> simp [AxiAdapter.step, AxiAdapter.stepState, hs, hwr, ha, hc]
      rw [hc] at hsend hbeat
      rw [hsend.done (by simp [ho, hwr]) hbeat ho.2.2.1 ho.2.2.2.1, haws]
      cases ha : a.awReady <;> simp only [ha, Bool.false_eq_true, if_false, if_true] at hst ⊢ <;>
        simp only [Stage, hst, hamo, if_neg hline]
      · exact ⟨ht, hm, trivial⟩
      · exact ⟨hm, trivial⟩
    | succ n =>
      have hst : (q.step r a).cnt = n ∧ (q.step r a).state =
          if a.awReady then .waitLastWReady else .waitLastWReadyAwReady := by
        cases ha : a.awReady <;> simp [AxiAdapter.step, AxiAdapter.stepState, hs, hwr, ha, hc]
      rw [hc] at hsend hbeat
      have hnext := hsend.next (a := a) (by simp [ho, hwr]) hbeat ho.2.2.1 ho.2.2.2.1
      cases ha : a.awReady <;> simp only [ha, Bool.false_eq_true, if_false, if_true] at hst haws <;>
        simp only [Stage, hst, hamo, if_neg hline]
      · exact ⟨ht, hm, haws, hnext⟩
      · exact ⟨hm, haws, hnext⟩

/-- B and R are waited for; the request is not looked at. -/
theorem stage_waitAnswer (h : Stage r m q p) (hs : q.state = .waitBValid ∨ q.state = .waitAmoRValid)
    (hamo : q.state = .waitBValid → a.bValid = true →
      amoReturnsData (if r.type = .singleReq then r.amo else m) = amoReturnsData r.amo)
    (hv : q.valid a = false) : Stage r m (q.step r' a) (p.next (q.axiReq r' a) a) := by
  rcases hs with hs | hs <;> simp only [Stage, hs] at h <;> simp only [AxiAdapter.valid, hs] at hv
  · obtain ⟨hm, rfl⟩ := h
    cases hb : a.bValid
    · simp [Stage, AxiAdapter.step, AxiAdapter.stepState, AxiAdapter.axiReq, hs, hb, Passed.next, hm]
    · have hret := hamo hs hb
      rw [← hm] at hret
      simp only [hb, Bool.true_and, Bool.or_eq_false_iff, Bool.not_eq_false'] at hv
      simp [Stage, AxiAdapter.step, AxiAdapter.stepState, AxiAdapter.axiReq, hs, hb, hv, Passed.next, ← hret]
  · obtain ⟨hret, rfl⟩ := h
    simp [Stage, AxiAdapter.step, AxiAdapter.stepState, AxiAdapter.axiReq, hs, hv, Passed.next, hret]

/-- A write that is not answered goes on to its next stage. -/
theorem stage_step (h : Stage r m q p) (hw : r.req = true ∧ r.we = true)
    (hun : r.type = .cacheLineReq → r.amo = .none) (hr : asking q = true → r' = r) (hf : q.state = .idle → Fine r a)
    (hamo : q.state = .waitBValid → a.bValid = true →
      amoReturnsData (if r.type = .singleReq then r.amo else m) = amoReturnsData r.amo)
    (hv : q.valid a = false) : Stage r m (q.step r' a) (p.next (q.axiReq r' a) a) := by
  simp only [asking, writing] at hr
  cases hs : q.state
  case waitRValid | waitRValidMultiple | completeRead => simp [Stage, hs] at h
  case waitBValid => exact stage_waitAnswer h (.inl hs) hamo hv
  case waitAmoRValid => exact stage_waitAnswer h (.inr hs) hamo hv
  all_goals obtain rfl : r' = r := hr (by simp [hs])
  case idle =>
    cases ht : r'.type
    · exact stage_idle_single h hs hw ht (hf hs)
    · exact stage_idle_line h hs hw ht (hf hs)
  case waitAwReady => exact stage_waitAw h (.inl hs) hun
  case waitAwReadyBurst => exact stage_waitAw h (.inr hs) hun
  case waitLastWReady => exact stage_waitW h hs
  case waitLastWReadyAwReady => exact stage_waitBoth h hs hun

/-- The answer ends the transaction. -/
theorem idle_of_valid (hv : q.valid a = true) : (q.step r a).state = .idle := by
  cases hs : q.state <;> simp only [AxiAdapter.valid, hs, reduceCtorEq] at hv
  case waitBValid =>
    cases hret : amoReturnsData q.amo <;> simp_all [AxiAdapter.step, AxiAdapter.stepState]
  case waitAmoRValid => simp [AxiAdapter.step, AxiAdapter.stepState, hs, hv]
  case completeRead => simp [AxiAdapter.step, AxiAdapter.stepState, hs]

/-- The grant ends the first part of the write. -/
theorem gnt_of_asking (h : Stage r m q p) (hw : r.req = true ∧ r.we = true) (hq : asking q = true)
    (hq' : asking (q.step r a) = true) : q.gnt r a = false := by
  simp only [asking, writing] at hq hq'
  cases hs : q.state <;> simp only [Stage, hs] at h <;> simp [hs] at hq
  case idle =>
    cases ht : r.type <;> cases ha : a.awReady <;> cases hwr : a.wReady <;>
      simp_all [AxiAdapter.gnt, AxiAdapter.step, AxiAdapter.stepState, AxiAdapter.stepIdle]
  case waitAwReady | waitAwReadyBurst =>
    cases ha : a.awReady <;> simp_all [AxiAdapter.gnt, AxiAdapter.step, AxiAdapter.stepState]
  case waitLastWReady =>
    cases hwr : a.wReady <;> cases hc : q.cnt <;> simp_all [AxiAdapter.gnt, AxiAdapter.step, AxiAdapter.stepState]
  case waitLastWReadyAwReady =>
    cases ha : a.awReady <;> cases hwr : a.wReady <;> cases hc : q.cnt <;>
      simp_all [AxiAdapter.gnt, AxiAdapter.step, AxiAdapter.stepState]

/-- Once the request is no longer looked at it is not looked at before the answer. -/
theorem not_asking_step (h : Stage r m q p) (hq : asking q = false) (hv : q.valid a = false) :
    asking (q.step r' a) = false := by
  simp only [asking, writing] at hq
  cases hs : q.state <;> simp only [Stage, hs] at h <;> simp [hs] at hq
  · cases hb : a.bValid <;>
      simp_all [AxiAdapter.valid, asking, writing, AxiAdapter.step, AxiAdapter.stepState]
  · simp_all [AxiAdapter.valid, asking, writing, AxiAdapter.step, AxiAdapter.stepState]

end Step

/-! ### The run -/

namespace WriteRun
variable (x : WriteRun b)

/-- What holds while the write is pending. -/
structure Inv (t : ℕ) : Prop where
  stage : Stage x.r x.start.amo (x.state t) (x.passed t)
  ungranted : asking (x.state t) = true → ∀ s < t, x.gnt s = false
  noAw : (x.passed t).aws = [] → ∀ s < t, (x.bus s).awReady = false
  words : (x.passed t).ws ≠ burstOf x.r →
    (x.passed t).ws.length = Nat.count (fun s => (x.bus s).wReady = true) t

variable {x} {t : ℕ}

theorem Inv.request (h : x.Inv t) (hq : asking (x.state t) = true) : x.reqs t = x.r :=
  x.held t (h.ungranted hq)

theorem Inv.offers (h : x.Inv t) : ((x.out t).awValid = true ↔ (x.passed t).aws = []) ∧
    ((x.passed t).aws = [] → (x.out t).aw = awPayload x.r) ∧
    ((x.out t).wValid = true ↔ (x.passed t).ws ≠ burstOf x.r) :=
  h.stage.offers x.write x.unburst h.request

theorem inv_zero : x.Inv 0 := by
  refine ⟨?_, fun _ s hs => absurd hs (by omega), fun _ s hs => absurd hs (by omega), fun _ => ?_⟩
  · simp [Stage, x.idle]
  · simp [Passed.none]

theorem Inv.next (h : x.Inv t) (hf : (x.state t).state = .idle → Fine x.r (x.bus t))
    (hamo : (x.state t).state = .waitBValid → (x.bus t).bValid = true →
      amoReturnsData (if x.r.type = .singleReq then x.r.amo else x.start.amo) = amoReturnsData x.r.amo)
    (hv : x.valid t = false) : x.Inv (t + 1) := by
  obtain ⟨haw, -, hword⟩ := h.offers
  refine ⟨stage_step h.stage x.write x.unburst h.request hf hamo hv, fun hq => ?_, fun hnil => ?_, fun hne => ?_⟩
  · have hq0 : asking (x.state t) = true := by
      by_contra hno
      have hstep : asking ((x.state t).step (x.reqs t) (x.bus t)) = false :=
        not_asking_step h.stage (by simpa using hno) hv
      rw [← state_succ, hq] at hstep
      exact absurd hstep (by decide)
    intro s hs
    rcases Nat.lt_succ_iff_lt_or_eq.mp hs with hlt | rfl
    · exact h.ungranted hq0 s hlt
    · have hr := h.request hq0
      rw [state_succ, hr] at hq
      rw [gnt, hr]
      exact gnt_of_asking h.stage x.write hq0 hq
  · rw [passed_succ, Passed.next_aws] at hnil
    have hnone : (x.passed t).aws = [] := by
      split_ifs at hnil
      · simp at hnil
      · exact hnil
    have hready : (x.bus t).awReady = false := by simpa [haw.mpr hnone, hnone] using hnil
    intro s hs
    rcases Nat.lt_succ_iff_lt_or_eq.mp hs with hlt | rfl
    · exact h.noAw hnone s hlt
    · exact hready
  · rw [passed_succ, Passed.next_ws] at hne ⊢
    have hleft : (x.passed t).ws ≠ burstOf x.r := by
      intro hall
      have hno : (x.out t).wValid = false := by
        by_contra hyes
        exact hword.mp (by simpa using hyes) hall
      simp [hno, hall] at hne
    have hyes := hword.mpr hleft
    have hcount := h.words hleft
    rw [Nat.count_succ]
    cases (x.bus t).wReady <;> simp [hyes, hcount]

/-- Nothing has been accepted by an idle adapter that is still pending. -/
theorem Inv.idle (h : x.Inv t) (hs : (x.state t).state = .idle) :
    ∀ s < t, (x.bus s).awReady = false ∧ (x.bus s).wReady = false := by
  have hstage := h.stage
  simp only [Stage, hs] at hstage
  have hcount := h.words (by rw [hstage.2]; exact (burstOf_ne_nil x.r).symm)
  rw [hstage.2] at hcount
  intro s hlt
  refine ⟨h.noAw (by rw [hstage.2]; rfl) s hlt, ?_⟩
  have hno := Nat.count_iff_forall_not.mp hcount.symm s hlt
  simpa using hno

variable (x) in
/-- Nothing passes unless it is accepted. -/
theorem passed_le (t : ℕ) : ((x.passed t).aws ≠ [] → ∃ s < t, (x.bus s).awReady = true) ∧
    (x.passed t).ws.length ≤ Nat.count (fun s => (x.bus s).wReady = true) t := by
  induction t with
  | zero => simp [Passed.none]
  | succ t ih =>
    obtain ⟨haw, hw⟩ := ih
    constructor
    · intro hne
      by_cases hready : (x.bus t).awReady = true
      · exact ⟨t, Nat.lt_succ_self t, hready⟩
      · rw [passed_succ, Passed.next_aws, Bool.eq_false_iff.mpr hready, Bool.and_false] at hne
        obtain ⟨s, hs, hr⟩ := haw hne
        exact ⟨s, Nat.lt_succ_of_lt hs, hr⟩
    · rw [passed_succ, Passed.next_ws, Nat.count_succ]
      cases (x.out t).wValid <;> cases (x.bus t).wReady <;> simp <;> omega

/-- B is waited for only after everything has been accepted. -/
theorem Inv.accepted (h : x.Inv t) (hs : (x.state t).state = .waitBValid) (hline : x.r.type = .cacheLineReq) :
    accepted x.bus b t := by
  have hstage := h.stage
  simp only [Stage, hs] at hstage
  have hle := x.passed_le t
  rw [hstage.2, length_burstOf, hline] at hle
  exact ⟨hle.1 (by simp), by simpa using hle.2⟩

/-- The write goes on unharmed for as long as nothing it must not meet has come. -/
theorem inv_of_clean (hlock : x.r.type = .singleReq → x.r.amo = .sc →
      ¬ ∃ t, (x.bus t).wReady = true ∧ ∀ s ≤ t, (x.bus s).awReady = false)
    (hword : x.r.type = .cacheLineReq → b = 0 →
      ¬ ∃ t, (x.bus t).wReady = true ∧ ∀ s < t, (x.bus s).awReady = false)
    (hstale : x.r.type = .cacheLineReq → amoReturnsData x.start.amo = true →
      ∀ s < t, WriteRun.accepted x.bus b s → (x.bus s).bValid = false)
    (hp : x.Pending t) : x.Inv t := by
  induction t with
  | zero => exact inv_zero
  | succ t ih =>
    have hinv : x.Inv t := ih (fun hl ha s hs => hstale hl ha s (Nat.lt_succ_of_lt hs))
      fun s hs => hp s (Nat.lt_succ_of_lt hs)
    refine hinv.next (fun hi => ?_) (fun hs hb => ?_) (hp t (Nat.lt_succ_self t))
    · have hidle := hinv.idle hi
      constructor
      · intro hl hsc hwr
        by_contra hno
        refine hlock hl hsc ⟨t, hwr, fun s hs => ?_⟩
        rcases Nat.lt_or_eq_of_le hs with hlt | rfl
        · exact (hidle s hlt).1
        · simpa using hno
      · intro hl hz
        by_contra hyes
        exact hword hl hz ⟨t, by simpa using hyes, fun s hs => (hidle s hs).1⟩
    · cases hl : x.r.type with
      | singleReq => rfl
      | cacheLineReq =>
        rw [x.unburst hl]
        cases ha : amoReturnsData x.start.amo
        · exact ha
        · have hno := hstale hl ha t (Nat.lt_succ_self t) (hinv.accepted hs hl)
          exact absurd (hb.symm.trans hno) (by decide)

/-! ### Writes that meet none of the defects -/

theorem Clean.inv (hc : x.Clean) (hp : x.Pending t) : x.Inv t :=
  inv_of_clean hc.lock hc.word (fun hl ha s _ => hc.stale hl ha s) hp

theorem Clean.amo (hc : x.Clean) (h : x.Inv t) (hs : (x.state t).state = .waitBValid)
    (hb : (x.bus t).bValid = true) :
    amoReturnsData (if x.r.type = .singleReq then x.r.amo else x.start.amo) = amoReturnsData x.r.amo := by
  cases hl : x.r.type with
  | singleReq => rfl
  | cacheLineReq =>
    rw [x.unburst hl]
    cases ha : amoReturnsData x.start.amo
    · exact ha
    · exact absurd (hb.symm.trans (hc.stale hl ha t (h.accepted hs hl))) (by decide)

/-- The answer completes the write. -/
theorem Clean.complete (hc : x.Clean) (hp : x.Pending t) (hv : x.valid t = true) :
    x.passed (t + 1) = ⟨[awPayload x.r], burstOf x.r, 1, readsBack x.r⟩ := by
  have hinv := hc.inv hp
  have hstage := hinv.stage
  rw [passed_succ, out]
  rw [valid] at hv
  cases hs : (x.state t).state <;> simp only [AxiAdapter.valid, hs, reduceCtorEq] at hv <;>
    simp only [Stage, hs] at hstage
  · -- B, with R if the atomic returns data
    obtain ⟨hm, hpass⟩ := hstage
    have hb : (x.bus t).bValid = true := by simpa using (Bool.and_eq_true_iff.mp hv).1
    have hret := hc.amo hinv hs hb
    rw [← hm] at hret
    rw [hpass]
    cases hr : amoReturnsData x.r.amo <;>
      simp_all [AxiAdapter.axiReq, Passed.next, readsBack]
  · obtain ⟨hret, hpass⟩ := hstage
    rw [hpass]
    simp [AxiAdapter.axiReq, hs, hv, Passed.next, readsBack, hret]

/-- A write in flight has not had all its answers. -/
theorem Inv.unanswered (h : x.Inv t) : ¬ ((x.passed t).bs = 1 ∧ (x.passed t).rs = readsBack x.r) := by
  have hstage := h.stage
  rintro ⟨hb, hr⟩
  cases hs : (x.state t).state <;> simp only [Stage, hs] at hstage
  case idle => simp [hstage.2, Passed.none] at hb
  case waitAwReady => simp [hstage.2.2] at hb
  case waitAwReadyBurst => simp [hstage.2.2] at hb
  case waitLastWReady => simp [hstage.2.2.bs] at hb
  case waitLastWReadyAwReady => simp [hstage.2.2.2.bs] at hb
  case waitBValid => simp [hstage.2] at hb
  case waitAmoRValid => simp [hstage.2, readsBack, hstage.1] at hr

theorem Clean.next (hc : x.Clean) (hp : x.Pending t) (hv : x.valid t = false) : x.Inv (t + 1) :=
  hc.inv fun s hs => by
    rcases Nat.lt_succ_iff_lt_or_eq.mp hs with hlt | rfl
    · exact hp s hlt
    · exact hv

theorem Inv.aws (h : x.Inv t) : (x.passed t).aws = [] ∨ (x.passed t).aws = [awPayload x.r] := by
  have hstage := h.stage
  cases hs : (x.state t).state <;> simp only [Stage, hs] at hstage
  case idle => exact .inl (by rw [hstage.2]; rfl)
  case waitAwReady => exact .inl (by rw [hstage.2.2])
  case waitAwReadyBurst => exact .inl (by rw [hstage.2.2])
  case waitLastWReady => exact .inr hstage.2.1
  case waitLastWReadyAwReady => exact .inl hstage.2.2.1
  case waitBValid => exact .inr (by rw [hstage.2])
  case waitAmoRValid => exact .inr (by rw [hstage.2])

theorem Inv.ws (h : x.Inv t) : (x.passed t).ws <+: burstOf x.r := by
  have hstage := h.stage
  cases hs : (x.state t).state <;> simp only [Stage, hs] at hstage
  case idle => simp [hstage.2, Passed.none]
  case waitAwReady => simp [hstage.2.2]
  case waitAwReadyBurst => simp [hstage.2.2]
  case waitLastWReady => exact ⟨_, hstage.2.2.sent⟩
  case waitLastWReadyAwReady => exact ⟨_, hstage.2.2.2.sent⟩
  case waitBValid => simp [hstage.2]
  case waitAmoRValid => simp [hstage.2]

variable (x) in
/-- What has passed stays passed. -/
theorem passed_mono {s : ℕ} (h : s ≤ t) : (x.passed s).aws <+: (x.passed t).aws ∧
    (x.passed s).ws <+: (x.passed t).ws ∧ (x.passed s).bs ≤ (x.passed t).bs ∧
    (x.passed s).rs ≤ (x.passed t).rs := by
  induction h with
  | refl => simp
  | step h ih =>
    obtain ⟨h1, h2, h3, h4⟩ := ih
    rw [passed_succ, Passed.next]
    refine ⟨h1.trans ?_, h2.trans ?_, h3.trans ?_, h4.trans ?_⟩ <;> dsimp only <;> split_ifs <;> simp

/-- A write whose address has not passed is pending. -/
theorem Clean.pending_of_aws (hc : x.Clean) (ha : (x.passed t).aws = []) : x.Pending t := by
  by_contra hno
  have hex : ∃ s, s < t ∧ x.valid s = true := by simpa [Pending] using hno
  classical
  have hfirst : x.Pending (Nat.find hex) := fun s hs => by
    have hmin := Nat.find_min hex hs
    simpa [hs.trans (Nat.find_spec hex).1] using hmin
  have hdone := hc.complete hfirst (Nat.find_spec hex).2
  have hmono := (x.passed_mono (Nat.succ_le_of_lt (Nat.find_spec hex).1)).1
  rw [Nat.succ_eq_add_one, hdone, ha] at hmono
  simp at hmono

/-- An adapter that is asked for nothing stays idle after its answer. -/
theorem idle_after (hv : x.valid t = true) {u : ℕ} (hu : t < u)
    (hr : ∀ s, t < s → s < u → (x.reqs s).req = false) : (x.state u).state = .idle := by
  induction u, hu using Nat.le_induction with
  | base => exact idle_of_valid hv
  | succ u hu ih =>
    have hi := ih fun s h1 h2 => hr s h1 (Nat.lt_succ_of_lt h2)
    rw [state_succ]
    simp [AxiAdapter.step, AxiAdapter.stepState, AxiAdapter.stepIdle, hi, hr u hu (Nat.lt_succ_self u)]

/-- What the write still waits for. -/
def waits (x : WriteRun b) (t : ℕ) : ℕ :=
  (1 - (x.passed t).aws.length) + ((burstOf x.r).length - (x.passed t).ws.length) + (1 - (x.passed t).bs) +
    (1 - (x.passed t).rs)

theorem waits_le (t : ℕ) : x.waits (t + 1) ≤ x.waits t := by
  obtain ⟨h1, h2, h3, h4⟩ := x.passed_mono (Nat.le_succ t)
  have h1' := h1.length_le
  have h2' := h2.length_le
  simp only [waits, Nat.succ_eq_add_one] at h1' h2' h3 h4 ⊢
  omega

/-- Fewer handshakes are left when one more has been made. -/
theorem waits_lt (h : ((x.passed t).aws = [] ∧ (x.passed (t + 1)).aws ≠ []) ∨
      ((x.passed t).ws.length < (burstOf x.r).length ∧ (x.passed t).ws.length < (x.passed (t + 1)).ws.length) ∨
      ((x.passed t).bs = 0 ∧ (x.passed (t + 1)).bs ≠ 0)) : x.waits (t + 1) < x.waits t := by
  obtain ⟨h1, h2, h3, h4⟩ := x.passed_mono (Nat.le_succ t)
  have h2' := h2.length_le
  simp only [waits, Nat.succ_eq_add_one] at h1 h2' h3 h4 ⊢
  rcases h with ⟨ha, hb⟩ | h | h
  · have hpos := List.length_pos_iff_ne_nil.mpr hb
    simp only [ha, List.length_nil]
    omega
  · have h1' := h1.length_le
    omega
  · have h1' := h1.length_le
    omega

theorem Inv.waitB (h : x.Inv t) (ha : (x.passed t).aws ≠ []) (hw : (x.passed t).ws = burstOf x.r)
    (hb : (x.passed t).bs = 0) : (x.state t).state = .waitBValid := by
  have hstage := h.stage
  cases hs : (x.state t).state <;> simp only [Stage, hs] at hstage
  case idle => simp [hstage.2, Passed.none] at ha
  case waitAwReady => simp [hstage.2.2] at ha
  case waitAwReadyBurst => simp [hstage.2.2] at ha
  case waitLastWReady => exact absurd hw hstage.2.2.ws_ne
  case waitLastWReadyAwReady => exact absurd hw hstage.2.2.2.ws_ne
  case waitBValid => rfl
  case waitAmoRValid => simp [hstage.2] at hb

theorem Inv.waitR (h : x.Inv t) (hb : (x.passed t).bs ≠ 0) : (x.state t).state = .waitAmoRValid := by
  have hstage := h.stage
  cases hs : (x.state t).state <;> simp only [Stage, hs] at hstage
  case idle => simp [hstage.2, Passed.none] at hb
  case waitAwReady => simp [hstage.2.2] at hb
  case waitAwReadyBurst => simp [hstage.2.2] at hb
  case waitLastWReady => simp [hstage.2.2.bs] at hb
  case waitLastWReadyAwReady => simp [hstage.2.2.2.bs] at hb
  case waitBValid => simp [hstage.2] at hb
  case waitAmoRValid => rfl

/-- The bus makes every unanswered write go on. -/
theorem Clean.goes_on (hc : x.Clean) (hs : x.Served) (hno : ∀ s, x.valid s = false) (t : ℕ) :
    ∃ u, t ≤ u ∧ x.waits (u + 1) < x.waits u := by
  have hinv : ∀ s, x.Inv s := fun s => hc.inv fun s' _ => hno s'
  by_cases haw : (x.passed t).aws = []
  · obtain ⟨u, hu, ha, hr⟩ := Library.exists_event (Q := fun s => (x.passed s).aws = []) haw (hs.aw t haw)
      fun s ha hr => by simp [passed_succ, Passed.next_aws, ha, hr]
    refine ⟨u, hu, waits_lt (.inl ⟨ha, ?_⟩)⟩
    simp [passed_succ, Passed.next_aws, (hinv u).offers.1.mpr ha, hr]
  by_cases hws : (x.passed t).ws = burstOf x.r
  · by_cases hb : (x.passed t).bs = 0
    · -- B is waited for
      obtain ⟨u, hu, ⟨ha, hw, hb⟩, hr⟩ := Library.exists_event
        (Q := fun s => (x.passed s).aws ≠ [] ∧ (x.passed s).ws = burstOf x.r ∧ (x.passed s).bs = 0)
        ⟨haw, hws, hb⟩ (hs.b t haw hws hb) fun s ⟨ha, hw, hb⟩ hr => by
          have hnext := x.passed_mono (Nat.le_succ s)
          refine ⟨fun hnil => ha ?_, ?_, ?_⟩
          · rw [Nat.succ_eq_add_one, hnil] at hnext
            simpa using hnext.1
          · have hle := ((hinv (s + 1)).ws).length_le
            have hge := hnext.2.1
            rw [hw] at hge
            exact (hge.eq_of_length_le hle).symm
          · simp [passed_succ, Passed.next, hb, hr]
      refine ⟨u, hu, waits_lt (.inr (.inr ⟨hb, ?_⟩))⟩
      simp [passed_succ, Passed.next, out, AxiAdapter.axiReq, (hinv u).waitB ha hw hb, hr]
    · -- R is waited for
      exfalso
      have hstage := (hinv t).stage
      simp only [Stage, (hinv t).waitR hb] at hstage
      obtain ⟨u, -, hbu, hr⟩ := Library.exists_event (Q := fun s => (x.passed s).bs ≠ 0) hb
        (hs.r t hb hstage.1 (by rw [hstage.2]))
        fun s hb _ => Nat.ne_of_gt ((Nat.pos_of_ne_zero hb).trans_le (x.passed_mono (Nat.le_succ s)).2.2.1)
      have hv := hno u
      simp [valid, AxiAdapter.valid, (hinv u).waitR hbu, hr] at hv
  · obtain ⟨u, hu, hw, hr⟩ := Library.exists_event (Q := fun s => (x.passed s).ws ≠ burstOf x.r) hws
      (hs.w t hws) fun s hw hr => by simpa [passed_succ, Passed.next_ws, hr] using hw
    refine ⟨u, hu, waits_lt (.inr (.inl ⟨?_, ?_⟩))⟩
    · exact lt_of_le_of_ne (hinv u).ws.length_le fun he => hw ((hinv u).ws.eq_of_length he)
    · simp [passed_succ, Passed.next_ws, (hinv u).offers.2.2.mpr hw, hr]

theorem Clean.answered (hc : x.Clean) (hs : x.Served) : ∃ t, x.Pending t ∧ x.valid t = true := by
  have hgo : (∀ t, ¬ x.valid t = true) → ∀ t, ∃ u, t ≤ u ∧ x.waits (u + 1) < x.waits u :=
    fun hno => hc.goes_on hs fun s => by simpa using hno s
  obtain ⟨t, hv, hfirst⟩ := Library.exists_first_of_measure (fun _ => waits_le) hgo
  exact ⟨t, fun s hs => by simpa using hfirst s hs, hv⟩

theorem Clean.obeysAxi (hc : x.Clean) : x.ObeysAxi where
  aw_held t ha := by
    have ho := (hc.inv (hc.pending_of_aws ha)).offers
    exact ⟨ho.1.mpr ha, ho.2.1 ha⟩
  aw_once t hp := by
    have hinv := hc.inv hp
    rw [passed_succ, Passed.next_aws]
    rcases hinv.aws with ha | ha
    · rw [ha]
      split_ifs <;> simp
    · have hno : (x.out t).awValid = false := by
        rw [Bool.eq_false_iff]
        intro hyes
        simp [hinv.offers.1.mp hyes] at ha
      simp [hno, ha]
  beats t hp := by
    cases hv : x.valid t with
    | false => exact (hc.next hp hv).ws
    | true => rw [hc.complete hp hv]
  valid_iff t hp := by
    constructor
    · intro hv
      rw [hc.complete hp hv]
      exact ⟨rfl, rfl⟩
    · intro hdone
      by_contra hv
      exact (hc.next hp (by simpa using hv)).unanswered hdone
  complete _ := hc.complete
  answered := hc.answered
  quiet t u _ hv hu hr := by
    have hi := idle_after hv hu fun s h1 h2 => hr s h1 h2.le
    simp [valid, AxiAdapter.valid, hi]

/-! ### The three defects -/

/-- Before anything is accepted the adapter offers its first word. -/
theorem inv_before (hno : ∀ s < t, (x.bus s).awReady = false ∧ (x.bus s).wReady = false) :
    x.Inv t ∧ (x.state t).state = .idle ∧ x.Pending t := by
  induction t with
  | zero => exact ⟨inv_zero, x.idle, fun s hs => absurd hs (by omega)⟩
  | succ t ih =>
    obtain ⟨hinv, hi, hp⟩ := ih fun s hs => hno s (Nat.lt_succ_of_lt hs)
    obtain ⟨ha, hw⟩ := hno t (Nat.lt_succ_self t)
    have hv : x.valid t = false := by simp [valid, AxiAdapter.valid, hi]
    refine ⟨hinv.next (fun _ => ⟨?_, fun _ _ => hw⟩) (fun hs => ?_) hv, ?_, fun s hs => ?_⟩
    · intro _ _ hyes
      rw [hw] at hyes
      cases hyes
    · simp [hi] at hs
    · rw [state_succ, hinv.request (by simp [asking, hi])]
      cases hl : x.r.type <;> simp [AxiAdapter.step, AxiAdapter.stepState, AxiAdapter.stepIdle, hi, x.write, hl, ha, hw]
    · rcases Nat.lt_succ_iff_lt_or_eq.mp hs with hlt | rfl
      · exact hp s hlt
      · exact hv

/-- When a word is accepted no later than the address, the adapter is still idle. -/
theorem exists_first_word (hw : ∃ t, (x.bus t).wReady = true ∧ ∀ s < t, (x.bus s).awReady = false) :
    ∃ t, (x.bus t).wReady = true ∧ x.Inv t ∧ (x.state t).state = .idle ∧ x.Pending t ∧
      ∀ u, (x.bus u).wReady = true → t ≤ u := by
  classical
  obtain ⟨u, hu, hb⟩ := hw
  have hex : ∃ t, (x.bus t).wReady = true := ⟨u, hu⟩
  have hle : Nat.find hex ≤ u := Nat.find_min' hex hu
  have haw : ∀ s < Nat.find hex, (x.bus s).awReady = false := fun s hs => hb s (hs.trans_le hle)
  obtain ⟨hinv, hi, hp⟩ := x.inv_before fun s hs => ⟨haw s hs, by simpa using Nat.find_min hex hs⟩
  exact ⟨_, Nat.find_spec hex, hinv, hi, hp, fun v hv => Nat.find_min' hex hv⟩

/-- A store-conditional whose word goes first loses the lock of its address. -/
theorem ObeysAxi.lock (h : x.ObeysAxi) (ht : x.r.type = .singleReq) (hsc : x.r.amo = .sc) :
    ¬ ∃ t, (x.bus t).wReady = true ∧ ∀ s ≤ t, (x.bus s).awReady = false := by
  rintro ⟨u, hu, hb⟩
  obtain ⟨t, hw, hinv, hi, -, hmin⟩ := x.exists_first_word ⟨u, hu, fun s hs => hb s hs.le⟩
  have ha : (x.bus t).awReady = false := hb t (hmin u hu)
  have hs : (x.state (t + 1)).state = .waitAwReady := by
    rw [state_succ, hinv.request (by simp [asking, hi])]
    simp [AxiAdapter.step, AxiAdapter.stepState, AxiAdapter.stepIdle, hi, x.write, ht, ha, hw]
  have hnil : (x.passed (t + 1)).aws = [] := by
    have hstage := hinv.stage
    simp only [Stage, hi] at hstage
    simp [passed_succ, Passed.next_aws, ha, hstage.2, Passed.none]
  have hlock := congrArg AwChan.lock (h.aw_held (t + 1) hnil).2
  simp [out, AxiAdapter.axiReq, hs, awPayload, hsc] at hlock

/-- A line of one word that goes before its address is not marked as the last. -/
theorem ObeysAxi.word (h : x.ObeysAxi) (ht : x.r.type = .cacheLineReq) (hz : b = 0) :
    ¬ ∃ t, (x.bus t).wReady = true ∧ ∀ s < t, (x.bus s).awReady = false := by
  intro hex
  obtain ⟨t, hw, hinv, hi, hp, -⟩ := x.exists_first_word hex
  have hreq := hinv.request (by simp [asking, hi])
  have hlast : ∀ w ∈ burstOf x.r, w.last = true := by
    subst hz
    simp [burstOf, ht]
  have hmem : (x.out t).w ∈ (x.passed (t + 1)).ws := by
    have hyes : (x.out t).wValid = true := by simp [out, AxiAdapter.axiReq, hi, hreq, x.write]
    simp [passed_succ, Passed.next_ws, hyes, hw]
  have hbad := hlast _ ((h.beats t hp).subset hmem)
  simp [out, AxiAdapter.axiReq, hi, hreq, x.write, ht] at hbad

/-- A line is pending until its first answer. -/
theorem pending_of_line (h : x.ObeysAxi) (ht : x.r.type = .cacheLineReq)
    (hb : ∀ s < t, WriteRun.accepted x.bus b s → (x.bus s).bValid = false) : x.Pending t ∧ x.Inv t := by
  have hinv : ∀ {u}, u ≤ t → x.Pending u → x.Inv u := fun hu hp =>
    inv_of_clean h.lock h.word (fun _ _ s hs => hb s (hs.trans_le hu)) hp
  have hp : ∀ u, u ≤ t → x.Pending u := by
    intro u
    induction u with
    | zero => exact fun _ s hs => absurd hs (by omega)
    | succ u ih =>
      intro hu s hs
      have hpu := ih (Nat.le_of_succ_le hu)
      rcases Nat.lt_succ_iff_lt_or_eq.mp hs with hlt | rfl
      · exact hpu s hlt
      · have hi := hinv (Nat.le_of_succ_le hu) hpu
        have hstage := hi.stage
        cases hs : (x.state s).state <;> simp only [Stage, hs] at hstage <;> simp only [valid, AxiAdapter.valid, hs]
        · rw [hb s hu (hi.accepted hs ht), Bool.false_and]
        · rw [x.unburst ht] at hstage
          exact absurd hstage.1 (by decide)
  exact ⟨hp t le_rfl, hinv le_rfl (hp t le_rfl)⟩

/-- A line that has been accepted waits for B. -/
theorem Inv.waitB_of_accepted (h : x.Inv t) (ht : x.r.type = .cacheLineReq)
    (hacc : WriteRun.accepted x.bus b t) : (x.state t).state = .waitBValid := by
  obtain ⟨⟨s, hs, hr⟩, hcount⟩ := hacc
  have hlen : (burstOf x.r).length = b + 1 := by simp [length_burstOf, ht]
  refine h.waitB (fun hnil => ?_) ?_ ?_
  · exact absurd (hr.symm.trans (h.noAw hnil s hs)) (by decide)
  · by_contra hne
    have heq := h.ws.eq_of_length_le (by rw [hlen, h.words hne]; exact hcount)
    exact hne heq
  · by_contra hb
    have hstage := h.stage
    simp only [Stage, h.waitR hb, x.unburst ht] at hstage
    exact absurd hstage.1 (by decide)

/-- A line after an atomic that returned data waits for data of its own. -/
theorem ObeysAxi.stale (h : x.ObeysAxi) (ht : x.r.type = .cacheLineReq)
    (ha : amoReturnsData x.start.amo = true) :
    ∀ t, WriteRun.accepted x.bus b t → (x.bus t).bValid = false := by
  intro t
  induction t using Nat.strong_induction_on with
  | _ t ih =>
    intro hacc
    by_contra hno
    have hb : (x.bus t).bValid = true := by simpa using hno
    obtain ⟨hp, hinv⟩ := pending_of_line h ht ih
    have hs := hinv.waitB_of_accepted ht hacc
    have hret : readsBack x.r = 0 := by
      rw [readsBack, x.unburst ht]
      rfl
    have hstage := hinv.stage
    simp only [Stage, hs, ht, reduceCtorEq, if_false] at hstage
    -- B is accepted, and with it R if it is there
    have hnext : (x.passed (t + 1)).bs = 1 ∧ (x.passed (t + 1)).rs = if (x.bus t).rValid then 1 else 0 := by
      simp [passed_succ, Passed.next, out, AxiAdapter.axiReq, hs, hb, hstage.1, hstage.2, ha]
    have hv : x.valid t = (x.bus t).rValid := by
      simp [valid, AxiAdapter.valid, hs, hb, hstage.1, ha]
    cases hr : (x.bus t).rValid
    · have hyes := (h.valid_iff t hp).mpr ⟨hnext.1, by simp [hnext.2, hr, hret]⟩
      rw [hv, hr] at hyes
      cases hyes
    · have hdone := congrArg Passed.rs (h.complete t hp (hv.trans hr))
      simp [hnext.2, hr, hret] at hdone

/-- A write obeys AXI exactly when it reaches none of the three defects. -/
theorem obeysAxi_iff (x : WriteRun b) : x.ObeysAxi ↔ x.Clean :=
  ⟨fun h => ⟨h.lock, h.word, h.stale⟩, Clean.obeysAxi⟩

/-- A store-conditional to address 0 of an adapter for single words. -/
def scReq : AdapterReq 0 where
  req := true
  type := .singleReq
  transType := .writeNoSnoop
  amo := .sc
  id := 11
  addr := ⟨0, 0, 0⟩
  wdata := fun _ _ => 0
  we := true
  be := fun _ _ => true
  size := 3

/-- The word is accepted in the first cycle and the address in the second. -/
def scWordFirst : WriteRun 0 where
  start := AxiAdapter.reset
  r := scReq
  reqs := fun _ => scReq
  bus := fun t => { AxiResp.none with wReady := t == 0, awReady := t == 1 }
  idle := rfl
  write := ⟨rfl, rfl⟩
  unburst := fun h => by cases h
  held := fun _ _ => rfl

/-- The lock of a store-conditional is gone in the second cycle, when its address is accepted. -/
theorem store_conditional_unlocked : (scWordFirst.out 0).aw.lock = true ∧ (scWordFirst.out 1).awValid = true ∧
    (scWordFirst.bus 0).awReady = false ∧ (scWordFirst.bus 1).awReady = true ∧
    (scWordFirst.out 1).aw.lock = false ∧ ¬ scWordFirst.ObeysAxi := by
  refine ⟨rfl, rfl, rfl, rfl, rfl, fun h => ?_⟩
  have hlock := congrArg AwChan.lock (h.aw_held 1 rfl).2
  exact absurd hlock (by decide)

end WriteRun
end Culsans.Subsystem
