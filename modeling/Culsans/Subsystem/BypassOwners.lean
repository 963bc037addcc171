import Culsans.Subsystem.BypassIssue

/-! # The owners of bypass requests

Responses carry no identifier. The answer of the adapter reaches the request it was granted for
because the states of the controller, the miss handler and the arbiter move together.
-/

namespace Culsans.Subsystem
open Dcache Nbdcache Library

section Watch
variable (c : Cfg) (s : Nbdcache) (i : CacheIn)

/-- Controller `p` takes up a new request. -/
def ctrlBegins (p : Fin 3) : Bool := (s.ctrl p).begins c (s.ctrlIn c i p) (s.ctrlGnt c i p)

/-- The miss handler takes up an atomic. -/
def amoBegins : Bool := !(s.miss.state == .amoReq) && (s.step c i).miss.state == .amoReq

/-- The numbers of the requests in the next cycle. -/
def nextNumber (n : Fin 4 → ℕ) (p : Fin 4) : ℕ :=
  if h : p.val < 3 then n p + (ctrlBegins c s i ⟨p.val, h⟩).toNat else n p + (amoBegins c s i).toNat

/-- The bypass as an observer sees it. -/
def watchBypass (g : BypassLog) : BypassLog :=
  { logIssue c s i g with
    number := nextNumber c s i g.number
    -- a kill also meets the request that is taken up in its cycle
    killed := fun p n => g.killed p n || ((i.reqPorts p).killReq &&
      (n == g.number p.castSucc || n == nextNumber c s i g.number p.castSucc)) }

/-- No bypass request is granted whose line is in the MSHR of another port. -/
def noStray : Bool := (List.finRange 3).all fun p => !(s.ctrl p).strays (s.ctrlIn c i p)

end Watch

/-- The cache with an observer of its bypass. -/
def bypassWatched (c : Cfg) : Machine (Nbdcache × BypassLog) CacheIn :=
  (machine c).observe .start fun g s i => watchBypass c s i g

/-- What a step must avoid. -/
def BypassFine (c : Cfg) (x : Nbdcache × BypassLog) (i : CacheIn) : Prop :=
  addressFirst c x.1 i = true ∧ noStray c x.1 i = true

instance (c : Cfg) (x : Nbdcache × BypassLog) (i : CacheIn) : Decidable (BypassFine c x i) :=
  inferInstanceAs (Decidable (_ ∧ _))

variable {c : Cfg} {s : Nbdcache} {i : CacheIn} {g : BypassLog}

@[simp] theorem nextNumber_ctrl (n : Fin 4 → ℕ) (p : Fin 3) :
    nextNumber c s i n p.castSucc = n p.castSucc + (ctrlBegins c s i p).toNat := by
  simp [nextNumber]

@[simp] theorem nextNumber_amo (n : Fin 4 → ℕ) : nextNumber c s i n 3 = n 3 + (amoBegins c s i).toNat := by
  simp [nextNumber]

theorem le_nextNumber (n : Fin 4 → ℕ) (p : Fin 4) : n p ≤ nextNumber c s i n p := by
  unfold nextNumber
  split_ifs <;> omega

/-- Whose request is in flight, and which requests have been granted. -/
structure OwnerInv (s : Nbdcache) (g : BypassLog) : Prop where
  fresh : ∀ k ∈ g.granted, k.number ≤ g.number k.port
  once : (g.granted.map fun k => (k.port, k.number)).Nodup
  pending : ∀ p, (s.ctrl p).pending = true → ∀ k ∈ g.granted, k.port = p.castSucc → k.number ≠ g.number p.castSucc
  waiting : ∀ p, (s.ctrl p).state = .waitRefillValid → s.arb.serving = true ∧
    ∃ k, g.granted.getLast? = some k ∧ k.port = p.castSucc ∧ k.number = g.number p.castSucc
  owner : s.arb.serving = true → ∀ k p, g.granted.getLast? = some k → k.port = p.castSucc →
    g.killed p k.number = true ∨ (k.number = g.number p.castSucc ∧ (s.ctrl p).state = .waitRefillValid)
  unborn : ∀ p n, g.number p.castSucc < n → g.killed p n = false
  killed : ∀ p, (s.ctrl p).state ≠ .idle → (s.ctrl p).memReq.killed = g.killed p (g.number p.castSucc)
  amoPending : s.miss.state = .amoReq → ∀ k ∈ g.granted, k.port = 3 → k.number ≠ g.number 3
  amoWaiting : s.miss.state = .amoWaitResp ↔ s.arb.serving = true ∧ s.arb.sel = 3
  amoOwner : s.arb.serving = true → ∀ k, g.granted.getLast? = some k → k.port = 3 → k.number = g.number 3

/-- Everything known in an observed run. -/
structure BypassRun (c : Cfg) (s : Nbdcache) (g : BypassLog) : Prop where
  basic : s.Basic
  request : s.RequestInv c
  lines : s.LinesCacheable c
  issue : IssueInv s g
  owner : OwnerInv s g

/-! ### Grants -/

/-- A bypass grant goes to a controller in WAIT_REFILL_GNT, and is no refill grant. -/
theorem waiting_of_bypassGnt (hb : s.Basic) {p : Fin 3} (h : (s.bypassRsp c i p.castSucc).gnt = true) :
    (s.ctrl p).state = .waitRefillGnt ∧ s.miss.missGnt (s.missIn c i) p = false := by
  have hbp : (s.ctrl p).missReq.bypass = true := by
    by_contra hn
    exact absurd (h.symm.trans (bypassGnt_of_cached (by simpa using hn))) (by decide)
  have hq : (s.ctrl p).state = .waitRefillGnt := by
    cases hs : (s.ctrl p).state <;> simp_all [CacheCtrl.missReq]
  refine ⟨hq, ?_⟩
  by_contra hg
  obtain ⟨hst, hid, -, hu⟩ := granted_of_missGnt (c := c) (i := i) hb hq (eq_true_of_ne_false hg)
  have hf : s.miss.refilling = true := by grind [MissHandler.refilling]
  have hn := (hb.mshr.refilling hf hu).2.2
  rw [hid] at hn
  simp [CacheCtrl.missReq, hq, hn] at hbp

theorem amoReq_of_gnt (h : (s.bypassRsp c i 3).gnt = true) : s.miss.state = .amoReq := by
  have hr : (s.bypassReq c i 3).req = true := by
    simp only [bypassRsp, BypassArbiter.rsp, Bool.and_eq_true] at h
    exact h.2
  by_contra hn
  simp [bypassReq, MissHandler.amoBypassReq, hn, BypassReq.none] at hr

theorem gnt_iff_granted {p : Fin 4} : (s.bypassRsp c i p).gnt = true ↔ p ∈ grantedPorts c s i := by
  simp [grantedPorts]

theorem gnt_unique {p p' : Fin 4} (h : (s.bypassRsp c i p).gnt = true) (h' : (s.bypassRsp c i p').gnt = true) :
    p = p' := by
  simp only [bypassRsp, BypassArbiter.rsp, Bool.and_eq_true, beq_iff_eq] at h h'
  exact h.1.2.trans h'.1.2.symm

/-- Either nothing is granted, or a free arbiter grants one port and serves it from then on. -/
theorem granted_cases (c : Cfg) (s : Nbdcache) (i : CacheIn) (g : BypassLog) :
    ((∀ p, (s.bypassRsp c i p).gnt = false) ∧ (s.arb.serving = false → (s.step c i).arb.serving = false) ∧
      (watchBypass c s i g).granted = g.granted) ∨
    ∃ p, (s.bypassRsp c i p).gnt = true ∧ s.arb.serving = false ∧ (s.step c i).arb.serving = true ∧
      (s.step c i).arb.sel = p ∧
      (watchBypass c s i g).granted = g.granted ++ [⟨p, g.number p, s.bypassReq c i p⟩] := by
  by_cases h : s.arb.serving = false ∧ (s.bypassReq c i (s.arb.selD (s.bypassReq c i))).req = true
  · refine .inr ⟨s.arb.selD (s.bypassReq c i), ?_, h.1, ?_, ?_, ?_⟩
    · simp [gnt_iff_granted, grantedPorts_eq, h]
    · simp [step_arb, BypassArbiter.step, h]
    · simp [step_arb, BypassArbiter.step, h.1]
    · simp [watchBypass, logIssue, grantedPorts_eq, h]
  · have hnone : grantedPorts c s i = [] := by rw [grantedPorts_eq, if_neg h]
    refine .inl ⟨fun p => ?_, fun hs => ?_, by simp [watchBypass, logIssue, hnone]⟩
    · rw [← Bool.not_eq_true, gnt_iff_granted, hnone]
      simp
    · simpa [step_arb, BypassArbiter.step, hs] using h

theorem port_cases (p : Fin 4) : p = 3 ∨ ∃ q : Fin 3, p = q.castSucc := by
  revert p
  decide

/-- A request is granted only once. -/
theorem unique_of_gnt (hb : s.Basic) (h : OwnerInv s g) {p : Fin 4} (hg : (s.bypassRsp c i p).gnt = true) :
    ∀ k ∈ g.granted, k.port = p → k.number ≠ g.number p := by
  rcases port_cases p with rfl | ⟨q, rfl⟩
  · exact h.amoPending (amoReq_of_gnt hg)
  · have hq := (waiting_of_bypassGnt hb hg).1
    exact h.pending q (by simp [CacheCtrl.pending, hq])

/-- The port that is granted is not taking up a new request. -/
theorem nextNumber_of_gnt (hb : s.Basic) {p : Fin 4} (hg : (s.bypassRsp c i p).gnt = true) (n : Fin 4 → ℕ) :
    nextNumber c s i n p = n p := by
  rcases port_cases p with rfl | ⟨q, rfl⟩
  · simp [amoBegins, amoReq_of_gnt hg]
  · have hno : ctrlBegins c s i q = false := CacheCtrl.begins_of_bypassing (.inl (waiting_of_bypassGnt hb hg).1)
    simp [hno]

/-! ### Steps -/

theorem fresh_step (h : OwnerInv s g) :
    ∀ k ∈ (watchBypass c s i g).granted, k.number ≤ nextNumber c s i g.number k.port := by
  intro k hk
  rcases granted_cases c s i g with ⟨-, -, hd⟩ | ⟨p, -, -, -, -, hd⟩
  · rw [hd] at hk
    exact (h.fresh k hk).trans (le_nextNumber _ _)
  · rw [hd, List.mem_append, List.mem_singleton] at hk
    rcases hk with hk | rfl
    · exact (h.fresh k hk).trans (le_nextNumber _ _)
    · exact le_nextNumber _ _

theorem once_step (hb : s.Basic) (h : OwnerInv s g) :
    ((watchBypass c s i g).granted.map fun k => (k.port, k.number)).Nodup := by
  rcases granted_cases c s i g with ⟨-, -, hd⟩ | ⟨p, hg, -, -, -, hd⟩
  · rw [hd]
    exact h.once
  · rw [hd, List.map_append, List.map_singleton, ← List.concat_eq_append, List.nodup_concat]
    refine ⟨fun hmem => ?_, h.once⟩
    obtain ⟨k, hk, he⟩ := List.mem_map.mp hmem
    rw [Prod.mk.injEq] at he
    exact unique_of_gnt hb h hg k hk he.1 he.2

/-- The requests of a port that is not granted are those it had. -/
theorem mem_granted {k : Granted} (hk : k ∈ (watchBypass c s i g).granted) :
    k ∈ g.granted ∨ ((s.bypassRsp c i k.port).gnt = true ∧ k.number = g.number k.port) := by
  rcases granted_cases c s i g with ⟨-, -, hd⟩ | ⟨p, hg, -, -, -, hd⟩
  · exact .inl (hd ▸ hk)
  · rw [hd, List.mem_append, List.mem_singleton] at hk
    rcases hk with hk | rfl
    · exact .inl hk
    · exact .inr ⟨hg, rfl⟩

theorem noStray_iff : noStray c s i = true ↔ ∀ p, (s.ctrl p).strays (s.ctrlIn c i p) = false := by
  simp [noStray]

theorem pending_step (hb : s.Basic) (h : OwnerInv s g) (hok : noStray c s i = true) (p : Fin 3)
    (hp : ((s.step c i).ctrl p).pending = true) :
    ∀ k ∈ (watchBypass c s i g).granted, k.port = p.castSucc → k.number ≠ nextNumber c s i g.number p.castSucc := by
  intro k hk hport
  rw [nextNumber_ctrl]
  have hle : k.number ≤ g.number p.castSucc := by
    rcases mem_granted hk with hk | ⟨-, hk⟩
    · exact hport ▸ h.fresh k hk
    · exact (hport ▸ hk).le
  rcases CacheCtrl.step_pending hp with hbeg | ⟨hq, hgnt⟩
  · have hbeg' : ctrlBegins c s i p = true := hbeg
    rw [hbeg']
    simp only [Bool.toNat_true]
    omega
  · cases hbeg : ctrlBegins c s i p
    · rcases mem_granted hk with hk | ⟨hg, -⟩
      · simpa using h.pending p hq k hk hport
      · rw [hport] at hg
        obtain ⟨hs, hm⟩ := waiting_of_bypassGnt hb hg
        rcases hgnt hs hg with hm' | hst
        · exact absurd (hm'.symm.trans hm) (by decide)
        · exact absurd (hst.symm.trans (noStray_iff.mp hok p)) (by decide)
    · simp only [Bool.toNat_true]
      omega

/-- The arbiter goes on serving until the answer. -/
theorem step_serving (hs : s.arb.serving = true) :
    (s.step c i).arb = { s.arb with serving := !s.bypassAxi.valid i.axiBypass } := by
  simp [step_arb, BypassArbiter.step, hs]

theorem granted_of_serving (hs : s.arb.serving = true) : (watchBypass c s i g).granted = g.granted := by
  rcases granted_cases c s i g with ⟨-, -, hd⟩ | ⟨p, -, hn, -⟩
  · exact hd
  · exact absurd (hs.symm.trans hn) (by decide)

/-- The request in flight is that of the port the arbiter serves. -/
theorem IssueInv.port_eq (h : IssueInv s g) (hs : s.arb.serving = true) {k : Granted}
    (hk : g.granted.getLast? = some k) : k.port = s.arb.sel := by
  obtain ⟨past, k', b, hgr, -, hport, -⟩ := h.busy hs
  rw [hgr, List.getLast?_concat, Option.some.injEq] at hk
  exact hk ▸ hport

theorem waiting_step (hb : s.Basic) (hi : IssueInv s g) (h : OwnerInv s g) (p : Fin 3)
    (hp : ((s.step c i).ctrl p).state = .waitRefillValid) : (s.step c i).arb.serving = true ∧
      ∃ k, (watchBypass c s i g).granted.getLast? = some k ∧ k.port = p.castSucc ∧
        k.number = nextNumber c s i g.number p.castSucc := by
  rcases (CacheCtrl.step_waitRefillValid hp).1 with ⟨hq, hg⟩ | hq
  · have hg' : (s.bypassRsp c i p.castSucc).gnt = true := hg
    rcases granted_cases c s i g with ⟨hno, -⟩ | ⟨p', hg'', -, hserv, hsel, hd⟩
    · exact absurd (hg'.symm.trans (hno _)) (by decide)
    · obtain rfl : p' = p.castSucc := gnt_unique hg'' hg'
      refine ⟨hserv, _, by rw [hd, List.getLast?_concat], rfl, ?_⟩
      rw [nextNumber_of_gnt hb hg']
  · obtain ⟨hserv, k, hk, hport, hnum⟩ := h.waiting p hq
    have hv := CacheCtrl.step_answered hq hp
    have hsel := (hi.port_eq hserv hk).symm.trans hport
    have hno : ctrlBegins c s i p = false := CacheCtrl.begins_of_bypassing (.inr hq)
    refine ⟨?_, k, by rw [granted_of_serving hserv, hk], hport, by simp [hno, hnum]⟩
    simp only [ctrlIn, bypassRsp, BypassArbiter.rsp, hserv, hsel] at hv
    simpa [step_serving hserv] using hv

theorem owner_step (hb : s.Basic) (h : OwnerInv s g) (hok : noStray c s i = true)
    (hs : (s.step c i).arb.serving = true) {k : Granted} {p : Fin 3}
    (hk : (watchBypass c s i g).granted.getLast? = some k) (hport : k.port = p.castSucc) :
    (watchBypass c s i g).killed p k.number = true ∨
      (k.number = nextNumber c s i g.number p.castSucc ∧ ((s.step c i).ctrl p).state = .waitRefillValid) := by
  rcases granted_cases c s i g with ⟨-, hfree, hd⟩ | ⟨p', hg, -, -, -, hd⟩
  · rw [hd] at hk
    have hserv : s.arb.serving = true := by
      by_contra hf
      exact absurd (hs.symm.trans (hfree (by simpa using hf))) (by decide)
    have hv : s.bypassAxi.valid i.axiBypass = false := by simpa [step_serving hserv] using hs
    rcases h.owner hserv k p hk hport with hkill | ⟨hnum, hq⟩
    · exact .inl (by simp [watchBypass, hkill])
    · cases hkill : (i.reqPorts p).killReq
      · have hno' : ctrlBegins c s i p = false := CacheCtrl.begins_of_bypassing (.inr hq)
        refine .inr ⟨by simp [hno', hnum], CacheCtrl.step_unanswered hq ?_ hkill⟩
        simp [ctrlIn, bypassRsp, BypassArbiter.rsp, hv]
      · exact .inl (by simp [watchBypass, hkill, hnum])
  · rw [hd, List.getLast?_concat, Option.some.injEq] at hk
    subst hk
    obtain rfl : p' = p.castSucc := hport
    obtain ⟨hq, hm⟩ := waiting_of_bypassGnt hb hg
    exact .inr ⟨(nextNumber_of_gnt hb hg _).symm, CacheCtrl.step_handed hq hg hm (noStray_iff.mp hok p)⟩

theorem unborn_step (h : OwnerInv s g) (p : Fin 3) {n : ℕ} (hn : nextNumber c s i g.number p.castSucc < n) :
    (watchBypass c s i g).killed p n = false := by
  have hle := le_nextNumber (c := c) (s := s) (i := i) g.number p.castSucc
  have h1 : (n == g.number p.castSucc) = false := by
    rw [beq_eq_false_iff_ne]
    omega
  have h2 : (n == nextNumber c s i g.number p.castSucc) = false := by
    rw [beq_eq_false_iff_ne]
    omega
  simp only [watchBypass, h.unborn p n (by omega), h1, h2, Bool.or_self, Bool.and_false]

theorem killed_step (hb : s.Basic) (hl : s.LinesCacheable c) (h : OwnerInv s g) (p : Fin 3)
    (hp : ((s.step c i).ctrl p).state ≠ .idle) : ((s.step c i).ctrl p).memReq.killed =
      (watchBypass c s i g).killed p (nextNumber c s i g.number p.castSucc) := by
  have hk := CacheCtrl.step_killed (fun hlook hh => cacheable_of_hit hb.lookups hl hlook hh) hp
  have hk' : ((s.step c i).ctrl p).memReq.killed = if ctrlBegins c s i p then (i.reqPorts p).killReq
      else (s.ctrl p).memReq.killed || (i.reqPorts p).killReq := hk
  rw [hk', nextNumber_ctrl]
  cases hbeg : ctrlBegins c s i p
  · have hq : (s.ctrl p).state ≠ .idle := by
      intro hi
      have hyes : ctrlBegins c s i p = true := by
        have hp' : ((s.ctrl p).step c (s.ctrlIn c i p) (s.ctrlGnt c i p)).state ≠ .idle := hp
        simp [ctrlBegins, CacheCtrl.begins, hi, hp']
      exact absurd (hyes.symm.trans hbeg) (by decide)
    simp [watchBypass, h.killed p hq]
  · simp [watchBypass, hbeg, h.unborn p (g.number p.castSucc + 1) (by omega)]

/-! ### The atomics -/

theorem amoPending_step (h : OwnerInv s g) (hs : (s.step c i).miss.state = .amoReq) :
    ∀ k ∈ (watchBypass c s i g).granted, k.port = 3 → k.number ≠ nextNumber c s i g.number 3 := by
  intro k hk hport
  rw [nextNumber_amo]
  by_cases hq : s.miss.state = .amoReq
  · have hno : (s.bypassRsp c i 3).gnt = false := by
      by_contra hg
      have hs' : (s.miss.step (s.missIn c i)).state = .amoReq := hs
      cases hv : (s.bypassRsp c i 3).valid <;> simp [MissHandler.step, hq, missIn, eq_true_of_ne_false hg, hv] at hs'
    rcases mem_granted hk with hk | ⟨hg, -⟩
    · have hne := h.amoPending hq k hk hport
      simpa [amoBegins, hq] using hne
    · exact absurd ((hport ▸ hg).symm.trans hno) (by decide)
  · have hle : k.number ≤ g.number 3 := by
      rcases mem_granted hk with hk | ⟨-, hk⟩
      · exact hport ▸ h.fresh k hk
      · exact (hport ▸ hk).le
    have hbeg : amoBegins c s i = true := by simp [amoBegins, hq, hs]
    rw [hbeg]
    simp only [Bool.toNat_true]
    omega

/-- The miss handler waits for the answer to its atomic. -/
theorem step_amoWaitResp {q : MissHandler} {j : MissIn} : (q.step j).state = .amoWaitResp ↔
    (q.state = .amoReq ∧ j.amoRsp.gnt = true ∧ j.amoRsp.valid = false) ∨
      (q.state = .amoWaitResp ∧ j.amoRsp.valid = false) := by
  simp only [MissHandler.step]
  cases hq : q.state <;>
    simp only [MissHandler.stepIdle, MissHandler.stepMissRepl, MissHandler.stepSave, MissHandler.stepFlushing,
      MissHandler.stepAmoWb, MissHandler.refillState] <;> grind

theorem amoWaiting_step (h : OwnerInv s g) : (s.step c i).miss.state = .amoWaitResp ↔
    (s.step c i).arb.serving = true ∧ (s.step c i).arb.sel = 3 := by
  have hst : (s.step c i).miss.state = .amoWaitResp ↔ _ := step_amoWaitResp (q := s.miss) (j := s.missIn c i)
  have hrsp : (s.missIn c i).amoRsp = s.bypassRsp c i 3 := rfl
  rw [hst, hrsp]
  have hw := h.amoWaiting
  cases hs : s.arb.serving
  · have hno : s.miss.state ≠ .amoWaitResp := fun hq => by simp [hs, hq] at hw
    have hv : (s.bypassRsp c i 3).valid = false := by simp [bypassRsp, BypassArbiter.rsp, hs]
    rcases granted_cases c s i g with ⟨hn, hfree, -⟩ | ⟨p, hg, -, hserv, hsel, -⟩
    · simp [hno, hn 3, hfree hs]
    · simp only [hno, hv, hserv, hsel, or_false, and_true, true_and]
      exact ⟨fun hq => gnt_unique hg hq.2, fun hp => hp ▸ ⟨amoReq_of_gnt (hp ▸ hg), hg⟩⟩
  · have hg : (s.bypassRsp c i 3).gnt = false := by simp [bypassRsp, BypassArbiter.rsp, hs]
    rw [step_serving hs, hg, hw]
    by_cases hsel : s.arb.sel = 3
    · simp [bypassRsp, BypassArbiter.rsp, hs, hsel]
    · simp [hsel]

theorem amoOwner_step (h : OwnerInv s g) (hs : (s.step c i).arb.serving = true) (hi : IssueInv s g) {k : Granted}
    (hk : (watchBypass c s i g).granted.getLast? = some k) (hport : k.port = 3) :
    k.number = nextNumber c s i g.number 3 := by
  have hsel : (s.step c i).arb.sel = 3 ∧ k.number = g.number 3 := by
    rcases granted_cases c s i g with ⟨-, hfree, hd⟩ | ⟨p, hg, -, -, hsel, hd⟩
    · have hserv : s.arb.serving = true := by
        by_contra hf
        exact absurd (hs.symm.trans (hfree (by simpa using hf))) (by decide)
      rw [hd] at hk
      rw [step_serving hserv]
      exact ⟨(hi.port_eq hserv hk).symm.trans hport, h.amoOwner hserv k hk hport⟩
    · rw [hd, List.getLast?_concat, Option.some.injEq] at hk
      subst hk
      obtain rfl : p = 3 := hport
      exact ⟨hsel, rfl⟩
  have hst := (amoWaiting_step h).mpr ⟨hs, hsel.1⟩
  simp [hsel.2, amoBegins, hst]

theorem ownerInv_step (hb : s.Basic) (hl : s.LinesCacheable c) (hi : IssueInv s g) (h : OwnerInv s g)
    (hok : noStray c s i = true) : OwnerInv (s.step c i) (watchBypass c s i g) where
  fresh := fresh_step h
  once := once_step hb h
  pending := pending_step hb h hok
  waiting := waiting_step hb hi h
  owner hs _ _ := owner_step hb h hok hs
  unborn p _ := unborn_step h p
  killed := killed_step hb hl h
  amoPending := amoPending_step h
  amoWaiting := amoWaiting_step h
  amoOwner hs _ := amoOwner_step h hs hi

theorem bypassRun_step (h : BypassRun c s g) (hok : BypassFine c (s, g) i) :
    BypassRun c (s.step c i) (watchBypass c s i g) where
  basic := ⟨lookups_step h.basic.lookups, mshrInv_step h.basic.mshr⟩
  request := requestInv_step h.basic h.request
  lines := linesCacheable_step h.basic h.request h.lines
  issue := by
    obtain ⟨hfree, hbusy⟩ := issueInv_step h.issue hok.1
    exact ⟨hfree, hbusy⟩
  owner := ownerInv_step h.basic h.lines h.issue h.owner hok.2

theorem bypassRun_init (h : s.IsReset) : BypassRun c s .start where
  basic := basic_init h
  request := requestInv_init h
  lines := linesCacheable_init h
  issue := by constructor <;> simp [h.arb, h.bypassAxi, BypassArbiter.reset, AxiAdapter.reset, BypassLog.start, issued]
  owner := by
    constructor <;> simp [h.ctrl, h.miss, h.arb, CacheCtrl.reset, MissHandler.reset, BypassArbiter.reset,
      CacheCtrl.pending, BypassLog.start]

theorem bypassRun_reachable {x : Nbdcache × BypassLog} (h : (bypassWatched c).Reachable (BypassFine c) x) :
    BypassRun c x.1 x.2 :=
  Machine.Reachable.invariant (P := fun x : Nbdcache × BypassLog => BypassRun c x.1 x.2)
    (fun x h0 => by rw [h0.2]; exact bypassRun_init h0.1) (fun _ _ hm hok => bypassRun_step hm hok) h

/-! ### Served once -/

/-- Every request is served once and answered to its owner. -/
structure ServedOnce (c : Cfg) (s : Nbdcache) (i : CacheIn) (g : BypassLog) : Prop where
  /-- what was granted is issued in order, and at most the last of it is in flight -/
  issued : ∃ past cur b, g.granted = past ++ cur ∧ cur.length = s.arb.serving.toNat ∧
    g.answered = past.map Granted.port ∧ g.bus = (issued past).after b ∧
    b.aws <+: (issued cur).aws ∧ b.ws <+: (issued cur).ws ∧ b.ars <+: (issued cur).ars
  once : (g.granted.map fun k => (k.port, k.number)).Nodup
  /-- an answer comes when its request has been issued, to the port it was granted to -/
  answer : ∀ p, (s.bypassRsp c i p).valid = true → ∃ k, g.granted.getLast? = some k ∧ k.port = p ∧
    g.bus = Culsans.Subsystem.issued g.granted ∧ (k.req.we = false → (s.bypassRsp c i p).rdata = g.word)
  /-- the request in flight is waited for, unless it has been killed -/
  owner : s.arb.serving = true → ∀ k, g.granted.getLast? = some k →
    (∀ p, k.port = p.castSucc → g.killed p k.number = true ∨
      (k.number = g.number p.castSucc ∧ (s.ctrl p).state = .waitRefillValid)) ∧
    (k.port = 3 → k.number = g.number 3 ∧ s.miss.state = .amoWaitResp)
  /-- what is waited for is in flight -/
  waited : ∀ p, (s.ctrl p).state = .waitRefillValid →
    ∃ k, g.granted.getLast? = some k ∧ k.port = p.castSucc ∧ k.number = g.number p.castSucc
  killed : ∀ p, (s.ctrl p).loadRvalid (s.ctrlIn c i p) = true → g.killed p (g.number p.castSucc) = false

theorem BypassRun.servedOnce (h : BypassRun c s g) (i : CacheIn) : ServedOnce c s i g where
  issued := by
    cases hs : s.arb.serving
    · obtain ⟨-, hans, hbus⟩ := h.issue.free hs
      exact ⟨g.granted, [], .empty, by simp, rfl, hans, by simp [hbus], by simp [Bus.empty], by simp [Bus.empty],
        by simp [Bus.empty]⟩
    · obtain ⟨past, k, b, hgr, hans, -, -, -, -, hbus, hserve⟩ := h.issue.busy hs
      have hone : Culsans.Subsystem.issued [k] = Bus.ofReq (adapterForm k.req) := by
        simp [Culsans.Subsystem.issued, Bus.after, Bus.empty]
      exact ⟨past, [k], b, hgr, rfl, hans, hbus, hone ▸ hserve.isPrefix⟩
  once := h.owner.once
  answer p hp := by
    simp only [bypassRsp, BypassArbiter.rsp, Bool.and_eq_true, beq_iff_eq] at hp
    obtain ⟨⟨hs, rfl⟩, hv⟩ := hp
    obtain ⟨past, k, b, hgr, -, hport, -, -, -, hbus, hserve⟩ := h.issue.busy hs
    obtain ⟨hb, -, hword⟩ := serving_done hserve hv
    refine ⟨k, by rw [hgr, List.getLast?_concat], hport, by rw [hgr, issued_append, hbus, hb], fun hw => ?_⟩
    simpa [bypassRsp, BypassArbiter.rsp] using hword hw
  owner hs k hk := by
    refine ⟨fun p => h.owner.owner hs k p hk, fun hp => ⟨h.owner.amoOwner hs k hk hp, ?_⟩⟩
    exact h.owner.amoWaiting.mpr ⟨hs, (h.issue.port_eq hs hk).symm.trans hp⟩
  waited p hp := (h.owner.waiting p hp).2
  killed p hp := by
    have hq : (s.ctrl p).state ≠ .idle ∧ (s.ctrl p).memReq.killed = false := by
      simp only [CacheCtrl.loadRvalid] at hp
      cases hs : (s.ctrl p).state <;> simp_all
    rw [← h.owner.killed p hq.1]
    exact hq.2

/-- While no granted request goes astray, bypass requests are served once and answered to their owners. -/
theorem bypass_served_once {x : Nbdcache × BypassLog} (h : (bypassWatched c).Reachable (BypassFine c) x)
    (i : CacheIn) : ServedOnce c x.1 i x.2 :=
  (bypassRun_reachable h).servedOnce i

section Runs
open Stimuli

/-- A store while the cache is disabled. -/
def offStore (t : Tag) (idx : Index) : CacheIn := { Stimuli.store t idx with enable := false }

/-- The bypass bus takes address and word. -/
def taken (i : CacheIn) : CacheIn :=
  { i with axiBypass := { AxiResp.none with awReady := true, wReady := true } }

/-- The bypass bus answers the write. -/
def written (i : CacheIn) : CacheIn := { i with axiBypass := { AxiResp.none with bValid := true } }

/-- A store to the disabled cache, with its answer due. -/
def beforeAnswer : Nbdcache × BypassLog :=
  (bypassWatched cfg).run (initial, .start) [quiet, offStore 3 1, offStore 3 1, taken (offStore 3 1)]

set_option maxRecDepth 10000 in
theorem bypass_served_once_store :
    (beforeAnswer.1.bypassRsp cfg (written quiet) 2).valid = true ∧
      beforeAnswer.2.bus = issued beforeAnswer.2.granted := by
  have hreset : (bypassWatched cfg).Reachable (BypassFine cfg) (initial, .start) := .init ⟨initial_isReset, rfl⟩
  have hr : (bypassWatched cfg).Reachable (BypassFine cfg) beforeAnswer := hreset.run (by decide +kernel)
  have hv : (beforeAnswer.1.bypassRsp cfg (written quiet) 2).valid = true := by decide +kernel
  obtain ⟨k, -, -, hbus, -⟩ := (bypass_served_once hr (written quiet)).answer 2 hv
  exact ⟨hv, hbus⟩

/-- A load of port 1 misses, and the cache is disabled before a store to its line. -/
def disabledDuringMiss : List CacheIn :=
  [quiet, load 1 1, tag 1 3, quiet, quiet, offStore 3 1, offStore 3 1]

/-- The store is granted by the bypass while the MSHR holds its line. -/
def atGrant : Nbdcache × BypassLog := (bypassWatched cfg).run (initial, .start) disabledDuringMiss

def atAnswer : Nbdcache × BypassLog := (bypassWatched cfg).run atGrant [offStore 3 1, taken (offStore 4 2)]

/-- The refill is done, and the controller has looked the store up in the cache. -/
def afterRefill : Nbdcache × BypassLog :=
  (bypassWatched cfg).run atAnswer [written { bus arReady with enable := false }, bus (Stimuli.beat false false),
    bus (Stimuli.beat true false), quiet, quiet, quiet]

set_option maxRecDepth 10000 in
/-- The store of the disabled cache is granted and answered by the bypass, and then made and granted again. -/
theorem bypass_store_served_twice :
    (bypassWatched cfg).Reachable (fun _ _ => True) atAnswer ∧
    ¬ ServedOnce cfg atAnswer.1 (written quiet) atAnswer.2 ∧
    ((atGrant.1.bypassRsp cfg (offStore 3 1) 2).gnt = true ∧ (atGrant.1.reqPortO cfg (offStore 3 1) 2).dataGnt = true) ∧
    afterRefill.2.answered = [2] ∧ (afterRefill.1.ctrl 2).state = .storeReq ∧
    (afterRefill.1.reqPortO cfg (offStore 4 2) 2).dataGnt = true ∧ afterRefill.2.number 2 = atGrant.2.number 2 := by
  refine ⟨?_, fun h =>
    ?_, by decide +kernel, by decide +kernel, by decide +kernel, by decide +kernel, by decide +kernel⟩
  · have hreset : (bypassWatched cfg).Reachable (fun _ _ => True) (initial, .start) := .init ⟨initial_isReset, rfl⟩
    have hgrant : (bypassWatched cfg).Reachable (fun _ _ => True) atGrant := hreset.run (by decide +kernel)
    exact hgrant.run (by decide +kernel)
  · have hrun : atAnswer.1.arb.serving = true ∧ atAnswer.2.granted.map Granted.port = [2] ∧
        (∀ k ∈ atAnswer.2.granted, atAnswer.2.killed 2 k.number = false) ∧
        (atAnswer.1.ctrl 2).state = .waitMshr := by decide +kernel
    obtain ⟨hs, hport, hkill, hst⟩ := hrun
    obtain ⟨k, hk, hk2⟩ := List.map_eq_singleton_iff.mp hport
    have howner := (h.owner hs k (by rw [hk]; rfl)).1 2 hk2
    rcases howner with hkilled | ⟨-, hwait⟩
    · exact absurd (hkilled.symm.trans (hkill k (by simp [hk]))) (by decide)
    · exact absurd (hst.symm.trans hwait) (by decide)

end Runs
end Culsans.Subsystem
