import Culsans.Core.BackEnd

/-! # The sequence of a `fence.t`

The microarchitecture is reset only behind a flush of the data cache, the end of all external
transactions and the padding, in this order, and the core is halted from the fence to the end of
the reset.
-/

namespace Culsans.Core
open Library

/-- What has happened since the last `fence.t` at `pc`, as an observer of the controller's ports sees it. -/
structure FenceTLog where
  taken : Bool
  pc : BitVec 64
  /-- the data cache has acknowledged the flush -/
  acked : Bool
  /-- for how many cycles the caches have been idle by now -/
  idleFor : ℕ
  /-- behind the flush they have been idle for 15 cycles in a row -/
  drained : Bool
  /-- behind that the padding has come to its end -/
  padded : Bool
  /-- the cycles of the reset -/
  resets : ℕ
  /-- how long ago the last cycle of a reset was -/
  sinceReset : ℕ

namespace FenceTLog

/-- Long after a reset. -/
def empty : FenceTLog := ⟨false, 0, false, 0, false, false, 0, 3⟩

def watch (g : FenceTLog) (s : Controller) (i : CtrlIn) : FenceTLog where
  taken := g.taken || i.fenceT
  pc := if i.fenceT then i.pcCommit else g.pc
  acked := !i.fenceT && (g.acked || i.flushDcacheAck)
  idleFor := if i.cacheBusy then 0 else g.idleFor + 1
  drained := !i.fenceT && (g.drained || g.acked && decide (15 ≤ g.idleFor))
  padded := !i.fenceT && (g.padded || g.drained && s.padCnt == 0)
  resets := if i.fenceT then 0 else if s.rstUarchN then g.resets else g.resets + 1
  sinceReset := if s.rstUarchN then g.sinceReset + 1 else 0

/-- A `fence.t` has not come to its end. -/
def Pending (g : FenceTLog) : Prop := g.taken = true ∧ g.resets < 16

/-- What is true in every cycle. -/
structure Sequence (cfg : CtrlCfg) (g : FenceTLog) (s : Controller) : Prop where
  /-- the reset comes last, and leads to the instruction behind the fence -/
  reset : s.rstUarchN = false →
    g.Pending ∧ g.acked = true ∧ g.drained = true ∧ g.padded = true ∧ s.rstAddr = g.pc + 4 ∧
      (cfg.writeBack = true → s.flushDcache = false)
  /-- until then the core is halted and the caches take no requests -/
  halt : g.Pending → ∀ i, s.halt i = true ∧ s.stallCache = true
  /-- the data cache is asked to flush until it acknowledges, and then no more -/
  flush : cfg.writeBack = true → g.Pending → s.flushDcache = !g.acked
  /-- the reset lasts 16 cycles and happens once -/
  once : g.resets ≤ 16
  finished : g.taken = true → s.fenceT = .idle → g.resets = 16
  /-- for three cycles the caches are told not to clear their arrays -/
  init : s.cacheInitN = true ↔ g.sinceReset < 3
  /-- a write-through cache is not waited for, and the core is halted for good -/
  stuck : cfg.writeBack = false → g.taken = true → s.fenceActive = true

end FenceTLog

/-- The back end with the observer of its controller. -/
def fenceTLogged (b p : ℕ) (cfg : CtrlCfg) (bootAddr : BitVec 64) (regs : Reg → BitVec 64) :
    Machine (BackEnd b × FenceTLog) (BackEndIn b p) :=
  (⟨BackEnd.Init bootAddr regs, BackEnd.step cfg⟩ : Machine (BackEnd b) (BackEndIn b p)).observe .empty
    fun g s i => g.watch s.ctrl (s.ctrlIn i)

namespace Controller

/-- How far the fence is, by the state of the controller. -/
structure Phase (g : FenceTLog) (s : Controller) : Prop where
  idle : s.fenceT = .idle → g.resets = if g.taken then 16 else 0
  flushDcache : s.fenceT = .flushDcache → g.taken = true ∧ g.acked = false ∧ g.drained = false ∧ g.padded = false ∧
    g.resets = 0
  drainReqs : s.fenceT = .drainReqs → g.taken = true ∧ g.acked = true ∧ g.drained = false ∧ g.padded = false ∧
    g.resets = 0
  pad : s.fenceT = .pad → g.taken = true ∧ g.acked = true ∧ g.drained = true ∧ g.padded = false ∧ g.resets = 0
  rstUarch : s.fenceT = .rstUarch →
    g.taken = true ∧ g.acked = true ∧ g.drained = true ∧ g.padded = true ∧ g.resets = s.rstUarchCnt.toNat
  count : s.fenceT ≠ .rstUarch → s.rstUarchCnt = 0

structure FenceInv (cfg : CtrlCfg) (g : FenceTLog) (s : Controller) : Prop where
  phase : s.Phase g
  drainCnt : s.drainCnt.toNat = min g.idleFor 15
  rstAddr : g.taken = true → s.rstAddr = g.pc + 4
  flushing : cfg.writeBack = true → s.fenceT = .flushDcache → s.fenceActive = true ∧ s.flushDcache = true
  flushed : cfg.writeBack = true → s.fenceT ≠ .idle → s.fenceT ≠ .flushDcache →
    s.fenceActive = false ∧ s.flushDcache = false
  stuck : cfg.writeBack = false → g.taken = true → s.fenceActive = true
  init : ∀ k < 3, (g.sinceReset = k → s.cacheInit.getLsbD k = true) ∧ (k < g.sinceReset → s.cacheInit.getLsbD k = false)

variable {cfg : CtrlCfg} {s : Controller} {i : CtrlIn} {g : FenceTLog}

theorem halt_of_pending (h : s.fenceT ≠ .idle) : s.halt i = true := by
  simp [halt, bne_iff_ne.mpr h]

/-- No `fence.t` is taken during another one. -/
theorem Fits.fenceT_of_pending (hfit : s.Fits i) (h : s.fenceT ≠ .idle) : i.fenceT = false :=
  hfit.fenceT (halt_of_pending h)

theorem rstUarchCnt_lt (h : s.rstUarchCnt ≠ 15) : s.rstUarchCnt.toNat + 1 < 16 := by
  have hlt := s.rstUarchCnt.isLt
  have hne : s.rstUarchCnt.toNat ≠ 15 := fun he => h (BitVec.eq_of_toNat_eq he)
  omega

theorem drainCnt_eq (hd : s.drainCnt.toNat = min g.idleFor 15) : s.drainCnt = 15 ↔ 15 ≤ g.idleFor := by
  constructor
  · intro he
    rw [he] at hd
    change 15 = _ at hd
    omega
  · intro hle
    apply BitVec.eq_of_toNat_eq
    rw [hd, min_eq_right hle]
    rfl

theorem Phase.step (h : s.Phase g) (hd : s.drainCnt.toNat = min g.idleFor 15) (hfit : s.Fits i) :
    (s.step cfg i).Phase (g.watch s i) := by
  cases hst : s.fenceT with
  | idle =>
    have hcnt : s.rstUarchCnt = 0 := h.count (by simp [hst])
    cases hf : i.fenceT with
    | false =>
      have hold := h.idle hst
      constructor <;> simp_all [Controller.step, fenceTN, rstUarchCntN, FenceTLog.watch, Controller.rstUarchN]
    | true => constructor <;> simp_all [Controller.step, fenceTN, rstUarchCntN, FenceTLog.watch]
  | flushDcache =>
    have hcnt : s.rstUarchCnt = 0 := h.count (by simp [hst])
    have hf := hfit.fenceT_of_pending (by simp [hst])
    have hold := h.flushDcache hst
    cases ha : i.flushDcacheAck <;> constructor <;>
      simp_all [Controller.step, fenceTN, rstUarchCntN, FenceTLog.watch, Controller.rstUarchN]
  | drainReqs =>
    have hcnt : s.rstUarchCnt = 0 := h.count (by simp [hst])
    have hf := hfit.fenceT_of_pending (by simp [hst])
    have hold := h.drainReqs hst
    have hdr := drainCnt_eq hd
    by_cases he : s.drainCnt = 15
    · have hle := hdr.mp he
      constructor <;> simp_all [Controller.step, fenceTN, rstUarchCntN, FenceTLog.watch, Controller.rstUarchN]
    · have hle := hdr.not.mp he
      constructor <;> simp_all [Controller.step, fenceTN, rstUarchCntN, FenceTLog.watch, Controller.rstUarchN]
  | pad =>
    have hcnt : s.rstUarchCnt = 0 := h.count (by simp [hst])
    have hf := hfit.fenceT_of_pending (by simp [hst])
    have hold := h.pad hst
    by_cases he : s.padCnt = 0 <;> constructor <;>
      simp_all [Controller.step, fenceTN, rstUarchCntN, FenceTLog.watch, Controller.rstUarchN]
  | rstUarch =>
    have hf := hfit.fenceT_of_pending (by simp [hst])
    have hold := h.rstUarch hst
    by_cases he : s.rstUarchCnt = 15
    · constructor <;> simp_all [Controller.step, fenceTN, rstUarchCntN, FenceTLog.watch, Controller.rstUarchN]
    · have hlt := rstUarchCnt_lt he
      constructor <;>
        simp_all [Controller.step, fenceTN, rstUarchCntN, FenceTLog.watch, Controller.rstUarchN, Nat.mod_eq_of_lt]

theorem drainCnt_step (hd : s.drainCnt.toNat = min g.idleFor 15) :
    (s.step cfg i).drainCnt.toNat = min (g.watch s i).idleFor 15 := by
  simp only [Controller.step, counter, FenceTLog.watch]
  cases hb : i.cacheBusy with
  | true => simp
  | false =>
    by_cases he : s.drainCnt = 15
    · have hle := (drainCnt_eq hd).mp he
      rw [min_eq_right (by simp; omega)]
      simp [he]
    · have hlt := (drainCnt_eq hd).not.mp he
      have hcnt := s.drainCnt.isLt
      simp only [Bool.false_eq_true, if_false, bne_iff_ne, ne_eq, he, not_false_eq_true, if_true, BitVec.toNat_add]
      rw [Nat.mod_eq_of_lt] <;> simp <;> omega

/-- The flush of the data cache from the fence to the acknowledge. -/
theorem FenceInv.flush_step (h : s.FenceInv cfg g) (hfit : s.Fits i) (hw : cfg.writeBack = true) :
    ((s.step cfg i).fenceT = .flushDcache → (s.step cfg i).fenceActive = true ∧ (s.step cfg i).flushDcache = true) ∧
      ((s.step cfg i).fenceT ≠ .idle → (s.step cfg i).fenceT ≠ .flushDcache →
        (s.step cfg i).fenceActive = false ∧ (s.step cfg i).flushDcache = false) := by
  have hactive : (s.step cfg i).fenceActive = _ := flushCtrl_fenceActive
  have hflush : (s.step cfg i).flushDcache = _ := flushCtrl_flushDcache
  have hnext : (s.step cfg i).fenceT = s.fenceTN i := rfl
  rw [hactive, hflush, hnext, fenceTN]
  cases hst : s.fenceT with
  | idle => cases hf : i.fenceT <;> simp
  | flushDcache =>
    have hh : s.halt i = true := halt_of_pending (by simp [hst])
    obtain ⟨ha, -⟩ := h.flushing hw hst
    cases hack : i.flushDcacheAck <;> simp [hfit.fence hh, hfit.fenceI hh, hfit.fenceT hh, ha, hw]
  | drainReqs | pad | rstUarch =>
    have hh : s.halt i = true := halt_of_pending (by simp [hst])
    obtain ⟨ha, -⟩ := h.flushed hw (by simp [hst]) (by simp [hst])
    simp only [hfit.fence hh, hfit.fenceI hh, hfit.fenceT hh, ha]
    split_ifs <;> simp

theorem FenceInv.init_step (h : s.FenceInv cfg g) (k : ℕ) (hk : k < 3) :
    ((g.watch s i).sinceReset = k → (s.step cfg i).cacheInit.getLsbD k = true) ∧
      (k < (g.watch s i).sinceReset → (s.step cfg i).cacheInit.getLsbD k = false) := by
  have hbit : (s.step cfg i).cacheInit.getLsbD k =
      if k = 0 then s.fenceT == .rstUarch else s.cacheInit.getLsbD (k - 1) := by
    simp only [Controller.step, BitVec.getLsbD_append, BitVec.getLsbD_setWidth]
    by_cases h0 : k = 0
    · simp [h0]
    · have h1 : ¬ k < 1 := by omega
      have h2 : k - 1 < 2 := by omega
      simp [h0, h1, h2]
  rw [hbit, FenceTLog.watch]
  cases hst : s.rstUarchN with
  | false =>
    have hr : s.fenceT = .rstUarch := by simpa [Controller.rstUarchN] using hst
    simp [hr]
    omega
  | true =>
    have hr : (s.fenceT == .rstUarch) = false := by simpa [Controller.rstUarchN] using hst
    by_cases h0 : k = 0
    · simp [h0, hr]
    · have hold := h.init (k - 1) (by omega)
      simp only [h0, if_false, if_true]
      exact ⟨fun he => hold.1 (by omega), fun hlt => hold.2 (by omega)⟩

theorem FenceInv.step (h : s.FenceInv cfg g) (hfit : s.Fits i) : (s.step cfg i).FenceInv cfg (g.watch s i) where
  phase := h.phase.step h.drainCnt hfit
  drainCnt := drainCnt_step h.drainCnt
  rstAddr ht := by
    have hr : (s.step cfg i).rstAddr = _ := flushCtrl_rstAddr
    rw [hr]
    simp only [FenceTLog.watch] at ht ⊢
    split_ifs with hf
    · rfl
    · exact h.rstAddr (by simpa [hf] using ht)
  flushing hw := (h.flush_step hfit hw).1
  flushed hw := (h.flush_step hfit hw).2
  stuck hw ht := by
    have ha : (s.step cfg i).fenceActive = _ := flushCtrl_fenceActive
    rw [ha]
    simp only [FenceTLog.watch, Bool.or_eq_true] at ht
    rcases ht with ht | ht
    · simp [hw, h.stuck hw ht]
    · simp [ht]
  init := h.init_step

theorem FenceInv.reset (bootAddr : BitVec 64) : (Controller.reset bootAddr).FenceInv cfg .empty := by
  constructor
  · constructor <;> simp [Controller.reset, FenceTLog.empty]
  case init =>
    intro k hk
    exact ⟨fun he => absurd hk (by simp [FenceTLog.empty, ← he]), fun _ => by simp [Controller.reset]⟩
  all_goals simp [Controller.reset, FenceTLog.empty]

theorem cacheInitN_iff (h : s.FenceInv cfg g) : s.cacheInitN = true ↔ g.sinceReset < 3 := by
  rw [cacheInitN, bne_iff_ne]
  constructor
  · intro hne
    by_contra hle
    apply hne
    ext k hk
    rw [← BitVec.getLsbD_eq_getElem, (h.init k hk).2 (by omega)]
    simp
  · intro hlt h0
    have hbit := (h.init _ hlt).1 rfl
    simp [h0] at hbit

theorem FenceInv.pending (h : s.FenceInv cfg g) (hp : g.Pending) : s.fenceT ≠ .idle := by
  intro hst
  have hn := h.phase.idle hst
  rw [if_pos hp.1] at hn
  exact absurd hp.2 (by omega)

theorem FenceInv.resets_le (h : s.FenceInv cfg g) : g.resets ≤ 16 := by
  cases hst : s.fenceT with
  | idle =>
    rw [h.phase.idle hst]
    split_ifs <;> omega
  | flushDcache => simp [h.phase.flushDcache hst]
  | drainReqs => simp [h.phase.drainReqs hst]
  | pad => simp [h.phase.pad hst]
  | rstUarch =>
    rw [(h.phase.rstUarch hst).2.2.2.2]
    exact s.rstUarchCnt.isLt.le

theorem FenceInv.sequence (h : s.FenceInv cfg g) : g.Sequence cfg s where
  reset hr := by
    have hst : s.fenceT = .rstUarch := by simpa [Controller.rstUarchN] using hr
    obtain ⟨ht, ha, hd, hp, hn⟩ := h.phase.rstUarch hst
    refine ⟨⟨ht, ?_⟩, ha, hd, hp, h.rstAddr ht, fun hw => (h.flushed hw (by simp [hst]) (by simp [hst])).2⟩
    rw [hn]
    exact s.rstUarchCnt.isLt
  halt hp i := by
    have hst := h.pending hp
    exact ⟨halt_of_pending hst, by simp [stallCache, hst]⟩
  flush hw hp := by
    cases hst : s.fenceT with
    | idle => exact absurd hst (h.pending hp)
    | flushDcache => simp [(h.flushing hw hst).2, (h.phase.flushDcache hst).2.1]
    | drainReqs => simp [(h.flushed hw (by simp [hst]) (by simp [hst])).2, (h.phase.drainReqs hst).2.1]
    | pad => simp [(h.flushed hw (by simp [hst]) (by simp [hst])).2, (h.phase.pad hst).2.1]
    | rstUarch => simp [(h.flushed hw (by simp [hst]) (by simp [hst])).2, (h.phase.rstUarch hst).2.1]
  once := h.resets_le
  finished ht hst := by
    rw [h.phase.idle hst, if_pos ht]
  init := cacheInitN_iff h
  stuck := h.stuck

end Controller

namespace BackEnd
variable {b p : ℕ} {cfg : CtrlCfg} {bootAddr : BitVec 64} {regs : Reg → BitVec 64}

/-- Whatever comes in, a `fence.t` goes through its steps in order. -/
theorem fence_t_in_order {x : BackEnd b × FenceTLog}
    (h : (fenceTLogged b p cfg bootAddr regs).Reachable (fun _ _ => True) x) : x.2.Sequence cfg x.1.ctrl := by
  have hinv : x.1.ctrl.FenceInv cfg x.2 := by
    induction h with
    | init h0 =>
      obtain ⟨⟨-, hc, -⟩, hg⟩ := h0
      rw [hc, hg]
      exact .reset bootAddr
    | step i _ _ ih => exact ih.step fits
  exact hinv.sequence

/-- A `fence.t` is issued, written back and committed. -/
def takeFenceT : List (BackEndIn 1 1) :=
  let e : SbEntry 1 := ⟨8, 0, .csr, ⟨.fenceT, false⟩, 0, 0, false, ⟨0, 0, false⟩, 0⟩
  [aluCycle none false 0 0, aluCycle none false 0 0,
    aluCycle (some ⟨e, 0, 0, true, false, false, false, false, false⟩) false 0 0, aluCycle none true 0 0,
    aluCycle none false 0 0]

def afterFenceT : BackEnd 1 × FenceTLog :=
  (fenceTLogged 1 1 ⟨true, true, false⟩ 0 fun _ => 0).run (backEndReset.1, .empty) takeFenceT

set_option maxRecDepth 20000 in
theorem fence_t_in_order_taken : afterFenceT.2.Pending ∧ afterFenceT.1.ctrl.flushDcache = true ∧
    afterFenceT.2.Sequence ⟨true, true, false⟩ afterFenceT.1.ctrl := by
  have hinit : (fenceTLogged 1 1 ⟨true, true, false⟩ 0 fun _ => 0).init (backEndReset.1, .empty) := by
    refine ⟨⟨⟨rfl, ?_, rfl⟩, rfl, rfl⟩, rfl⟩
    funext r
    cases r <;> rfl
  have hreach : (fenceTLogged 1 1 ⟨true, true, false⟩ 0 fun _ => 0).Reachable (fun _ _ => True) afterFenceT :=
    Machine.reachable_run _ hinit takeFenceT
  have htaken : afterFenceT.2.taken = true := by decide +kernel
  have hresets : afterFenceT.2.resets = 0 := by decide +kernel
  have hpending : afterFenceT.2.Pending := ⟨htaken, by rw [hresets]; decide⟩
  have hacked : afterFenceT.2.acked = false := by decide +kernel
  have hseq := fence_t_in_order hreach
  refine ⟨hpending, ?_, hseq⟩
  rw [hseq.flush rfl hpending, hacked, Bool.not_false]

end BackEnd
end Culsans.Core
