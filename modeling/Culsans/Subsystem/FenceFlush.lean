import Culsans.Core.Controller
import Culsans.Dcache.Flush

/-! # A fence that flushes the data cache

The flush controller of the core and the data cache on the two wires between them. The
controller asks for the flush until the cache has acknowledged it, and the core is halted as
long; so nothing is dirty any more when the core goes on.
-/

namespace Culsans.Subsystem
open Dcache Library

/-- The cache with its bus, and the controller. -/
structure Fenced where
  cache : Nbdcache × Nbdcache.BusLog
  ctrl : Core.Controller

structure FencedIn where
  cache : CacheIn
  ctrl : Core.CtrlIn

namespace Fenced
variable (c : Cfg) (cfg : Core.CtrlCfg) (x : Fenced) (i : FencedIn)

/-- `dcache_flush_ctrl_cache` -/
def cacheIn : CacheIn := { i.cache with flush := x.ctrl.flushDcache }

def flushAck : Bool := x.cache.1.miss.flushAck (x.cache.1.missIn c (x.cacheIn i))

/-- `dcache_flush_ack_cache_ctrl` -/
def ctrlIn : Core.CtrlIn := { i.ctrl with flushDcacheAck := x.flushAck c i }

def step : Fenced where
  cache := (x.cache.1.step c (x.cacheIn i), Nbdcache.logBus c x.cache.2 x.cache.1 (x.cacheIn i))
  ctrl := x.ctrl.step cfg (x.ctrlIn c i)

/-- From the cycle in which the flush reaches the cache. -/
def run (c : Cfg) (cfg : Core.CtrlCfg) (s : Nbdcache) (q : Core.Controller) (u : ℕ → FencedIn) : ℕ → Fenced
  | 0 => ⟨(s, .empty), q⟩
  | n + 1 => (run c cfg s q u n).step c cfg (u n)

/-- A fence has been committed, and the core does what it does. No snoop and no atomic comes in the first
cycle, and the bus answers after finitely many cycles. -/
structure Fence (s : Nbdcache) (q : Core.Controller) (u : ℕ → FencedIn) : Prop where
  writeBack : cfg.writeBack = true
  active : q.fenceActive = true
  asked : q.flushDcache = true
  fits : ∀ n, (run c cfg s q u n).ctrl.Fits ((run c cfg s q u n).ctrlIn c (u n))
  snoop : (u 0).cache.snoopPort.acValid = false
  amo : (u 0).cache.amoReq.req = false
  bus : Nbdcache.Answers c (fun n => (run c cfg s q u n).cache.1) fun n => (run c cfg s q u n).cacheIn (u n)

variable {c cfg} {s : Nbdcache} {q : Core.Controller} {u : ℕ → FencedIn}

/-- What the cache is given in every cycle. -/
def cacheInputs (c : Cfg) (cfg : Core.CtrlCfg) (s : Nbdcache) (q : Core.Controller) (u : ℕ → FencedIn) (n : ℕ) :
    CacheIn :=
  (run c cfg s q u n).cacheIn (u n)

theorem run_cache (n : ℕ) :
    (run c cfg s q u n).cache = Nbdcache.flushRun c s (cacheInputs c cfg s q u) n := by
  induction n with
  | zero => rfl
  | succ n ih =>
    have hnext : (run c cfg s q u (n + 1)).cache =
        ((run c cfg s q u n).cache.1.step c (cacheInputs c cfg s q u n),
          Nbdcache.logBus c (run c cfg s q u n).cache.2 (run c cfg s q u n).cache.1 (cacheInputs c cfg s q u n)) := rfl
    rw [hnext, ih]
    rfl

theorem flushAck_run (n : ℕ) : (run c cfg s q u n).flushAck c (u n) = true ↔
    Nbdcache.ackAt c s (cacheInputs c cfg s q u) n := by
  rw [Nbdcache.ackAt, ← run_cache]
  rfl

section Run
variable (h : Fence c cfg s q u)
include h

/-- Until the acknowledge the controller waits in a halted core. -/
theorem Fence.waits {n : ℕ} (hn : ∀ m < n, ¬ Nbdcache.ackAt c s (cacheInputs c cfg s q u) m) :
    (run c cfg s q u n).ctrl.fenceActive = true ∧ (run c cfg s q u n).ctrl.flushDcache = true := by
  induction n with
  | zero => exact ⟨h.active, h.asked⟩
  | succ n ih =>
    obtain ⟨ha, -⟩ := ih fun m hm => hn m (by omega)
    have hack : (run c cfg s q u n).flushAck c (u n) = false := by
      rw [← Bool.not_eq_true, flushAck_run]
      exact hn n (by omega)
    have hactive : (run c cfg s q u (n + 1)).ctrl.fenceActive = _ := Core.Controller.flushCtrl_fenceActive
    have hflush : (run c cfg s q u (n + 1)).ctrl.flushDcache = _ := Core.Controller.flushCtrl_flushDcache
    have hin : ((run c cfg s q u n).ctrlIn c (u n)).flushDcacheAck = false := hack
    rw [hactive, hflush, ha, hin, h.writeBack]
    simp

/-- The flush is held, as the cache needs it. -/
theorem Fence.held : Nbdcache.FlushHeld c s (cacheInputs c cfg s q u) where
  held n hn := (h.waits fun m hm => hn m hm.le).2
  snoop := h.snoop
  amo := h.amo
  bus := by
    have hstates : (fun n => (Nbdcache.flushRun c s (cacheInputs c cfg s q u) n).1) =
        fun n => (run c cfg s q u n).cache.1 := by
      funext n
      rw [run_cache]
    rw [hstates]
    exact h.bus

/-- The acknowledge ends the request and the fence. -/
theorem Fence.ends {n : ℕ} (hn : ∀ m < n, ¬ Nbdcache.ackAt c s (cacheInputs c cfg s q u) m)
    (hack : Nbdcache.ackAt c s (cacheInputs c cfg s q u) n) :
    (run c cfg s q u (n + 1)).ctrl.fenceActive = false ∧ (run c cfg s q u (n + 1)).ctrl.flushDcache = false := by
  obtain ⟨ha, -⟩ := h.waits hn
  have hfit := h.fits n
  have hh : (run c cfg s q u n).ctrl.halt ((run c cfg s q u n).ctrlIn c (u n)) = true :=
    Core.Controller.halt_of_active ha
  have hin : ((run c cfg s q u n).ctrlIn c (u n)).flushDcacheAck = true := (flushAck_run n).mpr hack
  have hactive : (run c cfg s q u (n + 1)).ctrl.fenceActive = _ := Core.Controller.flushCtrl_fenceActive
  have hflush : (run c cfg s q u (n + 1)).ctrl.flushDcache = _ := Core.Controller.flushCtrl_flushDcache
  rw [hactive, hflush, ha, hin, h.writeBack, hfit.fence hh, hfit.fenceI hh, hfit.fenceT hh]
  simp

/-- The first acknowledge, after a sweep of the cache. -/
theorem Fence.acknowledged (hs : s.Quiescent) : ∃ n, Nbdcache.ackAt c s (cacheInputs c cfg s q u) n ∧
    (∀ m < n, ¬ Nbdcache.ackAt c s (cacheInputs c cfg s q u) m) ∧
      Nbdcache.FlushInv c s.arr (Nbdcache.flushRun c s (cacheInputs c cfg s q u) n) := by
  obtain ⟨n, hack, hfirst⟩ := exists_first_of_measure (g := Nbdcache.ackAt c s (cacheInputs c cfg s q u))
    (μ := fun n => (Nbdcache.flushRun c s (cacheInputs c cfg s q u) (n + 1)).1.flushEffort c)
    (fun hn k => (Nbdcache.flushRun_effort hs h.held hn k).elim le_of_lt fun he => he.2.le)
    (Nbdcache.flushRun_drops hs h.held)
  refine ⟨n, hack, hfirst, ?_⟩
  cases n with
  | zero =>
    have hidle := hs.idle
    simp [Nbdcache.ackAt, Nbdcache.flushRun, MissHandler.flushAck, hidle] at hack
  | succ k => exact Nbdcache.flushRun_inv hs h.held fun j hj => hfirst j (by omega)

/-- The fence comes to its end. Up to then the core is halted; then every line that was dirty has been
written back, once, the cache holds nothing any more, and the flush is no longer asked for. -/
theorem fence_cleans (hs : s.Quiescent) :
    ∃ n, (∀ m ≤ n, ∀ i, (run c cfg s q u m).ctrl.halt i = true) ∧
      (run c cfg s q u n).cache.2.aws = s.arr.dirtyLines.map Nbdcache.backAw ∧
      (run c cfg s q u n).cache.2.ws = s.arr.dirtyLines.flatMap Nbdcache.backBeats ∧
      (run c cfg s q u (n + 1)).cache.2 = (run c cfg s q u n).cache.2 ∧
      (∀ idx w, CacheArray.Blank ((run c cfg s q u (n + 1)).cache.1.arr idx w)) ∧
      (run c cfg s q u (n + 1)).ctrl.fenceActive = false ∧ (run c cfg s q u (n + 1)).ctrl.flushDcache = false := by
  obtain ⟨n, hack, hfirst, hinv⟩ := h.acknowledged hs
  obtain ⟨haws, hws, hlog, hblank⟩ := Nbdcache.flush_done hinv hack
  refine ⟨n, fun m hm i => ?_, ?_, ?_, ?_, ?_, h.ends hfirst hack⟩
  · exact Core.Controller.halt_of_active (h.waits fun k hk => hfirst k (by omega)).1
  · rw [run_cache]
    exact haws
  · rw [run_cache]
    exact hws
  · rw [run_cache, run_cache]
    exact hlog
  · rw [run_cache]
    exact hblank

end Run

/-- A `FENCE.I` has been committed. -/
def askedFlush : Core.Controller := { Core.Controller.reset 0 with fenceActive := true, flushDcache := true }

/-- One dirty line, a prompt bus and a core without anything else to do. -/
def promptFence : FencedIn :=
  ⟨Nbdcache.promptFlush, false, false, 0, false, false, 0, false, false, 3, false, false, false, false, false,
    false, false, false, false, false, false, false⟩

theorem fence_cleans_run : ∃ n,
    (run Stimuli.cfg ⟨true, true, false⟩ Nbdcache.oneDirty askedFlush (fun _ => promptFence) n).cache.2.aws =
      [⟨⟨5, 3, 0⟩, 1, 3, false, 0b1100#4, .none, 0b011#3, 0b00#2⟩] ∧
    (run Stimuli.cfg ⟨true, true, false⟩ Nbdcache.oneDirty askedFlush (fun _ => promptFence) (n + 1)).ctrl.fenceActive =
      false := by
  have hs : Nbdcache.oneDirty.Quiescent := ⟨rfl, rfl, rfl, rfl, rfl⟩
  have hfence : Fence Stimuli.cfg ⟨true, true, false⟩ Nbdcache.oneDirty askedFlush fun _ => promptFence :=
    ⟨rfl, rfl, rfl, fun n => ⟨fun _ => rfl, fun _ => rfl, fun _ => rfl⟩, rfl, rfl,
      ⟨fun n _ _ => ⟨n, le_rfl, rfl⟩, fun n _ _ => ⟨n, le_rfl, rfl⟩, fun n _ _ => ⟨n, le_rfl, rfl⟩⟩⟩
  obtain ⟨n, -, haws, -, -, -, hend, -⟩ := fence_cleans hfence hs
  have hpos : CacheArray.positions.filter Nbdcache.oneDirty.arr.dirtyAt = [(3, 2)] := by decide +kernel
  refine ⟨n, ?_, hend⟩
  rw [haws, CacheArray.dirtyLines, hpos]
  rfl

end Fenced
end Culsans.Subsystem
