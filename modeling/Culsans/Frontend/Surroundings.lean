import Culsans.Core.Controller
import Culsans.Frontend.Prediction
import Culsans.Frontend.QueueLabels

/-! # The front end and what is around it

The controller flushes the front end whenever it is sent elsewhere, and the instruction cache answers one
request after the other. Whatever memory holds, all addresses stay even.
-/

namespace Culsans.Frontend
open Library Culsans.Core

variable {depth n : ℕ}

/-- What an observer knows: the request that waits for its answer, where the front end has last been sent,
and what has gone through the queue since. -/
structure FrontLog where
  pend : Option (BitVec 64)
  start : BitVec 64
  queue : QueueLog

namespace FrontEnd

/-- Where the commit stage sends the front end. -/
def restart (c : FrontendCfg) (i : FrontendIn) : Option (BitVec 64) :=
  if i.setDebugPc then some c.debugAddr
  else if i.setPcCommit then some (i.pcCommit + 4)
  else if i.exValid then some i.trapVectorBase
  else if i.eret then some i.epc
  else none

/-- Where the front end is sent with a flush. -/
def redirect (c : FrontendCfg) (i : FrontendIn) : Option (BitVec 64) :=
  (restart c i).or (if isMispredict i then some i.resolvedBranch.targetAddress else none)

end FrontEnd

namespace FrontLog

def watch (c : FrontendCfg) (l : FrontLog) (q : FrontEnd depth n) (i : FrontendIn) : FrontLog where
  pend :=
    if q.killS1 i then none
    else if q.ifReady i then some (q.fetchAddress i c)
    else if q.killS2 i || i.icache.valid then none
    else l.pend
  start := if i.flush then q.npcD i c else l.start
  queue := l.queue.watch q.queue (q.queueIn i)

end FrontLog

/-- The front end with its observer. -/
def frontEnd (depth n : ℕ) (c : FrontendCfg) : Machine (FrontEnd depth n × FrontLog) FrontendIn :=
  Machine.observe ⟨(· = FrontEnd.reset), fun q i => q.step i c⟩ ⟨none, c.bootAddr, .empty⟩ (FrontLog.watch c)

/-- A fetch ends in an exception. -/
def FrontendIn.faults (i : FrontendIn) : Prop := frontendException i.icache.exCause ≠ .feNone

/-- The surroundings: a flush comes with an address, the commit stage and the table of targets only know even
addresses, the back end takes an entry when there is one, and the cache answers the request that waits, if it
has not been killed, and accepts the next one then. It answers with the word of memory, or with an exception;
what comes with an exception at the end of a word must not look like the first half of an instruction, or the
exception is lost. -/
structure Surroundings (c : FrontendCfg) (mem : BitVec 64 → BitVec 16) (x : FrontEnd depth n × FrontLog)
    (i : FrontendIn) :
    Prop where
  flush : i.flush = (FrontEnd.redirect c i).isSome
  even : ∀ v ∈ FrontEnd.restart c i, v.getLsbD 0 = false
  btb : ∀ k, (i.btbPrediction k).valid = true → (i.btbPrediction k).targetAddress.getLsbD 0 = false
  entry : i.fetchEntryReady = true → x.1.queue.fetchEntryValid = true
  answer : i.icache.valid = true → x.2.pend = some i.icache.vaddr ∧ x.1.killS2 i = false
  data : i.icache.valid = true → ¬ i.faults → i.icache.data = wordAt mem i.icache.vaddr
  fault : i.icache.valid = true → i.faults → i.icache.vaddr.getLsbD 1 = true → isCompressed (high i.icache.data) = true
  ready : i.icache.ready = true → x.2.pend = none ∨ i.icache.valid = true ∨ x.1.killS2 i = true

variable {c : FrontendCfg} {mem : BitVec 64 → BitVec 16} {x : FrontEnd depth n × FrontLog} {i : FrontendIn}

theorem frontEnd_next : (frontEnd depth n c).next x i = (x.1.step i c, x.2.watch c x.1 i) := rfl

theorem all_even {o : Option (BitVec 64)} : (o.all fun v => !v.getLsbD 0) = true ↔ ∀ v ∈ o, v.getLsbD 0 = false := by
  cases o <;> simp

instance : Decidable (Surroundings c mem x i) :=
  decidable_of_iff (i.flush = (FrontEnd.redirect c i).isSome ∧
    ((FrontEnd.restart c i).all fun v => !v.getLsbD 0) = true ∧
    (∀ k, (i.btbPrediction k).valid = true → (i.btbPrediction k).targetAddress.getLsbD 0 = false) ∧
      (i.fetchEntryReady = true → x.1.queue.fetchEntryValid = true) ∧
      (i.icache.valid = true → x.2.pend = some i.icache.vaddr ∧ x.1.killS2 i = false) ∧
      (i.icache.valid = true → frontendException i.icache.exCause = .feNone →
        i.icache.data = wordAt mem i.icache.vaddr) ∧
      (i.icache.valid = true → frontendException i.icache.exCause ≠ .feNone → i.icache.vaddr.getLsbD 1 = true →
        isCompressed (high i.icache.data) = true) ∧
      (i.icache.ready = true → x.2.pend = none ∨ i.icache.valid = true ∨ x.1.killS2 i = true))
    ⟨fun ⟨a, b, d, e, f, g, h, k⟩ => ⟨a, all_even.mp b, d, e, f, fun hv hn => g hv (not_not.mp hn), h, k⟩,
      fun ⟨a, b, d, e, f, g, h, k⟩ => ⟨a, all_even.mpr b, d, e, f, fun hv hn => g hv (not_not.mpr hn), h, k⟩⟩

/-! ### Flushes -/

/-- What the controller drives of the inputs. -/
structure Controlled (cfg : CtrlCfg) (s : Controller) (j : CtrlIn) (i : FrontendIn) : Prop where
  flush : i.flush = (Controller.flushCtrl cfg s j).flushIf
  setPcCommit : i.setPcCommit = (Controller.flushCtrl cfg s j).setPcCommit
  exValid : i.exValid = j.exValid
  eret : i.eret = j.eret
  setDebugPc : i.setDebugPc = j.setDebugPc
  isMispredict : FrontEnd.isMispredict i = j.isMispredict

/-- The front end is flushed with a restart at the commit stage, or for another reason. -/
def Restarts (m : Bool) (o : FlushOut) : Prop := o.flushIf = (o.setPcCommit || m)

theorem Restarts.ite {m : Bool} {o o' : FlushOut} (b : Prop) [Decidable b] (h : Restarts m o) (h' : Restarts m o') :
    Restarts m (if b then o else o') := by
  split_ifs
  · exact h
  · exact h'

/-- The last condition of the controller. -/
theorem Restarts.last {j : CtrlIn} {o : FlushOut} (h : Restarts j.isMispredict o) :
    Restarts (j.setDebugPc || j.exValid || j.eret || j.isMispredict)
      (if j.exValid || j.eret || j.setDebugPc then { o.restart with setPcCommit := false, flushBp := true }
        else o) := by
  rw [Restarts] at h ⊢
  cases j.exValid <;> cases j.eret <;> cases j.setDebugPc <;> simp [h, FlushOut.restart]

theorem flushCtrl_restarts (cfg : CtrlCfg) (s : Controller) (j : CtrlIn) :
    Restarts (j.setDebugPc || j.exValid || j.eret || j.isMispredict) (Controller.flushCtrl cfg s j) := by
  unfold Controller.flushCtrl
  extract_lets _ mispredict fence _ _ fenceI ack _ sfence _ hfenceV _ hfenceG _ fenceT restart
  -- every condition restarts or leaves the two outputs as they are
  have hm : Restarts j.isMispredict mispredict := by
    simp only [mispredict]
    cases hj : j.isMispredict <;> rfl
  have hf : Restarts j.isMispredict fence := .ite _ (.ite _ rfl rfl) hm
  have hi : Restarts j.isMispredict fenceI := .ite _ (.ite _ rfl rfl) hf
  have ha : Restarts j.isMispredict ack := .ite _ (.ite _ hi (.ite _ hi hi)) hi
  have hs : Restarts j.isMispredict sfence := .ite _ (.ite _ rfl rfl) ha
  have hv : Restarts j.isMispredict hfenceV := .ite _ rfl hs
  have hg : Restarts j.isMispredict hfenceG := .ite _ rfl hv
  have ht : Restarts j.isMispredict fenceT := .ite _ hg hg
  exact .last (.ite _ rfl ht)

/-- The front end is flushed when it is sent elsewhere, and not otherwise. -/
theorem Controlled.redirect {cfg : CtrlCfg} {s : Controller} {j : CtrlIn} (h : Controlled cfg s j i) :
    i.flush = (FrontEnd.redirect c i).isSome := by
  have hsome : (FrontEnd.redirect c i).isSome =
      (i.setDebugPc || i.setPcCommit || i.exValid || i.eret || FrontEnd.isMispredict i) := by
    rw [FrontEnd.redirect, FrontEnd.restart]
    cases i.setDebugPc <;> cases i.setPcCommit <;> cases i.exValid <;> cases i.eret <;> cases FrontEnd.isMispredict
      i <;> rfl
  have hr : (Controller.flushCtrl cfg s j).flushIf = _ := flushCtrl_restarts cfg s j
  rw [hsome, h.flush, h.setPcCommit, h.exValid, h.eret, h.setDebugPc, h.isMispredict, hr]
  simp only [Bool.or_assoc, Bool.or_left_comm]

/-! ### Addresses are even -/

theorem reAlign_addr0 (r : InstrRealign) (a : RealignIn) :
    (r.reAlign a).slot0.addr = if r.unaligned then r.unalignedAddress else a.address := by
  simp only [InstrRealign.reAlign]
  split_ifs <;> rfl

theorem reAlign_addr1 (r : InstrRealign) (a : RealignIn) : (r.reAlign a).slot1.addr = upper a.address := by
  simp only [InstrRealign.reAlign]
  split_ifs <;> rfl

theorem even_upper (v : BitVec 64) : (upper v).getLsbD 0 = false := by
  rw [bit0_iff, toNat_upper]
  omega

theorem even_align_add (v : BitVec 64) : (align v + 4#64).getLsbD 0 = false := by
  rw [bit0_iff, BitVec.toNat_add, toNat_align, BitVec.toNat_ofNat]
  omega

theorem accepted_watch (l : QueueLog) (q : InstrQueue depth) (j : QueueIn) :
    (l.watch q j).accepted = if j.flush then [] else l.accepted ++ q.acceptedNow j := by
  rw [QueueLog.watch]
  split_ifs <;> rfl

theorem mem_acceptedNow {q : InstrQueue depth} {j : QueueIn} {a : Accepted} (ha : a ∈ q.acceptedNow j) :
    ∃ k, a = j.slot k := by
  rw [InstrQueue.acceptedNow, List.mem_append] at ha
  rcases ha with ha | ha <;> split_ifs at ha
  · exact ⟨0, List.mem_singleton.mp ha⟩
  · exact absurd ha List.not_mem_nil
  · exact ⟨1, List.mem_singleton.mp ha⟩
  · exact absurd ha List.not_mem_nil

/-- All addresses of the front end, and of what it has put into the queue. -/
structure EvenAddresses (c : FrontendCfg) (x : FrontEnd depth n × FrontLog) : Prop where
  npc : (x.1.npcNow c).getLsbD 0 = false
  pend : ∀ v ∈ x.2.pend, v.getLsbD 0 = false
  vaddr : x.1.fetch.icacheVaddr.getLsbD 0 = false
  unaligned : x.1.fetch.realign.unalignedAddress.getLsbD 0 = false
  btb : x.1.btb.valid = true → x.1.btb.targetAddress.getLsbD 0 = false
  ras : ∀ k, (x.1.ras k).ra.getLsbD 0 = false
  start : x.2.start.getLsbD 0 = false
  accepted : ∀ a ∈ x.2.queue.accepted, a.addr.getLsbD 0 = false ∧ a.predict.getLsbD 0 = false

namespace EvenAddresses

theorem init (hc : c.bootAddr.getLsbD 0 = false) :
    EvenAddresses c ((FrontEnd.reset, ⟨none, c.bootAddr, .empty⟩) : FrontEnd depth n × FrontLog) where
  npc := hc
  pend v hv := absurd hv (Option.not_mem_none v)
  vaddr := BitVec.getLsbD_zero
  unaligned := BitVec.getLsbD_zero
  btb h := absurd h Bool.false_ne_true
  ras _ := BitVec.getLsbD_zero
  start := hc
  accepted _ ha := absurd ha List.not_mem_nil

theorem slot (h : EvenAddresses c x) (k : Fin 2) : (x.1.slot k).addr.getLsbD 0 = false := by
  match k with
  | 0 =>
    change (x.1.fetch.realign.reAlign x.1.fetch.realignIn).slot0.addr.getLsbD 0 = false
    rw [reAlign_addr0]
    split_ifs
    · exact h.unaligned
    · exact h.vaddr
  | 1 =>
    change (x.1.fetch.realign.reAlign x.1.fetch.realignIn).slot1.addr.getLsbD 0 = false
    rw [reAlign_addr1]
    exact even_upper _

theorem hints (h : EvenAddresses c x) (hi : Surroundings c mem x i) : FrontEnd.EvenHints x.1 i where
  slot := h.slot
  btb := h.btb
  btbPrediction := hi.btb
  ras := h.ras 0

theorem fetchAddress (h : EvenAddresses c x) (hi : Surroundings c mem x i) :
    (x.1.fetchAddress i c).getLsbD 0 = false := by
  rw [FrontEnd.fetchAddress]
  split_ifs
  · exact (h.hints hi).predictAddress
  · exact h.npc

theorem replayAddr (h : EvenAddresses c x) : (x.1.queue.replayAddr (x.1.queueIn i)).getLsbD 0 = false := by
  rw [InstrQueue.replayAddr]
  split_ifs
  · exact h.slot 0
  · exact h.slot _

end EvenAddresses

theorem npcD_restart : ∀ v ∈ FrontEnd.restart c i, x.1.npcD i c = v := by
  intro v hv
  rw [FrontEnd.restart] at hv
  rw [FrontEnd.npcD]
  split_ifs at hv ⊢ <;> simp_all

theorem restart_none (hn : FrontEnd.restart c i = none) :
    i.setDebugPc = false ∧ i.setPcCommit = false ∧ i.exValid = false ∧ i.eret = false := by
  rw [FrontEnd.restart] at hn
  split_ifs at hn
  simp_all

theorem npcD_mispredict (hn : FrontEnd.restart c i = none) (hm : FrontEnd.isMispredict i = true) :
    x.1.npcD i c = i.resolvedBranch.targetAddress := by
  obtain ⟨hd, hp, he, ht⟩ := restart_none hn
  simp [FrontEnd.npcD, hm, hd, hp, he, ht]

/-- Without a flush nothing sends the front end elsewhere. -/
theorem Surroundings.quiet (hi : Surroundings c mem x i) (hf : i.flush = false) :
    FrontEnd.isMispredict i = false ∧ FrontEnd.restart c i = none := by
  have hn : FrontEnd.redirect c i = none := by
    rw [← Option.not_isSome_iff_eq_none, ← hi.flush, hf]
    exact Bool.false_ne_true
  rw [FrontEnd.redirect, Option.or_eq_none_iff] at hn
  refine ⟨?_, hn.1⟩
  by_contra hm
  rw [if_pos (Bool.eq_true_of_not_eq_false hm)] at hn
  exact Option.some_ne_none _ hn.2

/-- With a flush the commit stage or the branch unit sends it elsewhere. -/
theorem Surroundings.flushed (hi : Surroundings c mem x i) (hf : i.flush = true) (hn : FrontEnd.restart c i = none) :
    FrontEnd.isMispredict i = true := by
  by_contra hm
  have hs := hi.flush.symm.trans hf
  rw [FrontEnd.redirect, hn, if_neg hm] at hs
  exact Bool.false_ne_true hs

/-- The next address without a flush. -/
theorem npcD_quiet (hi : Surroundings c mem x i) (hf : i.flush = false) : x.1.npcD i c =
    if x.1.replay i then x.1.queue.replayAddr (x.1.queueIn i)
    else if x.1.ifReady i then align (x.1.fetchAddress i c) + 4#64 else x.1.fetchAddress i c := by
  obtain ⟨hm, hn⟩ := hi.quiet hf
  obtain ⟨hd, hp, he, ht⟩ := restart_none hn
  simp [FrontEnd.npcD, hm, hd, hp, he, ht, FrontEnd.fetchAddress]

namespace EvenAddresses

/-- `hm` is kept by the branch unit. -/
theorem npcD (h : EvenAddresses c x) (hi : Surroundings c mem x i)
    (hm : FrontEnd.isMispredict i = true → i.resolvedBranch.targetAddress.getLsbD 0 = false) :
    (x.1.npcD i c).getLsbD 0 = false := by
  cases hf : i.flush with
  | true =>
    cases hn : FrontEnd.restart c i with
    | some v =>
      rw [npcD_restart v hn]
      exact hi.even v hn
    | none =>
      have ht := hi.flushed hf hn
      rw [npcD_mispredict hn ht]
      exact hm ht
  | false =>
    rw [npcD_quiet hi hf]
    split_ifs
    · exact h.replayAddr
    · exact even_align_add _
    · exact h.fetchAddress hi

theorem step (h : EvenAddresses c x) (hi : Surroundings c mem x i)
    (hm : FrontEnd.isMispredict i = true → i.resolvedBranch.targetAddress.getLsbD 0 = false) :
    EvenAddresses c ((frontEnd depth n c).next x i) := by
  rw [frontEnd_next]
  constructor
  case npc => exact h.npcD hi hm
  case pend =>
    intro v hv
    rw [FrontLog.watch] at hv
    dsimp only at hv
    split_ifs at hv
    · exact absurd hv (Option.not_mem_none v)
    · rw [← Option.some.inj hv]
      exact h.fetchAddress hi
    · exact absurd hv (Option.not_mem_none v)
    · exact h.pend v hv
  case vaddr =>
    change (if i.icache.valid then i.icache.vaddr else x.1.fetch.icacheVaddr).getLsbD 0 = false
    split_ifs with hv
    · exact h.pend _ (hi.answer hv).1
    · exact h.vaddr
  case unaligned =>
    change (if x.1.fetch.icacheValid then (x.1.fetch.realign.reAlign x.1.fetch.realignIn).unalignedAddressD
      else x.1.fetch.realign.unalignedAddress).getLsbD 0 = false
    split_ifs
    · have hu : (x.1.fetch.realign.reAlign x.1.fetch.realignIn).unalignedAddressD = upper x.1.fetch.icacheVaddr := by
        simp only [InstrRealign.reAlign]
        split_ifs <;> rfl
      rw [hu]
      exact even_upper _
    · exact h.unaligned
  case btb =>
    intro hb
    rw [FrontEnd.step] at hb ⊢
    dsimp only at hb ⊢
    split_ifs at hb ⊢
    · exact hi.btb 1 hb
    · exact h.btb hb
  case ras =>
    exact Ras.step_forall (P := fun e =>
      e.ra.getLsbD 0 = false) h.ras BitVec.getLsbD_zero (FrontEnd.even_rasUpdate h.slot _)
  case start =>
    rw [FrontLog.watch]
    dsimp only
    split_ifs
    · exact h.npcD hi hm
    · exact h.start
  case accepted =>
    have hp : (x.1.predictAddress i).getLsbD 0 = false := (h.hints hi).predictAddress
    intro a ha
    rw [FrontLog.watch, accepted_watch] at ha
    split_ifs at ha
    · exact absurd ha List.not_mem_nil
    · rw [List.mem_append] at ha
      rcases ha with ha | ha
      · exact h.accepted a ha
      · obtain ⟨k, rfl⟩ := mem_acceptedNow ha
        exact ⟨h.slot k, hp⟩

end EvenAddresses
end Culsans.Frontend
