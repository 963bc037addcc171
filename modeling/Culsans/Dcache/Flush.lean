import Culsans.Dcache.Sweep

/-! # The flush terminates and writes every dirty line back

The lines still to be written back are a list in the order of the sweep: a
write-back takes the first one, so that what has been sent and what is still to be
sent is the same list in every cycle.
-/

namespace Culsans.Dcache

namespace Nbdcache
open Library MissHandler CacheArray

variable {c : Cfg} {s : Nbdcache} {i : CacheIn}

/-- The burst that writes a line back. -/
def backAw (x : PAddr × CacheLine) : AwChan := ⟨x.1, 1, 3, false, 0b1100#4, .none, 0b011#3, 0b00#2⟩
def backBeats (x : PAddr × CacheLine) : List WChan :=
  [⟨burstWords x.2.data 0, burstBe x.2.dirty 0, false⟩, ⟨burstWords x.2.data 1, burstBe x.2.dirty 1, true⟩]

/-- AW and W handshakes of the refill adapter, in their order. -/
structure BusLog where
  aws : List AwChan
  ws : List WChan

def BusLog.empty : BusLog := ⟨[], []⟩

def logBus (c : Cfg) (g : BusLog) (s : Nbdcache) (i : CacheIn) : BusLog :=
  ⟨g.aws ++ awTaken (s.axiOut c i) i.axiData, g.ws ++ wTaken (s.axiOut c i) i.axiData⟩

/-- The cache with an observer of the bus. -/
def busLogged (c : Cfg) : Machine (Nbdcache × BusLog) CacheIn := (machine c).observe .empty (logBus c)

/-- No snoop is in progress, no controller is busy and the miss handler has nothing to do. The arrays
hold anything. -/
structure Quiescent (s : Nbdcache) : Prop where
  idle : s.miss.state = .idle
  serve : s.miss.serveAmo = false
  alone : s.busy = false
  axi : s.axi.state = .idle
  amo : s.axi.amo = .none

/-- Whenever the controllers and the miss handler of a running cache are idle, it is quiescent. -/
theorem quiescent_of_reachable {ok : Nbdcache → CacheIn → Prop} (h : (machine c).Reachable ok s)
    (hi : s.miss.state = .idle) (hb : s.busy = false) : s.Quiescent where
  idle := hi
  serve := by
    by_contra hn
    have hs := (serving_reachable h).serve (by simpa using hn)
    simp [flushes, amoPrepares, hi] at hs
  alone := hb
  axi := by simpa [adapterFits, hi] using (adapterInv_reachable h).fits
  amo := (adapterInv_reachable h).amo

/-- The addresses still to be sent. -/
def awsToSend (c : Cfg) (s : Nbdcache) : List AwChan :=
  if s.miss.state = .wbCachelineFlush then
    s.axi.awsLeft (s.miss.axiReq c) ++ s.arr.dirtyLines.tail.map backAw
  else s.arr.dirtyLines.map backAw

/-- The beats still to be sent. -/
def beatsToSend (c : Cfg) (s : Nbdcache) : List WChan :=
  if s.miss.state = .wbCachelineFlush then
    s.axi.beatsLeft (s.miss.axiReq c) ++ s.arr.dirtyLines.tail.flatMap backBeats
  else s.arr.dirtyLines.flatMap backBeats

/-- The line being written back is the first dirty one of its set. -/
structure Victim (s : Nbdcache) (w : Way) : Prop where
  way : s.miss.evictWay = oneHot w
  cl : s.miss.evictCl = s.arr s.miss.cnt w
  dirty : s.arr.dirtyAt (s.miss.cnt, w) = true
  first : ∀ v, v < w → s.arr.dirtyAt (s.miss.cnt, v) = false

/-- The flush in progress; `m` is the array when it was accepted. -/
structure FlushInv (c : Cfg) (m : CacheArray) (x : Nbdcache × BusLog) : Prop where
  alone : x.1.busy = false
  serve : x.1.miss.serveAmo = false
  flushes : x.1.miss.flushes = true
  axi : x.1.axi.LineWrite
  rest : x.1.miss.state ≠ .wbCachelineFlush → x.1.axi.state = .idle
  look : x.1.miss.state = .flushing → ∀ w, x.1.rd.rdata w = x.1.arr x.1.miss.cnt w
  swept : ∀ idx, idx < x.1.miss.cnt → ∀ w, Blank (x.1.arr idx w)
  victim : x.1.miss.state = .wbCachelineFlush → ∃ w, x.1.Victim w
  aws : x.2.aws ++ x.1.awsToSend c = m.dirtyLines.map backAw
  ws : x.2.ws ++ x.1.beatsToSend c = m.dirtyLines.flatMap backBeats

/-! ### What a cycle of the flush does -/

/-- A held flush keeps the controllers idle once snoops are held off. -/
theorem busy_step (h : s.busy = false) (hf : i.flush = true)
    (ha : s.miss.flushes = true ∨ i.snoopPort.acValid = false) : (s.step c i).busy = false := by
  have hsn : s.snoop.state = .idle := snoop_idle_of_busy h
  have hacc : s.snoop.accepts (s.snoopIn c i) = false := by
    rcases ha with ha | ha
    · have hfl : s.miss.flushingO = true := by grind [flushes, flushingO]
      simp [SnoopCtrl.accepts, SnoopCtrl.acReady, snoopIn, hfl]
    · simp [SnoopCtrl.accepts, SnoopCtrl.acReady, snoopIn, ha]
  have hs' : (s.step c i).snoop.busy = false := by
    simp [step, SnoopCtrl.step, SnoopCtrl.stepIdle, SnoopCtrl.busy, hsn, hacc]
  have hc' : ∀ p, ((s.step c i).ctrl p).busy = false := by
    intro p
    have hp := ctrl_idle_of_busy h p
    have hst : (s.ctrlIn c i p).stall = true := by simp [ctrlIn, hf]
    simp only [step, CacheCtrl.step, CacheCtrl.stepState, CacheCtrl.stepIdle, CacheCtrl.busy, hp, hst]
    grind [CacheCtrl.base]
  simp [busy, hs', hc']

/-- The burst offered for the victim is the write-back of its line. -/
theorem burst_of_victim {w : Way} (hq : s.miss.state = .wbCachelineFlush) (hw : s.Victim w) :
    AxiAdapter.lineAw (s.miss.axiReq c) = backAw (s.arr.lineAt (s.miss.cnt, w)) ∧
      [AxiAdapter.lineBeat (s.miss.axiReq c) 0, AxiAdapter.lineBeat (s.miss.axiReq c) 1] =
        backBeats (s.arr.lineAt (s.miss.cnt, w)) := by
  simp [AxiAdapter.lineAw, AxiAdapter.lineBeat, AxiAdapter.awSnoop, axiReq, hq, hw.cl, backAw, backBeats, lineAt]

/-- The victim is the first of the dirty lines; the others stay dirty when it is cleared. -/
theorem dirtyLines_of_victim {w : Way} (hw : s.Victim w)
    (hs : ∀ idx, idx < s.miss.cnt → ∀ v, Blank (s.arr idx v)) {m : CacheArray}
    (hx : m.dirtyAt (s.miss.cnt, w) = false)
    (ho : ∀ y, y ≠ (s.miss.cnt, w) → m y.1 y.2 = s.arr y.1 y.2) :
    s.arr.dirtyLines = s.arr.lineAt (s.miss.cnt, w) :: m.dirtyLines := by
  apply dirtyLines_eq_cons hw.dirty ?_ hx ho
  rintro ⟨idx, v⟩ (hlt | ⟨rfl, hlt⟩)
  · simp [dirtyAt, (hs idx hlt v).1]
  · exact hw.first v hlt

theorem dirtyLines_victim_cons {w : Way} (hw : s.Victim w)
    (hs : ∀ idx, idx < s.miss.cnt → ∀ v, Blank (s.arr idx v)) :
    s.arr.dirtyLines = s.arr.lineAt (s.miss.cnt, w) :: s.arr.dirtyLines.tail := by
  have hc := dirtyLines_of_victim hw hs
    (m := fun idx v => if (idx, v) = (s.miss.cnt, w) then .zero else s.arr idx v) (by simp [dirtyAt, CacheLine.zero])
    (fun y hy => if_neg hy)
  rw [hc, List.tail_cons]

section Cycle
variable {m : CacheArray} {g : BusLog} (h : FlushInv c m (s, g))
include h

theorem sweeping : s.Sweeping := ⟨h.flushes, undisturbed_of_busy h.alone, h.axi, h.look, h.rest⟩

/-- Outside of a write-back the adapter rests. -/
theorem bus_rest (hq : s.miss.state ≠ .wbCachelineFlush) :
    logBus c g s i = g ∧ (s.step c i).axi.LineWrite ∧ (s.step c i).axi.state = .idle := by
  obtain ⟨ha, hw, hl, hi⟩ := sweep_rest (c := c) (i := i) (sweeping h) hq
  exact ⟨by simp [logBus, ha, hw], hl, hi⟩

theorem serve_step (hq : s.miss.state ≠ .idle) : (s.step c i).miss.serveAmo = false := by
  have hm : (s.step c i).miss = s.miss.step (s.missIn c i) := rfl
  have hv := serves s.miss (s.missIn c i)
  have hs := h.serve
  generalize s.miss.step (s.missIn c i) = d at hm hv
  rw [hm]
  cases hv <;> grind

/-- FLUSH_REQ_STATUS looks the set up. -/
theorem flush_look (hf : i.flush = true) (hq : s.miss.state = .flushReqStatus) :
    FlushInv c m (s.step c i, logBus c g s i) := by
  have hm : (s.step c i).miss = { s.miss with
      state := .flushing, collidingClean := s.miss.detectClean (s.missIn c i) } := by
    simp [step, MissHandler.step, hq]
  have hp : s.missPort c i = .lookup s.miss.cnt := by simp [missPort, port, hq]
  obtain ⟨harr, hr⟩ := step_of_missLookup hp
  obtain ⟨hlog, hl, hi⟩ := bus_rest (i := i) h (by simp [hq])
  refine ⟨busy_step h.alone hf (.inl h.flushes), serve_step h (by simp [hq]), ?_, hl, fun _ => hi, ?_, ?_, ?_,
    ?_, ?_⟩
  · simp [MissHandler.flushes, hm]
  · intro _ w
    rw [hr, harr, hm]
  · simpa [hm, harr] using h.swept
  · simp [hm]
  · simpa [hlog, awsToSend, hm, harr, hq] using h.aws
  · simpa [hlog, beatsToSend, hm, harr, hq] using h.ws

/-- FLUSHING takes the first dirty way of the set. -/
theorem flush_evict (hf : i.flush = true) (hq : s.miss.state = .flushing)
    (hd : anyWay (MissHandler.dirtyWay (s.missIn c i)) = true) :
    FlushInv c m (s.step c i, logBus c g s i) := by
  have hm : (s.step c i).miss = { s.miss with
      state := .wbCachelineFlush, collidingClean := s.miss.detectClean (s.missIn c i)
      evictWay := getVictimCl (MissHandler.dirtyWay (s.missIn c i))
      evictCl := s.rd.rdata (oneHotToBin (MissHandler.dirtyWay (s.missIn c i))) } := by
    simp only [step, MissHandler.step, hq, stepFlushing, hd, if_true]
    rfl
  have harr : (s.step c i).arr = s.arr :=
    arr_kept (undisturbed_of_busy h.alone) (by simp [saves, hq]) (by simp [cleared, hq, hd])
  obtain ⟨hlog, hl, hi⟩ := bus_rest (i := i) h (by simp [hq])
  have hdw := dirtyWay_of_sweep (c := c) (i := i) (sweeping h) hq
  have hv : (s.step c i).Victim (oneHotToBin (MissHandler.dirtyWay (s.missIn c i))) := by
    refine ⟨by rw [hm]; rfl, ?_, ?_, ?_⟩
    · rw [hm, harr]
      exact h.look hq _
    · have hs := oneHotToBin_spec hd
      rw [hm, harr]
      rwa [hdw] at hs ⊢
    · intro v hlt
      have hs := oneHotToBin_first hlt
      rw [hm, harr]
      rwa [hdw] at hs
  have hsw : ∀ idx, idx < (s.step c i).miss.cnt → ∀ w, Blank ((s.step c i).arr idx w) := by
    rw [hm, harr]
    exact h.swept
  have hst : (s.step c i).miss.state = .wbCachelineFlush := by rw [hm]
  have hcons := dirtyLines_victim_cons hv hsw
  obtain ⟨haw, hbt⟩ := burst_of_victim (c := c) hst hv
  refine ⟨busy_step h.alone hf (.inl h.flushes), serve_step h (by simp [hq]), ?_, hl, fun _ => hi, ?_, hsw,
    fun _ => ⟨_, hv⟩, ?_, ?_⟩
  · simp [MissHandler.flushes, hst]
  · simp [hst]
  · have hto : (s.step c i).awsToSend c = s.awsToSend c := by
      simp only [awsToSend, hst, hq, AxiAdapter.awsLeft, hi, haw, if_true]
      rw [← harr, hcons]
      simp
    rw [hto, hlog]
    exact h.aws
  · have hto : (s.step c i).beatsToSend c = s.beatsToSend c := by
      simp only [beatsToSend, hst, hq, AxiAdapter.beatsLeft, hi, hbt, if_true]
      rw [← harr, hcons]
      simp
    rw [hto, hlog]
    exact h.ws

/-- FLUSHING clears a set without dirty lines. -/
theorem arr_of_sweep (hq : s.miss.state = .flushing)
    (hd : anyWay (MissHandler.dirtyWay (s.missIn c i)) = false) :
    (s.step c i).arr = clearedArr s.arr s.miss.cnt allWays :=
  arr_of_cleared (undisturbed_of_busy h.alone) (by simp [saves, hq]) (by simp [cleared, hq, hd])

theorem dirtyLines_of_sweep (hq : s.miss.state = .flushing)
    (hd : anyWay (MissHandler.dirtyWay (s.missIn c i)) = false) :
    (s.step c i).arr.dirtyLines = s.arr.dirtyLines := by
  have hclean : ∀ w, s.arr.dirtyAt (s.miss.cnt, w) = false := by
    rw [dirtyWay_of_sweep (sweeping h) hq, anyWay_eq_false_iff] at hd
    exact hd
  rw [arr_of_sweep h hq hd]
  apply dirtyLines_congr
  · rintro ⟨idx, w⟩
    by_cases hi : idx = s.miss.cnt
    · subst hi
      rw [hclean w]
      simp [dirtyAt, clearedArr, allWays, CacheLine.invalidated]
    · simp [dirtyAt, clearedArr, hi]
  · rintro ⟨idx, w⟩ hdy
    by_cases hi : idx = s.miss.cnt
    · subst hi
      simp [hclean w] at hdy
    · simp [clearedArr, hi]

/-- After the sweep of its set, every set up to it is blank. -/
theorem blank_of_sweep (hq : s.miss.state = .flushing)
    (hd : anyWay (MissHandler.dirtyWay (s.missIn c i)) = false) {idx : Index} (hi : idx ≤ s.miss.cnt) (w : Way) :
    Blank ((s.step c i).arr idx w) := by
  rw [arr_of_sweep h hq hd]
  by_cases he : idx = s.miss.cnt
  · simp [clearedArr, he, allWays, Blank, CacheLine.invalidated]
  · simpa [clearedArr, he] using h.swept idx (BitVec.lt_of_le_ne hi he) w

/-- FLUSHING goes on to the next set. -/
theorem flush_sweep (hf : i.flush = true) (hq : s.miss.state = .flushing)
    (hd : anyWay (MissHandler.dirtyWay (s.missIn c i)) = false) (hl : s.miss.cnt ≠ 255) :
    FlushInv c m (s.step c i, logBus c g s i) := by
  have hm : (s.step c i).miss = { s.miss with
      state := .flushReqStatus, collidingClean := s.miss.detectClean (s.missIn c i)
      cnt := s.miss.cnt + 1 } := by
    have hl' : (s.miss.cnt == 255) = false := beq_eq_false_iff_ne.mpr hl
    simp only [step, MissHandler.step, hq, stepFlushing, hd, hl', Bool.false_and, Bool.false_eq_true, if_false]
  have hnat := toNat_succ_of_ne hl
  have hdl := dirtyLines_of_sweep h hq hd
  obtain ⟨hlog, hlw, hi⟩ := bus_rest (i := i) h (by simp [hq])
  refine ⟨busy_step h.alone hf (.inl h.flushes), serve_step h (by simp [hq]), ?_, hlw, fun _ => hi, ?_, ?_, ?_,
    ?_, ?_⟩
  · simp [MissHandler.flushes, hm]
  · simp [hm]
  · intro idx hlt w
    have hlt' : idx.toNat < (s.miss.cnt + 1).toNat := by
      rw [hm] at hlt
      exact hlt
    apply blank_of_sweep h hq hd
    rw [BitVec.le_def]
    omega
  · simp [hm]
  · have hto : (s.step c i).awsToSend c = s.awsToSend c := by simp [awsToSend, hm, hq, hdl]
    rw [hlog, hto]
    exact h.aws
  · have hto : (s.step c i).beatsToSend c = s.beatsToSend c := by simp [beatsToSend, hm, hq, hdl]
    rw [hlog, hto]
    exact h.ws

/-- WB_CACHELINE_FLUSH sends the burst of the victim. -/
theorem flush_send (hf : i.flush = true) (hq : s.miss.state = .wbCachelineFlush)
    (hv : s.axi.valid i.axiData = false) :
    FlushInv c m (s.step c i, logBus c g s i) := by
  have hv' : (s.missIn c i).axi.valid = false := hv
  obtain ⟨hm, hreq, hlw, haw, hbt⟩ := back_send (c := c) h.axi (by simp [writingBack, hq]) hv
  have harr : (s.step c i).arr = s.arr :=
    arr_kept (undisturbed_of_busy h.alone) (by simp [saves, hq]) (by simp [cleared, hq, hv'])
  have hst : (s.step c i).miss.state = .wbCachelineFlush := by
    rw [hm]
    exact hq
  have haws : s.awsToSend c = awTaken (s.axiOut c i) i.axiData ++ (s.step c i).awsToSend c := by
    simp only [awsToSend, hst, hq, if_true, hreq, harr]
    rw [haw, List.append_assoc]
  have hbts : s.beatsToSend c = wTaken (s.axiOut c i) i.axiData ++ (s.step c i).beatsToSend c := by
    simp only [beatsToSend, hst, hq, if_true, hreq, harr]
    rw [hbt, List.append_assoc]
  refine ⟨busy_step h.alone hf (.inl h.flushes), serve_step h (by simp [hq]), ?_, hlw, ?_, ?_, ?_, ?_, ?_, ?_⟩
  · simp [MissHandler.flushes, hst]
  · simp [hst]
  · simp [hst]
  · rw [hm, harr]
    exact h.swept
  · intro _
    obtain ⟨w, hw⟩ := h.victim hq
    refine ⟨w, ?_⟩
    constructor <;> rw [hm] <;> try rw [harr]
    · exact hw.way
    · exact hw.cl
    · exact hw.dirty
    · exact hw.first
  · rw [logBus, List.append_assoc, ← haws]
    exact h.aws
  · rw [logBus, List.append_assoc, ← hbts]
    exact h.ws

/-- The response to the burst clears the victim. -/
theorem flush_sent (hf : i.flush = true) (hq : s.miss.state = .wbCachelineFlush)
    (hv : s.axi.valid i.axiData = true) :
    FlushInv c m (s.step c i, logBus c g s i) := by
  have hv' : (s.missIn c i).axi.valid = true := hv
  have hm : (s.step c i).miss = { s.miss with
      state := .flushReqStatus, collidingClean := s.miss.detectClean (s.missIn c i) } := by
    simp [step, MissHandler.step, hq, hv']
  obtain ⟨w, hw⟩ : ∃ w, s.Victim w := h.victim hq
  have hcl : s.miss.cleared (s.missIn c i) = some (s.miss.cnt, oneHot w) := by simp [cleared, hq, hv', hw.way]
  have harr := arr_of_cleared (undisturbed_of_busy h.alone) (by simp [saves, hq]) hcl
  have hkeep : ∀ y : Index × Way, y ≠ (s.miss.cnt, w) → (s.step c i).arr y.1 y.2 = s.arr y.1 y.2 := by
    rintro ⟨idx, v⟩ hne
    rw [harr]
    apply if_neg
    simpa [oneHot, Prod.ext_iff] using hne
  have hx : (s.step c i).arr.dirtyAt (s.miss.cnt, w) = false := by
    simp [dirtyAt, harr, clearedArr, oneHot, CacheLine.invalidated]
  have hcons := dirtyLines_of_victim hw h.swept hx hkeep
  obtain ⟨haw, hbt, hta, htw, hlw, hi⟩ := AxiAdapter.lineWrite_done (r := s.miss.axiReq c) h.axi hv
  have hlog : logBus c g s i = g := by simp [logBus, axiOut, hta, htw]
  refine ⟨busy_step h.alone hf (.inl h.flushes), serve_step h (by simp [hq]), ?_, hlw, fun _ => hi, ?_, ?_, ?_,
    ?_, ?_⟩
  · simp [MissHandler.flushes, hm]
  · simp [hm]
  · intro idx hlt v
    rw [hm] at hlt
    rw [hkeep (idx, v) (by simp [BitVec.ne_of_lt hlt])]
    exact h.swept idx hlt v
  · simp [hm]
  · have hto : (s.step c i).awsToSend c = s.awsToSend c := by simp [awsToSend, hm, hq, haw, hcons]
    rw [hlog, hto]
    exact h.aws
  · have hto : (s.step c i).beatsToSend c = s.beatsToSend c := by simp [beatsToSend, hm, hq, hbt, hcons]
    rw [hlog, hto]
    exact h.ws

/-- Before the acknowledge the flush goes on. -/
theorem flush_cycle (hf : i.flush = true) (hack : s.miss.flushAck (s.missIn c i) = false) :
    FlushInv c m (s.step c i, logBus c g s i) := by
  have hfl := h.flushes
  simp only [MissHandler.flushes, Bool.or_eq_true, beq_iff_eq] at hfl
  rcases hfl with (hq | hq) | hq
  · exact flush_look h hf hq
  · cases hd : anyWay (MissHandler.dirtyWay (s.missIn c i))
    · have hl : s.miss.cnt ≠ 255 := by
        intro hl
        have hs : s.miss.serveAmo = false := h.serve
        simp [flushAck, hq, hd, hl, hs] at hack
      exact flush_sweep h hf hq hd hl
    · exact flush_evict h hf hq hd
  · cases hv : s.axi.valid i.axiData
    · exact flush_send h hf hq hv
    · exact flush_sent h hf hq hv

/-- At the acknowledge nothing is left to send, and the last set is cleared. -/
theorem flush_done (hack : s.miss.flushAck (s.missIn c i) = true) :
    g.aws = m.dirtyLines.map backAw ∧ g.ws = m.dirtyLines.flatMap backBeats ∧ logBus c g s i = g ∧
      ∀ idx w, Blank ((s.step c i).arr idx w) := by
  simp only [flushAck, Bool.and_eq_true, beq_iff_eq, Bool.not_eq_true'] at hack
  obtain ⟨⟨⟨hq, hd⟩, hl⟩, -⟩ := hack
  have hle : ∀ idx : Index, idx ≤ s.miss.cnt := by
    intro idx
    rw [hl, BitVec.le_def]
    have hlt := idx.isLt
    change idx.toNat ≤ 255
    omega
  have hblank : ∀ idx w, Blank ((s.step c i).arr idx w) := fun idx w => blank_of_sweep h hq hd (hle idx) w
  have hnil : s.arr.dirtyLines = [] := by
    rw [← dirtyLines_of_sweep h hq hd]
    exact dirtyLines_eq_nil fun y => by simp [dirtyAt, (hblank y.1 y.2).1]
  have hne : s.miss.state ≠ .wbCachelineFlush := by simp [hq]
  have ha := h.aws
  have hw := h.ws
  simp only [awsToSend, beatsToSend, hne, if_false, hnil, List.map_nil, List.flatMap_nil, List.append_nil] at ha hw
  exact ⟨ha, hw, (bus_rest h hne).1, hblank⟩

end Cycle

/-- A quiescent cache accepts the flush. -/
theorem flush_accept (h : s.Quiescent) (hf : i.flush = true) (hac : i.snoopPort.acValid = false)
    (hamo : i.amoReq.req = false) : FlushInv c s.arr (s.step c i, logBus c .empty s i) := by
  have hidle := h.idle
  have hb := h.alone
  have hnone : requester (s.missIn c i) = none := by
    rw [requester, List.find?_eq_none]
    intro p _
    simp [missIn, CacheCtrl.missReq, ctrl_idle_of_busy hb p]
  have hb' : (s.missIn c i).busy = false := hb
  have hf' : (s.missIn c i).flush = true := hf
  have ha' : (s.missIn c i).amoReq.req = false := hamo
  have hm : (s.step c i).miss = { s.miss with state := .flushReqStatus, collidingClean := false, cnt := 0 } := by
    simp [step, MissHandler.step, hidle, stepIdle, hnone, hb', hf', ha']
  have harr : (s.step c i).arr = s.arr :=
    arr_kept (undisturbed_of_busy hb) (by simp [saves, hidle]) (by simp [cleared, hidle])
  have hr : (s.miss.axiReq c).req = false := by simp [axiReq, hidle]
  have hi : (s.step c i).axi.state = .idle := AxiAdapter.step_idle_none h.axi hr
  have hlog : logBus c .empty s i = .empty := by
    simp [logBus, BusLog.empty, axiOut, awTaken, wTaken, AxiAdapter.axiReq, h.axi, hr]
  refine ⟨busy_step hb hf (.inr hac), ?_, ?_, ⟨?_, .inl hi, ?_⟩, fun _ => hi, ?_, ?_, ?_, ?_, ?_⟩
  · simpa [hm] using h.serve
  · simp [MissHandler.flushes, hm]
  · exact AxiAdapter.step_amo h.amo (axiReq_amo c s.miss)
  · simp [step, AxiAdapter.step, AxiAdapter.stepState, AxiAdapter.stepIdle, h.axi, hr]
  · simp [hm]
  · intro idx hlt
    rw [hm, BitVec.lt_def] at hlt
    simp at hlt
  · simp [hm]
  · rw [hlog]
    simp [BusLog.empty, awsToSend, hm, harr]
  · rw [hlog]
    simp [BusLog.empty, beatsToSend, hm, harr]

/-! ### The whole flush -/

/-- The cache and its bus along a stream of inputs. -/
def flushRun (c : Cfg) (s : Nbdcache) (u : ℕ → CacheIn) (n : ℕ) : Nbdcache × BusLog :=
  (busLogged c).states (s, .empty) u n

/-- `flush_ack_o` in a cycle of the run. -/
def ackAt (c : Cfg) (s : Nbdcache) (u : ℕ → CacheIn) (n : ℕ) : Prop :=
  (flushRun c s u n).1.miss.flushAck ((flushRun c s u n).1.missIn c (u n)) = true

/-- The flush is held until it is acknowledged, and the bus answers after finitely many cycles. No snoop
and no atomic comes in the first cycle: the core never requests an atomic together with a flush, and
later snoops are held off. -/
structure FlushHeld (c : Cfg) (s : Nbdcache) (u : ℕ → CacheIn) : Prop where
  held : ∀ n, (∀ m ≤ n, ¬ ackAt c s u m) → (u n).flush = true
  snoop : (u 0).snoopPort.acValid = false
  amo : (u 0).amoReq.req = false
  bus : Answers c (fun n => (flushRun c s u n).1) u

section Run
variable {u : ℕ → CacheIn} (h : s.Quiescent) (hu : FlushHeld c s u)
include h hu

theorem flushRun_inv {n : ℕ} (hn : ∀ m ≤ n, ¬ ackAt c s u m) : FlushInv c s.arr (flushRun c s u (n + 1)) := by
  induction n with
  | zero => exact flush_accept h (hu.held 0 hn) hu.snoop hu.amo
  | succ n ih =>
    have hi := ih fun m hm => hn m (by omega)
    exact flush_cycle hi (hu.held (n + 1) hn) (Bool.eq_false_iff.mpr (hn (n + 1) le_rfl))

theorem flushRun_effort (hn : ∀ n, ¬ ackAt c s u n) (n : ℕ) :
    (flushRun c s u (n + 2)).1.flushEffort c < (flushRun c s u (n + 1)).1.flushEffort c ∨
      ((flushRun c s u (n + 1)).1.waitsForBus c (u (n + 1)) ∧
        (flushRun c s u (n + 2)).1.flushEffort c = (flushRun c s u (n + 1)).1.flushEffort c) :=
  sweep_effort (sweeping (flushRun_inv h hu fun m _ => hn m)) (flushRun_inv h hu (n := n + 1) fun m _ => hn m).flushes

/-- A flush does not wait for the bus forever. -/
theorem flushRun_drops (hn : ∀ n, ¬ ackAt c s u n) (n : ℕ) :
    ∃ m, n ≤ m ∧ (flushRun c s u (m + 2)).1.flushEffort c < (flushRun c s u (m + 1)).1.flushEffort c := by
  by_contra hno
  have hw : ∀ k, n + 1 ≤ k → (flushRun c s u k).1.waitsForBus c (u k) := by
    intro k hk
    obtain ⟨k, rfl⟩ : ∃ j, k = j + 1 := ⟨k - 1, by omega⟩
    exact ((flushRun_effort h hu hn k).resolve_left fun hd => hno ⟨k, by omega, hd⟩).1
  have hl : ∀ k, n + 1 ≤ k → (flushRun c s u k).1.axi.LineWrite := by
    intro k hk
    obtain ⟨k, rfl⟩ : ∃ j, k = j + 1 := ⟨k - 1, by omega⟩
    exact (flushRun_inv h hu fun m _ => hn m).axi
  exact not_waits_forever hu.bus (fun _ _ => rfl) hl hw

/-- The flush is acknowledged. Before that, every dirty line is written back once, with its address, data
and dirty bytes, and nothing else is sent; the way being cleared is always that of the line being sent. At
the edge that ends the acknowledge every line is invalid and clean. -/
theorem flush_cleans :
    ∃ n, ackAt c s u n ∧ (∀ m < n, ¬ ackAt c s u m) ∧
      (flushRun c s u n).2.aws = s.arr.dirtyLines.map backAw ∧
      (flushRun c s u n).2.ws = s.arr.dirtyLines.flatMap backBeats ∧
      (flushRun c s u (n + 1)).2 = (flushRun c s u n).2 ∧
      (∀ idx w, Blank ((flushRun c s u (n + 1)).1.arr idx w)) ∧
      ∀ m ≤ n, (flushRun c s u m).1.miss.state = .wbCachelineFlush →
        ∃ w, (flushRun c s u m).1.miss.evictWay = oneHot w ∧
          (flushRun c s u m).1.miss.evictCl = (flushRun c s u m).1.arr (flushRun c s u m).1.miss.cnt w := by
  obtain ⟨n, hack, hfirst⟩ := exists_first_of_measure (g := ackAt c s u)
    (μ := fun n => (flushRun c s u (n + 1)).1.flushEffort c)
    (fun hn k => (flushRun_effort h hu hn k).elim le_of_lt fun he => he.2.le)
    (flushRun_drops h hu)
  have hinv : ∀ m, 0 < m → m ≤ n → FlushInv c s.arr (flushRun c s u m) := by
    intro m hm hle
    obtain ⟨k, rfl⟩ : ∃ k, m = k + 1 := ⟨m - 1, by omega⟩
    exact flushRun_inv h hu fun j hj => hfirst j (by omega)
  have hpos : 0 < n := by
    rw [Nat.pos_iff_ne_zero]
    rintro rfl
    have hidle := h.idle
    simp [ackAt, flushRun, flushAck, hidle] at hack
  obtain ⟨haws, hws, hlog, hblank⟩ := flush_done (hinv n hpos le_rfl) hack
  refine ⟨n, hack, hfirst, haws, hws, hlog, hblank, fun m hm hq => ?_⟩
  have hm0 : 0 < m := by
    rw [Nat.pos_iff_ne_zero]
    rintro rfl
    have hidle := h.idle
    simp [flushRun, hidle] at hq
  obtain ⟨w, hw⟩ := (hinv m hm0 hm).victim hq
  exact ⟨w, hw.way, hw.cl⟩

end Run

/-- A cache with one dirty line: tag 5 in way 2 of set 3. -/
def oneDirty : Nbdcache :=
  { initial with
    miss := { MissHandler.reset with state := .idle }
    arr := fun idx w => if idx = 3 ∧ w = 2 then ⟨5, fun _ => 7, fun b => b == 1, true, false⟩ else .zero }

/-- A flush on a bus that takes and answers everything at once. -/
def promptFlush : CacheIn :=
  { Stimuli.quiet with
    flush := true, axiData := { AxiResp.none with awReady := true, wReady := true, bValid := true } }

set_option maxRecDepth 20000 in
theorem flush_cleans_run :
    ∃ n, ackAt Stimuli.cfg oneDirty (fun _ => promptFlush) n ∧
      (flushRun Stimuli.cfg oneDirty (fun _ => promptFlush) n).2.aws =
        [⟨⟨5, 3, 0⟩, 1, 3, false, 0b1100#4, .none, 0b011#3, 0b00#2⟩] ∧
      ∀ idx w, Blank ((flushRun Stimuli.cfg oneDirty (fun _ => promptFlush) (n + 1)).1.arr idx w) := by
  have hq : oneDirty.Quiescent := ⟨rfl, rfl, rfl, rfl, rfl⟩
  have hu : FlushHeld Stimuli.cfg oneDirty fun _ => promptFlush :=
    ⟨fun _ _ => rfl, rfl, rfl,
      ⟨fun n _ _ => ⟨n, le_rfl, rfl⟩, fun n _ _ => ⟨n, le_rfl, rfl⟩, fun n _ _ => ⟨n, le_rfl, rfl⟩⟩⟩
  obtain ⟨n, hack, -, haws, -, -, hblank, -⟩ := flush_cleans hq hu
  have hpos : positions.filter oneDirty.arr.dirtyAt = [(3, 2)] := by decide +kernel
  refine ⟨n, hack, ?_, hblank⟩
  rw [haws, dirtyLines, hpos]
  rfl

end Nbdcache
end Culsans.Dcache
