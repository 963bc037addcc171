import Culsans.Dcache.StoreHits
import Culsans.Dcache.LineAdapter

/-! # Flushes and atomics

A flush and an atomic first bring the own cache into a known state: nothing dirty,
or no copy of the line. Both rely on the snoop controller staying away meanwhile,
which the hold-off signals ensure from the cycle after the miss handler has left IDLE.
-/

namespace Culsans.Dcache

namespace SnoopCtrl
variable {q : SnoopCtrl} {i : SnoopIn} {gnt : Bool}

/-- The snoop is being processed: from WAIT_GNT to INVALIDATE. -/
def processing (q : SnoopCtrl) : Bool := q.state == .waitGnt || q.inFlight

/-- A snoop that will be looked up is accepted. -/
def starts (q : SnoopCtrl) (i : SnoopIn) : Bool :=
  q.accepts i && !i.bypass && supported i.snoopPort.acSnoop

theorem step_processing (h : (q.step i gnt).processing = true) :
    (q.starts i = true ∧ (q.step i gnt).memReq = i.snoopPort.acAddr) ∨
      (q.processing = true ∧ (q.step i gnt).memReq = q.memReq) := by
  unfold step processing inFlight at *
  cases hq : q.state <;>
    simp only [hq, stepIdle, stepEvalFlags, evalFlags, starts] at h ⊢ <;> grind -ring -linarith

end SnoopCtrl

namespace MissHandler

/-- An atomic or a flush is being served in the array. -/
def flushes (q : MissHandler) : Bool :=
  q.state == .flushReqStatus || q.state == .flushing || q.state == .wbCachelineFlush

/-- The own copy of the line of an atomic is being looked up or written back. -/
def amoPrepares (q : MissHandler) : Bool :=
  q.state == .amoWbReq || q.state == .amoWb || q.state == .wbCachelineAmo

def amoPresents (q : MissHandler) : Bool := q.state == .amoReq || q.state == .amoWaitResp

/-- The edges of the flush and the atomics. -/
inductive Serves (q : MissHandler) (i : MissIn) : MissHandler → Prop
  | accept (hq : q.state = .idle) (hr : requester i = none) (hb : i.busy = false)
      (ha : i.flush = true ∨ i.amoReq.req = true) :
    Serves q i { q with state := if i.flush then .flushReqStatus else .amoWbReq, cnt := 0
                        serveAmo := q.serveAmo || i.amoReq.req, collidingClean := false }
  | look (hq : q.state = .flushReqStatus) :
    Serves q i { q with state := .flushing, collidingClean := q.detectClean i }
  | evict (hq : q.state = .flushing) (hd : anyWay (dirtyWay i) = true) :
    Serves q i { q with state := .wbCachelineFlush, collidingClean := q.detectClean i
                        evictWay := getVictimCl (dirtyWay i)
                        evictCl := i.rdata (oneHotToBin (dirtyWay i)) }
  | sweep (hq : q.state = .flushing) (hd : anyWay (dirtyWay i) = false) (hl : q.cnt ≠ 255) :
    Serves q i { q with state := .flushReqStatus, collidingClean := q.detectClean i, cnt := q.cnt + 1 }
  | swept (hq : q.state = .flushing) (hd : anyWay (dirtyWay i) = false) (hl : q.cnt = 255) :
    Serves q i { q with state := if q.serveAmo then .amoReq else .idle
                        collidingClean := q.detectClean i, cnt := q.cnt + 1, serveAmo := false }
  | evicted (hq : q.state = .wbCachelineFlush) (hv : i.axi.valid = true) :
    Serves q i { q with state := .flushReqStatus, collidingClean := q.detectClean i }
  | amoLook (hq : q.state = .amoWbReq) :
    Serves q i { q with state := .amoWb, collidingClean := q.detectClean i }
  | amoDirty (w : Way) (hq : q.state = .amoWb) (hw : amoWay i = some w)
      (hd : anyByte (i.rdata w).dirty = true) :
    Serves q i { q with state := .wbCachelineAmo, collidingClean := q.detectClean i
                        evictWay := oneHot w, evictCl := i.rdata w, cnt := i.amoReq.operandA.index }
  | amoClean (w : Way) (hq : q.state = .amoWb) (hw : amoWay i = some w)
      (hd : anyByte (i.rdata w).dirty = false) :
    Serves q i { q with state := .amoReq, collidingClean := q.detectClean i }
  | amoAbsent (hq : q.state = .amoWb) (hw : amoWay i = none) :
    Serves q i { q with state := .amoReq, collidingClean := q.detectClean i }
  | amoWritten (hq : q.state = .wbCachelineAmo) (hv : i.axi.valid = true) :
    Serves q i { q with state := .amoReq, collidingClean := q.detectClean i }
  | wait (hq : q.state = .wbCachelineFlush ∨ q.state = .wbCachelineAmo) (hv : i.axi.valid = false) :
    Serves q i { q with collidingClean := q.detectClean i }
  | present (st : MissState) (hq : q.state = .amoReq) (hs : st = .amoReq ∨ st = .amoWaitResp ∨ st = .idle) :
    Serves q i { q with state := st, serveAmo := false, collidingClean := q.detectClean i }
  | respond (st : MissState) (hq : q.state = .amoWaitResp) (hs : st = .amoWaitResp ∨ st = .idle) :
    Serves q i { q with state := st, collidingClean := q.detectClean i }
  | other (d : MissHandler) (hq : q.flushes = false) (hq' : q.amoPrepares = false)
      (hq'' : q.amoPresents = false) (hd : d.flushes = false) (hd' : d.amoPrepares = false)
      (hd'' : d.amoPresents = false) (hs : d.serveAmo = true → q.serveAmo = true) : Serves q i d

theorem serves_idle {q : MissHandler} {i : MissIn} (hq : q.state = .idle) : Serves q i (q.step i) := by
  have hn : q.flushes = false ∧ q.amoPrepares = false ∧ q.amoPresents = false := by
    simp [flushes, amoPrepares, amoPresents, hq]
  simp only [step, hq, stepIdle]
  cases hr : requester i with
  | some p =>
    refine .other _ hn.1 hn.2.1 hn.2.2 ?_ ?_ ?_ (by simp) <;>
      simp only [flushes, amoPrepares, amoPresents] <;> split_ifs <;> rfl
  | none =>
    by_cases hb : i.busy = false ∧ (i.flush = true ∨ i.amoReq.req = true)
    · have hs := Serves.accept hq hr hb.1 hb.2
      rcases hb with ⟨hb, ha⟩
      cases hf : i.flush <;> cases hm : i.amoReq.req <;> simp_all
    · refine .other _ hn.1 hn.2.1 hn.2.2 ?_ ?_ ?_ ?_ <;>
        cases hbz : i.busy <;> cases hf : i.flush <;> cases hm : i.amoReq.req <;>
        simp_all [flushes, amoPrepares, amoPresents]

/-- The states of a miss leave the flush and the atomics alone. -/
theorem serves_miss {q : MissHandler} {i : MissIn} (hi : q.state ≠ .idle) (hf : q.flushes = false)
    (hp : q.amoPrepares = false) (hs : q.amoPresents = false) : Serves q i (q.step i) := by
  refine .other _ hf hp hs ?_ ?_ ?_ ?_ <;>
  · unfold step
    cases hq : q.state <;>
      simp only [hq, flushes, amoPrepares, amoPresents, stepMissRepl, stepSave, refillState] at hi hf hp hs ⊢ <;>
      grind -ring -linarith

theorem serves (q : MissHandler) (i : MissIn) : Serves q i (q.step i) := by
  cases hq : q.state with
  | idle => exact serves_idle hq
  | flushReqStatus => simpa only [step, hq] using Serves.look hq
  | flushing =>
    simp only [step, hq, stepFlushing]
    by_cases hd : anyWay (dirtyWay i) = true
    · rw [if_pos hd]
      exact .evict hq hd
    · rw [if_neg hd]
      by_cases hl : q.cnt = 255
      · have hs := Serves.swept (i := i) hq (by simpa using hd) hl
        cases ha : q.serveAmo <;> simpa [hl, ha] using hs
      · have hl' : (q.cnt == 255) = false := beq_eq_false_iff_ne.mpr hl
        simp only [hl', Bool.false_and, Bool.false_eq_true, if_false]
        exact .sweep hq (by simpa using hd) hl
  | wbCachelineFlush =>
    simp only [step, hq]
    split_ifs with hv
    · exact .evicted hq hv
    · exact hq ▸ .wait (.inl hq) (by simpa using hv)
  | wbCachelineAmo =>
    simp only [step, hq]
    split_ifs with hv
    · exact .amoWritten hq hv
    · exact hq ▸ .wait (.inr hq) (by simpa using hv)
  | amoWbReq => simpa only [step, hq] using Serves.amoLook hq
  | amoWb =>
    simp only [step, hq, stepAmoWb]
    cases hw : amoWay i with
    | none => exact .amoAbsent hq hw
    | some w =>
      simp only
      split_ifs with hd
      · exact .amoDirty w hq hw hd
      · exact .amoClean w hq hw (by simpa using hd)
  | amoReq =>
    simp only [step, hq]
    refine .present _ hq ?_
    split_ifs <;> simp
  | amoWaitResp =>
    simp only [step, hq]
    split_ifs with hv
    · exact .respond _ hq (.inr rfl)
    · exact .respond .amoWaitResp hq (.inl rfl)
  | _ =>
    exact serves_miss (by simp [hq]) (by simp [flushes, hq]) (by simp [amoPrepares, hq])
      (by simp [amoPresents, hq])

/-- `serve_amo_q` is set exactly while an atomic waits for the own copy to be dealt with; it is cleared
one cycle after the atomic is first presented. -/
structure Serving (q : MissHandler) : Prop where
  serve : q.serveAmo = true → q.flushes = true ∨ q.amoPrepares = true ∨ q.state = .amoReq
  prepare : q.amoPrepares = true → q.serveAmo = true

theorem serving_step {q : MissHandler} {i : MissIn} (h : q.Serving) : (q.step i).Serving := by
  have hv := serves q i
  have hser := h.serve
  have hprep := h.prepare
  generalize q.step i = d at hv
  constructor
  · intro hs
    cases hv <;> grind -ring -linarith [flushes, amoPrepares, amoPresents]
  · intro hs
    cases hv <;> grind -ring -linarith [flushes, amoPrepares, amoPresents]

/-- An atomic is being served, from its acceptance to its response. -/
def servesAmo (q : MissHandler) : Bool := q.amoPrepares || q.amoPresents || (q.flushes && q.serveAmo)

end MissHandler

namespace Nbdcache
open Library MissHandler

variable {c : Cfg} {s : Nbdcache} {i : CacheIn}

/-- What an observer remembers of the atomic being served. -/
structure AmoWatch where
  addr : PAddr
  /-- dirty bytes and data of the own copy when the atomic was accepted -/
  dirty : LineBe
  data : LineData
  /-- write-backs of each byte acknowledged since then, and what they wrote -/
  count : Fin 16 → ℕ
  wrote : LineData

/-- The first way that holds the line of the address. -/
def copyWay (s : Nbdcache) (a : PAddr) : Option Way :=
  (List.finRange 8).find? fun w => (s.arr a.index w).valid && (s.arr a.index w).tag == a.tag

/-- The miss handler leaves IDLE for a flush or an atomic. -/
def accepted (c : Cfg) (s : Nbdcache) (i : CacheIn) : Bool :=
  s.miss.state == .idle && requester (s.missIn c i) == none && !s.busy && (i.flush || i.amoReq.req)

/-- The B handshake of the refill adapter. -/
def backAcked (c : Cfg) (s : Nbdcache) (i : CacheIn) : Bool :=
  (s.axi.axiReq (s.miss.axiReq c) i.axiData).bReady && i.axiData.bValid

def watchAmo (c : Cfg) (g : AmoWatch) (s : Nbdcache) (i : CacheIn) : AmoWatch :=
  if s.accepted c i && i.amoReq.req then
    { addr := i.amoReq.operandA
      dirty := match s.copyWay i.amoReq.operandA with
        | some w => (s.arr i.amoReq.operandA.index w).dirty
        | none => fun _ => false
      data := match s.copyWay i.amoReq.operandA with
        | some w => (s.arr i.amoReq.operandA.index w).data
        | none => fun _ => 0
      count := fun _ => 0
      wrote := fun _ => 0 }
  else if s.backAcked c i && (s.miss.axiReq c).addr.sameLine g.addr then
    { g with
      count := fun b => if lineOfBe (s.miss.axiReq c).be b then g.count b + 1 else g.count b
      wrote := fun b => if lineOfBe (s.miss.axiReq c).be b then lineOfWords (s.miss.axiReq c).wdata b
        else g.wrote b }
  else g

def AmoWatch.start : AmoWatch := ⟨⟨0, 0, 0⟩, fun _ => false, fun _ => 0, fun _ => 0, fun _ => 0⟩

/-- The cache with the observer of its atomics. -/
def amoWatched (c : Cfg) : Machine (Nbdcache × AmoWatch) CacheIn :=
  (machine c).observe .start (watchAmo c)

theorem amoWatched_init (c : Cfg) : (amoWatched c).init (initial, .start) := ⟨initial_isReset, rfl⟩

/-- The core keeps the address of an atomic until it is answered. -/
def operandHeld (x : Nbdcache × AmoWatch) (i : CacheIn) : Bool :=
  !x.1.miss.servesAmo || (i.amoReq.operandA.sameLine x.2.addr)

/-- A store is written into a way with the tag of the line. -/
def storesTo (c : Cfg) (s : Nbdcache) (i : CacheIn) (a : PAddr) : Bool :=
  (List.finRange 3).any fun p => s.storeGranted c i p && (s.ctrl p).memReq.index == a.index &&
    anyWay fun w => (s.ctrl p).hitWay w && (s.arr a.index w).tag == a.tag

/-- A snoop gets past the hold-off in the cycle in which the miss handler leaves IDLE. -/
def snoopSlipsIn (c : Cfg) (s : Nbdcache) (i : CacheIn) : Bool :=
  s.accepted c i && s.snoop.starts (s.snoopIn c i) &&
    (i.flush || i.amoReq.operandA.sameLine i.snoopPort.acAddr)

/-- Two ways hold the line of an atomic that is accepted. -/
def duplicated (c : Cfg) (s : Nbdcache) (i : CacheIn) : Bool :=
  s.accepted c i && i.amoReq.req && anyWay fun w => anyWay fun v => !(v == w) &&
    (s.arr i.amoReq.operandA.index w).valid && (s.arr i.amoReq.operandA.index w).tag == i.amoReq.operandA.tag &&
    (s.arr i.amoReq.operandA.index v).valid && (s.arr i.amoReq.operandA.index v).tag == i.amoReq.operandA.tag

/-- The core's promises about atomics, and the race and the duplicate that the cache does not exclude. -/
def maintenanceOk (c : Cfg) (x : Nbdcache × AmoWatch) (i : CacheIn) : Prop :=
  operandHeld x i = true ∧ (x.1.miss.servesAmo = true → storesTo c x.1 i x.2.addr = false) ∧
    snoopSlipsIn c x.1 i = false ∧ duplicated c x.1 i = false

instance (c : Cfg) (x : Nbdcache × AmoWatch) (i : CacheIn) : Decidable (maintenanceOk c x i) :=
  inferInstanceAs (Decidable (_ ∧ _))

/-- The own copy as it was when the atomic was accepted, in one way and not written back. -/
def Pending (s : Nbdcache) (g : AmoWatch) : Prop :=
  (∃ w, s.Holds g.addr w ∧ (∀ v, s.Holds g.addr v → v = w) ∧
    (s.arr g.addr.index w).dirty = g.dirty ∧ (s.arr g.addr.index w).data = g.data) ∧ ∀ b, g.count b = 0

/-- No own copy is left, and its dirty bytes have been written back once. -/
def Done (s : Nbdcache) (g : AmoWatch) : Prop :=
  (∀ w, ¬ s.Holds g.addr w) ∧
    ∀ b, g.count b = (if g.dirty b then 1 else 0) ∧ (g.dirty b = true → g.wrote b = g.data b)

/-- The own copy is being written back. -/
structure Evicting (s : Nbdcache) (g : AmoWatch) : Prop where
  line : (⟨s.miss.evictCl.tag, s.miss.cnt, 0⟩ : PAddr).sameLine g.addr = true
  dirty : s.miss.evictCl.dirty = g.dirty
  data : s.miss.evictCl.data = g.data
  way : ∀ w, s.Holds g.addr w → s.miss.evictWay w = true
  count : ∀ b, g.count b = 0

/-- A flush writes another line back. -/
def Spared (s : Nbdcache) (g : AmoWatch) : Prop :=
  (⟨s.miss.evictCl.tag, s.miss.cnt, 0⟩ : PAddr).sameLine g.addr = false ∧
    ∀ w, s.miss.evictWay w = true → s.miss.cnt = g.addr.index → ¬ s.Holds g.addr w

/-- A sweep has dealt with the own copy, or is still to reach its set. -/
def Left (s : Nbdcache) (g : AmoWatch) : Prop := s.Done g ∨ (s.Pending g ∧ s.miss.cnt ≤ g.addr.index)

/-- What has become of the own copy, by the state of the miss handler. -/
def Phase (s : Nbdcache) (g : AmoWatch) : Prop :=
  match s.miss.state with
  | .amoWbReq | .amoWb => s.Done g ∨ s.Pending g
  | .wbCachelineAmo => s.Evicting g
  | .amoReq | .amoWaitResp => s.Done g
  | .flushReqStatus | .flushing => s.miss.serveAmo = true → s.Left g
  | .wbCachelineFlush => s.miss.serveAmo = true → s.Evicting g ∨ (s.Spared g ∧ s.Left g)
  | _ => True

structure MaintInv (x : Nbdcache × AmoWatch) : Prop where
  serve : x.1.miss.serveAmo = true →
    x.1.miss.flushes = true ∨ x.1.miss.amoPrepares = true ∨ x.1.miss.state = .amoReq
  prepare : x.1.miss.amoPrepares = true → x.1.miss.serveAmo = true
  flush : x.1.miss.flushes = true → x.1.snoop.processing = false
  amo : x.1.miss.amoPrepares = true ∨ (x.1.miss.state = .amoReq ∧ x.1.miss.serveAmo = true) →
    x.1.snoop.processing = true → x.1.snoop.memReq.sameLine x.2.addr = false
  owns : x.1.miss.amoPrepares = true → x.1.SnoopOwns
  look : x.1.miss.state = .amoWb → ∀ w, x.1.rd.rdata w = x.1.arr x.2.addr.index w
  phase : x.1.Phase x.2

/-! ### Snoops stay away -/

/-- Where an acceptance comes from: every controller is idle. -/
theorem accepted_of_step (hf : ((s.step c i).miss.flushes = true ∧ s.miss.flushes = false) ∨
      ((s.step c i).miss.amoPrepares = true ∧ s.miss.amoPrepares = false)) :
    s.accepted c i = true ∧ s.busy = false ∧
      (s.step c i).miss = { s.miss with
        state := if i.flush then .flushReqStatus else .amoWbReq, cnt := 0
        serveAmo := s.miss.serveAmo || i.amoReq.req, collidingClean := false } := by
  have hs := serves s.miss (s.missIn c i)
  change ((s.miss.step (s.missIn c i)).flushes = true ∧ _) ∨
    ((s.miss.step (s.missIn c i)).amoPrepares = true ∧ _) at hf
  show _ ∧ _ ∧ s.miss.step (s.missIn c i) = _
  generalize s.miss.step (s.missIn c i) = d at hs hf
  cases hs with
  | accept hq hr hb ha =>
    have hb' : s.busy = false := hb
    have ha' : i.flush = true ∨ i.amoReq.req = true := ha
    refine ⟨?_, hb', rfl⟩
    simp [accepted, hq, hr, hb', ha']
  | _ => grind -ring -linarith [flushes, amoPrepares]

theorem snoop_idle_of_busy (h : s.busy = false) : s.snoop.state = .idle := by
  have hb : s.snoop.busy = false := by
    simp only [busy, Bool.or_eq_false_iff] at h
    exact h.1.1.1
  simpa [SnoopCtrl.busy] using hb

theorem ctrl_idle_of_busy (h : s.busy = false) (p : Fin 3) : (s.ctrl p).state = .idle := by
  have hb : (s.ctrl p).busy = false := by
    simp only [busy, Bool.or_eq_false_iff] at h
    fin_cases p
    · exact h.1.1.2
    · exact h.1.2
    · exact h.2
  simpa [CacheCtrl.busy] using hb

theorem starts_flushing (h : s.miss.flushes = true) : s.snoop.starts (s.snoopIn c i) = false := by
  have hf : s.miss.flushingO = true := by grind -ring -linarith [flushes, flushingO]
  simp [SnoopCtrl.starts, SnoopCtrl.accepts, SnoopCtrl.acReady, snoopIn, hf]

/-- A snoop of the line of a held atomic is not accepted. -/
theorem starts_amo {a : PAddr} (h : s.miss.serveAmo = true) (ha : i.amoReq.operandA.sameLine a = true)
    (hs : s.snoop.starts (s.snoopIn c i) = true) : i.snoopPort.acAddr.sameLine a = false := by
  simp only [SnoopCtrl.starts, SnoopCtrl.accepts, SnoopCtrl.acReady, snoopIn, h] at hs
  grind -ring -linarith [PAddr.sameLine]

variable {g : AmoWatch}

theorem flush_step (h : MaintInv (s, g)) (hok : maintenanceOk c (s, g) i)
    (hf : (s.step c i).miss.flushes = true) : (s.step c i).snoop.processing = false := by
  by_contra hp
  rw [Bool.not_eq_false] at hp
  have hp' := SnoopCtrl.step_processing hp
  by_cases hq : s.miss.flushes = true
  · rcases hp' with ⟨hs, -⟩ | ⟨hs, -⟩
    · simp [starts_flushing hq] at hs
    · simp [h.flush hq] at hs
  · obtain ⟨hacc, hb, hd⟩ := accepted_of_step (.inl ⟨hf, by simpa using hq⟩)
    rcases hp' with ⟨hs, -⟩ | ⟨hs, -⟩
    · have hfl : i.flush = true := by
        by_contra hn
        simp [hd, flushes, hn] at hf
      have hslip := hok.2.2.1
      simp [snoopSlipsIn, hacc, hs, hfl] at hslip
    · simp [SnoopCtrl.processing, SnoopCtrl.inFlight, snoop_idle_of_busy hb] at hs

theorem amo_step (h : MaintInv (s, g)) (hok : maintenanceOk c (s, g) i)
    (hm : (s.step c i).miss.amoPrepares = true ∨
      ((s.step c i).miss.state = .amoReq ∧ (s.step c i).miss.serveAmo = true))
    (hp : (s.step c i).snoop.processing = true) :
    (s.step c i).snoop.memReq.sameLine (watchAmo c g s i).addr = false := by
  have hp' := SnoopCtrl.step_processing hp
  by_cases hq : s.miss.amoPrepares = true
  · have hserve := h.prepare hq
    have hnacc : s.accepted c i = false := by grind -ring -linarith [accepted, amoPrepares]
    have hheld : i.amoReq.operandA.sameLine g.addr = true := by
      have hh := hok.1
      simpa [operandHeld, servesAmo, hq] using hh
    have haddr : (watchAmo c g s i).addr = g.addr := by
      simp only [watchAmo, hnacc]
      grind -ring -linarith
    rw [haddr]
    rcases hp' with ⟨hs, hd⟩ | ⟨hs, hd⟩
    · have hd' : (s.step c i).snoop.memReq = i.snoopPort.acAddr := hd
      rw [hd']
      exact starts_amo hserve hheld hs
    · have hd' : (s.step c i).snoop.memReq = s.snoop.memReq := hd
      rw [hd']
      exact h.amo (.inl hq) hs
  · have hprep : (s.step c i).miss.amoPrepares = true := by
      refine hm.resolve_right fun hr => ?_
      have hs := serves s.miss (s.missIn c i)
      have hr' : (s.miss.step (s.missIn c i)).state = .amoReq ∧
        (s.miss.step (s.missIn c i)).serveAmo = true := hr
      generalize s.miss.step (s.missIn c i) = d at hs hr'
      cases hs <;> grind -ring -linarith [amoPrepares, amoPresents]
    obtain ⟨hacc, hb, hd⟩ := accepted_of_step (.inr ⟨hprep, by simpa using hq⟩)
    have hnf : i.flush = false := by
      by_contra hn
      rw [Bool.not_eq_false] at hn
      simp [hd, amoPrepares, hn] at hprep
    have hreq : i.amoReq.req = true := by
      simp only [accepted, hnf] at hacc
      grind -ring -linarith
    have haddr : (watchAmo c g s i).addr = i.amoReq.operandA := by simp [watchAmo, hacc, hreq]
    rw [haddr]
    rcases hp' with ⟨hs, hd'⟩ | ⟨hs, -⟩
    · have hd'' : (s.step c i).snoop.memReq = i.snoopPort.acAddr := hd'
      rw [hd'']
      have hslip := hok.2.2.1
      simp only [snoopSlipsIn, hacc, hs, hnf] at hslip
      grind -ring -linarith [PAddr.sameLine]
    · simp [SnoopCtrl.processing, SnoopCtrl.inFlight, snoop_idle_of_busy hb] at hs

theorem owns_step (hl : s.Lookups) (h : MaintInv (s, g)) (hm : (s.step c i).miss.amoPrepares = true) :
    (s.step c i).SnoopOwns := by
  by_cases hq : s.miss.amoPrepares = true
  · refine snoopOwns_step hl (h.owns hq) ?_
    have hsave : s.miss.saves (s.missIn c i) = false := by grind -ring -linarith [saves, amoPrepares]
    simp [overwritesSnooped, hsave]
  · obtain ⟨-, hb, -⟩ := accepted_of_step (.inr ⟨hm, by simpa using hq⟩)
    intro hw
    rcases SnoopCtrl.step_writing hw with ⟨hs, -⟩ | ⟨hs, -⟩ <;>
      simp [SnoopCtrl.writing, snoop_idle_of_busy hb] at hs

/-! ### The own copy -/

/-- The line is held by the same ways with the same bytes. -/
def Kept (s s' : Nbdcache) (a : PAddr) : Prop :=
  ∀ w, (s'.Holds a w ↔ s.Holds a w) ∧ (s.Holds a w → (s'.arr a.index w).dirty = (s.arr a.index w).dirty ∧
    (s'.arr a.index w).data = (s.arr a.index w).data)

theorem Done.of_kept {s' : Nbdcache} (h : s.Done g) (hk : s.Kept s' g.addr) : s'.Done g :=
  ⟨fun w hw => h.1 w ((hk w).1.mp hw), h.2⟩

theorem Pending.of_kept {s' : Nbdcache} (h : s.Pending g) (hk : s.Kept s' g.addr) : s'.Pending g := by
  obtain ⟨⟨w, hw, hu, hd, ha⟩, hc⟩ := h
  obtain ⟨hd', ha'⟩ := (hk w).2 hw
  exact ⟨⟨w, (hk w).1.mpr hw, fun v hv => hu v ((hk v).1.mp hv), hd'.trans hd, ha'.trans ha⟩, hc⟩

theorem tag_of_storesTo {a : PAddr} (h : storesTo c s i a = false) {p : Fin 3} {w : Way}
    (hs : s.storeGranted c i p = true) (hi : a.index = (s.ctrl p).memReq.index)
    (hw : (s.ctrl p).hitWay w = true) : (s.arr a.index w).tag ≠ a.tag := by
  intro ht
  have hany : anyWay (fun w => (s.ctrl p).hitWay w && (s.arr a.index w).tag == a.tag) = true :=
    anyWay_iff.mpr ⟨w, by simp [hw, ht]⟩
  simp only [storesTo, List.any_eq_false, Bool.and_eq_true, not_and] at h
  exact h p (List.mem_finRange p) ⟨hs, by simp [hi]⟩ hany

/-- Without a refill, a clearing, an invalidation or a store of it, a line is kept. -/
theorem kept_step {a : PAddr} (hsave : s.miss.saves (s.missIn c i) = false)
    (hclear : ∀ ways w, s.miss.cleared (s.missIn c i) = some (a.index, ways) → ways w = true → ¬ s.Holds a w)
    (hinv : ∀ w, s.snoop.state = .invalidate → a.index = s.snoop.memReq.index →
      s.snoop.hitWay w = true → ¬ s.Holds a w)
    (hst : storesTo c s i a = false) : s.Kept (s.step c i) a := by
  intro w
  unfold Holds at *
  have he := step_line c s i a.index w
  generalize (s.step c i).arr a.index w = l at he
  cases he with
  | keep => exact ⟨Iff.rfl, fun _ => ⟨rfl, rfl⟩⟩
  | save hs => simp [hsave] at hs
  | clear ways hs hw =>
    have hn := hclear ways w hs hw
    exact ⟨by simp [CacheLine.invalidated]; tauto, fun hh => absurd hh hn⟩
  | share => exact ⟨Iff.rfl, fun _ => ⟨rfl, rfl⟩⟩
  | invalidate hs hg hi hw =>
    have hn := hinv w hs hi hw
    exact ⟨by simp [CacheLine.invalidated]; tauto, fun hh => absurd hh hn⟩
  | store p hs hi hw =>
    have hn := tag_of_storesTo hst hs hi hw
    exact ⟨by simp [CacheCtrl.storeLine, hn], fun hh => absurd hh.2 hn⟩

/-- While an atomic is served, no snoop invalidates its line. -/
theorem not_invalidated_amo (h : MaintInv (s, g)) (hs : s.miss.servesAmo = true) (w : Way)
    (hv : s.snoop.state = .invalidate) (hi : g.addr.index = s.snoop.memReq.index)
    (hw : s.snoop.hitWay w = true) : ¬ s.Holds g.addr w := by
  intro hh
  have hpr : s.snoop.processing = true := by simp [SnoopCtrl.processing, SnoopCtrl.inFlight, hv]
  simp only [servesAmo, Bool.or_eq_true, Bool.and_eq_true] at hs
  rcases hs with (hs | hs) | ⟨hs, -⟩
  · have hsame := sameLine_of_invalidate (h.owns hs) hh hv hi hw
    simp [h.amo (.inl hs) hpr] at hsame
  · have hph : s.Phase g := h.phase
    simp only [amoPresents, Bool.or_eq_true, beq_iff_eq] at hs
    have hdone : s.Done g := by rcases hs with hs | hs <;> simpa [Phase, hs] using hph
    exact hdone.1 w hh
  · simp [h.flush hs] at hpr

theorem saves_of_servesAmo (hs : s.miss.servesAmo = true) : s.miss.saves (s.missIn c i) = false := by
  grind -ring -linarith [saves, servesAmo, flushes, amoPrepares, amoPresents]

theorem served_kept (h : MaintInv (s, g)) (hok : maintenanceOk c (s, g) i) (hs : s.miss.servesAmo = true)
    (hclear : ∀ ways w, s.miss.cleared (s.missIn c i) = some (g.addr.index, ways) → ways w = true →
      ¬ s.Holds g.addr w) : s.Kept (s.step c i) g.addr :=
  kept_step (saves_of_servesAmo hs) hclear (not_invalidated_amo h hs) (hok.2.1 hs)

/-- A B handshake ends a write-back. -/
theorem backAcked_eq (h : s.AdapterInv) :
    s.backAcked c i = (s.miss.writingBack && s.axi.valid i.axiData) := by
  have hf := h.fits
  by_cases hw : s.miss.writingBack = true
  · have hx : s.axi.state = .idle ∨ s.axi.writing = true := by
      cases hq : s.miss.state <;> simp_all [adapterFits, writingBack]
    rw [hw, Bool.true_and]
    simp only [backAcked, AxiAdapter.axiReq, AxiAdapter.valid]
    cases hst : s.axi.state <;> simp_all [AxiAdapter.writing, h.amo, amoReturnsData, atopFromAmo]
    split_ifs <;> simp
  · have hx : s.axi.state ≠ .waitBValid := by
      intro hx
      cases hq : s.miss.state <;> simp_all [adapterFits, writingBack, AxiAdapter.reading]
    rw [Bool.not_eq_true] at hw
    rw [hw, Bool.false_and]
    simp only [backAcked, AxiAdapter.axiReq]
    cases hst : s.axi.state <;> simp_all
    split_ifs <;> simp

theorem accepted_of_state (h : s.miss.state ≠ .idle) : s.accepted c i = false := by
  simp [accepted, h]

theorem watch_of_quiet (ha : s.AdapterInv) (hq : s.miss.state ≠ .idle)
    (hb : s.miss.writingBack = true → s.axi.valid i.axiData = false) : watchAmo c g s i = g := by
  have hack : s.backAcked c i = false := by
    rw [backAcked_eq ha]
    cases hw : s.miss.writingBack
    · rfl
    · simp [hb hw]
  simp [watchAmo, accepted_of_state hq, hack]

theorem watch_addr (hq : s.miss.state ≠ .idle) : (watchAmo c g s i).addr = g.addr := by
  simp only [watchAmo, accepted_of_state hq]
  grind -ring -linarith

/-- At its acceptance the own copy of an atomic is what the observer notes. -/
theorem copy_of_accepted (hacc : s.accepted c i = true) (hr : i.amoReq.req = true)
    (hd : duplicated c s i = false) :
    s.Done (watchAmo c g s i) ∨ s.Pending (watchAmo c g s i) := by
  simp only [watchAmo, hacc, hr, Bool.and_self, if_true]
  cases hw : s.copyWay i.amoReq.operandA with
  | none =>
    refine .inl ⟨fun w hh => ?_, by simp⟩
    have hn := List.find?_eq_none.mp hw w (List.mem_finRange w)
    simp [hh.1, hh.2] at hn
  | some w =>
    have hh : s.Holds i.amoReq.operandA w := by simpa [Holds] using List.find?_some hw
    refine .inr ⟨⟨w, hh, fun v hv => ?_, rfl, rfl⟩, fun _ => rfl⟩
    by_contra hne
    simp only [duplicated, hacc, hr, Bool.and_self, Bool.true_and, anyWay_eq_false_iff] at hd
    have hdv := hd w v
    simp [hne, hh.1, hh.2, hv.1, hv.2] at hdv

theorem accepted_kept (hacc : s.accepted c i = true) (a : PAddr) : s.Kept (s.step c i) a := by
  simp only [accepted, Bool.and_eq_true, beq_iff_eq, Bool.not_eq_true'] at hacc
  obtain ⟨⟨⟨hq, -⟩, hb⟩, -⟩ := hacc
  refine kept_step (by simp [saves, hq]) (by simp [cleared, hq]) ?_ ?_
  · intro w hs
    simp [snoop_idle_of_busy hb] at hs
  · simp only [storesTo, List.any_eq_false]
    intro p _
    simp [storeGranted, CacheCtrl.storing, ctrl_idle_of_busy hb p]

/-- A completed write-back of the own copy. -/
theorem done_of_evicting (ha : s.AdapterInv)
    (hq : s.miss.state = .wbCachelineFlush ∨ s.miss.state = .wbCachelineAmo)
    (hv : s.axi.valid i.axiData = true) (he : s.Evicting g) : (s.step c i).Done (watchAmo c g s i) := by
  have hback : s.miss.writingBack = true := by rcases hq with hq | hq <;> simp [writingBack, hq]
  obtain ⟨hadr, hbe, hdat⟩ := axiReq_back (c := c) hback
  have hacc : s.accepted c i = false := accepted_of_state (by rcases hq with hq | hq <;> simp [hq])
  have hack : s.backAcked c i = true := by rw [backAcked_eq ha, hback, hv]; rfl
  have hcl : s.miss.cleared (s.missIn c i) = some (g.addr.index, s.miss.evictWay) := by
    have hv' : (s.missIn c i).axi.valid = true := hv
    have hidx : s.miss.cnt = g.addr.index := (PAddr.sameLine_iff.mp he.line).2
    rcases hq with hq | hq <;> simp [cleared, hq, hv', hidx]
  have hg : watchAmo c g s i = { g with
      count := fun b => if g.dirty b then 1 else 0
      wrote := fun b => if g.dirty b then g.data b else g.wrote b } := by
    have hline : (s.miss.axiReq c).addr.sameLine g.addr = true := hadr ▸ he.line
    simp [watchAmo, hacc, hack, hline, hbe, hdat, he.dirty, he.data, he.count]
  rw [hg]
  refine ⟨fun w hw => ?_, fun b => ⟨rfl, fun hb => if_pos hb⟩⟩
  have harr := step_arr_of_cleared hcl w
  cases hew : s.miss.evictWay w
  · simp only [hew, Bool.false_eq_true, if_false] at harr
    have hw' : s.Holds g.addr w := by
      unfold Holds at hw ⊢
      rwa [← harr]
    simp [he.way w hw'] at hew
  · simp only [hew, if_true] at harr
    unfold Holds at hw
    simp [harr, CacheLine.invalidated] at hw

/-- A sweep of a set without dirty lines finishes the own copy if it is there. -/
theorem left_of_sweep (hl : s.Lookups) (h : MaintInv (s, g)) (hok : maintenanceOk c (s, g) i)
    (hs : s.miss.serveAmo = true) (hq : s.miss.state = .flushing)
    (hd : anyWay (MissHandler.dirtyWay (s.missIn c i)) = false) (hf : s.Left g) :
    (s.step c i).Done g ∨ ((s.step c i).Pending g ∧ s.miss.cnt < g.addr.index) := by
  have hserve : s.miss.servesAmo = true := by simp [servesAmo, flushes, hq, hs]
  have hcl : s.miss.cleared (s.missIn c i) = some (s.miss.cnt, allWays) := by simp [cleared, hq, hd]
  by_cases hi : s.miss.cnt = g.addr.index
  · -- the set is cleared; a copy in it had no dirty byte
    refine .inl ⟨fun w hw => ?_, ?_⟩
    · unfold Holds at hw
      rw [← hi, step_arr_of_cleared hcl w] at hw
      simp [allWays, CacheLine.invalidated] at hw
    · rcases hf with hf | ⟨⟨⟨w, hw, -, hdy, -⟩, hcount⟩, -⟩
      · exact hf.2
      · have hclean : ∀ b, g.dirty b = false := by
          have hwd := anyWay_eq_false_iff.mp hd w
          have hr : (s.missIn c i).rdata w = s.arr g.addr.index w := by
            rw [← hi]
            exact hl.flushing hq w
          simp only [MissHandler.dirtyWay, hr, hw.1, Bool.true_and, hdy, anyByte_eq_false_iff] at hwd
          exact hwd
        exact fun b => by simp [hclean b, hcount b]
  · have hk : s.Kept (s.step c i) g.addr := by
      refine served_kept h hok hserve fun ways w hc => ?_
      rw [hcl] at hc
      grind -ring -linarith
    rcases hf with hf | ⟨hf, hle⟩
    · exact .inl (hf.of_kept hk)
    · exact .inr ⟨hf.of_kept hk, BitVec.lt_of_le_ne hle hi⟩

/-- A write-back that has taken the pending copy is its eviction. -/
theorem Evicting.of_pending {s' : Nbdcache} (hk : s.Kept s' g.addr) (hp : s.Pending g) {v : Way}
    (hv : s.Holds g.addr v) (hw : s'.miss.evictWay = oneHot v)
    (hcl : s'.miss.evictCl = s.arr g.addr.index v) (hc : s'.miss.cnt = g.addr.index) : s'.Evicting g := by
  obtain ⟨⟨w, -, hu, hd, ha⟩, hcount⟩ := hp
  obtain rfl := hu v hv
  refine ⟨?_, by rw [hcl, hd], by rw [hcl, ha], fun u hh => ?_, hcount⟩
  · rw [PAddr.sameLine_iff, hcl, hc]
    exact ⟨hv.2, rfl⟩
  · rw [hw, hu u ((hk u).1.mp hh)]
    simp [oneHot]

theorem Left.of_kept {s' : Nbdcache} (h : s.Left g) (hk : s.Kept s' g.addr) (hc : s'.miss.cnt = s.miss.cnt) :
    s'.Left g := by
  rcases h with h | ⟨h, hle⟩
  · exact .inl (h.of_kept hk)
  · exact .inr ⟨h.of_kept hk, by rwa [hc]⟩

/-- The line picked by the flush is the own copy or another line. -/
theorem evict_of_flushing (hl : s.Lookups) (h : MaintInv (s, g)) (hok : maintenanceOk c (s, g) i)
    (hs : s.miss.serveAmo = true) (hq : s.miss.state = .flushing)
    (hd : anyWay (MissHandler.dirtyWay (s.missIn c i)) = true) (hf : s.Left g)
    (hc : (s.step c i).miss.cnt = s.miss.cnt)
    (hw : (s.step c i).miss.evictWay = getVictimCl (MissHandler.dirtyWay (s.missIn c i)))
    (hcl : (s.step c i).miss.evictCl =
      (s.missIn c i).rdata (oneHotToBin (MissHandler.dirtyWay (s.missIn c i)))) :
    (s.step c i).Evicting g ∨ ((s.step c i).Spared g ∧ (s.step c i).Left g) := by
  have hserve : s.miss.servesAmo = true := by simp [servesAmo, flushes, hq, hs]
  have hk : s.Kept (s.step c i) g.addr := served_kept h hok hserve (by simp [cleared, hq, hd])
  have hval := oneHotToBin_spec hd
  rw [getVictimCl] at hw
  generalize oneHotToBin (MissHandler.dirtyWay (s.missIn c i)) = v at hw hcl hval
  have hr : (s.missIn c i).rdata v = s.arr s.miss.cnt v := hl.flushing hq v
  simp only [MissHandler.dirtyWay, hr, Bool.and_eq_true] at hval
  rw [hr] at hcl
  by_cases hline : (s.arr s.miss.cnt v).tag = g.addr.tag ∧ s.miss.cnt = g.addr.index
  · have hv : s.Holds g.addr v := by
      unfold Holds
      rw [← hline.2]
      exact ⟨hval.1, hline.1⟩
    rcases hf with hf | ⟨hf, -⟩
    · exact absurd hv (hf.1 v)
    · exact .inl (.of_pending hk hf hv hw (by rw [hcl, hline.2]) (hc.trans hline.2))
  · refine .inr ⟨⟨?_, fun u hu hi hh => ?_⟩, hf.of_kept hk hc⟩
    · rw [← Bool.not_eq_true, PAddr.sameLine_iff, hcl, hc]
      exact hline
    · have huv : u = v := by simpa [hw, oneHot] using hu
      have hh' := (hk u).1.mp hh
      rw [hc] at hi
      unfold Holds at hh'
      rw [huv, ← hi] at hh'
      exact hline ⟨hh'.2, hi⟩

theorem operand_held (hok : maintenanceOk c (s, g) i) (hs : s.miss.servesAmo = true) :
    i.amoReq.operandA.tag = g.addr.tag ∧ i.amoReq.operandA.index = g.addr.index := by
  have hh := hok.1
  simp only [operandHeld, hs, Bool.not_true, Bool.false_or] at hh
  exact PAddr.sameLine_iff.mp hh

theorem servesAmo_of_amoWb (hq : s.miss.state = .amoWb) : s.miss.servesAmo = true := by
  simp [servesAmo, amoPrepares, hq]

theorem copy_of_amoWb (h : MaintInv (s, g)) (hq : s.miss.state = .amoWb) : s.Done g ∨ s.Pending g := by
  have hph : s.Phase g := h.phase
  simpa [Phase, hq] using hph

section AmoWb
variable (h : MaintInv (s, g)) (hok : maintenanceOk c (s, g) i) (hq : s.miss.state = .amoWb)
include h hok hq

/-- AMO_WB finds the own copy. -/
theorem holds_of_amoWay {w : Way} (hw : amoWay (s.missIn c i) = some w) :
    s.Holds g.addr w ∧ (s.missIn c i).rdata w = s.arr g.addr.index w := by
  have hr : (s.missIn c i).rdata w = s.arr g.addr.index w := h.look hq w
  have hf := List.find?_some hw
  have ht : (s.missIn c i).amoReq.operandA.tag = g.addr.tag :=
    (operand_held hok (servesAmo_of_amoWb hq)).1
  simp only [hr, ht, Bool.and_eq_true, beq_iff_eq] at hf
  exact ⟨hf, hr⟩

theorem absent_of_amoWay (hw : amoWay (s.missIn c i) = none) (w : Way) : ¬ s.Holds g.addr w := by
  intro hh
  have hr : (s.missIn c i).rdata w = s.arr g.addr.index w := h.look hq w
  have ht : (s.missIn c i).amoReq.operandA.tag = g.addr.tag :=
    (operand_held hok (servesAmo_of_amoWb hq)).1
  have hf := List.find?_eq_none.mp hw w (List.mem_finRange w)
  simp [hr, ht, hh.1, hh.2] at hf

theorem done_of_absent (hw : amoWay (s.missIn c i) = none) : (s.step c i).Done g := by
  have hk : s.Kept (s.step c i) g.addr :=
    served_kept h hok (servesAmo_of_amoWb hq) (by simp [cleared, hq, hw])
  rcases copy_of_amoWb h hq with hd | ⟨⟨w, hh, -⟩, -⟩
  · exact hd.of_kept hk
  · exact absurd hh (absent_of_amoWay h hok hq hw w)

theorem done_of_clean {w : Way} (hw : amoWay (s.missIn c i) = some w)
    (hd : anyByte ((s.missIn c i).rdata w).dirty = false) : (s.step c i).Done g := by
  obtain ⟨hh, hr⟩ := holds_of_amoWay h hok hq hw
  have hidx : (s.missIn c i).amoReq.operandA.index = g.addr.index :=
    (operand_held hok (servesAmo_of_amoWb hq)).2
  have hcl : s.miss.cleared (s.missIn c i) = some (g.addr.index, oneHot w) := by
    simp [cleared, hq, hw, hd, hidx]
  rcases copy_of_amoWb h hq with hdone | ⟨⟨v, -, hu, hdy, -⟩, hcount⟩
  · exact absurd hh (hdone.1 w)
  obtain rfl := hu w hh
  rw [hr, hdy, anyByte_eq_false_iff] at hd
  refine ⟨fun u hu' => ?_, fun b => by simp [hd b, hcount b]⟩
  have harr := step_arr_of_cleared hcl u
  unfold Holds at hu'
  rw [harr] at hu'
  by_cases huw : u = w
  · simp [oneHot, huw, CacheLine.invalidated] at hu'
  · simp only [oneHot, beq_iff_eq, huw, if_false] at hu'
    exact huw (hu u hu')

theorem evicting_of_dirty {w : Way} (hw : amoWay (s.missIn c i) = some w)
    (hd : anyByte ((s.missIn c i).rdata w).dirty = true) (hwy : (s.step c i).miss.evictWay = oneHot w)
    (hcl : (s.step c i).miss.evictCl = (s.missIn c i).rdata w)
    (hc : (s.step c i).miss.cnt = i.amoReq.operandA.index) : (s.step c i).Evicting g := by
  obtain ⟨hh, hr⟩ := holds_of_amoWay h hok hq hw
  have hk : s.Kept (s.step c i) g.addr :=
    served_kept h hok (servesAmo_of_amoWb hq) (by simp [cleared, hq, hw, hd])
  rcases copy_of_amoWb h hq with hdone | hp
  · exact absurd hh (hdone.1 w)
  · exact .of_pending hk hp hh hwy (hcl.trans hr)
      (hc.trans (operand_held hok (servesAmo_of_amoWb hq)).2)

end AmoWb

theorem Evicting.of_kept {s' : Nbdcache} (h : s.Evicting g) (hk : s.Kept s' g.addr)
    (hm : s'.miss.evictCl = s.miss.evictCl ∧ s'.miss.cnt = s.miss.cnt ∧ s'.miss.evictWay = s.miss.evictWay) :
    s'.Evicting g := by
  obtain ⟨h1, h2, h3, h4, h5⟩ := h
  refine ⟨?_, ?_, ?_, fun w hw => ?_, h5⟩
  · rwa [hm.1, hm.2.1]
  · rwa [hm.1]
  · rwa [hm.1]
  · rw [hm.2.2]
    exact h4 w ((hk w).1.mp hw)

theorem Spared.of_kept {s' : Nbdcache} (h : s.Spared g) (hk : s.Kept s' g.addr)
    (hm : s'.miss.evictCl = s.miss.evictCl ∧ s'.miss.cnt = s.miss.cnt ∧ s'.miss.evictWay = s.miss.evictWay) :
    s'.Spared g := by
  refine ⟨?_, fun w => ?_⟩
  · rw [hm.1, hm.2.1]
    exact h.1
  · rw [hm.2.1, hm.2.2, (hk w).1]
    exact h.2 w

/-- A completed write-back of another line leaves the own copy to the sweep. -/
theorem left_of_evicted (h : MaintInv (s, g)) (hok : maintenanceOk c (s, g) i)
    (hser : s.miss.serveAmo = true) (hq : s.miss.state = .wbCachelineFlush)
    (hv : s.axi.valid i.axiData = true) (hsp : s.Spared g) (hleft : s.Left g)
    (hc : (s.step c i).miss.cnt = s.miss.cnt) : (s.step c i).Left (watchAmo c g s i) := by
  have hn : (s.miss.axiReq c).addr.sameLine g.addr = false := by
    rw [(axiReq_back (by simp [writingBack, hq])).1]
    exact hsp.1
  have hacc : s.accepted c i = false := accepted_of_state (by simp [hq])
  have hw : watchAmo c g s i = g := by simp [watchAmo, hacc, hn]
  rw [hw]
  refine hleft.of_kept (served_kept h hok (by simp [servesAmo, flushes, hq, hser]) ?_) hc
  intro ways w hcl hww
  have hv' : (s.missIn c i).axi.valid = true := hv
  simp only [cleared, hq, hv', if_true, Option.some.injEq, Prod.mk.injEq] at hcl
  exact hsp.2 w (hcl.2 ▸ hww) hcl.1

theorem phase_accept (h : MaintInv (s, g)) (hok : maintenanceOk c (s, g) i) (hq : s.miss.state = .idle)
    (hacc : s.accepted c i = true) (hm : (s.step c i).miss = { s.miss with
      state := if i.flush then .flushReqStatus else .amoWbReq, cnt := 0
      serveAmo := s.miss.serveAmo || i.amoReq.req, collidingClean := false }) :
    (s.step c i).Phase (watchAmo c g s i) := by
  have hser : s.miss.serveAmo = false := by
    by_contra hn
    have hn' := h.serve (by simpa using hn)
    simp [flushes, amoPrepares, hq] at hn'
  have hcopy : i.amoReq.req = true → (s.step c i).Done (watchAmo c g s i) ∨
      (s.step c i).Pending (watchAmo c g s i) := fun hreq =>
    (copy_of_accepted hacc hreq hok.2.2.2).imp (·.of_kept (accepted_kept hacc _))
      (·.of_kept (accepted_kept hacc _))
  cases hf : i.flush
  · have hreq : i.amoReq.req = true := by
      simp only [accepted, hf] at hacc
      grind -ring -linarith
    simpa [Phase, hm, hf] using hcopy hreq
  · simp only [Phase, hm, hf, hser, Bool.false_or, if_true]
    intro hreq
    refine (hcopy hreq).imp_right fun hp => ⟨hp, ?_⟩
    rw [hm]
    show 0 ≤ (watchAmo c g s i).addr.index
    bv_omega

section Phase
variable (ha : s.AdapterInv) (h : MaintInv (s, g)) (hok : maintenanceOk c (s, g) i)
include ha h hok

theorem phase_look (hq : s.miss.state = .flushReqStatus) (hm : (s.step c i).miss = { s.miss with
    state := .flushing, collidingClean := s.miss.detectClean (s.missIn c i) }) :
    (s.step c i).Phase (watchAmo c g s i) := by
  have hph : s.Phase g := h.phase
  rw [watch_of_quiet ha (by simp [hq]) (by simp [writingBack, hq])]
  simp only [Phase, hq] at hph
  simp only [Phase, hm]
  intro hser
  exact (hph hser).of_kept (served_kept h hok (by simp [servesAmo, flushes, hq, hser])
    (by simp [cleared, hq])) (by rw [hm])

theorem phase_evict (hl : s.Lookups) (hq : s.miss.state = .flushing)
    (hd : anyWay (MissHandler.dirtyWay (s.missIn c i)) = true) (hm : (s.step c i).miss = { s.miss with
      state := .wbCachelineFlush, collidingClean := s.miss.detectClean (s.missIn c i)
      evictWay := getVictimCl (MissHandler.dirtyWay (s.missIn c i))
      evictCl := (s.missIn c i).rdata (oneHotToBin (MissHandler.dirtyWay (s.missIn c i))) }) :
    (s.step c i).Phase (watchAmo c g s i) := by
  have hph : s.Phase g := h.phase
  rw [watch_of_quiet ha (by simp [hq]) (by simp [writingBack, hq])]
  simp only [Phase, hq] at hph
  simp only [Phase, hm]
  intro hser
  exact evict_of_flushing hl h hok hser hq hd (hph hser) (by rw [hm]) (by rw [hm]) (by rw [hm])

theorem phase_sweep (hl : s.Lookups) (hq : s.miss.state = .flushing)
    (hd : anyWay (MissHandler.dirtyWay (s.missIn c i)) = false) (hm : (s.step c i).miss = { s.miss with
      state := .flushReqStatus, collidingClean := s.miss.detectClean (s.missIn c i), cnt := s.miss.cnt + 1 }) :
    (s.step c i).Phase (watchAmo c g s i) := by
  have hph : s.Phase g := h.phase
  rw [watch_of_quiet ha (by simp [hq]) (by simp [writingBack, hq])]
  simp only [Phase, hq] at hph
  simp only [Phase, hm]
  intro hser
  refine (left_of_sweep hl h hok hser hq hd (hph hser)).imp_right ?_
  rintro ⟨hp, hlt⟩
  refine ⟨hp, ?_⟩
  rw [hm]
  show s.miss.cnt + 1 ≤ g.addr.index
  bv_omega

theorem phase_swept (hl : s.Lookups) (hq : s.miss.state = .flushing)
    (hd : anyWay (MissHandler.dirtyWay (s.missIn c i)) = false) (hn : s.miss.cnt = 255)
    (hm : (s.step c i).miss = { s.miss with
      state := if s.miss.serveAmo then .amoReq else .idle
      collidingClean := s.miss.detectClean (s.missIn c i), cnt := s.miss.cnt + 1, serveAmo := false }) :
    (s.step c i).Phase (watchAmo c g s i) := by
  have hph : s.Phase g := h.phase
  rw [watch_of_quiet ha (by simp [hq]) (by simp [writingBack, hq])]
  simp only [Phase, hq] at hph
  cases hser : s.miss.serveAmo
  · simp [Phase, hm, hser]
  · simp only [Phase, hm, hser, if_true]
    refine (left_of_sweep hl h hok hser hq hd (hph hser)).resolve_right ?_
    rintro ⟨-, hlt⟩
    rw [hn] at hlt
    bv_omega

theorem phase_evicted (hq : s.miss.state = .wbCachelineFlush) (hv : (s.missIn c i).axi.valid = true)
    (hm : (s.step c i).miss = { s.miss with
      state := .flushReqStatus, collidingClean := s.miss.detectClean (s.missIn c i) }) :
    (s.step c i).Phase (watchAmo c g s i) := by
  have hph : s.Phase g := h.phase
  simp only [Phase, hq] at hph
  simp only [Phase, hm]
  intro hser
  rcases hph hser with he | ⟨hsp, hleft⟩
  · exact .inl (done_of_evicting ha (.inl hq) hv he)
  · exact left_of_evicted h hok hser hq hv hsp hleft (by rw [hm])

theorem phase_amoLook (hq : s.miss.state = .amoWbReq) (hm : (s.step c i).miss = { s.miss with
    state := .amoWb, collidingClean := s.miss.detectClean (s.missIn c i) }) :
    (s.step c i).Phase (watchAmo c g s i) := by
  have hph : s.Phase g := h.phase
  rw [watch_of_quiet ha (by simp [hq]) (by simp [writingBack, hq])]
  simp only [Phase, hq] at hph
  simp only [Phase, hm]
  have hk : s.Kept (s.step c i) g.addr :=
    served_kept h hok (by simp [servesAmo, amoPrepares, hq]) (by simp [cleared, hq])
  exact hph.imp (·.of_kept hk) (·.of_kept hk)

/-- A burst that has not been answered is kept with its line. -/
theorem phase_wait (hq : s.miss.state = .wbCachelineFlush ∨ s.miss.state = .wbCachelineAmo)
    (hv : (s.missIn c i).axi.valid = false) (hm : (s.step c i).miss = { s.miss with
      collidingClean := s.miss.detectClean (s.missIn c i) }) :
    (s.step c i).Phase (watchAmo c g s i) := by
  have hph : s.Phase g := h.phase
  have hcl : s.miss.cleared (s.missIn c i) = none := by rcases hq with hq | hq <;> simp [cleared, hq, hv]
  have hback : (s.step c i).miss.evictCl = s.miss.evictCl ∧ (s.step c i).miss.cnt = s.miss.cnt ∧
      (s.step c i).miss.evictWay = s.miss.evictWay := by rw [hm]; exact ⟨rfl, rfl, rfl⟩
  rw [watch_of_quiet ha (by rcases hq with hq | hq <;> simp [hq]) fun _ => hv]
  rcases hq with hq | hq
  · simp only [Phase, hq] at hph
    simp only [Phase, hm, hq]
    intro hser
    have hk := served_kept h hok (by simp [servesAmo, flushes, hq, hser]) (by simp [hcl])
    exact (hph hser).imp (·.of_kept hk hback) (.imp (·.of_kept hk hback) (·.of_kept hk hback.2.1))
  · simp only [Phase, hq] at hph
    simp only [Phase, hm, hq]
    exact hph.of_kept (served_kept h hok (by simp [servesAmo, amoPrepares, hq]) (by simp [hcl])) hback

/-- Nothing of the line is left while the atomic is on the bus. -/
theorem done_of_presents (hq : s.miss.state = .amoReq ∨ s.miss.state = .amoWaitResp) :
    (s.step c i).Done (watchAmo c g s i) := by
  have hph : s.Phase g := h.phase
  have hdone : s.Done g := by rcases hq with hq | hq <;> simpa only [Phase, hq] using hph
  rw [watch_of_quiet ha (by rcases hq with hq | hq <;> simp [hq])
    (by rcases hq with hq | hq <;> simp [writingBack, hq])]
  exact hdone.of_kept (served_kept h hok (by rcases hq with hq | hq <;> simp [servesAmo, amoPresents, hq])
    (by rcases hq with hq | hq <;> simp [cleared, hq]))

theorem phase_step (hl : s.Lookups) : (s.step c i).Phase (watchAmo c g s i) := by
  have hm : (s.step c i).miss = s.miss.step (s.missIn c i) := rfl
  have hs := serves s.miss (s.missIn c i)
  generalize s.miss.step (s.missIn c i) = d at hm hs
  cases hs with
  | accept hq hr hb hacc =>
    have hb' : s.busy = false := hb
    have hacc' : i.flush = true ∨ i.amoReq.req = true := hacc
    exact phase_accept h hok hq (by simp [accepted, hq, hr, hb', hacc']) hm
  | look hq => exact phase_look ha h hok hq hm
  | evict hq hd => exact phase_evict ha h hok hl hq hd hm
  | sweep hq hd => exact phase_sweep ha h hok hl hq hd hm
  | swept hq hd hn => exact phase_swept ha h hok hl hq hd hn hm
  | evicted hq hv => exact phase_evicted ha h hok hq hv hm
  | amoLook hq => exact phase_amoLook ha h hok hq hm
  | amoDirty w hq hw hd =>
    rw [watch_of_quiet ha (by simp [hq]) (by simp [writingBack, hq])]
    simp only [Phase, hm]
    exact evicting_of_dirty h hok hq hw hd (by rw [hm]) (by rw [hm]) (by rw [hm]; rfl)
  | amoClean w hq hw hd =>
    rw [watch_of_quiet ha (by simp [hq]) (by simp [writingBack, hq])]
    simp only [Phase, hm]
    exact done_of_clean h hok hq hw hd
  | amoAbsent hq hw =>
    rw [watch_of_quiet ha (by simp [hq]) (by simp [writingBack, hq])]
    simp only [Phase, hm]
    exact done_of_absent h hok hq hw
  | amoWritten hq hv =>
    have hph : s.Phase g := h.phase
    simp only [Phase, hq] at hph
    simp only [Phase, hm]
    exact done_of_evicting ha (.inr hq) hv hph
  | wait hq hv => exact phase_wait ha h hok hq hv hm
  | present st hq hst =>
    have hdone := done_of_presents ha h hok (.inl hq)
    rcases hst with rfl | rfl | rfl <;> simp [Phase, hm, hdone]
  | respond st hq hst =>
    have hdone := done_of_presents ha h hok (.inr hq)
    rcases hst with rfl | rfl <;> simp [Phase, hm, hdone]
  | other _ hq hq' hq'' hd hd' hd'' hs =>
    cases hst : d.state <;> simp_all [Phase, flushes, amoPrepares, amoPresents]

end Phase

/-- AMO_WB sees the set of the atomic as it is. -/
theorem look_step (hok : maintenanceOk c (s, g) i) (hs : (s.step c i).miss.state = .amoWb) (w : Way) :
    (s.step c i).rd.rdata w = (s.step c i).arr (watchAmo c g s i).addr.index w := by
  have hq : s.miss.state = .amoWbReq := by
    have hm : (s.step c i).miss = s.miss.step (s.missIn c i) := rfl
    have hv := serves s.miss (s.missIn c i)
    generalize s.miss.step (s.missIn c i) = d at hm hv
    rw [hm] at hs
    cases hv <;> grind -ring -linarith [flushes, amoPrepares, amoPresents]
  have hp : s.missPort c i = .lookup i.amoReq.operandA.index := by simp [missPort, port, hq, missIn]
  obtain ⟨harr, hr⟩ := step_of_missLookup hp
  have hidx := (operand_held hok (by simp [servesAmo, amoPrepares, hq])).2
  rw [hr, harr, watch_addr (by simp [hq]), hidx]

theorem maintInv_init (h : s.IsReset) : MaintInv (s, g) := by
  constructor <;> simp [flushes, amoPrepares, Phase, h.miss, reset]

theorem maintInv_reachable {x : Nbdcache × AmoWatch} (h : (amoWatched c).Reachable (maintenanceOk c) x) :
    MaintInv x := by
  have hfacts (y : Nbdcache × AmoWatch) (hy : (amoWatched c).Reachable (maintenanceOk c) y) :
      y.1.Basic ∧ y.1.AdapterInv :=
    have hr : (machine c).Reachable (fun _ _ => True) y.1 := .of_observe (fun _ _ _ => trivial) hy
    ⟨basic_reachable hr, adapterInv_reachable hr⟩
  refine Machine.Reachable.invariant_of (P := fun y => y.1.Basic ∧ y.1.AdapterInv) (Q := MaintInv)
    hfacts (fun y (hy : y.1.IsReset ∧ _) => maintInv_init hy.1) (fun y i hp hm hok => ?_) h
  have hserving : (y.1.step c i).miss.Serving := serving_step ⟨hm.serve, hm.prepare⟩
  exact ⟨hserving.serve, hserving.prepare, flush_step hm hok, amo_step hm hok, owns_step hp.1.lookups hm,
    look_step hok, phase_step hp.2 hm hok hp.1.lookups⟩

theorem serving_reachable {ok : Nbdcache → CacheIn → Prop} (h : (machine c).Reachable ok s) :
    s.miss.Serving :=
  Machine.Reachable.invariant (P := fun s => s.miss.Serving)
    (fun s (hs : s.IsReset) => by constructor <;> simp [hs.miss, reset, amoPrepares])
    (fun _ _ hs _ => serving_step hs) h

/-- A flush excludes every snoop and an atomic every snoop of its line, so that the own copy is gone
and its dirty bytes are in memory when the atomic is presented. -/
theorem maintenance_excludes_snoops {x : Nbdcache × AmoWatch}
    (h : (amoWatched c).Reachable (maintenanceOk c) x) :
    (x.1.miss.flushes = true → x.1.snoop.processing = false) ∧
    (x.1.miss.amoPrepares = true ∨ (x.1.miss.state = .amoReq ∧ x.1.miss.serveAmo = true) →
      x.1.snoop.processing = true → x.1.snoop.memReq.sameLine x.2.addr = false) ∧
    (x.1.miss.amoPresents = true → (∀ w, ¬ x.1.Holds x.2.addr w) ∧
      ∀ b, x.2.count b = (if x.2.dirty b then 1 else 0) ∧
        (x.2.dirty b = true → x.2.wrote b = x.2.data b)) := by
  have hi := maintInv_reachable h
  refine ⟨hi.flush, hi.amo, fun hp => ?_⟩
  have hph : x.1.Phase x.2 := hi.phase
  simp only [amoPresents, Bool.or_eq_true, beq_iff_eq] at hp
  have hdone : x.1.Done x.2 := by rcases hp with hp | hp <;> simpa [Phase, hp] using hph
  exact hdone

section Runs
open Stimuli

/-- An atomic on a line is requested in the given cycle. -/
def atomic (t : Tag) (idx : Index) (i : CacheIn) : CacheIn :=
  { i with amoReq := { AmoReq.none with req := true, amoOp := .add, operandA := ⟨t, idx, 0⟩ } }

/-- An atomic on a dirty line, with a snoop of another line accepted in the same cycle. -/
def atomicOnDirty : List CacheIn :=
  quiet :: loadMiss 1 2 1 false ++ [Stimuli.store 2 1, Stimuli.store 2 1, quiet] ++
    ([snooping quiet .cleanInvalid 3 1, quiet, quiet, bus { AxiResp.none with awReady := true, wReady := true },
      bus { AxiResp.none with wReady := true }, bus { AxiResp.none with bValid := true }].map (atomic 2 1))

set_option maxRecDepth 10000 in
theorem maintenance_excludes_snoops_run :
    let x := (amoWatched cfg).run (initial, .start) atomicOnDirty
    x.1.miss.state = .amoReq ∧ x.2.addr = ⟨2, 1, 0⟩ ∧ (∀ w, ¬ x.1.Holds x.2.addr w) ∧
      x.2.dirty 0 = true ∧ x.2.count 0 = 1 := by
  have hr : (amoWatched cfg).Reachable (maintenanceOk cfg)
      ((amoWatched cfg).run (initial, .start) atomicOnDirty) :=
    .run (.init (amoWatched_init cfg)) (by decide +kernel)
  have hs : ((amoWatched cfg).run (initial, .start) atomicOnDirty).1.miss.state = .amoReq ∧
      ((amoWatched cfg).run (initial, .start) atomicOnDirty).2.addr = ⟨2, 1, 0⟩ ∧
      ((amoWatched cfg).run (initial, .start) atomicOnDirty).2.dirty 0 = true := by decide +kernel
  obtain ⟨hst, ha, hd⟩ := hs
  obtain ⟨hno, hcount⟩ := (maintenance_excludes_snoops hr).2.2 (by simp [amoPresents, hst])
  have hc := (hcount 0).1
  rw [hd, if_pos rfl] at hc
  exact ⟨hst, ha, hno, hd, hc⟩

/-- A snoop arrives in the cycle in which a flush is accepted. -/
def snoopWithFlush : List CacheIn :=
  quiet :: loadMiss 1 2 1 true ++ [{ snooping quiet .cleanInvalid 2 1 with flush := true }]

set_option maxRecDepth 10000 in
theorem snoop_during_flush :
    ∃ s, (machine cfg).Reachable (fun _ _ => True) s ∧ s.miss.state = .flushReqStatus ∧
      s.snoop.state = .waitGnt :=
  ⟨_, Machine.reachable_run _ initial_isReset snoopWithFlush, by decide +kernel⟩

end Runs
end Nbdcache
end Culsans.Dcache
