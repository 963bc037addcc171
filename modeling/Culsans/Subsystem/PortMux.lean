import Culsans.Library.Machine
import Culsans.Library.Fifo
import Culsans.Dcache.AxiAdapter

/-! # The AXI port of the cache subsystem (`std_cache_subsystem`)

The instruction cache, the bypass adapter and the data adapter share one AXI port.
Write data carries no id, so a queue of the units whose AW was accepted selects the
unit on the W channel. RACK and WACK are not driven here.
-/

namespace Culsans.Subsystem
open Dcache Library

/-- The units behind the port. -/
inductive CacheUnit
  | icache | bypass | data
deriving DecidableEq

instance : Fintype CacheUnit := ⟨{.icache, .bypass, .data}, fun p => by cases p <;> decide⟩

/-- `w_select`: bits 3:2 of the id of the AW. -/
def wSelect (id : BitVec 4) : CacheUnit :=
  match (id.extractLsb' 2 2).toNat with
  | 3 => .data
  | 2 => .bypass
  | _ => .icache

/-- `r_select` and `b_select` -/
def respSelect (id : BitVec 4) : CacheUnit :=
  match (id.extractLsb' 2 2).toNat with
  | 3 => .data
  | 2 => .bypass
  | 0 => .icache
  | _ => .data

/-- The request of `axi_shim` in the instruction cache, whose write side is tied off. -/
def icacheReq (arValid : Bool) (ar : ArChan) (rReady : Bool) : AxiReq where
  awValid := false
  aw := ⟨⟨0, 0, 0⟩, 0, 0, false, 0, .none, 0, 0⟩
  wValid := false
  w := ⟨fun _ => 0, fun _ => false, true⟩
  bReady := false
  arValid := arValid
  ar := ar
  rReady := rReady
  rack := false
  wack := false

/-- Everything that reaches the port in one cycle, with the choices of the two stream arbiters. -/
structure PortIn where
  icArValid : Bool
  icAr : ArChan
  icRReady : Bool
  bypassReq : AxiReq
  dataReq : AxiReq
  awPick : CacheUnit
  arPick : CacheUnit
  mem : AxiResp
  bId : BitVec 4
  rId : BitVec 4

def PortIn.req (i : PortIn) : CacheUnit → AxiReq
  | .icache => icacheReq i.icArValid i.icAr i.icRReady
  | .bypass => i.bypassReq
  | .data => i.dataReq

/-- The part of `axi_req_o` that the port drives. -/
structure PortOut where
  awValid : Bool
  aw : AwChan
  wValid : Bool
  w : WChan
  bReady : Bool
  arValid : Bool
  ar : ArChan
  rReady : Bool

/-- `i_fifo_w_channel` -/
abbrev WFifo := Ring CacheUnit 4

def anyUnit (f : CacheUnit → Bool) : Bool := f .icache || f .bypass || f .data

/-- `w_select_arbiter` -/
def wSelectArbiter (q : WFifo) : CacheUnit := if q.empty then .icache else q.head

def portOut (q : WFifo) (i : PortIn) : PortOut where
  awValid := anyUnit fun p => (i.req p).awValid
  aw := (i.req i.awPick).aw
  wValid := (i.req (wSelectArbiter q)).wValid
  w := (i.req (wSelectArbiter q)).w
  bReady := (i.req (respSelect i.bId)).bReady
  arValid := anyUnit fun p => (i.req p).arValid
  ar := (i.req i.arPick).ar
  rReady := (i.req (respSelect i.rId)).rReady

/-- What a unit sees of the memory side. -/
def unitResp (q : WFifo) (i : PortIn) (p : CacheUnit) : AxiResp :=
  { i.mem with
    awReady := i.mem.awReady && i.awPick == p
    wReady := i.mem.wReady && wSelectArbiter q == p
    arReady := i.mem.arReady && i.arPick == p
    bValid := i.mem.bValid && respSelect i.bId == p
    rValid := i.mem.rValid && respSelect i.rId == p }

/-- The queue is pushed by the AW handshake and popped by the handshake of the last W beat. -/
def stepFifo (q : WFifo) (i : PortIn) : WFifo :=
  let o := portOut q i
  q.step (o.awValid && i.mem.awReady) (o.wValid && i.mem.wReady && o.w.last) (wSelect o.aw.id)

/-! ### The units -/

/-- A unit that issues one write at a time: whether its AW is still to be accepted, its W beats
still to be accepted, and all beats of the write. -/
structure Writer where
  awLeft : Bool
  beats : List WChan
  burst : List WChan

namespace Writer

def idle : Writer := ⟨false, [], []⟩

def isIdle (q : Writer) : Bool := !q.awLeft && q.beats.isEmpty

/-- An idle unit may offer a new write. -/
def begin (q : Writer) (b : List WChan) : Writer := if q.isIdle then ⟨!b.isEmpty, b, b⟩ else q

/-- A unit offers the AW until it is accepted, and its beats in order. -/
structure Offers (q : Writer) (o : AxiReq) : Prop where
  aw : o.awValid = true → q.awLeft = true ∧ o.aw.len + 1 = q.burst.length
  w : o.wValid = true → q.beats.head? = some o.w

/-- The write goes on with what was accepted; an offer of which nothing was accepted may be withdrawn. -/
def next (q : Writer) (b : List WChan) (aw w : Bool) : Writer :=
  if aw || w then
    { q.begin b with awLeft := (q.begin b).awLeft && !aw
                     beats := if w then (q.begin b).beats.tail else (q.begin b).beats }
  else q

end Writer

/-- The last flag is on the last beat only. -/
def lastOnly : List WChan → Bool
  | [] => true
  | [x] => x.last
  | x :: y :: t => !x.last && lastOnly (y :: t)

/-- The ids of a unit: 0 for instruction fetches, 10xx for the bypass, 1100 for the data adapter. -/
def ownId : CacheUnit → BitVec 4 → Bool
  | .icache, id => id == 0
  | .bypass, id => id.extractLsb' 2 2 == 2
  | .data, id => id == 12

theorem select_of_ownId {p : CacheUnit} {id : BitVec 4} (h : ownId p id = true) :
    wSelect id = p ∧ respSelect id = p := by
  have hall : ∀ p : CacheUnit, ∀ id : BitVec 4, ownId p id = true → wSelect id = p ∧ respSelect id = p := by
    intro p
    cases p <;> decide
  exact hall p id h

/-- The port with its three units, and the write each idle unit begins. -/
structure Port where
  fifo : WFifo
  writer : CacheUnit → Writer

structure StepIn extends PortIn where
  burst : CacheUnit → List WChan

namespace Port

def awTaken (i : StepIn) (s : Port) (p : CacheUnit) : Bool :=
  (i.req p).awValid && (unitResp s.fifo i.toPortIn p).awReady

def wTaken (i : StepIn) (s : Port) (p : CacheUnit) : Bool :=
  (i.req p).wValid && (unitResp s.fifo i.toPortIn p).wReady

def step (s : Port) (i : StepIn) : Port where
  fifo := stepFifo s.fifo i.toPortIn
  writer p := (s.writer p).next (i.burst p) (awTaken i s p) (wTaken i s p)

/-- The units offer writes one at a time under their ids, and an arbiter picks a unit that offers. -/
structure Ok (s : Port) (i : StepIn) : Prop where
  offers : ∀ p, ((s.writer p).begin (i.burst p)).Offers (i.req p)
  burst : ∀ p, lastOnly (i.burst p) = true
  awPick : (portOut s.fifo i.toPortIn).awValid = true → (i.req i.awPick).awValid = true
  arPick : (portOut s.fifo i.toPortIn).arValid = true → (i.req i.arPick).arValid = true
  awId : ∀ p, (i.req p).awValid = true → ownId p (i.req p).aw.id = true
  arId : ∀ p, (i.req p).arValid = true → ownId p (i.req p).ar.id = true

/-- An accepted write: the unit, the AW and the beats of the unit's write. -/
structure Write where
  unit : CacheUnit
  aw : AwChan
  beats : List WChan

/-- The handshakes so far: accepted AWs, W beats with the unit they came from, and the ids of
accepted requests. -/
structure Log where
  aws : List Write
  ws : List (CacheUnit × WChan)
  ids : List (CacheUnit × BitVec 4)

/-- The AW accepted in a cycle. -/
def accepted (s : Port) (i : StepIn) : List Write :=
  let o := portOut s.fifo i.toPortIn
  if o.awValid && i.mem.awReady then
    [⟨i.awPick, o.aw, ((s.writer i.awPick).begin (i.burst i.awPick)).burst⟩] else []

/-- The W beat accepted in a cycle. -/
def sent (s : Port) (i : StepIn) : List (CacheUnit × WChan) :=
  let o := portOut s.fifo i.toPortIn
  if o.wValid && i.mem.wReady then [(wSelectArbiter s.fifo, o.w)] else []

/-- The ids of the requests accepted in a cycle. -/
def asked (s : Port) (i : StepIn) : List (CacheUnit × BitVec 4) :=
  let o := portOut s.fifo i.toPortIn
  (if o.awValid && i.mem.awReady then [(i.awPick, o.aw.id)] else []) ++
    if o.arValid && i.mem.arReady then [(i.arPick, o.ar.id)] else []

def watch (g : Log) (s : Port) (i : StepIn) : Log :=
  ⟨g.aws ++ accepted s i, g.ws ++ sent s i, g.ids ++ asked s i⟩

def reset : Port := ⟨Ring.reset .icache, fun _ => .idle⟩

def machine : Machine (Port × Log) StepIn :=
  (⟨fun s => s = reset, step⟩ : Machine Port StepIn).observe ⟨[], [], []⟩ watch

/-- The W beats of accepted writes, in the order of the AWs. -/
def beatsOf (ws : List Write) : List (CacheUnit × WChan) := ws.flatMap fun e => e.beats.map fun b => (e.unit, b)

/-- The W beats still to be sent for the units of a queue. -/
def pending (l : List CacheUnit) (writer : CacheUnit → Writer) : List (CacheUnit × WChan) :=
  l.flatMap fun p => (writer p).beats.map fun b => (p, b)

def unsent (s : Port) : List (CacheUnit × WChan) := pending s.fifo.toList s.writer

/-! ### Invariants -/

/-- The units whose write is accepted and not sent are in the queue. -/
structure Queued (l : List CacheUnit) (writer : CacheUnit → Writer) : Prop where
  nodup : l.Nodup
  mem : ∀ p, p ∈ l ↔ (writer p).awLeft = false ∧ (writer p).beats ≠ []
  /-- no beat of a write is taken before its AW -/
  fresh : ∀ p, (writer p).awLeft = true → (writer p).beats = (writer p).burst ∧ (writer p).burst ≠ []
  last : ∀ p, lastOnly (writer p).beats = true
  icache : (writer .icache).isIdle = true

structure Inv (s : Port) : Prop extends Queued s.fifo.toList s.writer where
  ring : s.fifo.Inv

variable {s : Port} {i : StepIn}

theorem isIdle_iff {q : Writer} : q.isIdle = true ↔ q.awLeft = false ∧ q.beats = [] := by
  simp [Writer.isIdle]

/-- A unit in the queue does not begin a write. -/
theorem begin_of_mem (h : s.Inv) {p : CacheUnit} (hp : p ∈ s.fifo.toList) (b : List WChan) :
    (s.writer p).begin b = s.writer p := by
  rw [Writer.begin, if_neg]
  rw [isIdle_iff]
  exact fun hi => ((h.mem p).mp hp).2 hi.2

theorem icache_not_mem (h : s.Inv) : CacheUnit.icache ∉ s.fifo.toList :=
  fun hp => ((h.mem _).mp hp).2 (isIdle_iff.mp h.icache).2

/-- At most the two units of the data cache are in the queue. -/
theorem length_le (h : s.Inv) : s.fifo.toList.length ≤ 2 := by
  have hsub : s.fifo.toList ⊆ [.bypass, .data] := by
    intro p hp
    cases p with
    | icache => exact absurd hp (icache_not_mem h)
    | bypass => simp
    | data => simp
  exact (h.nodup.subperm hsub).length_le

theorem not_full (h : s.Inv) : s.fifo.full = false := by
  have hl := length_le h
  rw [Ring.length_toList] at hl
  rw [Ring.full, beq_eq_false_iff_ne]
  omega

/-- The AW of a step comes from the picked unit, which is not in the queue. -/
theorem aw_spec (h : s.Inv) (ho : s.Ok i) (ha : (portOut s.fifo i.toPortIn).awValid = true) :
    i.awPick ∉ s.fifo.toList ∧ wSelect (i.req i.awPick).aw.id = i.awPick ∧
      ((s.writer i.awPick).begin (i.burst i.awPick)).awLeft = true ∧ i.awPick ≠ .icache := by
  have hv := ho.awPick ha
  have hl := (((ho.offers i.awPick).aw) hv).1
  refine ⟨fun hp => ?_, (select_of_ownId (ho.awId _ hv)).1, hl, fun hic => ?_⟩
  · rw [begin_of_mem h hp] at hl
    exact absurd (hl.symm.trans ((h.mem _).mp hp).1) (by decide)
  · rw [hic] at hv
    exact absurd hv (by simp [PortIn.req, icacheReq])

/-- A write as it begins: nothing is taken, and there is a beat. -/
theorem begin_fresh (h : s.Inv) {p : CacheUnit} {b : List WChan} (hl : ((s.writer p).begin b).awLeft = true) :
    ((s.writer p).begin b).beats = ((s.writer p).begin b).burst ∧ ((s.writer p).begin b).burst ≠ [] := by
  unfold Writer.begin at hl ⊢
  split_ifs at hl ⊢
  · exact ⟨rfl, by simpa using hl⟩
  · exact h.fresh p hl

theorem begin_last (h : s.Inv) {p : CacheUnit} {b : List WChan} (hb : lastOnly b = true) :
    lastOnly ((s.writer p).begin b).beats = true := by
  unfold Writer.begin
  split_ifs
  · exact hb
  · exact h.last p

/-- The W beat of a step is the next one of the oldest accepted write. -/
theorem w_spec (h : s.Inv) (ho : s.Ok i) (hw : (portOut s.fifo i.toPortIn).wValid = true) :
    ∃ p ps b bs, s.fifo.toList = p :: ps ∧ wSelectArbiter s.fifo = p ∧ (s.writer p).beats = b :: bs ∧
      (portOut s.fifo i.toPortIn).w = b ∧ (b.last = true ↔ bs = []) := by
  have hne : s.fifo.empty = false := by
    by_contra he
    rw [Bool.not_eq_false] at he
    simp [portOut, wSelectArbiter, he, PortIn.req, icacheReq] at hw
  have hhead := Ring.head_toList h.ring hne
  have hsel : wSelectArbiter s.fifo = s.fifo.head := by simp [wSelectArbiter, hne]
  cases hq : s.fifo.toList with
  | nil => simp [hq] at hhead
  | cons p ps =>
    rw [hq, List.head?_cons, Option.some.injEq] at hhead
    have hp : p ∈ s.fifo.toList := by simp [hq]
    have hoff := (ho.offers p).w (by rw [hhead, ← hsel]; exact hw)
    rw [begin_of_mem h hp] at hoff
    cases hb : (s.writer p).beats with
    | nil => simp [hb] at hoff
    | cons b bs =>
      rw [hb, List.head?_cons, Option.some.injEq] at hoff
      refine ⟨p, ps, b, bs, rfl, hsel.trans hhead.symm, hb, ?_, ?_⟩
      · rw [hoff, hhead, ← hsel]
        rfl
      · have hlast := h.last p
        rw [hb] at hlast
        cases bs with
        | nil => simpa [lastOnly] using hlast
        | cons y t => simp_all [lastOnly]

/-! ### What a step does -/

namespace Queued
variable {l : List CacheUnit} {writer : CacheUnit → Writer} {p : CacheUnit}

/-- Units outside the queue do not matter to what is pending. -/
theorem pending_update (hp : p ∉ l) (v : Writer) :
    pending l (Function.update writer p v) = pending l writer := by
  refine List.flatMap_congr fun q hq => ?_
  rw [Function.update_of_ne]
  rintro rfl
  exact hp hq

/-- The oldest write sends a beat, and leaves with the last one. -/
theorem pop {ps : List CacheUnit} {b : WChan} {bs : List WChan} (h : Queued (p :: ps) writer)
    (hb : (writer p).beats = b :: bs) :
    Queued (if bs = [] then ps else p :: ps) (Function.update writer p { writer p with beats := bs }) ∧
      pending (p :: ps) writer = (p, b) ::
        pending (if bs = [] then ps else p :: ps) (Function.update writer p { writer p with beats := bs }) := by
  have hps : p ∉ ps := (List.nodup_cons.mp h.nodup).1
  have hown := (h.mem p).mp (List.mem_cons_self ..)
  have hne : p ≠ .icache := by
    rintro rfl
    exact hown.2 (isIdle_iff.mp h.icache).2
  have hlast : lastOnly bs = true := by
    have hl := h.last p
    rw [hb] at hl
    cases bs with
    | nil => rfl
    | cons y t => simp_all [lastOnly]
  refine ⟨⟨?_, fun q => ?_, fun q hq => ?_, fun q => ?_, ?_⟩, ?_⟩
  · split_ifs
    · exact (List.nodup_cons.mp h.nodup).2
    · exact h.nodup
  · by_cases hq : q = p
    · subst hq
      rw [Function.update_self]
      split_ifs with he
      · simp [he, hps]
      · simp [he, hown.1]
    · rw [Function.update_of_ne hq, ← h.mem q]
      split_ifs
      · simp [hq]
      · rfl
  · by_cases hqp : q = p
    · subst hqp
      rw [Function.update_self] at hq
      exact absurd (hq.symm.trans hown.1) (by decide)
    · rw [Function.update_of_ne hqp] at hq ⊢
      exact h.fresh q hq
  · by_cases hqp : q = p
    · rw [hqp, Function.update_self]
      exact hlast
    · rw [Function.update_of_ne hqp]
      exact h.last q
  · rw [Function.update_of_ne hne.symm]
    exact h.icache
  · have hrest : pending ps (Function.update writer p { writer p with beats := bs }) = pending ps writer :=
      pending_update hps _
    split_ifs with he
    · rw [hrest]
      simp [pending, hb, he]
    · simp only [pending, List.flatMap_cons, Function.update_self] at hrest ⊢
      rw [hrest, hb]
      rfl

/-- An accepted write joins the queue. -/
theorem push (h : Queued l writer) {v : Writer} (hp : p ∉ l) (hi : p ≠ .icache) (ha : v.awLeft = false)
    (hb : v.beats ≠ []) (hl : lastOnly v.beats = true) :
    Queued (l ++ [p]) (Function.update writer p v) ∧
      pending (l ++ [p]) (Function.update writer p v) = pending l writer ++ v.beats.map fun b => (p, b) := by
  refine ⟨⟨?_, fun q => ?_, fun q hq => ?_, fun q => ?_, ?_⟩, ?_⟩
  · rw [List.nodup_append]
    simp only [List.mem_singleton, List.nodup_singleton, true_and]
    exact ⟨h.nodup, fun q hq r hr he => hp (by rwa [← hr, ← he])⟩
  · by_cases hq : q = p
    · subst hq
      simp [ha, hb]
    · rw [Function.update_of_ne hq, ← h.mem q]
      simp [hq]
  · by_cases hqp : q = p
    · subst hqp
      rw [Function.update_self] at hq
      exact absurd (hq.symm.trans ha) (by decide)
    · rw [Function.update_of_ne hqp] at hq ⊢
      exact h.fresh q hq
  · by_cases hqp : q = p
    · rw [hqp, Function.update_self]
      exact hl
    · rw [Function.update_of_ne hqp]
      exact h.last q
  · rw [Function.update_of_ne hi.symm]
    exact h.icache
  · rw [pending, List.flatMap_append, ← pending, pending_update hp]
    simp

end Queued
theorem awValid_of_unit {p : CacheUnit} {q : WFifo} {j : PortIn} (h : (j.req p).awValid = true) :
    (portOut q j).awValid = true := by
  cases p <;> simp [portOut, anyUnit, h]

/-- Only the picked unit sees its AW accepted. -/
theorem awTaken_eq (ho : s.Ok i) (p : CacheUnit) :
    awTaken i s p = ((portOut s.fifo i.toPortIn).awValid && i.mem.awReady && decide (p = i.awPick)) := by
  by_cases hp : p = i.awPick
  · subst hp
    have hv : (i.req i.awPick).awValid = (portOut s.fifo i.toPortIn).awValid :=
      Bool.eq_iff_iff.mpr ⟨awValid_of_unit, ho.awPick⟩
    simp [awTaken, unitResp, hv]
  · simp [awTaken, unitResp, hp, Ne.symm hp]

/-- Only the selected unit sees its W beat accepted. -/
theorem wTaken_eq (p : CacheUnit) : wTaken i s p =
    ((portOut s.fifo i.toPortIn).wValid && i.mem.wReady && decide (p = wSelectArbiter s.fifo)) := by
  by_cases hp : p = wSelectArbiter s.fifo
  · subst hp
    simp [wTaken, unitResp, portOut]
  · simp [wTaken, unitResp, hp, Ne.symm hp]

/-- The units after the W beat and before the AW of the step. -/
def writerW (s : Port) (i : StepIn) : CacheUnit → Writer :=
  let p := wSelectArbiter s.fifo
  if (portOut s.fifo i.toPortIn).wValid && i.mem.wReady then
    Function.update s.writer p { s.writer p with beats := (s.writer p).beats.tail }
  else s.writer

theorem writer_step (h : s.Inv) (ho : s.Ok i) : (s.step i).writer =
    if (portOut s.fifo i.toPortIn).awValid && i.mem.awReady then
      Function.update (writerW s i) i.awPick
        { (s.writer i.awPick).begin (i.burst i.awPick) with awLeft := false }
    else writerW s i := by
  have hsel : (portOut s.fifo i.toPortIn).wValid = true → wSelectArbiter s.fifo ∈ s.fifo.toList := by
    intro hw
    obtain ⟨p, ps, b, bs, hl, hp, -⟩ := w_spec h ho hw
    rw [hp, hl]
    exact List.mem_cons_self ..
  funext p
  simp only [step, awTaken_eq ho, wTaken_eq, writerW]
  cases ha : (portOut s.fifo i.toPortIn).awValid && i.mem.awReady <;>
    cases hw : (portOut s.fifo i.toPortIn).wValid && i.mem.wReady <;>
    simp only [Bool.false_and, Bool.true_and, Bool.false_eq_true, if_false, if_true, Writer.next, Bool.or_false,
      Bool.false_or, Function.update_apply]
  · have hmem := hsel (Bool.and_eq_true _ _ ▸ hw).1
    by_cases hp : p = wSelectArbiter s.fifo
    · subst hp
      simp [begin_of_mem h hmem]
    · simp [hp]
  · by_cases hp : p = i.awPick
    · subst hp
      simp
    · simp [hp]
  · have hmem := hsel (Bool.and_eq_true _ _ ▸ hw).1
    have hnot := (aw_spec h ho (Bool.and_eq_true _ _ ▸ ha).1).1
    by_cases hp : p = i.awPick
    · subst hp
      have hne : i.awPick ≠ wSelectArbiter s.fifo := by
        rintro he
        exact hnot (he ▸ hmem)
      simp [hne]
    · by_cases hpw : p = wSelectArbiter s.fifo
      · subst hpw
        simp [hp, begin_of_mem h hmem]
      · simp [hp, hpw]

/-- The queue of the step: the last beat takes the oldest unit off, the AW puts its unit on. -/
theorem fifo_step (h : s.Inv) (ho : s.Ok i) : (s.step i).fifo.Inv ∧ (s.step i).fifo.toList =
    (if (portOut s.fifo i.toPortIn).wValid && i.mem.wReady && (portOut s.fifo i.toPortIn).w.last then
      s.fifo.toList.tail else s.fifo.toList) ++
    if (portOut s.fifo i.toPortIn).awValid && i.mem.awReady then [i.awPick] else [] := by
  obtain ⟨hi, hl⟩ := Ring.step_spec h.ring ((portOut s.fifo i.toPortIn).awValid && i.mem.awReady)
    ((portOut s.fifo i.toPortIn).wValid && i.mem.wReady && (portOut s.fifo i.toPortIn).w.last)
    (wSelect (portOut s.fifo i.toPortIn).aw.id)
  refine ⟨hi, hl.trans ?_⟩
  have hpop : (((portOut s.fifo i.toPortIn).wValid && i.mem.wReady && (portOut s.fifo i.toPortIn).w.last) &&
      !s.fifo.empty) =
      ((portOut s.fifo i.toPortIn).wValid && i.mem.wReady && (portOut s.fifo i.toPortIn).w.last) := by
    cases hw : (portOut s.fifo i.toPortIn).wValid with
    | false => simp
    | true =>
      obtain ⟨p, ps, b, bs, hq, -⟩ := w_spec h ho hw
      have he : s.fifo.empty = false := by
        rw [← Bool.not_eq_true, ← Ring.toList_eq_nil, hq]
        exact List.cons_ne_nil _ _
      simp [he]
  rw [hpop, not_full h, Bool.not_false, Bool.and_true]
  congr 1
  split_ifs with ha
  · have hsel : wSelect (portOut s.fifo i.toPortIn).aw.id = i.awPick :=
      (aw_spec h ho (Bool.and_eq_true _ _ ▸ ha).1).2.1
    rw [hsel]
  · rfl

/-- After the W beat: the queue is kept, and the beat was the first one pending. -/
theorem sent_spec (h : s.Inv) (ho : s.Ok i) :
    Queued (if (portOut s.fifo i.toPortIn).wValid && i.mem.wReady && (portOut s.fifo i.toPortIn).w.last then
      s.fifo.toList.tail else s.fifo.toList) (writerW s i) ∧
    s.unsent = sent s i ++
      pending (if (portOut s.fifo i.toPortIn).wValid && i.mem.wReady && (portOut s.fifo i.toPortIn).w.last then
        s.fifo.toList.tail else s.fifo.toList) (writerW s i) := by
  cases hw : (portOut s.fifo i.toPortIn).wValid && i.mem.wReady with
  | false =>
    simp only [writerW, sent, hw, Bool.false_and, Bool.false_eq_true, if_false, List.nil_append]
    exact ⟨h.toQueued, rfl⟩
  | true =>
    obtain ⟨p, ps, b, bs, hq, hsel, hb, hwb, hlast⟩ := w_spec h ho (Bool.and_eq_true _ _ ▸ hw).1
    have hpop := Queued.pop (hq ▸ h.toQueued) hb
    have hif : (if (true && (portOut s.fifo i.toPortIn).w.last) = true then s.fifo.toList.tail else s.fifo.toList) =
        if bs = [] then ps else p :: ps := by
      rw [Bool.true_and, hwb, hq]
      simp only [hlast, List.tail_cons]
    rw [hif]
    simp only [writerW, sent, hw, if_true, hsel, hwb, hb, List.tail_cons, unsent, hq]
    exact hpop

theorem step_spec (h : s.Inv) (ho : s.Ok i) : (s.step i).Inv ∧
    ∃ rest, s.unsent = sent s i ++ rest ∧ (s.step i).unsent = rest ++ beatsOf (accepted s i) := by
  obtain ⟨hring, hlist⟩ := fifo_step h ho
  obtain ⟨hq, hs⟩ := sent_spec h ho
  have hsub : (if (portOut s.fifo i.toPortIn).wValid && i.mem.wReady && (portOut s.fifo i.toPortIn).w.last then
      s.fifo.toList.tail else s.fifo.toList) ⊆ s.fifo.toList := by
    split_ifs
    · exact List.tail_subset _
    · exact List.Subset.refl _
  generalize (if (portOut s.fifo i.toPortIn).wValid && i.mem.wReady && (portOut s.fifo i.toPortIn).w.last then
    s.fifo.toList.tail else s.fifo.toList) = l at hlist hq hs hsub
  have hwriter := writer_step h ho
  cases ha : (portOut s.fifo i.toPortIn).awValid && i.mem.awReady with
  | false =>
    simp only [ha, Bool.false_eq_true, if_false, List.append_nil] at hlist hwriter
    refine ⟨⟨?_, hring⟩, _, hs, ?_⟩
    · rwa [hlist, hwriter]
    · rw [unsent, hlist, hwriter]
      simp [accepted, ha, beatsOf]
  | true =>
    simp only [ha, if_true] at hlist hwriter
    obtain ⟨hnot, -, hleft, hic⟩ := aw_spec h ho (Bool.and_eq_true _ _ ▸ ha).1
    obtain ⟨hbeats, hne⟩ := begin_fresh h hleft
    obtain ⟨hq', hp'⟩ := hq.push (fun hl => hnot (hsub hl)) hic
      (v := { (s.writer i.awPick).begin (i.burst i.awPick) with awLeft := false })
      rfl (by rw [hbeats]; exact hne) (begin_last h (ho.burst _))
    refine ⟨⟨?_, hring⟩, _, hs, ?_⟩
    · rwa [hlist, hwriter]
    · rw [unsent, hlist, hwriter, hp']
      simp [accepted, ha, beatsOf, hbeats]

/-! ### Runs -/

/-- What has been sent and what is pending are the beats of the accepted writes, in order. -/
structure LogInv (x : Port × Log) : Prop extends Inv x.1 where
  order : x.2.ws ++ x.1.unsent = beatsOf x.2.aws
  whole : ∀ e ∈ x.2.aws, e.beats.length = e.aw.len + 1 ∧ lastOnly e.beats = true
  ids : ∀ e ∈ x.2.ids, respSelect e.2 = e.1

theorem accepted_whole (h : s.Inv) (ho : s.Ok i) {e : Write} (he : e ∈ accepted s i) :
    e.beats.length = e.aw.len + 1 ∧ lastOnly e.beats = true := by
  simp only [accepted] at he
  split_ifs at he with ha
  · rw [List.mem_singleton] at he
    subst he
    have hv := (Bool.and_eq_true _ _ ▸ ha).1
    obtain ⟨hleft, hlen⟩ := (ho.offers i.awPick).aw (ho.awPick hv)
    refine ⟨hlen.symm, ?_⟩
    rw [← (begin_fresh h hleft).1]
    exact begin_last h (ho.burst _)
  · simp at he

theorem asked_own (ho : s.Ok i) {e : CacheUnit × BitVec 4} (he : e ∈ asked s i) : respSelect e.2 = e.1 := by
  simp only [asked, List.mem_append] at he
  rcases he with he | he <;> split_ifs at he with ha
  · rw [List.mem_singleton] at he
    subst he
    exact (select_of_ownId (ho.awId _ (ho.awPick (Bool.and_eq_true _ _ ▸ ha).1))).2
  · simp at he
  · rw [List.mem_singleton] at he
    subst he
    exact (select_of_ownId (ho.arId _ (ho.arPick (Bool.and_eq_true _ _ ▸ ha).1))).2
  · simp at he

theorem beatsOf_append (xs ys : List Write) : beatsOf (xs ++ ys) = beatsOf xs ++ beatsOf ys := List.flatMap_append

theorem logInv_step {x : Port × Log} (h : LogInv x) (ho : x.1.Ok i) :
    LogInv (x.1.step i, watch x.2 x.1 i) := by
  obtain ⟨hinv, rest, hs, hn⟩ := step_spec h.toInv ho
  refine ⟨hinv, ?_, fun e he => ?_, fun e he => ?_⟩
  · simp only [watch]
    rw [hn, beatsOf_append, ← h.order, hs]
    simp only [List.append_assoc]
  · rcases List.mem_append.mp he with he | he
    · exact h.whole e he
    · exact accepted_whole h.toInv ho he
  · rcases List.mem_append.mp he with he | he
    · exact h.ids e he
    · exact asked_own ho he

theorem logInv_reachable {x : Port × Log} (hr : machine.Reachable (fun y i => y.1.Ok i) x) : LogInv x := by
  refine Machine.Reachable.invariant (P := LogInv) (fun y hy => ?_) (fun y i h ho => logInv_step h ho) hr
  obtain ⟨s, g⟩ := y
  obtain ⟨rfl, rfl⟩ : s = reset ∧ g = ⟨[], [], []⟩ := hy
  refine ⟨⟨⟨?_, fun p => ?_, fun p hp => ?_, fun p => rfl, rfl⟩, Ring.inv_reset (by decide) _⟩, ?_, ?_, ?_⟩
  · simp [reset]
  · simp [reset, Writer.idle]
  · simp [reset, Writer.idle] at hp
  · simp [unsent, pending, reset, beatsOf]
  · simp
  · simp

/-- The W beats leave in the order of the accepted AWs, burst by burst, from the unit of the AW and
after it; the queue has room and is empty exactly when nothing is to be sent; and answers go to the
unit that asked. -/
theorem port_mux {x : Port × Log} (hr : machine.Reachable (fun y i => y.1.Ok i) x) :
    x.2.ws ++ x.1.unsent = beatsOf x.2.aws ∧
    (∀ e ∈ x.2.aws, e.beats.length = e.aw.len + 1 ∧ lastOnly e.beats = true) ∧
    (∀ i : StepIn, x.1.Ok i → (watch x.2 x.1 i).ws <+: beatsOf x.2.aws) ∧
    x.1.fifo.full = false ∧
    (x.1.fifo.empty = true ↔ x.2.ws = beatsOf x.2.aws) ∧
    ∀ p id, (p, id) ∈ x.2.ids → ∀ i : PortIn,
      (i.bId = id → (portOut x.1.fifo i).bReady = (i.req p).bReady ∧
        ∀ q, (unitResp x.1.fifo i q).bValid = (i.mem.bValid && p == q)) ∧
      (i.rId = id → (portOut x.1.fifo i).rReady = (i.req p).rReady ∧
        ∀ q, (unitResp x.1.fifo i q).rValid = (i.mem.rValid && p == q)) := by
  have h := logInv_reachable hr
  refine ⟨h.order, h.whole, fun i ho => ?_, not_full h.toInv, ?_, fun p id hid i => ?_⟩
  · obtain ⟨-, rest, hs, -⟩ := step_spec h.toInv ho
    refine ⟨rest, ?_⟩
    rw [← h.order, hs]
    simp only [watch, List.append_assoc]
  · rw [← h.order, ← Ring.toList_eq_nil, List.self_eq_append_right]
    constructor
    · intro hq
      simp [unsent, pending, hq]
    · intro hu
      rw [List.eq_nil_iff_forall_not_mem]
      intro p hp
      have hb := List.flatMap_eq_nil_iff.mp hu p hp
      exact ((h.mem p).mp hp).2 (List.map_eq_nil_iff.mp hb)
  · have hsel : respSelect id = p := h.ids _ hid
    refine ⟨?_, ?_⟩ <;> rintro rfl
    · exact ⟨by rw [portOut, hsel], fun q => by rw [unitResp, hsel]⟩
    · exact ⟨by rw [portOut, hsel], fun q => by rw [unitResp, hsel]⟩

section Runs

deriving instance DecidableEq for WChan

instance (q : Writer) (o : AxiReq) : Decidable (q.Offers o) :=
  decidable_of_iff ((o.awValid = true → q.awLeft = true ∧ o.aw.len + 1 = q.burst.length) ∧
    (o.wValid = true → q.beats.head? = some o.w)) ⟨fun h => ⟨h.1, h.2⟩, fun h => ⟨h.aw, h.w⟩⟩

instance (s : Port) (i : StepIn) : Decidable (s.Ok i) :=
  decidable_of_iff ((∀ p, ((s.writer p).begin (i.burst p)).Offers (i.req p)) ∧ (∀ p, lastOnly (i.burst p) = true) ∧
    ((portOut s.fifo i.toPortIn).awValid = true → (i.req i.awPick).awValid = true) ∧
    ((portOut s.fifo i.toPortIn).arValid = true → (i.req i.arPick).arValid = true) ∧
    (∀ p, (i.req p).awValid = true → ownId p (i.req p).aw.id = true) ∧
    (∀ p, (i.req p).arValid = true → ownId p (i.req p).ar.id = true))
    ⟨fun ⟨h1, h2, h3, h4, h5, h6⟩ => ⟨h1, h2, h3, h4, h5, h6⟩,
      fun h => ⟨h.offers, h.burst, h.awPick, h.arPick, h.awId, h.arId⟩⟩

def beat (last : Bool) : WChan := ⟨fun _ => 1, fun _ => true, last⟩

/-- A unit that offers an AW of the given length, a W beat, both or nothing. -/
def writes (id : BitVec 4) (aw : Option ℕ) (w : Option WChan) : AxiReq :=
  { icacheReq false ⟨⟨0, 0, 0⟩, 0, 0, false, id, 0, 0⟩ false with
    awValid := aw.isSome, aw := ⟨⟨0, 0, 0⟩, aw.getD 0, 3, false, id, .none, 0, 0⟩
    wValid := w.isSome, w := w.getD (beat false) }

def cycle (bypass data : AxiReq) (pick : CacheUnit) : StepIn where
  icArValid := false
  icAr := ⟨⟨0, 0, 0⟩, 0, 0, false, 0, 0, 0⟩
  icRReady := false
  bypassReq := bypass
  dataReq := data
  awPick := pick
  arPick := pick
  mem := { AxiResp.none with awReady := true, wReady := true }
  bId := 8
  rId := 8
  burst := fun
    | .icache => []
    | .bypass => [beat true]
    | .data => [beat false, beat true]

/-- The bypass and the data adapter begin a write in one cycle; the bypass is picked first. -/
def bothWrite : List StepIn :=
  [cycle (writes 8 (some 0) (some (beat true))) (writes 12 (some 1) (some (beat false))) .bypass,
    cycle (writes 8 none (some (beat true))) (writes 12 (some 1) (some (beat false))) .data,
    cycle (writes 8 none none) (writes 12 none (some (beat false))) .data]

theorem port_mux_run :
    let x := machine.run (reset, ⟨[], [], []⟩) bothWrite
    x.2.ws = [(.bypass, beat true), (.data, beat false)] ∧ x.2.ws ++ x.1.unsent = beatsOf x.2.aws ∧
      x.1.fifo.full = false := by
  have h0 : machine.init (reset, ⟨[], [], []⟩) := ⟨rfl, rfl⟩
  have hr : machine.Reachable (fun y i => y.1.Ok i) (machine.run (reset, ⟨[], [], []⟩) bothWrite) :=
    .run (.init h0) (by decide +kernel)
  have h := port_mux hr
  exact ⟨by decide +kernel, h.1, h.2.2.2.1⟩

end Runs
end Port
end Culsans.Subsystem
