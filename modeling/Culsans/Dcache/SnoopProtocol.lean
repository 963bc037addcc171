import Culsans.Library.Progress
import Culsans.Dcache.Transitions

/-! # The snoop channels

`snoop_cache_ctrl` with `tag_cmp` and the SRAMs. Everything else that reaches them is
an input: the accesses of the other ports, which decide the grants, and `updating_cache_i`.
An observer writes down what passes on AC, CR and CD and what the snoop port does to the array.
-/

namespace Culsans.Dcache
open Library TagCmp

/-- The inputs of the snoop side of the cache in one cycle. -/
structure SideIn where
  enable : Bool
  snoopPort : SnoopReq
  flushing : Bool
  amoValid : Bool
  amoAddr : PAddr
  updatingCache : Bool
  /-- the array accesses of the other ports -/
  others : Port → ArrayPort
  /-- the tag presented by the port that was looked up, if it is another one -/
  otherTag : Tag

/-- `snoop_cache_ctrl`, the SRAMs and `id_q` of `tag_cmp`. -/
structure SnoopSide where
  snoop : SnoopCtrl
  arr : CacheArray
  rd : ReadRegs
  idq : Option Port

namespace SnoopSide
variable (s : SnoopSide) (i : SideIn)

/-- `sel_tag` -/
def selTag : Tag :=
  if s.idq = some 1 then s.snoop.tagO i.snoopPort i.flushing i.amoValid i.amoAddr else i.otherTag

def snoopIn : SnoopIn where
  bypass := !i.enable
  snoopPort := i.snoopPort
  rdata := s.rd.rdata
  hitWay := TagCmp.hitWay s.rd.rdata (s.selTag i)
  dirtyWay := fun w => anyByte (s.rd.rdata w).dirty
  sharedWay := fun w => (s.rd.rdata w).shared
  flushing := i.flushing
  amoValid := i.amoValid
  amoAddr := i.amoAddr
  updatingCache := i.updatingCache

def port : ArrayPort := s.snoop.port (s.snoopIn i)

def ports (k : Port) : ArrayPort := if k = 1 then s.port i else i.others k

/-- `gnt_i` -/
def gnt : Bool := TagCmp.gnt (s.ports i) 1

/-- The access that reaches the SRAMs. -/
def ramPort : ArrayPort := s.ports i (selected (s.ports i))

def step : SnoopSide where
  snoop := s.snoop.step (s.snoopIn i) (s.gnt i)
  arr := s.arr.write (s.ramPort i)
  rd := s.rd.step s.arr (s.ramPort i)
  idq := some (selected (s.ports i))

def machine : Machine SnoopSide SideIn := ⟨fun s => s.snoop = .reset, step⟩

end SnoopSide

/-! ### What a snoop is answered -/

/-- A snoop and the set of its line when it was looked up. -/
structure Snoop where
  code : AcSnoop
  addr : PAddr
  lines : Way → CacheLine

namespace Snoop
variable (t : Snoop)

/-- The ways that hold the line. -/
def hits : WaySet := fun w => t.addr.tag == (t.lines w).tag && (t.lines w).valid

def found : Bool := anyWay t.hits
def dirty : Bool := anyWay fun w => anyByte (t.lines w).dirty && t.hits w
def shared : Bool := anyWay fun w => (t.lines w).shared && t.hits w
def data : LineData := CacheCtrl.selectLine t.lines t.hits

/-- The response: an error for a code that is not served, no flag for a miss. -/
def cr : CrResp :=
  if SnoopCtrl.supported t.code then
    if t.found then
      match t.code with
      | .readShared => { CrResp.zero with dataTransfer := true, isShared := true }
      | .readOnce => { CrResp.zero with dataTransfer := true, isShared := t.shared }
      | .cleanInvalid => { CrResp.zero with dataTransfer := t.dirty, passDirty := t.dirty }
      | _ => { CrResp.zero with dataTransfer := true, passDirty := t.dirty }
    else .zero
  else { CrResp.zero with error := true }

/-- The two words of the line, the lower one first, the last one marked. -/
def beats : List (Word × Bool) :=
  if t.cr.dataTransfer then [(t.data.word false, false), (t.data.word true, true)] else []

/-- The line is marked as shared, or invalidated, in the ways that hold it. -/
def effect (a : CacheArray) : CacheArray := fun idx w =>
  if idx = t.addr.index ∧ t.hits w = true then
    if t.code = .readShared then { a idx w with shared := true } else (a idx w).invalidated
  else a idx w

def effects : List (CacheArray → CacheArray) :=
  if SnoopCtrl.supported t.code && t.found && !(t.code == .readOnce) then [t.effect] else []

def lookups : List (Way → CacheLine) := if SnoopCtrl.supported t.code then [t.lines] else []

/-- A line that is held in one way only is answered with its own status and data. -/
theorem of_single {w : Way} (h : ∀ v, t.hits v = (v == w)) : t.found = true ∧ t.data = (t.lines w).data ∧
    t.dirty = anyByte (t.lines w).dirty ∧ t.shared = (t.lines w).shared := by
  have hw : t.hits w = true := by simp [h]
  have hfound : t.found = true := anyWay_iff.mpr ⟨w, hw⟩
  have hany : ∀ f : Way → Bool, anyWay (fun v => f v && t.hits v) = f w := by
    intro f
    rw [Bool.eq_iff_iff, anyWay_iff]
    simp [h]
  refine ⟨hfound, ?_, hany _, hany _⟩
  obtain ⟨v, hv, hd⟩ := CacheCtrl.selectLine_spec t.lines hfound
  rw [h, beq_iff_eq] at hv
  exact hv ▸ hd

end Snoop

/-! ### The observer -/

/-- What has passed at the snoop side: requests, lookups, array writes, responses and data beats. -/
@[ext] structure SnoopLog where
  acs : List (AcSnoop × PAddr)
  lookups : List (Way → CacheLine)
  writes : List (CacheArray → CacheArray)
  crs : List CrResp
  cds : List (Word × Bool)

namespace SnoopLog

def empty : SnoopLog := ⟨[], [], [], [], []⟩

def append (g d : SnoopLog) : SnoopLog :=
  ⟨g.acs ++ d.acs, g.lookups ++ d.lookups, g.writes ++ d.writes, g.crs ++ d.crs, g.cds ++ d.cds⟩

@[simp] theorem append_empty (g : SnoopLog) : g.append .empty = g := by
  simp [append, empty]

@[simp] theorem empty_append (g : SnoopLog) : SnoopLog.empty.append g = g := by
  simp [append, empty]

theorem append_assoc (g d e : SnoopLog) : (g.append d).append e = g.append (d.append e) := by
  simp [append]

/-- All that passes for one snoop. -/
def ofSnoop (t : Snoop) : SnoopLog := ⟨[(t.code, t.addr)], t.lookups, t.effects, [t.cr], t.beats⟩

/-- All that passes for snoops served one after the other. -/
def served (l : List Snoop) : SnoopLog := l.foldl (fun g t => g.append (ofSnoop t)) .empty

/-- A part of what passes: a beginning on every channel. -/
structure IsPrefix (d e : SnoopLog) : Prop where
  acs : d.acs <+: e.acs
  lookups : d.lookups <+: e.lookups
  writes : d.writes <+: e.writes
  crs : d.crs <+: e.crs
  cds : d.cds <+: e.cds

theorem served_append (l : List Snoop) (t : Snoop) : served (l ++ [t]) = (served l).append (ofSnoop t) := by
  simp [served]

end SnoopLog

namespace SnoopSide
variable (s : SnoopSide) (i : SideIn)

/-- The lookup of WAIT_GNT is granted. -/
def looksUp : Bool := s.snoop.state == .waitGnt && !i.updatingCache && s.gnt i

/-- The snoop port writes the array. -/
def writes : Bool := s.gnt i && (s.port i).active && (s.port i).we

def resp : SnoopResp := s.snoop.resp (s.snoopIn i)

/-- What passes in one cycle. -/
def events : SnoopLog where
  acs := if (s.resp i).acReady then [(i.snoopPort.acSnoop, i.snoopPort.acAddr)] else []
  lookups := if s.looksUp i then [s.arr s.snoop.memReq.index] else []
  writes := if s.writes i then [fun a => a.write (s.ramPort i)] else []
  crs := if (s.resp i).crValid && i.snoopPort.crReady then [(s.resp i).crResp] else []
  cds := if (s.resp i).cdValid && i.snoopPort.cdReady then [((s.resp i).cdData, (s.resp i).cdLast)] else []

/-- The snoop side with its observer. -/
def watched : Machine (SnoopSide × SnoopLog) SideIn := machine.observe .empty fun g s i => g.append (s.events i)

/-! ### The snoop in progress -/

/-- What has passed for the snoop in progress. -/
def part (t : Snoop) (q : SnoopCtrl) : SnoopLog :=
  match q.state with
  | .idle => .empty
  | .waitGnt => ⟨[(t.code, t.addr)], [], [], [], []⟩
  | .evalFlags | .updateShared | .invalidate => ⟨[(t.code, t.addr)], t.lookups, [], [], []⟩
  | .sendCrResp => ⟨[(t.code, t.addr)], t.lookups, t.effects, [], []⟩
  | .sendCdResp =>
    ⟨[(t.code, t.addr)], t.lookups, t.effects, [t.cr], if q.cachelineWordSel then [(t.data.word false, false)] else []⟩

/-- The answer is kept in the registers. -/
structure Keeps (t : Snoop) (q : SnoopCtrl) : Prop where
  crResp : q.crResp = t.cr
  data : t.cr.dataTransfer = true → q.cacheData = t.data

/-- The hit is kept in the registers until the status is written. -/
structure Writing (t : Snoop) (q : SnoopCtrl) : Prop extends Keeps t q where
  supported : SnoopCtrl.supported t.code = true
  found : t.found = true
  memReq : q.memReq = t.addr
  hitWay : q.hitWay = t.hits
  first : q.cachelineWordSel = false

/-- What the registers know of the snoop in progress. -/
def Serves (t : Snoop) (s : SnoopSide) : Prop :=
  let q := s.snoop
  let waits := q.memReq = t.addr ∧ q.acSnoop = t.code ∧ SnoopCtrl.supported t.code = true ∧ q.crResp = .zero ∧
    q.cachelineWordSel = false
  match q.state with
  | .idle => True
  | .waitGnt => waits
  | .evalFlags => waits ∧ s.idq = some 1 ∧ s.rd.rdata = t.lines
  | .updateShared => Writing t q ∧ t.code = .readShared
  | .invalidate => Writing t q ∧ t.code ≠ .readShared ∧ t.code ≠ .readOnce
  | .sendCrResp => Keeps t q ∧ q.cachelineWordSel = false
  | .sendCdResp => Keeps t q ∧ t.cr.dataTransfer = true

/-- Snoops are served one after the other. -/
def SnoopInv (s : SnoopSide) (g : SnoopLog) : Prop :=
  ∃ past t, g = (SnoopLog.served past).append (part t s.snoop) ∧ Serves t s

variable {s i} {t : Snoop}

theorem snoop_step : (s.step i).snoop = s.snoop.step (s.snoopIn i) (s.gnt i) := rfl

/-- A granted lookup is answered in the next cycle with the set as it was. -/
theorem step_of_lookup {a : Index} (hg : s.gnt i = true) (hp : s.port i = .lookup a) :
    (s.step i).rd.rdata = s.arr a ∧ (s.step i).idq = some 1 := by
  have ha : (s.ports i 1).active = true := by simp [ports, hp]
  have hsel : selected (s.ports i) = 1 := selected_of_gnt hg ha
  have hr : s.ramPort i = .lookup a := by rw [ramPort, hsel, ports, if_pos rfl, hp]
  refine ⟨funext fun w => ?_, by rw [step, hsel]⟩
  simp only [step, hr]
  exact ReadRegs.step_lookup _ _ rfl rfl w

/-- A granted status write reaches the array. -/
theorem ramPort_of_write (h : s.writes i = true) : s.ramPort i = s.port i := by
  simp only [writes, Bool.and_eq_true] at h
  have ha : (s.ports i 1).active = true := by simpa [ports] using h.1.2
  rw [ramPort, selected_of_gnt h.1.1 ha, ports, if_pos rfl]

/-- What passes while a snoop is in progress. -/
theorem events_of_busy (hq : s.snoop.state ≠ .idle) : s.events i =
    ⟨[], if s.looksUp i then [s.arr s.snoop.memReq.index] else [],
      if s.writes i then [fun a => a.write (s.ramPort i)] else [],
      if s.snoop.state == .sendCrResp && i.snoopPort.crReady then [s.snoop.crResp] else [],
      if s.snoop.state == .sendCdResp && i.snoopPort.cdReady then
        [(s.snoop.cacheData.word s.snoop.cachelineWordSel, s.snoop.cachelineWordSel)] else []⟩ := by
  have ha : s.snoop.accepts (s.snoopIn i) = false := by simp [SnoopCtrl.accepts, SnoopCtrl.acReady, hq]
  cases hs : s.snoop.state <;> simp [events, resp, SnoopCtrl.resp, ha, hs]

theorem writes_of_not_we (h : (s.port i).we = false) : s.writes i = false := by
  simp [writes, h]

/-- One cycle of the snoop in progress: it goes on, or it ends with all that passes for it. -/
def Goes (t : Snoop) (s : SnoopSide) (i : SideIn) : Prop :=
  (∃ t', (part t s.snoop).append (s.events i) = part t' (s.step i).snoop ∧ Serves t' (s.step i)) ∨
    ((part t s.snoop).append (s.events i) = .ofSnoop t ∧ (s.step i).snoop.state = .idle)

/-- Nothing happens. -/
theorem goes_of_quiet (h : Serves t s) (he : s.events i = .empty) (hs : (s.step i).snoop = s.snoop)
    (hq : s.snoop.state ≠ .evalFlags) : Goes t s i := by
  refine .inl ⟨t, by rw [he, hs, SnoopLog.append_empty], ?_⟩
  simp only [Serves, hs] at h ⊢
  cases hst : s.snoop.state <;> simp_all

theorem goes_idle (he : i.enable = true) (hq : s.snoop.state = .idle) : Goes t s i := by
  have hl : s.looksUp i = false := by simp [looksUp, hq]
  have hw : s.writes i = false := by
    apply writes_of_not_we
    simp only [port, SnoopCtrl.port, hq]
    split_ifs <;> rfl
  have hev : s.events i = { SnoopLog.empty with
      acs := if s.snoop.accepts (s.snoopIn i) then [(i.snoopPort.acSnoop, i.snoopPort.acAddr)] else [] } := by
    simp [events, hl, hw, resp, SnoopCtrl.resp, hq, SnoopLog.empty]
  have hstep : (s.step i).snoop = s.snoop.stepIdle (s.snoopIn i) := by simp [snoop_step, SnoopCtrl.step, hq]
  refine .inl ⟨⟨i.snoopPort.acSnoop, i.snoopPort.acAddr, fun _ => .zero⟩, ?_, ?_⟩
  · rw [hev, hstep]
    simp only [part, hq, SnoopLog.empty_append, SnoopCtrl.stepIdle, snoopIn, he, Bool.not_true, Bool.false_eq_true]
    split_ifs <;> simp_all [SnoopLog.empty, Snoop.lookups, Snoop.effects]
  · simp only [Serves, hstep, SnoopCtrl.stepIdle, snoopIn, he, Bool.not_true, Bool.false_eq_true]
    split_ifs <;> simp_all
    constructor <;> simp_all [Snoop.cr, CrResp.zero]

theorem goes_waitGnt (h : Serves t s) (hq : s.snoop.state = .waitGnt) : Goes t s i := by
  have hserve := h
  simp only [Serves, hq] at hserve
  obtain ⟨haddr, hcode, hsup, hcr, hfirst⟩ := hserve
  have hw : s.writes i = false := by
    apply writes_of_not_we
    simp only [port, SnoopCtrl.port, hq]
    split_ifs <;> rfl
  have hstep : (s.step i).snoop = if s.looksUp i then { s.snoop with state := .evalFlags } else s.snoop := by
    simp [snoop_step, SnoopCtrl.step, hq, looksUp, snoopIn]
  cases hl : s.looksUp i
  · have hev : s.events i = .empty := by
      rw [events_of_busy (by simp [hq]), hl, hw]
      simp [hq, SnoopLog.empty]
    exact goes_of_quiet h hev (by simp [hstep, hl]) (by simp [hq])
  · have hg := hl
    simp only [looksUp, Bool.and_eq_true, Bool.not_eq_true'] at hg
    have hport : s.port i = .lookup s.snoop.memReq.index := by simp [port, SnoopCtrl.port, hq, snoopIn, hg.1.2]
    obtain ⟨hrd, hid⟩ := step_of_lookup hg.2 hport
    rw [hl, if_pos rfl] at hstep
    refine .inl ⟨{ t with lines := s.arr s.snoop.memReq.index }, ?_, ?_⟩
    · rw [events_of_busy (by simp [hq]), hl, hw, hstep]
      simp [part, hq, SnoopLog.append, Snoop.lookups, hsup]
    · simp only [Serves, hstep]
      exact ⟨⟨haddr, hcode, hsup, hcr, hfirst⟩, hid, hrd⟩

theorem goes_evalFlags (h : Serves t s) (hq : s.snoop.state = .evalFlags) : Goes t s i := by
  simp only [Serves, hq] at h
  obtain ⟨⟨haddr, hcode, hsup, hcr, hfirst⟩, hid, hrd⟩ := h
  have hl : s.looksUp i = false := by simp [looksUp, hq]
  have hw : s.writes i = false := writes_of_not_we (by simp [port, SnoopCtrl.port, hq])
  have htag : s.selTag i = t.addr.tag := by simp [selTag, hid, SnoopCtrl.tagO, SnoopCtrl.acReady, hq, haddr]
  have hhits : (s.snoopIn i).hitWay = t.hits := by
    simp only [snoopIn, htag, hrd]
    rfl
  have hstep : (s.step i).snoop = s.snoop.stepEvalFlags (s.snoopIn i) := by simp [snoop_step, SnoopCtrl.step, hq]
  have hfound : anyWay t.hits = t.found := rfl
  have hdirty : (anyWay fun w => (s.snoopIn i).dirtyWay w && t.hits w) = t.dirty := by
    simp only [snoopIn, hrd, Snoop.dirty]
  have hshared : (anyWay fun w => (s.snoopIn i).sharedWay w && t.hits w) = t.shared := by
    simp only [snoopIn, hrd, Snoop.shared]
  have hdata : t.found = true → (s.step i).snoop.cacheData = t.data := by
    intro hf
    rw [hstep]
    simp only [SnoopCtrl.stepEvalFlags, hhits, hfound, hf, if_true]
    simp only [snoopIn, hrd, Snoop.data]
  have hnext : (s.step i).snoop.state = (evalFlags t.code t.found t.dirty t.shared).next ∧
      (s.step i).snoop.crResp = { (evalFlags t.code t.found t.dirty t.shared).crResp with error := false } ∧
      (s.step i).snoop.hitWay = t.hits ∧ (s.step i).snoop.memReq = t.addr ∧
      (s.step i).snoop.cachelineWordSel = false := by
    rw [hstep]
    simp only [SnoopCtrl.stepEvalFlags, hhits, hfound, hdirty, hshared, haddr, hcode, hcr, hfirst]
    simp [CrResp.zero]
  obtain ⟨hst, hcr', hhit', haddr', hfirst'⟩ := hnext
  refine .inl ⟨t, ?_, ?_⟩
  · rw [events_of_busy (by simp [hq]), hl, hw]
    cases hf : t.found
    · simp [part, hq, hst, evalFlags, hf, SnoopLog.append, Snoop.effects]
    · cases hc : t.code <;> simp [hc, SnoopCtrl.supported] at hsup <;>
        simp [part, hq, hst, evalFlags, hf, hc, SnoopLog.append, Snoop.effects]
  · cases hf : t.found
    · simp only [Serves, hst, evalFlags, hf, Bool.false_eq_true, if_false]
      exact ⟨⟨by simp [hcr', evalFlags, hf, Snoop.cr, hsup, CrResp.zero], by simp [Snoop.cr, hsup, hf,
        CrResp.zero]⟩, hfirst'⟩
    · have hkeep : (s.step i).snoop.crResp = t.cr := by
        rw [hcr']
        cases hc : t.code <;> simp [hc, SnoopCtrl.supported] at hsup <;>
          simp [evalFlags, hf, hc, Snoop.cr, SnoopCtrl.supported, CrResp.zero]
      have hkeeps : Keeps t (s.step i).snoop := ⟨hkeep, fun _ => hdata hf⟩
      have hwriting : Writing t (s.step i).snoop := ⟨hkeeps, hsup, hf, haddr', hhit', hfirst'⟩
      cases hc : t.code <;> simp [hc, SnoopCtrl.supported] at hsup <;>
        simp only [Serves, hst, evalFlags, hf, hc, if_true]
      · exact ⟨hkeeps, hfirst'⟩
      · exact ⟨hwriting, trivial⟩
      · exact ⟨hwriting, by decide, by decide⟩
      · exact ⟨hwriting, by decide, by decide⟩

/-- A status write changes the ways that hold the line. -/
theorem effect_of_write {q : SnoopCtrl} {p : ArrayPort} (h : Writing t q)
    (hp : (t.code = .readShared ∧ p = q.updateSharedWrite) ∨ (t.code ≠ .readShared ∧ p = q.invalidateWrite)) :
    (fun a : CacheArray => a.write p) = t.effect := by
  have hact : anyWay t.hits = true := h.found
  funext a idx w
  rcases hp with ⟨hc, rfl⟩ | ⟨hc, rfl⟩
  · have hport : q.updateSharedWrite.active = true ∧ q.updateSharedWrite.we = true ∧
        q.updateSharedWrite.addr = t.addr.index := by
      simp [SnoopCtrl.updateSharedWrite, ArrayPort.active, h.hitWay, hact, h.memReq]
    simp only [CacheArray.write, hport, CacheLine.write_updateShared, h.hitWay, Snoop.effect, hc]
    grind
  · have hport : q.invalidateWrite.active = true ∧ q.invalidateWrite.we = true ∧
        q.invalidateWrite.addr = t.addr.index := by
      simp [SnoopCtrl.invalidateWrite, ArrayPort.active, h.hitWay, hact, h.memReq]
    simp only [CacheArray.write, hport, CacheLine.write_invalidate, h.hitWay, Snoop.effect, hc]
    grind

/-- The status is written when the array is granted. -/
theorem goes_of_writing (h : Serves t s) (hw : Writing t s.snoop)
    (hq : s.snoop.state = .updateShared ∧ t.code = .readShared ∨
      s.snoop.state = .invalidate ∧ t.code ≠ .readShared ∧ t.code ≠ .readOnce) : Goes t s i := by
  have hne : s.snoop.state ≠ .idle ∧ s.snoop.state ≠ .evalFlags ∧ s.snoop.state ≠ .sendCrResp ∧
      s.snoop.state ≠ .sendCdResp := by
    rcases hq with ⟨hq, -⟩ | ⟨hq, -⟩ <;> simp [hq]
  have hl : s.looksUp i = false := by rcases hq with ⟨hq, -⟩ | ⟨hq, -⟩ <;> simp [looksUp, hq]
  have hport : (s.port i).we = true ∧ (s.port i).active = true ∧
    (fun a : CacheArray => a.write (s.port i)) = t.effect := by
    have hact : anyWay t.hits = true := hw.found
    rcases hq with ⟨hq, hc⟩ | ⟨hq, hc, -⟩
    · have hp : s.port i = s.snoop.updateSharedWrite := by simp [port, SnoopCtrl.port, hq]
      exact ⟨by simp [hp, SnoopCtrl.updateSharedWrite],
        by simp [hp, SnoopCtrl.updateSharedWrite, ArrayPort.active, hw.hitWay, hact],
        effect_of_write hw (.inl ⟨hc, hp⟩)⟩
    · have hp : s.port i = s.snoop.invalidateWrite := by simp [port, SnoopCtrl.port, hq]
      exact ⟨by simp [hp, SnoopCtrl.invalidateWrite],
        by simp [hp, SnoopCtrl.invalidateWrite, ArrayPort.active, hw.hitWay, hact],
        effect_of_write hw (.inr ⟨hc, hp⟩)⟩
  have hwr : s.writes i = s.gnt i := by simp [writes, hport]
  have hstep : (s.step i).snoop = if s.gnt i then { s.snoop with state := .sendCrResp } else s.snoop := by
    rcases hq with ⟨hq, -⟩ | ⟨hq, -⟩ <;> simp [snoop_step, SnoopCtrl.step, hq]
  have hev := events_of_busy (i := i) hne.1
  cases hg : s.gnt i
  · refine goes_of_quiet h ?_ (by simp [hstep, hg]) hne.2.1
    rw [hev, hl, hwr, hg]
    simp [hne, SnoopLog.empty]
  · rw [hg, if_pos rfl] at hstep
    have heff : t.effects = [t.effect] := by
      simp only [Snoop.effects, hw.supported, hw.found]
      rcases hq with ⟨-, hc⟩ | ⟨-, hc⟩ <;> simp [hc]
    refine .inl ⟨t, ?_, ?_⟩
    · rw [hev, hl, hwr, hg, hstep, ramPort_of_write (hwr.trans hg), hport.2.2]
      rcases hq with ⟨hq, -⟩ | ⟨hq, -⟩ <;> simp [part, hq, SnoopLog.append, heff]
    · simp only [Serves, hstep]
      exact ⟨⟨hw.crResp, hw.data⟩, hw.first⟩

theorem goes_sendCrResp (h : Serves t s) (hq : s.snoop.state = .sendCrResp) : Goes t s i := by
  have hserve := h
  simp only [Serves, hq] at hserve
  obtain ⟨hkeep, hfirst⟩ := hserve
  have hl : s.looksUp i = false := by simp [looksUp, hq]
  have hw : s.writes i = false := writes_of_not_we (by simp [port, SnoopCtrl.port, hq])
  have hev := events_of_busy (s := s) (i := i) (by simp [hq])
  have hstep : (s.step i).snoop = if i.snoopPort.crReady then
      { s.snoop with state := if s.snoop.crResp.dataTransfer then .sendCdResp else .idle } else s.snoop := by
    simp only [snoop_step, SnoopCtrl.step, hq]
    rfl
  cases hr : i.snoopPort.crReady
  · refine goes_of_quiet h ?_ (by simp [hstep, hr]) (by simp [hq])
    rw [hev, hl, hw]
    simp [hq, hr, SnoopLog.empty]
  · rw [hr, if_pos rfl, hkeep.crResp] at hstep
    rw [hl, hw] at hev
    cases hd : t.cr.dataTransfer
    · refine .inr ⟨?_, by simp [hstep, hd]⟩
      rw [hev]
      simp [part, hq, hr, SnoopLog.append, SnoopLog.ofSnoop, hkeep.crResp, Snoop.beats, hd]
    · refine .inl ⟨t, ?_, ?_⟩
      · rw [hev, hstep]
        simp [part, hq, hr, SnoopLog.append, hkeep.crResp, hd, hfirst]
      · simp only [Serves, hstep, hd, if_true]
        exact ⟨⟨hkeep.crResp, hkeep.data⟩, trivial⟩

theorem goes_sendCdResp (h : Serves t s) (hq : s.snoop.state = .sendCdResp) : Goes t s i := by
  have hserve := h
  simp only [Serves, hq] at hserve
  obtain ⟨hkeep, hd⟩ := hserve
  have hl : s.looksUp i = false := by simp [looksUp, hq]
  have hw : s.writes i = false := writes_of_not_we (by simp [port, SnoopCtrl.port, hq])
  have hev := events_of_busy (s := s) (i := i) (by simp [hq])
  have hstep : (s.step i).snoop = if i.snoopPort.cdReady then
      { s.snoop with state := if s.snoop.cachelineWordSel then .idle else .sendCdResp
                     cachelineWordSel := !s.snoop.cachelineWordSel } else s.snoop := by
    simp only [snoop_step, SnoopCtrl.step, hq]
    rfl
  cases hr : i.snoopPort.cdReady
  · refine goes_of_quiet h ?_ (by simp [hstep, hr]) (by simp [hq])
    rw [hev, hl, hw]
    simp [hq, hr, SnoopLog.empty]
  · rw [hr, if_pos rfl] at hstep
    rw [hl, hw] at hev
    cases hsel : s.snoop.cachelineWordSel
    · refine .inl ⟨t, ?_, ?_⟩
      · rw [hev, hstep]
        simp [part, hq, hr, hsel, SnoopLog.append, hkeep.data hd]
      · simp only [Serves, hstep, hsel]
        exact ⟨⟨hkeep.crResp, hkeep.data⟩, hd⟩
    · refine .inr ⟨?_, by simp [hstep, hsel]⟩
      rw [hev]
      simp [part, hq, hr, hsel, SnoopLog.append, SnoopLog.ofSnoop, Snoop.beats, hd, hkeep.data hd]

/-- Every cycle takes the snoop in progress one stage further, or leaves it where it is. -/
theorem goes (h : Serves t s) (he : i.enable = true) : Goes t s i := by
  have hserve := h
  simp only [Serves] at hserve
  cases hq : s.snoop.state <;> simp only [hq] at hserve
  case idle => exact goes_idle he hq
  case waitGnt => exact goes_waitGnt h hq
  case evalFlags => exact goes_evalFlags h hq
  case updateShared => exact goes_of_writing h hserve.1 (.inl ⟨hq, hserve.2⟩)
  case invalidate => exact goes_of_writing h hserve.1 (.inr ⟨hq, hserve.2⟩)
  case sendCrResp => exact goes_sendCrResp h hq
  case sendCdResp => exact goes_sendCdResp h hq

theorem snoopInv_step {g : SnoopLog} (h : SnoopInv s g) (he : i.enable = true) :
    SnoopInv (s.step i) (g.append (s.events i)) := by
  obtain ⟨past, t, rfl, hs⟩ := h
  rw [SnoopLog.append_assoc]
  rcases goes hs he with ⟨t', hd, hs'⟩ | ⟨hd, hq⟩
  · exact ⟨past, t', by rw [hd], hs'⟩
  · refine ⟨past ++ [t], t, ?_, by simp [Serves, hq]⟩
    rw [hd, SnoopLog.served_append]
    simp [part, hq]

theorem snoopInv_reachable {x : SnoopSide × SnoopLog} (h : watched.Reachable (fun _ i => i.enable = true) x) :
    SnoopInv x.1 x.2 := by
  refine Machine.Reachable.invariant (P := fun x : SnoopSide × SnoopLog => SnoopInv x.1 x.2) (fun x h0 => ?_)
    (fun x i hx he => snoopInv_step hx he) h
  have hq : x.1.snoop.state = .idle := by rw [show x.1.snoop = .reset from h0.1]; rfl
  refine ⟨[], ⟨.readOnce, ⟨0, 0, 0⟩, fun _ => .zero⟩, ?_, by simp [Serves, hq]⟩
  rw [h0.2]
  simp [part, hq, SnoopLog.served]

/-- The response follows when the line has been dealt with, and the data follow the response. -/
theorem part_spec (h : Serves t s) (hq : s.snoop.state ≠ .idle) :
    (part t s.snoop).IsPrefix (.ofSnoop t) ∧ (part t s.snoop).acs = [(t.code, t.addr)] ∧
      ((part t s.snoop).crs ≠ [] → (part t s.snoop).lookups = t.lookups ∧ (part t s.snoop).writes = t.effects) ∧
      ((part t s.snoop).cds ≠ [] → (part t s.snoop).crs = [t.cr]) := by
  simp only [Serves] at h
  cases hs : s.snoop.state <;> simp only [hs] at h hq
  case idle => exact absurd rfl hq
  case sendCdResp =>
    have hbeats : t.beats = [(t.data.word false, false), (t.data.word true, true)] := by simp [Snoop.beats, h.2]
    refine ⟨?_, by simp [part, hs], by simp [part, hs], by simp [part, hs]⟩
    cases hw : s.snoop.cachelineWordSel <;> constructor <;> simp [part, hs, hw, SnoopLog.ofSnoop, hbeats]
  all_goals
    refine ⟨?_, by simp [part, hs], by simp [part, hs], by simp [part, hs]⟩
    constructor <;> simp [part, hs, SnoopLog.ofSnoop]

/-! ### Progress -/

/-- The stages a snoop has before it. -/
def stagesLeft (q : SnoopCtrl) : ℕ :=
  match q.state with
  | .idle => 0
  | .sendCdResp => if q.cachelineWordSel then 1 else 2
  | .sendCrResp => 3
  | .updateShared | .invalidate => 4
  | .evalFlags => 5
  | .waitGnt => 6

/-- What the stage waits for is there. -/
def moves (q : SnoopCtrl) (i : SideIn) : Bool :=
  match q.state with
  | .idle => false
  | .waitGnt => !i.updatingCache && !(i.others 0).active
  | .evalFlags => true
  | .updateShared | .invalidate => !(i.others 0).active
  | .sendCrResp => i.snoopPort.crReady
  | .sendCdResp => i.snoopPort.cdReady

/-- Nothing is withheld for ever: the array, the snoop's turn at it, and the interconnect's readies. -/
structure Fair (u : ℕ → SideIn) : Prop where
  array : ∀ n, ∃ m, n ≤ m ∧ (u m).updatingCache = false ∧ ((u m).others 0).active = false
  cr : ∀ n, ∃ m, n ≤ m ∧ (u m).snoopPort.crReady = true
  cd : ∀ n, ∃ m, n ≤ m ∧ (u m).snoopPort.cdReady = true

/-- Only the miss handler comes before the snoop port. -/
theorem gnt_eq : s.gnt i = !(i.others 0).active := by
  rw [gnt, Bool.eq_iff_iff, gnt_iff]
  simp only [ports, Bool.not_eq_true']
  constructor
  · intro h
    simpa using h 0 (by decide)
  · intro h j hj
    obtain rfl : j = 0 := (Fin.lt_one_iff j).mp hj
    simpa using h

theorem step_of_waits (hq : s.snoop.state ≠ .idle) (h : moves s.snoop i = false) : (s.step i).snoop = s.snoop := by
  rw [snoop_step, gnt_eq]
  cases hs : s.snoop.state <;> simp_all [moves, SnoopCtrl.step, snoopIn]

theorem stagesLeft_of_moves (h : moves s.snoop i = true) : stagesLeft (s.step i).snoop < stagesLeft s.snoop := by
  rw [snoop_step, gnt_eq]
  cases hs : s.snoop.state <;> simp only [moves, hs] at h <;>
    simp only [stagesLeft, SnoopCtrl.step, SnoopCtrl.stepEvalFlags, evalFlags, snoopIn, hs] <;> grind

/-- What a snoop waits for comes, and finds it waiting. -/
theorem exists_moves {u : ℕ → SideIn} (hf : Fair u) (x : SnoopSide × SnoopLog) (n : ℕ)
    (hq : (watched.states x u n).1.snoop.state ≠ .idle) : ∃ m, n ≤ m ∧
      (watched.states x u m).1.snoop = (watched.states x u n).1.snoop ∧
        moves (watched.states x u m).1.snoop (u m) = true := by
  have hex : ∃ m, n ≤ m ∧ moves (watched.states x u n).1.snoop (u m) = true := by
    cases hs : (watched.states x u n).1.snoop.state <;> simp only [moves, hs]
    case idle => exact absurd hs hq
    case evalFlags => exact ⟨n, le_rfl, trivial⟩
    case sendCrResp => exact hf.cr n
    case sendCdResp => exact hf.cd n
    all_goals
      obtain ⟨m, hm, hu, ha⟩ := hf.array n
      exact ⟨m, hm, by simp [hu, ha]⟩
  obtain ⟨m, hm, hstay, hmoves⟩ := exists_event (t := n)
    (Q := fun m => (watched.states x u m).1.snoop = (watched.states x u n).1.snoop) rfl hex fun m hstay hno => by
      rw [← hstay] at hno hq
      exact (step_of_waits hq (by simpa using hno)).trans hstay
  exact ⟨m, hm, hstay, hstay ▸ hmoves⟩

/-- A snoop that is not withheld anything is finished. -/
theorem exists_idle {u : ℕ → SideIn} (hf : Fair u) (x : SnoopSide × SnoopLog) :
    ∃ n, (watched.states x u n).1.snoop.state = .idle := by
  have hle : (∀ n, ¬ (watched.states x u n).1.snoop.state = .idle) → ∀ n,
      stagesLeft (watched.states x u (n + 1)).1.snoop ≤ stagesLeft (watched.states x u n).1.snoop := by
    intro hno n
    change stagesLeft ((watched.states x u n).1.step (u n)).snoop ≤ _
    cases hm : moves (watched.states x u n).1.snoop (u n)
    · rw [step_of_waits (hno n) hm]
    · exact (stagesLeft_of_moves hm).le
  have hlt : (∀ n, ¬ (watched.states x u n).1.snoop.state = .idle) → ∀ n, ∃ m, n ≤ m ∧
      stagesLeft (watched.states x u (m + 1)).1.snoop < stagesLeft (watched.states x u m).1.snoop := by
    intro hno n
    obtain ⟨m, hm, -, hmoves⟩ := exists_moves hf x n (hno n)
    exact ⟨m, hm, stagesLeft_of_moves hmoves⟩
  obtain ⟨n, hn, -⟩ := exists_first_of_measure (μ := fun n => stagesLeft (watched.states x u n).1.snoop) hle hlt
  exact ⟨n, hn⟩

theorem reachable_states {ok : SnoopSide × SnoopLog → SideIn → Prop} {x : SnoopSide × SnoopLog}
    (h : watched.Reachable ok x) {u : ℕ → SideIn} (hu : ∀ y n, ok y (u n)) (n : ℕ) :
    watched.Reachable ok (watched.states x u n) := by
  induction n with
  | zero => exact h
  | succ n ih => exact .step (u n) ih (hu _ n)

/-- Every snoop is answered as its line was at the lookup: one at a time, in order, once and completely. -/
theorem snoop_protocol {x : SnoopSide × SnoopLog} (h : watched.Reachable (fun _ i => i.enable = true) x) :
    (∃ (past cur : List Snoop) (d : SnoopLog), x.2 = (SnoopLog.served past).append d ∧
      cur.length = x.1.snoop.busy.toNat ∧ d.IsPrefix (.served cur) ∧ d.acs = (SnoopLog.served cur).acs ∧
      (d.crs ≠ [] → d.lookups = (SnoopLog.served cur).lookups ∧ d.writes = (SnoopLog.served cur).writes) ∧
      (d.cds ≠ [] → d.crs = (SnoopLog.served cur).crs)) ∧
    (∀ i, (x.1.resp i).acReady = true → x.1.snoop.busy = false) ∧
    (∀ u, (∀ n, (u n).enable = true) → Fair u → ∃ n past, (watched.states x u n).2 = .served past) ∧
    (∀ (t : Snoop) w, (∀ v, t.hits v = (v == w)) → t.found = true ∧ t.data = (t.lines w).data ∧
      t.dirty = anyByte (t.lines w).dirty ∧ t.shared = (t.lines w).shared) := by
  have hone : ∀ t, SnoopLog.served [t] = SnoopLog.ofSnoop t := fun t => by simp [SnoopLog.served]
  refine ⟨?_, fun i hi => ?_, fun u he hf => ?_, fun t w => t.of_single⟩
  · obtain ⟨past, t, hd, hs⟩ := snoopInv_reachable h
    by_cases hq : x.1.snoop.state = .idle
    · refine ⟨past, [], .empty, by simpa [part, hq] using hd, by simp [SnoopCtrl.busy, hq], ?_⟩
      refine ⟨by constructor <;> simp [SnoopLog.empty], ?_⟩
      simp [SnoopLog.served, SnoopLog.empty]
    · obtain ⟨hpre, hac, hcr, hcd⟩ := part_spec hs hq
      refine ⟨past, [t], _, hd, by simp [SnoopCtrl.busy, beq_eq_false_iff_ne.mpr hq], ?_⟩
      rw [hone]
      exact ⟨hpre, hac, hcr, hcd⟩
  · have hi' : x.1.snoop.accepts (x.1.snoopIn i) = true := hi
    simp only [SnoopCtrl.accepts, SnoopCtrl.acReady, Bool.and_eq_true, beq_iff_eq] at hi'
    simp [SnoopCtrl.busy, hi'.1.1.1]
  · obtain ⟨n, hn⟩ := exists_idle hf x
    obtain ⟨past, t, hd, -⟩ := snoopInv_reachable (reachable_states h (fun _ => he) n)
    exact ⟨n, past, by simpa [part, hn] using hd⟩

section Runs

/-- A cache that holds one line, in way 3 of set 1. -/
def oneLine : SnoopSide :=
  ⟨.reset, fun idx w => if idx = 1 ∧ w = 3 then { CacheLine.zero with tag := 5, valid := true } else .zero,
    ⟨fun _ => .zero, fun _ => 0, 0⟩, none⟩

/-- A cycle in which nothing else wants the array. -/
def freeSide (ac : Bool) : SideIn :=
  ⟨true, ⟨ac, ⟨5, 1, 0⟩, .readShared, true, true⟩, false, false, ⟨0, 0, 0⟩, false, fun _ => .idle, 0⟩

/-- The line is read by another core, up to the first word. -/
def afterReadShared : SnoopSide × SnoopLog :=
  watched.run (oneLine, .empty) [freeSide true, freeSide false, freeSide true, freeSide false, freeSide true,
    freeSide true]

set_option maxRecDepth 10000 in
theorem snoop_protocol_readShared :
    afterReadShared.2.crs = [⟨true, false, false, true⟩] ∧ afterReadShared.2.cds.map Prod.snd = [false] ∧
      (afterReadShared.1.arr 1 3).shared = true ∧
      ∃ (past cur : List Snoop) (d : SnoopLog), afterReadShared.2 = (SnoopLog.served past).append d ∧
        cur.length = 1 := by
  have hreset : watched.Reachable (fun _ i => i.enable = true) (oneLine, .empty) := .init ⟨rfl, rfl⟩
  have hr : watched.Reachable (fun _ i => i.enable = true) afterReadShared := hreset.run (by decide +kernel)
  have hbusy : afterReadShared.1.snoop.busy = true := by decide +kernel
  obtain ⟨past, cur, d, hd, hcur, -⟩ := (snoop_protocol hr).1
  rw [hbusy] at hcur
  exact ⟨by decide +kernel, by decide +kernel, by decide +kernel, past, cur, d, hd, hcur⟩

end Runs

end SnoopSide

/-! ### The snoop side of the cache -/

namespace Nbdcache
variable {c : Cfg} {s : Nbdcache} {i : CacheIn}

def side (s : Nbdcache) : SnoopSide := ⟨s.snoop, s.arr, s.rd, s.idq⟩

/-- What the rest of the cache does to its snoop side. -/
def sideIn (c : Cfg) (s : Nbdcache) (i : CacheIn) : SideIn where
  enable := i.enable
  snoopPort := i.snoopPort
  flushing := s.miss.flushingO
  amoValid := s.miss.serveAmo
  amoAddr := i.amoReq.operandA
  updatingCache := s.updatingCache c i
  others := s.ports c i
  otherTag := s.selTag i

theorem side_snoopIn : s.side.snoopIn (sideIn c s i) = s.snoopIn c i := by
  have htag : s.side.selTag (sideIn c s i) = s.selTag i := by
    by_cases h : s.idq = some 1 <;> simp [SnoopSide.selTag, side, sideIn, selTag, h]
  simp only [SnoopSide.snoopIn, htag, snoopIn]
  rfl

/-- The cache moves its snoop side as `SnoopSide` does. -/
theorem side_step : (s.step c i).side = s.side.step (sideIn c s i) := by
  have hport : s.side.port (sideIn c s i) = s.snoopPort c i := by
    rw [SnoopSide.port, side_snoopIn]
    rfl
  have hports : s.side.ports (sideIn c s i) = s.ports c i := by
    funext k
    rw [SnoopSide.ports, hport]
    split_ifs with hk
    · rw [hk]
      rfl
    · rfl
  simp only [SnoopSide.step, SnoopSide.gnt, SnoopSide.ramPort, side_snoopIn, hports]
  rfl

/-- Every run of the enabled cache is an observed run of its snoop side. -/
theorem side_reachable (h : (machine c).Reachable (fun _ i => i.enable = true) s) :
    ∃ g, SnoopSide.watched.Reachable (fun _ i => i.enable = true) (s.side, g) := by
  induction h with
  | init h0 => exact ⟨.empty, .init ⟨h0.snoop, rfl⟩⟩
  | @step s i _ he ih =>
    obtain ⟨g, hg⟩ := ih
    have hnext := Machine.Reachable.step (M := SnoopSide.watched) (sideIn c s i) hg he
    refine ⟨g.append (s.side.events (sideIn c s i)), ?_⟩
    have hstep : (machine c).next s i = s.step c i := rfl
    rw [hstep, side_step]
    exact hnext

end Nbdcache
end Culsans.Dcache
