import Culsans.Library.Progress
import Culsans.Dcache.Maintenance

/-! # Write-backs and the sweep of a flush

A write-back is a burst of an address, two beats and a response, which the bus may
take in any order and at any time. The flush looks a set up, writes back its first
dirty way, and looks it up again until no dirty way is left; then it clears the set
and goes on. What is left to do is counted, so that only the bus can hold a flush up.
-/

namespace Culsans.Dcache

namespace AxiAdapter
variable {q : AxiAdapter 1} {r : AdapterReq 1} {a : AxiResp}

/-- The address of a line burst. -/
def lineAw (r : AdapterReq 1) : AwChan :=
  ⟨r.addr, 1, r.size, false, r.id, .none, (awSnoop r.transType).1, (awSnoop r.transType).2⟩

/-- The two data beats of a line burst. -/
def lineBeat (r : AdapterReq 1) (k : Fin 2) : WChan := ⟨r.wdata k, r.be k, k == 1⟩

/-- The address of the burst, while it has not been taken. -/
def awsLeft (q : AxiAdapter 1) (r : AdapterReq 1) : List AwChan :=
  match q.state with
  | .idle | .waitLastWReadyAwReady | .waitAwReadyBurst => [lineAw r]
  | _ => []

/-- The beats of the burst that have not been taken. -/
def beatsLeft (q : AxiAdapter 1) (r : AdapterReq 1) : List WChan :=
  match q.state with
  | .idle => [lineBeat r 0, lineBeat r 1]
  | .waitLastWReady | .waitLastWReadyAwReady =>
    if q.cnt = 0 then [lineBeat r 1] else [lineBeat r 0, lineBeat r 1]
  | _ => []

/-- Handshakes a line burst still needs, the response included. -/
def handshakesLeft (q : AxiAdapter 1) (r : AdapterReq 1) : ℕ :=
  (q.awsLeft r).length + (q.beatsLeft r).length + 1

end AxiAdapter

/-- The AW handshake of a cycle, as a list of at most one. -/
def awTaken (o : AxiReq) (a : AxiResp) : List AwChan := if o.awValid && a.awReady then [o.aw] else []
def wTaken (o : AxiReq) (a : AxiResp) : List WChan := if o.wValid && a.wReady then [o.w] else []

namespace AxiAdapter
variable {q : AxiAdapter 1} {r : AdapterReq 1} {a : AxiResp}

/-- The adapter is at some point of a line write, its beat counter in range. -/
structure LineWrite (q : AxiAdapter 1) : Prop where
  amo : q.amo = .none
  state : q.state = .idle ∨ q.writing = true
  cnt : q.cnt ≤ 1

/-- The request the miss handler makes for a write-back. -/
structure AsksLine (r : AdapterReq 1) : Prop where
  req : r.req = true
  we : r.we = true
  type : r.type = .cacheLineReq
  amo : r.amo = .none

/-- Until the response, what the cycle sends is taken off the front of what is left. -/
theorem lineWrite_step (h : q.LineWrite) (hr : AsksLine r) (hv : q.valid a = false) :
    q.awsLeft r = awTaken (q.axiReq r a) a ++ (q.step r a).awsLeft r ∧
      q.beatsLeft r = wTaken (q.axiReq r a) a ++ (q.step r a).beatsLeft r ∧ (q.step r a).LineWrite := by
  obtain ⟨ham, hs, hc⟩ := h
  obtain ⟨hreq, hwe, hty, hra⟩ := hr
  have hcnt : q.cnt = 0 ∨ q.cnt = 1 := by omega
  have hamo : (q.step r a).amo = .none := step_amo ham hra
  simp only [writing, Bool.or_eq_true, beq_iff_eq] at hs
  rcases hs with hs | ((hs | hs) | hs) | hs
  · cases haw : a.awReady <;> cases hw : a.wReady <;>
      refine ⟨?_, ?_, hamo, ?_, ?_⟩ <;>
      simp [awsLeft, beatsLeft, awTaken, wTaken, axiReq, step, stepState, stepIdle, lineAw, lineBeat, pick,
        writing, atopFromAmo, hs, hreq, hwe, hty, hra, haw, hw]
  · cases hw : a.wReady <;> rcases hcnt with hcnt | hcnt <;> refine ⟨?_, ?_, hamo, ?_, ?_⟩ <;>
      simp [awsLeft, beatsLeft, awTaken, wTaken, axiReq, step, stepState, lineBeat, pick,
        writing, atopFromAmo, hs, hty, hra, hw, hcnt]
  · cases haw : a.awReady <;> cases hw : a.wReady <;> rcases hcnt with hcnt | hcnt <;>
      refine ⟨?_, ?_, hamo, ?_, ?_⟩ <;>
      simp [awsLeft, beatsLeft, awTaken, wTaken, axiReq, step, stepState, lineAw, lineBeat, pick,
        writing, atopFromAmo, hs, hty, hra, haw, hw, hcnt]
  · cases haw : a.awReady <;> refine ⟨?_, ?_, hamo, ?_, ?_⟩ <;>
      simp [awsLeft, beatsLeft, awTaken, wTaken, axiReq, step, stepState, lineAw,
        writing, atopFromAmo, hs, hra, haw, hc]
  · have hb : a.bValid = false := by
      simpa [valid, hs, ham, amoReturnsData, atopFromAmo] using hv
    refine ⟨?_, ?_, hamo, ?_, ?_⟩ <;>
      simp [awsLeft, beatsLeft, awTaken, wTaken, axiReq, step, stepState, writing, hs, hb, hc]

/-- The response comes when nothing is left to send, and frees the adapter. -/
theorem lineWrite_done (h : q.LineWrite) (hv : q.valid a = true) :
    q.awsLeft r = [] ∧ q.beatsLeft r = [] ∧ awTaken (q.axiReq r a) a = [] ∧
      wTaken (q.axiReq r a) a = [] ∧ (q.step r a).LineWrite ∧ (q.step r a).state = .idle := by
  have hs : q.state = .waitBValid := by
    have hw := h.state
    simp only [writing, Bool.or_eq_true, beq_iff_eq] at hw
    rcases hw with hw | ((hw | hw) | hw) | hw
    · simp [valid, hw] at hv
    · simp [valid, hw] at hv
    · simp [valid, hw] at hv
    · simp [valid, hw] at hv
    · exact hw
  have hb : a.bValid = true := by simpa [valid, hs, h.amo, amoReturnsData, atopFromAmo] using hv
  have hi : (q.step r a).state = .idle := by
    simp [step, stepState, hs, hb, h.amo, amoReturnsData, atopFromAmo]
  refine ⟨by simp [awsLeft, hs], by simp [beatsLeft, hs], by simp [awTaken, axiReq, hs],
    by simp [wTaken, axiReq, hs], ⟨?_, .inl hi, ?_⟩, hi⟩
  · simp [step, stepState, hs, hb, h.amo]
  · simpa [step, stepState, hs, hb] using h.cnt

/-- Without a request the idle adapter stays as it is and sends nothing. -/
theorem lineWrite_rest (h : q.LineWrite) (hi : q.state = .idle) (hr : r.req = false) :
    awTaken (q.axiReq r a) a = [] ∧ wTaken (q.axiReq r a) a = [] ∧ (q.step r a).LineWrite ∧
      (q.step r a).state = .idle := by
  have hi' := step_idle_none (a := a) hi hr
  refine ⟨by simp [awTaken, axiReq, hi, hr], by simp [wTaken, axiReq, hi, hr], ⟨?_, .inl hi', ?_⟩, hi'⟩
  · simp [step, stepState, stepIdle, hi, hr, h.amo]
  · simp [step, stepState, stepIdle, hi, hr]

/-- What is left to send is offered. -/
theorem awValid_of_left (hr : AsksLine r) (hl : q.awsLeft r ≠ []) : (q.axiReq r a).awValid = true := by
  cases hs : q.state <;> simp_all [awsLeft, axiReq, hr.req, hr.we]

theorem wValid_of_left (hr : AsksLine r) (hl : q.beatsLeft r ≠ []) : (q.axiReq r a).wValid = true := by
  cases hs : q.state <;> simp_all [beatsLeft, axiReq, hr.req, hr.we]

theorem waitB_of_left (h : q.LineWrite) (ha : q.awsLeft r = []) (hb : q.beatsLeft r = []) :
    q.state = .waitBValid := by
  have hw := h.state
  simp only [writing, Bool.or_eq_true, beq_iff_eq] at hw
  rcases hw with hw | ((hw | hw) | hw) | hw
  · simp [awsLeft, hw] at ha
  · simp only [beatsLeft, hw] at hb
    split_ifs at hb
  · simp [awsLeft, hw] at ha
  · simp [awsLeft, hw] at ha
  · exact hw

end AxiAdapter

/-! ## The lines still to be written back -/

namespace CacheArray

/-- Every line of the array, in the order of the sweep. -/
def positions : List (Index × Way) :=
  (List.finRange (2 ^ 8)).flatMap fun k => (List.finRange 8).map fun w => (BitVec.ofFin k, w)

/-- The order of the sweep: by set, then by way. -/
def Before (x y : Index × Way) : Prop := x.1 < y.1 ∨ (x.1 = y.1 ∧ x.2 < y.2)

instance : Std.Irrefl Before where
  irrefl x h := by
    rcases h with h | ⟨-, h⟩
    · exact BitVec.lt_irrefl _ h
    · exact lt_irrefl _ h

theorem mem_positions (x : Index × Way) : x ∈ positions := by
  simp only [positions, List.mem_flatMap, List.mem_map]
  exact ⟨x.1.toFin, List.mem_finRange _, x.2, List.mem_finRange _, rfl⟩

theorem positions_pairwise : positions.Pairwise Before := by
  rw [positions, List.pairwise_flatMap]
  constructor
  · intro k _
    rw [List.pairwise_map]
    exact (List.pairwise_lt_finRange 8).imp fun h => .inr ⟨rfl, h⟩
  · refine (List.pairwise_lt_finRange (2 ^ 8)).imp fun {k l} h => ?_
    intro x hx y hy
    obtain ⟨w, -, rfl⟩ := List.mem_map.mp hx
    obtain ⟨v, -, rfl⟩ := List.mem_map.mp hy
    exact .inl (by simpa [BitVec.lt_def] using h)

/-- The line is valid with a dirty byte. -/
def dirtyAt (m : CacheArray) (x : Index × Way) : Bool :=
  (m x.1 x.2).valid && anyByte (m x.1 x.2).dirty

/-- The write-back of a line: its address and its contents. -/
def lineAt (m : CacheArray) (x : Index × Way) : PAddr × CacheLine :=
  (⟨(m x.1 x.2).tag, x.1, 0⟩, m x.1 x.2)

/-- The dirty lines with their addresses, in the order of the sweep. -/
def dirtyLines (m : CacheArray) : List (PAddr × CacheLine) :=
  (positions.filter m.dirtyAt).map m.lineAt

/-- Every status bit of the line is clear. -/
def Blank (l : CacheLine) : Prop := l.valid = false ∧ ∀ b, l.dirty b = false

/-- Taking the first dirty line away. -/
theorem dirtyLines_eq_cons {m m' : CacheArray} {x : Index × Way} (hd : m.dirtyAt x = true)
    (hb : ∀ y, Before y x → m.dirtyAt y = false) (hx : m'.dirtyAt x = false)
    (ho : ∀ y, y ≠ x → m' y.1 y.2 = m y.1 y.2) : m.dirtyLines = m.lineAt x :: m'.dirtyLines := by
  have hd' : ∀ y, y ≠ x → m'.dirtyAt y = m.dirtyAt y := by
    intro y hy
    simp only [dirtyAt, ho y hy]
  rw [dirtyLines, Library.filter_eq_cons_of_first positions_pairwise (mem_positions x) hd hb hx hd',
    List.map_cons, dirtyLines]
  congr 1
  apply List.map_congr_left
  intro y hy
  have hne : y ≠ x := by
    rintro rfl
    simp [hx] at hy
  simp only [lineAt, ho y hne]

/-- Lines that are not dirty may change as long as they do not become dirty. -/
theorem dirtyLines_congr {m m' : CacheArray} (hd : ∀ y, m'.dirtyAt y = m.dirtyAt y)
    (ho : ∀ y, m.dirtyAt y = true → m' y.1 y.2 = m y.1 y.2) : m'.dirtyLines = m.dirtyLines := by
  rw [dirtyLines, dirtyLines, funext hd]
  apply List.map_congr_left
  intro y hy
  simp only [lineAt, ho y (List.mem_filter.mp hy).2]

theorem dirtyLines_eq_nil {m : CacheArray} (h : ∀ y, m.dirtyAt y = false) : m.dirtyLines = [] := by
  simp [dirtyLines, h]

/-- The number of dirty lines. -/
def dirtyCount (m : CacheArray) : ℕ := (positions.filter m.dirtyAt).length

theorem dirtyCount_le {m k : CacheArray} (h : ∀ y, k.dirtyAt y = true → m.dirtyAt y = true) :
    k.dirtyCount ≤ m.dirtyCount :=
  (List.monotone_filter_right positions h).length_le

theorem dirtyCount_lt {m k : CacheArray} (h : ∀ y, k.dirtyAt y = true → m.dirtyAt y = true)
    {x : Index × Way} (hx : m.dirtyAt x = true) (hk : k.dirtyAt x = false) : k.dirtyCount < m.dirtyCount := by
  have hf : positions.filter k.dirtyAt = (positions.filter m.dirtyAt).filter k.dirtyAt := by
    rw [List.filter_filter]
    apply List.filter_congr
    intro y _
    cases hy : k.dirtyAt y
    · rfl
    · simp [h y hy]
  rw [dirtyCount, dirtyCount, hf, List.length_filter_lt_length_iff_exists]
  exact ⟨x, List.mem_filter.mpr ⟨mem_positions x, hx⟩, by simp [hk]⟩

theorem length_positions : positions.length = 2048 := by
  simp only [positions, List.length_flatMap, List.length_map, List.length_finRange, List.map_const',
    List.sum_replicate, smul_eq_mul]

theorem dirtyCount_le_lines (m : CacheArray) : m.dirtyCount ≤ 2048 :=
  length_positions ▸ List.length_filter_le _ _

end CacheArray

/-! ## The sweep -/

namespace Nbdcache
open Library MissHandler CacheArray

variable {c : Cfg} {s : Nbdcache} {i : CacheIn}

/-- The request side of the refill adapter in one cycle. -/
def axiOut (c : Cfg) (s : Nbdcache) (i : CacheIn) : AxiReq := s.axi.axiReq (s.miss.axiReq c) i.axiData

/-- Nobody but the miss handler can write the array. -/
structure Undisturbed (s : Nbdcache) : Prop where
  snoop : s.snoop.state = .idle
  ctrl : ∀ p, (s.ctrl p).state ≠ .storeReq

theorem undisturbed_of_busy (h : s.busy = false) : s.Undisturbed :=
  ⟨snoop_idle_of_busy h, fun p => by simp [ctrl_idle_of_busy h p]⟩

theorem arr_of_undisturbed (h : s.Undisturbed) (hs : s.miss.saves (s.missIn c i) = false) (idx : Index)
    (w : Way) : (s.step c i).arr idx w = s.arr idx w ∨
      ∃ ways, s.miss.cleared (s.missIn c i) = some (idx, ways) ∧ ways w = true ∧
        (s.step c i).arr idx w = (s.arr idx w).invalidated := by
  have he := step_line c s i idx w
  generalize (s.step c i).arr idx w = l at he
  cases he with
  | keep => exact .inl rfl
  | save hsv => simp [hs] at hsv
  | clear ways hc hw => exact .inr ⟨ways, hc, hw, rfl⟩
  | share hsn => simp [h.snoop] at hsn
  | invalidate hsn => simp [h.snoop] at hsn
  | store p hst => simp [storeGranted, CacheCtrl.storing, h.ctrl p] at hst

theorem arr_kept (h : s.Undisturbed) (hs : s.miss.saves (s.missIn c i) = false)
    (hc : s.miss.cleared (s.missIn c i) = none) : (s.step c i).arr = s.arr := by
  funext idx w
  rcases arr_of_undisturbed h hs idx w with he | ⟨ways, hcl, -⟩
  · exact he
  · simp [hc] at hcl

/-- The array once the given ways of a set are cleared. -/
def clearedArr (m : CacheArray) (idx : Index) (ways : WaySet) : CacheArray :=
  fun k w => if k = idx ∧ ways w = true then (m k w).invalidated else m k w

theorem arr_of_cleared (h : s.Undisturbed) (hs : s.miss.saves (s.missIn c i) = false) {idx : Index}
    {ways : WaySet} (hc : s.miss.cleared (s.missIn c i) = some (idx, ways)) :
    (s.step c i).arr = clearedArr s.arr idx ways := by
  funext k w
  by_cases hk : k = idx
  · subst hk
    rw [step_arr_of_cleared hc w]
    simp [clearedArr]
  · rcases arr_of_undisturbed h hs k w with he | ⟨ways', hcl, -⟩
    · simp [clearedArr, hk, he]
    · rw [hc] at hcl
      simp_all

theorem dirtyAt_of_clearedArr {m : CacheArray} {idx : Index} {ways : WaySet} {y : Index × Way}
    (h : (clearedArr m idx ways).dirtyAt y = true) : m.dirtyAt y = true := by
  simp only [dirtyAt, clearedArr] at h
  split_ifs at h
  · simp [CacheLine.invalidated] at h
  · exact h

/-! ### How long a flush takes -/

/-- The cycles the flush still needs, those in which it waits for the bus not counted. A set is looked up
and judged once more than it has dirty lines; each of these takes a burst of at most four handshakes. -/
def flushEffort (c : Cfg) (s : Nbdcache) : ℕ :=
  2 * (255 - s.miss.cnt.toNat) +
    if s.miss.state = .wbCachelineFlush then
      7 * (clearedArr s.arr s.miss.cnt s.miss.evictWay).dirtyCount + 2 + s.axi.handshakesLeft (s.miss.axiReq c)
    else 7 * s.arr.dirtyCount + if s.miss.state = .flushReqStatus then 2 else 1

/-- A write-back waits for the bus in this cycle. -/
def waitsForBus (c : Cfg) (s : Nbdcache) (i : CacheIn) : Prop :=
  s.miss.writingBack = true ∧ awTaken (s.axiOut c i) i.axiData = [] ∧
    wTaken (s.axiOut c i) i.axiData = [] ∧ s.axi.valid i.axiData = false

/-- A flush that nothing disturbs. -/
structure Sweeping (s : Nbdcache) : Prop where
  flushes : s.miss.flushes = true
  quiet : s.Undisturbed
  axi : s.axi.LineWrite
  look : s.miss.state = .flushing → ∀ w, s.rd.rdata w = s.arr s.miss.cnt w
  rest : s.miss.state ≠ .wbCachelineFlush → s.axi.state = .idle

/-- The request of a write-back, as the adapter sees it. -/
theorem asksLine_of_writingBack (h : s.miss.writingBack = true) : AxiAdapter.AsksLine (s.miss.axiReq c) :=
  ⟨(axiReq_write h).1, (axiReq_write h).2, axiReq_type c s.miss, axiReq_amo c s.miss⟩

/-- Outside of a write-back a sweep leaves the adapter alone. -/
theorem sweep_rest (h : s.Sweeping) (hq : s.miss.state ≠ .wbCachelineFlush) :
    awTaken (s.axiOut c i) i.axiData = [] ∧ wTaken (s.axiOut c i) i.axiData = [] ∧
      (s.step c i).axi.LineWrite ∧ (s.step c i).axi.state = .idle := by
  have hfl := h.flushes
  have hr : (s.miss.axiReq c).req = false := by
    apply axiReq_rest <;> simp only [MissHandler.flushes, writingBack] at * <;> grind
  exact AxiAdapter.lineWrite_rest (a := i.axiData) h.axi (h.rest hq) hr

/-- The dirty ways the flush sees are those of the array. -/
theorem dirtyWay_of_sweep (h : s.Sweeping) (hq : s.miss.state = .flushing) :
    MissHandler.dirtyWay (s.missIn c i) = fun w => s.arr.dirtyAt (s.miss.cnt, w) := by
  funext w
  have hr : (s.missIn c i).rdata w = s.arr s.miss.cnt w := h.look hq w
  simp [MissHandler.dirtyWay, dirtyAt, hr]

/-- While the burst is sent, its handshakes are taken off what is left. -/
theorem back_send (ha : s.axi.LineWrite) (hw : s.miss.writingBack = true)
    (hv : s.axi.valid i.axiData = false) :
    (s.step c i).miss = { s.miss with collidingClean := s.miss.detectClean (s.missIn c i) } ∧
      (s.step c i).miss.axiReq c = s.miss.axiReq c ∧ (s.step c i).axi.LineWrite ∧
      s.axi.awsLeft (s.miss.axiReq c) =
        awTaken (s.axiOut c i) i.axiData ++ (s.step c i).axi.awsLeft (s.miss.axiReq c) ∧
      s.axi.beatsLeft (s.miss.axiReq c) =
        wTaken (s.axiOut c i) i.axiData ++ (s.step c i).axi.beatsLeft (s.miss.axiReq c) := by
  have hv' : (s.missIn c i).axi.valid = false := hv
  have hm : (s.step c i).miss = { s.miss with collidingClean := s.miss.detectClean (s.missIn c i) } := by
    simp only [writingBack, Bool.or_eq_true, beq_iff_eq] at hw
    rcases hw with (hw | hw) | hw <;> simp [step, MissHandler.step, hw, hv']
  obtain ⟨haw, hbt, hlw⟩ := AxiAdapter.lineWrite_step ha (asksLine_of_writingBack (c := c) hw) hv
  refine ⟨hm, ?_, hlw, haw, hbt⟩
  rw [hm]
  rfl

/-- A cycle of a burst sends something, or waits for the bus with everything left as it is. -/
theorem back_handshakes (ha : s.axi.LineWrite) (hw : s.miss.writingBack = true)
    (hv : s.axi.valid i.axiData = false) :
    (s.step c i).axi.handshakesLeft (s.miss.axiReq c) < s.axi.handshakesLeft (s.miss.axiReq c) ∨
      (s.waitsForBus c i ∧
        (s.step c i).axi.awsLeft (s.miss.axiReq c) = s.axi.awsLeft (s.miss.axiReq c) ∧
        (s.step c i).axi.beatsLeft (s.miss.axiReq c) = s.axi.beatsLeft (s.miss.axiReq c)) := by
  obtain ⟨-, -, -, haw, hbt⟩ := back_send (c := c) ha hw hv
  by_cases hno : awTaken (s.axiOut c i) i.axiData = [] ∧ wTaken (s.axiOut c i) i.axiData = []
  · rw [hno.1, List.nil_append] at haw
    rw [hno.2, List.nil_append] at hbt
    exact .inr ⟨⟨hw, hno.1, hno.2, hv⟩, haw.symm, hbt.symm⟩
  · left
    have h1 := congrArg List.length haw
    have h2 := congrArg List.length hbt
    simp only [List.length_append] at h1 h2
    have hpos : 0 < (awTaken (s.axiOut c i) i.axiData).length + (wTaken (s.axiOut c i) i.axiData).length := by
      rw [Nat.pos_iff_ne_zero]
      intro hz
      exact hno ⟨List.length_eq_zero_iff.mp (by omega), List.length_eq_zero_iff.mp (by omega)⟩
    simp only [AxiAdapter.handshakesLeft]
    omega

theorem effort_of_evict (h : s.Sweeping) (hq : s.miss.state = .flushing)
    (hd : anyWay (MissHandler.dirtyWay (s.missIn c i)) = true) :
    (s.step c i).flushEffort c < s.flushEffort c := by
  have hm : (s.step c i).miss = { s.miss with
      state := .wbCachelineFlush, collidingClean := s.miss.detectClean (s.missIn c i)
      evictWay := getVictimCl (MissHandler.dirtyWay (s.missIn c i))
      evictCl := s.rd.rdata (oneHotToBin (MissHandler.dirtyWay (s.missIn c i))) } := by
    simp only [step, MissHandler.step, hq, stepFlushing, hd, if_true]
    rfl
  have harr : (s.step c i).arr = s.arr := arr_kept h.quiet (by simp [saves, hq]) (by simp [cleared, hq, hd])
  have hi := (sweep_rest (c := c) (i := i) h (by simp [hq])).2.2.2
  have hdirty := oneHotToBin_spec hd
  rw [dirtyWay_of_sweep h hq] at hdirty
  have hlt := dirtyCount_lt (k := clearedArr s.arr s.miss.cnt (getVictimCl fun w => s.arr.dirtyAt (s.miss.cnt, w)))
    (fun _ => dirtyAt_of_clearedArr) hdirty (by simp [dirtyAt, clearedArr, getVictimCl, oneHot, CacheLine.invalidated])
  simp only [flushEffort, hm, harr, hq, AxiAdapter.handshakesLeft, AxiAdapter.awsLeft, AxiAdapter.beatsLeft, hi,
    dirtyWay_of_sweep h hq]
  simp
  omega

theorem toNat_succ_of_ne {k : Index} (h : k ≠ 255) : (k + 1).toNat = k.toNat + 1 ∧ k.toNat < 255 := by
  have hne : k.toNat ≠ 255 := fun he => h (BitVec.eq_of_toNat_eq he)
  have hlt := k.isLt
  constructor
  · rw [BitVec.toNat_add]
    change (k.toNat + 1) % 2 ^ 8 = _
    omega
  · omega

theorem effort_of_swept (h : s.Sweeping) (hq : s.miss.state = .flushing)
    (hd : anyWay (MissHandler.dirtyWay (s.missIn c i)) = false) (hn : (s.step c i).miss.flushes = true) :
    (s.step c i).flushEffort c < s.flushEffort c := by
  have hl : s.miss.cnt ≠ 255 := by
    intro hl
    simp only [step, MissHandler.step, hq, stepFlushing, hd, hl, flushes] at hn
    cases hs : s.miss.serveAmo <;> simp [hs] at hn
  have hm : (s.step c i).miss = { s.miss with
      state := .flushReqStatus, collidingClean := s.miss.detectClean (s.missIn c i)
      cnt := s.miss.cnt + 1 } := by
    have hl' : (s.miss.cnt == 255) = false := beq_eq_false_iff_ne.mpr hl
    simp only [step, MissHandler.step, hq, stepFlushing, hd, hl', Bool.false_and, Bool.false_eq_true, if_false]
  have harr : (s.step c i).arr = clearedArr s.arr s.miss.cnt allWays :=
    arr_of_cleared h.quiet (by simp [saves, hq]) (by simp [cleared, hq, hd])
  have hle := dirtyCount_le (m := s.arr) (k := clearedArr s.arr s.miss.cnt allWays) fun _ => dirtyAt_of_clearedArr
  obtain ⟨hnat, hlt⟩ := toNat_succ_of_ne hl
  simp only [flushEffort, hm, harr, hq, hnat]
  simp
  omega

theorem effort_of_send (h : s.Sweeping) (hq : s.miss.state = .wbCachelineFlush)
    (hv : s.axi.valid i.axiData = false) :
    (s.step c i).flushEffort c < s.flushEffort c ∨
      (s.waitsForBus c i ∧ (s.step c i).flushEffort c = s.flushEffort c) := by
  have hw : s.miss.writingBack = true := by simp [writingBack, hq]
  have hv' : (s.missIn c i).axi.valid = false := hv
  obtain ⟨hm, hreq, -, -, -⟩ := back_send (c := c) h.axi hw hv
  have harr : (s.step c i).arr = s.arr := arr_kept h.quiet (by simp [saves, hq]) (by simp [cleared, hq, hv'])
  have heff : ∀ n, (s.step c i).axi.handshakesLeft (s.miss.axiReq c) + n = s.axi.handshakesLeft (s.miss.axiReq c) →
      (s.step c i).flushEffort c + n = s.flushEffort c := by
    intro n hn
    simp only [flushEffort, hreq]
    rw [hm, harr]
    simp only [hq, if_true]
    omega
  rcases back_handshakes (c := c) h.axi hw hv with hlt | ⟨hwait, haw, hbt⟩
  · have he := heff _ (Nat.add_sub_cancel' hlt.le)
    omega
  · exact .inr ⟨hwait, by simpa using heff 0 (by simp [AxiAdapter.handshakesLeft, haw, hbt])⟩

theorem effort_of_sent (h : s.Sweeping) (hq : s.miss.state = .wbCachelineFlush)
    (hv : s.axi.valid i.axiData = true) : (s.step c i).flushEffort c < s.flushEffort c := by
  have hv' : (s.missIn c i).axi.valid = true := hv
  have hm : (s.step c i).miss = { s.miss with
      state := .flushReqStatus, collidingClean := s.miss.detectClean (s.missIn c i) } := by
    simp [step, MissHandler.step, hq, hv']
  have harr : (s.step c i).arr = clearedArr s.arr s.miss.cnt s.miss.evictWay :=
    arr_of_cleared h.quiet (by simp [saves, hq]) (by simp [cleared, hq, hv'])
  simp [flushEffort, hm, harr, hq, AxiAdapter.handshakesLeft]

/-- A sweep advances in every cycle in which it does not wait for the bus. -/
theorem sweep_effort (h : s.Sweeping) (hn : (s.step c i).miss.flushes = true) :
    (s.step c i).flushEffort c < s.flushEffort c ∨
      (s.waitsForBus c i ∧ (s.step c i).flushEffort c = s.flushEffort c) := by
  have hfl := h.flushes
  simp only [flushes, Bool.or_eq_true, beq_iff_eq] at hfl
  rcases hfl with (hq | hq) | hq
  · left
    have hm : (s.step c i).miss = { s.miss with
        state := .flushing, collidingClean := s.miss.detectClean (s.missIn c i) } := by
      simp [step, MissHandler.step, hq]
    have harr : (s.step c i).arr = s.arr := arr_kept h.quiet (by simp [saves, hq]) (by simp [cleared, hq])
    simp [flushEffort, hm, harr, hq]
  · left
    cases hd : anyWay (MissHandler.dirtyWay (s.missIn c i))
    · exact effort_of_swept h hq hd hn
    · exact effort_of_evict h hq hd
  · cases hv : s.axi.valid i.axiData
    · exact effort_of_send h hq hv
    · exact .inl (effort_of_sent h hq hv)

/-! ### Waiting for the bus -/

/-- The bus takes what a write-back offers and answers it, each after finitely many cycles. -/
structure Answers (c : Cfg) (x : ℕ → Nbdcache) (u : ℕ → CacheIn) : Prop where
  aw : ∀ n, (x n).miss.writingBack = true → ((x n).axiOut c (u n)).awValid = true →
    ∃ m, n ≤ m ∧ (u m).axiData.awReady = true
  w : ∀ n, (x n).miss.writingBack = true → ((x n).axiOut c (u n)).wValid = true →
    ∃ m, n ≤ m ∧ (u m).axiData.wReady = true
  b : ∀ n, (x n).miss.writingBack = true → (x n).axi.state = .waitBValid →
    ∃ m, n ≤ m ∧ (u m).axiData.bValid = true

/-- A write-back does not wait in a cycle in which the bus takes what it offers. -/
theorem not_waits (h : s.axi.LineWrite)
    (ha : (s.axi.awsLeft (s.miss.axiReq c) ≠ [] ∧ i.axiData.awReady = true) ∨
      (s.axi.beatsLeft (s.miss.axiReq c) ≠ [] ∧ i.axiData.wReady = true) ∨
      (s.axi.state = .waitBValid ∧ i.axiData.bValid = true)) : ¬ s.waitsForBus c i := by
  rintro ⟨hw, hta, htw, hv⟩
  have hr := asksLine_of_writingBack (c := c) hw
  rcases ha with ⟨hl, ha⟩ | ⟨hl, ha⟩ | ⟨hl, ha⟩
  · simp [awTaken, axiOut, AxiAdapter.awValid_of_left hr hl, ha] at hta
  · simp [wTaken, axiOut, AxiAdapter.wValid_of_left hr hl, ha] at htw
  · simp [AxiAdapter.valid, hl, ha, h.amo, amoReturnsData, atopFromAmo] at hv

/-- A write-back does not wait for the bus forever. -/
theorem not_waits_forever {x : ℕ → Nbdcache} {u : ℕ → CacheIn} {n : ℕ} (ha : Answers c x u)
    (hx : ∀ k, n ≤ k → x (k + 1) = (x k).step c (u k)) (hl : ∀ k, n ≤ k → (x k).axi.LineWrite)
    (hw : ∀ k, n ≤ k → (x k).waitsForBus c (u k)) : False := by
  -- as long as it waits, the same part of the burst is on offer
  have hleft : ∀ k, n ≤ k →
      (x k).axi.awsLeft ((x k).miss.axiReq c) = (x n).axi.awsLeft ((x n).miss.axiReq c) ∧
        (x k).axi.beatsLeft ((x k).miss.axiReq c) = (x n).axi.beatsLeft ((x n).miss.axiReq c) := by
    intro k hk
    induction k, hk using Nat.le_induction with
    | base => exact ⟨rfl, rfl⟩
    | succ k hk ih =>
      obtain ⟨hwb, hta, htw, hv⟩ := hw k hk
      obtain ⟨-, hreq, -, haw, hbt⟩ := back_send (c := c) (hl k hk) hwb hv
      rw [hta, List.nil_append] at haw
      rw [htw, List.nil_append] at hbt
      rw [hx k hk, hreq, ← haw, ← hbt]
      exact ih
  have hwb := (hw n le_rfl).1
  have hask := asksLine_of_writingBack (c := c) hwb
  by_cases haw : (x n).axi.awsLeft ((x n).miss.axiReq c) = []
  · by_cases hbt : (x n).axi.beatsLeft ((x n).miss.axiReq c) = []
    · obtain ⟨m, hm, hb⟩ := ha.b n hwb (AxiAdapter.waitB_of_left (hl n le_rfl) haw hbt)
      obtain ⟨ha', hb'⟩ := hleft m hm
      have hstate := AxiAdapter.waitB_of_left (hl m hm) (ha'.trans haw) (hb'.trans hbt)
      exact not_waits (hl m hm) (.inr (.inr ⟨hstate, hb⟩)) (hw m hm)
    · obtain ⟨m, hm, hr⟩ := ha.w n hwb (AxiAdapter.wValid_of_left hask hbt)
      exact not_waits (hl m hm) (.inr (.inl ⟨(hleft m hm).2.trans_ne hbt, hr⟩)) (hw m hm)
  · obtain ⟨m, hm, hr⟩ := ha.aw n hwb (AxiAdapter.awValid_of_left hask haw)
    exact not_waits (hl m hm) (.inl ⟨(hleft m hm).1.trans_ne haw, hr⟩) (hw m hm)

end Nbdcache
end Culsans.Dcache
