import Culsans.Subsystem.PortMux
import Culsans.Dcache.LineAdapter

/-! # The adapters as units of the port

An AXI adapter whose request is held while it writes issues one write at a time and
offers its beats in order.
-/

namespace Culsans.Subsystem
open Dcache

variable {b : ℕ}

/-- The beats of a write request. -/
def burstOf (r : AdapterReq b) : List WChan :=
  if r.type = .singleReq then [⟨r.wdata 0, r.be 0, true⟩]
  else (List.finRange (b + 1)).map fun k => ⟨r.wdata k, r.be k, k.val == b⟩

/-- The write an idle adapter begins. -/
def begins (q : AxiAdapter b) (r : AdapterReq b) : List WChan :=
  if q.state = .idle ∧ r.req = true ∧ r.we = true then burstOf r else []

/-- The adapter waits for the AW or W channel. -/
def writing (q : AxiAdapter b) : Bool :=
  q.state == .waitAwReady || q.state == .waitLastWReadyAwReady || q.state == .waitAwReadyBurst ||
    q.state == .waitLastWReady

/-- The last `n` beats of a request. -/
def lastBeats (r : AdapterReq b) (n : ℕ) : List WChan := (burstOf r).drop ((burstOf r).length - n)

/-- The adapter is where the write stands. -/
structure Matches (q : AxiAdapter b) (r : AdapterReq b) (w : Writer) : Prop where
  idle : writing q = false → w.isIdle = true
  burst : writing q = true → w.burst = burstOf r
  aw : writing q = true → w.awLeft = !(q.state == .waitLastWReady)
  beats : writing q = true → w.beats =
    if q.state = .waitAwReady ∨ q.state = .waitAwReadyBurst then [] else lastBeats r (q.cnt + 1)
  cnt : q.state = .waitLastWReadyAwReady ∨ q.state = .waitLastWReady → q.cnt + 1 ≤ (burstOf r).length
  line : q.state = .waitLastWReadyAwReady ∨ q.state = .waitAwReadyBurst → r.type = .cacheLineReq
  single : q.state = .waitAwReady → r.type = .singleReq

theorem length_burstOf (r : AdapterReq b) : (burstOf r).length = if r.type = .singleReq then 1 else b + 1 := by
  unfold burstOf
  split_ifs <;> simp

theorem tail_lastBeats {r : AdapterReq b} {n : ℕ} (h : n + 1 ≤ (burstOf r).length) :
    (lastBeats r (n + 1)).tail = lastBeats r n := by
  rw [lastBeats, lastBeats, List.tail_drop]
  congr 1
  omega

theorem lastBeats_zero (r : AdapterReq b) : lastBeats r 0 = [] := by simp [lastBeats]

theorem lastBeats_all {r : AdapterReq b} {n : ℕ} (h : (burstOf r).length = n) : lastBeats r n = burstOf r := by
  simp [lastBeats, h]

/-- The beat offered with `n` more to come. -/
theorem head_lastBeats {r : AdapterReq b} {n : ℕ} (h : n + 1 ≤ (burstOf r).length) :
    (lastBeats r (n + 1)).head? = some
      ⟨if r.type = .singleReq then r.wdata 0 else AxiAdapter.pick r.wdata (b - n),
        if r.type = .singleReq then r.be 0 else AxiAdapter.pick r.be (b - n), n == 0⟩ := by
  rw [lastBeats, List.head?_drop]
  rw [length_burstOf] at h ⊢
  unfold burstOf
  split_ifs at h ⊢ with hs
  · obtain rfl : n = 0 := by omega
    rfl
  · have hlt : b + 1 - (n + 1) < b + 1 := by omega
    have hk : (Fin.ofNat (b + 1) (b - n)) = ⟨b + 1 - (n + 1), hlt⟩ := by
      ext
      simp [Fin.ofNat]
    rw [List.getElem?_map, List.getElem?_eq_getElem (by simp)]
    simp only [List.getElem_finRange, Option.map_some, Option.some.injEq, WChan.mk.injEq, AxiAdapter.pick, hk]
    refine ⟨rfl, rfl, ?_⟩
    rw [Bool.eq_iff_iff]
    simp
    omega

section Step
variable {q : AxiAdapter b} {r r' : AdapterReq b} {a : AxiResp} {w : Writer}

/-- A waiting adapter does not begin a write. -/
theorem begin_of_writing (h : Matches q r w) (hw : writing q = true) (c : List WChan) : w.begin c = w := by
  rw [Writer.begin, if_neg]
  rw [Port.isIdle_iff]
  rintro ⟨ha, hb⟩
  have haw := h.aw hw
  rw [ha] at haw
  have hs : q.state = .waitLastWReady := by simpa using haw.symm
  have hbeats := h.beats hw
  rw [hb, if_neg (by simp [hs])] at hbeats
  have hlen := congrArg List.length hbeats
  have hcnt := h.cnt (.inr hs)
  simp only [lastBeats, List.length_nil, List.length_drop] at hlen
  omega

theorem head_burstOf (r : AdapterReq b) (hb : r.type = .singleReq ∨ 0 < b) : (burstOf r).head? = some
    ⟨AxiAdapter.pick r.wdata 0, AxiAdapter.pick r.be 0, r.type == .singleReq⟩ := by
  unfold burstOf
  split_ifs with hs
  · simp [hs, AxiAdapter.pick]
  · have hpos := hb.resolve_left hs
    have ht : (r.type == .singleReq) = false := by simpa using hs
    rw [List.finRange_succ, List.map_cons, List.head?_cons, ht]
    simp only [Option.some.injEq, WChan.mk.injEq, AxiAdapter.pick]
    refine ⟨rfl, rfl, beq_eq_false_iff_ne.mpr ?_⟩
    rw [Fin.val_zero]
    omega

/-- What the adapter offers is what a unit with one write at a time may offer. -/
theorem adapter_offers (h : Matches q r w) (hb : r.type = .singleReq ∨ 0 < b) :
    (w.begin (begins q r)).Offers (q.axiReq r a) := by
  cases hw : writing q with
  | false =>
    have hbegin : w.begin (begins q r) = ⟨!(begins q r).isEmpty, begins q r, begins q r⟩ := by
      rw [Writer.begin, if_pos (h.idle hw)]
    rw [hbegin]
    by_cases hs : q.state = .idle ∧ r.req = true ∧ r.we = true
    · obtain ⟨hi, hr, hwe⟩ := hs
      have hne : burstOf r ≠ [] := by
        rw [← List.length_pos_iff_ne_nil, length_burstOf]
        split_ifs <;> omega
      simp only [begins, hi, hr, hwe, and_self, if_true, AxiAdapter.axiReq]
      refine ⟨fun _ => ⟨by simpa using hne, ?_⟩, fun _ => head_burstOf r hb⟩
      rw [length_burstOf]
      by_cases ht : r.type = .singleReq <;> simp [ht]
    · constructor <;> intro hv <;> exfalso
      all_goals
        simp only [writing] at hw
        simp only [AxiAdapter.axiReq] at hv
        cases hst : q.state <;> cases hr : r.req <;> cases hwe : r.we <;> simp_all
  | true =>
    rw [begin_of_writing h hw]
    have haw := h.aw hw
    have hbeats := h.beats hw
    have hlen : (burstOf r).length = if r.type = .singleReq then 1 else b + 1 := length_burstOf r
    refine ⟨fun hv => ?_, fun hv => ?_⟩
    · rw [haw, h.burst hw, hlen]
      simp only [AxiAdapter.axiReq] at hv ⊢
      cases hst : q.state <;> simp [hst, writing] at hw hv ⊢
      · simp [h.single hst]
      · simp [h.line (.inl hst)]
      · simp [h.line (.inr hst)]
    · have hstate : q.state = .waitLastWReadyAwReady ∨ q.state = .waitLastWReady := by
        simp only [AxiAdapter.axiReq] at hv
        cases hst : q.state <;> simp [hst, writing] at hw hv ⊢
      have hn : ¬ (q.state = .waitAwReady ∨ q.state = .waitAwReadyBurst) := by
        rcases hstate with hst | hst <;> simp [hst]
      rw [hbeats, if_neg hn, head_lastBeats (h.cnt hstate)]
      by_cases ht : r.type = .singleReq <;> rcases hstate with hst | hst <;>
        simp [AxiAdapter.axiReq, hst, ht, AxiAdapter.pick]

/-- The adapter waits for nothing on AW and W, and the unit has nothing left. -/
theorem matches_idle (hq : writing q = false) (hw : w.isIdle = true) : Matches q r w := by
  have hs : q.state ≠ .waitAwReady ∧ q.state ≠ .waitLastWReadyAwReady ∧ q.state ≠ .waitAwReadyBurst ∧
      q.state ≠ .waitLastWReady := by
    simp only [writing, Bool.or_eq_false_iff, beq_eq_false_iff_ne] at hq
    tauto
  constructor <;> simp_all

/-- The W channel is left, with `n` beats. -/
theorem matches_beats {aw : Bool} {n : ℕ} (hn : q.cnt + 1 = n) (hs : q.state = .waitLastWReady ∧ aw = false ∨
      q.state = .waitLastWReadyAwReady ∧ r.type = .cacheLineReq ∧ aw = true) (hc : n ≤ (burstOf r).length) :
    Matches q r ⟨aw, lastBeats r n, burstOf r⟩ := by
  subst hn
  rcases hs with ⟨hs, rfl⟩ | ⟨hs, ht, rfl⟩
  · constructor <;> simp_all [writing]
  · constructor <;> simp_all [writing]

/-- Only the AW channel is left. -/
theorem matches_aw (hs : q.state = .waitAwReady ∧ r.type = .singleReq ∨
    q.state = .waitAwReadyBurst ∧ r.type = .cacheLineReq) : Matches q r ⟨true, [], burstOf r⟩ := by
  rcases hs with ⟨hs, ht⟩ | ⟨hs, ht⟩
  · constructor <;> simp_all [writing]
  · constructor <;> simp_all [writing]

theorem next_of_none (w : Writer) (c : List WChan) : w.next c false false = w := rfl

/-- A write begins: the first cycle of a request. -/
theorem adapter_next_idle (h : Matches q r w) (hi : q.state = .idle) (hb : r.type = .singleReq ∨ 0 < b) :
    Matches (q.step r a) r (w.next (begins q r) ((q.axiReq r a).awValid && a.awReady)
      ((q.axiReq r a).wValid && a.wReady)) := by
  have hidle : w.isIdle = true := h.idle (by simp [writing, hi])
  by_cases hr : r.req = true ∧ r.we = true
  · obtain ⟨hreq, hwe⟩ := hr
    have hlen := length_burstOf r
    have hne : (burstOf r).isEmpty = false := by
      rw [List.isEmpty_eq_false_iff, ← List.length_pos_iff_ne_nil, hlen]
      split_ifs <;> omega
    have hbegin : w.begin (begins q r) = ⟨true, burstOf r, burstOf r⟩ := by
      rw [Writer.begin, if_pos hidle, begins, if_pos ⟨hi, hreq, hwe⟩, hne]
      rfl
    have hv : (q.axiReq r a).awValid = true ∧ (q.axiReq r a).wValid = true := by
      simp [AxiAdapter.axiReq, hi, hreq, hwe]
    rw [hv.1, hv.2, Bool.true_and, Bool.true_and, Writer.next, hbegin]
    have hall := lastBeats_all hlen
    by_cases ht : r.type = .singleReq
    · rw [if_pos ht] at hlen hall
      have htail : (burstOf r).tail = [] := by
        rw [← hall, tail_lastBeats (by omega), lastBeats_zero]
      have hstep : ∀ aw w, a.awReady = aw → a.wReady = w → (q.step r a).cnt = 0 ∧ (q.step r a).state =
          if aw then (if w then .waitBValid else .waitLastWReady) else if w then .waitAwReady else .idle := by
        rintro aw w rfl rfl
        cases ha : a.awReady <;> cases hw : a.wReady <;>
          simp [AxiAdapter.step, AxiAdapter.stepState, AxiAdapter.stepIdle, hi, hreq, hwe, ht, ha, hw]
      cases ha : a.awReady <;> cases hw : a.wReady <;> obtain ⟨hcnt, hst⟩ := hstep _ _ ha hw
      · exact matches_idle (by simp [writing, hst]) hidle
      · simp only [Bool.or_true, if_true, htail, Bool.not_false, Bool.and_true]
        exact matches_aw (.inl ⟨hst, ht⟩)
      · have hm := matches_beats (r := r) (n := 1) (by omega) (.inl ⟨hst, rfl⟩) (by omega)
        rwa [hall] at hm
      · exact matches_idle (by simp [writing, hst]) (by simp [Writer.isIdle, htail])
    · have hpos := hb.resolve_left ht
      have hline : r.type = .cacheLineReq := by
        cases hty : r.type
        · exact absurd hty ht
        · rfl
      rw [if_neg ht] at hlen hall
      have htail : (burstOf r).tail = lastBeats r b := by
        rw [← hall, tail_lastBeats (by omega)]
      have hstep : ∀ aw w, a.awReady = aw → a.wReady = w → (q.step r a).cnt = (if w then b - 1 else b) ∧
          (q.step r a).state =
            if aw then .waitLastWReady else if w then .waitLastWReadyAwReady else .idle := by
        rintro aw w rfl rfl
        cases ha : a.awReady <;> cases hw : a.wReady <;>
          simp [AxiAdapter.step, AxiAdapter.stepState, AxiAdapter.stepIdle, hi, hreq, hwe, hline, ha, hw,
            AxiAdapter.cnt_pred hpos]
      cases ha : a.awReady <;> cases hw : a.wReady <;> obtain ⟨hcnt, hst⟩ := hstep _ _ ha hw <;>
        simp only [Bool.false_eq_true, if_false, if_true] at hcnt hst
      · exact matches_idle (by simp [writing, hst]) hidle
      · simp only [Bool.or_true, if_true, htail, Bool.not_false, Bool.and_true]
        exact matches_beats (by omega) (.inr ⟨hst, hline, rfl⟩) (by omega)
      · have hm := matches_beats (r := r) (n := b + 1) (by omega) (.inl ⟨hst, rfl⟩) (by omega)
        rwa [hall] at hm
      · simp only [Bool.or_true, if_true, htail, Bool.not_true, Bool.and_false]
        exact matches_beats (by omega) (.inl ⟨hst, rfl⟩) (by omega)
  · have hv : (q.axiReq r a).awValid = false ∧ (q.axiReq r a).wValid = false := by
      cases hreq : r.req <;> cases hwe : r.we <;> simp_all [AxiAdapter.axiReq]
    rw [hv.1, hv.2, Bool.false_and, Bool.false_and, next_of_none]
    refine matches_idle ?_ hidle
    cases hreq : r.req <;> cases hwe : r.we <;> cases har : a.arReady <;> cases hty : r.type <;>
      simp_all [writing, AxiAdapter.step, AxiAdapter.stepState, AxiAdapter.stepIdle]

/-- A write goes on. -/
theorem adapter_next_writing (h : Matches q r w) (hw : writing q = true) :
    Matches (q.step r a) r (w.next (begins q r) ((q.axiReq r a).awValid && a.awReady)
      ((q.axiReq r a).wValid && a.wReady)) := by
  have hnext : ∀ aw wr : Bool, w.next (begins q r) aw wr =
      ⟨w.awLeft && !aw, if wr then w.beats.tail else w.beats, burstOf r⟩ := by
    intro aw wr
    rw [Writer.next, begin_of_writing h hw, ← h.burst hw]
    cases aw <;> cases wr <;> simp
  rw [hnext, h.aw hw, h.beats hw]
  cases hs : q.state <;> simp only [hs, writing] at hw
  case waitAwReady | waitAwReadyBurst =>
    have ho : (q.axiReq r a).awValid = true ∧ (q.axiReq r a).wValid = false := by simp [AxiAdapter.axiReq, hs]
    rw [ho.1, ho.2]
    cases ha : a.awReady
    · have hst : (q.step r a).state = q.state := by simp [AxiAdapter.step, AxiAdapter.stepState, hs, ha]
      rw [hs] at hst
      refine matches_aw ?_
      first
        | exact .inl ⟨hst, h.single hs⟩
        | exact .inr ⟨hst, h.line (.inr hs)⟩
    · have hst : (q.step r a).state = .waitBValid := by simp [AxiAdapter.step, AxiAdapter.stepState, hs, ha]
      exact matches_idle (by simp [writing, hst]) (by simp [Writer.isIdle])
  case waitLastWReady =>
    have ho : (q.axiReq r a).awValid = false ∧ (q.axiReq r a).wValid = true := by simp [AxiAdapter.axiReq, hs]
    rw [ho.1, ho.2]
    have hc := h.cnt (.inr hs)
    cases hr : a.wReady
    · have hst : (q.step r a).state = .waitLastWReady ∧ (q.step r a).cnt = q.cnt := by
        simp [AxiAdapter.step, AxiAdapter.stepState, hs, hr]
      exact matches_beats (by omega) (.inl ⟨hst.1, rfl⟩) hc
    · by_cases hz : q.cnt = 0
      · have hst : (q.step r a).state = .waitBValid := by simp [AxiAdapter.step, AxiAdapter.stepState, hs, hr, hz]
        have htail : (lastBeats r (q.cnt + 1)).tail = [] := by rw [tail_lastBeats hc, hz, lastBeats_zero]
        exact matches_idle (by simp [writing, hst]) (by simp [Writer.isIdle, htail])
      · have hst : (q.step r a).state = .waitLastWReady ∧ (q.step r a).cnt = q.cnt - 1 := by
          simp [AxiAdapter.step, AxiAdapter.stepState, hs, hr, hz]
        simp only [Bool.true_and, if_true, reduceCtorEq, or_self, if_false, tail_lastBeats hc]
        exact matches_beats (by omega) (.inl ⟨hst.1, rfl⟩) (by omega)
  case waitLastWReadyAwReady =>
    have ho : (q.axiReq r a).awValid = true ∧ (q.axiReq r a).wValid = true := by simp [AxiAdapter.axiReq, hs]
    rw [ho.1, ho.2]
    have hc := h.cnt (.inl hs)
    have hl := h.line (.inl hs)
    have hstep : ∀ aw wr, a.awReady = aw → a.wReady = wr →
        (q.step r a).cnt = (if wr ∧ q.cnt ≠ 0 then q.cnt - 1 else q.cnt) ∧ (q.step r a).state =
          if wr ∧ q.cnt = 0 then (if aw then .waitBValid else .waitAwReadyBurst)
          else if aw then .waitLastWReady else .waitLastWReadyAwReady := by
      rintro aw wr rfl rfl
      cases ha : a.awReady <;> cases hr : a.wReady <;> by_cases hz : q.cnt = 0 <;>
        simp [AxiAdapter.step, AxiAdapter.stepState, hs, hr, ha, hz]
    cases ha : a.awReady <;> cases hr : a.wReady <;> obtain ⟨hcn, hst⟩ := hstep _ _ ha hr <;>
      simp only [Bool.false_eq_true, false_and, if_false, true_and, if_true] at hcn hst
    · exact matches_beats (by omega) (.inr ⟨hst, hl, rfl⟩) hc
    · simp only [Bool.true_and, if_true, reduceCtorEq, or_self, if_false, tail_lastBeats hc]
      by_cases hz : q.cnt = 0
      · rw [if_pos hz] at hst
        rw [hz, lastBeats_zero]
        exact matches_aw (.inr ⟨hst, hl⟩)
      · rw [if_neg hz] at hst
        rw [if_pos hz] at hcn
        exact matches_beats (by omega) (.inr ⟨hst, hl, rfl⟩) (by omega)
    · exact matches_beats (by omega) (.inl ⟨hst, rfl⟩) hc
    · simp only [Bool.true_and, if_true, reduceCtorEq, or_self, if_false, tail_lastBeats hc]
      by_cases hz : q.cnt = 0
      · rw [if_pos hz] at hst
        exact matches_idle (by simp [writing, hst]) (by simp [Writer.isIdle, hz, lastBeats_zero])
      · rw [if_neg hz] at hst
        rw [if_pos hz] at hcn
        exact matches_beats (by omega) (.inl ⟨hst, rfl⟩) (by omega)
  all_goals simp at hw

/-- An adapter whose request is held while it writes is a unit with one write at a time. -/
theorem adapter_next (h : Matches q r w) (hb : r.type = .singleReq ∨ 0 < b)
    (hr : writing (q.step r a) = true → r' = r) :
    Matches (q.step r a) r' (w.next (begins q r) ((q.axiReq r a).awValid && a.awReady)
      ((q.axiReq r a).wValid && a.wReady)) := by
  have hsame : Matches (q.step r a) r (w.next (begins q r) ((q.axiReq r a).awValid && a.awReady)
      ((q.axiReq r a).wValid && a.wReady)) := by
    cases hw : writing q with
    | true => exact adapter_next_writing h hw
    | false =>
      by_cases hi : q.state = .idle
      · exact adapter_next_idle h hi hb
      · have ho : (q.axiReq r a).awValid = false ∧ (q.axiReq r a).wValid = false := by
          cases hs : q.state <;> simp_all [writing, AxiAdapter.axiReq]
        rw [ho.1, ho.2, Bool.false_and, Bool.false_and, next_of_none]
        refine matches_idle ?_ (h.idle hw)
        cases hs : q.state <;> simp only [writing, hs] at hw hi <;>
          simp only [writing, AxiAdapter.step, AxiAdapter.stepState, AxiAdapter.stepRead, hs] <;> grind -ring -linarith
  cases hw : writing (q.step r a) with
  | true => rwa [hr hw]
  | false => exact matches_idle hw (hsame.idle hw)

end Step

/-! ### The two adapters of the data cache -/

section Nbdcache
variable {c : Cfg} {s : Nbdcache} {wb wd : Writer}

/-- The arbiter holds the bypass request, and both adapters are units of the port. -/
structure Units (c : Cfg) (s : Nbdcache) (wb wd : Writer) : Prop where
  serving : writing s.bypassAxi = true → s.arb.serving = true
  held : s.arb.serving = true → s.arb.req.reqtype = .singleReq ∧ ownId .bypass s.arb.req.id = true
  bypass : ∀ i, Matches s.bypassAxi (s.bypassAdapterReq c i) wb
  data : Matches s.axi (s.miss.axiReq c) wd

theorem bypassReq_own (c : Cfg) (s : Nbdcache) (i : CacheIn) (p : Fin 4) :
    (s.bypassReq c i p).reqtype = .singleReq ∧ ownId .bypass (s.bypassReq c i p).id = true := by
  have hid : ∀ p : Fin 3, ownId .bypass (0b1000#4 + BitVec.ofNat 4 p.val) = true := by decide
  have hamo : (s.miss.amoBypassReq c i.amoReq).reqtype = .singleReq ∧
      (s.miss.amoBypassReq c i.amoReq).id = 0b1011#4 := by
    unfold MissHandler.amoBypassReq
    split_ifs <;> exact ⟨rfl, rfl⟩
  unfold Nbdcache.bypassReq
  split_ifs
  · exact ⟨rfl, hid _⟩
  · rw [hamo.1, hamo.2]
    exact ⟨rfl, rfl⟩

theorem reqO_own (h : Units c s wb wd) (i : CacheIn) :
    (s.bypassAdapterReq c i).type = .singleReq ∧ ownId .bypass (s.bypassAdapterReq c i).id = true := by
  simp only [Nbdcache.bypassAdapterReq, BypassArbiter.reqO]
  split_ifs with hs
  · exact h.held hs
  · exact bypassReq_own c s i _

/-- Both adapters offer as units do, each under its own ids. -/
theorem units_offer (h : Units c s wb wd) (i : CacheIn) (a : AxiResp) :
    (wb.begin (begins s.bypassAxi (s.bypassAdapterReq c i))).Offers (s.bypassAxi.axiReq (s.bypassAdapterReq c i) a) ∧
    (wd.begin (begins s.axi (s.miss.axiReq c))).Offers (s.axi.axiReq (s.miss.axiReq c) a) ∧
    ownId .bypass (s.bypassAxi.axiReq (s.bypassAdapterReq c i) a).aw.id = true ∧
    ownId .bypass (s.bypassAxi.axiReq (s.bypassAdapterReq c i) a).ar.id = true ∧
    ownId .data (s.axi.axiReq (s.miss.axiReq c) a).aw.id = true ∧
    ownId .data (s.axi.axiReq (s.miss.axiReq c) a).ar.id = true := by
  obtain ⟨ht, hid⟩ := reqO_own h i
  have hids : ∀ {b : ℕ} (q : AxiAdapter b) (r : AdapterReq b), (q.axiReq r a).aw.id = r.id ∧
      (q.axiReq r a).ar.id = r.id := by
    intro b q r
    unfold AxiAdapter.axiReq
    cases q.state <;> cases r.req <;> cases r.we <;> exact ⟨rfl, rfl⟩
  have hmiss : (s.miss.axiReq c).id = 12 := by
    unfold MissHandler.axiReq
    cases s.miss.state <;> rfl
  refine ⟨adapter_offers (h.bypass i) (.inl ht), adapter_offers h.data (.inr (by decide)), ?_, ?_, ?_, ?_⟩
  · rwa [(hids _ _).1]
  · rwa [(hids _ _).2]
  · rw [(hids _ _).1, hmiss]
    rfl
  · rw [(hids _ _).2, hmiss]
    rfl

/-- The write-back request stands until it is answered. -/
theorem axiReq_held {i : CacheIn} (hb : s.miss.writingBack = true) (hv : s.axi.valid i.axiData = false) :
    (s.step c i).miss.axiReq c = s.miss.axiReq c := by
  have hv' : (s.missIn c i).axi.valid = false := hv
  show (s.miss.step (s.missIn c i)).axiReq c = _
  simp only [MissHandler.writingBack, Bool.or_eq_true, beq_iff_eq] at hb
  rcases hb with (hb | hb) | hb <;> simp [MissHandler.step, MissHandler.axiReq, hb, hv']

/-- An adapter that waits for AW or W has begun a write, in this cycle or earlier. -/
theorem writing_step {b : ℕ} {q : AxiAdapter b} {r : AdapterReq b} {a : AxiResp}
    (h : writing (q.step r a) = true) :
    writing q = true ∨ (q.state = .idle ∧ r.req = true ∧ r.we = true) := by
  cases hs : q.state <;> simp only [writing, AxiAdapter.step, AxiAdapter.stepState, AxiAdapter.stepIdle,
    AxiAdapter.stepRead, hs] at h ⊢ <;> grind -ring -linarith

theorem not_valid_of_writing {b : ℕ} {q : AxiAdapter b} (a : AxiResp)
    (h : writing q = true ∨ q.state = .idle) : q.valid a = false := by
  unfold AxiAdapter.valid
  cases hs : q.state <;> simp_all [writing]

theorem units_step {i : CacheIn} (hi : s.AdapterInv) (h : Units c s wb wd) : Units c (s.step c i)
    (wb.next (begins s.bypassAxi (s.bypassAdapterReq c i))
      ((s.bypassAxi.axiReq (s.bypassAdapterReq c i) i.axiBypass).awValid && i.axiBypass.awReady)
      ((s.bypassAxi.axiReq (s.bypassAdapterReq c i) i.axiBypass).wValid && i.axiBypass.wReady))
    (wd.next (begins s.axi (s.miss.axiReq c))
      ((s.axi.axiReq (s.miss.axiReq c) i.axiData).awValid && i.axiData.awReady)
      ((s.axi.axiReq (s.miss.axiReq c) i.axiData).wValid && i.axiData.wReady)) := by
  have hbypass : writing (s.step c i).bypassAxi = true → (s.step c i).arb.serving = true ∧
      ∀ j, (s.step c i).bypassAdapterReq c j = s.bypassAdapterReq c i := by
    intro hw
    have hw' : writing (s.bypassAxi.step (s.bypassAdapterReq c i) i.axiBypass) = true := hw
    have harb : (s.step c i).arb.serving = true ∧ (s.step c i).arb.req = s.arb.reqO (s.bypassReq c i) := by
      show (s.arb.step (s.bypassReq c i) (s.bypassAxi.valid i.axiBypass)).serving = true ∧
        (s.arb.step (s.bypassReq c i) (s.bypassAxi.valid i.axiBypass)).req = _
      have hvalid := not_valid_of_writing i.axiBypass ((writing_step hw').imp_right And.left)
      cases hs : s.arb.serving
      · rcases writing_step hw' with hq | ⟨-, hreq, -⟩
        · exact absurd ((h.serving hq).symm.trans hs) (by decide)
        · have hr : (s.bypassReq c i (s.arb.selD (s.bypassReq c i))).req = true := by
            simpa [Nbdcache.bypassAdapterReq, BypassArbiter.reqO, hs] using hreq
          simp [BypassArbiter.step, BypassArbiter.reqO, hs, hr]
      · simp [BypassArbiter.step, BypassArbiter.reqO, hs, hvalid]
    refine ⟨harb.1, fun j => ?_⟩
    simp only [Nbdcache.bypassAdapterReq]
    rw [show (s.step c i).arb.reqO ((s.step c i).bypassReq c j) = s.arb.reqO (s.bypassReq c i) by
      rw [BypassArbiter.reqO, if_pos harb.1, harb.2]]
  refine ⟨fun hw => (hbypass hw).1, fun hs => ?_, fun j => ?_, ?_⟩
  · -- the request taken over is one of the four ports
    show (s.arb.step (s.bypassReq c i) (s.bypassAxi.valid i.axiBypass)).req.reqtype = .singleReq ∧
      ownId .bypass (s.arb.step (s.bypassReq c i) (s.bypassAxi.valid i.axiBypass)).req.id = true
    unfold BypassArbiter.step
    split_ifs with hsv
    · exact h.held hsv
    · exact bypassReq_own c s i _
  · exact adapter_next (h.bypass i) (.inl (reqO_own h i).1) fun hw => (hbypass hw).2 j
  · refine adapter_next h.data (.inr (by decide)) fun hw => ?_
    have hwr := writing_step hw
    refine axiReq_held ?_ (not_valid_of_writing _ (hwr.imp_right And.left))
    rcases hwr with hq | ⟨-, -, hwe⟩
    · by_contra hn
      have hf := hi.fits
      have hfree : s.axi.state = .idle ∨ s.axi.reading = true := by
        cases hs : s.miss.state <;> simp_all [Nbdcache.adapterFits, MissHandler.writingBack]
      rcases hfree with hs | hs
      · simp [writing, hs] at hq
      · cases ha : s.axi.state <;> simp_all [writing, AxiAdapter.reading]
    · by_contra hn
      unfold MissHandler.axiReq at hwe
      cases hs : s.miss.state <;> simp_all [MissHandler.writingBack]

theorem units_init (h : s.IsReset) : Units c s .idle .idle := by
  refine ⟨fun hw => ?_, fun hs => ?_, fun i => ?_, ?_⟩
  · simp [h.bypassAxi, AxiAdapter.reset, writing] at hw
  · simp [h.arb, BypassArbiter.reset] at hs
  · exact matches_idle (by rw [h.bypassAxi]; rfl) rfl
  · exact matches_idle (by rw [h.axi]; rfl) rfl

/-- In every reachable state of the cache its adapters are units with one write at a time. -/
theorem units_reachable {ok : Nbdcache → CacheIn → Prop} (h : (Nbdcache.machine c).Reachable ok s) :
    ∃ wb wd, Units c s wb wd := by
  refine Library.Machine.Reachable.invariant_of (P := Nbdcache.AdapterInv) (Q := fun s => ∃ wb wd, Units c s wb wd)
    (fun s hs => Nbdcache.adapterInv_reachable hs) (fun s hs => ⟨_, _, units_init hs⟩) ?_ h
  rintro s i hi ⟨wb, wd, hu⟩ -
  exact ⟨_, _, units_step hi hu⟩

end Nbdcache
end Culsans.Subsystem
