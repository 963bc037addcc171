import Culsans.Icache.AxiWrapper

/-! # Instructions from memory

The wrapper returns one line or word for each request of the cache, put together from the beats of
its burst. So every instruction that is fetched is what memory has given for its address.
-/

namespace Culsans.Icache
open Library

variable {c : ArianeCfg} {mem : BitVec 53 → BitVec 64 → Prop} {w : AxiWrapper} {g : BurstLog} {req : Bool}
  {d o : IcacheReq}
  {a : AxiReadResp}

/-- The double word in which a request begins. -/
def IcacheReq.place (o : IcacheReq) : BitVec 53 := o.paddr.extractLsb' 3 53

/-- Where the request that waits for its return is. -/
inductive Waits (mem : BitVec 53 → BitVec 64 → Prop) (w : AxiWrapper) (g : BurstLog) : Option IcacheReq → Prop
  | rest (hv : w.reqValid = false) (hf : w.first = true) (hb : g.burst = none) : Waits mem w g none
  | asks {o : IcacheReq} (hv : w.reqValid = true) (hd : w.reqData = o) (hf : w.first = true) (hb : g.burst = none) :
      Waits mem w g (some o)
  | begun {o : IcacheReq} (hv : w.reqValid = false) (hd : w.reqData = o) (hf : w.first = true)
    (hb : g.burst = some o.ar)
      (hn : g.beats = []) : Waits mem w g (some o)
  | half {o : IcacheReq} (hv : w.reqValid = false) (hd : w.reqData = o) (hf : w.first = false)
    (hb : g.burst = some o.ar)
      (hn : g.beats = [w.rdShift 1]) (hm : mem o.place (w.rdShift 1)) (hnc : o.nc = false) : Waits mem w g (some o)

/-- A return that is made of what memory gives. -/
def Return.Made (mem : BitVec 53 → BitVec 64 → Prop) (r : Return) : Prop :=
  if r.nc then ∃ v, mem (r.paddr.extractLsb' 3 53) v ∧ r.data = v ++ v
  else ∃ v v', mem (r.paddr.extractLsb' 3 53) v ∧ mem (r.paddr.extractLsb' 3 53 + 1) v' ∧ r.data = v' ++ v

theorem place_ar (o : IcacheReq) : o.ar.addr.extractLsb' 3 53 = o.place := by
  apply BitVec.eq_of_getLsbD_eq
  intro j hj
  simp only [IcacheReq.ar, IcacheReq.place, BitVec.getLsbD_extractLsb', BitVec.getLsbD_setWidth]
  simp [hj, show 3 + j < 64 by omega]

/-- Without a burst there is no beat. -/
theorem rValid_eq (hi : g.Beat mem a) (hb : g.burst = none) : a.rValid = false := by
  rw [Bool.eq_false_iff]
  intro hr
  obtain ⟨b, hsome, -⟩ := hi hr
  rw [hb] at hsome
  cases hsome

/-- A beat of the burst for `o`. -/
theorem beat_of_burst (hi : g.Beat mem a) (hb : g.burst = some o.ar) (hr : a.rValid = true) :
    (a.rLast = true ↔ g.beats.length = if o.nc then 0 else 1) ∧
      mem (o.place + BitVec.ofNat 53 g.beats.length) a.rData := by
  obtain ⟨b, hsome, hl, hm⟩ := hi hr
  rw [hb, Option.some.injEq] at hsome
  subst hsome
  rw [place_ar] at hm
  refine ⟨?_, hm⟩
  rw [hl, IcacheReq.ar]
  cases o.nc <;> rfl

theorem last_of_begun (hi : g.Beat mem a) (hb : g.burst = some o.ar) (hn : g.beats = []) (hr : a.rValid = true) :
    a.rLast = o.nc ∧ mem o.place a.rData := by
  obtain ⟨hl, hm⟩ := beat_of_burst hi hb hr
  rw [hn, List.length_nil] at hl hm
  refine ⟨?_, by simpa using hm⟩
  cases hnc : o.nc <;> simp_all

theorem last_of_half {v : BitVec 64} (hi : g.Beat mem a) (hb : g.burst = some o.ar) (hn : g.beats = [v])
    (hnc : o.nc = false) (hr : a.rValid = true) : a.rLast = true ∧ mem (o.place + 1) a.rData := by
  obtain ⟨hl, hm⟩ := beat_of_burst hi hb hr
  rw [hn, List.length_singleton] at hl hm
  exact ⟨hl.mpr (by rw [hnc]; rfl), hm⟩

/-! ### A cycle of the wrapper -/

/-- A request that comes is taken at once. -/
theorem Waits.rest_step (hv : w.reqValid = false) (hf : w.first = true) (hb : g.burst = none) (hi : g.Beat mem a) :
    Waits mem (w.step req d a) (g.watch (w.rdReq req) (w.reqDataD req d).ar a) (if req then some d else none) := by
  have hr := rValid_eq hi hb
  have hnone : AxiWrapper.memRtrnVld a = false := by simp [AxiWrapper.memRtrnVld, hr]
  have hfirst : (w.step req d a).first = true := by simp [AxiWrapper.step, hr, hf]
  cases req with
  | false =>
    rw [if_neg Bool.false_ne_true]
    exact .rest (by simp [AxiWrapper.step, AxiWrapper.rdReq, hv]) hfirst
      (by simp [BurstLog.watch, AxiWrapper.rdReq, hnone, hv, hb])
  | true =>
    rw [if_pos rfl]
    cases ha : a.arReady with
    | false =>
      exact .asks (by simp [AxiWrapper.step, AxiWrapper.rdReq, AxiWrapper.rdGnt, ha]) rfl hfirst
        (by simp [BurstLog.watch, hnone, ha, hb])
    | true =>
      exact .begun (by simp [AxiWrapper.step, AxiWrapper.rdReq, AxiWrapper.rdGnt, ha]) rfl hfirst
        (by simp [BurstLog.watch, AxiWrapper.rdReq, AxiWrapper.reqDataD, ha])
        (by simp [BurstLog.watch, AxiWrapper.rdReq, ha])

/-- An address waits until it is taken. -/
theorem Waits.asks_step (hv : w.reqValid = true) (hf : w.first = true) (hb : g.burst = none) (hi : g.Beat mem a) :
    Waits mem (w.step false d a) (g.watch (w.rdReq false) (w.reqDataD false d).ar a) (some w.reqData) := by
  have hr := rValid_eq hi hb
  have hnone : AxiWrapper.memRtrnVld a = false := by simp [AxiWrapper.memRtrnVld, hr]
  have hfirst : (w.step false d a).first = true := by simp [AxiWrapper.step, hr, hf]
  cases ha : a.arReady with
  | false =>
    exact .asks (by simp [AxiWrapper.step, AxiWrapper.rdReq, AxiWrapper.rdGnt, ha, hv]) rfl hfirst
      (by simp [BurstLog.watch, hnone, ha, hb])
  | true =>
    exact .begun (by simp [AxiWrapper.step, AxiWrapper.rdReq, AxiWrapper.rdGnt, ha, hv]) rfl hfirst
      (by simp [BurstLog.watch, AxiWrapper.rdReq, AxiWrapper.reqDataD, ha, hv])
      (by simp [BurstLog.watch, AxiWrapper.rdReq, ha, hv])

/-- The first beat is the return of a word, or the first half of a line. -/
theorem Waits.begun_step (hv : w.reqValid = false) (hf : w.first = true) (hb : g.burst = some w.reqData.ar)
    (hn : g.beats = []) (hi : g.Beat mem a) :
    Waits mem (w.step false d a) (g.watch (w.rdReq false) (w.reqDataD false d).ar a)
      (if AxiWrapper.memRtrnVld a then none else some w.reqData) := by
  have hidle : w.rdReq false = false := by simp [AxiWrapper.rdReq, hv]
  have hvalid : (w.step false d a).reqValid = false := by simp [AxiWrapper.step, hidle]
  cases hr : a.rValid with
  | false =>
    have hnone : AxiWrapper.memRtrnVld a = false := by simp [AxiWrapper.memRtrnVld, hr]
    rw [hnone, if_neg Bool.false_ne_true]
    exact .begun hvalid rfl (by simp [AxiWrapper.step, hr, hf]) (by simp [BurstLog.watch, hidle, hnone, hb])
      (by simp [BurstLog.watch, hidle, hr, hn])
  | true =>
    obtain ⟨hl, hm⟩ := last_of_begun hi hb hn hr
    cases hnc : w.reqData.nc with
    | true =>
      have hlast : AxiWrapper.memRtrnVld a = true := by simp [AxiWrapper.memRtrnVld, hr, hl, hnc]
      rw [hlast, if_pos rfl]
      exact .rest hvalid (by simp [AxiWrapper.step, hr, hl, hnc]) (by simp [BurstLog.watch, hidle, hlast])
    | false =>
      have hnone : AxiWrapper.memRtrnVld a = false := by simp [AxiWrapper.memRtrnVld, hl, hnc]
      have hshift : (w.step false d a).rdShift 1 = a.rData := by simp [AxiWrapper.step, AxiWrapper.rdShiftD, hr]
      rw [hnone, if_neg Bool.false_ne_true]
      refine .half hvalid rfl (by simp [AxiWrapper.step, hr, hl, hnc])
        (by simp [BurstLog.watch, hidle, hnone, hb]) ?_ ?_ hnc
      · rw [hshift]
        simp [BurstLog.watch, hidle, hr, hn]
      · rw [hshift]
        exact hm

/-- The second beat completes a line. -/
theorem Waits.half_step (hv : w.reqValid = false) (hf : w.first = false) (hb : g.burst = some w.reqData.ar)
    (hn : g.beats = [w.rdShift 1]) (hm : mem w.reqData.place (w.rdShift 1)) (hnc : w.reqData.nc = false)
    (hi : g.Beat mem a) :
    Waits mem (w.step false d a) (g.watch (w.rdReq false) (w.reqDataD false d).ar a)
      (if AxiWrapper.memRtrnVld a then none else some w.reqData) := by
  have hidle : w.rdReq false = false := by simp [AxiWrapper.rdReq, hv]
  have hvalid : (w.step false d a).reqValid = false := by simp [AxiWrapper.step, hidle]
  cases hr : a.rValid with
  | false =>
    have hnone : AxiWrapper.memRtrnVld a = false := by simp [AxiWrapper.memRtrnVld, hr]
    have hshift : (w.step false d a).rdShift 1 = w.rdShift 1 := by simp [AxiWrapper.step, AxiWrapper.rdShiftD, hr]
    rw [hnone, if_neg Bool.false_ne_true]
    refine .half hvalid rfl (by simp [AxiWrapper.step, hr, hf])
      (by simp [BurstLog.watch, hidle, hnone, hb]) ?_ ?_ hnc
    · rw [hshift]
      simp [BurstLog.watch, hidle, hr, hn]
    · rw [hshift]
      exact hm
  | true =>
    obtain ⟨hl, -⟩ := last_of_half hi hb hn hnc hr
    have hlast : AxiWrapper.memRtrnVld a = true := by simp [AxiWrapper.memRtrnVld, hr, hl]
    rw [hlast, if_pos rfl]
    exact .rest hvalid (by simp [AxiWrapper.step, hr, hl]) (by simp [BurstLog.watch, hidle, hlast])

/-- The bus state after a cycle; a new request comes only when none waits. -/
theorem Waits.step {q : Option IcacheReq} (h : Waits mem w g q) (hi : g.Beat mem a) (hreq : req = true → q = none) :
    Waits mem (w.step req d a) (g.watch (w.rdReq req) (w.reqDataD req d).ar a)
      (if req then some d else if AxiWrapper.memRtrnVld a then none else q) := by
  have hno {o : IcacheReq} (hq : q = some o) : req = false :=
    Bool.eq_false_iff.mpr fun hr => Option.some_ne_none o (hq.symm.trans (hreq hr))
  cases h with
  | rest hv hf hb =>
    rw [ite_self]
    exact Waits.rest_step hv hf hb hi
  | asks hv hd hf hb =>
    have hnone : AxiWrapper.memRtrnVld a = false := by simp [AxiWrapper.memRtrnVld, rValid_eq hi hb]
    rw [hno rfl, if_neg Bool.false_ne_true, hnone, if_neg Bool.false_ne_true, ← hd]
    exact Waits.asks_step hv hf hb hi
  | begun hv hd hf hb hn =>
    rw [hno rfl, if_neg Bool.false_ne_true, ← hd]
    exact Waits.begun_step hv hf (hd ▸ hb) hn hi
  | half hv hd hf hb hn hm hnc =>
    rw [hno rfl, if_neg Bool.false_ne_true, ← hd]
    exact Waits.half_step hv hf (hd ▸ hb) hn (hd ▸ hm) (hd ▸ hnc) hi

/-- What is returned is made of the beats. -/
theorem Waits.made (h : Waits mem w g (some o)) (hi : g.Beat mem a) (hr : AxiWrapper.memRtrnVld a = true) :
    Return.Made mem ⟨o.paddr, o.nc, (w.memRtrn a).data⟩ := by
  rw [AxiWrapper.memRtrnVld, Bool.and_eq_true] at hr
  cases h with
  | asks hv hd hf hb =>
    rw [rValid_eq hi hb] at hr
    exact absurd hr.1 Bool.false_ne_true
  | begun hv hd hf hb hn =>
    obtain ⟨hl, hm⟩ := last_of_begun hi hb hn hr.1
    rw [Return.Made, if_pos (hl ▸ hr.2)]
    exact ⟨a.rData, hm, by simp [AxiWrapper.memRtrn, AxiWrapper.rdShiftD, hr.1, hf]⟩
  | half hv hd hf hb hn hm hnc =>
    obtain ⟨-, hm'⟩ := last_of_half hi hb hn hnc hr.1
    rw [Return.Made, hnc, if_neg Bool.false_ne_true]
    exact ⟨w.rdShift 1, a.rData, hm, hm', by simp [AxiWrapper.memRtrn, AxiWrapper.rdShiftD, hr.1, hf]⟩

/-- Nothing is returned that has not been asked for. -/
theorem Waits.isSome {q : Option IcacheReq} (h : Waits mem w g q) (hi : g.Beat mem a)
    (hr : AxiWrapper.memRtrnVld a = true) :
    q.isSome = true := by
  rw [AxiWrapper.memRtrnVld, Bool.and_eq_true] at hr
  cases h with
  | rest hv hf hb =>
    rw [rValid_eq hi hb] at hr
    exact absurd hr.1 Bool.false_ne_true
  | asks | begun | half => rfl

/-! ### Words -/

/-- The word of an address in its double word. -/
def wordAt (v : BitVec 64) (p : BitVec 56) : BitVec 32 := v.extractLsb' (32 * (p.extractLsb' 2 1).toNat) 32

theorem extractLsb'_extractLsb' {w : ℕ} (x : BitVec w) {s n s' n' : ℕ} (h : s' + n' ≤ n) :
    (x.extractLsb' s n).extractLsb' s' n' = x.extractLsb' (s + s') n' := by
  ext j hj
  simp [BitVec.getElem_extractLsb', show s' + j < n by omega, Nat.add_assoc]

/-- A word of the two double words of a line. -/
theorem wordOf_append (v v' : BitVec 64) (o : BitVec 2) : wordOf (v' ++ v) (o ++ 0#2) =
    (if o.extractLsb' 1 1 = 1 then v' else v).extractLsb' (32 * (o.extractLsb' 0 1).toNat) 32 := by
  obtain rfl | rfl | rfl | rfl : o = 0 ∨ o = 1 ∨ o = 2 ∨ o = 3 := by
    revert o
    decide
  · exact BitVec.extractLsb'_append_eq_of_add_le (by decide)
  · exact BitVec.extractLsb'_append_eq_of_add_le (by decide)
  · exact BitVec.extractLsb'_append_eq_of_le (by decide)
  · exact BitVec.extractLsb'_append_eq_of_le (by decide)

/-- The double word of a request, from the address it is for. -/
theorem place_word (c : ArianeCfg) (p : BitVec 56) : (requestAddr c true p).extractLsb' 3 53 = p.extractLsb' 3 53 := by
  rw [requestAddr, if_pos rfl]
  split_ifs
  · exact BitVec.extractLsb'_append_eq_left
  · have hle : (p.extractLsb' 2 54 ++ 0#2).extractLsb' 3 53 = (p.extractLsb' 2 54).extractLsb' 1 53 :=
      BitVec.extractLsb'_append_eq_of_le (by decide)
    rw [hle, extractLsb'_extractLsb' p (by decide)]

theorem place_line (c : ArianeCfg) (p : BitVec 56) :
    (requestAddr c false p).extractLsb' 3 53 + (if p.extractLsb' 3 1 = 1 then 1 else 0) = p.extractLsb' 3 53 := by
  have hbit : (p.extractLsb' 3 1).toNat = p.toNat / 8 % 2 := by
    rw [BitVec.extractLsb'_toNat, Nat.shiftRight_eq_div_pow]
  have happ : (p.extractLsb' 4 52 ++ 0#4 : BitVec 56).toNat = p.toNat / 16 % 2 ^ 52 * 16 :=
    (BitVec.toNat_append ..).trans (by simp [BitVec.extractLsb'_toNat, Nat.shiftRight_eq_div_pow, Nat.shiftLeft_eq])
  have hlt := p.isLt
  apply BitVec.eq_of_toNat_eq
  rw [requestAddr, if_neg Bool.false_ne_true]
  split_ifs with hb
  · rw [hb] at hbit
    simp only [BitVec.extractLsb'_toNat, BitVec.toNat_add, Nat.shiftRight_eq_div_pow, happ]
    simp at hbit ⊢
    omega
  · have hb0 : p.extractLsb' 3 1 = 0 := by
      generalize p.extractLsb' 3 1 = b at hb
      revert b
      decide
    rw [hb0] at hbit
    simp only [BitVec.extractLsb'_toNat, BitVec.toNat_add, Nat.shiftRight_eq_div_pow, happ]
    simp at hbit ⊢
    omega

/-- The word that is taken from a return is the word of its address. -/
theorem Return.Made.word {r : Return} {p : BitVec 56} {v : BitVec 32} (h : r.Made mem) (hg : r.Gives c p v) :
    ∃ d, mem (p.extractLsb' 3 53) d ∧ v = wordAt d p := by
  obtain ⟨haddr, rfl⟩ := hg
  cases hnc : r.nc with
  | true =>
    rw [Return.Made, if_pos hnc, haddr, hnc, place_word] at h
    obtain ⟨d, hm, hd⟩ := h
    refine ⟨d, hm, ?_⟩
    have hoff : ∃ o : BitVec 2, returnOffset c true p = o ++ 0#2 ∧ o.extractLsb' 0 1 = p.extractLsb' 2 1 := by
      rw [returnOffset, Bool.true_and]
      split_ifs
      · exact ⟨0#1 ++ p.extractLsb' 2 1, rfl, BitVec.extractLsb'_append_eq_right⟩
      · exact ⟨_, rfl, extractLsb'_extractLsb' p (by decide)⟩
    obtain ⟨o, ho, hlow⟩ := hoff
    rw [hd, ho, wordOf_append, ite_self, hlow, wordAt]
  | false =>
    rw [Return.Made, hnc, if_neg Bool.false_ne_true, haddr, hnc] at h
    obtain ⟨d, d', hm, hm', hd⟩ := h
    have hplace := place_line c p
    rw [hd, returnOffset, Bool.false_and, if_neg Bool.false_ne_true, wordOf_append,
      extractLsb'_extractLsb' p (by decide), extractLsb'_extractLsb' p (by decide)]
    split_ifs at hplace ⊢ with hb
    · exact ⟨d', hplace ▸ hm', rfl⟩
    · rw [add_zero] at hplace
      exact ⟨d, hplace ▸ hm, rfl⟩

/-! ### Runs -/

variable {x : FetchPort × FetchLog} {i : FetchIn}

/-- The request does not depend on its acknowledgement. -/
theorem memDataReq_ack (q : Cva6Icache) (j : IcacheIn) (ack : Bool) :
    (q.fsm c { j with memDataAck := ack }).memDataReq = (q.fsm c j).memDataReq := by
  simp only [Cva6Icache.fsm]
  cases q.state with
  | flush | idle | miss | killAtrans | killMiss => rfl
  | read =>
    simp only [Cva6Icache.fsmRead, apply_ite Fsm.memDataReq, ite_self]
    rfl

/-- What is kept in every run. -/
structure PortInv (c : ArianeCfg) (mem : BitVec 53 → BitVec 64 → Prop) (x : FetchPort × FetchLog) : Prop where
  cache : (icache c).Reachable (Env c) (x.1.cache, x.2.ledger)
  waits : Waits mem x.1.wrapper x.2.bus x.2.ledger.outstanding
  made : ∀ r ∈ x.2.ledger.returns, r.Made mem

namespace PortInv

/-- The wrapper keeps the promises of the cache's surroundings. -/
theorem env (h : PortInv c mem x) (hi : FetchEnv c mem x i) : Env c (x.1.cache, x.2.ledger) (x.1.cacheIn c i) where
  noInval _ := rfl
  answers hr := h.waits.isSome hi.beat hr
  fetchReq := hi.fetchReq
  offset := hi.offset
  same := hi.same
  enable := hi.enable

theorem memDataReq_eq : (x.1.cache.fsm c (x.1.cacheIn c i)).memDataReq = x.1.memDataReq c i := memDataReq_ack _ _ _

theorem single (h : PortInv c mem x) (hi : FetchEnv c mem x i) (hq : x.1.memDataReq c i = true) :
    x.2.ledger.outstanding = none :=
  (inv_of_reachable h.cache).single (h.env hi) (memDataReq_eq.trans hq)

theorem outstanding_eq : (x.2.watch c x.1 i).ledger.outstanding = if x.1.memDataReq c i then some (x.1.memData c i)
    else if AxiWrapper.memRtrnVld i.axi then none else x.2.ledger.outstanding := by
  have hsends : Ledger.sends c x.1.cache (x.1.cacheIn c i) = x.1.memDataReq c i := by
    rw [Ledger.sends, memDataReq_eq]
    exact Bool.and_self _
  have hfill : (x.1.cacheIn c i).ifillAck = AxiWrapper.memRtrnVld i.axi := Bool.and_true _
  simp only [FetchLog.watch, Ledger.watch, hsends, hfill]
  rfl

/-- A return of this cycle is made of the beats. -/
theorem made_now (h : PortInv c mem x) (hi : FetchEnv c mem x i) (r : Return)
    (hr : r ∈ x.2.ledger.returnNow (x.1.cacheIn c i)) : r.Made mem := by
  have hw := h.waits
  rw [Ledger.returnNow] at hr
  cases ho : x.2.ledger.outstanding with
  | none =>
    rw [ho] at hr
    exact absurd hr List.not_mem_nil
  | some o =>
    rw [ho] at hr hw
    have hfill : (x.1.cacheIn c i).ifillAck = AxiWrapper.memRtrnVld i.axi := Bool.and_true _
    cases hv : AxiWrapper.memRtrnVld i.axi with
    | false => simp [hfill, hv] at hr
    | true =>
      simp only [hfill, hv, if_true, List.mem_singleton] at hr
      rw [hr]
      exact hw.made hi.beat hv

theorem step (h : PortInv c mem x) (hi : FetchEnv c mem x i) : PortInv c mem ((fetchPort c).next x i) where
  cache := .step _ h.cache (h.env hi)
  waits := by
    have hw : Waits mem ((fetchPort c).next x i).1.wrapper ((fetchPort c).next x i).2.bus
        (if x.1.memDataReq c i then some (x.1.memData c i)
          else if AxiWrapper.memRtrnVld i.axi then none else x.2.ledger.outstanding) :=
            h.waits.step hi.beat (h.single hi)
    rw [← outstanding_eq] at hw
    exact hw
  made r hr := by
    change r ∈ (x.2.ledger.watch c x.1.cache (x.1.cacheIn c i)).returns at hr
    simp only [Ledger.watch] at hr
    split_ifs at hr
    · exact absurd hr List.not_mem_nil
    · exact (List.mem_append.mp hr).elim (h.made r) (h.made_now hi r)

theorem of_reachable (hr : (fetchPort c).Reachable (FetchEnv c mem) x) : PortInv c mem x := by
  induction hr with
  | @init x h0 =>
    obtain ⟨s, g⟩ := x
    obtain ⟨⟨hc, hw⟩, rfl⟩ := h0
    refine ⟨.init ⟨hc, rfl⟩, ?_, fun r hr => absurd hr List.not_mem_nil⟩
    rw [hw]
    exact .rest rfl rfl rfl
  | step i _ hi ih => exact ih.step hi

/-- The address of a burst waits on the bus, and no other request comes. -/
theorem ar_held (h : PortInv c mem x) (hi : FetchEnv c mem x i) (hv : x.1.arValid c i = true)
    (hr : i.axi.arReady = false) (j : FetchIn) (hj : FetchEnv c mem ((fetchPort c).next x i) j) :
    ((fetchPort c).next x i).1.arValid c j = true ∧ ((fetchPort c).next x i).1.ar c j = x.1.ar c i := by
  have hnext := h.step hi
  have hreq : ((fetchPort c).next x i).1.wrapper.reqValid = true := by
    change (!(x.1.arValid c i && i.axi.arReady) && x.1.arValid c i) = true
    rw [hv, hr]
    rfl
  have hnone : ((fetchPort c).next x i).1.memDataReq c j = false := by
    rw [Bool.eq_false_iff]
    intro hq
    have ho := hnext.waits
    rw [hnext.single hj hq] at ho
    cases ho with
    | rest hv' => exact absurd (hv'.symm.trans hreq) Bool.false_ne_true
  refine ⟨?_, ?_⟩
  · rw [FetchPort.arValid, AxiWrapper.rdReq, hreq, Bool.or_true]
  · rw [FetchPort.ar, AxiWrapper.reqDataD, hnone, if_neg Bool.false_ne_true]
    rfl

end PortInv

/-- What holds in each cycle of the cache on its bus. -/
structure FetchOverAxi (c : ArianeCfg) (mem : BitVec 53 → BitVec 64 → Prop) (x : FetchPort × FetchLog)
    (i : FetchIn) : Prop where
  protocol : FetchProtocol c (x.1.cache, x.2.ledger) (x.1.cacheIn c i)
  /-- a burst is asked for only when the one before has ended -/
  single : x.1.arValid c i = true → x.2.bus.burst = none
  /-- its address is held until it is taken -/
  held : x.1.arValid c i = true → i.axi.arReady = false → ∀ j, FetchEnv c mem ((fetchPort c).next x i) j →
    ((fetchPort c).next x i).1.arValid c j = true ∧ ((fetchPort c).next x i).1.ar c j = x.1.ar c i
  /-- what is fetched has come from memory -/
  word : (x.1.cache.fsm c (x.1.cacheIn c i)).valid = true → i.core.fetchException = false →
    ∃ p v, x.2.ledger.translated x.1.cache (x.1.cacheIn c i) = some p ∧ Translates x.1.cache.vaddr p ∧
      mem (p.extractLsb' 3 53) v ∧ x.1.cache.dreqData (x.1.cacheIn c i) = wordAt v p

/-- Over every run of the core and the bus, each instruction word is one that the bus has given for its
physical address, and the bus is used as it has to be. -/
theorem fetch_over_axi (c : ArianeCfg) (mem : BitVec 53 → BitVec 64 → Prop) (x : FetchPort × FetchLog)
    (hr : (fetchPort c).Reachable (FetchEnv c mem) x) (i : FetchIn) (hi : FetchEnv c mem x i) :
    FetchOverAxi c mem x i := by
  have h := PortInv.of_reachable hr
  have hproto := (inv_of_reachable h.cache).protocol (h.env hi)
  constructor
  case protocol => exact hproto
  case held => exact h.ar_held hi
  case single =>
    intro hv
    have hw := h.waits
    rw [FetchPort.arValid, AxiWrapper.rdReq, Bool.or_eq_true] at hv
    rcases hv with hq | hq
    · rw [h.single hi hq] at hw
      cases hw with
      | rest _ _ hb => exact hb
    · generalize x.2.ledger.outstanding = o at hw
      cases hw with
      | rest _ _ hb => exact hb
      | asks _ _ _ hb => exact hb
      | begun hv' => exact absurd (hv'.symm.trans hq) Bool.false_ne_true
      | half hv' => exact absurd (hv'.symm.trans hq) Bool.false_ne_true
  case word =>
    intro hv he
    obtain ⟨p, r, htr, hp, hmem, hg, -⟩ := hproto.word hv he
    have hmade : r.Made mem := (List.mem_append.mp hmem).elim (h.made r) (h.made_now hi r)
    obtain ⟨v, hm, hw⟩ := hmade.word hg
    exact ⟨p, v, htr, hp, hm, hw⟩

/-! ### A line is fetched -/

instance [∀ k v, Decidable (mem k v)] : Decidable (g.Beat mem a) :=
  decidable_of_iff (a.rValid = true → (g.burst.any fun b => decide ((a.rLast = true ↔ g.beats.length = b.len.toNat) ∧
      mem (b.addr.extractLsb' 3 53 + BitVec.ofNat 53 g.beats.length) a.rData)) = true)
    (imp_congr_right fun _ => by cases g.burst <;> simp only [Option.any, decide_eq_true_eq] <;> simp)

instance [∀ k v, Decidable (mem k v)] : Decidable (FetchEnv c mem x i) :=
  decidable_of_iff ((i.core.fetchValid = true → (x.1.cache.fsm c (x.1.cacheIn c i)).fetchReq = true) ∧
      (x.1.cache.state = .read → i.core.fetchValid = true → i.core.fetchException = false →
        i.core.fetchPaddr.extractLsb' 2 10 = x.1.cache.fetchVaddr.extractLsb' 2 10) ∧
      (x.1.cache.state = .read → i.core.fetchValid = true → i.core.fetchException = false →
        (x.2.ledger.paddr.all fun p => i.core.fetchPaddr == p) = true) ∧
      (i.core.initN = true → i.core.en = true → x.1.cache.cacheEn = true ∨ x.1.cache.state = .flush) ∧
      x.2.bus.Beat mem i.axi)
    ⟨fun ⟨a, b, d, e, f⟩ => ⟨a, b, fun h1 h2 h3 => all_eq.mp (d h1 h2 h3), e, f⟩,
      fun ⟨a, b, d, e, f⟩ => ⟨a, b, fun h1 h2 h3 => all_eq.mpr (d h1 h2 h3), e, f⟩⟩

/-- Each word of memory is its number. -/
def wordNumbers (k : BitVec 53) (v : BitVec 64) : Prop := v = (2 * k + 1).setWidth 32 ++ (2 * k).setWidth 32

instance : ∀ k v, Decidable (wordNumbers k v) := fun _ _ => inferInstanceAs (Decidable (_ = _))

def fetchStart : FetchPort × FetchLog := (⟨resetState, .reset⟩, ⟨.empty, ⟨none, []⟩⟩)

/-- The cache is enabled from the reset on, and a jump to the middle of a word is fetched over a miss. -/
def fetchRun : List FetchIn :=
  let core := { noInput with en := true }
  let bus : AxiReadResp := ⟨false, false, false, 0⟩
  List.replicate 256 ⟨core, bus⟩ ++
    [⟨{ core with req := true, vaddr := 0x100a }, bus⟩,
      ⟨{ core with fetchValid := true, fetchPaddr := 0x80001008 }, { bus with arReady := true }⟩,
      ⟨core, { bus with rValid := true, rData := 0x2000040120000400 }⟩]

def lastBeat : FetchIn := ⟨{ noInput with en := true }, ⟨false, true, true, 0x2000040320000402⟩⟩

def fetchEnd : FetchPort × FetchLog := (fetchPort plainCfg).run fetchStart fetchRun

set_option maxRecDepth 4000 in
theorem fetch_over_axi_answer : (fetchEnd.1.cache.fsm plainCfg (fetchEnd.1.cacheIn plainCfg lastBeat)).valid = true ∧
    fetchEnd.1.cache.dreqData (fetchEnd.1.cacheIn plainCfg lastBeat) = 0x20000402 ∧
    fetchEnd.2.bus.burst = some ⟨0x80001000, 1⟩ ∧ FetchOverAxi plainCfg wordNumbers fetchEnd lastBeat := by
  have h0 : (fetchPort plainCfg).init fetchStart := ⟨⟨⟨rfl, rfl, rfl, rfl, rfl, rfl, rfl, rfl, rfl, rfl⟩, rfl⟩, rfl⟩
  have hr : (fetchPort plainCfg).Reachable (FetchEnv plainCfg wordNumbers) fetchEnd :=
    .run (.init h0) (by decide +kernel)
  have hi : FetchEnv plainCfg wordNumbers fetchEnd lastBeat := by decide +kernel
  exact ⟨by decide +kernel, by decide +kernel, by decide +kernel,
    fetch_over_axi plainCfg wordNumbers fetchEnd hr lastBeat hi⟩

end Culsans.Icache
