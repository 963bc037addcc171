import Culsans.Icache.FetchLines

/-! # The protocol of the instruction cache

Every answer without an exception is what memory has returned for its address, and no request that
has been killed or flushed is answered or written.
-/

namespace Culsans.Icache
open Library

variable {c : ArianeCfg} {q : Cva6Icache} {i : IcacheIn} {x : Cva6Icache × Ledger} {p : BitVec 56} {k : Way}

/-! ### Answers -/

theorem Does.answered {f : Fsm} (h : Does c q i f) (hv : f.valid = true) :
    i.killS2 = false ∧ (q.flushQ || i.flush) = false ∧ (q.state = .read ∧ translates c i = true ∧
    q.answers i = true ∨ q.state = .miss ∧ i.ifillAck = true) := by
  cases h <;> simp_all [Cva6Icache.fsmDefault, Cva6Icache.lookup]

theorem Does.written {f : Fsm} (h : Does c q i f) (hw : f.cacheWren = true) : f.valid = true := by
  cases h <;> simp_all [Cva6Icache.fsmDefault, Cva6Icache.lookup]

/-- The way that is put out has the tag. -/
theorem hit_spec (h : q.clHit i ≠ 0) : (q.tagSram (Fin.ofNat 4 (q.hitIdx i))).rdata.vld = true ∧
    (q.tagSram (Fin.ofNat 4 (q.hitIdx i))).rdata.tag = q.clTagD i := by
  obtain ⟨j, hj⟩ : ∃ j, (q.clHit i).getLsbD j = true := by
    by_contra hno
    refine h (BitVec.eq_of_getLsbD_eq fun j _ => ?_)
    exact (Bool.eq_false_iff.mpr fun hj => hno ⟨j, hj⟩).trans BitVec.getLsbD_zero.symm
  obtain ⟨hbit, -⟩ := Core.Lzc.trailing_spec (by omega) hj
  have hlt : q.hitIdx i < 4 := BitVec.lt_of_getLsbD hbit
  have hval : ((Fin.ofNat 4 (q.hitIdx i) : Way) : ℕ) = q.hitIdx i := Nat.mod_eq_of_lt hlt
  have hway := getLsbD_ways (fun k => (q.tagSram k).rdata.tag == q.clTagD i &&
    (q.tagSram k).rdata.vld) (Fin.ofNat 4 (q.hitIdx i))
  rw [hval] at hway
  have hb := hway.symm.trans hbit
  rw [Bool.and_eq_true, beq_iff_eq] at hb
  exact ⟨hb.2, hb.1⟩

namespace Inv

/-- A hit is a line that has been returned. -/
theorem answer_hit (h : Inv c x) (hi : Env c x i) (hs : x.1.state = .read) (ht : translates c i = true)
    (ha : x.1.answers i = true) (he : i.fetchException = false) :
    ∃ p r, x.2.translated x.1 i = some p ∧ Translates x.1.vaddr p ∧
      r ∈ x.2.returns ∧ r.Gives c p (x.1.dreqData i) ∧ r.nc = false := by
  rw [translates, Bool.and_eq_true] at ht
  rw [Cva6Icache.answers, he, Bool.or_false, Bool.and_eq_true, bne_iff_ne] at ha
  obtain ⟨hvld, htag⟩ := hit_spec ha.1
  have htagD : x.1.clTagD i = tagOf i.fetchPaddr := by
    rw [Cva6Icache.clTagD, if_pos ht.1]
    rfl
  have htr := hi.translates hs ht.1 he
  obtain ⟨hr, hd⟩ := (h.lookup hs).rdata ha.2 (Fin.ofNat 4 (x.1.hitIdx i))
  rw [hr] at hvld htag
  have hp : x.1.Present (indexOf x.1.vaddr) (tagOf i.fetchPaddr) (Fin.ofNat 4 (x.1.hitIdx i)) :=
    ⟨hvld, htag.trans htagD⟩
  obtain ⟨hc, r, hmem, hnc, haddr, hdata⟩ := h.lines.held (by rw [hs]; decide) _ _ _ hp
  have hcmp : x.1.cmpEn = true := by
    refine ((h.lookup hs).cmpEn ha.2).resolve_right ?_
    rintro ⟨p, hmem, hno⟩
    rw [← hi.same hs ht.1 he p hmem] at hno
    exact hno _ hp
  have hoff : x.1.clOffset = lineOffset x.1.vaddr := by
    refine (h.lookup hs).offset.resolve_right ?_
    rintro ⟨-, -, p, hmem, hword⟩
    rw [← hi.same hs ht.1 he p hmem] at hword
    rcases hword with hen | hno
    · exact Bool.false_ne_true (hen.symm.trans ha.2)
    · exact Bool.false_ne_true (hno.symm.trans hc)
  refine ⟨i.fetchPaddr, r, ?_, htr, hmem, ⟨?_, ?_⟩, hnc⟩
  · rw [Ledger.translated, hs, ht.1, he]
    rfl
  · rw [haddr, hnc, ← requestAddr_eq htr]
    rfl
  · rw [Cva6Icache.dreqData, if_pos hcmp, hd, hdata, hnc, returnOffset_eq htr, hoff]
    rfl

/-- A fetch is answered with what returns. -/
theorem answer_fill (h : Inv c x) (hs : x.1.state = .miss) (ha : i.ifillAck = true) :
    ∃ p r, x.2.translated x.1 i = some p ∧ Translates x.1.vaddr p ∧ r ∈ x.2.returnNow i ∧
    r.Gives c p (x.1.dreqData i) := by
  obtain ⟨p, o, hp⟩ := h.fetching hs
  refine ⟨p, ⟨o.paddr, o.nc, i.memRtrn.data⟩, ?_, hp.translates, ?_, hp.request, ?_⟩
  · rw [Ledger.translated, hs]
    exact hp.paddr
  · rw [Ledger.returnNow, hp.outstanding, ha]
    exact List.mem_singleton_self _
  · rw [Cva6Icache.dreqData, hp.cmpEn, if_neg Bool.false_ne_true, hp.offset]

end Inv

/-! ### The protocol -/

/-- What holds in each cycle. -/
structure FetchProtocol (c : ArianeCfg) (x : Cva6Icache × Ledger) (i : IcacheIn) : Prop where
  single : (x.1.fsm c i).memDataReq = true → x.2.outstanding = none
  count : x.2.sent = x.2.consumed + x.2.outstanding.isSome.toNat
  consumed : i.memRtrnVld = true → Ledger.consumes x.1 i = true
  valid : (x.1.fsm c i).valid = true → x.2.live = true ∧ i.killS2 = false ∧ i.flush = false
  writes : (x.2.live && !(i.killS2 || i.flush)) = false →
    ∀ n k, (x.1.step c i).line n k = x.1.line n k ∧ ∀ t, (x.1.step c i).Present n t k → x.1.Present n t k
  word : (x.1.fsm c i).valid = true → i.fetchException = false → ∃ p r, x.2.translated x.1 i = some p ∧
    Translates x.1.vaddr p ∧ r ∈ x.2.returns ++ x.2.returnNow i ∧ r.Gives c p (x.1.dreqData i) ∧
    (r.nc = true → r ∈ x.2.returnNow i)
  unique : ∀ n, x.2.cleared = true ∨ n < x.1.flushCnt → ∀ t k k', x.1.Present n t k → x.1.Present n t k' → k = k'
  flushed : x.1.state = .flush → (x.1.step c i).state ≠ .flush → ∀ n k, ((x.1.step c i).entry n k).vld = false

namespace Inv

theorem live_of_valid (h : Inv c x) (hi : Env c x i) (hv : (x.1.fsm c i).valid = true) :
    x.2.live = true ∧ i.killS2 = false ∧ i.flush = false := by
  obtain ⟨hk, hf, hs⟩ := (h.control.does hi).answered hv
  rw [Bool.or_eq_false_iff] at hf
  exact ⟨h.control.live.mpr (hs.imp (fun ha => ha.1) (fun ha => ha.1)), hk, hf.2⟩

theorem single (h : Inv c x) (hi : Env c x i) (hm : (x.1.fsm c i).memDataReq = true) : x.2.outstanding = none := by
  have hd := h.control.does hi
  have hs : x.1.state = .read := by
    generalize x.1.fsm c i = f at hd hm
    cases hd <;> simp_all [Cva6Icache.fsmDefault, Cva6Icache.lookup]
  rw [← Option.not_isSome_iff_eq_none, h.control.outstanding, hs]
  decide

theorem consumed (h : Inv c x) (hi : Env c x i) (hr : i.memRtrnVld = true) : Ledger.consumes x.1 i = true := by
  rw [Ledger.consumes, IcacheIn.ifillAck, hr, hi.noInval hr]
  rcases h.control.outstanding.mp (hi.answers hr) with hs | hs
  · rw [hs]
    rfl
  · rw [hs]
    rfl

/-- Without a request that may be answered nothing is written. -/
theorem unwritten (h : Inv c x) (hi : Env c x i) (hl : (x.2.live && !(i.killS2 || i.flush)) = false) (n : Index)
    (k : Way) :
    (x.1.step c i).line n k = x.1.line n k ∧ ∀ t, (x.1.step c i).Present n t k → x.1.Present n t k := by
  have hd := h.control.does hi
  have hw : (x.1.fsm c i).cacheWren = false := by
    rw [Bool.eq_false_iff]
    intro hw
    obtain ⟨h1, h2, h3⟩ := h.live_of_valid hi (hd.written hw)
    rw [h1, h2, h3] at hl
    cases hl
  by_cases hs : x.1.state = .flush
  · refine ⟨?_, fun t hp => (h.present_clear hi hs hp).2⟩
    exact line_same hw n k
  · exact ⟨(entry_same hd hi.invEn_eq hs hw n k).2, fun t => (h.present_same hi hs hw).mp⟩

theorem flushed (h : Inv c x) (hi : Env c x i) (hs : x.1.state = .flush) (hs' : (x.1.step c i).state ≠ .flush)
    (n : Index) (k : Way) :
    ((x.1.step c i).entry n k).vld = false := by
  have hd := h.control.does hi
  rw [entry_clear hd hs]
  split_ifs with he
  · rfl
  · rcases flushCnt_step hd hs with ⟨-, hcnt, -⟩ | ⟨hdone, -, -⟩
    · exact h.lines.emptied hs n (by bv_omega) k
    · refine absurd ?_ hs'
      simp only [Cva6Icache.step]
      generalize x.1.fsm c i = f at hd
      cases hd <;> simp_all

/-- The word of an answer without an exception. -/
theorem word (h : Inv c x) (hi : Env c x i) (hv : (x.1.fsm c i).valid = true) (he : i.fetchException = false) :
    ∃ p r, x.2.translated x.1 i = some p ∧ Translates x.1.vaddr p ∧ r ∈ x.2.returns ++ x.2.returnNow i ∧
      r.Gives c p (x.1.dreqData i) ∧ (r.nc = true → r ∈ x.2.returnNow i) := by
  obtain ⟨-, -, hs⟩ := (h.control.does hi).answered hv
  rcases hs with ⟨hs, ht, ha⟩ | ⟨hs, ha⟩
  · obtain ⟨p, r, htr, hp, hmem, hg, hnc⟩ := h.answer_hit hi hs ht ha he
    have hcached : ¬ r.nc = true := Bool.eq_false_iff.mp hnc
    exact ⟨p, r, htr, hp, List.mem_append_left _ hmem, hg, fun hn => absurd hn hcached⟩
  · obtain ⟨p, r, htr, hp, hmem, hg⟩ := h.answer_fill hs ha
    exact ⟨p, r, htr, hp, List.mem_append_right _ hmem, hg, fun _ => hmem⟩

theorem protocol (h : Inv c x) (hi : Env c x i) : FetchProtocol c x i where
  single := h.single hi
  count := h.control.count
  consumed := h.consumed hi
  valid := h.live_of_valid hi
  writes := h.unwritten hi
  word := h.word hi
  unique := h.lines.unique
  flushed := h.flushed hi

end Inv

/-- Over every run of requests, kills, flushes and enables, the memory requests are answered one at a
time, each answer is the word that has been returned for its address, and no set holds a tag twice. -/
theorem fetch_protocol (c : ArianeCfg) (x : Cva6Icache × Ledger) (hr : (icache c).Reachable (Env c) x)
    (i : IcacheIn) (hi : Env c x i) :
    FetchProtocol c x i :=
  (inv_of_reachable hr).protocol hi

/-! A fetch with the cache disabled, after the flush that follows reset. -/

def plainCfg : ArianeCfg := ⟨fun _ => true, fun _ => false, true⟩

def resetState : Cva6Icache where
  state := .flush
  cacheEn := false
  cmpEn := false
  flushQ := false
  invQ := false
  flushCnt := 0
  vaddr := 0
  clOffset := 0
  clTag := 0
  replWayOh := 0
  tagSram := fun _ => ⟨fun _ => ⟨false, 0⟩, 0, ⟨false, 0⟩⟩
  dataSram := fun _ => ⟨fun _ => 0, 0, 0⟩

def noInput : IcacheIn where
  flush := false
  en := false
  stall := false
  initN := false
  fetchValid := false
  fetchPaddr := 0
  fetchException := false
  req := false
  killS1 := false
  killS2 := false
  spec := false
  vaddr := 0
  memRtrnVld := false
  memRtrn := ⟨.icacheIfillAck, 0, ⟨false, false, 0, 0⟩⟩
  memDataAck := false
  rndWay := 0

/-- A state in which nothing is under way. -/
structure Quiet (x : Cva6Icache × Ledger) : Prop where
  reachable : (icache plainCfg).Reachable (Env plainCfg) x
  cacheEn : x.1.cacheEn = false
  flushQ : x.1.flushQ = false

theorem env_noInput (j : IcacheIn) (hr : j.memRtrnVld = false) (hv : j.fetchValid = false) (hn : j.initN = false) :
    Env c x j where
  noInval h := by rw [hr] at h; cases h
  answers h := by rw [hr] at h; cases h
  fetchReq h := by rw [hv] at h; cases h
  offset _ h := by rw [hv] at h; cases h
  same _ h := by rw [hv] at h; cases h
  enable h := by rw [hn] at h; cases h

theorem quiet_step (h : Quiet x) : Quiet ((icache plainCfg).next x noInput) := by
  have hi : Env plainCfg x noInput := env_noInput _ rfl rfl rfl
  have hd := (control_of_reachable h.reachable).does hi
  have hen := h.cacheEn
  have hfl := h.flushQ
  have hf : (x.1.fsm plainCfg noInput).cacheEnD = false ∧ (x.1.fsm plainCfg noInput).flushD = false := by
    generalize x.1.fsm plainCfg noInput = f at hd
    cases hd <;> simp_all [Cva6Icache.fsmDefault, Cva6Icache.lookup, noInput]
  exact ⟨.step _ h.reachable hi, hf.1, hf.2⟩

/-- The flush goes through the sets. -/
theorem exists_flushing (n : ℕ) (hn : n ≤ 255) : ∃ x, Quiet x ∧ x.1.state = .flush ∧
    x.1.flushCnt = BitVec.ofNat 8 n := by
  induction n with
  | zero =>
    exact ⟨(resetState, .empty), ⟨.init ⟨⟨rfl, rfl, rfl, rfl, rfl, rfl, rfl, rfl, rfl, rfl⟩, rfl⟩, rfl, rfl⟩, rfl, rfl⟩
  | succ n ih =>
    obtain ⟨x, hx, hs, hcnt⟩ := ih (by omega)
    have hdone : x.1.flushDone = false := by
      rw [Cva6Icache.flushDone, hcnt, beq_eq_false_iff_ne]
      bv_omega
    refine ⟨_, quiet_step hx, ?_, ?_⟩
    · change (x.1.fsm plainCfg noInput).stateD = .flush
      simp [Cva6Icache.fsm, hs, Cva6Icache.fsmFlush, hdone, Cva6Icache.fsmDefault]
    · change (if x.1.flushDone then 0 else if (x.1.fsm plainCfg noInput).flushEn then x.1.flushCnt + 1
        else x.1.flushCnt) = _
      simp [Cva6Icache.fsm, hs, Cva6Icache.fsmFlush, hdone, hcnt, BitVec.ofNat_add]

theorem exists_idle : ∃ x, Quiet x ∧ x.1.state = .idle := by
  obtain ⟨x, hx, hs, hcnt⟩ := exists_flushing 255 le_rfl
  have hdone : x.1.flushDone = true := by
    rw [Cva6Icache.flushDone, hcnt]
    rfl
  refine ⟨_, quiet_step hx, ?_⟩
  change (x.1.fsm plainCfg noInput).stateD = .idle
  simp [Cva6Icache.fsm, hs, Cva6Icache.fsmFlush, hdone]

def requestIn : IcacheIn := { noInput with req := true, vaddr := 0x1004 }
def translateIn : IcacheIn := { noInput with fetchValid := true, fetchPaddr := 0x80001004, memDataAck := true }
def returnIn : IcacheIn := { noInput with
  memRtrnVld := true, memRtrn := ⟨.icacheIfillAck, 0x0000001300000093, ⟨false, false, 0, 0⟩⟩ }

theorem exists_read : ∃ x, Quiet x ∧ x.1.state = .read ∧ x.1.vaddr = 0x1004 ∧ x.2.paddr = none := by
  obtain ⟨x, hx, hs⟩ := exists_idle
  have hf : x.1.fsm plainCfg requestIn = { x.1.fsmDefault requestIn with
    cmpEnD := false, ready := true, cacheRden := true, stateD := .read } := by
    simp [Cva6Icache.fsm, hs, Cva6Icache.fsmIdle, Cva6Icache.fsmDefault, requestIn, noInput, hx.cacheEn, hx.flushQ]
  refine ⟨(icache plainCfg).next x requestIn, ⟨.step _ hx.reachable (env_noInput _ rfl rfl rfl), ?_, ?_⟩, ?_, ?_, ?_⟩
  · change (x.1.fsm plainCfg requestIn).cacheEnD = false
    rw [hf]
    exact Bool.and_false _
  · change (x.1.fsm plainCfg requestIn).flushD = false
    rw [hf]
    exact (Bool.or_false _).trans hx.flushQ
  · change (x.1.fsm plainCfg requestIn).stateD = .read
    rw [hf]
  · change x.1.vaddrD plainCfg requestIn = 0x1004
    rw [Cva6Icache.vaddrD, hf]
    rfl
  · change (x.2.watch plainCfg x.1 requestIn).paddr = none
    rw [Ledger.watch, Ledger.accepts, hf]
    rfl

theorem exists_miss : ∃ x, Quiet x ∧ x.1.state = .miss := by
  obtain ⟨x, hx, hs, hv, hp⟩ := exists_read
  have hinv := (control_of_reachable hx.reachable).invQ
  have hf : x.1.fsm plainCfg translateIn = { x.1.lookup translateIn with
    cmpEnD := false, memDataReq := true, stateD := .miss } := by
    simp [Cva6Icache.fsm, hs, Cva6Icache.fsmRead, Cva6Icache.fsmDefault, Cva6Icache.lookup, translateIn, noInput,
      hx.cacheEn, hx.flushQ, hinv, Cva6Icache.paddrIsNc]
  refine ⟨(icache plainCfg).next x translateIn, ⟨.step _ hx.reachable ?_, ?_, ?_⟩, ?_⟩
  · constructor
    case noInval => intro h; cases h
    case answers => intro h; cases h
    case fetchReq =>
      intro _
      rw [hf]
      rfl
    case offset =>
      intro _ _ _
      rw [Cva6Icache.fetchVaddr, hv]
      rfl
    case same =>
      intro _ _ _ p hmem
      rw [hp] at hmem
      cases hmem
    case enable => intro h; cases h
  · change (x.1.fsm plainCfg translateIn).cacheEnD = false
    rw [hf]
    exact Bool.and_false _
  · change (x.1.fsm plainCfg translateIn).flushD = false
    rw [hf]
    exact (Bool.or_false _).trans hx.flushQ
  · change (x.1.fsm plainCfg translateIn).stateD = .miss
    rw [hf]

theorem fetch_protocol_answer : ∃ x, (icache plainCfg).Reachable (Env plainCfg) x ∧
    (x.1.fsm plainCfg returnIn).valid = true ∧ FetchProtocol plainCfg x returnIn := by
  obtain ⟨x, hx, hs⟩ := exists_miss
  refine ⟨x, hx.reachable, ?_, fetch_protocol _ x hx.reachable _ ?_⟩
  · simp [Cva6Icache.fsm, hs, Cva6Icache.fsmMiss, Cva6Icache.fsmDefault, IcacheIn.ifillAck, returnIn, noInput,
      hx.flushQ]
  · constructor
    case noInval => exact fun _ => rfl
    case answers => exact fun _ => (control_of_reachable hx.reachable).outstanding.mpr (.inl hs)
    case fetchReq => intro h; cases h
    case offset => intro _ h; cases h
    case same => intro _ h; cases h
    case enable => intro h; cases h

end Culsans.Icache
