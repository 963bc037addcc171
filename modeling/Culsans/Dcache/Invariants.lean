import Culsans.Dcache.Transitions

/-! # Invariants of every run

What a pending lookup is about and what the MSHR stands for. These hold for any
core requests, snoops and AXI timing.
-/

namespace Culsans.Dcache
open Library TagCmp

namespace Nbdcache
variable {c : Cfg} {s : Nbdcache} {i : CacheIn}

/-- Lookups are answered with the present contents of the set. -/
structure Lookups (s : Nbdcache) : Prop where
  evalFlags : s.snoop.state = .evalFlags →
    s.idq = some 1 ∧ ∀ w, s.rd.rdata w = s.arr s.snoop.memReq.index w
  writing : s.snoop.writing = true → anyWay s.snoop.hitWay = true
  ctrl : ∀ p, (s.ctrl p).lookingUp = true → s.idq = some (ctrlPortId p) ∧
    (∀ w, s.rd.rdata w = s.arr (s.ctrl p).memReq.index w) ∧ s.snoop.inFlight = false
  miss : s.miss.state = .missRepl ∨ s.miss.state = .checkBeforeClean →
    ∀ w, s.rd.rdata w = s.arr s.miss.mshr.addr.index w
  flushing : s.miss.state = .flushing → ∀ w, s.rd.rdata w = s.arr s.miss.cnt w

theorem snoopPort_inactive_of_ctrlGnt {p : Fin 3} (h : s.ctrlGnt c i p = true) :
    (s.missPort c i).active = false ∧ (s.snoopPort c i).active = false := by
  rw [ctrlGnt, gnt, gnt_iff] at h
  exact ⟨h 0 (by fin_cases p <;> decide), h 1 (by fin_cases p <;> decide)⟩

/-- A snoop in flight keeps the array away from the core-side controllers. -/
theorem ctrlGnt_of_inFlight (hl : s.snoop.writing = true → anyWay s.snoop.hitWay = true)
    (h : s.snoop.inFlight = true) (p : Fin 3) : s.ctrlGnt c i p = false := by
  by_contra hg
  have ha := (snoopPort_inactive_of_ctrlGnt (by simpa using hg)).2
  simp only [SnoopCtrl.inFlight, SnoopCtrl.writing, snoopPort, SnoopCtrl.port] at h hl ha
  cases hs : s.snoop.state <;>
    simp_all [ArrayPort.active, SnoopCtrl.updateSharedWrite, SnoopCtrl.invalidateWrite]

theorem step_inFlight_of_ctrlGnt (hl : s.snoop.writing = true → anyWay s.snoop.hitWay = true)
    {p : Fin 3} (h : s.ctrlGnt c i p = true) : (s.step c i).snoop.inFlight = false := by
  have hf : s.snoop.inFlight = false := by
    by_contra hf
    simp [ctrlGnt_of_inFlight hl (by simpa using hf) p] at h
  by_contra hn
  have hc : (s.step c i).snoop.state = .evalFlags ∨ (s.step c i).snoop.writing = true := by
    grind -ring -linarith [SnoopCtrl.inFlight, SnoopCtrl.writing]
  rcases hc with he | hw
  · obtain ⟨-, -, hp, -⟩ := SnoopCtrl.step_evalFlags he
    have ha := (snoopPort_inactive_of_ctrlGnt h).2
    simp [snoopPort, hp] at ha
  · rcases SnoopCtrl.step_writing hw with ⟨hq, -⟩ | ⟨hq, -⟩
    · grind -ring -linarith [SnoopCtrl.inFlight]
    · grind -ring -linarith [SnoopCtrl.inFlight, SnoopCtrl.writing]

/-- The registers of the miss handler after a lookup of its own. -/
theorem step_of_missLookup {a : Index} (hp : s.missPort c i = .lookup a) :
    (s.step c i).arr = s.arr ∧ ∀ w, (s.step c i).rd.rdata w = s.arr a w := by
  obtain ⟨ha, hr, -⟩ := step_of_lookup (k := 0) (gnt_zero _) hp
  exact ⟨ha, hr⟩

theorem lookups_step (h : s.Lookups) : (s.step c i).Lookups where
  evalFlags he := by
    obtain ⟨hq, hg, hp, hd⟩ := SnoopCtrl.step_evalFlags he
    obtain ⟨ha, hr, hid⟩ := step_of_lookup (k := 1) hg hp
    refine ⟨hid, fun w => ?_⟩
    rw [hr, ha]
    show _ = s.arr (s.snoop.step (s.snoopIn c i) (s.gnt c i 1)).memReq.index w
    rw [hd]
  writing hw := by
    rcases SnoopCtrl.step_writing hw with ⟨-, hh, hd, -⟩ | ⟨hq, -, hd⟩
    · exact (congrArg anyWay hd).trans hh
    · show anyWay (s.snoop.step (s.snoopIn c i) (s.gnt c i 1)).hitWay = true
      rw [hd]
      exact h.writing hq
  ctrl p hl := by
    obtain ⟨hg, hp⟩ := CacheCtrl.step_lookingUp hl
    obtain ⟨ha, hr, hid⟩ := step_of_lookup hg ((ports_ctrl p).trans hp)
    refine ⟨hid, fun w => ?_, step_inFlight_of_ctrlGnt h.writing hg⟩
    rw [hr, ha]
    rfl
  miss hm := by
    have hq : s.missPort c i = .lookup s.miss.mshr.addr.index ∧ (s.step c i).miss.mshr = s.miss.mshr := by
      rcases hm with hm | hm
      · obtain ⟨hq, hd⟩ := MissHandler.step_missRepl hm
        exact ⟨by simp [missPort, MissHandler.port, hq], hd⟩
      · obtain ⟨hq, hd⟩ := MissHandler.step_checkBeforeClean hm
        exact ⟨by simp [missPort, MissHandler.port, hq], hd⟩
    obtain ⟨ha, hr⟩ := step_of_missLookup hq.1
    intro w
    rw [hr, ha, hq.2]
  flushing hm := by
    obtain ⟨hq, hd⟩ := MissHandler.step_flushing hm
    have hp : s.missPort c i = .lookup s.miss.cnt := by simp [missPort, MissHandler.port, hq]
    obtain ⟨ha, hr⟩ := step_of_missLookup hp
    intro w
    rw [hr, ha]
    exact congrArg (s.arr · w) hd.symm

end Nbdcache

namespace MissHandler

/-- The MSHR is valid in the occupied states only, and its kind fits the state. -/
structure Consistent (q : MissHandler) : Prop where
  occupied : q.mshr.valid = q.occupied
  cleaning : q.cleaning = true → q.mshr.makeUnique = true
  colliding : q.mshr.valid = true → q.collidingClean = true → q.mshr.makeUnique = true
  evictIndex : q.state = .wbCachelineMiss → q.cnt = q.mshr.addr.index

theorem detectClean_makeUnique {q : MissHandler} {i : MissIn}
    (h : q.collidingClean = true → q.mshr.makeUnique = true) (hd : q.detectClean i = true) :
    q.mshr.makeUnique = true := by
  grind -ring -linarith [detectClean]

theorem consistent_step {q : MissHandler} {i : MissIn} (h : q.Consistent) : (q.step i).Consistent := by
  obtain ⟨ho, hc, hl, he⟩ := h
  have hm := moves q i
  have hdc := detectClean_makeUnique (q := q) (i := i)
  generalize q.step i = d at hm
  cases hm with
  | other _ ho' hd hmm =>
    have hv : d.mshr.valid = false := by rw [hmm, ho, ho']
    constructor <;> grind -ring -linarith [occupied, cleaning]
  | wait hw => constructor <;> grind -ring -linarith [occupied, cleaning, waiting]
  | _ =>
    constructor <;> simp_all [occupied, cleaning, refillState, allocate] <;> grind -ring -linarith

theorem missGnt_cases {q : MissHandler} {i : MissIn} {p : Fin 3} (h : q.missGnt i p = true) :
    q.mshr.id = p ∧
    (((q.state = .reqCacheline ∨ q.state = .reqCachelineUnique) ∧ i.axi.gnt = true ∧
        q.mshr.makeUnique = false) ∨
      (q.state = .saveCacheline ∧ i.axi.valid = true ∧ q.collidingClean = false ∧ q.mshr.makeUnique = true) ∨
      (q.state = .sendClean ∧ i.axi.valid = true ∧ q.collidingClean = false)) := by
  unfold missGnt at h
  cases hq : q.state <;> simp_all

/-- A valid MSHR was valid before or is allocated to the chosen requester. -/
theorem step_mshr_valid {q : MissHandler} {i : MissIn} (h : q.Consistent)
    (hv : (q.step i).mshr.valid = true) :
    (q.mshr.valid = true ∧ (q.step i).mshr = q.mshr) ∨
      ∃ p, q.state = .idle ∧ requester i = some p ∧ (q.step i).mshr = allocate p (i.missReq p) := by
  have hm := moves q i
  have ho := h.occupied
  generalize q.step i = d at hm hv
  cases hm with
  | allocate p hq hr n => exact .inr ⟨p, hq, hr, rfl⟩
  | saved => simp at hv
  | cleaned => simp at hv
  | other _ ho' hd hmm => exact .inl ⟨hmm ▸ hv, hmm⟩
  | _ => exact .inl ⟨hv, rfl⟩

/-- An upgrade that is answered releases the MSHR. -/
theorem missGnt_of_step {q : MissHandler} {i : MissIn} (hv : (q.step i).mshr.valid = true)
    (hu : q.mshr.makeUnique = true) (p : Fin 3) : q.missGnt i p = false := by
  by_contra hg
  obtain ⟨-, ⟨-, -, hn⟩ | ⟨hq, hx, hc, -⟩ | ⟨hq, hx, hc⟩⟩ := missGnt_cases (by simpa using hg)
  · simp [hu] at hn
  · simp [step, stepSave, hq, hx, hc] at hv
  · simp [step, hq, hx, hc] at hv

/-- A miss that is not an upgrade goes on until its refill is granted. -/
theorem step_refilling {q : MissHandler} {i : MissIn} (h : q.Consistent)
    (hf : (q.step i).refilling = true) (hu : (q.step i).mshr.makeUnique = false) :
    (q.refilling = true ∧ (q.step i).mshr = q.mshr ∧ ∀ p, q.missGnt i p = false) ∨
      ∃ p, q.state = .idle ∧ requester i = some p ∧ (q.step i).mshr = allocate p (i.missReq p) := by
  have hm := moves q i
  obtain ⟨ho, hc, hl, -⟩ := h
  generalize q.step i = d at hm hf hu
  cases hm with
  | allocate p hq hr n => exact .inr ⟨p, hq, hr, rfl⟩
  | other _ ho' hd hmm => simp_all [occupied, refilling]
  | wait hw =>
    refine .inl ⟨hf, rfl, fun p => ?_⟩
    simp_all [refilling, waiting, missGnt]
    grind -ring -linarith
  | _ => simp_all [occupied, refilling, cleaning, missGnt, refillState]

end MissHandler

namespace Nbdcache
variable {c : Cfg} {s : Nbdcache} {i : CacheIn}

/-- What the MSHR stands for while it is valid. -/
structure MshrInv (s : Nbdcache) : Prop where
  miss : s.miss.Consistent
  makeUnique : s.miss.mshr.valid = true → s.miss.mshr.makeUnique = true →
    (s.ctrl s.miss.mshr.id).state = .makeUnique ∧
      (s.ctrl s.miss.mshr.id).memReq.addr = s.miss.mshr.addr
  refilling : s.miss.refilling = true → s.miss.mshr.makeUnique = false →
    (s.ctrl s.miss.mshr.id).state = .waitRefillGnt ∧
      (s.ctrl s.miss.mshr.id).memReq.addr = s.miss.mshr.addr ∧
      (s.ctrl s.miss.mshr.id).memReq.bypass = false

theorem requester_spec {j : MissIn} {p : Fin 3} (h : MissHandler.requester j = some p) :
    (j.missReq p).valid = true ∧ ((j.missReq p).makeUnique = true ∨ (j.missReq p).bypass = false) := by
  have hp := List.find?_some h
  simpa using hp

theorem missReq_cases {q : CacheCtrl} (h : q.missReq.valid = true) :
    q.missReq.addr = q.memReq.addr ∧ q.missReq.we = q.memReq.we ∧
    ((q.state = .makeUnique ∧ q.missReq.makeUnique = true) ∨
      (q.state = .waitRefillGnt ∧ q.missReq.makeUnique = false ∧ q.missReq.bypass = q.memReq.bypass)) := by
  unfold CacheCtrl.missReq at h ⊢
  cases hq : q.state <;> simp_all

/-- A cacheable request is not granted by the bypass. -/
theorem bypassGnt_of_cached {p : Fin 3} (h : (s.ctrl p).missReq.bypass = false) :
    (s.bypassRsp c i (Fin.castSucc p)).gnt = false := by
  simp [bypassRsp, BypassArbiter.rsp, bypassReq, MissHandler.portBypassReq, h]

theorem makeUnique_step (h : s.MshrInv) (hv : (s.step c i).miss.mshr.valid = true)
    (hu : (s.step c i).miss.mshr.makeUnique = true) :
    ((s.step c i).ctrl (s.step c i).miss.mshr.id).state = .makeUnique ∧
      ((s.step c i).ctrl (s.step c i).miss.mshr.id).memReq.addr = (s.step c i).miss.mshr.addr := by
  rcases MissHandler.step_mshr_valid h.miss hv with ⟨hq, hd⟩ | ⟨p, hq, hr, hd⟩
  · have hd' : (s.step c i).miss.mshr = s.miss.mshr := hd
    rw [hd'] at hu ⊢
    obtain ⟨hs, ha⟩ := h.makeUnique hq hu
    have hg : s.miss.missGnt (s.missIn c i) s.miss.mshr.id = false :=
      MissHandler.missGnt_of_step hv hu s.miss.mshr.id
    obtain ⟨hs', hsame⟩ : ((s.step c i).ctrl s.miss.mshr.id).state = .makeUnique ∧
        (s.ctrl s.miss.mshr.id).SameRequest ((s.step c i).ctrl s.miss.mshr.id) :=
      CacheCtrl.step_of_makeUnique hs hg
    exact ⟨hs', hsame.2.1.trans ha⟩
  · have hd' : (s.step c i).miss.mshr = MissHandler.allocate p (s.ctrl p).missReq := hd
    rw [hd'] at hu ⊢
    obtain ⟨haddr, -, hk⟩ := missReq_cases (requester_spec hr).1
    have hs : (s.ctrl p).state = .makeUnique := by
      rcases hk with ⟨hs, -⟩ | ⟨-, hn, -⟩
      · exact hs
      · exact absurd (hu.symm.trans hn) (by decide)
    have hg : s.miss.missGnt (s.missIn c i) p = false := by simp [MissHandler.missGnt, hq]
    obtain ⟨hs', hsame⟩ : ((s.step c i).ctrl p).state = .makeUnique ∧
        (s.ctrl p).SameRequest ((s.step c i).ctrl p) := CacheCtrl.step_of_makeUnique hs hg
    exact ⟨hs', hsame.2.1.trans haddr.symm⟩

theorem step_waiting {p : Fin 3} (hs : (s.ctrl p).state = .waitRefillGnt)
    (ha : (s.ctrlIn c i p).mshrAddrMatches = false ∨ (s.ctrlIn c i p).activeServing = true)
    (hg : (s.ctrlIn c i p).missGnt = false) (hb : (s.ctrlIn c i p).bypassGnt = false) :
    ((s.step c i).ctrl p).state = .waitRefillGnt ∧
      ((s.step c i).ctrl p).memReq.bypass = (s.ctrl p).memReq.bypass ∧
      (s.ctrl p).SameRequest ((s.step c i).ctrl p) :=
  CacheCtrl.step_of_waitRefillGnt hs ha hg hb

theorem refilling_step (h : s.MshrInv) (hf : (s.step c i).miss.refilling = true)
    (hu : (s.step c i).miss.mshr.makeUnique = false) :
    ((s.step c i).ctrl (s.step c i).miss.mshr.id).state = .waitRefillGnt ∧
      ((s.step c i).ctrl (s.step c i).miss.mshr.id).memReq.addr = (s.step c i).miss.mshr.addr ∧
      ((s.step c i).ctrl (s.step c i).miss.mshr.id).memReq.bypass = false := by
  rcases MissHandler.step_refilling h.miss hf hu with ⟨hq, hd, hg⟩ | ⟨p, hq, hr, hd⟩
  · have hd' : (s.step c i).miss.mshr = s.miss.mshr := hd
    rw [hd'] at hu ⊢
    obtain ⟨hs, ha, hb⟩ := h.refilling hq hu
    have hv : s.miss.mshr.valid = true := by
      rw [h.miss.occupied]
      grind -ring -linarith [MissHandler.refilling, MissHandler.occupied]
    obtain ⟨hs', hb', hsame⟩ := step_waiting hs
      (.inr (by simp [ctrlIn, MissHandler.activeServing, hv])) (hg _)
      (bypassGnt_of_cached (by simp [CacheCtrl.missReq, hs, hb]))
    exact ⟨hs', hsame.2.1.trans ha, hb'.trans hb⟩
  · have hd' : (s.step c i).miss.mshr = MissHandler.allocate p (s.ctrl p).missReq := hd
    rw [hd'] at hu ⊢
    obtain ⟨hv, hk⟩ := requester_spec hr
    have hb : (s.ctrl p).missReq.bypass = false := hk.resolve_left (fun hk => absurd (hu.symm.trans hk) (by decide))
    obtain ⟨haddr, -, hk⟩ := missReq_cases hv
    rcases hk with ⟨-, hn⟩ | ⟨hs, -, hbq⟩
    · exact absurd (hu.symm.trans hn) (by decide)
    · have hvalid : s.miss.mshr.valid = false := by
        rw [h.miss.occupied]
        simp [MissHandler.occupied, hq]
      obtain ⟨hs', hb', hsame⟩ := step_waiting hs
        (.inl (by simp [ctrlIn, MissHandler.mshrAddrMatches, hvalid]))
        (by simp [ctrlIn, MissHandler.missGnt, hq]) (bypassGnt_of_cached hb)
      exact ⟨hs', hsame.2.1.trans haddr.symm, hb'.trans (hbq.symm.trans hb)⟩

theorem mshrInv_step (h : s.MshrInv) : (s.step c i).MshrInv where
  miss := MissHandler.consistent_step h.miss
  makeUnique := makeUnique_step h
  refilling := refilling_step h

variable {ok : Nbdcache → CacheIn → Prop}

/-- The two invariants that need no assumption on the environment. -/
structure Basic (s : Nbdcache) : Prop where
  lookups : s.Lookups
  mshr : s.MshrInv

theorem basic_init (h : s.IsReset) : s.Basic where
  lookups := by
    constructor
    · simp [h.snoop, SnoopCtrl.reset]
    · simp [h.snoop, SnoopCtrl.reset, SnoopCtrl.writing]
    · simp [h.ctrl, CacheCtrl.reset, CacheCtrl.lookingUp]
    · simp [h.miss, MissHandler.reset]
    · simp [h.miss, MissHandler.reset]
  mshr := by
    constructor
    · constructor <;> simp [h.miss, MissHandler.reset, MissHandler.occupied, MissHandler.cleaning]
    · simp [h.miss, MissHandler.reset]
    · simp [h.miss, MissHandler.reset, MissHandler.refilling]

theorem basic_reachable (h : (machine c).Reachable ok s) : s.Basic :=
  Machine.Reachable.invariant (P := Basic) (fun _ => basic_init)
    (fun _ _ hb _ => ⟨lookups_step hb.lookups, mshrInv_step hb.mshr⟩) h

end Nbdcache
end Culsans.Dcache
