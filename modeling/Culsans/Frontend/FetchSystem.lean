import Culsans.Frontend.ProgramOrder
import Culsans.Icache.FetchProtocol

/-! # The front end on the instruction cache

The front end relies on a cache that answers the request that waits for it, and on nothing else; this is what
the instruction cache does. What the two execute together is the program that memory holds.
-/

namespace Culsans.Frontend
open Library
open Icache (ArianeCfg Cva6Icache Ledger IcacheIn Env icache Does Return)

variable {depth n : ℕ}

/-- The inputs of the two; the signals between them are in both. -/
structure FetchCycle where
  core : CoreIn
  cache : IcacheIn

/-- The core and its instruction cache. -/
abbrev FetchSystem (depth n : ℕ) := ((FrontEnd depth n × FrontLog) × ProgramLog) × (Cva6Icache × Ledger)

namespace FetchSystem
variable (x : FetchSystem depth n)

def frontEnd : FrontEnd depth n := x.1.1.1

def cache : Cva6Icache := x.2.1

end FetchSystem

def fetchSystem (depth n : ℕ) (c : FrontendCfg) (a : ArianeCfg) : Machine (FetchSystem depth n) FetchCycle where
  init x := (frontBack depth n c).init x.1 ∧ (icache a).init x.2
  next x j := ((frontBack depth n c).next x.1 j.core, (icache a).next x.2 j.cache)

/-- `icache_dreq_if_cache` and `icache_dreq_cache_if`. An exception of the translation is one of those that the
front end knows. -/
structure Wired (c : FrontendCfg) (a : ArianeCfg) (x : FetchSystem depth n) (j : FetchCycle) : Prop where
  req : j.cache.req = x.frontEnd.req
  killS1 : j.cache.killS1 = x.frontEnd.killS1 j.core.front
  killS2 : j.cache.killS2 = x.frontEnd.killS2 j.core.front
  spec : j.cache.spec = x.frontEnd.speculativeD j.core.front
  vaddr : j.cache.vaddr = x.frontEnd.fetchAddress j.core.front c
  ready : j.core.front.icache.ready = (x.cache.fsm a j.cache).ready
  valid : j.core.front.icache.valid = (x.cache.fsm a j.cache).valid
  vaddrO : j.core.front.icache.vaddr = x.cache.vaddr
  data : j.core.front.icache.data = x.cache.dreqData j.cache
  ex : ¬ j.core.front.faults → j.cache.fetchException = false

/-- What is around the two. The cache is flushed with the front end, the address of a word is translated by the same
page as long as the front end runs, and memory returns the words of the program. -/
structure Around (c : FrontendCfg) (a : ArianeCfg) (mem : BitVec 64 → BitVec 16) (page : BitVec 64 → BitVec 56)
    (x : FetchSystem depth n) (j : FetchCycle) : Prop where
  wired : Wired c a x j
  env : Env a x.2 j.cache
  flush : j.core.front.flush = (FrontEnd.redirect c j.core.front).isSome
  flushed : j.cache.flush = true → j.core.front.flush = true
  even : ∀ v ∈ FrontEnd.restart c j.core.front, v.getLsbD 0 = false
  btb : ∀ k, (j.core.front.btbPrediction k).valid = true → (j.core.front.btbPrediction k).targetAddress.getLsbD 0 =
    false
  entry : j.core.front.fetchEntryReady = true → x.frontEnd.queue.fetchEntryValid = true
  fault : j.core.front.icache.valid = true → j.core.front.faults → j.core.front.icache.vaddr.getLsbD 1 = true →
    isCompressed (high j.core.front.icache.data) = true
  translation : x.cache.state = .read → j.cache.fetchValid = true → j.cache.fetchException = false →
    j.cache.fetchPaddr = page x.cache.fetchVaddr
  memory : ∀ r ∈ x.2.2.returnNow j.cache, ∀ v w, r.Gives a (page (align v)) w → w = wordAt mem v
  resolved : ∀ e ∈ x.1.2.executes x.1.1 j.core, j.core.front.resolvedBranch = e.resolve
  idle : x.1.2.executes x.1.1 j.core = none → j.core.front.resolvedBranch.valid = false
  returns : ∀ e ∈ x.1.2.executes x.1.1 j.core, e.entry.cf = .ret → e.entry.predictAddress = 0 → e.next mem ≠ 0

/-- The request that waits is the one that the cache holds, and all that has been returned is of the program. -/
structure Joined (a : ArianeCfg) (mem : BitVec 64 → BitVec 16) (page : BitVec 64 → BitVec 56)
    (x : FetchSystem depth n) :
    Prop where
  cache : Icache.Inv a x.2
  live : x.1.1.2.pend.isSome = x.2.2.live
  vaddr : ∀ v ∈ x.1.1.2.pend, x.cache.vaddr = v
  paddr : ∀ p ∈ x.2.2.paddr, p = page (align x.cache.vaddr)
  returns : ∀ r ∈ x.2.2.returns, ∀ v w, r.Gives a (page (align v)) w → w = wordAt mem v

variable {c : FrontendCfg} {a : ArianeCfg} {mem : BitVec 64 → BitVec 16} {page : BitVec 64 → BitVec 56}
  {x : FetchSystem depth n} {j : FetchCycle}

/-- A request is accepted when the cache is idle, or with the answer to the one before. -/
theorem ready_cases {q : Cva6Icache} {i : IcacheIn} {f : Icache.Fsm} (h : Does a q i f) (hr : f.ready = true) :
    q.state = .idle ∨ f.valid = true ∨ i.killS2 = true := by
  cases h with
  | accept hs => exact .inl hs
  | answer hs ht hf ha =>
    right
    cases hk : i.killS2 <;> simp
  | _ => simp_all [Cva6Icache.fsmDefault, Cva6Icache.lookup]

/-- What the cache asks to be translated is the address of the word. -/
theorem fetchVaddr_eq (q : Cva6Icache) : q.fetchVaddr = align q.vaddr := by
  apply BitVec.eq_of_getLsbD_eq
  intro j hj
  rw [Cva6Icache.fetchVaddr, align, BitVec.getLsbD_setWidth, BitVec.getLsbD_append, BitVec.getLsbD_append]
  by_cases hlow : j < 2
  · simp [hlow, hj]
  · simp [hlow, hj, BitVec.getLsbD_ushiftRight, show j - 2 < 62 by omega]

/-! ### What the front end relies on -/

namespace Wired

theorem ifReady (h : Wired c a x j) : x.frontEnd.ifReady j.core.front = Ledger.accepts a x.cache j.cache := by
  rw [FrontEnd.ifReady, Ledger.accepts, h.ready, h.req, FrontEnd.req]

end Wired

namespace Joined

/-- The translation is that of the address that waits. -/
theorem translated (h : Joined a mem page x) (hi : Around c a mem page x j) :
    ∀ p ∈ x.2.2.translated x.cache j.cache, p = page (align x.cache.vaddr) := by
  intro p hp
  rw [Ledger.translated] at hp
  split_ifs at hp with ht
  · simp only [Bool.and_eq_true, beq_iff_eq, Bool.not_eq_true'] at ht
    rw [← Option.some.inj hp, ← fetchVaddr_eq]
    exact hi.translation ht.1 ht.2.1 ht.2.2
  · exact h.paddr p hp

theorem mem_returns (h : Joined a mem page x) (hi : Around c a mem page x j) {r : Return}
    (hr : r ∈ x.2.2.returns ++ x.2.2.returnNow j.cache) {v : BitVec 64} {w : BitVec 32}
    (hg : r.Gives a (page (align v)) w) :
    w = wordAt mem v :=
  (List.mem_append.mp hr).elim (fun hr => h.returns r hr v w hg) fun hr => hi.memory r hr v w hg

/-- The cache is what the front end relies on. -/
theorem surroundings (h : Joined a mem page x) (hi : Around c a mem page x j) :
    Surroundings c mem x.1.1 j.core.front := by
  have hdoes : Does a x.cache j.cache (x.cache.fsm a j.cache) := h.cache.control.does hi.env
  constructor
  case flush => exact hi.flush
  case even => exact hi.even
  case btb => exact hi.btb
  case entry => exact hi.entry
  case fault => exact hi.fault
  case answer =>
    intro hv
    rw [hi.wired.valid] at hv
    obtain ⟨hl, hk, -⟩ := h.cache.live_of_valid hi.env hv
    obtain ⟨v, hp⟩ := Option.isSome_iff_exists.mp (h.live.trans hl)
    rw [hp, hi.wired.vaddrO, h.vaddr v hp]
    exact ⟨rfl, hi.wired.killS2.symm.trans hk⟩
  case data =>
    intro hv hx
    rw [hi.wired.valid] at hv
    obtain ⟨p, r, htr, -, hr, hg, -⟩ := h.cache.word hi.env hv (hi.wired.ex hx)
    have hp : p = page (align x.cache.vaddr) := h.translated hi p htr
    rw [hp] at hg
    rw [hi.wired.data, hi.wired.vaddrO]
    exact h.mem_returns hi hr hg
  case ready =>
    intro hr
    rw [hi.wired.ready] at hr
    rcases ready_cases hdoes hr with hs | hv | hk
    · left
      have hl : x.2.2.live = false := by
        rw [Bool.eq_false_iff, Ne, h.cache.control.live]
        change ¬ (x.cache.state = .read ∨ x.cache.state = .miss)
        rw [hs]
        decide
      rw [← Option.not_isSome_iff_eq_none, h.live, hl]
      exact Bool.false_ne_true
    · exact .inr (.inl (hi.wired.valid.trans hv))
    · exact .inr (.inr (hi.wired.killS2.symm.trans hk))

theorem resolves (h : Joined a mem page x) (hi : Around c a mem page x j) : Resolves c mem x.1 j.core where
  surroundings := h.surroundings hi
  resolved := hi.resolved
  idle := hi.idle
  returns := hi.returns

/-! ### A cycle -/

theorem live_step (h : Joined a mem page x) (hi : Around c a mem page x j) :
    (x.1.1.2.watch c x.frontEnd j.core.front).pend.isSome = (x.2.2.watch a x.cache j.cache).live := by
  have hready := hi.wired.ifReady
  have hk2 : x.frontEnd.killS2 j.core.front = (x.frontEnd.killS1 j.core.front || x.frontEnd.bpValid j.core.front) := rfl
  rw [FrontLog.watch, Ledger.watch]
  dsimp only
  rw [← hready, hi.wired.killS1, hi.wired.killS2, ← hi.wired.valid]
  cases hk : x.frontEnd.killS1 j.core.front with
  | true =>
    rw [hk2, hk]
    cases x.frontEnd.ifReady j.core.front <;> simp
  | false =>
    -- a flush would have killed the request
    have hf : j.cache.flush = false := by
      rw [Bool.eq_false_iff]
      intro hf
      exact Bool.false_ne_true ((killS1_eq_false hk).1.symm.trans (hi.flushed hf))
    rw [hf, ← h.live]
    cases x.frontEnd.ifReady j.core.front <;> cases x.frontEnd.killS2 j.core.front <;> cases
      j.core.front.icache.valid <;> simp

theorem vaddr_step (h : Joined a mem page x) (hi : Around c a mem page x j) :
    ∀ v ∈ (x.1.1.2.watch c x.frontEnd j.core.front).pend, (x.cache.step a j.cache).vaddr = v := by
  intro v hv
  have hready := hi.wired.ifReady
  rw [Ledger.accepts] at hready
  rw [FrontLog.watch] at hv
  dsimp only at hv
  change x.cache.vaddrD a j.cache = v
  rw [Cva6Icache.vaddrD, ← hready, hi.wired.vaddr]
  split_ifs at hv ⊢
  · exact absurd hv (Option.not_mem_none v)
  · exact Option.some.inj hv
  · exact absurd hv (Option.not_mem_none v)
  · exact absurd hv (Option.not_mem_none v)
  · exact h.vaddr v hv

theorem paddr_step (h : Joined a mem page x) (hi : Around c a mem page x j) :
    ∀ p ∈ (x.2.2.watch a x.cache j.cache).paddr, p = page (align (x.cache.step a j.cache).vaddr) := by
  intro p hp
  rw [Ledger.watch] at hp
  dsimp only at hp
  split_ifs at hp with ha
  · exact absurd hp (Option.not_mem_none p)
  · have hv : (x.cache.step a j.cache).vaddr = x.cache.vaddr := if_neg ha
    rw [hv]
    exact h.translated hi p hp

theorem returns_step (h : Joined a mem page x) (hi : Around c a mem page x j) :
    ∀ r ∈ (x.2.2.watch a x.cache j.cache).returns, ∀ v w, r.Gives a (page (align v)) w → w = wordAt mem v := by
  intro r hr v w hg
  rw [Ledger.watch] at hr
  dsimp only at hr
  split_ifs at hr
  · exact absurd hr List.not_mem_nil
  · exact h.mem_returns hi hr hg

theorem step (h : Joined a mem page x) (hi : Around c a mem page x j) :
    Joined a mem page ((fetchSystem depth n c a).next x j) where
  cache := h.cache.step hi.env
  live := h.live_step hi
  vaddr := h.vaddr_step hi
  paddr := h.paddr_step hi
  returns := h.returns_step hi

theorem init (hx : (fetchSystem depth n c a).init x) : Joined a mem page x := by
  obtain ⟨⟨⟨q, l⟩, p⟩, ⟨r, g⟩⟩ := x
  obtain ⟨⟨⟨-, hl⟩, -⟩, hr, hg⟩ := hx
  obtain rfl : l = ⟨none, c.bootAddr, .empty⟩ := hl
  obtain rfl : g = Ledger.empty := hg
  constructor
  case cache => exact .init hr
  case live => rfl
  case vaddr => exact fun v hv => absurd hv (Option.not_mem_none v)
  case paddr => exact fun p hp => absurd hp (Option.not_mem_none p)
  case returns => exact fun r hr => absurd hr List.not_mem_nil

theorem of_reachable (hr : (fetchSystem depth n c a).Reachable (Around c a mem page) x) : Joined a mem page x :=
  hr.invariant (fun _ hx => init hx) fun _ _ h hi => h.step hi

end Joined

/-- A run of the two is a run of the core in which the cache keeps its part. -/
theorem frontBack_reachable (hr : (fetchSystem depth n c a).Reachable (Around c a mem page) x) :
    (frontBack depth n c).Reachable (Resolves c mem) x.1 := by
  induction hr with
  | init h => exact .init h.1
  | step j hr hi ih => exact .step j.core ih ((Joined.of_reachable hr).resolves hi)

/-- Over every run of the core on its instruction cache, whatever is predicted, killed, flushed, hit or missed, the
cache is what the front end relies on, and what is executed since the commit stage has last sent the front end
somewhere is the program that memory holds. -/
theorem program_from_cache (hd : 0 < depth) (c : FrontendCfg) (hc : c.bootAddr.getLsbD 0 = false) (a : ArianeCfg)
    (mem : BitVec 64 → BitVec 16) (page : BitVec 64 → BitVec 56) (x : FetchSystem depth n)
    (hr : (fetchSystem depth n c a).Reachable (Around c a mem page) x) :
    (∀ j, Around c a mem page x j → Surroundings c mem x.1.1 j.core.front) ∧
      (program mem).Follows x.1.2.origin x.1.2.path := by
  have hjoined : Joined a mem page x := .of_reachable hr
  have hprogram : InProgram c mem x.1 := .of_reachable hd hc (frontBack_reachable hr)
  exact ⟨fun _ hi => hjoined.surroundings hi, hprogram.follows⟩

/-! ### A fetch after reset -/

instance : Decidable (Wired c a x j) :=
  decidable_of_iff (j.cache.req = x.frontEnd.req ∧ j.cache.killS1 = x.frontEnd.killS1 j.core.front ∧
      j.cache.killS2 = x.frontEnd.killS2 j.core.front ∧ j.cache.spec = x.frontEnd.speculativeD j.core.front ∧
      j.cache.vaddr = x.frontEnd.fetchAddress j.core.front c ∧
        j.core.front.icache.ready = (x.cache.fsm a j.cache).ready ∧
      j.core.front.icache.valid = (x.cache.fsm a j.cache).valid ∧ j.core.front.icache.vaddr = x.cache.vaddr ∧
      j.core.front.icache.data = x.cache.dreqData j.cache ∧
      (frontendException j.core.front.icache.exCause = .feNone → j.cache.fetchException = false))
    ⟨fun ⟨a, b, d, e, f, g, h, k, l, m⟩ => ⟨a, b, d, e, f, g, h, k, l, fun hx => m (not_not.mp hx)⟩,
      fun ⟨a, b, d, e, f, g, h, k, l, m⟩ => ⟨a, b, d, e, f, g, h, k, l, fun hx => m (not_not.mpr hx)⟩⟩

/-- What can be checked of the surroundings, where memory is full of one halfword. -/
def Checked (c : FrontendCfg) (a : ArianeCfg) (m : BitVec 16) (x : FetchSystem depth n) (j : FetchCycle) : Prop :=
  Wired c a x j ∧ Env a x.2 j.cache ∧ Resolves c (fun _ => m) x.1 j.core ∧
    (j.cache.flush = true → j.core.front.flush = true) ∧ (j.cache.fetchValid = true →
    j.cache.fetchPaddr = x.cache.fetchVaddr.setWidth 56) ∧
    ∀ r ∈ x.2.2.returnNow j.cache, ∀ k : BitVec 2, Icache.wordOf r.data (k ++ 0#2) = m ++ m

instance {m : BitVec 16} : Decidable (Checked c a m x j) := inferInstanceAs (Decidable (_ ∧ _))

theorem Checked.around {m : BitVec 16} (h : Checked c a m x j) : Around c a (fun _ => m) (·.setWidth 56) x j := by
  obtain ⟨hw, he, hr, hf, ht, hm⟩ := h
  constructor
  case wired => exact hw
  case env => exact he
  case flush => exact hr.surroundings.flush
  case flushed => exact hf
  case even => exact hr.surroundings.even
  case btb => exact hr.surroundings.btb
  case entry => exact hr.surroundings.entry
  case fault => exact hr.surroundings.fault
  case translation => exact fun _ hv _ => ht hv
  case memory =>
    rintro r hmem v w ⟨-, rfl⟩
    rw [Icache.returnOffset]
    split_ifs
    · exact hm r hmem (0#1 ++ ((align v).setWidth 56).extractLsb' 2 1)
    · exact hm r hmem (((align v).setWidth 56).extractLsb' 2 2)
  case resolved => exact hr.resolved
  case idle => exact hr.idle
  case returns => exact hr.returns

/-- A cycle; the cache stands at `held`, and the front end asks for `vaddr`. -/
def systemCycle (held vaddr : BitVec 64) (ready : Bool) (answer : Option (BitVec 32)) (cache : IcacheIn) (entry : Bool)
    (operands : Option (BitVec 64 × BitVec 64)) : FetchCycle where
  core :=
    { front := { fetchCycle (fun _ => 1) none ready entry ⟨false, 0, 0, false, false, .noCF⟩ with
        icache := ⟨ready, answer.isSome, held, answer.getD 0, 0, 0, 0, false⟩ }
      operands := operands }
  cache := { cache with req := true, vaddr := vaddr }

def halfwordCfg : FrontendCfg := ⟨0x102, 0⟩

/-- The cache clears its sets, and then the first instruction is fetched over a miss; it stands in the middle of a
word. -/
def systemRun : List FetchCycle :=
  let idle := Icache.noInput
  let line : Icache.IcacheRtrn := ⟨.icacheIfillAck, 0x00010001000100010001000100010001, ⟨false, false, 0, 0⟩⟩
  List.replicate 256 (systemCycle 0 0x102 false none idle false none) ++
    [systemCycle 0 0x102 true none idle false none,
      systemCycle 0x102 0x104 false none { idle with fetchValid := true, fetchPaddr := 0x100, memDataAck := true } false
        none,
      systemCycle 0x102 0x104 false (some 0x00010001) { idle with memRtrnVld := true, memRtrn := line } false none,
      systemCycle 0x102 0x104 true none idle false none,
      systemCycle 0x104 0x108 false none idle true none,
      systemCycle 0x104 0x108 false none idle false (some (0, 0))]

def systemStart : FetchSystem 4 1 := (((.reset, ⟨none, 0x102, .empty⟩), ⟨0, 0x102, []⟩), (Icache.resetState, .empty))

def systemEnd : FetchSystem 4 1 := (fetchSystem 4 1 halfwordCfg Icache.plainCfg).run systemStart systemRun

set_option maxRecDepth 4000 in
theorem program_from_cache_fetch :
    systemEnd.1.2.path.map (·.entry.address) = [0x102] ∧ (program fun _ => 1).Follows 0x102 systemEnd.1.2.path := by
  have h0 : (fetchSystem 4 1 halfwordCfg Icache.plainCfg).init systemStart :=
    ⟨⟨⟨rfl, rfl⟩, rfl⟩, ⟨rfl, rfl, rfl, rfl, rfl, rfl, rfl, rfl, rfl, rfl⟩, rfl⟩
  have hc : (fetchSystem 4 1 halfwordCfg Icache.plainCfg).Reachable (Checked halfwordCfg Icache.plainCfg 1) systemEnd :=
    .run (.init h0) (by decide +kernel)
  have hr : (fetchSystem 4 1 halfwordCfg Icache.plainCfg).Reachable
      (Around halfwordCfg Icache.plainCfg (fun _ => 1) (·.setWidth 56)) systemEnd := hc.mono fun _ _ h => h.around
  have hp : (program fun _ => 1).Follows systemEnd.1.2.origin systemEnd.1.2.path :=
    (program_from_cache (by decide) halfwordCfg (by decide) Icache.plainCfg (fun _ => 1) (·.setWidth 56) systemEnd hr).2
  have ho : systemEnd.1.2.origin = 0x102 := by decide +kernel
  rw [ho] at hp
  exact ⟨by decide +kernel, hp⟩

end Culsans.Frontend
