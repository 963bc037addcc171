import Culsans.Core.LoadStore

/-! # Loads do not overtake stores

A load is checked against the older stores when it is first looked at. From then on the
load is at the head of the queue of requests, and no store comes before it.
-/

namespace Culsans.Core
open Dcache Library

namespace LsuBypass
variable {q : LsuBypass} {r : LsuCtrl}

/-- The requests in the queue and the one that is arriving, oldest first. -/
def visible (q : LsuBypass) (r : LsuCtrl) : List LsuCtrl :=
  contents id q.mem q.readPointer q.statusCnt.toNat ++ if r.valid then [r] else []

structure Inv (q : LsuBypass) (r : LsuCtrl) : Prop where
  queue : InUse LsuCtrl.valid q.mem q.readPointer q.writePointer q.statusCnt.toNat
  /-- requests arrive only when the queue was empty in the cycle before -/
  room : r.valid = true → q.statusCnt.toNat < 2

theorem Inv.reset (h : r.valid = false) : reset.Inv r :=
  ⟨.clear 0 fun _ => rfl, fun hv => absurd (hv.symm.trans h) (by decide)⟩

theorem empty_iff : q.empty = true ↔ q.statusCnt.toNat = 0 := by
  rw [empty, beq_iff_eq, ← BitVec.toNat_inj]
  rfl

/-- What is shown to the units is the oldest request. -/
theorem visible_head (hv : (q.lsuCtrl r).valid = true) : ∃ l, q.visible r = q.lsuCtrl r :: l := by
  unfold visible lsuCtrl at *
  cases he : q.empty
  · have hne : q.statusCnt.toNat ≠ 0 := empty_iff.not.mp (by simp [he])
    obtain ⟨n, hn⟩ := Nat.exists_eq_succ_of_ne_zero hne
    rw [hn, contents, Nat.succ_eq_add_one, slots_succ_left]
    exact ⟨_, rfl⟩
  · rw [he, if_pos rfl] at hv
    rw [empty_iff.mp he, hv]
    exact ⟨[], rfl⟩

theorem valid_of_visible (h : q.Inv r) (hn : q.visible r ≠ []) : (q.lsuCtrl r).valid = true := by
  unfold visible at hn
  unfold lsuCtrl
  cases he : q.empty
  · exact h.queue.valid_rd.mpr (empty_iff.not.mp (by simp [he]))
  · rw [empty_iff.mp he] at hn
    cases hv : r.valid
    · simp [hv, contents] at hn
    · exact hv

/-- One unit takes a request, or none does. -/
theorem step_eq {popLd popSt : Bool} (hone : (popLd && popSt) = false) : q.step r popLd popSt false =
    { mem := if popLd || popSt then
          Function.update (q.written r) q.readPointer { q.written r q.readPointer with valid := false }
        else q.written r
      readPointer := q.readPointer + BitVec.ofNat 1 (popLd || popSt).toNat
      writePointer := q.writePointer + BitVec.ofNat 1 r.valid.toNat
      statusCnt := q.statusCnt + BitVec.ofNat 2 r.valid.toNat - BitVec.ofNat 2 (popLd || popSt).toNat } := by
  simp only [step, setWidth_ofBool]
  cases popLd <;> cases popSt
  case true.true => exact absurd hone (by decide)
  all_goals simp

/-- Only a request that is there is taken. -/
theorem step_visible (h : q.Inv r) {popLd popSt : Bool} (hone : (popLd && popSt) = false)
    (hpop : (popLd || popSt) = true → (q.lsuCtrl r).valid = true) {r' : LsuCtrl}
    (hready : r'.valid = true → q.ready = true) :
    (q.step r popLd popSt false).Inv r' ∧ (q.step r popLd popSt false).visible r' =
      (if popLd || popSt then (q.visible r).tail else q.visible r) ++ if r'.valid then [r'] else [] := by
  rw [step_eq hone]
  generalize (popLd || popSt) = pop at hpop ⊢
  have hsome : pop = true → q.statusCnt.toNat + r.valid.toNat ≠ 0 := by
    intro hp hzero
    have hv := hpop hp
    rw [lsuCtrl, empty_iff.mpr (by omega), if_pos rfl] at hv
    simp [hv] at hzero
  have hlist : contents id (q.written r) q.readPointer (q.statusCnt.toNat + r.valid.toNat) = q.visible r :=
    contents_pushIf h.queue h.room id r
  have hin : InUse LsuCtrl.valid (q.written r) q.readPointer (q.writePointer + BitVec.ofNat 1 r.valid.toNat)
      (q.statusCnt.toNat + r.valid.toNat) := by
    unfold written
    cases hv : r.valid
    · simpa using h.queue
    · exact h.queue.push (h.room hv) hv
  have hcnt : (q.statusCnt + BitVec.ofNat 2 r.valid.toNat - BitVec.ofNat 2 pop.toNat).toNat =
      q.statusCnt.toNat + r.valid.toNat - pop.toNat := by
    have hle := hin.le
    have hadd : (q.statusCnt + BitVec.ofNat 2 r.valid.toNat).toNat = q.statusCnt.toNat + r.valid.toNat :=
      toNat_add_flag (by omega)
    have hp : pop.toNat ≤ q.statusCnt.toNat + r.valid.toNat := by
      cases hp : pop
      · exact Nat.zero_le _
      · exact Nat.one_le_iff_ne_zero.mpr (hsome hp)
    rw [toNat_sub_flag (by rw [hadd]; exact hp), hadd]
  constructor
  · constructor
    · rw [hcnt]
      exact hin.popIf hsome rfl
    · intro hv
      have hzero := empty_iff.mp (hready hv)
      have hone : r.valid.toNat ≤ 1 := Bool.toNat_le _
      rw [hcnt]
      omega
  · rw [visible, hcnt, contents_popIf hin hsome id, hlist]

theorem step_flush {popLd popSt : Bool} {r' : LsuCtrl} (h : r'.valid = false) :
    (q.step r popLd popSt true).Inv r' ∧ (q.step r popLd popSt true).visible r' = [] := by
  constructor
  · exact .reset h
  · simp [visible, step, h, contents]

end LsuBypass

namespace LoadUnit
variable {s : LoadUnit} {i : LoadUnitIn} {ni : Tag → Bool}

/-- The states in which a load waits that was checked against the older stores. -/
def checked : LoadState → Bool
  | .waitGnt | .abortTransaction | .abortTransactionNi | .waitWbEmpty | .waitTranslation => true
  | _ => false

/-- A load gets into these states only through the check, and is not taken from the queue on the way. -/
theorem checked_step (hex : i.exValid = false) (h : checked (s.stateD i ni) = true) :
    i.flush = false ∧ s.popLd i ni = false ∧ (checked s.state = true ∨
      (i.pageOffsetMatches = false ∧ (s.state = .waitPageOffset ∨ i.valid = true))) := by
  unfold stateD at h
  rw [hex] at h
  cases hf : i.flush
  case true => simp [hf, checked] at h
  cases hs : s.state <;> simp only [hs, hf, Bool.false_and, Bool.false_eq_true, if_false] at h
  case idle | sendTag =>
    cases hv : i.valid <;> cases hm : i.pageOffsetMatches <;> cases hg : i.dataGnt <;> cases hh : i.dtlbHit <;>
      cases hst : stallNi i ni <;> simp_all [popLd, dataReq, afterGrant, checked]
  case waitGnt =>
    cases hg : i.dataGnt <;> cases hh : i.dtlbHit <;> cases hst : stallNi i ni <;>
      simp_all [popLd, dataReq, afterGrant, checked]
  case waitPageOffset => cases hm : i.pageOffsetMatches <;> simp_all [popLd, dataReq, checked]
  all_goals simp_all [popLd, dataReq, checked]

theorem waitPageOffset_step (hex : i.exValid = false) (h : s.stateD i ni = .waitPageOffset) :
    i.flush = false ∧ s.popLd i ni = false ∧ (s.state = .waitPageOffset ∨ i.valid = true) := by
  unfold stateD at h
  rw [hex] at h
  cases hf : i.flush
  case true => simp [hf] at h
  cases hs : s.state <;> simp only [hs, hf, Bool.false_and, Bool.false_eq_true, if_false] at h
  case idle | sendTag =>
    cases hv : i.valid <;> cases hm : i.pageOffsetMatches <;> cases hg : i.dataGnt <;> cases hh : i.dtlbHit <;>
      cases hst : stallNi i ni <;> simp_all [popLd, dataReq, afterGrant]
  case waitGnt =>
    cases hg : i.dataGnt <;> cases hh : i.dtlbHit <;> cases hst : stallNi i ni <;>
      simp_all [afterGrant]
  case waitWbEmpty | waitTranslation => split_ifs at h
  all_goals simp_all [popLd, dataReq]

/-- A request of the load unit is for a checked load or one that passes the check now. -/
theorem dataReq_cases (h : s.dataReq i = true) :
    checked s.state = true ∨ (i.valid = true ∧ i.pageOffsetMatches = false) := by
  unfold dataReq at h
  cases hs : s.state <;> simp_all [checked]

end LoadUnit

namespace StoreUnit
variable {ws wc : ℕ} {s : StoreUnit ws wc} {i : StoreUnitIn}

/-- A store that is looked at and does not go on stays in the queue. -/
def waiting : StoreState → Bool
  | .waitTranslation | .waitStoreReady => true
  | _ => false

theorem waiting_step (hex : i.exValid = false) (h : waiting (s.stateD i) = true) :
    i.flush = false ∧ s.popSt i = false ∧ (waiting s.state = true ∨ i.valid = true) := by
  have he : s.exception i = false := by simp [exception, hex]
  unfold stateD at h
  rw [he] at h
  cases hf : i.flush
  case true => simp [hf, waiting] at h
  cases hs : s.state <;> simp only [hs, hf, Bool.or_false, Bool.false_eq_true, if_false] at h
  case idle | validStore =>
    cases hr : s.request i
    · simp [hr, waiting] at h
    · have hv : i.valid = true := by
        simp only [request, hs, Bool.and_eq_true] at hr
        tauto
      cases hst : s.stReady i <;> cases hh : i.dtlbHit <;> simp_all [takeRequest, popSt, waiting]
  all_goals simp_all [popSt, request, waiting]

/-- Without a store to look at the unit gets idle. -/
theorem stateD_idle (hex : i.exValid = false) (hv : i.valid = false) (hw : waiting s.state = false) :
    s.stateD i = .idle ∧ s.popSt i = false := by
  have he : s.exception i = false := by simp [exception, hex]
  have hr : s.request i = false := by
    unfold request
    cases s.state <;> simp [hv]
  unfold stateD popSt
  cases hs : s.state <;> simp_all [waiting]

end StoreUnit
namespace Lsu
variable {ws wc : ℕ} {ni : Tag → Bool} {s : Lsu ws wc} {i : LsuIn}

/-- No exception, and commits as the commit stage makes them. -/
structure Ok (s : Lsu ws wc) (i : LsuIn) : Prop where
  exValid : i.exValid = false
  commit : i.commit = true → s.storeUnit.storeBuffer.commitReady = true ∧
    s.storeUnit.storeBuffer.lists.speculative ≠ [] ∧ i.flush = false

instance (s : Lsu ws wc) (i : LsuIn) : Decidable (s.Ok i) :=
  decidable_of_iff (i.exValid = false ∧ (i.commit = false ∨ (s.storeUnit.storeBuffer.commitReady = true ∧
    s.storeUnit.storeBuffer.lists.speculative.isEmpty = false ∧ i.flush = false))) (by
      constructor
      · rintro ⟨he, hc⟩
        exact ⟨he, fun h => by simpa using hc.resolve_left (by simp [h])⟩
      · rintro ⟨he, hc⟩
        refine ⟨he, ?_⟩
        cases h : i.commit
        · exact .inl rfl
        · exact .inr (by simpa using hc h))

/-- The store side as a store path of its own. -/
def storePath (s : Lsu ws wc) : StorePath ws wc := ⟨s.storeUnit, s.paddr⟩

def storePathIn (s : Lsu ws wc) (i : LsuIn) : StorePathIn :=
  ⟨s.storeUnitIn i, ⟨i.ppn, s.lsuCtrl.vaddr.index, s.lsuCtrl.vaddr.offset⟩⟩

/-- A store the load unit has to wait for: in a queue of the store buffer, or on the way into it. -/
def Older (s : Lsu ws wc) (a : PAddr) : Prop :=
  (∃ x ∈ s.storePath.lists.committed, x.address = a) ∨ (∃ x ∈ s.storePath.lists.speculative, x.address = a) ∨
    (s.storeUnit.state = .validStore ∧ s.paddr = a)

/-- No such store meets the page offset of `r`. -/
def Clear (s : Lsu ws wc) (r : LsuCtrl) : Prop :=
  ∀ a, s.Older a → samePageOffset r.vaddr.index r.vaddr.offset a = false

structure Inv (s : Lsu ws wc) : Prop where
  bypass : s.bypass.Inv s.lsuReq
  store : ∃ g, s.storePath.Inv g
  waiting : StoreUnit.waiting s.storeUnit.state = true → s.lsuCtrl.valid = true ∧ s.lsuCtrl.op.isLoad = false
  load : LoadUnit.checked s.loadUnit.state = true ∨ s.loadUnit.state = .waitPageOffset →
    s.lsuCtrl.valid = true ∧ s.lsuCtrl.op.isLoad = true
  clear : LoadUnit.checked s.loadUnit.state = true → s.Clear s.lsuCtrl

theorem Inv.reset : (reset : Lsu ws wc).Inv where
  bypass := .reset rfl
  store := ⟨none, .reset⟩
  waiting h := absurd h (by simp [Lsu.reset, StoreUnit.reset, StoreUnit.waiting])
  load h := absurd h (by simp [Lsu.reset, LoadUnit.reset, LoadUnit.checked])
  clear h := absurd h (by simp [Lsu.reset, LoadUnit.reset, LoadUnit.checked])

theorem storePath_ok (hok : s.Ok i) : s.storePath.Ok (s.storePathIn i) := hok.commit

/-- The address check sees every older store. -/
theorem pageOffsetMatches_false (h : s.Inv) : s.pageOffsetMatches i = false ↔ s.Clear s.lsuCtrl := by
  obtain ⟨g, hg⟩ := h.store
  have hiff : s.pageOffsetMatches i = true ↔ _ := StoreBuffer.pageOffsetMatches_iff hg.buffer
  have hvalid : (s.storeUnit.storeBufferIn (s.storeUnitIn i) s.paddr).validWithoutFlush = true ↔
      s.storeUnit.state = .validStore := beq_iff_eq
  rw [hvalid] at hiff
  rw [← Bool.not_eq_true, hiff]
  unfold Clear Older
  constructor
  · rintro hn a (⟨x, hx, rfl⟩ | ⟨x, hx, rfl⟩ | ⟨hs, rfl⟩)
    · exact Bool.eq_false_iff.mpr fun hm => hn (.inl ⟨x, hx, hm⟩)
    · exact Bool.eq_false_iff.mpr fun hm => hn (.inr (.inl ⟨x, hx, hm⟩))
    · exact Bool.eq_false_iff.mpr fun hm => hn (.inr (.inr ⟨hs, hm⟩))
  · rintro hc (⟨x, hx, hm⟩ | ⟨x, hx, hm⟩ | ⟨hs, hm⟩)
    · exact absurd (hm.symm.trans (hc _ (.inl ⟨x, hx, rfl⟩))) (by decide)
    · exact absurd (hm.symm.trans (hc _ (.inr (.inl ⟨x, hx, rfl⟩)))) (by decide)
    · exact absurd (hm.symm.trans (hc _ (.inr (.inr ⟨hs, rfl⟩)))) (by decide)

/-- With a load at the head no store comes in. -/
theorem older_step (h : s.Inv) (hok : s.Ok i) (hidle : (s.step ni i).storeUnit.state = .idle) {a : PAddr}
    (ha : (s.step ni i).Older a) : s.Older a := by
  obtain ⟨g, hg⟩ := h.store
  have hlists := StoreBuffer.lists_step hg.buffer (StorePath.buffer_ok (i := s.storePathIn i) hg (storePath_ok hok))
  change (s.step ni i).storePath.lists = _ at hlists
  have hmem {x : Store} (hx : x ∈ (s.step ni i).storePath.lists.speculative ∨
      x ∈ (s.step ni i).storePath.lists.committed) : s.Older x.address := by
    rw [hlists] at hx
    rcases StoreLists.mem_next hx with hx | hx | hx
    · exact .inr (.inl ⟨x, hx, rfl⟩)
    · exact .inl ⟨x, hx, rfl⟩
    · unfold StoreBuffer.pushOf at hx
      split_ifs at hx with hv
      · simp only [StoreUnit.storeBufferIn, StoreUnit.stValid, Bool.and_eq_true, beq_iff_eq] at hv
        rw [Option.some_inj] at hx
        subst hx
        exact .inr (.inr ⟨hv.1.1.1, rfl⟩)
  rcases ha with ⟨x, hx, rfl⟩ | ⟨x, hx, rfl⟩ | ⟨hs, -⟩
  · exact hmem (.inr hx)
  · exact hmem (.inl hx)
  · exact absurd (hidle.symm.trans hs) (by decide)

/-- A unit takes only what it is there for. -/
theorem popLd_load (h : s.Inv) (hok : s.Ok i) (hp : s.popLd ni i = true) :
    s.lsuCtrl.valid = true ∧ s.lsuCtrl.op.isLoad = true := by
  have hreq : s.loadUnit.dataReq (s.loadUnitIn i) = true := by
    have hex : (s.loadUnitIn i).exValid = false := hok.exValid
    simp only [popLd, LoadUnit.popLd, hex, Bool.false_and, Bool.or_false, Bool.and_eq_true] at hp
    exact hp.1.1.1
  rcases LoadUnit.dataReq_cases hreq with hc | ⟨hv, -⟩
  · exact h.load (.inl hc)
  · simpa [loadUnitIn] using hv

theorem popSt_store (hok : s.Ok i) (hp : s.popSt i = true) :
    s.lsuCtrl.valid = true ∧ s.lsuCtrl.op.isLoad = false := by
  have hex : s.storeUnit.exception (s.storeUnitIn i) = false := by
    have hex : (s.storeUnitIn i).exValid = false := hok.exValid
    simp [StoreUnit.exception, hex]
  simp only [popSt, StoreUnit.popSt, hex, Bool.false_or, Bool.and_eq_true] at hp
  have hv : (s.storeUnitIn i).valid = true := by
    have hr := hp.1.1
    unfold StoreUnit.request at hr
    cases hs : s.storeUnit.state <;> simp only [hs, Bool.and_eq_true] at hr
    case idle => exact hr
    case validStore => exact hr.1
    all_goals exact absurd hr (by decide)
  simpa [storeUnitIn] using hv

theorem popSt_of_load (hok : s.Ok i) (hl : s.lsuCtrl.op.isLoad = true) : s.popSt i = false := by
  by_contra hp
  have hst := (popSt_store hok (by simpa using hp)).2
  exact absurd (hl.symm.trans hst) (by decide)

theorem popLd_of_store (h : s.Inv) (hok : s.Ok i) (hl : s.lsuCtrl.op.isLoad = false) : s.popLd ni i = false := by
  by_contra hp
  have hld := (popLd_load h hok (by simpa using hp)).2
  exact absurd (hl.symm.trans hld) (by decide)

/-- The queue of requests without a flush. -/
theorem bypass_step (h : s.Inv) (hok : s.Ok i) (hf : i.flush = false) :
    (s.step ni i).bypass.Inv (s.step ni i).lsuReq ∧ (s.step ni i).bypass.visible (s.step ni i).lsuReq =
      (if s.popLd ni i || s.popSt i then (s.bypass.visible s.lsuReq).tail else s.bypass.visible s.lsuReq) ++
        if (s.step ni i).lsuReq.valid then [(s.step ni i).lsuReq] else [] := by
  have hone : (s.popLd ni i && s.popSt i) = false := by
    cases hp : s.popLd ni i
    · rfl
    · rw [popSt_of_load hok (popLd_load h hok hp).2]
      rfl
  have hpop (hp : (s.popLd ni i || s.popSt i) = true) : s.lsuCtrl.valid = true := by
    rw [Bool.or_eq_true] at hp
    rcases hp with hp | hp
    · exact (popLd_load h hok hp).1
    · exact (popSt_store hok hp).1
  have hready (hv : (s.step ni i).lsuReq.valid = true) : s.bypass.ready = true := by
    simp only [step, Bool.and_eq_true] at hv
    exact hv.1.2
  have hstep := LsuBypass.step_visible h.bypass hone hpop hready
  have hbypass : (s.step ni i).bypass = s.bypass.step s.lsuReq (s.popLd ni i) (s.popSt i) false := by
    rw [← hf]
    rfl
  rw [hbypass]
  exact hstep

/-- The head of the queue stays until it is taken. -/
theorem lsuCtrl_step (h : s.Inv) (hok : s.Ok i) (hv : s.lsuCtrl.valid = true) (hld : s.popLd ni i = false)
    (hst : s.popSt i = false) (hf : i.flush = false) : (s.step ni i).lsuCtrl = s.lsuCtrl := by
  obtain ⟨hinv, hvis⟩ := @bypass_step _ _ ni _ _ h hok hf
  obtain ⟨l, hl⟩ := LsuBypass.visible_head hv
  rw [hld, hst, Bool.or_self, if_neg Bool.false_ne_true, hl, List.cons_append] at hvis
  have hv' := LsuBypass.valid_of_visible hinv (by rw [hvis]; exact List.cons_ne_nil _ _)
  obtain ⟨l', hl'⟩ := LsuBypass.visible_head hv'
  rw [hvis, List.cons.injEq] at hl'
  exact hl'.1.symm

/-- With a load at the head the store unit finishes its store, if it has one. -/
theorem storeUnit_idle (h : s.Inv) (hok : s.Ok i) (hl : s.lsuCtrl.op.isLoad = true) :
    (s.step ni i).storeUnit.state = .idle := by
  have hw : StoreUnit.waiting s.storeUnit.state = false := by
    by_contra hw
    exact absurd (hl.symm.trans (h.waiting (by simpa using hw)).2) (by decide)
  have hv : (s.storeUnitIn i).valid = false := by simp [storeUnitIn, hl]
  exact (StoreUnit.stateD_idle hok.exValid hv hw).1

theorem clear_step (h : s.Inv) (hok : s.Ok i) (hl : s.lsuCtrl.op.isLoad = true) (hc : s.Clear s.lsuCtrl) :
    (s.step ni i).Clear s.lsuCtrl :=
  fun a ha => hc a (older_step h hok (storeUnit_idle h hok hl) ha)

theorem Inv.step (h : s.Inv) (hok : s.Ok i) : (s.step ni i).Inv := by
  have hload (hc : LoadUnit.checked (s.step ni i).loadUnit.state = true ∨
      (s.step ni i).loadUnit.state = .waitPageOffset) : s.lsuCtrl.valid = true ∧ s.lsuCtrl.op.isLoad = true ∧
        (s.step ni i).lsuCtrl = s.lsuCtrl := by
    have hhead : i.flush = false ∧ s.popLd ni i = false ∧ s.lsuCtrl.valid = true ∧ s.lsuCtrl.op.isLoad = true := by
      rcases hc with hc | hc
      · obtain ⟨hf, hp, hs | ⟨-, hs | hs⟩⟩ := LoadUnit.checked_step hok.exValid hc
        · exact ⟨hf, hp, h.load (.inl hs)⟩
        · exact ⟨hf, hp, h.load (.inr hs)⟩
        · exact ⟨hf, hp, by simpa [loadUnitIn] using hs⟩
      · obtain ⟨hf, hp, hs | hs⟩ := LoadUnit.waitPageOffset_step hok.exValid hc
        · exact ⟨hf, hp, h.load (.inr hs)⟩
        · exact ⟨hf, hp, by simpa [loadUnitIn] using hs⟩
    obtain ⟨hf, hp, hv, hl⟩ := hhead
    exact ⟨hv, hl, lsuCtrl_step h hok hv hp (popSt_of_load hok hl) hf⟩
  constructor
  · cases hf : i.flush
    · exact (bypass_step h hok hf).1
    · have hbypass : (s.step ni i).bypass = s.bypass.step s.lsuReq (s.popLd ni i) (s.popSt i) true := by
        rw [← hf]
        rfl
      rw [hbypass]
      exact (LsuBypass.step_flush (by simp [Lsu.step, hf])).1
  · obtain ⟨g, hg⟩ := h.store
    exact ⟨_, hg.step (i := s.storePathIn i) (storePath_ok hok)⟩
  · intro hw
    obtain ⟨hf, hp, hs⟩ := StoreUnit.waiting_step hok.exValid hw
    have hhead : s.lsuCtrl.valid = true ∧ s.lsuCtrl.op.isLoad = false := by
      rcases hs with hs | hs
      · exact h.waiting hs
      · simpa [storeUnitIn] using hs
    rw [lsuCtrl_step h hok hhead.1 (popLd_of_store h hok hhead.2) hp hf]
    exact hhead
  · intro hc
    obtain ⟨hv, hl, hsame⟩ := hload hc
    rw [hsame]
    exact ⟨hv, hl⟩
  · intro hc
    obtain ⟨hv, hl, hsame⟩ := hload (.inl hc)
    have hclear : s.Clear s.lsuCtrl := by
      obtain ⟨-, -, hs | ⟨hm, -⟩⟩ := LoadUnit.checked_step hok.exValid hc
      · exact h.clear hs
      · exact (pageOffsetMatches_false h).mp hm
    rw [hsame]
    exact clear_step h hok hl hclear

/-- When the data cache grants a load, the load is at the head of the queue, the store unit has no store to
translate, and no older store has its page offset. -/
theorem granted_clear (h : s.Inv) (hg : s.loadGranted i = true) :
    s.lsuCtrl.valid = true ∧ s.lsuCtrl.op.isLoad = true ∧ StoreUnit.waiting s.storeUnit.state = false ∧
      s.Clear s.lsuCtrl := by
  rw [loadGranted, Bool.and_eq_true] at hg
  have hhead : s.lsuCtrl.valid = true ∧ s.lsuCtrl.op.isLoad = true ∧ s.Clear s.lsuCtrl := by
    rcases LoadUnit.dataReq_cases hg.1 with hc | ⟨hv, hm⟩
    · exact ⟨(h.load (.inl hc)).1, (h.load (.inl hc)).2, h.clear hc⟩
    · have hload : s.lsuCtrl.valid = true ∧ s.lsuCtrl.op.isLoad = true := by simpa [loadUnitIn] using hv
      exact ⟨hload.1, hload.2, (pageOffsetMatches_false h).mp hm⟩
  refine ⟨hhead.1, hhead.2.1, ?_, hhead.2.2⟩
  by_contra hw
  exact absurd (hhead.2.1.symm.trans (h.waiting (by simpa using hw)).2) (by decide)

/-! ### Program order -/

/-- An observer that numbers the requests as they arrive. -/
structure Arrivals where
  next : ℕ
  waiting : List (ℕ × LsuCtrl)

/-- The requests in the queue and the one that is arriving, with their numbers. -/
def Arrivals.visible (g : Arrivals) (s : Lsu ws wc) : List (ℕ × LsuCtrl) :=
  g.waiting ++ if s.lsuReq.valid then [(g.next, s.lsuReq)] else []

def watch (ni : Tag → Bool) (g : Arrivals) (s : Lsu ws wc) (i : LsuIn) : Arrivals where
  next := g.next + s.lsuReq.valid.toNat
  waiting := if i.flush then [] else if s.popLd ni i || s.popSt i then (g.visible s).tail else g.visible s

def observed (ni : Tag → Bool) (ws wc : ℕ) : Machine (Lsu ws wc × Arrivals) LsuIn :=
  (⟨fun s => s = reset, fun s => s.step ni⟩ : Machine (Lsu ws wc) LsuIn).observe ⟨0, []⟩ (watch ni)

/-- The numbers follow the queue, and they grow. -/
structure Arrivals.Inv (g : Arrivals) (s : Lsu ws wc) : Prop where
  same : (g.visible s).map Prod.snd = s.bypass.visible s.lsuReq
  lt : ∀ x ∈ g.waiting, x.1 < g.next
  order : g.waiting.Pairwise fun x y => x.1 < y.1

theorem Arrivals.Inv.visible_order {g : Arrivals} (h : g.Inv s) :
    (g.visible s).Pairwise (fun x y => x.1 < y.1) ∧ ∀ x ∈ g.visible s, x.1 < g.next + s.lsuReq.valid.toNat := by
  unfold Arrivals.visible
  cases hv : s.lsuReq.valid
  · rw [if_neg Bool.false_ne_true, List.append_nil]
    exact ⟨h.order, h.lt⟩
  · rw [if_pos rfl, List.pairwise_append]
    refine ⟨⟨h.order, List.pairwise_singleton _ _, fun x hx y hy => ?_⟩, fun x hx => ?_⟩
    · rw [List.mem_singleton.mp hy]
      exact h.lt x hx
    · rw [List.mem_append, List.mem_singleton] at hx
      rcases hx with hx | rfl
      · exact (h.lt x hx).trans (Nat.lt_succ_self _)
      · exact Nat.lt_succ_self _

theorem Arrivals.Inv.step {g : Arrivals} (hg : g.Inv s) (h : s.Inv) (hok : s.Ok i) :
    (watch ni g s i).Inv (s.step ni i) := by
  obtain ⟨hord, hlt⟩ := hg.visible_order
  have hsub : ((watch ni g s i).waiting).Sublist (g.visible s) := by
    simp only [watch]
    split_ifs
    · exact List.nil_sublist _
    · exact List.tail_sublist _
    · exact List.Sublist.refl _
  refine ⟨?_, fun x hx => hlt x (hsub.subset hx), hord.sublist hsub⟩
  have hnew : (if (s.step ni i).lsuReq.valid then [((watch ni g s i).next, (s.step ni i).lsuReq)]
    else []).map Prod.snd =
      if (s.step ni i).lsuReq.valid then [(s.step ni i).lsuReq] else [] := by
    split_ifs <;> rfl
  rw [Arrivals.visible, List.map_append, hnew]
  cases hf : i.flush
  · rw [(bypass_step h hok hf).2, ← hg.same]
    congr 1
    simp only [watch, hf, Bool.false_eq_true, if_false]
    split_ifs
    · exact List.map_tail
    · rfl
  · have hbypass : (s.step ni i).bypass = s.bypass.step s.lsuReq (s.popLd ni i) (s.popSt i) true := by
      rw [← hf]
      rfl
    have hreq : (s.step ni i).lsuReq.valid = false := by simp [Lsu.step, hf]
    rw [hbypass, (LsuBypass.step_flush hreq).2, hreq]
    simp [watch, hf]

/-- Addresses with different bits 11:3 are of different words. -/
theorem dword_ne {index : Index} {offset : Offset} {a : PAddr} (h : samePageOffset index offset a = false) (tag : Tag) :
    a.dword ≠ (⟨tag, index, offset⟩ : PAddr).dword := by
  intro he
  have hi := index.isLt
  have ha := a.index.isLt
  simp only [PAddr.dword] at he
  have hword : a.word = (⟨tag, index, offset⟩ : PAddr).word := by
    cases h1 : a.word <;> cases h2 : (⟨tag, index, offset⟩ : PAddr).word <;>
      simp only [h1, h2, Bool.false_eq_true, if_false, if_true] at he ⊢ <;> omega
  have hindex : a.index = index := by
    simp only [hword] at he
    rw [← BitVec.toNat_inj]
    omega
  have hsame : samePageOffset index offset a = true := by
    rw [samePageOffset, Bool.and_eq_true, beq_iff_eq, beq_iff_eq]
    exact ⟨hindex.symm, hword.symm⟩
  exact absurd (h.symm.trans hsame) (by decide)

theorem inv_of_reachable {x : Lsu ws wc × Arrivals} (h : (observed ni ws wc).Reachable (fun x i => x.1.Ok i) x) :
    x.1.Inv ∧ x.2.Inv x.1 := by
  induction h with
  | init h0 =>
    obtain ⟨hs, hg⟩ := h0
    rw [hs, hg]
    exact ⟨.reset, ⟨rfl, by simp, List.Pairwise.nil⟩⟩
  | step i _ hok ih => exact ⟨ih.1.step hok, ih.2.step ih.1 hok⟩

/-- A load the data cache grants is the oldest request in the queue, and no store of its word is in the store unit,
the speculative queue or the commit queue. The address of the load comes from the MMU a cycle after the grant. -/
theorem no_overtaking {x : Lsu ws wc × Arrivals} (h : (observed ni ws wc).Reachable (fun x i => x.1.Ok i) x) (i : LsuIn)
    (hg : x.1.loadGranted i = true) :
    (x.2.visible x.1).map Prod.snd = x.1.bypass.visible x.1.lsuReq ∧
      (∃ n younger, x.2.visible x.1 = (n, x.1.lsuCtrl) :: younger ∧ ∀ y ∈ younger, n < y.1) ∧
        x.1.lsuCtrl.op.isLoad = true ∧ StoreUnit.waiting x.1.storeUnit.state = false ∧
          ∀ a, x.1.Older a → a.dword ≠ (x.1.step ni i).paddr.dword := by
  obtain ⟨hinv, har⟩ := inv_of_reachable h
  obtain ⟨hv, hl, hw, hclear⟩ := granted_clear hinv hg
  refine ⟨har.same, ?_, hl, hw, fun a ha => dword_ne (hclear a ha) _⟩
  obtain ⟨l, hvis⟩ := LsuBypass.visible_head hv
  have hsame := har.same
  rw [hvis] at hsame
  obtain ⟨y, younger, hy, hfst, -⟩ := List.map_eq_cons_iff.mp hsame
  have hord := har.visible_order.1
  rw [hy, List.pairwise_cons] at hord
  exact ⟨y.1, younger, hy.trans (by rw [lsuCtrl, ← hfst]), hord.1⟩

/-- A cycle in which the TLB hits and nothing else happens. -/
def quietCycle : LsuIn where
  flush := false
  issue := .zero
  commit := false
  exValid := false
  dtlbHit := true
  dtlbPpn := 7
  ppn := 7
  amoBufferReady := true
  commitTranId := 0
  ldGnt := false
  ldRvalid := false
  stGnt := false
  dcacheWbufferNotNi := true

def request (op : LsuOp) : LsuCtrl := ⟨true, ⟨0, 1, 0⟩, fun _ => 1, fun _ => true, op, 0⟩

/-- A store and a load of the same word; the load waits until the data cache has the store. -/
def storeThenLoad : List LsuIn :=
  [{ quietCycle with issue := request (.store .sd) }, { quietCycle with issue := request (.load .ld) },
    { quietCycle with ldGnt := true }, { quietCycle with commit := true, ldGnt := true },
    { quietCycle with stGnt := true, ldGnt := true }, { quietCycle with ldGnt := true }]

def afterStore : Lsu 2 3 × Arrivals := (observed (fun _ => false) 2 3).run (reset, ⟨0, []⟩) storeThenLoad

set_option maxRecDepth 10000 in
theorem no_overtaking_same_word : afterStore.1.loadGranted { quietCycle with ldGnt := true } = true ∧
    ∀ a, afterStore.1.Older a → a.dword ≠ (afterStore.1.step (fun _ => false) { quietCycle with
      ldGnt := true }).paddr.dword := by
  have hreset : (observed (fun _ => false) 2 3).Reachable (fun x i => x.1.Ok i) (reset, ⟨0, []⟩) := .init ⟨rfl, rfl⟩
  have hok : (observed (fun _ => false) 2 3).Along (fun x i => x.1.Ok i) (reset, ⟨0, []⟩) storeThenLoad := by
    decide +kernel
  have hreach : (observed (fun _ => false) 2 3).Reachable (fun x i => x.1.Ok i) afterStore := hreset.run hok
  have hg : afterStore.1.loadGranted { quietCycle with ldGnt := true } = true := by decide +kernel
  exact ⟨hg, (no_overtaking hreach _ hg).2.2.2.2⟩

end Lsu
end Culsans.Core
