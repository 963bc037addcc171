import Culsans.Frontend.FetchPath
import Culsans.Library.Walk

/-! # What the front end delivers

The instructions that go into the queue follow each other the way they are predicted, from where the front
end has last been sent. A return that is predicted while the stack has no address leaves this way, since it is
not followed, and so does an exception; what comes after is not looked at.
-/

namespace Culsans.Frontend
open Library Culsans.Core

variable {depth n : ℕ} {c : FrontendCfg} {mem : BitVec 64 → BitVec 16} {x : FrontEnd depth n × FrontLog}
  {i : FrontendIn}

/-! ### Instructions that have been taken -/

/-- An exception, or a return that is predicted without an address. -/
def Accepted.stray (a : Accepted) : Prop := a.data.ex ≠ .feNone ∨ a.data.cf = .ret ∧ a.predict = 0

/-- An instruction of the way: it is the one of its address, and its prediction fits. -/
def acceptedWalk (mem : BitVec 64 → BitVec 16) : Walk (BitVec 64) Accepted where
  ok v a := a.addr = v ∧ (a.data.ex = .feNone → InMemory mem v a.data.instr) ∧
    Fits a.data.cf v a.predict (flow a.data.instr)
  next := Accepted.next
  stray := Accepted.stray

theorem Fits.congr {cf : Cf} {v p p' : BitVec 64} {f : Flow} (h : Fits cf v p f) (hp : cf ≠ .noCF → p' = p) :
    Fits cf v p' f := by
  by_cases hc : cf = .noCF
  · subst hc
    cases f with
    | plain => rfl
    | trap => trivial
    | ctrl op imm =>
      rw [Fits] at h ⊢
      split_ifs at h ⊢
      · exact .inl rfl
      · exact absurd h.1 (by decide)
      · exact .inl rfl
  · rw [hp hc]
    exact h

namespace FrontEnd
variable {q : FrontEnd depth n} {k : Fin 2}

theorem slot_idle (hv : q.fetch.icacheValid = false) (k : Fin 2) : (q.slot k).valid = false := by
  match k with
  | 0 =>
    change (q.fetch.realign.reAlign q.fetch.realignIn).slot0.valid = false
    simp only [InstrRealign.reAlign, FetchRegs.realignIn, hv, Bool.false_and]
    split_ifs <;> first | rfl | contradiction
  | 1 =>
    change (q.fetch.realign.reAlign q.fetch.realignIn).slot1.valid = false
    simp only [InstrRealign.reAlign, FetchRegs.realignIn, hv, Bool.false_and]
    split_ifs <;> rfl

theorem icacheValid_of_slot (hv : (q.slot k).valid = true) : q.fetch.icacheValid = true := by
  by_contra hn
  exact Bool.false_ne_true ((slot_idle (Bool.eq_false_iff.mpr hn) k).symm.trans hv)

/-- The second instruction of a fetch does not come without the first. -/
theorem slot_first (hv : (q.slot 1).valid = true) : (q.slot 0).valid = true := by
  change (q.fetch.realign.reAlign q.fetch.realignIn).slot1.valid = true at hv
  change (q.fetch.realign.reAlign q.fetch.realignIn).slot0.valid = true
  simp only [InstrRealign.reAlign] at hv ⊢
  split_ifs at hv ⊢ <;> simp_all

theorem valid_queueIn (k : Fin 2) : (q.queueIn i).valid.getLsbD k = (q.slot k).valid := getLsbD_bits _ k

/-- The prediction of the first instruction that is taken. -/
theorem predictAddress_first (hk : ∀ j < k, q.cfType i j = .noCF) (hc : q.cfType i k ≠ .noCF) :
    q.predictAddress i = q.targetOf i k := by
  rw [cfType_eq] at hc
  match k with
  | 0 => rw [predictAddress_eq, if_pos hc]
  | 1 =>
    have h0 := hk 0 (by decide)
    rw [cfType_eq] at h0
    rw [predictAddress_eq, if_neg (not_not.mpr h0), if_pos hc]

theorem fits_slot (hk : ∀ j < k, q.cfType i j = .noCF) (hv : (q.slot k).valid = true) :
    Fits (q.cfType i k) (q.slot k).addr (q.predictAddress i) (flow (q.slot k).instr) := by
  rw [cfType_eq]
  apply (fits hv).congr
  intro hc
  rw [← cfType_eq] at hc
  exact predictAddress_first hk hc

theorem targetOf_ret (hc : q.cfType i k = .ret) : q.targetOf i k = (q.ras 0).ra := by
  rw [cfType_eq, cfOf] at hc
  rw [targetOf]
  cases hb : q.isBranch k <;> cases hr : q.isReturn k <;> cases hj : q.isJump k <;> cases hl : q.isJalr k <;>
    simp_all <;> split_ifs at hc

end FrontEnd

/-- The packets of the front end. -/
theorem packets (hi : Surroundings c mem x i) : Packets (x.1.queue, x.2.queue) (x.1.queueIn i) where
  valid hv := by
    have h0 := FrontEnd.valid_queueIn (q := x.1) (i := i) 0
    have h1 := FrontEnd.valid_queueIn (q := x.1) (i := i) 1
    rw [Fin.val_zero] at h0
    rw [Fin.val_one] at h1
    rw [h0]
    exact FrontEnd.slot_first (h1.symm.trans hv)
  ready := hi.entry

theorem slot_addr0 (hv : x.1.fetch.icacheValid = true) : (x.1.slot 0).addr = nextAddr c x := by
  change (x.1.fetch.realign.reAlign x.1.fetch.realignIn).slot0.addr = _
  rw [reAlign_addr0, nextAddr, InstrRealign.nextAddr, nextFetch, if_pos hv]
  rfl

theorem next_noCF {a : Accepted} (hc : a.data.cf = .noCF) : a.next = a.addr + instrLen a.data.instr := by
  rw [Accepted.next, if_pos hc, instrLen]

theorem next_taken {a : Accepted} (hc : a.data.cf ≠ .noCF) : a.next = a.predict := by
  rw [Accepted.next, if_neg hc]

namespace Fetching

/-- The first instruction of a fetch. -/
theorem ok_first (h : Fetching c mem x) (he : EvenAddresses c x) (hv : (x.1.slot 0).valid = true) :
    (acceptedWalk mem).ok (nextAddr c x) ((x.1.queueIn i).slot 0) := by
  have hr := FrontEnd.icacheValid_of_slot hv
  have ha : (x.1.slot 0).addr = nextAddr c x := slot_addr0 hr
  refine ⟨ha, fun hx => ?_, ?_⟩
  · rw [← ha]
    exact ((h.realigned he hr hx).first hv).2
  · rw [← ha]
    exact FrontEnd.fits_slot (fun j hj => absurd hj (Fin.not_lt_zero j)) hv

/-- The second instruction of a fetch, if the first one is not taken. -/
theorem ok_second (h : Fetching c mem x) (he : EvenAddresses c x) (hv : (x.1.slot 1).valid = true)
    (hc : x.1.cfType i 0 = .noCF) (hx : x.1.icacheEx = .feNone) :
    (acceptedWalk mem).ok ((x.1.queueIn i).slot 0).next ((x.1.queueIn i).slot 1) := by
  have hr := FrontEnd.icacheValid_of_slot hv
  obtain ⟨-, ha, hm⟩ := (h.realigned he hr hx).second hv
  have hnext : ((x.1.queueIn i).slot 0).next = (x.1.slot 1).addr := (next_noCF hc).trans ha.symm
  rw [hnext]
  refine ⟨rfl, fun _ => hm, FrontEnd.fits_slot (fun j hj => ?_) hv⟩
  obtain rfl : j = 0 := by omega
  exact hc

theorem follows_now (h : Fetching c mem x) (he : EvenAddresses c x) (ht : x.1.queue.Takes (x.1.queueIn i)) :
    (acceptedWalk mem).Follows (nextAddr c x) (x.1.queue.acceptedNow (x.1.queueIn i)) := by
  have h0 (hc : (x.1.queue.consumed (x.1.queueIn i)).getLsbD 0 = true) : (x.1.slot 0).valid = true :=
    (FrontEnd.valid_queueIn 0).symm.trans (ht.valid 0 hc)
  rcases acceptedNow_cases ht with hn | ⟨hc, hn | ⟨hn, hv, hcf⟩⟩
  · rw [hn]
    trivial
  · rw [hn]
    exact ⟨h.ok_first he (h0 hc), fun _ => trivial⟩
  · rw [hn]
    refine ⟨h.ok_first he (h0 hc), fun hs => ⟨?_, fun _ => trivial⟩⟩
    apply h.ok_second he ((FrontEnd.valid_queueIn 1).symm.trans hv) hcf
    by_contra hx
    exact hs (.inl hx)

end Fetching

/-! ### Where the front end goes -/

/-- A return without an address is predicted to go to zero. -/
theorem stray_ret {k : Fin 2} (hras : ∀ k, (x.1.ras k).valid = false → (x.1.ras k).ra = 0)
    (hk : ∀ j < k, x.1.cfType i j = .noCF) (hc : x.1.cfType i k = .ret) (hv : (x.1.ras 0).valid = false) :
    ((x.1.queueIn i).slot k).stray := by
  refine .inr ⟨hc, ?_⟩
  have hp := FrontEnd.predictAddress_first hk (by rw [hc]; decide)
  rw [FrontEnd.targetOf_ret hc] at hp
  exact hp.trans (hras 0 hv)

theorem acceptedNow_none {q : InstrQueue depth} {j : QueueIn} (ht : q.Takes j) (hc : (q.consumed j).getLsbD 0 = false) :
    q.acceptedNow j = [] := by
  rcases acceptedNow_cases ht with hn | ⟨h0, -⟩
  · exact hn
  · exact absurd (hc.symm.trans h0) Bool.false_ne_true

theorem acceptedNow_first {q : InstrQueue depth} {j : QueueIn} (h0 : (q.consumed j).getLsbD 0 = true)
    (h1 : (q.consumed j).getLsbD 1 = false) : q.acceptedNow j = [j.slot 0] := by
  rw [InstrQueue.acceptedNow, h0, h1]
  rfl

theorem acceptedNow_both {q : InstrQueue depth} {j : QueueIn} (ht : q.Takes j) (h1 : (q.consumed j).getLsbD 1 = true) :
    q.acceptedNow j = [j.slot 0, j.slot 1] := by
  have h0 : (q.consumed j).getLsbD 0 = true := (ht.first 0 1 (by decide) h1).1
  rw [InstrQueue.acceptedNow, h0, h1]
  rfl

theorem slot_mem_acceptedNow {q : InstrQueue depth} {j : QueueIn} (h0 : (q.consumed j).getLsbD 0 = true) :
    j.slot 0 ∈ q.acceptedNow j := by
  rw [InstrQueue.acceptedNow, h0]
  exact List.mem_cons_self

/-- Only the first instruction goes into the queue if it is taken. -/
theorem consumed_taken {q : InstrQueue depth} {j : QueueIn} (ht : q.Takes j) (hc : j.cfType 0 ≠ .noCF) :
    (q.consumed j).getLsbD 1 = false := by
  by_contra h1
  exact hc (ht.first 0 1 (by decide) (Bool.eq_true_of_not_eq_false h1)).2

/-- If the second instruction has to be asked for again, the first one is not taken. -/
theorem replay_second {q : InstrQueue depth} {j : QueueIn} (hr : q.replay j = true)
    (h0 : (q.consumed j).getLsbD 0 = true) :
    j.cfType 0 = .noCF := by
  obtain ⟨⟨-, hfull⟩, ho⟩ := InstrQueue.consumed_zero.mp h0
  rw [InstrQueue.replay, ho, Bool.or_false] at hr
  rcases InstrQueue.instrOverflow_cases hr with ⟨-, hf⟩ | ⟨⟨-, hc⟩, -⟩
  · exact absurd (hfull.symm.trans hf) Bool.false_ne_true
  · exact hc

theorem consumed_valid {k : Fin 2} (ht : x.1.queue.Takes (x.1.queueIn i))
    (hc : (x.1.queue.consumed (x.1.queueIn i)).getLsbD k = true) : (x.1.slot k).valid = true :=
  (FrontEnd.valid_queueIn k).symm.trans (ht.valid k hc)

/-- Without a replay everything up to the first instruction that is taken goes into the queue. -/
theorem consumed_complete {k : Fin 2} (ht : x.1.queue.Takes (x.1.queueIn i)) (hr : x.1.replay i = false)
    (hv : (x.1.slot k).valid = true) (hk : ∀ j < k, x.1.cfType i j = .noCF) :
    (x.1.queue.consumed (x.1.queueIn i)).getLsbD k = true :=
  ht.complete hr k ((FrontEnd.valid_queueIn k).trans hv) hk

theorem before_one {P : Fin 2 → Prop} (h : P 0) : ∀ j < (1 : Fin 2), P j := by
  intro j hj
  obtain rfl : j = 0 := by omega
  exact h

namespace Fetching

/-- What has not been taken is fetched again. -/
theorem ahead_replay (h : Fetching c mem x) (he : EvenAddresses c x) (ht : x.1.queue.Takes (x.1.queueIn i))
    (hs : (acceptedWalk mem).Straight (x.1.queue.acceptedNow (x.1.queueIn i))) (hr : x.1.replay i = true) :
    x.1.queue.replayAddr (x.1.queueIn i) =
      (acceptedWalk mem).arrive (nextAddr c x) (x.1.queue.acceptedNow (x.1.queueIn i)) := by
  obtain ⟨k, hv, hc, hfirst, ha⟩ := ht.replay hr
  rw [FrontEnd.valid_queueIn] at hv
  rw [ha]
  match k with
  | 0 =>
    rw [acceptedNow_none ht hc]
    exact slot_addr0 (FrontEnd.icacheValid_of_slot hv)
  | 1 =>
    have h0 := hfirst 0 (by decide)
    rw [acceptedNow_first h0 hc] at hs ⊢
    have hx : x.1.icacheEx = .feNone := by
      by_contra hx
      exact hs _ (List.mem_singleton_self _) (.inl hx)
    have hnext : ((x.1.queueIn i).slot 0).next = (x.1.slot 0).addr + instrLen (x.1.slot 0).instr :=
      next_noCF (replay_second hr h0)
    exact ((h.realigned he (FrontEnd.icacheValid_of_slot hv) hx).second hv).2.1.trans hnext.symm

/-- The prediction is that of the last instruction that has been taken. -/
theorem ahead_taken (ht : x.1.queue.Takes (x.1.queueIn i)) (hr : x.1.replay i = false) (hb : x.1.bpValid i = true)
    (v : BitVec 64) :
    x.1.predictAddress i = (acceptedWalk mem).arrive v (x.1.queue.acceptedNow (x.1.queueIn i)) := by
  by_cases h0 : x.1.cfType i 0 = .noCF
  · have h1 : x.1.cfType i 1 ≠ .noCF := by
      obtain ⟨k, hk⟩ := FrontEnd.bpValid_taken hb
      match k with
      | 0 => exact absurd h0 hk
      | 1 => exact hk
    rw [acceptedNow_both ht (consumed_complete (k := 1) ht hr (FrontEnd.slot_valid h1) (before_one h0))]
    exact (next_taken (a := (x.1.queueIn i).slot 1) h1).symm
  · have hc := consumed_complete (k := 0) ht hr (FrontEnd.slot_valid h0) fun j hj => absurd hj (Fin.not_lt_zero j)
    rw [acceptedNow_first hc (consumed_taken ht h0)]
    exact (next_taken (a := (x.1.queueIn i).slot 0) h0).symm

/-- Nothing is predicted: the next fetch begins behind the last instruction. -/
theorem ahead_run (h : Fetching c mem x) (he : EvenAddresses c x) (ht : x.1.queue.Takes (x.1.queueIn i))
    (hras : ∀ k, (x.1.ras k).valid = false → (x.1.ras k).ra = 0)
    (hs : (acceptedWalk mem).Straight (x.1.queue.acceptedNow (x.1.queueIn i))) (hr : x.1.replay i = false)
    (hb : x.1.bpValid i = false) (hx : x.1.fetch.icacheValid = true → x.1.icacheEx = .feNone) :
    (x.1.fetch.realign.step false x.1.fetch.realignIn).nextAddr (nextReturn c x) =
      (acceptedWalk mem).arrive (nextAddr c x) (x.1.queue.acceptedNow (x.1.queueIn i)) := by
  cases hv : x.1.fetch.icacheValid with
  | false =>
    have hn : x.1.queue.acceptedNow (x.1.queueIn i) = [] := by
      apply acceptedNow_none ht
      by_contra hc
      have hv0 := consumed_valid (k := 0) ht (Bool.eq_true_of_not_eq_false hc)
      exact Bool.false_ne_true ((FrontEnd.slot_idle hv 0).symm.trans hv0)
    rw [realign_idle hv, hn, nextAddr, nextFetch, hv]
    rfl
  | true =>
    have hre := h.realigned he hv (hx hv)
    have hnext := hre.next
    change _ = if (x.1.slot 1).valid then (x.1.slot 1).addr + instrLen (x.1.slot 1).instr
      else if (x.1.slot 0).valid then (x.1.slot 0).addr + instrLen (x.1.slot 0).instr else _ at hnext
    rw [h.register hv, hnext]
    -- what is not predicted to go on would be a return without an address
    have hcf (k : Fin 2) (hk : ∀ j < k, x.1.cfType i j = .noCF)
        (hm : (x.1.queueIn i).slot k ∈ x.1.queue.acceptedNow (x.1.queueIn i)) :
        x.1.cfType i k = .noCF := by
      rcases FrontEnd.bpValid_eq_false hb k with hc | ⟨hc, hinv⟩
      · exact hc
      · exact absurd (stray_ret hras hk hc hinv) (hs _ hm)
    have hz : ∀ j < (0 : Fin 2), x.1.cfType i j = .noCF := fun j hj => absurd hj (Fin.not_lt_zero j)
    cases h0 : (x.1.slot 0).valid with
    | false =>
      have h1 : (x.1.slot 1).valid = false := by
        by_contra h1
        exact Bool.false_ne_true (h0.symm.trans (FrontEnd.slot_first (Bool.eq_true_of_not_eq_false h1)))
      have hn : x.1.queue.acceptedNow (x.1.queueIn i) = [] := by
        apply acceptedNow_none ht
        by_contra hc
        exact Bool.false_ne_true (h0.symm.trans (consumed_valid (k := 0) ht (Bool.eq_true_of_not_eq_false hc)))
      rw [h1, hn, nextAddr, nextFetch, hv]
      rfl
    | true =>
      have hc0 := consumed_complete (k := 0) ht hr h0 hz
      cases h1 : (x.1.slot 1).valid with
      | false =>
        have hc1 : (x.1.queue.consumed (x.1.queueIn i)).getLsbD 1 = false := by
          by_contra hc
          exact Bool.false_ne_true (h1.symm.trans (consumed_valid (k := 1) ht (Bool.eq_true_of_not_eq_false hc)))
        have hn := acceptedNow_first hc0 hc1
        have hf := hcf 0 hz (by rw [hn]; exact List.mem_singleton_self _)
        rw [hn]
        exact (next_noCF (a := (x.1.queueIn i).slot 0) hf).symm
      | true =>
        have hf : x.1.cfType i 0 = .noCF := hcf 0 hz (slot_mem_acceptedNow hc0)
        have hn := acceptedNow_both ht (consumed_complete (k := 1) ht hr h1 (before_one hf))
        have hf1 := hcf 1 (before_one hf) (by rw [hn]; exact List.mem_cons_of_mem _ (List.mem_singleton_self _))
        rw [hn]
        exact (next_noCF (a := (x.1.queueIn i).slot 1) hf1).symm

/-- After a cycle the front end goes on behind the last instruction that has been taken. -/
theorem ahead (h : Fetching c mem x) (he : EvenAddresses c x) (hi : Surroundings c mem x i)
    (ht : x.1.queue.Takes (x.1.queueIn i)) (hras : ∀ k, (x.1.ras k).valid = false → (x.1.ras k).ra = 0)
    (hf : i.flush = false)
    (hs : (acceptedWalk mem).Straight (x.1.queue.acceptedNow (x.1.queueIn i))) :
    Fetching c mem ((frontEnd depth n c).next x i) ∧ nextAddr c ((frontEnd depth n c).next x i) =
      (acceptedWalk mem).arrive (nextAddr c x) (x.1.queue.acceptedNow (x.1.queueIn i)) := by
  have hm := (hi.quiet hf).1
  cases hr : x.1.replay i with
  | true =>
    have hk1 : x.1.killS1 i = true := by rw [FrontEnd.killS1, hr, Bool.or_true]
    have hk2 : x.1.killS2 i = true := by rw [FrontEnd.killS2, hk1, Bool.true_or]
    apply kill hi hk2
    rw [if_pos hk1, npcD_quiet hi hf, if_pos hr]
    exact (h.ahead_replay he ht hs hr).symm
  | false =>
    have hk1 : x.1.killS1 i = false := by
      rw [FrontEnd.killS1, hm, hf, hr]
      rfl
    cases hb : x.1.bpValid i with
    | true =>
      have hk2 : x.1.killS2 i = true := by rw [FrontEnd.killS2, hb, Bool.or_true]
      apply kill hi hk2
      rw [hk1, if_neg Bool.false_ne_true]
      exact (ahead_taken ht hr hb _).symm
    | false =>
      have hk2 : x.1.killS2 i = false := by rw [FrontEnd.killS2, hk1, hb]; rfl
      -- an exception is carried by an instruction that has been taken
      have hx : x.1.fetch.icacheValid = true → x.1.icacheEx = .feNone := by
        intro hv
        by_contra hx
        have hc := consumed_complete (k := 0) ht hr (h.slot_fault hv hx) fun j hj => absurd hj (Fin.not_lt_zero j)
        exact hs _ (slot_mem_acceptedNow hc) (.inl hx)
      obtain ⟨hn, hfetch⟩ := h.goOn he hi hk2 hx
      refine ⟨hn, ?_⟩
      rw [nextAddr, hfetch, fetch_next hk2]
      exact h.ahead_run he ht hras hs hr hb hx

end Fetching

/-! ### Over a run -/

/-- What the front end has taken follows the predictions, and it goes on behind it unless it has left the way. -/
structure Delivers (c : FrontendCfg) (mem : BitVec 64 → BitVec 16) (x : FrontEnd depth n × FrontLog) : Prop where
  even : EvenAddresses c x
  ras : ∀ k, (x.1.ras k).valid = false → (x.1.ras k).ra = 0
  queue : ∃ done rest, Holds (x.1.queue, x.2.queue) done rest ∧ Labelled (x.1.queue, x.2.queue) done
  follows : (acceptedWalk mem).Follows x.2.start x.2.queue.accepted
  ahead : (acceptedWalk mem).Straight x.2.queue.accepted →
    Fetching c mem x ∧ nextAddr c x = (acceptedWalk mem).arrive x.2.start x.2.queue.accepted

namespace Delivers

theorem init (hd : 0 < depth) (hc : c.bootAddr.getLsbD 0 = false) :
    Delivers c mem ((FrontEnd.reset, ⟨none, c.bootAddr, .empty⟩) : FrontEnd depth n × FrontLog) where
  even := .init hc
  ras _ _ := rfl
  queue := ⟨[], [], .init hd, .empty⟩
  follows := trivial
  ahead _ := by
    refine ⟨?_, rfl⟩
    constructor
    case register => exact fun h => absurd h Bool.false_ne_true
    case data => exact fun h => absurd h Bool.false_ne_true
    case fault => exact fun h => absurd h Bool.false_ne_true
    case asked => exact fun v hv => absurd hv (Option.not_mem_none v)
    case kept => exact .of_aligned rfl

theorem step_flush (h : Delivers c mem x) (hi : Surroundings c mem x i)
    (hm : FrontEnd.isMispredict i = true → i.resolvedBranch.targetAddress.getLsbD 0 = false) (hf : i.flush = true) :
    Delivers c mem ((frontEnd depth n c).next x i) := by
  have hk1 : x.1.killS1 i = true := by rw [FrontEnd.killS1, hf, Bool.or_true, Bool.true_or]
  have hk2 : x.1.killS2 i = true := by rw [FrontEnd.killS2, hk1, Bool.true_or]
  have hlog : ((frontEnd depth n c).next x i).2.queue = .empty := by
    rw [frontEnd_next, FrontLog.watch, QueueLog.watch]
    exact if_pos hf
  have hstart : ((frontEnd depth n c).next x i).2.start = x.1.npcD i c := if_pos hf
  obtain ⟨done, rest, hq, -⟩ := h.queue
  constructor
  case even => exact h.even.step hi hm
  case ras =>
    exact Ras.step_forall (P := fun e => e.valid = false → e.ra = 0) h.ras (fun _ => rfl) fun hv => by cases hv
  case queue =>
    refine ⟨[], [], hq.flush hf, ?_⟩
    rw [hlog]
    exact .empty
  case follows =>
    rw [hlog]
    trivial
  case ahead =>
    intro _
    rw [hlog, hstart]
    exact Fetching.kill hi hk2 (if_pos hk1).symm

theorem step_run (h : Delivers c mem x) (hi : Surroundings c mem x i) (hf : i.flush = false) :
    Delivers c mem ((frontEnd depth n c).next x i) := by
  obtain ⟨done, rest, hq, hl⟩ := h.queue
  have hp := packets hi
  have hm : FrontEnd.isMispredict i = true → i.resolvedBranch.targetAddress.getLsbD 0 = false :=
    fun hm => absurd ((hi.quiet hf).1.symm.trans hm) Bool.false_ne_true
  have ht : x.1.queue.Takes (x.1.queueIn i) := hq.takes hp
  have hlog : ((frontEnd depth n c).next x i).2.queue.accepted =
      x.2.queue.accepted ++ x.1.queue.acceptedNow (x.1.queueIn i) := by
    rw [frontEnd_next, FrontLog.watch, accepted_watch]
    exact if_neg (Bool.eq_false_iff.mp hf)
  have hstart : ((frontEnd depth n c).next x i).2.start = x.2.start := if_neg (Bool.eq_false_iff.mp hf)
  constructor
  case even => exact h.even.step hi hm
  case ras =>
    exact Ras.step_forall (P := fun e => e.valid = false → e.ra = 0) h.ras (fun _ => rfl) fun hv => by cases hv
  case queue => exact ⟨_, _, hq.step hp hf, hl.step hq hp hf⟩
  case follows =>
    rw [hlog, hstart, Walk.follows_append]
    refine ⟨h.follows, fun hs => ?_⟩
    obtain ⟨hfetch, hnext⟩ := h.ahead hs
    rw [← hnext]
    exact hfetch.follows_now h.even ht
  case ahead =>
    rw [hlog, hstart, Walk.straight_append]
    rintro ⟨hs, hnow⟩
    obtain ⟨hfetch, hnext⟩ := h.ahead hs
    rw [Walk.arrive_append, ← hnext]
    exact hfetch.ahead h.even hi ht h.ras hf hnow

theorem step (h : Delivers c mem x) (hi : Surroundings c mem x i)
    (hm : FrontEnd.isMispredict i = true → i.resolvedBranch.targetAddress.getLsbD 0 = false) :
    Delivers c mem ((frontEnd depth n c).next x i) := by
  cases hf : i.flush with
  | true => exact h.step_flush hi hm hf
  | false => exact h.step_run hi hf

end Delivers

/-! ### What comes out of the queue -/

namespace FetchEntry

def next (e : FetchEntry) : BitVec 64 := if e.cf = .noCF then e.address + instrLen e.instruction else e.predictAddress

/-- An exception, or a return that is predicted without an address. -/
def stray (e : FetchEntry) : Prop := e.ex.valid = true ∨ e.cf = .ret ∧ e.predictAddress = 0

end FetchEntry

/-- An entry of the way: it is the instruction of its address, and its prediction fits. -/
def entryWalk (mem : BitVec 64 → BitVec 16) : Walk (BitVec 64) FetchEntry where
  ok v e := e.address = v ∧ (e.ex.valid = false → InMemory mem v e.instruction) ∧
    Fits e.cf v e.predictAddress (flow e.instruction)
  next := FetchEntry.next
  stray := FetchEntry.stray

/-- What an entry says of its instruction. -/
structure Carries (e : FetchEntry) (a : Accepted) : Prop where
  instruction : e.instruction = a.data.instr
  cf : e.cf = a.data.cf
  ex : e.ex.valid = (a.data.ex != .feNone)
  predict : a.data.cf ≠ .noCF → e.predictAddress = a.predict

theorem Serves.carries {e : FetchEntry} {a : Accepted} (h : Serves e a) : Carries e a where
  instruction := congrArg FetchEntry.instruction h.data
  cf := congrArg FetchEntry.cf h.data
  ex := congrArg (·.ex.valid) h.data
  predict := h.predict

namespace Carries
variable {e : FetchEntry} {a : Accepted} {v : BitVec 64}

theorem stray (h : Carries e a) (ha : a.stray) : e.stray := by
  rcases ha with hx | ⟨hc, hp⟩
  · exact .inl (h.ex.trans (bne_iff_ne.mpr hx))
  · exact .inr ⟨h.cf.trans hc, (h.predict (by rw [hc]; decide)).trans hp⟩

theorem next (h : Carries e a) (he : e.address = v) (ha : a.addr = v) : e.next = a.next := by
  rw [FetchEntry.next, h.cf, h.instruction, he, ← ha]
  by_cases hc : a.data.cf = .noCF
  · rw [if_pos hc, next_noCF hc]
  · rw [if_neg hc, next_taken hc, h.predict hc]

theorem ok (h : Carries e a) (he : e.address = v) (ha : (acceptedWalk mem).ok v a) : (entryWalk mem).ok v e := by
  obtain ⟨-, hm, hf⟩ := ha
  refine ⟨he, fun hx => ?_, ?_⟩
  · rw [h.instruction]
    apply hm
    rw [h.ex] at hx
    simpa using hx
  · rw [h.cf, h.instruction]
    exact hf.congr h.predict

end Carries

/-- The entries that have been counted from the first address are those of the way. -/
theorem follows_entries {v : BitVec 64} {done : List Accepted} {issued : List FetchEntry}
    (hs : List.Forall₂ Serves issued done) (hf : (acceptedWalk mem).Follows v done)
    (hl : issued.map (·.address) = labels v done) : (entryWalk mem).Follows v issued := by
  induction hs generalizing v with
  | nil => trivial
  | @cons e a issued done ha _ ih =>
    obtain ⟨hok, hrest⟩ := hf
    rw [List.map_cons, labels, List.cons.injEq] at hl
    refine ⟨ha.carries.ok hl.1 hok, fun hns => ?_⟩
    have hnext : e.next = a.nextFrom v := by
      rw [ha.carries.next hl.1 hok.1, next_eq, hok.1]
    change (entryWalk mem).Follows e.next issued
    rw [hnext]
    apply ih ?_ hl.2
    rw [← hok.1, ← next_eq]
    exact hrest fun hs => hns (ha.carries.stray hs)

/-- What the queue has put out since the front end has been sent somewhere is the way from there. -/
theorem Delivers.entries (h : Delivers c mem x) : (entryWalk mem).Follows x.2.start x.2.queue.issued := by
  obtain ⟨done, rest, hq, hl⟩ := h.queue
  have hfollows := h.follows
  have ha : x.2.queue.accepted = done ++ rest := hq.accepted
  rw [ha, Walk.follows_append] at hfollows
  apply follows_entries hq.issued hfollows.1
  cases done with
  | nil =>
    have hn : x.2.queue.issued = [] := List.forall₂_nil_right_iff.mp hq.issued
    rw [hn]
    rfl
  | cons a done =>
    have hhead : a ∈ x.2.queue.accepted.head? := by
      rw [ha]
      rfl
    have hstart : a.addr = x.2.start := hfollows.1.1.1
    rw [← hstart]
    exact hl.issued a hhead

/-- The addresses that are counted from an even one are even. -/
theorem even_labels {l : List Accepted} {v w : BitVec 64} (hv : v.getLsbD 0 = false)
    (hl : ∀ a ∈ l, a.predict.getLsbD 0 = false) (hw : w ∈ labels v l) : w.getLsbD 0 = false := by
  induction l generalizing v with
  | nil => exact absurd hw List.not_mem_nil
  | cons a l ih =>
    rw [labels, List.mem_cons] at hw
    rcases hw with rfl | hw
    · exact hv
    · apply ih ?_ (fun b hb => hl b (List.mem_cons_of_mem a hb)) hw
      rw [Accepted.nextFrom]
      split_ifs
      · exact even_add hv rfl
      · exact even_add hv rfl
      · exact hl a List.mem_cons_self

theorem Delivers.even_entries (h : Delivers c mem x) : ∀ e ∈ x.2.queue.issued, e.address.getLsbD 0 = false := by
  obtain ⟨done, rest, hq, hl⟩ := h.queue
  have ha : x.2.queue.accepted = done ++ rest := hq.accepted
  intro e he
  cases done with
  | nil =>
    have hn : x.2.queue.issued = [] := List.forall₂_nil_right_iff.mp hq.issued
    rw [hn] at he
    exact absurd he List.not_mem_nil
  | cons a done =>
    have hmem : ∀ b ∈ a :: done, b ∈ x.2.queue.accepted := by
      intro b hb
      rw [ha]
      exact List.mem_append_left rest hb
    have hlabel : e.address ∈ labels a.addr (a :: done) := by
      have hissued : x.2.queue.issued.map (·.address) = labels a.addr (a :: done) := hl.issued a (by
        change a ∈ x.2.queue.accepted.head?
        rw [ha]
        rfl)
      rw [← hissued]
      exact List.mem_map_of_mem he
    exact even_labels (h.even.accepted a (hmem a List.mem_cons_self)).1 (fun b hb =>
      (h.even.accepted b (hmem b hb)).2) hlabel

/-! ### Over every run -/

/-- The surroundings, with a branch unit that only knows even addresses. -/
structure Driven (c : FrontendCfg) (mem : BitVec 64 → BitVec 16) (x : FrontEnd depth n × FrontLog)
    (i : FrontendIn) : Prop where
  surroundings : Surroundings c mem x i
  target : FrontEnd.isMispredict i = true → i.resolvedBranch.targetAddress.getLsbD 0 = false

theorem Delivers.of_reachable (hd : 0 < depth) (hc : c.bootAddr.getLsbD 0 = false)
    (hr : (frontEnd depth n c).Reachable (Driven c mem) x) : Delivers c mem x := by
  apply hr.invariant
  · rintro ⟨q, l⟩ ⟨hq, hl⟩
    obtain rfl : q = FrontEnd.reset := hq
    obtain rfl : l = ⟨none, c.bootAddr, .empty⟩ := hl
    exact .init hd hc
  · intro x i h hi
    exact h.step hi.surroundings hi.target

/-- Over every run, what has gone into the queue since the front end has last been sent somewhere is the way from
there as it is predicted, and so is what the queue has put out. -/
theorem delivered_path (hd : 0 < depth) (c : FrontendCfg) (hc : c.bootAddr.getLsbD 0 = false)
    (mem : BitVec 64 → BitVec 16) (x : FrontEnd depth n × FrontLog)
    (hr : (frontEnd depth n c).Reachable (Driven c mem) x) :
    (acceptedWalk mem).Follows x.2.start x.2.queue.accepted ∧ (entryWalk mem).Follows x.2.start x.2.queue.issued := by
  have h : Delivers c mem x := .of_reachable hd hc hr
  exact ⟨h.follows, h.entries⟩

instance : Decidable (Driven c mem x i) :=
  decidable_of_iff (Surroundings c mem x i ∧ (FrontEnd.isMispredict i = true →
    i.resolvedBranch.targetAddress.getLsbD 0 = false))
    ⟨fun ⟨a, b⟩ => ⟨a, b⟩, fun ⟨a, b⟩ => ⟨a, b⟩⟩

/-- A branch over a few instructions, and a jump back to it. -/
def loopMemory (v : BitVec 64) : BitVec 16 :=
  if v = 0x100 then 0x0463 else if v = 0x102 then 0 else if v = 0x108 then 0xf06f else if v = 0x10a then 0xff9f else 1

def loopCfg : FrontendCfg := ⟨0x100, 0⟩

/-- A cycle; the cache answers with a word, or does not. -/
def fetchCycle (mem : BitVec 64 → BitVec 16) (answer : Option (BitVec 64)) (ready entry : Bool) (resolved : BpResolve) :
    FrontendIn where
  flush := resolved.isMispredict
  flushBp := false
  resolvedBranch := resolved
  setPcCommit := false
  pcCommit := 0
  epc := 0
  eret := false
  trapVectorBase := 0
  exValid := false
  setDebugPc := false
  icache := ⟨ready, answer.isSome, answer.getD 0, wordAt mem (answer.getD 0), 0, 0, 0, false⟩
  bhtPrediction := fun _ => ⟨false, false⟩
  btbPrediction := fun _ => ⟨false, 0⟩
  fetchEntryReady := entry

/-- The branch is passed, and the jump is followed back to it. -/
def loopFetches : List FrontendIn :=
  let cycle (answer : Option (BitVec 64)) (ready entry : Bool) : FrontendIn :=
    fetchCycle loopMemory answer ready entry ⟨false, 0, 0, false, false, .noCF⟩
  [cycle none true false, cycle (some 0x100) true false, cycle (some 0x104) true false, cycle (some 0x108) true true,
    cycle none true true, cycle (some 0x100) false true, cycle none false false]

theorem delivered_path_loop :
    let x := (frontEnd 4 1 loopCfg).run (.reset, ⟨none, 0x100, .empty⟩) loopFetches
    x.2.queue.accepted.map (·.addr) = [0x100, 0x104, 0x106, 0x108, 0x100] ∧
      x.2.queue.issued.map (·.address) = [0x100, 0x104, 0x106] ∧
      (acceptedWalk loopMemory).Follows 0x100 x.2.queue.accepted ∧
        (entryWalk loopMemory).Follows 0x100 x.2.queue.issued := by
  intro x
  have h0 : (frontEnd 4 1 loopCfg).init (.reset, ⟨none, 0x100, .empty⟩) := ⟨rfl, rfl⟩
  have hr : (frontEnd 4 1 loopCfg).Reachable (Driven loopCfg loopMemory) x := .run (.init h0) (by decide +kernel)
  have hp := delivered_path (by decide) loopCfg (by decide) loopMemory x hr
  have hs : x.2.start = 0x100 := by decide +kernel
  rw [hs] at hp
  exact ⟨by decide +kernel, by decide +kernel, hp⟩

end Culsans.Frontend
