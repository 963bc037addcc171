import Culsans.Ccu.Transaction

/-! # The snoop phase

Every port but the initiator's is asked once and answers once; the coherence unit goes on
by these answers alone.
-/

namespace Culsans.Ccu
open Dcache Library

section Ports
variable {N : ℕ} {v : Fin N → Bool}

theorem allPorts_iff : allPorts v = true ↔ ∀ n, v n = true := by simp [allPorts]
theorem anyPort_iff : anyPort v = true ↔ ∃ n, v n = true := by simp [anyPort]

end Ports

theorem Trace.length_push {α : Type*} (d : Bool) (a : α) (l : List α) :
    (push d a l).length = l.length + if d then 1 else 0 := by
  cases d <;> simp [push]

namespace Fsm
variable {N : ℕ} {q : Fsm N} {i : CcuIn N}

def decoding (q : Fsm N) : Bool := q.state == .decodeR || q.state == .decodeW

/-- No snoop is under way. -/
def snooped (q : Fsm N) : Bool := !(q.decoding || q.sending || q.waiting)

/-- No new request is taken up. -/
def continues (q : Fsm N) (i : CcuIn N) : Prop := q.takesAr i = false ∧ q.takesAw i = false

theorem continues_of_ne (h : q.state ≠ .idle) : q.continues i := by
  simp [continues, takesAr, takesAw, h]

theorem takes_cases (q : Fsm N) (i : CcuIn N) :
    q.takesAr i = true ∨ (q.takesAr i = false ∧ q.takesAw i = true) ∨ q.continues i := by
  unfold continues
  cases q.takesAr i <;> cases q.takesAw i <;> simp

theorem idle_of_takesAr (h : q.takesAr i = true) : q.state = .idle := by
  by_contra hs
  simp [(continues_of_ne hs).1] at h

theorem idle_of_takesAw (h : q.takesAw i = true) : q.state = .idle := by
  by_contra hs
  simp [(continues_of_ne hs).2] at h

theorem phase_cases (q : Fsm N) :
    (q.decoding = true ∧ q.sending = false ∧ q.waiting = false ∧ q.snooped = false) ∨
    (q.decoding = false ∧ q.sending = true ∧ q.waiting = false ∧ q.snooped = false) ∨
    (q.decoding = false ∧ q.sending = false ∧ q.waiting = true ∧ q.snooped = false) ∨
    (q.decoding = false ∧ q.sending = false ∧ q.waiting = false ∧ q.snooped = true) := by
  cases hq : q.state <;> simp [decoding, sending, waiting, snooped, hq]

theorem idle_snooped (h : q.state = .idle) : q.snooped = true := by
  simp [snooped, decoding, sending, waiting, h]

theorem acDone_sending {n : Fin N} (h : q.acDone i n = true) : q.sending = true ∧ q.acReady n = false := by
  simp_all [acDone, acValid]

theorem crDone_waiting {n : Fin N} (h : q.crDone i n = true) : q.waiting = true ∧ q.crValid n = false := by
  simp_all [crDone, crReady]

variable [NeZero N]

theorem step_acReady : (q.step i).acReady =
    if q.decoding = true then q.initiator
    else if q.sending = true then fun n => q.acReady n || q.acDone i n else fun _ => false := by
  simp [step, acReadyD, decoding]

theorem step_crValid : (q.step i).crValid = if q.state = .idle then fun _ => false
    else if q.sending = true then q.initiator else fun n => q.crValid n || q.crDone i n := rfl

theorem ne_idle (hc : q.continues i) (hs : (q.step i).state ≠ .idle) : q.state ≠ .idle :=
  fun hi => hs (by simp [step, stateD, hi, hc.1, hc.2])

/-- The phases of a transaction follow each other, a phase ends when all ports are through. -/
theorem phases (q : Fsm N) (hc : q.continues i) :
    (q.step i).decoding = false ∧
    ((q.step i).sending = true → q.decoding = true ∨ (q.sending = true ∧ allPorts q.acReady = false)) ∧
    ((q.step i).waiting = true → (q.sending = true ∧ allPorts q.acReady = true) ∨ q.waiting = true) ∧
    ((q.step i).snooped = true → (q.waiting = true ∧ allPorts q.crValid = true) ∨ q.snooped = true) := by
  cases hq : q.state <;> simp only [step, stateD, decoding, sending, waiting, snooped, hq] <;>
    grind -ring -linarith [continues]

end Fsm

/-- What the registers and the trace of a transaction have to do with each other. -/
structure SnoopInv {N : ℕ} (q : Fsm N) (t : Trace N) (r : Req N) : Prop where
  visits : q.state ≠ .idle → r.visits q.state = true
  held : q.state ≠ .idle → r.Held q
  initiator : q.state ≠ .idle → q.initiator = fun n => n == r.port
  acDecoding : q.decoding = true → ∀ n, t.ac n = []
  acSending : q.sending = true → q.acReady r.port = true ∧
    ∀ n, t.ac n = if n ≠ r.port ∧ q.acReady n = true then [r.ac] else []
  acDone : q.waiting = true ∨ q.snooped = true → ∀ n, t.ac n = if n = r.port then [] else [r.ac]
  crBefore : q.decoding = true ∨ q.sending = true → ∀ n, t.cr n = []
  crInitiator : t.cr r.port = []
  crWaiting : q.waiting = true → q.crValid r.port = true ∧
    ∀ n, n ≠ r.port → (t.cr n).length = if q.crValid n then 1 else 0
  crDone : q.snooped = true → ∀ n, n ≠ r.port → (t.cr n).length = 1
  dataAvailable : q.state ≠ .idle → ∀ n, q.dataAvailable n = (t.cr n).any (·.dataTransfer)
  shared : q.state ≠ .idle → ∀ n, q.shared n = (t.cr n).any (·.isShared)
  dirty : q.state ≠ .idle → ∀ n, q.dirty n = (t.cr n).any (·.passDirty)
  responseError : q.state ≠ .idle → ∀ n, q.responseError n = (t.cr n).any (·.error)
  found : q.state ≠ .idle → q.snoopRespFound = q.dataFound
  responder : q.state ≠ .idle → q.snoopRespFound = true →
    q.dataAvailable q.firstResponder = true ∧ q.responseError q.firstResponder = false

namespace SnoopInv
variable {N : ℕ} {q : Fsm N} {t : Trace N} {r : Req N} {i : CcuIn N}

theorem ac_step (hc : q.continues i) (n : Fin N) : (t.step q i).ac n = Trace.push (q.acDone i n) q.ac (t.ac n) := by
  simp [Trace.step, hc.1, hc.2]

theorem cr_step (hc : q.continues i) (n : Fin N) :
    (t.step q i).cr n = Trace.push (q.crDone i n) (i.snoop n).crResp (t.cr n) := by
  simp [Trace.step, hc.1, hc.2]

theorem sending_ac (h : SnoopInv q t r) (hs : q.sending = true) : q.ac = r.ac := by
  have hne : q.state ≠ .idle := fun hi => by simp [Fsm.sending, hi] at hs
  have hv := h.visits hne
  have hh := h.held hne
  simp only [Fsm.sending, Bool.or_eq_true, beq_iff_eq] at hs
  rcases hs with (hs | hs) | hs <;> cases r <;> simp_all [Fsm.ac, Req.ac, Req.visits, Req.Held]

/-- A port that answers now has not answered before. -/
theorem cr_of_crDone (h : SnoopInv q t r) {n : Fin N} (hd : q.crDone i n = true) : t.cr n = [] := by
  obtain ⟨hw, hcv⟩ := Fsm.crDone_waiting hd
  have hn : n ≠ r.port := fun hn => by simp [hn, (h.crWaiting hw).1] at hcv
  simpa [hcv] using (h.crWaiting hw).2 n hn

theorem crInitiator_step (h : SnoopInv q t r) (hc : q.continues i) : (t.step q i).cr r.port = [] := by
  rw [cr_step hc, h.crInitiator]
  have h2 := fun hd => (h.crWaiting hd).1
  have h4 := Fsm.crDone_waiting (q := q) (i := i) (n := r.port)
  grind -ring -linarith [Trace.push]

/-- A CR register follows the answers in the trace. -/
theorem crLoad_step (h : SnoopInv q t r) (hc : q.continues i) (hne : q.state ≠ .idle) {v : Fin N → Bool}
    {f : CrResp → Bool} {n : Fin N} (hv : v n = (t.cr n).any f) :
    q.crLoad i v f n = ((t.step q i).cr n).any f := by
  rw [cr_step hc, Fsm.crLoad, if_neg hne]
  cases hd : q.crDone i n with
  | false => simpa [Trace.push] using hv
  | true => simp [Trace.push, h.cr_of_crDone hd]

theorem dataAvailable_of_crDone (h : SnoopInv q t r) {n : Fin N} (hd : q.crDone i n = true) :
    q.dataAvailable n = false := by
  have hne : q.state ≠ .idle := fun hi => by simp [Fsm.crDone, Fsm.crReady, Fsm.waiting, hi] at hd
  rw [h.dataAvailable hne, h.cr_of_crDone hd, List.any_nil]

theorem returned_iff (h : SnoopInv q t r) (hne : q.state ≠ .idle) (n : Fin N) :
    (q.dataAvailable n = true ∧ q.responseError n = false) ↔ t.Returned n := by
  have hlen : (t.cr n).length ≤ 1 := by
    by_cases hn : n = r.port
    · simp [hn, h.crInitiator]
    · have h1 := h.crBefore
      have h2 := fun hw => (h.crWaiting hw).2 n hn
      have h3 := fun hs => h.crDone hs n hn
      have h4 := q.phase_cases
      grind -ring -linarith
  rw [h.dataAvailable hne, h.responseError hne, Trace.Returned]
  match ht : t.cr n with
  | [] => simp
  | [c] => simp
  | _ :: _ :: _ => simp [ht] at hlen

variable [NeZero N]

theorem visits_step (h : SnoopInv q t r) (hc : q.continues i) (hs : (q.step i).state ≠ .idle) :
    r.visits (q.step i).state = true := by
  have hne := Fsm.ne_idle hc hs
  have hv := h.visits hne
  have hh := h.held hne
  cases r <;> cases hq : q.state <;> simp only [hq, Req.visits, Req.Held, Fsm.step, Fsm.stateD] at * <;>
    grind -ring -linarith

theorem held_step (h : SnoopInv q t r) (hc : q.continues i) (hs : (q.step i).state ≠ .idle) :
    r.Held (q.step i) := by
  have hh := h.held (Fsm.ne_idle hc hs)
  cases r <;> simpa [Req.Held, Fsm.step, hc.1, hc.2] using hh

theorem initiator_step (h : SnoopInv q t r) (hc : q.continues i) (hs : (q.step i).state ≠ .idle) :
    (q.step i).initiator = fun n => n == r.port := by
  have hne := Fsm.ne_idle hc hs
  simpa [Fsm.step, Fsm.initiatorD, hne] using h.initiator hne

theorem acSending_step (h : SnoopInv q t r) (hc : q.continues i) (hs : (q.step i).sending = true) :
    (q.step i).acReady r.port = true ∧
      ∀ n, (t.step q i).ac n = if n ≠ r.port ∧ (q.step i).acReady n = true then [r.ac] else [] := by
  have hp := (q.phases hc).2.1 hs
  have hi : q.initiator = fun n => n == r.port := h.initiator fun hi => by
    simp [Fsm.decoding, Fsm.sending, hi] at hp
  refine ⟨?_, fun n => ?_⟩
  · have := h.acSending
    grind -ring -linarith [Fsm.step_acReady]
  · rw [ac_step hc n]
    have h1 := fun hd => h.acDecoding hd n
    have h2 := fun hd => h.acSending hd
    have h3 := h.sending_ac
    have h4 := Fsm.acDone_sending (q := q) (i := i) (n := n)
    have h5 := q.phase_cases
    grind -ring -linarith [Fsm.step_acReady, Trace.push]

theorem acDone_step (h : SnoopInv q t r) (hc : q.continues i)
    (hs : (q.step i).waiting = true ∨ (q.step i).snooped = true) (n : Fin N) :
    (t.step q i).ac n = if n = r.port then [] else [r.ac] := by
  rw [ac_step hc n]
  have hp := q.phases hc
  have h1 := fun hd => h.acDone hd n
  have h2 := fun hd => (h.acSending hd).2 n
  have h4 := Fsm.acDone_sending (q := q) (i := i) (n := n)
  have h5 := q.phase_cases
  have h6 : allPorts q.acReady = true → q.acReady n = true := fun h => allPorts_iff.mp h n
  grind -ring -linarith [Trace.push]

theorem crBefore_step (h : SnoopInv q t r) (hc : q.continues i)
    (hs : (q.step i).decoding = true ∨ (q.step i).sending = true) (n : Fin N) : (t.step q i).cr n = [] := by
  rw [cr_step hc n]
  have hp := q.phases hc
  have h1 := fun hd => h.crBefore hd n
  have h4 := Fsm.crDone_waiting (q := q) (i := i) (n := n)
  have h5 := q.phase_cases
  grind -ring -linarith [Trace.push]

theorem crWaiting_step (h : SnoopInv q t r) (hc : q.continues i) (hs : (q.step i).waiting = true) :
    (q.step i).crValid r.port = true ∧
      ∀ n, n ≠ r.port → ((t.step q i).cr n).length = if (q.step i).crValid n then 1 else 0 := by
  have hp := (q.phases hc).2.2.1 hs
  have hne : q.state ≠ .idle := fun hi => by simp [Fsm.waiting, Fsm.sending, hi] at hp
  have hi := h.initiator hne
  have h5 := q.phase_cases
  refine ⟨?_, fun n hn => ?_⟩
  · have := h.crWaiting
    grind -ring -linarith [Fsm.step_crValid]
  · rw [cr_step hc n, Trace.length_push]
    have h1 := fun hd => h.crBefore hd n
    have h2 := fun hd => (h.crWaiting hd).2 n hn
    have h4 := Fsm.crDone_waiting (q := q) (i := i) (n := n)
    grind -ring -linarith [Fsm.step_crValid]

theorem crDone_step (h : SnoopInv q t r) (hc : q.continues i) (hs : (q.step i).snooped = true) (n : Fin N)
    (hn : n ≠ r.port) : ((t.step q i).cr n).length = 1 := by
  rw [cr_step hc n, Trace.length_push]
  have hp := (q.phases hc).2.2.2 hs
  have h1 := fun hd => h.crDone hd n hn
  have h2 := fun hd => (h.crWaiting hd).2 n hn
  have h4 := Fsm.crDone_waiting (q := q) (i := i) (n := n)
  have h5 := q.phase_cases
  have h6 : allPorts q.crValid = true → q.crValid n = true := fun h => allPorts_iff.mp h n
  grind -ring -linarith

theorem step_dataFound (h : SnoopInv q t r) (hne : q.state ≠ .idle) :
    (q.step i).dataFound = (q.dataFound || (q.responder i).isSome) := by
  rw [Bool.eq_iff_iff, Bool.or_eq_true, Fsm.dataFound, Fsm.dataFound, anyPort_iff, anyPort_iff, Fsm.responder,
    List.find?_isSome]
  constructor
  · rintro ⟨n, hn⟩
    cases hd : q.crDone i n with
    | false => exact .inl ⟨n, by simpa [Fsm.step, Fsm.crLoad, hne, hd] using hn⟩
    | true => exact .inr ⟨n, List.mem_finRange n, by simpa [Fsm.step, Fsm.crLoad, hne, hd, Fsm.responds] using hn⟩
  · rintro (⟨n, hn⟩ | ⟨n, -, hn⟩)
    · have hd : q.crDone i n = false := by
        by_contra hd
        simp [h.dataAvailable_of_crDone (by simpa using hd)] at hn
      exact ⟨n, by simpa [Fsm.step, Fsm.crLoad, hne, hd] using hn⟩
    · simp only [Fsm.responds, Bool.and_eq_true] at hn
      exact ⟨n, by simpa [Fsm.step, Fsm.crLoad, hne, hn.1.1] using hn⟩

theorem responder_step (h : SnoopInv q t r) (hne : q.state ≠ .idle) (hf : (q.step i).snoopRespFound = true) :
    (q.step i).dataAvailable (q.step i).firstResponder = true ∧
      (q.step i).responseError (q.step i).firstResponder = false := by
  cases hs : q.snoopRespFound with
  | true =>
    obtain ⟨h1, h2⟩ := h.responder hne hs
    have hd : q.crDone i q.firstResponder = false := by
      by_contra hd
      simp [h.dataAvailable_of_crDone (by simpa using hd)] at h1
    simp [Fsm.step, Fsm.firstResponderD, Fsm.crLoad, hne, hs, hd, h1, h2]
  | false =>
    have hr : (q.responder i).isSome = true := by simpa [Fsm.step, Fsm.snoopRespFoundD, hne, hs] using hf
    obtain ⟨n, hn⟩ := Option.isSome_iff_exists.mp hr
    have hresp : q.responds i n = true := List.find?_some hn
    simp only [Fsm.responds, Bool.and_eq_true, Bool.not_eq_true'] at hresp
    simp [Fsm.step, Fsm.firstResponderD, Fsm.crLoad, hne, hs, hn, hresp]

theorem next (h : SnoopInv q t r) (hc : q.continues i) : SnoopInv (q.step i) (t.step q i) r where
  visits := h.visits_step hc
  held := h.held_step hc
  initiator := h.initiator_step hc
  acDecoding hd := by simp [(q.phases hc).1] at hd
  acSending := h.acSending_step hc
  acDone := h.acDone_step hc
  crBefore := h.crBefore_step hc
  crInitiator := h.crInitiator_step hc
  crWaiting := h.crWaiting_step hc
  crDone := h.crDone_step hc
  dataAvailable hs n := h.crLoad_step hc (Fsm.ne_idle hc hs) (h.dataAvailable (Fsm.ne_idle hc hs) n)
  shared hs n := h.crLoad_step hc (Fsm.ne_idle hc hs) (h.shared (Fsm.ne_idle hc hs) n)
  dirty hs n := h.crLoad_step hc (Fsm.ne_idle hc hs) (h.dirty (Fsm.ne_idle hc hs) n)
  responseError hs n := h.crLoad_step hc (Fsm.ne_idle hc hs) (h.responseError (Fsm.ne_idle hc hs) n)
  found hs := by
    have hne := Fsm.ne_idle hc hs
    rw [h.step_dataFound hne, ← h.found hne]
    simp [Fsm.step, Fsm.snoopRespFoundD, hne]
  responder hs := h.responder_step (Fsm.ne_idle hc hs)

/-- A request is taken up with all registers of the snoops cleared. -/
theorem start (hi : q.state = .idle) (hd : (q.step i).decoding = true) (hv : r.visits (q.step i).state = true)
    (hh : r.Held (q.step i)) (hin : (q.step i).initiator = fun n => n == r.port) :
    SnoopInv (q.step i) (.start (some r)) r := by
  have hp := (q.step i).phase_cases
  constructor <;> simp_all [Trace.start, Fsm.step, Fsm.crLoad, Fsm.snoopRespFoundD, Fsm.dataFound, anyPort]

end SnoopInv

variable {N : ℕ} [NeZero N] {q : Fsm N} {t : Trace N}

theorem snoopInv_step (h : ∀ r, t.req = some r → SnoopInv q t r) (h0 : t.req = none → q.state = .idle) (i : CcuIn N) :
    (∀ r, (t.step q i).req = some r → SnoopInv (q.step i) (t.step q i) r) ∧
      ((t.step q i).req = none → (q.step i).state = .idle) := by
  rcases q.takes_cases i with ht | ⟨hr, ht⟩ | ht
  · have hi := Fsm.idle_of_takesAr ht
    have hst : (q.step i).state = .decodeR := by simp [Fsm.step, Fsm.stateD, hi, ht]
    have htr : t.step q i = .start (some (.read i.req.ar)) := by simp [Trace.step, ht]
    rw [htr]
    refine ⟨fun r hreq => ?_, fun hn => by simp [Trace.start] at hn⟩
    obtain rfl := Option.some.inj hreq
    refine .start hi (by simp [Fsm.decoding, hst]) (by simp [hst, Req.visits]) ?_ ?_
    · simp [Req.Held, Fsm.step, ht]
    · simp [Fsm.step, Fsm.initiatorD, hi, ht, Req.port]
  · have hi := Fsm.idle_of_takesAw ht
    have hst : (q.step i).state = .decodeW := by simp [Fsm.step, Fsm.stateD, hi, hr, ht]
    have htr : t.step q i = .start (some (.write i.req.aw)) := by simp [Trace.step, hr, ht]
    rw [htr]
    refine ⟨fun r hreq => ?_, fun hn => by simp [Trace.start] at hn⟩
    obtain rfl := Option.some.inj hreq
    refine .start hi (by simp [Fsm.decoding, hst]) (by simp [hst, Req.visits]) ?_ ?_
    · simp [Req.Held, Fsm.step, ht]
    · simp [Fsm.step, Fsm.initiatorD, hi, hr, ht, Req.port]
  · have hreq : (t.step q i).req = t.req := by simp [Trace.step, ht.1, ht.2]
    rw [hreq]
    refine ⟨fun r hr => (h r hr).next ht, fun hn => ?_⟩
    simp [Fsm.step, Fsm.stateD, h0 hn, ht.1, ht.2]

theorem snoopInv_reachable {ok : Fsm N × Trace N → CcuIn N → Prop} {x : Fsm N × Trace N}
    (h : (ccu N).Reachable ok x) :
    (∀ r, x.2.req = some r → SnoopInv x.1 x.2 r) ∧ (x.2.req = none → x.1.state = .idle) := by
  refine h.invariant (P := fun x => (∀ r, x.2.req = some r → SnoopInv x.1 x.2 r) ∧ (x.2.req = none → x.1.state = .idle))
    (fun x h0 => ?_) (fun x i hx _ => snoopInv_step hx.1 hx.2 i)
  obtain ⟨hr, ht⟩ := h0
  exact ⟨fun r hr => by simp [ht, Trace.start] at hr, fun _ => hr.state⟩


theorem SnoopInv.ack_step {r : Req N} {i : CcuIn N} (h : SnoopInv q t r) (hu : r.upgrade = true) (hc : q.continues i)
    (hr : t.r = if q.snooped then [r.ack] else []) :
    (t.step q i).r = if (q.step i).snooped then [r.ack] else [] := by
  have hv := h.visits
  have hh := h.held
  have hst : (t.step q i).r = Trace.push (q.rDone i) (q.r i) t.r := by simp [Trace.step, hc.1, hc.2]
  rw [hst]
  cases r with
  | write aw => simp [Req.upgrade] at hu
  | read ar =>
    simp only [Req.upgrade, Bool.and_eq_true, beq_iff_eq, Bool.not_eq_true'] at hu
    cases hq : q.state <;>
      simp only [hq, Req.visits, Req.Held, Req.ack, Fsm.snooped, Fsm.decoding, Fsm.sending, Fsm.waiting, Fsm.step,
        Fsm.stateD, Fsm.rDone, Fsm.rValid, Fsm.r, Trace.push] at * <;> grind -ring -linarith [Fsm.continues]

theorem ack_reachable {ok : Fsm N × Trace N → CcuIn N → Prop} {x : Fsm N × Trace N} (h : (ccu N).Reachable ok x) :
    ∀ r, x.2.req = some r → r.upgrade = true → x.2.r = if x.1.snooped then [r.ack] else [] := by
  refine Machine.Reachable.invariant_of (P := fun x => ∀ r, x.2.req = some r → SnoopInv x.1 x.2 r)
    (Q := fun x => ∀ r, x.2.req = some r → r.upgrade = true → x.2.r = if x.1.snooped then [r.ack] else [])
    (fun x hr => (snoopInv_reachable hr).1) (fun x h0 r hr => by simp [h0.2, Trace.start] at hr)
    (fun x i hs ha _ => ?_) h
  obtain ⟨q, t⟩ := x
  intro r hr hu
  change (t.step q i).req = some r at hr
  change (t.step q i).r = if (q.step i).snooped then [r.ack] else []
  rcases q.takes_cases i with ht | ⟨hn, ht⟩ | ht
  · have hst : (q.step i).state = .decodeR := by simp [Fsm.step, Fsm.stateD, Fsm.idle_of_takesAr ht, ht]
    simp [Trace.step, ht, Trace.start, Fsm.snooped, Fsm.decoding, hst]
  · have hst : (q.step i).state = .decodeW := by simp [Fsm.step, Fsm.stateD, Fsm.idle_of_takesAw ht, hn, ht]
    simp [Trace.step, hn, ht, Trace.start, Fsm.snooped, Fsm.decoding, hst]
  · have hreq : t.req = some r := by simpa [Trace.step, ht.1, ht.2] using hr
    exact (hs r hreq).ack_step hu ht (ha r hreq hu)

theorem SnoopInv.leaves {r : Req N} {i : CcuIn N} (h : SnoopInv q t r) (hw : q.waiting = true)
    (hl : (q.step i).waiting = false) :
    allPorts q.crValid = true ∧ (q.step i).state = if q.dataFound then r.dataState else r.memState := by
  have hne : q.state ≠ .idle := fun hi => by simp [Fsm.waiting, hi] at hw
  have hv := h.visits hne
  have hh := h.held hne
  cases r <;> cases hq : q.state <;>
    simp only [hq, Req.visits, Req.Held, Req.dataState, Req.memState, Fsm.waiting, Fsm.step, Fsm.stateD] at * <;>
    grind -ring -linarith

/-- In every transaction each port but the initiator's takes one AC, with the snoop of the request, and gives
one CR before its WAIT state is left; what follows is decided by these answers. -/
theorem snoop_phase {x : Fsm N × Trace N} (h : (ccu N).Reachable (fun _ _ => True) x) (i : CcuIn N) :
    (∀ n, x.1.acValid n = true → ∃ r, x.2.req = some r ∧ n ≠ r.port ∧ x.1.ac = r.ac) ∧
    ∀ r, x.2.req = some r →
      (∀ n, x.2.ac n = [] ∨ (n ≠ r.port ∧ x.2.ac n = [r.ac])) ∧
      (∀ n, x.2.cr n = [] ∨ (n ≠ r.port ∧ ∃ c, x.2.cr n = [c])) ∧
      (x.1.snooped = true ∨ (x.1.waiting = true ∧ (x.1.step i).waiting = false) →
        ∀ n, n ≠ r.port → x.2.ac n = [r.ac] ∧ ∃ c, x.2.cr n = [c]) ∧
      (x.1.waiting = true → (x.1.step i).waiting = false →
        ((∃ n, x.2.Returned n) → x.2.Returned x.1.firstResponder ∧ (x.1.step i).state = r.dataState) ∧
        ((¬ ∃ n, x.2.Returned n) → (x.1.step i).state = r.memState)) ∧
      (r.upgrade = true → x.2.r = if x.1.snooped then [r.ack] else []) := by
  obtain ⟨q, t⟩ := x
  obtain ⟨hinv, h0⟩ := snoopInv_reachable h
  have hp := q.phase_cases
  refine ⟨fun n hn => ?_, fun r hr => ?_⟩
  · simp only [Fsm.acValid, Bool.and_eq_true, Bool.not_eq_true'] at hn
    obtain ⟨r, hr⟩ : ∃ r, t.req = some r := by
      by_contra hnone
      have hi : q.state = .idle := h0 (by simpa [Option.eq_none_iff_forall_ne_some] using hnone)
      simp [Fsm.sending, hi] at hn
    have hs : SnoopInv q t r := hinv r hr
    exact ⟨r, hr, fun hport => by simp [hport, (hs.acSending hn.1).1] at hn, hs.sending_ac hn.1⟩
  have hs : SnoopInv q t r := hinv r hr
  have hover : q.snooped = true ∨ (q.waiting = true ∧ (q.step i).waiting = false) →
      ∀ n, n ≠ r.port → t.ac n = [r.ac] ∧ ∃ c, t.cr n = [c] := by
    rintro hov n hn
    rw [← List.length_eq_one_iff]
    rcases hov with hov | ⟨hw, hl⟩
    · exact ⟨by simpa [hn] using hs.acDone (.inr hov) n, hs.crDone hov n hn⟩
    · have hv := allPorts_iff.mp (hs.leaves hw hl).1 n
      exact ⟨by simpa [hn] using hs.acDone (.inl hw) n, by simpa [hv] using (hs.crWaiting hw).2 n hn⟩
  refine ⟨fun n => ?_, fun n => ?_, hover, fun hw hl => ?_, ack_reachable h r hr⟩
  · have h1 := fun hd => hs.acDecoding hd n
    have h2 := fun hd => (hs.acSending hd).2 n
    have h3 := fun hd => hs.acDone hd n
    grind -ring -linarith
  · by_cases hn : n = r.port
    · exact .inl (hn ▸ hs.crInitiator)
    · rw [← List.length_eq_one_iff, ← List.length_eq_zero_iff]
      have h1 := fun hd => hs.crBefore hd n
      have h2 := fun hd => (hs.crWaiting hd).2 n hn
      have h3 := fun hd => hs.crDone hd n hn
      grind -ring -linarith
  · have hne : q.state ≠ .idle := fun hi => by simp [Fsm.waiting, hi] at hw
    have hnext := (hs.leaves hw hl).2
    have hfound : q.dataFound = true ↔ ∃ n, t.Returned n := by
      simp only [Fsm.dataFound, anyPort_iff, Bool.and_eq_true, Bool.not_eq_true', hs.returned_iff hne]
    refine ⟨fun hret => ?_, fun hret => ?_⟩
    · have hf := hfound.mpr hret
      refine ⟨(hs.returned_iff hne _).mp (hs.responder hne ?_), by simpa [hf] using hnext⟩
      rw [hs.found hne, hf]
    · have hf : ¬ q.dataFound = true := fun hf => hret (hfound.mp hf)
      simpa [hf] using hnext


section Runs

namespace Stimuli

def ar (port : Fin 3) (addr : Addr) (len : BitVec 8) (lock : Bool) (snoop : AcSnoop) : Ar 3 :=
  ⟨⟨port, 0⟩, addr, len, 3, 1, lock, 0, 0, 0, 0, 0, snoop, 0, 1⟩

def aw (port : Fin 3) (addr : Addr) : Aw 3 := ⟨⟨port, 0⟩, addr, 0, 3, 1, false, 0, 0, 0, 0, 0, 0, 0, 0, 1, false⟩

/-- Nothing is valid and nothing is ready. -/
def quiet : CcuIn 3 where
  req := ⟨ar 0 0 0 false .readOnce, false, aw 0 0, false, ⟨0, 0, false, 0⟩, false, false, false⟩
  mem := ⟨false, false, false, ⟨⟨0, 0⟩, 0, 0⟩, false, ⟨⟨0, 0⟩, 0, false, false, 0, false, 0⟩, false⟩
  snoop _ := ⟨false, false, .zero, false, ⟨0, false⟩⟩

def reads (a : Ar 3) : CcuIn 3 := { quiet with req := { quiet.req with ar := a, arValid := true } }
def writes (a : Aw 3) : CcuIn 3 := { quiet with req := { quiet.req with aw := a, awValid := true } }
def asked : CcuIn 3 := { quiet with snoop := fun n => { quiet.snoop n with acReady := true } }
def answered (c : Fin 3 → CrResp) : CcuIn 3 :=
  { quiet with snoop := fun n => { quiet.snoop n with crValid := true, crResp := c n } }

/-- A request is taken up and all other cores answer. -/
def snoops (request : CcuIn 3) (c : Fin 3 → CrResp) : List (CcuIn 3) :=
  [request, request, asked, quiet, answered c]

/-- Core 2 has the line. -/
def onlyCore2 (c : CrResp) : Fin 3 → CrResp := fun n => if n = 2 then c else .zero

end Stimuli
open Stimuli

/-- After reset. -/
def initial : Fsm 3 :=
  ⟨.idle, fun _ => false, false, false, quiet.req.ar, false, quiet.req.aw, fun _ => false, fun _ => false,
    fun _ => false, fun _ => false, fun _ => false, fun _ => false, 0, false, fun _ => false, fun _ => 0, 0,
    false, false, false⟩

theorem initial_init : (ccu 3).init (initial, .start none) := ⟨⟨rfl, rfl, rfl⟩, rfl⟩

theorem snoop_phase_run :
    let x := (ccu 3).run (initial, .start none)
      (snoops (reads (ar 1 0x1000 1 false .readShared)) (onlyCore2 ⟨true, false, false, true⟩))
    x.2.Returned x.1.firstResponder ∧ (x.1.step quiet).state = .readSnpData := by
  have hr := Machine.reachable_run (ccu 3) initial_init
    (snoops (reads (ar 1 0x1000 1 false .readShared)) (onlyCore2 ⟨true, false, false, true⟩))
  have hx := ((snoop_phase hr quiet).2 (.read (ar 1 0x1000 1 false .readShared)) rfl).2.2.2.1
    (by decide +kernel) (by decide +kernel)
  exact hx.1 ⟨2, ⟨true, false, false, true⟩, by decide +kernel, rfl, rfl⟩

end Runs
end Culsans.Ccu
