import Culsans.Ccu.SnoopPhase

/-! # The line buffer

The words of the first responder pass through `cd_data`; `stored_cd_data` counts those
that have come in and not gone out. The same registers serve the R beats of a read and
the W beats of a write-back.
-/

namespace Culsans.Ccu
open Dcache Library

/-- A core sends its line as two beats, the second one marked last. -/
def conforming {N : ℕ} (t : Trace N) (i : CcuIn N) : Prop :=
  ∀ n, (i.snoop n).cdValid = true → (t.cd n).length < 2 ∧ (i.snoop n).cd.last = decide ((t.cd n).length = 1)

instance {N : ℕ} (t : Trace N) (i : CcuIn N) : Decidable (conforming t i) :=
  inferInstanceAs (Decidable (∀ n, (i.snoop n).cdValid = true →
    (t.cd n).length < 2 ∧ (i.snoop n).cd.last = decide ((t.cd n).length = 1)))

/-- The beats of a core so far. -/
def Beats (l : List Cd) : Prop := l = [] ∨ (∃ a, l = [⟨a, false⟩]) ∨ ∃ a b, l = [⟨a, false⟩, ⟨b, true⟩]

theorem Beats.length_le {l : List Cd} (h : Beats l) : l.length ≤ 2 := by
  rcases h with rfl | ⟨a, rfl⟩ | ⟨a, b, rfl⟩ <;> simp

theorem Beats.eq_of_length {l : List Cd} (h : Beats l) (hl : l.length = 2) :
    ∃ a b, l = [⟨a, false⟩, ⟨b, true⟩] := by
  rcases h with rfl | ⟨a, rfl⟩ | h
  · simp at hl
  · simp at hl
  · exact h

theorem Beats.push {l : List Cd} {c : Cd} (h : Beats l) (hl : l.length < 2) (hc : c.last = decide (l.length = 1)) :
    Beats (l ++ [c]) := by
  obtain ⟨a, last⟩ := c
  rcases h with rfl | ⟨b, rfl⟩ | ⟨b, b', rfl⟩
  · exact .inr (.inl ⟨a, by simp_all⟩)
  · exact .inr (.inr ⟨b, a, by simp_all⟩)
  · simp at hl

theorem extend_of_next {α : Type*} {l k : List α} {a : α} (h : l <+: k) (ha : k[l.length]? = some a) :
    l ++ [a] <+: k := by
  obtain ⟨m, rfl⟩ := h
  cases m with
  | nil => simp at ha
  | cons b m =>
    obtain rfl : b = a := by simpa using ha
    exact ⟨m, by simp⟩

/-- The up/down counter. -/
theorem counter_next {k m : ℕ} (hk : k ≤ 2) (hm : m ≤ k) {up down : Bool} (hup : up = true → k < 2)
    (hdown : down = true → m < k) :
    (if up && !down then BitVec.ofNat 2 (k - m) + 1 else if down && !up then BitVec.ofNat 2 (k - m) - 1
      else BitVec.ofNat 2 (k - m)) = BitVec.ofNat 2 (k + (if up then 1 else 0) - (m + if down then 1 else 0)) := by
  cases up <;> cases down <;> interval_cases k <;> interval_cases m <;> simp at hup hdown ⊢

/-- `m` words of the first responder have gone out. -/
structure Buffered {N : ℕ} (q : Fsm N) (t : Trace N) (m : ℕ) : Prop where
  beats : ∀ n, Beats (t.cd n)
  cdLast : ∀ n, q.cdLast n = decide ((t.cd n).length = 2)
  only : ∀ n, q.dataAvailable n = false → t.cd n = []
  le : m ≤ (t.cd q.firstResponder).length
  stored : q.storedCdData = BitVec.ofNat 2 ((t.cd q.firstResponder).length - m)
  word0 : ∀ c, (t.cd q.firstResponder)[0]? = some c → q.cdData false = c.data
  word1 : ∀ c, (t.cd q.firstResponder)[1]? = some c → q.cdData true = c.data

namespace Buffered
variable {N : ℕ} {q : Fsm N} {t : Trace N} {i : CcuIn N} {m : ℕ}

theorem cdDone_length (h : Buffered q t m) {n : Fin N} (hd : q.cdDone i n = true) : (t.cd n).length < 2 := by
  have hl := (h.beats n).length_le
  have hc := h.cdLast n
  simp only [Fsm.cdDone, Fsm.cdReady, Bool.and_eq_true, Bool.not_eq_true'] at hd
  rw [hd.1.1.2] at hc
  have : (t.cd n).length ≠ 2 := by simpa using hc.symm
  omega

theorem stored_eq_zero (h : Buffered q t m) : q.storedCdData = 0 ↔ (t.cd q.firstResponder).length = m := by
  have hle := h.le
  have hl := (h.beats q.firstResponder).length_le
  rw [h.stored]
  generalize (t.cd q.firstResponder).length = k at *
  interval_cases k <;> interval_cases m <;> simp

variable [NeZero N]

/-- The buffer in a state that passes data on. -/
theorem next (h : Buffered q t m) (hs : q.state = .readSnpData ∨ q.writingBack = true) (hc : conforming t i)
    (hd : q.drained i = true → m < (t.cd q.firstResponder).length)
    (hfr : (q.step i).firstResponder = q.firstResponder) (hav : (q.step i).dataAvailable = q.dataAvailable) :
    Buffered (q.step i) (t.step q i) (m + if q.drained i then 1 else 0) := by
  have hne : q.state ≠ .idle := fun hi => by simp [Fsm.writingBack, hi] at hs
  have hcont := Fsm.continues_of_ne (i := i) hne
  have hcd : ∀ n, (t.step q i).cd n = Trace.push (q.cdDone i n) (i.snoop n).cd (t.cd n) := fun n => by
    simp [Trace.step, hcont.1, hcont.2]
  have hvalid : ∀ n, q.cdDone i n = true → (i.snoop n).cdValid = true ∧ q.dataAvailable n = true := fun n hn => by
    simp only [Fsm.cdDone, Fsm.cdReady, Bool.and_eq_true] at hn
    exact ⟨hn.2, hn.1.2⟩
  have hlen : ∀ n, ((t.step q i).cd n).length = (t.cd n).length + if q.cdDone i n then 1 else 0 := fun n => by
    rw [hcd n, Trace.length_push]
  constructor
  · intro n
    rw [hcd n]
    cases hn : q.cdDone i n with
    | false => exact h.beats n
    | true =>
      obtain ⟨hl, hlast⟩ := hc n (hvalid n hn).1
      exact (h.beats n).push hl hlast
  · intro n
    rw [hlen n]
    have h1 := h.cdLast n
    have h2 := hc n
    have h3 : (q.step i).cdLast n = (q.cdLast n || ((i.snoop n).cdValid && (i.snoop n).cd.last &&
      q.dataAvailable n)) := by
      simp [Fsm.step, Fsm.cdLastD, hne, hs]
    have h4 : q.cdDone i n = (!q.cdLast n && q.dataAvailable n && (i.snoop n).cdValid) := by
      rcases hs with hs | hs <;> simp [Fsm.cdDone, Fsm.cdReady, hs]
    grind
  · intro n hn
    rw [hav] at hn
    have hnd : q.cdDone i n = false := by
      by_contra hd'
      simp [(hvalid n (by simpa using hd')).2] at hn
    rw [hcd n, hnd]
    exact h.only n hn
  · rw [hfr, hlen]
    have := h.le
    grind
  · rw [hfr, hlen]
    have hle := h.le
    have hl := (h.beats q.firstResponder).length_le
    have hlt := h.cdDone_length (i := i) (n := q.firstResponder)
    have hst := h.stored
    have hstep : (q.step i).storedCdData = if q.cdDone i q.firstResponder && !q.drained i then q.storedCdData + 1
        else if q.drained i && !q.cdDone i q.firstResponder then q.storedCdData - 1 else q.storedCdData := by
      simp [Fsm.step, Fsm.storedCdDataD, hne, hs]
    rw [hstep, hst]
    exact counter_next hl hle hlt hd
  all_goals
    intro c hcc
    rw [hfr, hcd] at hcc
    have h0 := h.word0
    have h1 := h.word1
    have hb := h.beats q.firstResponder
    have hl := hc q.firstResponder
    have hv := hvalid q.firstResponder
    have hlt := h.cdDone_length (i := i) (n := q.firstResponder)
    have hstep : (q.step i).cdData = if q.cdDone i q.firstResponder = true then
        fun b => if b = (i.snoop q.firstResponder).cd.last then (i.snoop q.firstResponder).cd.data else q.cdData b
        else q.cdData := by
      simp [Fsm.step, Fsm.cdDataD, hne]
    rw [hstep]
    cases hn : q.cdDone i q.firstResponder with
    | false => grind [Trace.push]
    | true =>
      obtain ⟨-, hlast⟩ := hl (hv hn).1
      rcases hb with hb | ⟨a, hb⟩ | ⟨a, b, hb⟩ <;> simp_all [Trace.push]

end Buffered

/-! ## Before the data -/

/-- No data has been taken from a core and nothing has been exchanged with memory. -/
structure Silent {N : ℕ} (q : Fsm N) (t : Trace N) : Prop where
  cd : ∀ n, t.cd n = []
  cdLast : ∀ n, q.cdLast n = false
  storedCdData : q.storedCdData = 0
  wLast : q.wLast = false
  w : t.w = []
  b : t.b = []
  memAr : t.memAr = []
  memAw : t.memAw = []
  memW : t.memW = []
  memB : t.memB = []

/-- The initiator has not been answered either. -/
structure Unanswered {N : ℕ} (q : Fsm N) (t : Trace N) : Prop extends Silent q t where
  rLast : q.rLast = false
  rEot : q.rEot = false
  r : t.r = []

variable {N : ℕ} {q : Fsm N} {t : Trace N} {i : CcuIn N}

theorem Buffered.empty (hcd : ∀ n, t.cd n = []) (hl : ∀ n, q.cdLast n = false) (hst : q.storedCdData = 0) :
    Buffered q t 0 := by
  constructor <;> simp [hcd, hl, hst, Beats]

variable [NeZero N]

theorem Unanswered.start (hi : q.state = .idle) (r : Option (Req N)) : Unanswered (q.step i) (.start r) := by
  refine ⟨?_, ?_, ?_, ?_⟩
  · constructor <;> simp [Fsm.step, Fsm.cdLastD, Fsm.storedCdDataD, hi, Trace.start]
  all_goals simp [Fsm.step, hi, Trace.start]

/-- All channels but AC, CR and R are silent while the snoops are sent and answered. -/
theorem Silent.next (h : Silent q t) (hs : q.snooped = false) : Silent (q.step i) (t.step q i) := by
  have hne : q.state ≠ .idle := fun hi => by simp [Fsm.idle_snooped hi] at hs
  have hc := Fsm.continues_of_ne (i := i) hne
  obtain ⟨h1, h2, h3, h4, h5, h6, h7, h8, h9, h10⟩ := h
  cases hq : q.state <;> simp only [Fsm.snooped, Fsm.decoding, Fsm.sending, Fsm.waiting, hq] at hs hne <;>
    (try exact absurd hs (by decide)) <;>
    constructor <;>
    simp [Fsm.step, Fsm.cdLastD, Fsm.storedCdDataD, Trace.step, Trace.push, hc.1, hc.2, Fsm.memWDone, Fsm.memWValid,
      Fsm.cdDone, Fsm.cdReady, Fsm.writingBack, Fsm.wReady, Fsm.bValid, Fsm.memArValid, Fsm.memAwValid,
        Fsm.memBReady, *]

theorem Unanswered.next (h : Unanswered q t) (hs : q.snooped = false) (hr : q.rDone i = false) :
    Unanswered (q.step i) (t.step q i) := by
  have hne : q.state ≠ .idle := fun hi => by simp [Fsm.idle_snooped hi] at hs
  have hc := Fsm.continues_of_ne (i := i) hne
  refine ⟨h.toSilent.next hs, ?_, ?_, ?_⟩
  · simp [Fsm.step, hne, hr, h.rLast]
  · simp [Fsm.step, hne, hr, h.rEot]
  · simp [Trace.step, hc.1, hc.2, Trace.push, hr, h.r]

/-- Once the snoops are over the answers do not change. -/
theorem Fsm.step_of_snooped (hne : q.state ≠ .idle) (hs : q.snooped = true) :
    (q.step i).firstResponder = q.firstResponder ∧ (q.step i).dataAvailable = q.dataAvailable ∧
      ∀ t : Trace N, (t.step q i).cr = t.cr := by
  have hw : q.waiting = false := by simp_all [Fsm.snooped]
  have hcr : ∀ n, q.crDone i n = false := fun n => by simp [Fsm.crDone, Fsm.crReady, hw]
  have hr : q.responder i = none := by simp [Fsm.responder, Fsm.responds, hcr]
  have hc := Fsm.continues_of_ne (i := i) hne
  refine ⟨by simp [Fsm.step, Fsm.firstResponderD, hne, hr], by simp [Fsm.step, Fsm.crLoad, hne, hcr], fun t => ?_⟩
  simp [Trace.step, hc.1, hc.2, hcr, Trace.push]

/-- A CleanUnique that is answered leaves its WAIT state. -/
theorem Fsm.silent_waiting (hs : q.snooped = false) (hs' : (q.step i).snooped = false) : q.rDone i = false := by
  cases hq : q.state <;>
    simp only [Fsm.snooped, Fsm.decoding, Fsm.sending, Fsm.waiting, Fsm.step, Fsm.stateD, Fsm.rDone, Fsm.rValid, hq]
      at * <;>
    grind

theorem unanswered_reachable {ok : Fsm N × Trace N → CcuIn N → Prop} {x : Fsm N × Trace N}
    (h : (ccu N).Reachable ok x) : x.1.snooped = false → Unanswered x.1 x.2 := by
  refine h.invariant (P := fun x => x.1.snooped = false → Unanswered x.1 x.2)
    (fun x h0 hs => by simp [Fsm.idle_snooped h0.1.state] at hs) (fun x i hx _ hs => ?_)
  obtain ⟨q, t⟩ := x
  change (q.step i).snooped = false at hs
  change Unanswered (q.step i) (t.step q i)
  rcases q.takes_cases i with ht | ⟨hr, ht⟩ | ht
  · have htr : t.step q i = .start (some (.read i.req.ar)) := by simp [Trace.step, ht]
    exact htr ▸ .start (Fsm.idle_of_takesAr ht) _
  · have htr : t.step q i = .start (some (.write i.req.aw)) := by simp [Trace.step, hr, ht]
    exact htr ▸ .start (Fsm.idle_of_takesAw ht) _
  · have hb : q.snooped = false := by
      have h1 := q.phases ht
      have h2 := (q.step i).phase_cases
      have h3 := q.phase_cases
      grind
    exact (hx hb).next hb (Fsm.silent_waiting hb hs)

end Culsans.Ccu
