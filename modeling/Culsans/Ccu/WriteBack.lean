import Culsans.Ccu.Buffer

/-! # Write-backs of snooped data

A CleanUnique, an exclusive read or a write that finds dirty data in another cache has it
written to memory first, as one burst of two words; only then is the request itself
forwarded.
-/

namespace Culsans.Ccu
open Dcache Library

namespace Req
variable {N : ℕ}

/-- CleanUnique, an exclusive read and every write remove the line from the other caches. -/
def invalidates : Req N → Bool
  | .read ar => ar.snoop == .cleanUnique || ar.lock
  | .write _ => true

/-- LR -/
def exclusive : Req N → Bool
  | .read ar => ar.lock
  | .write _ => false

def addr : Req N → Addr
  | .read ar => ar.addr
  | .write aw => aw.addr

def id : Req N → Id N
  | .read ar => ar.id
  | .write aw => aw.id

/-- The AW of a write-back of the line from core `n`: two words of eight bytes from the beginning of the line. -/
def writeBack (r : Req N) (n : Fin N) : Aw N :=
  ⟨⟨n, r.id.low⟩, r.addr &&& ~~~ 15#64, 1, 3, 1, false, 0, 0, 0, 0, 0, 0, 3, 0, 0, false⟩

/-- What is forwarded of a request on AW and on AR. -/
def forwardAw : Req N → List (Aw N)
  | .read _ => []
  | .write aw => [aw]

def forwardAr : Req N → List (Ar N)
  | .read ar => [ar]
  | .write _ => []

end Req

/-- The W beats for a line (or the part of it that has arrived). -/
def lineW (cds : List Cd) : List W := cds.map fun c => ⟨c.data, 255, c.last, 0⟩

/-- The write-back that a request needs: one burst with the line of a core that has returned data, or none. -/
structure Trace.WriteBack {N : ℕ} (t : Trace N) (r : Req N) (aws : List (Aw N)) (ws : List W) (bs : List (B N)) :
    Prop where
  burst : r.invalidates = true → (∃ n, t.Returned n) → ∃ n a b resp, t.Returned n ∧
    t.cd n = [⟨a, false⟩, ⟨b, true⟩] ∧ aws = [r.writeBack n] ∧
    ws = [⟨a, 255, false, 0⟩, ⟨b, 255, true, 0⟩] ∧ bs = [resp]
  none : ¬ (r.invalidates = true ∧ ∃ n, t.Returned n) → aws = [] ∧ ws = [] ∧ bs = []

/-- Memory answers a burst once its last beat has been taken. -/
def answersBursts {N : ℕ} (x : Fsm N × Trace N) (i : CcuIn N) : Prop :=
  i.mem.bValid = true → x.2.memB.length < ((x.2.step x.1 i).memW.filter (·.last)).length

namespace Fsm
variable {N : ℕ} (q : Fsm N)

def askingWriteBack : Bool := q.state == .sendAxiReqWriteBackR || q.state == .sendAxiReqWriteBackW

/-- Snoops and write-back are over. -/
def passing : Bool := q.snooped && !q.askingWriteBack && !q.writingBack

end Fsm

/-- The request has been forwarded as far as its state says, after the write-back. -/
structure Forwarded {N : ℕ} (q : Fsm N) (t : Trace N) (r : Req N) (aws : List (Aw N)) (ws : List W)
    (bs : List (B N)) : Prop where
  aw : t.memAw = aws ++ if q.state = .sendAxiReqW then [] else r.forwardAw
  w : t.memW = ws ++ t.w
  b : t.memB = bs ++ t.b
  before : q.state = .sendAxiReqW → t.w = [] ∧ t.b = []
  arBefore : q.state ≠ .readMem → q.state ≠ .idle → t.memAr = []
  arAfter : q.state = .readMem → t.memAr = r.forwardAr
  arIdle : q.state = .idle → r.invalidates = true → t.memAr = if r.exclusive then r.forwardAr else []

/-- How far the beats of a write-back have come. -/
structure Writing {N : ℕ} (q : Fsm N) (t : Trace N) (r : Req N) : Prop where
  found : q.dataFound = true
  eot : q.state = .writeBackMemW → q.rEot = false
  buffered : Buffered q t t.memW.length
  wLast : q.wLast = decide (t.memW.length = 1)
  sent : t.memW <+: lineW (t.cd q.firstResponder)
  aw : t.memAw = [r.writeBack q.firstResponder]
  memB : t.memB = []
  memAr : t.memAr = []
  w : t.w = []
  b : t.b = []

structure WriteInv {N : ℕ} (q : Fsm N) (t : Trace N) (r : Req N) : Prop where
  asking : q.askingWriteBack = true → q.dataFound = true ∧ Silent q t ∧
    (q.state = .sendAxiReqWriteBackW → q.rEot = false)
  writing : q.writingBack = true → Writing q t r
  passing : q.passing = true → ∃ aws ws bs, t.WriteBack r aws ws bs ∧ Forwarded q t r aws ws bs

variable {N : ℕ} {q : Fsm N} {t : Trace N} {r : Req N} {i : CcuIn N}

/-- The registers and the trace agree on which cores have returned data. -/
theorem SnoopInv.dataFound_iff (h : SnoopInv q t r) (hne : q.state ≠ .idle) :
    q.dataFound = true ↔ ∃ n, t.Returned n := by
  simp only [Fsm.dataFound, anyPort_iff, Bool.and_eq_true, Bool.not_eq_true', h.returned_iff hne]

theorem Fsm.asking_facts (i : CcuIn N) (h : q.askingWriteBack = true) :
    q.state ≠ .idle ∧ q.snooped = true ∧ q.memAwValid = true ∧ q.memArValid = false ∧ q.memWDone i = false ∧
      (∀ n, q.cdDone i n = false) ∧ q.wReady i = false ∧ q.bValid i = false ∧ q.memBReady i = false ∧
        q.rDone i = false := by
  simp only [askingWriteBack, Bool.or_eq_true, beq_iff_eq] at h
  rcases h with h | h <;>
    simp [h, snooped, decoding, sending, waiting, memAwValid, memArValid, memWDone, memWValid, cdDone, cdReady,
      writingBack, wReady, bValid, memBReady, rDone, rValid]

theorem SnoopInv.memAw_eq (h : SnoopInv q t r) (ha : q.askingWriteBack = true) :
    q.memAw = r.writeBack q.firstResponder := by
  have hne : q.state ≠ .idle := fun hi => by simp [Fsm.askingWriteBack, hi] at ha
  have hv := h.visits hne
  have hh := h.held hne
  simp only [Fsm.askingWriteBack, Bool.or_eq_true, beq_iff_eq] at ha
  rcases ha with ha | ha <;> cases r <;>
    simp_all [Fsm.memAw, Fsm.writeBackAw, Req.writeBack, Req.id, Req.addr, Req.visits, Req.Held]

theorem Fsm.writing_cases (hs : q.writingBack = true) : q.state = .writeBackMemR ∨ q.state = .writeBackMemW := by
  simpa [writingBack] using hs

theorem lineW_push (cds : List Cd) (c : Cd) (d : Bool) : lineW cds <+: lineW (Trace.push d c cds) := by
  cases d with
  | false => exact List.prefix_rfl
  | true => simp [lineW, Trace.push]

theorem Trace.WriteBack.mono {t' : Trace N} {aws : List (Aw N)} {ws : List W} {bs : List (B N)}
    (h : t.WriteBack r aws ws bs) (hcr : t'.cr = t.cr) (hcd : r.invalidates = true → t'.cd = t.cd) :
    t'.WriteBack r aws ws bs := by
  have hret : ∀ n, t'.Returned n ↔ t.Returned n := fun n => by rw [Returned, Returned, hcr]
  refine ⟨fun hi hr => ?_, fun hn => h.none ?_⟩
  · simp only [hret] at hr ⊢
    rw [hcd hi]
    exact h.burst hi hr
  · simpa only [hret] using hn

theorem Fsm.crDone_of_allPorts (h : allPorts q.crValid = true) (n : Fin N) : q.crDone i n = false := by
  simp [crDone, crReady, allPorts_iff.mp h n]

theorem Fsm.passing_cases (hp : q.passing = true) : q.state = .idle ∨ q.state = .readSnpData ∨
    q.state = .sendAxiReqR ∨ q.state = .readMem ∨ q.state = .sendAxiReqW ∨ q.state = .writeMem := by
  cases hq : q.state <;> simp_all [passing, snooped, decoding, sending, waiting, askingWriteBack, writingBack]

namespace Writing

theorem facts (h : Writing q t r) (hs : q.writingBack = true) :
    q.state ≠ .idle ∧ q.snooped = true ∧ q.memWValid i = !(q.storedCdData == 0) ∧
      q.memW i = ⟨q.cdData q.wLast, 255, q.wLast, 0⟩ ∧ q.memBReady i = true ∧ q.memAwValid = false ∧
      q.memArValid = false ∧ q.wReady i = false ∧ q.bValid i = false ∧ q.drained i = q.memWDone i := by
  rcases Fsm.writing_cases hs with hq | hq <;>
    simp [hq, Fsm.snooped, Fsm.decoding, Fsm.sending, Fsm.waiting, Fsm.memWValid, Fsm.memW, Fsm.memBReady,
      Fsm.memAwValid, Fsm.memArValid, Fsm.wReady, Fsm.bValid, Fsm.drained]
  simp [h.eot hq]

/-- The beat offered on W is the next one of the line. -/
theorem offer (h : Writing q t r) (hs : q.writingBack = true) (hd : q.memWDone i = true) :
    t.memW.length < (t.cd q.firstResponder).length ∧
      (lineW (t.cd q.firstResponder))[t.memW.length]? = some (q.memW i) := by
  obtain ⟨-, -, hv, hw, -⟩ := h.facts (i := i) hs
  have hle := h.buffered.le
  have hk : t.memW.length < (t.cd q.firstResponder).length := by
    simp only [Fsm.memWDone, hv, Bool.and_eq_true, Bool.not_eq_true', beq_eq_false_iff_ne, ne_eq,
      h.buffered.stored_eq_zero] at hd
    omega
  refine ⟨hk, ?_⟩
  have h0 := h.buffered.word0
  have h1 := h.buffered.word1
  have hl := h.wLast
  rw [hw, lineW]
  rcases h.buffered.beats q.firstResponder with hb | ⟨a, hb⟩ | ⟨a, b, hb⟩ <;> rw [hb] at hk h0 h1 <;>
    generalize t.memW.length = m at * <;>
    simp only [List.length_cons, List.length_nil] at hk <;> interval_cases m <;> simp_all

/-- What the write-back states do to the trace. -/
theorem trace (h : Writing q t r) (hs : q.writingBack = true) :
    (t.step q i).memAw = [r.writeBack q.firstResponder] ∧ (t.step q i).memAr = [] ∧ (t.step q i).w = [] ∧
      (t.step q i).b = [] ∧ (t.step q i).memW = Trace.push (q.memWDone i) (q.memW i) t.memW ∧
      (t.step q i).memB = Trace.push i.mem.bValid i.mem.b [] := by
  obtain ⟨hne, -, -, -, h5, h6, h7, h8, h9, -⟩ := h.facts (i := i) hs
  have hc := Fsm.continues_of_ne (i := i) hne
  simp [Trace.step, hc.1, hc.2, h5, h6, h7, h8, h9, h.memB, h.memAr, h.w, h.b, Trace.push, h.aw]

end Writing

/-- After the write-back nothing more is taken from the caches for it. -/
theorem Fsm.passing_still (hsn : SnoopInv q t r) (hc : q.continues i) (hp : q.passing = true) :
    (t.step q i).cr = t.cr ∧ (r.invalidates = true → (t.step q i).cd = t.cd) := by
  have hw : q.waiting = false ∧ q.writingBack = false := by
    rcases Fsm.passing_cases hp with hq | hq | hq | hq | hq | hq <;> simp [Fsm.waiting, Fsm.writingBack, hq]
  refine ⟨?_, fun hinv => ?_⟩
  · simp [Trace.step, hc.1, hc.2, Trace.push, Fsm.crDone, Fsm.crReady, hw.1]
  · have hq : q.state ≠ .readSnpData := fun hq => by
      have hv := hsn.visits (by simp [hq])
      cases r <;> simp_all [Req.visits, Req.invalidates]
    simp [Trace.step, hc.1, hc.2, Trace.push, Fsm.cdDone, Fsm.cdReady, hw.2, hq]

theorem WriteInv.start (hd : q.decoding = true) : WriteInv q t r := by
  have hp : q.askingWriteBack = false ∧ q.writingBack = false ∧ q.passing = false := by
    simp only [Fsm.decoding, Bool.or_eq_true, beq_iff_eq] at hd
    rcases hd with hd | hd <;>
      simp [Fsm.askingWriteBack, Fsm.writingBack, Fsm.passing, Fsm.snooped, Fsm.decoding, hd]
  constructor <;> simp [hp]

variable [NeZero N]

/-- How the states of a request that removes the line follow each other. -/
theorem Fsm.enters (hc : q.continues i) :
    ((q.step i).askingWriteBack = true → (q.waiting = true ∧ allPorts q.crValid = true ∧ q.dataFound = true) ∨
      q.askingWriteBack = true) ∧
    ((q.step i).writingBack = true → (q.askingWriteBack = true ∧ i.mem.awReady = true) ∨
      (q.writingBack = true ∧ (q.memBReady i && i.mem.bValid) = false)) ∧
    ((q.step i).passing = true → (q.waiting = true ∧ allPorts q.crValid = true ∧
      (q.dataFound = true → q.state = .waitRespR)) ∨ (q.writingBack = true ∧
      (q.memBReady i && i.mem.bValid) = true) ∨ q.passing = true) := by
  cases hq : q.state <;>
    simp only [step, stateD, decoding, sending, waiting, snooped, askingWriteBack, writingBack, passing, memBReady,
      hq] <;>
    grind -ring -linarith [continues]

/-- While the AW of the write-back is offered nothing else moves. -/
theorem Silent.asking (h : Silent q t) (ha : q.askingWriteBack = true) :
    (∀ n, (t.step q i).cd n = []) ∧ (∀ n, (q.step i).cdLast n = false) ∧ (q.step i).storedCdData = 0 ∧
      (q.step i).wLast = false ∧ (t.step q i).w = [] ∧ (t.step q i).b = [] ∧ (t.step q i).memAr = [] ∧
      (t.step q i).memAw = Trace.push i.mem.awReady q.memAw [] ∧ (t.step q i).memW = [] ∧ (t.step q i).memB = [] := by
  obtain ⟨hne, -, h1, h2, h3, h4, h5, h6, h7, -⟩ := Fsm.asking_facts i ha
  have hc := Fsm.continues_of_ne (i := i) hne
  have hs : q.state ≠ .readSnpData ∧ q.writingBack = false := by
    simp only [Fsm.askingWriteBack, Bool.or_eq_true, beq_iff_eq] at ha
    rcases ha with ha | ha <;> simp [ha, Fsm.writingBack]
  simp [Trace.step, hc.1, hc.2, Trace.push, h1, h2, h3, h4, h5, h6, h7, h.cd, h.w, h.b, h.memAr, h.memAw, h.memW,
    h.memB, Fsm.step, Fsm.cdLastD, Fsm.storedCdDataD, hne, hs, h.cdLast, h.storedCdData, h.wLast]

theorem asking_step (h : WriteInv q t r) (hsn : SnoopInv q t r) (hb : q.snooped = false → Unanswered q t)
    (hc : q.continues i) (ha : (q.step i).askingWriteBack = true) :
    (q.step i).dataFound = true ∧ Silent (q.step i) (t.step q i) ∧
      ((q.step i).state = .sendAxiReqWriteBackW → (q.step i).rEot = false) := by
  have hne : q.state ≠ .idle := Fsm.ne_idle hc fun hi => by simp [Fsm.askingWriteBack, hi] at ha
  rcases (Fsm.enters hc).1 ha with ⟨hw, -, hf⟩ | hq
  · have hs : q.snooped = false := by simp [Fsm.snooped, hw]
    refine ⟨by rw [hsn.step_dataFound hne, hf, Bool.true_or], (hb hs).toSilent.next hs, fun hst => ?_⟩
    have hr : q.rDone i = false := by
      cases hq : q.state <;> simp only [Fsm.waiting, hq, Fsm.step, Fsm.stateD, Fsm.rDone, Fsm.rValid] at * <;>
        grind -ring -linarith
    simp [Fsm.step, hne, hr, (hb hs).rEot]
  · obtain ⟨hf, hs, he⟩ := h.asking hq
    have haw : i.mem.awReady = false ∧ (q.step i).state = q.state := by
      simp only [Fsm.askingWriteBack, Bool.or_eq_true, beq_iff_eq, Fsm.step] at hq ha ⊢
      rcases hq with hq | hq <;> simp only [Fsm.stateD, hq] at ha ⊢ <;> grind -ring -linarith
    obtain ⟨h1, h2, h3, h4, h5, h6, h7, h8, h9, h10⟩ := hs.asking (i := i) hq
    refine ⟨by rw [hsn.step_dataFound hne, hf, Bool.true_or],
      ⟨h1, h2, h3, h4, h5, h6, h7, by simpa [haw.1, Trace.push] using h8, h9, h10⟩, fun hst => ?_⟩
    simp [Fsm.step, hne, (Fsm.asking_facts i hq).2.2.2.2.2.2.2.2.2, he (haw.2 ▸ hst)]

namespace Writing

/-- The AW of the write-back is taken. -/
theorem start (h : WriteInv q t r) (hsn : SnoopInv q t r) (ha : q.askingWriteBack = true)
    (hrdy : i.mem.awReady = true) :
    Writing (q.step i) (t.step q i) r := by
  obtain ⟨hf, hs, he⟩ := h.asking ha
  obtain ⟨hne, hsnd, -, -, -, -, -, -, -, hr⟩ := Fsm.asking_facts i ha
  obtain ⟨hfr, -, -⟩ := Fsm.step_of_snooped (i := i) hne hsnd
  obtain ⟨h1, h2, h3, h4, h5, h6, h7, h8, h9, h10⟩ := hs.asking (i := i) ha
  refine ⟨by rw [hsn.step_dataFound hne, hf, Bool.true_or], fun hst => ?_, ?_, ?_, ?_, ?_, h10, h7, h5, h6⟩
  · have hq : q.state = .sendAxiReqWriteBackW := by
      simp only [Fsm.askingWriteBack, Bool.or_eq_true, beq_iff_eq] at ha
      rcases ha with ha | ha
      · simp [Fsm.step, Fsm.stateD, ha, hrdy] at hst
      · exact ha
    simp [Fsm.step, hne, hr, he hq]
  · rw [h9]
    exact .empty h1 h2 h3
  · rw [h9, h4]
    rfl
  · rw [h9]
    exact List.nil_prefix
  · rw [h8, hrdy, hfr, hsn.memAw_eq ha]
    rfl

/-- The next state of the buffer, whether the write-back goes on or not. -/
theorem buffered_next (h : Writing q t r) (hs : q.writingBack = true) (hc : conforming t i) :
    Buffered (q.step i) (t.step q i) (t.step q i).memW.length ∧
      (t.step q i).memW <+: lineW ((t.step q i).cd (q.step i).firstResponder) ∧
      (q.step i).wLast = decide ((t.step q i).memW.length = 1) := by
  obtain ⟨hne, hsn, -, -, -, -, -, -, -, hdr⟩ := h.facts (i := i) hs
  obtain ⟨hfr, hav, -⟩ := Fsm.step_of_snooped (i := i) hne hsn
  have hcont := Fsm.continues_of_ne (i := i) hne
  have hw := (h.trace (i := i) hs).2.2.2.2.1
  have hlen : (t.step q i).memW.length = t.memW.length + if q.memWDone i then 1 else 0 := by
    rw [hw, Trace.length_push]
  refine ⟨?_, ?_, ?_⟩
  · rw [hlen, ← hdr]
    exact h.buffered.next (.inr hs) hc (fun hd => (h.offer hs (hdr ▸ hd)).1) hfr hav
  · have hcd : (t.step q i).cd q.firstResponder =
        Trace.push (q.cdDone i q.firstResponder) (i.snoop q.firstResponder).cd (t.cd q.firstResponder) := by
      simp [Trace.step, hcont.1, hcont.2]
    rw [hw, hfr, hcd]
    refine List.IsPrefix.trans ?_ (lineW_push _ _ _)
    cases hd : q.memWDone i with
    | false => exact h.sent
    | true => exact extend_of_next h.sent (h.offer hs hd).2
  · rw [hlen]
    have h1 := h.wLast
    have h2 : (q.step i).wLast = if q.memWDone i then !q.wLast else q.wLast := by simp [Fsm.step, hne]
    have h3 := fun hd => (h.offer (i := i) hs hd).1
    have h4 := (h.buffered.beats q.firstResponder).length_le
    grind -ring -linarith

/-- The write-back goes on. -/
theorem next (h : Writing q t r) (hsn : SnoopInv q t r) (hs : q.writingBack = true) (hc : conforming t i)
    (hb : (q.memBReady i && i.mem.bValid) = false) : Writing (q.step i) (t.step q i) r := by
  obtain ⟨hne, hsnd, -, -, hbr, -⟩ := h.facts (i := i) hs
  obtain ⟨hfr, -, -⟩ := Fsm.step_of_snooped (i := i) hne hsnd
  obtain ⟨h1, h2, h3, h4, -, h6⟩ := h.trace (i := i) hs
  obtain ⟨g1, g2, g3⟩ := h.buffered_next hs hc
  have hb : i.mem.bValid = false := by simpa [hbr] using hb
  refine ⟨by rw [hsn.step_dataFound hne, h.found, Bool.true_or], fun hst => ?_, g1, g3, g2, hfr ▸ h1,
    by simpa [hb, Trace.push] using h6, h2, h3, h4⟩
  rcases Fsm.writing_cases hs with hq | hq
  · simp [Fsm.step, Fsm.stateD, hq, hb] at hst
  · simp [Fsm.step, hq, h.eot hq, Fsm.rDone, Fsm.rValid]

/-- The write-back is left with all of the line written and acknowledged. -/
theorem leaves (h : Writing q t r) (hs : q.writingBack = true) (hc : conforming t i) (hb : i.mem.bValid = true)
    (hok : answersBursts (q, t) i) :
    ∃ a b, (t.step q i).cd q.firstResponder = [⟨a, false⟩, ⟨b, true⟩] ∧
      (t.step q i).memW = [⟨a, 255, false, 0⟩, ⟨b, 255, true, 0⟩] := by
  obtain ⟨hne, hsnd, -⟩ := h.facts (i := i) hs
  have hfr := (Fsm.step_of_snooped (i := i) hne hsnd).1
  obtain ⟨hbuf, hsent, -⟩ := h.buffered_next hs hc
  rw [hfr] at hsent
  have hpos : 0 < ((t.step q i).memW.filter (·.last)).length := by
    have := hok hb
    simp only [h.memB] at this
    exact this
  obtain ⟨w, hw⟩ := List.exists_mem_of_length_pos hpos
  obtain ⟨hw, hlast⟩ := List.mem_filter.mp hw
  rcases hbuf.beats q.firstResponder with hcd | ⟨a, hcd⟩ | ⟨a, b, hcd⟩
  · rw [hcd] at hsent
    have := List.eq_nil_of_prefix_nil hsent
    simp [this] at hw
  · rw [hcd] at hsent
    have := hsent.subset hw
    simp only [lineW, List.map_cons, List.map_nil, List.mem_singleton] at this
    simp [this] at hlast
  · refine ⟨a, b, hcd, ?_⟩
    rw [hcd] at hsent
    -- a proper beginning of the line has no last beat
    have hl : lineW [⟨a, false⟩, ⟨b, true⟩] = [⟨a, 255, false, 0⟩, ⟨b, 255, true, 0⟩] := rfl
    rw [hl] at hsent
    obtain ⟨m, hm⟩ := hsent
    match hmem : (t.step q i).memW with
    | [] => simp [hmem] at hw
    | [x] => simp_all
    | [x, y] => simp_all
    | x :: y :: z :: l => simp [hmem] at hm

end Writing

/-- Without data for a write-back the request is forwarded at once. -/
theorem passing_of_waiting (hsn : SnoopInv q t r) (hb : Unanswered q t) (hc : q.continues i) (hw : q.waiting = true)
    (hall : allPorts q.crValid = true) (hf : q.dataFound = true → q.state = .waitRespR) :
    (t.step q i).WriteBack r [] [] [] ∧ Forwarded (q.step i) (t.step q i) r [] [] [] := by
  have hne : q.state ≠ .idle := fun hi => by simp [Fsm.waiting, hi] at hw
  have hv := hsn.visits hne
  have hh := hsn.held hne
  have hs := hb.toSilent.next (i := i) (by simp [Fsm.snooped, hw])
  have hcr : (t.step q i).cr = t.cr := by
    simp [Trace.step, hc.1, hc.2, Trace.push, Fsm.crDone_of_allPorts hall]
  have hnone : ¬ (r.invalidates = true ∧ ∃ n, (t.step q i).Returned n) := by
    rintro ⟨hi, hr⟩
    have hr' : ∃ n, t.Returned n := by simpa only [Trace.Returned, hcr] using hr
    have hq := hf ((hsn.dataFound_iff hne).mpr hr')
    cases r <;> simp_all [Req.visits, Req.invalidates]
  refine ⟨⟨fun hi hr => absurd ⟨hi, hr⟩ hnone, fun _ => ⟨rfl, rfl, rfl⟩⟩, ?_⟩
  have hst : ((q.step i).state = .sendAxiReqW ∨ r.forwardAw = []) ∧ (q.step i).state ≠ .readMem ∧
      ((q.step i).state = .idle → r.exclusive = false) := by
    cases r <;> cases hq : q.state <;>
      simp only [Fsm.waiting, hq, Req.visits, Req.Held, Fsm.step, Fsm.stateD, Req.forwardAw, Req.exclusive]
        at * <;> grind -ring -linarith
  constructor
  · rw [hs.memAw]
    rcases hst.1 with h | h <;> simp [h]
  · rw [hs.memW, hs.w, List.nil_append]
  · rw [hs.memB, hs.b, List.nil_append]
  · exact fun _ => ⟨hs.w, hs.b⟩
  · exact fun _ _ => hs.memAr
  · exact fun h => absurd h hst.2.1
  · intro h _
    rw [hs.memAr, hst.2.2 h]
    rfl

/-- The request is forwarded once its write-back has been acknowledged. -/
theorem passing_of_writing (hsn : SnoopInv q t r) (h : Writing q t r) (hs : q.writingBack = true)
    (hcf : conforming t i) (hok : answersBursts (q, t) i) (hbv : i.mem.bValid = true) :
    ∃ aws ws bs, (t.step q i).WriteBack r aws ws bs ∧ Forwarded (q.step i) (t.step q i) r aws ws bs := by
  obtain ⟨hne, hsnd, -, -, hbr, -⟩ := h.facts (i := i) hs
  have hv := hsn.visits hne
  have hh := hsn.held hne
  obtain ⟨hfr, -, hcr⟩ := Fsm.step_of_snooped (i := i) hne hsnd
  obtain ⟨h1, h2, h3, h4, h5, h6⟩ := h.trace (i := i) hs
  obtain ⟨a, b, hcd, hw⟩ := h.leaves hs hcf hbv hok
  have hret : (t.step q i).Returned q.firstResponder := by
    have := (hsn.returned_iff hne _).mp (hsn.responder hne (by rw [hsn.found hne, h.found]))
    simpa only [Trace.Returned, hcr] using this
  have hinv : r.invalidates = true := by
    rcases Fsm.writing_cases hs with hq | hq <;> cases r <;> simp_all [Req.visits, Req.invalidates]
  have hst : ((q.step i).state = .sendAxiReqW ∨ r.forwardAw = []) ∧ (q.step i).state ≠ .readMem ∧
      ((q.step i).state = .idle → r.exclusive = false) := by
    rcases Fsm.writing_cases hs with hq | hq <;> cases r <;>
      simp only [hq, Req.visits, Req.Held, Fsm.step, Fsm.stateD, Req.forwardAw, Req.exclusive] at * <;>
        grind -ring -linarith
  refine ⟨[r.writeBack q.firstResponder], _, [i.mem.b], ⟨fun _ _ => ⟨_, a, b, i.mem.b, hret, hcd, rfl, rfl, rfl⟩,
    fun hn => absurd ⟨hinv, _, hret⟩ hn⟩, ?_⟩
  constructor
  · rw [h1]
    rcases hst.1 with h | h <;> simp [h]
  · rw [hw, h3, List.append_nil]
  · rw [h6, h4, hbv]
    rfl
  · exact fun _ => ⟨h3, h4⟩
  · exact fun _ _ => h2
  · exact fun h => absurd h hst.2.1
  · intro h _
    rw [h2, hst.2.2 h]
    rfl

/-- The request's own transfers are passed through one to one. -/
theorem Forwarded.next {aws : List (Aw N)} {ws : List W} {bs : List (B N)} (h : Forwarded q t r aws ws bs)
    (hsn : SnoopInv q t r) (hc : q.continues i) (hp : q.passing = true) :
    Forwarded (q.step i) (t.step q i) r aws ws bs := by
  have hv := hsn.visits
  have hh := hsn.held
  obtain ⟨h1, h2, h3, h4, h5, h6, h7⟩ := h
  rcases Fsm.passing_cases hp with hq | hq | hq | hq | hq | hq <;> constructor <;> cases r <;>
    simp only [hq, Req.visits, Req.Held, Req.forwardAw, Req.forwardAr, Req.exclusive, Req.invalidates, Fsm.step,
      Fsm.stateD, Trace.step, hc.1, hc.2, Trace.push, Fsm.wReady, Fsm.bValid, Fsm.memArValid, Fsm.memAr,
      Fsm.memAwValid, Fsm.memAw,
      Fsm.memWDone, Fsm.memWValid, Fsm.memW, Fsm.memBReady] at * <;> grind -ring -linarith

theorem WriteInv.next (h : WriteInv q t r) (hsn : SnoopInv q t r) (hb : q.snooped = false → Unanswered q t)
    (hc : q.continues i) (hcf : conforming t i) (hok : answersBursts (q, t) i) :
    WriteInv (q.step i) (t.step q i) r := by
  refine ⟨asking_step h hsn hb hc, fun hs => ?_, fun hp => ?_⟩
  · rcases (Fsm.enters hc).2.1 hs with ⟨ha, hrdy⟩ | ⟨hw, hbv⟩
    · exact .start h hsn ha hrdy
    · exact (h.writing hw).next hsn hw hcf hbv
  · rcases (Fsm.enters hc).2.2 hp with ⟨hw, hall, hf⟩ | ⟨hw, hbv⟩ | hq
    · exact ⟨_, _, _, passing_of_waiting hsn (hb (by simp [Fsm.snooped, hw])) hc hw hall hf⟩
    · simp only [Bool.and_eq_true] at hbv
      exact passing_of_writing hsn (h.writing hw) hw hcf hok hbv.2
    · obtain ⟨aws, ws, bs, hwb, hfw⟩ := h.passing hq
      obtain ⟨hcr, hcd⟩ := Fsm.passing_still hsn hc hq
      exact ⟨aws, ws, bs, hwb.mono hcr hcd, hfw.next hsn hc hq⟩

/-- Cores send their lines in two beats, memory acknowledges complete bursts. -/
def orderly (x : Fsm N × Trace N) (i : CcuIn N) : Prop := conforming x.2 i ∧ answersBursts x i

theorem writeInv_reachable {x : Fsm N × Trace N} (h : (ccu N).Reachable orderly x) :
    ∀ r, x.2.req = some r → WriteInv x.1 x.2 r := by
  refine Machine.Reachable.invariant_of (P := fun x => (∀ r, x.2.req = some r → SnoopInv x.1 x.2 r) ∧
      (x.1.snooped = false → Unanswered x.1 x.2)) (Q := fun x => ∀ r, x.2.req = some r → WriteInv x.1 x.2 r)
    (fun x hr => ⟨(snoopInv_reachable hr).1, unanswered_reachable hr⟩)
    (fun x h0 r hr => by simp [h0.2, Trace.start] at hr) (fun x i hs hw hok => ?_) h
  obtain ⟨q, t⟩ := x
  intro r hr
  change (t.step q i).req = some r at hr
  change WriteInv (q.step i) (t.step q i) r
  rcases q.takes_cases i with ht | ⟨hn, ht⟩ | ht
  · exact .start (by simp [Fsm.decoding, Fsm.step, Fsm.stateD, Fsm.idle_of_takesAr ht, ht])
  · exact .start (by simp [Fsm.decoding, Fsm.step, Fsm.stateD, Fsm.idle_of_takesAw ht, hn, ht])
  · have hreq : t.req = some r := by simpa [Trace.step, ht.1, ht.2] using hr
    exact (hw r hreq).next (hs.1 r hreq) hs.2 ht hok.1 hok.2

/-- A request that finds dirty data has it written back as one acknowledged burst before anything of its own is
forwarded; every other request is forwarded without a write-back. -/
theorem write_back {x : Fsm N × Trace N} (h : (ccu N).Reachable orderly x) (i : CcuIn N) {r : Req N}
    (hr : x.2.req = some r) :
    (x.1.snooped = false ∨ x.1.askingWriteBack = true → x.2.memAw = [] ∧ x.2.memW = [] ∧ x.2.memB = [] ∧
      x.2.memAr = [] ∧ x.2.w = [] ∧ x.2.b = []) ∧
    (x.1.writingBack = true → x.2.Returned x.1.firstResponder ∧ x.2.memAw = [r.writeBack x.1.firstResponder] ∧
      x.2.memW <+: lineW (x.2.cd x.1.firstResponder) ∧ x.2.memB = [] ∧ x.2.memAr = [] ∧ x.2.w = [] ∧ x.2.b = [] ∧
      x.1.bValid i = false ∧ ((x.1.step i).writingBack = false → x.1.memBReady i = true ∧ i.mem.bValid = true)) ∧
    (x.1.passing = true → ∃ aws ws bs, x.2.WriteBack r aws ws bs ∧ Forwarded x.1 x.2 r aws ws bs) := by
  obtain ⟨q, t⟩ := x
  have hsn : SnoopInv q t r := (snoopInv_reachable h).1 r hr
  have hw : WriteInv q t r := writeInv_reachable h r hr
  refine ⟨?_, fun hs => ?_, hw.passing⟩
  · rintro (hs | hs)
    · have hb : Unanswered q t := unanswered_reachable h hs
      exact ⟨hb.memAw, hb.memW, hb.memB, hb.memAr, hb.w, hb.b⟩
    · have hb := (hw.asking hs).2.1
      exact ⟨hb.memAw, hb.memW, hb.memB, hb.memAr, hb.w, hb.b⟩
  · have hwr := hw.writing hs
    obtain ⟨hne, -, -, -, -, -, -, -, hbv, -⟩ := hwr.facts (i := i) hs
    have hret := (hsn.returned_iff hne _).mp (hsn.responder hne (by rw [hsn.found hne, hwr.found]))
    refine ⟨hret, hwr.aw, hwr.sent, hwr.memB, hwr.memAr, hwr.w, hwr.b, hbv, fun hl => ?_⟩
    by_contra hn
    have hst : q.stateD i = q.state := by
      rcases Fsm.writing_cases hs with hq | hq <;> grind -ring -linarith [Fsm.stateD]
    simp [Fsm.writingBack, Fsm.step, hst] at hl
    simp [Fsm.writingBack, hl] at hs

section Runs
open Stimuli

namespace Stimuli

def memAwReady : CcuIn 3 := { quiet with mem := { quiet.mem with awReady := true } }

/-- Core 2 offers a beat of its line and memory takes a beat. -/
def passes (c : Cd) : CcuIn 3 :=
  { quiet with
    mem := { quiet.mem with wReady := true }
    snoop := fun n => if n = 2 then { quiet.snoop n with cdValid := true, cd := c } else quiet.snoop n }

def memWReady : CcuIn 3 := { quiet with mem := { quiet.mem with wReady := true } }
def memBValid : CcuIn 3 :=
  { quiet with mem := { quiet.mem with bValid := true }, req := { quiet.req with bReady := true } }
def sendsW (w : W) : CcuIn 3 :=
  { memWReady with req := { quiet.req with w := w, wValid := true } }

end Stimuli

/-- Core 1 writes to a line that is dirty in core 2. -/
def dirtyWrite : List (CcuIn 3) :=
  snoops (writes (aw 1 0x1008)) (onlyCore2 ⟨false, true, false, true⟩) ++
    [quiet, memAwReady, passes ⟨7, false⟩, passes ⟨9, true⟩, memWReady, memBValid, memAwReady,
      sendsW ⟨5, 1, true, 0⟩, memBValid]

instance (x : Fsm 3 × Trace 3) (i : CcuIn 3) : Decidable (orderly x i) :=
  inferInstanceAs (Decidable (conforming x.2 i ∧
    (i.mem.bValid = true → x.2.memB.length < ((x.2.step x.1 i).memW.filter (·.last)).length)))

theorem write_back_run :
    let x := (ccu 3).run (initial, .start none) dirtyWrite
    x.1.state = .idle ∧ x.2.w.length = 1 ∧ x.2.memAw.length = 2 ∧
      ∃ aws ws bs, x.2.WriteBack (.write (aw 1 0x1008)) aws ws bs ∧
        Forwarded x.1 x.2 (.write (aw 1 0x1008)) aws ws bs := by
  have hr : (ccu 3).Reachable orderly ((ccu 3).run (initial, .start none) dirtyWrite) :=
    .run (.init initial_init) (by decide +kernel)
  have hx := (write_back hr quiet (r := .write (aw 1 0x1008)) rfl).2.2 (by decide +kernel)
  exact ⟨by decide +kernel, by decide +kernel, by decide +kernel, hx⟩

end Runs
end Culsans.Ccu
