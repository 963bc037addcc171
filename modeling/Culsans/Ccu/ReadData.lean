import Culsans.Ccu.Buffer

/-! # Reads answered by a snooped cache

The words of the first responder are passed on as R beats while the other responders'
lines are drained. A read of a single word offers it when the number of buffered words
is exactly right; when the second word comes in while word 0 waits for
`r_ready`, `r_valid` falls and the read is never answered.
-/

namespace Culsans.Ccu
open Dcache Library

/-- The word asked for by a read of a single word. -/
def Ar.offset {N : ℕ} (ar : Ar N) : ℕ := if ar.addr.getLsbD 3 then 1 else 0

/-- The number of R beats of a read. -/
def Ar.beats {N : ℕ} (ar : Ar N) : ℕ := if ar.len = 0 then 1 else 2

/-- The R beats for a line (or the part of it that has arrived). -/
def Trace.answer {N : ℕ} (t : Trace N) (ar : Ar N) (cds : List Cd) : List (R N) :=
  let beat (d : Data) (last : Bool) : R N :=
    ⟨ar.id, d, anyPort fun n => (t.cr n).any (·.isShared), anyPort fun n => (t.cr n).any (·.passDirty), 0, last, 0⟩
  if ar.len = 0 then (cds[ar.offset]?).toList.map fun c => beat c.data true
  else cds.map fun c => beat c.data c.last

variable {N : ℕ} {q : Fsm N} {t : Trace N} {i : CcuIn N}

/-- How far the R beats of a read have come. -/
structure ReadInv (q : Fsm N) (t : Trace N) (ar : Ar N) : Prop where
  buffered : Buffered q t t.r.length
  rLast : q.rLast = decide (t.r.length = 1)
  rEot : q.rEot = decide (t.r.length = ar.beats)
  le : t.r.length ≤ ar.beats
  sent : t.r <+: t.answer ar (t.cd q.firstResponder)
  first : ar.len = 0 → ar.offset = 0 → t.r = [] → (t.cd q.firstResponder).length ≤ 1
  second : ar.len = 0 → ar.offset = 1 → t.r ≠ [] → (t.cd q.firstResponder).length = 2

theorem ReadInv.of_unanswered (h : Unanswered q t) (ar : Ar N) : ReadInv q t ar := by
  constructor
  · rw [h.r]
    exact .empty h.cd h.cdLast h.storedCdData
  all_goals simp [h.r, h.rLast, h.rEot, h.cd, Ar.beats]
  split_ifs <;> simp

/-- The second word comes in while word 0, which alone is asked for, waits for `r_ready`. -/
def Fsm.overtaken (q : Fsm N) (i : CcuIn N) : Bool :=
  q.state == .readSnpData && q.ar.len == 0 && !q.arAddrOffset && q.rValid i && !i.req.rReady &&
    q.cdDone i q.firstResponder

theorem Trace.answer_push (t : Trace N) (ar : Ar N) (cds : List Cd) (c : Cd) (d : Bool) :
    t.answer ar cds <+: t.answer ar (push d c cds) := by
  cases d with
  | false => exact List.prefix_rfl
  | true =>
    simp only [answer, push, if_true]
    split_ifs with hl
    · cases hc : cds[ar.offset]? with
      | none => simp
      | some b =>
        rw [List.getElem?_append_left (List.getElem?_eq_some_iff.mp hc).1, hc]
    · rw [List.map_append]
      exact List.prefix_append _ _

namespace ReadInv
variable {ar : Ar N}

theorem rDone_lt (h : ReadInv q t ar) (hs : q.state = .readSnpData) (hv : q.rValid i = true) :
    t.r.length < ar.beats := by
  have hle := h.le
  have he : q.rEot = false := by
    simp only [Fsm.rValid, hs, Bool.and_eq_true, Bool.not_eq_true'] at hv
    exact hv.1
  rw [h.rEot] at he
  have : t.r.length ≠ ar.beats := by simpa using he
  omega

/-- A single word is offered exactly when it is the last one in the buffer. -/
theorem single_iff (h : ReadInv q t ar) (hs : q.state = .readSnpData) (hh : q.ar = ar) (hl : ar.len = 0) :
    q.rValid i = true ↔ t.r = [] ∧ (t.cd q.firstResponder).length = ar.offset + 1 := by
  have hk := (h.buffered.beats q.firstResponder).length_le
  have he := h.rEot
  have hm := h.le
  have hst := h.buffered.stored
  simp only [Fsm.rValid, hs, hh, hl, if_true, Fsm.arAddrOffset, Bool.and_eq_true, Bool.not_eq_true', beq_iff_eq, he,
    Ar.beats, decide_eq_false_iff_not] at *
  rw [← List.length_eq_zero_iff, hst, Ar.offset]
  generalize (t.cd q.firstResponder).length = k at *
  generalize t.r.length = m at *
  cases ar.addr.getLsbD 3 <;> interval_cases k <;> interval_cases m <;> simp

theorem line_iff (h : ReadInv q t ar) (hs : q.state = .readSnpData) (hh : q.ar = ar) (hl : ar.len ≠ 0) :
    q.rValid i = true ↔ t.r.length < (t.cd q.firstResponder).length := by
  have hk := (h.buffered.beats q.firstResponder).length_le
  have he := h.rEot
  have hm := h.le
  have hz := h.buffered.stored_eq_zero
  have hle := h.buffered.le
  simp only [Fsm.rValid, hs, hh, hl, if_false, Bool.and_eq_true, Bool.not_eq_true', he, Ar.beats,
    decide_eq_false_iff_not, beq_eq_false_iff_ne, ne_eq, hz] at *
  omega

/-- The beat offered on R is the next one of the answer. -/
theorem offer (h : ReadInv q t ar) (hsn : SnoopInv q t (.read ar)) (hs : q.state = .readSnpData)
    (hv : q.rValid i = true) :
    t.r.length < (t.cd q.firstResponder).length ∧
      (t.answer ar (t.cd q.firstResponder))[t.r.length]? = some (q.r i) := by
  have hne : q.state ≠ .idle := by simp [hs]
  have hh : q.ar = ar := hsn.held hne
  have hsh : q.shared = fun n => (t.cr n).any (·.isShared) := funext (hsn.shared hne)
  have hdi : q.dirty = fun n => (t.cr n).any (·.passDirty) := funext (hsn.dirty hne)
  have hb := h.buffered.beats q.firstResponder
  have h0 := h.buffered.word0
  have h1 := h.buffered.word1
  by_cases hl : ar.len = 0
  · obtain ⟨hr, hk⟩ := (h.single_iff hs hh hl).mp hv
    refine ⟨by simp [hr, hk], ?_⟩
    have hlast : (q.storedCdData == if q.arAddrOffset = true then 2 else 1) = true := by
      simp only [Fsm.rValid, hs, hh, hl, if_true, Bool.and_eq_true] at hv
      exact hv.2
    have hq : q.r i = ⟨ar.id, q.cdData (ar.addr.getLsbD 3), anyPort q.shared, anyPort q.dirty, 0, true, 0⟩ := by
      rw [Fsm.arAddrOffset, hh] at hlast
      simp only [Fsm.r, hs, hh, hl, if_true, Fsm.arAddrOffset, hlast]
    rw [hq, Trace.answer, if_pos hl, hr, hsh, hdi]
    rw [Ar.offset] at hk ⊢
    rcases hb with hb | ⟨a, hb⟩ | ⟨a, b, hb⟩ <;> cases ho : ar.addr.getLsbD 3 <;> simp_all
  · have hk := (h.line_iff hs hh hl).mp hv
    refine ⟨hk, ?_⟩
    have hq : q.r i = ⟨ar.id, q.cdData q.rLast, anyPort q.shared, anyPort q.dirty, 0, q.rLast, 0⟩ := by
      simp only [Fsm.r, hs, hh, hl, if_false]
    have hr := h.rLast
    rw [hq, Trace.answer, if_neg hl, hsh, hdi]
    rcases hb with hb | ⟨a, hb⟩ | ⟨a, b, hb⟩ <;> rw [hb] at hk h0 h1 <;> generalize t.r.length = m at * <;>
      simp only [List.length_cons, List.length_nil] at hk <;> interval_cases m <;> simp_all

/-- The last beat is marked. -/
theorem last (h : ReadInv q t ar) (hsn : SnoopInv q t (.read ar)) (hs : q.state = .readSnpData)
    (hv : q.rValid i = true) : (q.r i).last = decide (t.r.length + 1 = ar.beats) := by
  have hh : q.ar = ar := hsn.held (by simp [hs])
  by_cases hl : ar.len = 0
  · have hr := ((h.single_iff hs hh hl).mp hv).1
    simp only [Fsm.rValid, hs, hh, hl, if_true, Bool.and_eq_true] at hv
    simp only [Fsm.r, hs, hh, hl, if_true, hr, Ar.beats]
    simpa using hv.2
  · simp only [Fsm.r, hs, hh, hl, if_false, h.rLast, Ar.beats]
    grind -ring -linarith

end ReadInv

variable [NeZero N]

namespace ReadInv
variable {ar : Ar N}

/-- What has been sent stays the beginning of the answer. -/
theorem next (h : ReadInv q t ar) (hsn : SnoopInv q t (.read ar)) (hs : q.state = .readSnpData) (hc : conforming t i)
    (ho : q.overtaken i = false) : ReadInv (q.step i) (t.step q i) ar := by
  have hne : q.state ≠ .idle := by simp [hs]
  have hcont := Fsm.continues_of_ne (i := i) hne
  have hh : q.ar = ar := hsn.held hne
  obtain ⟨hfr, hav, hcr⟩ := Fsm.step_of_snooped
    (i := i) hne (by simp [Fsm.snooped, Fsm.decoding, Fsm.sending, Fsm.waiting, hs])
  have hrd : q.drained i = q.rDone i := by simp [Fsm.drained, hs]
  have hr : (t.step q i).r = Trace.push (q.rDone i) (q.r i) t.r := by simp [Trace.step, hcont.1, hcont.2]
  have hcd : (t.step q i).cd q.firstResponder =
      Trace.push (q.cdDone i q.firstResponder) (i.snoop q.firstResponder).cd (t.cd q.firstResponder) := by
    simp [Trace.step, hcont.1, hcont.2]
  have hans : (t.step q i).answer ar = t.answer ar := by
    funext cds
    simp [Trace.answer, hcr]
  have hlen : (t.step q i).r.length = t.r.length + if q.rDone i then 1 else 0 := by rw [hr, Trace.length_push]
  have hvalid : q.rDone i = true → q.rValid i = true := fun hd => by simp_all [Fsm.rDone]
  have hlt := fun hd => h.rDone_lt hs (hvalid hd)
  have hof := fun hd => h.offer hsn hs (hvalid hd)
  constructor
  · rw [hlen, ← hrd]
    exact h.buffered.next (.inl hs) hc (fun hd => (hof (hrd ▸ hd)).1) hfr hav
  · rw [hlen]
    have h1 := h.rLast
    have h2 : (q.step i).rLast = if q.rDone i then !q.rLast else q.rLast := by simp [Fsm.step, hne]
    have h3 : ar.beats ≤ 2 := by
      rw [Ar.beats]
      split_ifs <;> omega
    grind -ring -linarith
  · rw [hlen]
    have h1 := h.rEot
    have h2 : (q.step i).rEot = (q.rEot || (q.rDone i && (q.r i).last)) := by simp [Fsm.step, hne]
    have h3 := fun hd => h.last (i := i) hsn hs (hvalid hd)
    grind -ring -linarith
  · rw [hlen]
    have := h.le
    grind -ring -linarith
  · rw [hfr, hcd, hans, hr]
    refine List.IsPrefix.trans ?_ (t.answer_push ar _ _ _)
    cases hd : q.rDone i with
    | false => exact h.sent
    | true => exact extend_of_next h.sent (hof hd).2
  · intro hl hoff hnil
    rw [hfr, hcd, Trace.length_push]
    have hnd : q.rDone i = false := by
      cases hd : q.rDone i with
      | false => rfl
      | true => simp [hr, Trace.push, hd] at hnil
    have hnil' : t.r = [] := by simpa [hr, Trace.push, hnd] using hnil
    have h1 := h.first hl hoff hnil'
    have h2 := h.single_iff (i := i) hs hh hl
    have h3 : q.arAddrOffset = false := by
      rw [Fsm.arAddrOffset, hh]
      simpa [Ar.offset] using hoff
    simp only [Fsm.overtaken, Fsm.rDone, hs, hh, hl, h3] at ho hnd
    grind -ring -linarith
  · intro hl hoff hnil
    rw [hfr, hcd, Trace.length_push]
    have h1 := h.second hl hoff
    have h2 := h.single_iff (i := i) hs hh hl
    have h3 := h.buffered.cdDone_length (i := i) (n := q.firstResponder)
    have h4 : t.r = [] → q.rDone i = true := fun hn => by
      by_contra hd
      simp [hr, Trace.push, hd, hn] at hnil
    grind -ring -linarith

end ReadInv

/-- A read that is answered by a core has its beats in order. -/
structure DataInv (q : Fsm N) (t : Trace N) : Prop where
  found : q.state = .readSnpData → q.dataFound = true
  read : q.state = .readSnpData → ∀ ar, t.req = some (.read ar) → ReadInv q t ar

theorem Fsm.enters_readSnpData (hs : (q.step i).state = .readSnpData) :
    q.state = .readSnpData ∨ (q.state = .waitRespR ∧ q.dataFound = true ∧ q.rDone i = false) := by
  cases hq : q.state <;> simp only [Fsm.step, Fsm.stateD, Fsm.rDone, Fsm.rValid, hq] at * <;> grind -ring -linarith

theorem dataInv_step (hsn : ∀ r, t.req = some r → SnoopInv q t r) (h0 : t.req = none → q.state = .idle)
    (hb : q.snooped = false → Unanswered q t) (h : DataInv q t) (hc : conforming t i) (ho : q.overtaken i = false) :
    DataInv (q.step i) (t.step q i) := by
  suffices hall : (q.step i).state = .readSnpData → (q.step i).dataFound = true ∧
      ∀ ar, (t.step q i).req = some (.read ar) → ReadInv (q.step i) (t.step q i) ar from
    ⟨fun hs => (hall hs).1, fun hs => (hall hs).2⟩
  intro hs
  have hf : q.dataFound = true ∧ q.state ≠ .idle := by
    rcases Fsm.enters_readSnpData hs with hq | ⟨hq, hf, -⟩
    · exact ⟨h.found hq, by simp [hq]⟩
    · exact ⟨hf, by simp [hq]⟩
  have ht := Fsm.continues_of_ne (i := i) hf.2
  obtain ⟨r, hr⟩ := Option.ne_none_iff_exists'.mp fun hn => hf.2 (h0 hn)
  refine ⟨by rw [(hsn r hr).step_dataFound hf.2, hf.1, Bool.true_or], fun ar har => ?_⟩
  have har : t.req = some (.read ar) := by simpa [Trace.step, ht.1, ht.2] using har
  rcases Fsm.enters_readSnpData hs with hq | ⟨hq, -, hr⟩
  · exact (h.read hq ar har).next (hsn _ har) hq hc ho
  · have hsn : q.snooped = false := by simp [Fsm.snooped, Fsm.decoding, Fsm.sending, Fsm.waiting, hq]
    exact .of_unanswered ((hb hsn).next hsn hr) ar

/-- Cores send their lines in two beats, and none overtakes a word that waits for `r_ready`. -/
def keepsWord (x : Fsm N × Trace N) (i : CcuIn N) : Prop := conforming x.2 i ∧ x.1.overtaken i = false

theorem dataInv_reachable {x : Fsm N × Trace N} (h : (ccu N).Reachable keepsWord x) : DataInv x.1 x.2 := by
  refine Machine.Reachable.invariant_of (P := fun x => ((∀ r, x.2.req = some r → SnoopInv x.1 x.2 r) ∧
      (x.2.req = none → x.1.state = .idle)) ∧ (x.1.snooped = false → Unanswered x.1 x.2))
    (Q := fun x => DataInv x.1 x.2) (fun x hr => ⟨snoopInv_reachable hr, unanswered_reachable hr⟩) (fun x h0 => ?_)
    (fun x i hs hd hok => dataInv_step hs.1.1 hs.1.2 hs.2 hd hok.1 hok.2) h
  have hi := h0.1.state
  exact ⟨fun hs => by simp [hi] at hs, fun hs => by simp [hi] at hs⟩

theorem ReadInv.leaves {ar : Ar N} (h : ReadInv q t ar) (h' : ReadInv (q.step i) (t.step q i) ar)
    (hsn : SnoopInv q t (.read ar)) (hf : q.dataAvailable q.firstResponder = true) (hs : q.state = .readSnpData)
    (hl : (q.step i).state ≠ .readSnpData) :
    (q.step i).state = .idle ∧ (∀ n, q.dataAvailable n = true → ((t.step q i).cd n).length = 2) ∧
      (t.step q i).r.length = ar.beats := by
  have hne : q.state ≠ .idle := by simp [hs]
  have hcont := Fsm.continues_of_ne (i := i) hne
  have hexit : (q.step i).state = .idle ∧ q.cdLast = q.dataAvailable ∧
    (q.rEot = true ∨ (i.req.rReady = true ∧ q.rLast = true)) := by
    simp only [Fsm.step, Fsm.stateD, hs] at hl ⊢
    grind -ring -linarith
  obtain ⟨hi, hcd, hr⟩ := hexit
  have hlen : ∀ n, q.dataAvailable n = true → (t.cd n).length = 2 := fun n hn => by
    rw [← hcd, h.buffered.cdLast] at hn
    simpa using hn
  refine ⟨hi, fun n hn => ?_, ?_⟩
  · have hd : q.cdDone i n = false := by
      by_contra hd
      have := h.buffered.cdDone_length (i := i) (n := n) (by simpa using hd)
      have := hlen n hn
      omega
    simpa [Trace.step, hcont.1, hcont.2, Trace.push, hd] using hlen n hn
  · have hm : (t.step q i).r.length = t.r.length + if q.rDone i then 1 else 0 := by
      simp [Trace.step, hcont.1, hcont.2, Trace.length_push]
    have hle := h.le
    have hle' := h'.le
    rcases hr with hr | ⟨hrdy, hlast⟩
    · rw [h.rEot] at hr
      have : t.r.length = ar.beats := by simpa using hr
      omega
    · -- the second beat of a line is on its way out
      rw [h.rLast] at hlast
      have h1 : t.r.length = 1 := by simpa using hlast
      by_cases hl : ar.len = 0
      · have hb : ar.beats = 1 := by simp [Ar.beats, hl]
        omega
      · have hb : ar.beats = 2 := by simp only [Ar.beats, hl, if_false]
        have hv := (h.line_iff (i := i) hs (hsn.held hne) hl).mpr (by rw [hlen _ hf]; omega)
        simp [hm, h1, hb, Fsm.rDone, hv, hrdy]

/-- A beat that is not taken stays until it is, unless it is overtaken. -/
theorem ReadInv.stalls {ar : Ar N} (h : ReadInv q t ar) (hsn : SnoopInv q t (.read ar)) (hs : q.state = .readSnpData)
    (hc : conforming t i) (hv : q.rValid i = true) (hr : i.req.rReady = false) (j : CcuIn N) :
    ((q.step i).rValid j = true ∧ (q.step i).r j = q.r i) ↔ q.overtaken i = false := by
  have hne : q.state ≠ .idle := by simp [hs]
  have hcont := Fsm.continues_of_ne (i := i) hne
  have hh : q.ar = ar := hsn.held hne
  have hnd : q.rDone i = false := by simp [Fsm.rDone, hr]
  have heot : q.rEot = false := by
    rw [h.rEot]
    have := h.rDone_lt hs hv
    simp
    omega
  have hs' : (q.step i).state = .readSnpData := by simp [Fsm.step, Fsm.stateD, hs, heot, hr]
  have hh' : (q.step i).ar = ar := by simp [Fsm.step, hcont.1, hh]
  obtain ⟨hfr, hav, hcr⟩ := Fsm.step_of_snooped (i := i) hne
    (by simp [Fsm.snooped, Fsm.decoding, Fsm.sending, Fsm.waiting, hs])
  have hrt : (t.step q i).r = t.r := by simp [Trace.step, hcont.1, hcont.2, hnd, Trace.push]
  have hcd : (t.step q i).cd q.firstResponder =
      Trace.push (q.cdDone i q.firstResponder) (i.snoop q.firstResponder).cd (t.cd q.firstResponder) := by
    simp [Trace.step, hcont.1, hcont.2]
  have hlt := h.buffered.cdDone_length (i := i) (n := q.firstResponder)
  constructor
  · rintro ⟨hv', -⟩
    by_contra ho
    -- two words are buffered now, and the word is only offered when it is alone
    simp only [Fsm.overtaken, Bool.not_eq_false, Bool.and_eq_true, beq_iff_eq, Bool.not_eq_true'] at ho
    obtain ⟨⟨⟨⟨⟨-, hl⟩, ho⟩, -⟩, -⟩, hd⟩ := ho
    rw [hh] at hl
    have hoff : ar.addr.getLsbD 3 = false := by rw [← hh]; exact ho
    have hk := ((h.single_iff hs hh hl).mp hv)
    have hb := (h.buffered.next (i := i) (.inl hs) hc (fun hdr => by simp [Fsm.drained, hs, hnd] at hdr) hfr hav).stored
    have hk1 : (t.cd q.firstResponder).length = 1 := by
      rw [hk.2, Ar.offset, hoff]
      rfl
    rw [hfr, hcd, Trace.length_push, hd, hk1, hk.1] at hb
    simp only [Fsm.drained, hs, hnd] at hb
    simp only [Fsm.rValid, hs', hh', hl, Fsm.arAddrOffset, hoff, hb] at hv'
    simp at hv'
  · intro ho
    have h' := h.next hsn hs hc ho
    have hsn' := hsn.next hcont
    have hv' : (q.step i).rValid j = true := by
      by_cases hl : ar.len = 0
      · have hk := (h.single_iff hs hh hl).mp hv
        refine (h'.single_iff hs' hh' hl).mpr ⟨hrt.trans hk.1, ?_⟩
        rw [hfr, hcd, Trace.length_push, hk.2]
        have hd : q.cdDone i q.firstResponder = false := by
          by_contra hd
          have hlen := hlt (by simpa using hd)
          have hoff : q.arAddrOffset = false := by
            by_contra hoff
            have : ar.addr.getLsbD 3 = true := by rw [← hh]; simpa [Fsm.arAddrOffset] using hoff
            simp [hk.2, Ar.offset, this] at hlen
          simp [Fsm.overtaken, hs, hh, hl, hoff, hv, hr, hd] at ho
        simp [hd]
      · have hk := (h.line_iff hs hh hl).mp hv
        refine (h'.line_iff hs' hh' hl).mpr ?_
        rw [hrt, hfr, hcd, Trace.length_push]
        omega
    refine ⟨hv', ?_⟩
    have h1 := (h.offer hsn hs hv).2
    have h2 := (h'.offer hsn' hs' hv').2
    have hans : (t.step q i).answer ar = t.answer ar := by
      funext cds
      simp [Trace.answer, hcr]
    rw [hrt, hfr, hcd, hans] at h2
    obtain ⟨m, hm⟩ :=
      t.answer_push ar (t.cd q.firstResponder) (i.snoop q.firstResponder).cd (q.cdDone i q.firstResponder)
    rw [← hm, List.getElem?_append_left (List.getElem?_eq_some_iff.mp h1).1, h1] at h2
    exact (Option.some.inj h2).symm

/-- A read answered by a snooped core: the beats of the first responder's line in order, each offered until it is
taken, all lines drained, and no wait with everything received and nothing offered; and the one
case in which an offered beat is withdrawn. -/
theorem snoop_data {x : Fsm N × Trace N} (h : (ccu N).Reachable keepsWord x) (i : CcuIn N) (hc : conforming x.2 i)
    (hs : x.1.state = .readSnpData) :
    ∃ ar, x.2.req = some (.read ar) ∧ x.2.Returned x.1.firstResponder ∧
      ((x.1.step i).state ≠ .readSnpData → (x.1.step i).state = .idle ∧
        (∃ a b, (x.2.step x.1 i).cd x.1.firstResponder = [⟨a, false⟩, ⟨b, true⟩] ∧
          (x.2.step x.1 i).r = x.2.answer ar [⟨a, false⟩, ⟨b, true⟩]) ∧
        ∀ n, (∃ c ∈ x.2.cr n, c.dataTransfer = true) → ((x.2.step x.1 i).cd n).length = 2) ∧
      (x.1.rValid i = true → i.req.rReady = false → ∀ j,
        ((x.1.step i).rValid j = true ∧ (x.1.step i).r j = x.1.r i) ↔ x.1.overtaken i = false) ∧
      ((∀ n, (∃ c ∈ x.2.cr n, c.dataTransfer = true) → (x.2.cd n).length = 2) → x.2.r.length < ar.beats →
        x.1.rValid i = true) := by
  obtain ⟨q, t⟩ := x
  change q.state = .readSnpData at hs
  have hne : q.state ≠ .idle := by simp [hs]
  obtain ⟨hsnoop, h0⟩ := snoopInv_reachable h
  have hdata : DataInv q t := dataInv_reachable h
  obtain ⟨r, hr⟩ := Option.ne_none_iff_exists'.mp fun hn => hne (h0 hn)
  have hsn : SnoopInv q t r := hsnoop r hr
  obtain ⟨ar, rfl⟩ : ∃ ar, r = .read ar := by
    cases r with
    | read ar => exact ⟨ar, rfl⟩
    | write aw => simpa [hs, Req.visits] using hsn.visits hne
  have hread := hdata.read hs ar hr
  have hresp := hsn.responder hne (by rw [hsn.found hne, hdata.found hs])
  have hany : ∀ n, q.dataAvailable n = true ↔ ∃ c ∈ t.cr n, c.dataTransfer = true := fun n => by
    rw [hsn.dataAvailable hne, List.any_eq_true]
  refine ⟨ar, hr, (hsn.returned_iff hne _).mp hresp, fun hl => ?_, fun hv hrdy j => hread.stalls hsn hs hc hv hrdy j,
    fun hall hun => ?_⟩
  · have ho : q.overtaken i = false := by
      by_contra ho
      simp only [Fsm.overtaken, Bool.not_eq_false, Bool.and_eq_true, Bool.not_eq_true'] at ho
      have heot : q.rEot = false := by
        have := hread.rDone_lt hs ho.1.1.2
        rw [hread.rEot]
        simp
        omega
      exact hl (by simp [Fsm.step, Fsm.stateD, hs, heot, ho.1.2])
    have hread' := hread.next hsn hs hc ho
    obtain ⟨hi, hcd, hlen⟩ := hread.leaves hread' hsn hresp.1 hs hl
    obtain ⟨hfr, -, hcr⟩ := Fsm.step_of_snooped (i := i) hne
      (by simp [Fsm.snooped, Fsm.decoding, Fsm.sending, Fsm.waiting, hs])
    have hbeats := hread'.buffered.beats q.firstResponder
    obtain ⟨a, b, hab⟩ := hbeats.eq_of_length (hcd _ hresp.1)
    refine ⟨hi, ⟨a, b, hab, ?_⟩, fun n hn => hcd n ((hany n).mpr hn)⟩
    have hsent := hread'.sent
    rw [hfr, hab] at hsent
    refine (hsent.eq_of_length ?_).trans (by simp [Trace.answer, hcr])
    rw [hlen, Trace.answer, Ar.beats, Ar.offset]
    split_ifs <;> simp
  · have hk : (t.cd q.firstResponder).length = 2 := hall _ ((hany _).mp hresp.1)
    change t.r.length < ar.beats at hun
    by_cases hl : ar.len = 0
    · have hnil : t.r = [] := by
        rw [← List.length_eq_zero_iff]
        simp [Ar.beats, hl] at hun
        exact List.length_eq_zero_iff.mpr hun
      refine (hread.single_iff hs (hsn.held hne) hl).mpr ⟨hnil, ?_⟩
      have hfirst := hread.first hl
      rw [Ar.offset] at hfirst ⊢
      grind -ring -linarith
    · refine (hread.line_iff hs (hsn.held hne) hl).mpr ?_
      have hb : ar.beats = 2 := by simp only [Ar.beats, hl, if_false]
      omega

section Runs
open Stimuli

namespace Stimuli

/-- Core 2 offers a beat of its line. -/
def sends (c : Cd) (rReady : Bool) : CcuIn 3 :=
  { quiet with
    req := { quiet.req with rReady := rReady }
    snoop := fun n => if n = 2 then { quiet.snoop n with cdValid := true, cd := c } else quiet.snoop n }

def takes : CcuIn 3 := { quiet with req := { quiet.req with rReady := true } }

end Stimuli

/-- Core 1 reads a line that core 2 has; the first beat waits while the second word comes in. -/
def lineRead : List (CcuIn 3) :=
  snoops (reads (ar 1 0x1000 1 false .readShared)) (onlyCore2 ⟨true, false, false, true⟩) ++
    [quiet, sends ⟨7, false⟩ false, sends ⟨9, true⟩ false, takes]

instance (x : Fsm 3 × Trace 3) (i : CcuIn 3) : Decidable (keepsWord x i) :=
  inferInstanceAs (Decidable (conforming x.2 i ∧ x.1.overtaken i = false))

theorem snoop_data_run :
    let x := (ccu 3).run (initial, .start none) lineRead
    x.1.state = .readSnpData ∧ x.2.r.length = 1 ∧ x.1.rValid takes = true := by
  have hr : (ccu 3).Reachable keepsWord ((ccu 3).run (initial, .start none) lineRead) :=
    .run (.init initial_init) (by decide +kernel)
  obtain ⟨a, ha, -, -, -, hw⟩ := snoop_data hr takes (by decide +kernel) (by decide +kernel)
  have hreq : ((ccu 3).run (initial, .start none) lineRead).2.req =
    some (.read (ar 1 0x1000 1 false .readShared)) := rfl
  obtain rfl : ar 1 0x1000 1 false .readShared = a := by
    rw [hreq] at ha
    exact Req.read.inj (Option.some.inj ha)
  exact ⟨by decide +kernel, by decide +kernel, hw (by decide +kernel) (by decide +kernel)⟩

/-- Core 1 reads word 0 of a line that core 2 has; both words come in before core 1 is ready. -/
def wordRead : List (CcuIn 3) :=
  snoops (reads (ar 1 0x1000 0 false .readOnce)) (onlyCore2 ⟨false, false, false, true⟩) ++
    [quiet, sends ⟨7, false⟩ false]

/-- The beat that was offered is withdrawn and the read is not answered any more. -/
theorem snoop_data_lost :
    let x := (ccu 3).run (initial, .start none) wordRead
    let y := (ccu 3).next x (sends ⟨9, true⟩ false)
    (ccu 3).Reachable (fun x i => conforming x.2 i) y ∧ x.1.rValid quiet = true ∧
      y.1.state = .readSnpData ∧ y.1.cdLast = y.1.dataAvailable ∧ y.2.r = [] ∧
      y.1.rValid takes = false ∧ ((ccu 3).run y [takes, takes, takes]).1.rValid takes = false := by
  have hx : (ccu 3).Reachable (fun x i => conforming x.2 i) ((ccu 3).run (initial, .start none) wordRead) :=
    .run (.init initial_init) (by decide +kernel)
  exact ⟨.step _ hx (by decide +kernel), by decide +kernel⟩

end Runs
end Culsans.Ccu
