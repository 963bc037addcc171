import Culsans.Coherence.Grants

/-! # The order of writes to memory

A core writes a line back through a port of its own; the coherence unit writes the data
it has collected, and forwards writes, through another. Nothing orders the two paths. The
line of a write-back under way can still be handed to another core, and the R beat
of an upgrade is sent before the old owner's data is written; in both cases a newer
write can overtake an older one. A bypassed store goes to memory past the copy that the core itself may
still have from when its cache was enabled. Apart from these and from a refill that
was hidden from a snoop, every write to memory carries the last store to its bytes.
-/

namespace Culsans.Coherence.Protocol
open Dcache Library

/-- The core holds a store to the byte that memory may not have. -/
def Core.dirtyAt (c : Core) (b : Fin 16) : Bool :=
  match c.held with
  | some m => m.dirty b
  | none => false

/-- Memory has not yet taken the core's own write-back. -/
def Core.writing (c : Core) : Bool :=
  match c.back with
  | some w => !w.landed
  | none => false

/-- The write-back that memory has not yet taken carries the line the core has. -/
def Core.WritesCopy (c : Core) : Prop :=
  ∀ w, c.back = some w → w.landed = false → ∃ m, c.copy = some m ∧ w.mask = m.dirty ∧ w.data = m.data

namespace State
variable {N : ℕ} {s : State N}

/-- No snoop takes away a line whose write-back by the core is still on its way to memory. -/
def keepsVictim (s : State N) : Event N → Prop
  | .answer j => s.ccu.phase = .snoop → s.ccu.answered j = false → s.ccu.kind ≠ .readShared →
      (s.core j).copy.isSome = true → (s.core j).writing = false
  | _ => True

/-- No core starts to write the line back while the write-back of the coherence unit is still on its way. -/
def awaitsCcu (s : State N) : Event N → Prop
  | .evict _ => s.ccu.phase = .writeBack → s.ccu.landed = true
  | _ => True

/-- The coherence unit takes up no WRITE_UNIQUE of a core that holds the line itself. -/
def writesAbsent (s : State N) : Event N → Prop
  | .acceptWrite i => s.ccu.phase = .idle → (s.core i).write = .asked → (s.core i).held = none
  | _ => True

/-- Each write of the line reaches memory before the next one can start. -/
def ordered (s : State N) (e : Event N) : Prop :=
  s.acceptsSaved e ∧ s.keepsVictim e ∧ s.awaitsCcu e ∧ s.writesAbsent e

instance (s : State N) : ∀ e, Decidable (s.keepsVictim e)
  | .answer j =>
    inferInstanceAs (Decidable (s.ccu.phase = .snoop → s.ccu.answered j = false → s.ccu.kind ≠ .readShared →
      (s.core j).copy.isSome = true → (s.core j).writing = false))
  | .request .. | .recheck _ | .store .. | .evict _ | .drop _ | .land _ | .written _ | .accept _ | .acceptWrite _
  | .resolve | .landCcu | .writtenCcu | .readMem | .writeMem | .save _ | .upgraded _ => .isTrue trivial

instance (s : State N) : ∀ e, Decidable (s.awaitsCcu e)
  | .evict _ => inferInstanceAs (Decidable (s.ccu.phase = .writeBack → s.ccu.landed = true))
  | .request .. | .recheck _ | .store .. | .answer _ | .drop _ | .land _ | .written _ | .accept _ | .acceptWrite _
  | .resolve | .landCcu | .writtenCcu | .readMem | .writeMem | .save _ | .upgraded _ => .isTrue trivial

instance (s : State N) : ∀ e, Decidable (s.writesAbsent e)
  | .acceptWrite i =>
    decidable_of_iff (s.ccu.phase = .idle → (s.core i).write = .asked → (s.core i).held.isNone = true)
      (by simp [writesAbsent])
  | .request .. | .recheck _ | .store .. | .evict _ | .drop _ | .land _ | .written _ | .accept _ | .answer _
  | .resolve | .landCcu | .writtenCcu | .readMem | .writeMem | .save _ | .upgraded _ => .isTrue trivial

instance (s : State N) (e : Event N) : Decidable (s.ordered e) :=
  inferInstanceAs (Decidable (s.acceptsSaved e ∧ s.keepsVictim e ∧ s.awaitsCcu e ∧ s.writesAbsent e))

/-- Where the last store to each byte is. -/
structure Fresh (s : State N) : Prop where
  mem : ∀ b, s.mem b ≤ s.clock b
  held : ∀ j m, (s.core j).held = some m → m.data = s.clock
  collected : s.ccu.phase = .snoop → s.ccu.available = true → s.ccu.data = s.clock ∧ ∀ j, (s.core j).exclusive = false
  pending : s.ccu.phase = .writeBack → s.ccu.landed = false → (∀ b, s.mem b ≤ s.ccu.data b ∧ s.ccu.data b ≤ s.clock b) ∧
    ∀ j w, (s.core j).back = some w → w.landed = true
  inFlight : ∀ j w, (s.core j).back = some w → w.landed = false →
    ∃ m, (s.core j).copy = some m ∧ w.mask = m.dirty ∧ w.data = m.data
  taken : ∀ j w m b, (s.core j).back = some w → w.landed = true → (s.core j).copy = some m → m.dirty b = true →
    s.mem b = s.clock b
  around : s.ccu.phase ≠ .idle → s.ccu.kind = .writeUnique → (s.core s.ccu.initiator).held = none
  latest : ∀ b, s.mem b = s.clock b ∨ (∃ j, (s.core j).dirtyAt b = true) ∨
    (s.ccu.phase = .snoop ∧ s.ccu.available = true ∧ s.ccu.dirty = true) ∨
    (s.ccu.phase = .writeBack ∧ s.ccu.landed = false ∧ s.ccu.data b = s.clock b)

/-- With no copy of its own, the initiator of a WRITE_UNIQUE makes no exception. -/
theorem Fresh.noRefill (h : s.Inv) (hf : s.Fresh) (hp : s.ccu.phase ≠ .idle) (j : Fin N) :
    (s.core j).refilled = false := by
  by_cases ha : s.aside j
  · obtain ⟨hk, rfl⟩ := ha
    have hn := hf.around hp hk
    rw [Core.held] at hn
    split_ifs at hn with hr
    exact Bool.eq_false_iff.mpr hr
  · exact h.ccu.noRefill hp j ha

theorem Fresh.absent (h : s.Inv) (hf : s.Fresh) (hp : s.ccu.phase ≠ .idle) (hk : s.ccu.kind = .writeUnique) :
    (s.core s.ccu.initiator).copy = none := by
  rw [← Core.held_of_not_refilled (hf.noRefill h hp _)]
  exact hf.around hp hk

theorem Fresh.quiet (h : s.Inv) (hf : s.Fresh) (hp : s.ccu.phase = .read ∨ s.ccu.phase = .write ∨
    (s.ccu.phase = .writeBack ∧ s.ccu.kind ≠ .cleanUnique)) (j : Fin N) : (s.core j).copy = none := by
  by_cases ha : s.aside j
  · have hi : s.ccu.phase ≠ .idle := by rcases hp with hp | hp | ⟨hp, -⟩ <;> simp [hp]
    obtain ⟨hk, rfl⟩ := ha
    exact hf.absent h hi hk
  · exact h.ccu.quiet hp j ha

theorem stored_apply (be : LineBe) (d : Stamps) (b : Fin 16) :
    s.stored be d b = if be b then s.clock b + 1 else d b := by
  simp only [stored, merge, tick]
  split_ifs <;> rfl

theorem stored_clock (be : LineBe) : s.stored be s.clock = tick be s.clock := by
  funext b
  rw [stored_apply, tick]

theorem writesCopy_step (h : s.Inv) (hi : ∀ j, (s.core j).WritesCopy) (e : Event N) (hok : s.keepsVictim e)
    (j : Fin N) : ((s.step e).core j).WritesCopy := by
  have hnone {c : Core} (hb : c.back = none) : c.WritesCopy := fun w hw => absurd (hb.symm.trans hw) (by simp)
  have hm := s.moves e
  generalize s.step e = t at hm
  cases hm with
  | stay | answerMiss | collect | landCcu | writtenCcu => exact hi j
  | miss i | bypass i | upgrade i | recheck i | accept i | acceptWrite i | refetch i | upgraded i =>
    refine forall_setCore hi ?_ j
    exact hi i
  | grantLine | grantUpgrade | grantMem | locked | writeMem =>
    refine forall_setCore hi ?_ j
    exact hi s.ccu.initiator
  | store _ _ _ _ _ hb | drop _ _ _ _ hb =>
    refine forall_setCore hi ?_ j
    exact hnone hb
  | written => exact forall_setCore hi (hnone rfl) j
  | save i hs =>
    refine forall_setCore hi (hnone ?_) j
    exact ((h.ok i).busy (by simp [hs])).1
  | evict i m hc =>
    refine forall_setCore hi ?_ j
    intro w hw _
    cases hw
    exact ⟨m, hc, rfl, rfl⟩
  | land i =>
    refine forall_setCore hi ?_ j
    intro w hw hl
    cases hw
    cases hl
  | answerShared i m _ _ hc =>
    refine forall_setCore hi ?_ j
    intro w hw hl
    obtain ⟨m', hm', hmask, hdata⟩ := hi i w hw hl
    cases hc.symm.trans hm'
    exact ⟨_, rfl, hmask, hdata⟩
  | answerInvalid i m hp ha hc hk =>
    -- the snoop takes the line away only when memory has taken the write-back
    refine forall_setCore hi ?_ j
    intro w hw hl
    have hw' := hok hp ha hk (by simp [hc])
    simp [Core.writing, show (s.core i).back = some w from hw, hl] at hw'

theorem Fresh.inFlight_clock (h : s.Inv) (hf : s.Fresh) {j : Fin N} {w : Write} (hb : (s.core j).back = some w)
    (hl : w.landed = false) : w.data = s.clock := by
  obtain ⟨m, hm, -, hd⟩ := hf.inFlight j w hb hl
  have hidle : (s.core j).stage = .idle := by
    by_contra hs
    simp [((h.ok j).busy hs).1] at hb
  exact hd.trans (hf.held j m (by simp [Core.held, Core.refilled, hidle, hm]))

/-- Memory only gets newer, and never newer than the last store. -/
theorem mem_step (h : s.Inv) (hf : s.Fresh) (e : Event N) (b : Fin 16) :
    s.mem b ≤ (s.step e).mem b ∧ (s.step e).mem b ≤ (s.step e).clock b := by
  have hb := hf.mem b
  have hm := s.moves e
  generalize s.step e = t at hm
  cases hm with
  | stay => exact ⟨le_rfl, hb⟩
  | land i w hw hl =>
    have := hf.inFlight_clock h hw hl
    grind -ring -linarith [setCore, merge]
  | landCcu hp hl =>
    have := (hf.pending hp hl).1 b
    grind -ring -linarith
  | _ => grind -ring -linarith [setCore, goTo, grant, finish, finishWrite, tick, stored_apply]

/-- A core that may store keeps all others from holding the line. -/
theorem Inv.copy_others (h : s.Inv) {i j : Fin N} (hi : (s.core i).exclusive = true) (hj : j ≠ i) :
    (s.core j).copy = none := by
  have hn := h.compat.others hi hj
  cases hr : (s.core j).refilled with
  | false => rwa [Core.held_of_not_refilled hr] at hn
  | true => simp [Core.held, hr] at hn

theorem taken_step (h : s.Inv) (hf : s.Fresh) (e : Event N) (j : Fin N) (w : Write) (m : LineCopy) (b : Fin 16)
    (hb : ((s.step e).core j).back = some w) (hl : w.landed = true) (hc : ((s.step e).core j).copy = some m)
    (hd : m.dirty b = true) : (s.step e).mem b = (s.step e).clock b := by
  have hi := fun w m => hf.taken j w m b
  have hfl := hf.inFlight j
  have hcl := fun w => hf.inFlight_clock h (j := j) (w := w)
  have hmem := mem_step h hf e b
  obtain ⟨-, h2, -, -, -⟩ := h.ok j
  have hq := fun hp => hf.quiet h hp j
  have hm := s.moves e
  generalize s.step e = t at hm hb hc hmem
  cases hm with
  | stay => exact hi w m hb hl hc hd
  | store i be l hl' hs hb' hm =>
    have hex : (s.core i).exclusive = true := by
      rcases hm with hm | hm <;> simp [Core.exclusive, Core.held, Core.refilled, hs, hl', hm]
    have hn := fun hj => h.copy_others hex (j := j) hj
    grind -ring -linarith [setCore]
  | save i hs hk =>
    have hex : (s.core i).kind = .readUnique → (s.core i).exclusive = true := fun hu => by
      simp [Core.exclusive, Core.held, Core.refilled, hs, hu, Kind.refill]
    have hn := fun hu hj => h.copy_others (hex hu) (j := j) hj
    grind -ring -linarith [setCore]
  | _ => grind -ring -linarith [setCore, goTo, grant, finish, finishWrite, merge]

theorem pending_data_step (h : s.Inv) (hf : s.Fresh) (e : Event N) (hp : (s.step e).ccu.phase = .writeBack)
    (hl : (s.step e).ccu.landed = false) (b : Fin 16) :
    (s.step e).mem b ≤ (s.step e).ccu.data b ∧ (s.step e).ccu.data b ≤ (s.step e).clock b := by
  have hi := fun hp hl => (hf.pending hp hl).1 b
  have hmem := mem_step h hf e b
  have hcol := fun hp ha => congrFun (hf.collected hp ha).1 b
  have hm := s.moves e
  generalize s.step e = t at hm hp hl hmem
  cases hm with
  | stay => exact hi hp hl
  | miss | bypass | upgrade | recheck | evict | drop | written | answerMiss | refetch | upgraded => exact hi hp hl
  | land i w hb hw => exact absurd ((hf.pending hp hl).2 i w hb) (by simp [hw])
  | _ => grind -ring -linarith [setCore, goTo, grant, finish, finishWrite, tick]

theorem pending_back_step (h : s.Inv) (hf : s.Fresh) (e : Event N) (hok : s.awaitsCcu e)
    (hp : (s.step e).ccu.phase = .writeBack) (hl : (s.step e).ccu.landed = false) (j : Fin N) :
    ∀ w, ((s.step e).core j).back = some w → w.landed = true := by
  have hi := fun hp hl => (hf.pending hp hl).2
  have hfl := hf.inFlight j
  have hsn := fun hp => h.ccu.snooped hp j
  have hab := fun hp hk => hf.absent h hp hk
  have hv := h.ccu.serving
  obtain ⟨-, h2, -, -, -⟩ := h.ok j
  have hm := s.moves e
  generalize s.step e = t at hm hp hl
  cases hm with
  | stay => exact hi hp hl j
  | miss i | bypass i | upgrade i | recheck i | store i | drop i | refetch i | upgraded i =>
    refine forall_setCore (P := fun c => ∀ w, c.back = some w → w.landed = true) (hi hp hl) ?_ j
    exact hi hp hl i
  | _ => grind -ring -linarith [setCore, goTo, grant, finish, finishWrite, awaitsCcu, Kind.refill]

theorem pending_step (h : s.Inv) (hf : s.Fresh) (e : Event N) (hok : s.awaitsCcu e)
    (hp : (s.step e).ccu.phase = .writeBack) (hl : (s.step e).ccu.landed = false) :
    (∀ b, (s.step e).mem b ≤ (s.step e).ccu.data b ∧ (s.step e).ccu.data b ≤ (s.step e).clock b) ∧
      ∀ j w, ((s.step e).core j).back = some w → w.landed = true :=
  ⟨pending_data_step h hf e hp hl, pending_back_step h hf e hok hp hl⟩

theorem collected_data_step (h : s.Inv) (hf : s.Fresh) (e : Event N) (hp : (s.step e).ccu.phase = .snoop)
    (ha : (s.step e).ccu.available = true) : (s.step e).ccu.data = (s.step e).clock := by
  have hi := hf.collected
  have hheld := hf.held
  have hn := fun hp => hf.noRefill h hp
  have hm := s.moves e
  generalize s.step e = t at hm hp ha
  cases hm with
  | stay | miss | bypass | upgrade | recheck | evict | drop | land | written | answerMiss | refetch | upgraded =>
    exact (hi hp ha).1
  | answerShared i m hsn _ hc | answerInvalid i m hsn _ hc =>
    have hd := hf.held i m ((Core.held_of_not_refilled (hn (by simp [hsn]) i)).trans hc)
    grind -ring -linarith [setCore]
  | store i be l hc hs hb' hm =>
    have hex : (s.core i).exclusive = true := by
      rcases hm with hm | hm <;> simp [Core.exclusive, Core.held, Core.refilled, hs, hc, hm]
    grind -ring -linarith [setCore]
  | _ => grind -ring -linarith [setCore, goTo, grant, finish, finishWrite, Core.refilled]

theorem collected_cores_step (h : s.Inv) (hf : s.Fresh) (e : Event N) (hp : (s.step e).ccu.phase = .snoop)
    (ha : (s.step e).ccu.available = true) (j : Fin N) : ((s.step e).core j).exclusive = false := by
  have hi := fun hp ha => (hf.collected hp ha).2 j
  have hn := fun hp => hf.noRefill h hp j
  have hstill := still_step h e hp j
  have hm := s.moves e
  generalize s.step e = t at hm hp ha hstill
  cases hm with
  | stay | answerMiss => exact hi hp ha
  | answerShared i m hsn _ hc | answerInvalid i m hsn _ hc =>
    have hexcl : j ≠ i → (s.core j).exclusive = false := fun hne => by
      by_contra hex
      have := h.copy_others (by simpa using hex) (Ne.symm hne)
      simp [hc] at this
    obtain ⟨h1, h2, h3, h4, h5⟩ := h.ok j
    grind -ring -linarith [setCore, Core.exclusive, Core.held, Core.refilled]
  | accept | acceptWrite | grantLine | grantMem | locked | writeMem => simp_all [goTo]
  | grantUpgrade p _ _ _ hd => rcases hd with ⟨-, rfl⟩ | ⟨-, rfl⟩ <;> cases hp
  | collect p _ _ _ hd => rcases hd with ⟨-, -, rfl⟩ | ⟨-, ⟨rfl, -⟩ | ⟨rfl, -⟩⟩ <;> cases hp
  | landCcu hw => exact absurd (hw.symm.trans hp) (by decide)
  | writtenCcu p _ _ hd => rcases hd with ⟨rfl, -⟩ | ⟨rfl, -⟩ | ⟨rfl, -⟩ <;> cases hp
  | miss | bypass | upgrade | recheck | store | evict | drop | land | written | save | refetch | upgraded =>
    exact (hstill (hi hp ha) (hn (by simp [show s.ccu.phase = .snoop from hp]))).1

theorem collected_step (h : s.Inv) (hf : s.Fresh) (e : Event N) (hp : (s.step e).ccu.phase = .snoop)
    (ha : (s.step e).ccu.available = true) :
    (s.step e).ccu.data = (s.step e).clock ∧ ∀ j, ((s.step e).core j).exclusive = false :=
  ⟨collected_data_step h hf e hp ha, collected_cores_step h hf e hp ha⟩

theorem held_step (h : s.Inv) (hf : s.Fresh) (e : Event N) (j : Fin N) (m : LineCopy)
    (hj : ((s.step e).core j).held = some m) : m.data = (s.step e).clock := by
  have hi := hf.held j
  have hn := fun hp => hf.noRefill h hp j
  have hv := h.ccu.serving
  have hd := h.ccu.served s.ccu.initiator
  have hq := fun hp => hf.quiet h hp j
  obtain ⟨h1, -, -, -, -⟩ := h.ok j
  have hm := s.moves e
  generalize s.step e = t at hm hj
  cases hm with
  | stay => exact hi m hj
  | store i be l hc hs hb hm =>
    have hex : (s.core i).exclusive = true := by
      rcases hm with hm | hm <;> simp [Core.exclusive, Core.held, Core.refilled, hs, hc, hm]
    have ho := fun hj => h.compat.others hex (j := j) hj
    have hst := s.stored_clock be
    grind -ring -linarith [setCore, Core.held, Core.refilled]
  | save i hs hk =>
    have hex : (s.core i).kind = .readUnique → (s.core i).exclusive = true := fun hu => by
      simp [Core.exclusive, Core.held, Core.refilled, hs, hu, Kind.refill]
    have ho := fun hu hj => h.compat.others (hex hu) (j := j) hj
    have hst := s.stored_clock (s.core i).be
    grind -ring -linarith [setCore, saved, Core.held, Core.refilled]
  | grantMem hp hk =>
    have hmem : s.mem = s.clock := by
      funext b
      have hheld : ∀ k, (s.core k).held = none := fun k => by
        rw [Core.held_of_not_refilled (hf.noRefill h (by simp [hp]) k), hf.quiet h (.inl hp) k]
      simpa [Core.dirtyAt, hheld, hp] using hf.latest b
    grind -ring -linarith [setCore, goTo, grant, Core.held, Core.refilled]
  | grantLine hp ha hk hd =>
    have hdata := (hf.collected hp hd).1
    grind -ring -linarith [setCore, goTo, grant, Core.held, Core.refilled]
  | _ => grind -ring -linarith [setCore, goTo, grant, finish, finishWrite, Kind.refill, Core.held, Core.refilled]

/-- A dirty byte stays in the cache or moves on to memory or the coherence unit. -/
theorem dirtyAt_step (h : s.Inv) (hf : s.Fresh) (e : Event N) {j : Fin N} {b : Fin 16}
    (hb : (s.core j).dirtyAt b = true) :
    ((s.step e).core j).dirtyAt b = true ∨ (s.step e).mem b = (s.step e).clock b ∨
      ((s.step e).ccu.phase = .snoop ∧ (s.step e).ccu.available = true ∧ (s.step e).ccu.dirty = true) := by
  have htk := fun w m => hf.taken j w m b
  have hn := fun hp => hf.noRefill h hp j
  have hv := h.ccu.serving
  have hd := h.ccu.served s.ccu.initiator
  have hq := fun hp => hf.quiet h hp j
  have hany : ∀ m : LineCopy, m.dirty b = true → anyByte m.dirty = true := fun m hm => anyByte_iff.mpr ⟨b, hm⟩
  obtain ⟨h1, h2, -, -, -⟩ := h.ok j
  have hm := s.moves e
  generalize s.step e = t at hm
  cases hm with
  | stay => exact .inl hb
  | _ =>
    grind -ring -linarith [setCore, goTo, grant, finish, finishWrite, saved, Kind.refill, Core.dirtyAt, Core.held,
      Core.refilled]

/-- A store goes to a held copy or, through the coherence unit, to memory. -/
theorem clock_step (e : Event N) (b : Fin 16) :
    (s.step e).clock b = s.clock b ∨ (s.step e).mem b = (s.step e).clock b ∨
      ∃ j, ((s.step e).core j).dirtyAt b = true := by
  have hm := s.moves e
  generalize s.step e = t at hm
  cases hm with
  | store i be m hc hs =>
    cases hb : be b with
    | false => exact .inl (by simp [tick, hb])
    | true => exact .inr (.inr ⟨i, by simp [setCore, Core.dirtyAt, Core.held, Core.refilled, hs, hb]⟩)
  | save i hs hk =>
    by_cases hb : (s.core i).kind = .readUnique ∧ (s.core i).be b = true
    · exact .inr (.inr ⟨i, by simp [setCore, saved, Core.dirtyAt, Core.held, Core.refilled, hb]⟩)
    · grind -ring -linarith [setCore, tick]
  | writeMem =>
    cases hb : (s.core s.ccu.initiator).writeBe b with
    | false => exact .inl (by simp [tick, hb])
    | true => exact .inr (.inl (by simp [stored_apply, tick, hb]))
  | _ => exact .inl rfl

/-- What the coherence unit has collected or still has to write stays with it until it is handed over. -/
theorem carried_step (h : s.Inv) (hf : s.Fresh) (e : Event N) {b : Fin 16}
    (hc : (s.step e).clock b = s.clock b)
    (hb : (s.ccu.phase = .snoop ∧ s.ccu.available = true ∧ s.ccu.dirty = true) ∨
      (s.ccu.phase = .writeBack ∧ s.ccu.landed = false ∧ s.ccu.data b = s.clock b)) :
    (s.step e).mem b = (s.step e).clock b ∨ (∃ j, ((s.step e).core j).dirtyAt b = true) ∨
    ((s.step e).ccu.phase = .snoop ∧ (s.step e).ccu.available = true ∧ (s.step e).ccu.dirty = true) ∨
    ((s.step e).ccu.phase = .writeBack ∧ (s.step e).ccu.landed = false ∧
      (s.step e).ccu.data b = (s.step e).clock b) := by
  have hcol := fun hp ha => congrFun (hf.collected hp ha).1 b
  have hm := s.moves e
  generalize s.step e = t at hm hc
  cases hm with
  | stay => exact .inr (.inr hb)
  | grantLine hp ha hk hd =>
    have hs := h.ccu.serving (by simp [hp]) (fun hw => by simp [hw, Kind.refill] at hk) (by simp [hp])
    have hk' := (h.ccu.served _ hs).2.2.1
    have hdirty : s.ccu.dirty = true := by simpa [hp, hd] using hb
    refine .inr (.inl ⟨s.ccu.initiator, ?_⟩)
    simp [goTo, grant, setCore, Core.dirtyAt, Core.held, Core.refilled, hk', hk, hdirty]
  | _ => grind -ring -linarith [setCore, goTo, grant, finish, finishWrite]

theorem latest_step (h : s.Inv) (hf : s.Fresh) (e : Event N) (b : Fin 16) :
    (s.step e).mem b = (s.step e).clock b ∨ (∃ j, ((s.step e).core j).dirtyAt b = true) ∨
    ((s.step e).ccu.phase = .snoop ∧ (s.step e).ccu.available = true ∧ (s.step e).ccu.dirty = true) ∨
    ((s.step e).ccu.phase = .writeBack ∧ (s.step e).ccu.landed = false ∧
      (s.step e).ccu.data b = (s.step e).clock b) := by
  rcases clock_step (s := s) e b with hc | hc | hc
  · rcases hf.latest b with hb | ⟨j, hb⟩ | hb
    · obtain ⟨h1, h2⟩ := mem_step h hf e b
      exact .inl (by omega)
    · rcases dirtyAt_step h hf e hb with hb | hb | hb
      · exact .inr (.inl ⟨j, hb⟩)
      · exact .inl hb
      · exact .inr (.inr (.inl hb))
    · exact carried_step h hf e hc hb
  · exact .inl hc
  · exact .inr (.inl hc)

theorem around_step (h : s.Inv) (hf : s.Fresh) (e : Event N) (hok : s.writesAbsent e)
    (hp : (s.step e).ccu.phase ≠ .idle) (hk : (s.step e).ccu.kind = .writeUnique) :
    ((s.step e).core (s.step e).ccu.initiator).held = none := by
  have hi := hf.around
  have hn := fun hp => hf.noRefill h hp s.ccu.initiator
  obtain ⟨h1, h2, h3, -, -⟩ := h.ok s.ccu.initiator
  have hm := s.moves e
  generalize s.step e = t at hm hp hk
  cases hm with
  | stay => exact hi hp hk
  | accept i => exact absurd hk (h.ccu.missed i)
  | acceptWrite i hi hw => simpa [setCore, Core.held, Core.refilled] using hok hi hw
  | _ => grind -ring -linarith [setCore, goTo, grant, finish, finishWrite, saved, Kind.refill, Core.held, Core.refilled]

theorem fresh_step (h : s.Inv) (hf : s.Fresh) (e : Event N) (hok : s.ordered e) : (s.step e).Fresh where
  mem b := (mem_step h hf e b).2
  held := held_step h hf e
  collected := collected_step h hf e
  pending := pending_step h hf e hok.2.2.1
  inFlight := writesCopy_step h hf.inFlight e hok.2.1
  taken := taken_step h hf e
  around := around_step h hf e hok.2.2.2
  latest := latest_step h hf e

theorem fresh_init (h : (machine N).init s) : s.Fresh := by
  obtain ⟨hc, hp, hm⟩ := h
  constructor <;> simp [hc, hp, hm, Core.reset, Core.held, Core.refilled]

theorem fresh_reachable (h : (machine N).Reachable ordered s) : s.Fresh := by
  refine Machine.Reachable.invariant_of (P := Inv) (fun s hr => ?_) (fun _ => fresh_init)
    (fun s e hi hf hok => fresh_step hi hf e hok) h
  exact inv_reachable (hr.mono fun _ _ hok => hok.1)

end State

section Runs

def byte3 : LineBe := fun b => b == 3

/-- Core 0 stores and evicts the line, core 1 takes it over after the write-back, stores and flushes it. -/
def evictedBeforeHandOver : List (Event 2) :=
  (serve 0 1 .readUnique byte3).append ([.save 0, .evict 0, .land 0, .written 0].append
    ((serve 1 0 .readUnique byte3).append [.save 1, .evict 1]))

/-- Core 0 stores and starts to write the line back; core 1 gets it by a snoop, stores, and
its own write-back is taken first. -/
def handedOverInFlight : List (Event 2) :=
  (serve 0 1 .readUnique byte3).append [.save 0, .evict 0, .request 1 .readUnique byte3, .accept 1, .answer 0,
    .resolve, .save 1, .evict 1, .land 1]

/-- Core 0 has the dirty line, core 1 reads it and upgrades its copy; it stores and writes the line back
before the coherence unit has written the data of core 0. -/
def upgradedBeforeWriteBack : List (Event 2) :=
  (serve 0 1 .readUnique byte3).append (.save 0 :: (serve 1 0 .readShared byte3).append (.save 1 ::
    (serve 1 0 .cleanUnique byte3).append [.upgraded 1, .store 1 byte3, .evict 1, .land 1]))

/-- Both cores own the line after one of them has hidden it from a snoop. -/
def ownedTwice : List (Event 2) :=
  askedBeforeSave.append
    [.answer 0, .resolve, .readMem, .save 1, .save 0, .store 0 byte3, .evict 0, .land 0, .evict 1]

/-- Core 0 has the dirty line when its cache is disabled; it stores past the cache, and flushes it then. -/
def bypassedStore : List (Event 2) :=
  (serve 0 1 .readUnique byte3).append [.save 0, .request 0 .writeUnique byte3, .acceptWrite 0, .answer 1, .resolve,
    .writeMem, .evict 0]

end Runs
end Culsans.Coherence.Protocol
