import Culsans.Coherence.Moves

/-! # Granted refills

`ccu_fsm` is free for the next transaction as soon as the last R beat is handed over; it
does not wait for RACK. A refill that is still on its way is not in the array, so a later
snoop does not find it. When no transaction is taken up in that window, what the cores
hold together with what is on its way to them is compatible at any time.
-/

namespace Culsans.Coherence.Protocol
open Dcache Library

namespace Core

/-- A refill has been granted and not yet saved. -/
def refilled (c : Core) : Bool := c.stage == .granted && c.kind.refill

/-- The copy a core holds or is about to save. -/
def held (c : Core) : Option LineCopy :=
  if c.refilled then some ⟨c.resp.data, c.resp.dirty, !(c.kind == .readUnique) && c.resp.shared⟩ else c.copy

theorem held_of_not_refilled {c : Core} (h : c.refilled = false) : c.held = c.copy := by
  simp [held, h]

/-- The core may store without asking, or will when its upgrade arrives. -/
def exclusive (c : Core) : Bool :=
  c.mayStore || (c.stage == .granted && c.kind == .cleanUnique && !c.collidingClean && !c.collidingRead) ||
    match c.held with
    | some m => !m.shared
    | none => false

/-- What the parts of a core's state have to do with each other. -/
structure Ok (c : Core) : Prop where
  absent : c.stage ≠ .idle → c.kind ≠ .cleanUnique → c.copy = none
  busy : c.stage ≠ .idle → c.back = none ∧ c.mayStore = false
  store : c.mayStore = true → c.copy ≠ none
  upgrade : c.stage ≠ .idle → c.kind = .cleanUnique → (c.collidingClean = true ↔ c.copy = none)
  leaving : c.back ≠ none → c.mayStore = false

theorem Ok.exclusive_held {c : Core} (h : c.Ok) (he : c.exclusive = true) : ∃ m, c.held = some m := by
  obtain ⟨h1, h2, h3, h4, h5⟩ := h
  cases hc : c.held with
  | some m => exact ⟨m, rfl⟩
  | none => grind -ring -linarith [exclusive, held, refilled]

/-- `c` holds no more of the line than `d` does. -/
def Within (c d : Core) : Prop :=
  (c.exclusive = true → d.exclusive = true) ∧
    ∀ m, c.held = some m → ∃ l, d.held = some l ∧ l.data = m.data ∧ l.dirty = m.dirty

/-- Unless it may store or waits for a refill, `c` holds no more of the line than `d` does, and may not store. -/
def Still (c d : Core) : Prop :=
  d.exclusive = false → d.refilled = false →
    c.exclusive = false ∧ ∀ m, c.copy = some m → ∃ l, d.copy = some l ∧ l.data = m.data

theorem Still.refl (c : Core) : c.Still c := fun he _ => ⟨he, fun m hm => ⟨m, hm, rfl⟩⟩

theorem Within.refl (c : Core) : c.Within c := ⟨id, fun m hm => ⟨m, hm, rfl, rfl⟩⟩

end Core

namespace State
variable {N : ℕ} {s : State N}

/-- The initiator of a WRITE_UNIQUE is not snooped, and keeps what it holds. -/
def aside (s : State N) (j : Fin N) : Prop := s.ccu.kind = .writeUnique ∧ j = s.ccu.initiator

/-- What the coherence unit stands for. -/
structure CcuOk (s : State N) : Prop where
  missed : ∀ i, (s.core i).kind ≠ .writeUnique
  served : ∀ i, (s.core i).stage = .served →
    s.ccu.phase ≠ .idle ∧ s.ccu.initiator = i ∧ (s.core i).kind = s.ccu.kind ∧
      (s.ccu.kind = .cleanUnique → s.ccu.phase = .snoop)
  serving : s.ccu.phase ≠ .idle → s.ccu.kind ≠ .writeUnique → (s.ccu.kind = .cleanUnique → s.ccu.phase = .snoop) →
    (s.core s.ccu.initiator).stage = .served
  own : s.ccu.phase = .snoop → s.ccu.answered s.ccu.initiator = true
  writeBack : s.ccu.phase = .writeBack → s.ccu.kind.refill = false
  write : s.ccu.phase = .write → s.ccu.kind = .writeUnique
  noRefill : s.ccu.phase ≠ .idle → ∀ j, ¬ s.aside j → (s.core j).refilled = false
  snooped : s.ccu.phase = .snoop → ∀ j, s.ccu.answered j = true → j ≠ s.ccu.initiator →
    (s.core j).exclusive = false ∧ (s.ccu.kind ≠ .readShared ∨ s.ccu.available = false → (s.core j).copy = none)
  quiet : s.ccu.phase = .read ∨ s.ccu.phase = .write ∨ (s.ccu.phase = .writeBack ∧ s.ccu.kind ≠ .cleanUnique) →
    ∀ j, ¬ s.aside j → (s.core j).copy = none
  shared : s.ccu.phase = .snoop → s.ccu.kind = .readShared → s.ccu.dirty = false ∧
    (s.ccu.available = true → s.ccu.shared = true ∧ ∀ j, (s.core j).exclusive = false ∧
      ∀ m, (s.core j).copy = some m → m.data = s.ccu.data)

/-- Among what the cores hold or will hold there is one owner, and one core that may store. -/
structure Compat (s : State N) : Prop where
  alone : ∀ {j k m}, (s.core j).exclusive = true → (s.core k).held = some m → j = k
  owner : ∀ {j k l m a b}, (s.core j).held = some l → l.dirty a = true → (s.core k).held = some m →
    m.dirty b = true → j = k
  agree : ∀ {j k l m}, (s.core j).held = some l → (s.core k).held = some m → l.data = m.data

structure Inv (s : State N) : Prop where
  ok : ∀ i, (s.core i).Ok
  ccu : s.CcuOk
  compat : s.Compat

/-- The coherence unit takes up no transaction of the line while a granted refill of it, by a core that it will
snoop, is not saved. -/
def acceptsSaved (s : State N) : Event N → Prop
  | .accept i => s.ccu.phase = .idle → (s.core i).stage = .asked → ∀ j, (s.core j).refilled = false
  | .acceptWrite i => s.ccu.phase = .idle → (s.core i).write = .asked → ∀ j, j ≠ i → (s.core j).refilled = false
  | _ => True

instance (s : State N) : ∀ e, Decidable (s.acceptsSaved e)
  | .accept i =>
    inferInstanceAs (Decidable (s.ccu.phase = .idle → (s.core i).stage = .asked → ∀ j, (s.core j).refilled = false))
  | .acceptWrite i =>
    inferInstanceAs
      (Decidable (s.ccu.phase = .idle → (s.core i).write = .asked → ∀ j, j ≠ i → (s.core j).refilled = false))
  | .request .. | .recheck _ | .store .. | .evict _ | .drop _ | .land _ | .written _ | .answer _ | .resolve
  | .landCcu | .writtenCcu | .readMem | .writeMem | .save _ | .upgraded _ => .isTrue trivial

/-- A core whose refill has been granted and not saved would answer the snoop in progress
with data. -/
def Visible (s : State N) : Prop :=
  ∀ i, (s.core i).refilled = true → s.ccu.phase = .snoop → s.ccu.answered i = false →
    (s.answerOf i).crResp.dataTransfer = true

/-- Two cores hold the same data, one of them at most may have dirty bytes, and both know that the
line is shared. -/
def Compatible (s : State N) : Prop :=
  ∀ j k l m, j ≠ k → (s.core j).copy = some l → (s.core k).copy = some m →
    l.data = m.data ∧ l.shared = true ∧ m.shared = true ∧ (anyByte l.dirty = false ∨ anyByte m.dirty = false)

/-! ## One event -/

theorem forall_setCore {P : Core → Prop} (h : ∀ j, P (s.core j)) {i : Fin N} {c : Core} (hc : P c) (j : Fin N) :
    P ((s.setCore i c).core j) := by
  simp only [setCore]
  split_ifs
  · exact hc
  · exact h j

theorem ok_granted {c : Core} (h : c.Ok) (hs : c.stage = .served) (r : LineCopy) :
    { c with stage := .granted, resp := r }.Ok := by
  have hne : c.stage ≠ .idle := by simp [hs]
  exact ⟨fun _ => h.absent hne, fun _ => h.busy hne, h.store, fun _ => h.upgrade hne, h.leaving⟩

theorem ok_finished {c : Core} (h : c.Ok) : { c with stage := .idle }.Ok where
  absent hne := absurd rfl hne
  busy hne := absurd rfl hne
  store := h.store
  upgrade hne := absurd rfl hne
  leaving := h.leaving

theorem ok_step (h : s.Inv) (e : Event N) (j : Fin N) : ((s.step e).core j).Ok := by
  have hm := s.moves e
  generalize s.step e = t at hm
  cases hm with
  | stay | answerMiss | collect | landCcu | writtenCcu => exact h.ok j
  | grantLine hp _ hk =>
    have hs := h.ccu.serving (by simp [hp]) (fun hw => by simp [hw, Kind.refill] at hk) (by simp [hp])
    exact forall_setCore h.ok (ok_granted (h.ok _) hs _) j
  | grantUpgrade _ hp _ hk =>
    have hs := h.ccu.serving (by simp [hp]) (by simp [hk]) (by simp [hp])
    exact forall_setCore h.ok (ok_granted (h.ok _) hs _) j
  | grantMem hp hk =>
    have hs := h.ccu.serving (by simp [hp]) (fun hw => by simp [hw, Kind.refill] at hk)
      fun hc => by simp [hc, Kind.refill] at hk
    exact forall_setCore h.ok (ok_granted (h.ok _) hs _) j
  | locked => exact forall_setCore h.ok (ok_finished (h.ok _)) j
  | bypass i | acceptWrite i =>
    obtain ⟨h1, h2, h3, h4, h5⟩ := h.ok i
    refine forall_setCore h.ok ?_ j
    exact ⟨h1, h2, h3, h4, h5⟩
  | writeMem =>
    obtain ⟨h1, h2, h3, h4, h5⟩ := h.ok s.ccu.initiator
    refine forall_setCore h.ok ?_ j
    exact ⟨h1, h2, h3, h4, h5⟩
  | miss i | upgrade i | recheck i | store i | evict i | drop i | land i | written i | accept i | answerShared i
  | answerInvalid i | save i | refetch i | upgraded i =>
    obtain ⟨h1, h2, h3, h4, h5⟩ := h.ok i
    refine forall_setCore h.ok ?_ j
    constructor <;> simp_all [Kind.refill]

theorem missed_step (h : s.Inv) (e : Event N) (i : Fin N) : ((s.step e).core i).kind ≠ .writeUnique := by
  have hi := h.ccu.missed
  have hm := s.moves e
  generalize s.step e = t at hm
  cases hm with
  | stay | answerMiss | collect | landCcu | writtenCcu => exact hi i
  | miss j k be hs hb hk hw hc => exact forall_setCore (P := fun c => c.kind ≠ .writeUnique) hi hw i
  | upgrade | recheck | refetch => exact forall_setCore (P := fun c => c.kind ≠ .writeUnique) hi (by simp) i
  | bypass j | store j | evict j | drop j | land j | written j | accept j | acceptWrite j | answerShared j
  | answerInvalid j | save j | upgraded j =>
    refine forall_setCore (P := fun c => c.kind ≠ .writeUnique) hi ?_ i
    exact hi j
  | grantLine | grantUpgrade | grantMem | locked | writeMem =>
    refine forall_setCore (P := fun c => c.kind ≠ .writeUnique) hi ?_ i
    exact hi s.ccu.initiator

theorem served_step (h : s.Inv) (e : Event N) (i : Fin N) (hs : ((s.step e).core i).stage = .served) :
    (s.step e).ccu.phase ≠ .idle ∧ (s.step e).ccu.initiator = i ∧ ((s.step e).core i).kind = (s.step e).ccu.kind ∧
      ((s.step e).ccu.kind = .cleanUnique → (s.step e).ccu.phase = .snoop) := by
  have hi := h.ccu.served i
  have hk := h.ccu.missed i
  have hw := h.ccu.writeBack
  have hwr := h.ccu.write
  have hv := h.ccu.serving
  have hm := s.moves e
  generalize s.step e = t at hm hs
  cases hm with
  | stay => exact hi hs
  | _ => grind -ring -linarith [setCore, goTo, grant, finish, finishWrite, Kind.refill]

theorem serving_step (h : s.Inv) (e : Event N) (hp : (s.step e).ccu.phase ≠ .idle)
    (hw : (s.step e).ccu.kind ≠ .writeUnique)
    (hk : (s.step e).ccu.kind = .cleanUnique → (s.step e).ccu.phase = .snoop) :
    ((s.step e).core (s.step e).ccu.initiator).stage = .served := by
  have hi := h.ccu.served
  have hv := h.ccu.serving
  have hm := s.moves e
  generalize s.step e = t at hm hp hw hk
  cases hm with
  | stay => exact hv hp hw hk
  | _ => grind -ring -linarith [setCore, goTo, grant, finish, finishWrite, Kind.refill]

theorem own_step (h : s.Inv) (e : Event N) (hp : (s.step e).ccu.phase = .snoop) :
    (s.step e).ccu.answered (s.step e).ccu.initiator = true := by
  have hi := h.ccu.own
  have hm := s.moves e
  generalize s.step e = t at hm hp
  cases hm with
  | stay => exact hi hp
  | _ => grind -ring -linarith [setCore, goTo, grant, finish, finishWrite]

theorem write_step (h : s.Inv) (e : Event N) (hp : (s.step e).ccu.phase = .write) :
    (s.step e).ccu.kind = .writeUnique := by
  have hi := h.ccu.write
  have hm := s.moves e
  generalize s.step e = t at hm hp
  cases hm with
  | stay => exact hi hp
  | _ => grind -ring -linarith [setCore, goTo, grant, finish, finishWrite]

theorem writeBack_step (h : s.Inv) (e : Event N) (hp : (s.step e).ccu.phase = .writeBack) :
    (s.step e).ccu.kind.refill = false := by
  have hi := h.ccu.writeBack
  have hm := s.moves e
  generalize s.step e = t at hm hp
  cases hm with
  | stay => exact hi hp
  | _ => grind -ring -linarith [setCore, goTo, grant, finish, finishWrite, Kind.refill]

theorem not_aside {j : Fin N} (h : j ≠ s.ccu.initiator) : ¬ s.aside j := fun ha => h ha.2

theorem not_aside_of_kind {j : Fin N} (h : s.ccu.kind ≠ .writeUnique) : ¬ s.aside j := fun ha => h ha.1

theorem noRefill_step (h : s.Inv) (e : Event N) (hok : s.acceptsSaved e) (hp : (s.step e).ccu.phase ≠ .idle)
    (j : Fin N) (hj : ¬ (s.step e).aside j) : ((s.step e).core j).refilled = false := by
  have hi := fun hp hj => h.ccu.noRefill hp j hj
  have hv := h.ccu.serving
  have hd := h.ccu.served s.ccu.initiator
  have hm := s.moves e
  generalize s.step e = t at hm hp hj
  cases hm with
  | stay => exact hi hp hj
  | accept i | acceptWrite i => grind -ring -linarith [setCore, acceptsSaved, aside, Core.refilled]
  | _ => grind -ring -linarith [setCore, goTo, grant, finish, finishWrite, aside, Core.refilled, Kind.refill]

theorem still_setCore {i : Fin N} {c : Core} (hc : c.Still (s.core i)) (j : Fin N) :
    ((s.setCore i c).core j).Still (s.core j) := by
  simp only [setCore]
  split_ifs with hj
  · rwa [hj]
  · exact .refl _

/-- While cores are snooped nothing is granted. -/
theorem still_step (h : s.Inv) (e : Event N) (hp : (s.step e).ccu.phase = .snoop) (j : Fin N) :
    ((s.step e).core j).Still (s.core j) := by
  have hm := s.moves e
  generalize s.step e = t at hm hp
  cases hm with
  | stay | answerMiss | collect | landCcu | writtenCcu => exact .refl _
  | grantLine | grantMem => cases hp
  | grantUpgrade p _ _ _ hd => rcases hd with ⟨-, rfl⟩ | ⟨-, rfl⟩ <;> cases hp
  | locked | writeMem => cases hp
  | miss i | bypass i | upgrade i | recheck i | store i | evict i | drop i | land i | written i | accept i
  | acceptWrite i | answerShared i | answerInvalid i | save i | refetch i | upgraded i =>
    refine still_setCore ?_ j
    obtain ⟨h1, h2, h3, h4, h5⟩ := h.ok i
    clear h
    grind -ring -linarith [Core.Still, Core.exclusive, Core.held, Core.refilled, Kind.refill]

theorem Core.Ok.not_exclusive {c : Core} (h : c.Ok) (hc : c.copy = none) (hr : c.refilled = false) :
    c.exclusive = false := by
  obtain ⟨-, -, h3, h4, -⟩ := h
  grind -ring -linarith [Core.exclusive, Core.held, Core.refilled]

theorem snooped_step (h : s.Inv) (e : Event N) (hp : (s.step e).ccu.phase = .snoop) (j : Fin N)
    (ha : (s.step e).ccu.answered j = true) (hj : j ≠ (s.step e).ccu.initiator) :
    ((s.step e).core j).exclusive = false ∧
      ((s.step e).ccu.kind ≠ .readShared ∨ (s.step e).ccu.available = false → ((s.step e).core j).copy = none) := by
  have hi := fun hp => h.ccu.snooped hp j
  have hn := fun hp hj => h.ccu.noRefill hp j (not_aside hj)
  have hstill := still_step h e hp j
  have hok := ok_step h e j
  have hm := s.moves e
  generalize s.step e = t at hm hp ha hj hstill hok
  -- a core that has answered before stays as it is
  have hkeep : s.ccu.phase = .snoop → s.ccu.answered j = true → j ≠ s.ccu.initiator →
      (t.core j).exclusive = false ∧
        (s.ccu.kind ≠ .readShared ∨ s.ccu.available = false → (t.core j).copy = none) := fun hp ha hj => by
    obtain ⟨he, hc⟩ := hi hp ha hj
    obtain ⟨he', hc'⟩ := hstill he (hn (by simp [hp]) hj)
    refine ⟨he', fun hk => ?_⟩
    cases hm : (t.core j).copy with
    | none => rfl
    | some m =>
      obtain ⟨l, hl, -⟩ := hc' m hm
      exact absurd ((hc hk).symm.trans hl) nofun
  cases hm with
  | stay | miss | bypass | upgrade | recheck | store | evict | drop | land | written | save | refetch | upgraded =>
    exact hkeep hp ha hj
  | accept i | acceptWrite i => exact absurd (by simpa using ha) hj
  | answerMiss i hsn _ hc | answerShared i m hsn _ hc | answerInvalid i m hsn _ hc =>
    by_cases hij : j = i
    · subst hij
      have hr := hn (by simp [hsn]) hj
      grind -ring -linarith [setCore, Core.exclusive, Core.held, Core.refilled, Core.Ok.not_exclusive]
    · obtain ⟨he, hc⟩ := hkeep hsn (by simpa [hij] using ha) hj
      refine ⟨he, fun hk => hc ?_⟩
      grind -ring -linarith
  | grantLine | grantMem | locked | writeMem => cases hp
  | grantUpgrade p _ _ _ hd => rcases hd with ⟨-, rfl⟩ | ⟨-, rfl⟩ <;> cases hp
  | collect p _ _ _ hd => rcases hd with ⟨-, -, rfl⟩ | ⟨-, ⟨rfl, -⟩ | ⟨rfl, -⟩⟩ <;> cases hp
  | landCcu hw => exact absurd (hw.symm.trans hp) (by decide)
  | writtenCcu p _ _ hd => rcases hd with ⟨rfl, -⟩ | ⟨rfl, -⟩ | ⟨rfl, -⟩ <;> cases hp

theorem quiet_step (h : s.Inv) (e : Event N)
    (hp : (s.step e).ccu.phase = .read ∨ (s.step e).ccu.phase = .write ∨
      ((s.step e).ccu.phase = .writeBack ∧ (s.step e).ccu.kind ≠ .cleanUnique)) (j : Fin N)
    (hj : ¬ (s.step e).aside j) :
    ((s.step e).core j).copy = none := by
  have hi := fun hp hj => h.ccu.quiet hp j hj
  have hs := fun hp => h.ccu.snooped hp j
  have hn := fun hp hj => h.ccu.noRefill hp j hj
  have hv := h.ccu.serving
  have hd := h.ccu.served s.ccu.initiator
  obtain ⟨h1, -, -, -, -⟩ := h.ok j
  have hm := s.moves e
  generalize s.step e = t at hm hp hj
  cases hm with
  | stay => exact hi hp hj
  | _ => grind -ring -linarith [setCore, goTo, grant, finish, finishWrite, aside, Kind.refill, Core.refilled]

/-- While cores are snooped the coherence unit only collects their responses. -/
theorem shared_collected_step (h : s.Inv) (e : Event N) (hp : (s.step e).ccu.phase = .snoop)
    (hk : (s.step e).ccu.kind = .readShared) :
    (s.step e).ccu.dirty = false ∧ ((s.step e).ccu.available = true → (s.step e).ccu.shared = true) := by
  have hi : s.ccu.phase = .snoop → s.ccu.kind = .readShared →
      s.ccu.dirty = false ∧ (s.ccu.available = true → s.ccu.shared = true) := fun hp hk =>
    ⟨(h.ccu.shared hp hk).1, fun ha => ((h.ccu.shared hp hk).2 ha).1⟩
  have hm := s.moves e
  generalize s.step e = t at hm hp hk
  cases hm with
  | stay | miss | bypass | upgrade | recheck | store | evict | drop | land | written | answerMiss | save | refetch
  | upgraded => exact hi hp hk
  | accept => exact ⟨rfl, nofun⟩
  | acceptWrite => cases hk
  | answerShared _ _ hsn => exact ⟨(hi hsn hk).1, fun _ => rfl⟩
  | answerInvalid _ _ _ _ _ hne => exact absurd hk hne
  | grantLine | grantMem | locked | writeMem => cases hp
  | grantUpgrade p _ _ _ hd => rcases hd with ⟨-, rfl⟩ | ⟨-, rfl⟩ <;> cases hp
  | collect p _ _ _ hd => rcases hd with ⟨-, -, rfl⟩ | ⟨-, ⟨rfl, -⟩ | ⟨rfl, -⟩⟩ <;> cases hp
  | landCcu hw => exact absurd (hw.symm.trans hp) (by decide)
  | writtenCcu p _ _ hd => rcases hd with ⟨rfl, -⟩ | ⟨rfl, -⟩ | ⟨rfl, -⟩ <;> cases hp

theorem shared_cores_step (h : s.Inv) (e : Event N) (hp : (s.step e).ccu.phase = .snoop)
    (hk : (s.step e).ccu.kind = .readShared) (ha : (s.step e).ccu.available = true) (j : Fin N) :
    ((s.step e).core j).exclusive = false ∧
      ∀ m, ((s.step e).core j).copy = some m → m.data = (s.step e).ccu.data := by
  have hi := fun hp hk ha => ((h.ccu.shared hp hk).2 ha).2 j
  have hn := fun hp hj => h.ccu.noRefill hp j hj
  have hstill := still_step h e hp j
  have hm := s.moves e
  generalize s.step e = t at hm hp hk ha hstill
  cases hm with
  | stay | answerMiss => exact hi hp hk ha
  | answerShared i l hsn _ hc =>
    have hall := fun ha => (h.ccu.shared hsn hk).2 ha
    have hks : s.ccu.kind ≠ .writeUnique := by simp [show s.ccu.kind = .readShared from hk]
    have hni := h.ccu.noRefill (by simp [hsn]) i (not_aside_of_kind hks)
    have hnj := h.ccu.noRefill (by simp [hsn]) j (not_aside_of_kind hks)
    -- the responder was the only one that could have been exclusive
    have hexcl : j ≠ i → (s.core j).exclusive = false := fun hne => by
      by_contra hex
      exact hne (h.compat.alone (by simpa using hex) ((Core.held_of_not_refilled hni).trans hc))
    have hagree : ∀ m, (s.core j).copy = some m → m.data = l.data := fun m hm =>
      h.compat.agree ((Core.held_of_not_refilled hnj).trans hm) ((Core.held_of_not_refilled hni).trans hc)
    have hdata := fun ha => ((hall ha).2 i).2 l hc
    obtain ⟨-, h2, -, -, -⟩ := h.ok j
    grind -ring -linarith [setCore, Core.exclusive, Core.held, Core.refilled]
  | answerInvalid _ _ _ _ _ hne => exact absurd hk hne
  | accept | acceptWrite | grantLine | grantMem | locked | writeMem => simp_all [goTo]
  | grantUpgrade p _ _ _ hd => rcases hd with ⟨-, rfl⟩ | ⟨-, rfl⟩ <;> cases hp
  | collect p _ _ _ hd => rcases hd with ⟨-, -, rfl⟩ | ⟨-, ⟨rfl, -⟩ | ⟨rfl, -⟩⟩ <;> cases hp
  | landCcu hw => exact absurd (hw.symm.trans hp) (by decide)
  | writtenCcu p _ _ hd => rcases hd with ⟨rfl, -⟩ | ⟨rfl, -⟩ | ⟨rfl, -⟩ <;> cases hp
  | miss | bypass | upgrade | recheck | store | evict | drop | land | written | save | refetch | upgraded =>
    -- only one core moves, and it stores nothing as it is not exclusive
    obtain ⟨he, hd⟩ := hi hp hk ha
    have hq := hn (by simp [show s.ccu.phase = .snoop from hp])
      (not_aside_of_kind (by simp [show s.ccu.kind = .readShared from hk]))
    obtain ⟨he', hc'⟩ := hstill he hq
    refine ⟨he', fun m hm => ?_⟩
    obtain ⟨l, hl, hdata⟩ := hc' m hm
    exact hdata ▸ hd l hl

theorem shared_step (h : s.Inv) (e : Event N) (hp : (s.step e).ccu.phase = .snoop)
    (hk : (s.step e).ccu.kind = .readShared) :
    (s.step e).ccu.dirty = false ∧ ((s.step e).ccu.available = true → (s.step e).ccu.shared = true ∧
      ∀ j, ((s.step e).core j).exclusive = false ∧
        ∀ m, ((s.step e).core j).copy = some m → m.data = (s.step e).ccu.data) := by
  obtain ⟨hdirty, hshared⟩ := shared_collected_step h e hp hk
  exact ⟨hdirty, fun ha => ⟨hshared ha, shared_cores_step h e hp hk ha⟩⟩

theorem within_setCore {i : Fin N} {c : Core} (hc : c.Within (s.core i)) (j : Fin N) :
    ((s.setCore i c).core j).Within (s.core j) := by
  simp only [setCore]
  split_ifs with hj
  · rwa [hj]
  · exact .refl _

theorem Compat.within {t : State N} (h : s.Compat) (hw : ∀ j, (t.core j).Within (s.core j)) : t.Compat where
  alone hj hk := by
    obtain ⟨l, hl, -, -⟩ := (hw _).2 _ hk
    exact h.alone ((hw _).1 hj) hl
  owner hj ha hk hb := by
    obtain ⟨l, hl, -, hld⟩ := (hw _).2 _ hj
    obtain ⟨m, hm, -, hmd⟩ := (hw _).2 _ hk
    exact h.owner hl (hld ▸ ha) hm (hmd ▸ hb)
  agree hj hk := by
    obtain ⟨l, hl, hld, -⟩ := (hw _).2 _ hj
    obtain ⟨m, hm, hmd, -⟩ := (hw _).2 _ hk
    exact hld ▸ hmd ▸ h.agree hl hm

theorem Compat.sole {t : State N} (hok : ∀ i, (t.core i).Ok) (i : Fin N)
    (h : ∀ j, j ≠ i → (t.core j).held = none) : t.Compat := by
  have hi : ∀ {j m}, (t.core j).held = some m → j = i := fun hj => by
    by_contra hne
    simp [h _ hne] at hj
  refine ⟨fun hj hk => ?_, fun hj _ hk _ => by rw [hi hj, hi hk], fun hj hk => ?_⟩
  · obtain ⟨m, hm⟩ := (hok _).exclusive_held hj
    rw [hi hm, hi hk]
  · rw [hi hj] at hj
    rw [hi hk, hj] at hk
    exact congrArg Copy.data (Option.some.inj hk)

theorem Compat.others {i j : Fin N} (h : s.Compat) (hi : (s.core i).exclusive = true) (hj : j ≠ i) :
    (s.core j).held = none := by
  cases hc : (s.core j).held with
  | none => rfl
  | some m => exact absurd (h.alone hi hc).symm hj

theorem compat_grantShared (h : s.Inv) (hp : s.ccu.phase = .snoop) (hk : s.ccu.kind = .readShared)
    (hd : s.ccu.available = true) :
    ((s.grant ⟨s.ccu.data, fun _ => s.ccu.dirty, s.ccu.shared⟩).goTo .idle).Compat := by
  obtain ⟨hdirty, hsh⟩ := h.ccu.shared hp hk
  obtain ⟨hshared, hall⟩ := hsh hd
  have hs := h.ccu.serving (by simp [hp]) (by simp [hk]) (by simp [hp])
  have hk' := (h.ccu.served _ hs).2.2.1
  have hn := fun j => h.ccu.noRefill (by simp [hp]) j (not_aside_of_kind (by simp [hk]))
  -- the initiator gets a clean shared copy of the data every other holder has
  have hi : (((s.grant ⟨s.ccu.data, fun _ => s.ccu.dirty, s.ccu.shared⟩).goTo .idle).core s.ccu.initiator).held
      = some ⟨s.ccu.data, fun _ => false, true⟩ := by
    simp [goTo, grant, setCore, Core.held, Core.refilled, hk', hk, Kind.refill, hdirty, hshared]
  have hj : ∀ {j}, j ≠ s.ccu.initiator →
      ((s.grant ⟨s.ccu.data, fun _ => s.ccu.dirty, s.ccu.shared⟩).goTo .idle).core j = s.core j := fun hj => by
    simp [goTo, grant, setCore, hj]
  have hex : ∀ j, (((s.grant ⟨s.ccu.data, fun _ => s.ccu.dirty, s.ccu.shared⟩).goTo .idle).core j).exclusive =
    false := by
    intro j
    by_cases h' : j = s.ccu.initiator
    · subst h'
      have hb := (h.ok s.ccu.initiator).busy (by simp [hs])
      rw [Core.exclusive, hi]
      simp [goTo, grant, setCore, hb.2, hk', hk]
    · rw [hj h']
      exact (hall j).1
  have hdata : ∀ {j m}, (((s.grant ⟨s.ccu.data, fun _ => s.ccu.dirty, s.ccu.shared⟩).goTo .idle).core j).held = some m →
      m.data = s.ccu.data ∧ (∀ b, m.dirty b = true → (s.core j).held = some m) := by
    intro j m hm
    by_cases h' : j = s.ccu.initiator
    · subst h'
      rw [hi] at hm
      cases hm
      simp
    · rw [hj h'] at hm
      refine ⟨(hall j).2 m ?_, fun _ _ => hm⟩
      rwa [← Core.held_of_not_refilled (hn j)]
  refine ⟨fun h1 => by simp [hex] at h1, fun h1 ha h2 hb => ?_, fun h1 h2 => by rw [(hdata h1).1, (hdata h2).1]⟩
  exact h.compat.owner ((hdata h1).2 _ ha) ha ((hdata h2).2 _ hb) hb

theorem compat_step (h : s.Inv) (e : Event N) (hok : ∀ i, ((s.step e).core i).Ok) : (s.step e).Compat := by
  have hm := s.moves e
  have hal := h.compat
  generalize s.step e = t at hm hok
  cases hm with
  | stay => exact hal
  | collect | landCcu | writtenCcu | answerMiss => exact hal.within fun j => .refl _
  | miss i | bypass i | upgrade i | recheck i | evict i | drop i | land i | accept i | acceptWrite i
  | refetch i | upgraded i | written i | answerShared i | answerInvalid i =>
    refine hal.within (within_setCore ?_)
    obtain ⟨h1, h2, h3, h4, h5⟩ := h.ok i
    clear hal h hok
    grind -ring -linarith [Core.Within, Core.exclusive, Core.held, Core.refilled, Kind.refill]
  | locked | writeMem =>
    refine hal.within (within_setCore ?_)
    obtain ⟨h1, h2, h3, h4, h5⟩ := h.ok s.ccu.initiator
    clear hal h hok
    grind -ring -linarith [Core.Within, Core.exclusive, Core.held, Core.refilled, Kind.refill]
  | store i be m hc hs hb hm =>
    refine .sole hok i fun j hj => ?_
    have hex : (s.core i).exclusive = true := by
      rcases hm with hm | hm <;> simp [Core.exclusive, Core.held, Core.refilled, hs, hc, hm]
    simpa [setCore, hj] using hal.others hex hj
  | grantMem hp hk =>
    refine .sole hok s.ccu.initiator fun j hj => ?_
    have hc := h.ccu.quiet (.inl hp) j (not_aside hj)
    simpa [goTo, grant, setCore, hj, Core.held_of_not_refilled (h.ccu.noRefill (by simp [hp]) j (not_aside hj))]
      using hc
  | grantUpgrade p hp ha hk =>
    refine .sole hok s.ccu.initiator fun j hj => ?_
    have hc := (h.ccu.snooped hp j (ha j) hj).2 (.inl (by simp [hk]))
    simpa [goTo, grant, setCore, hj, Core.held_of_not_refilled (h.ccu.noRefill (by simp [hp]) j (not_aside hj))]
      using hc
  | grantLine hp ha hk hd =>
    by_cases hks : s.ccu.kind = .readShared
    · exact compat_grantShared h hp hks hd
    · refine .sole hok s.ccu.initiator fun j hj => ?_
      have hc := (h.ccu.snooped hp j (ha j) hj).2 (.inl hks)
      simpa [goTo, grant, setCore, hj, Core.held_of_not_refilled (h.ccu.noRefill (by simp [hp]) j (not_aside hj))]
        using hc
  | save i hs hk =>
    by_cases hku : (s.core i).kind = .readUnique
    · refine .sole hok i fun j hj => ?_
      have hex : (s.core i).exclusive = true := by
        simp [Core.exclusive, Core.held, Core.refilled, hs, hku, Kind.refill]
      simpa [setCore, hj] using hal.others hex hj
    · refine hal.within fun j => ?_
      obtain ⟨-, h2, -, -, -⟩ := h.ok j
      grind -ring -linarith [Core.Within, setCore, saved, Kind.refill, Core.exclusive, Core.held, Core.refilled]

theorem inv_step (h : s.Inv) (e : Event N) (hok : s.acceptsSaved e) : (s.step e).Inv where
  ok := ok_step h e
  ccu := ⟨missed_step h e, served_step h e, serving_step h e, own_step h e, writeBack_step h e, write_step h e,
    noRefill_step h e hok, snooped_step h e, quiet_step h e, shared_step h e⟩
  compat := compat_step h e (ok_step h e)

theorem inv_init (h : (machine N).init s) : s.Inv := by
  obtain ⟨hc, hp, -⟩ := h
  have hheld : ∀ i, (s.core i).held = none := fun i => by simp [hc, Core.held, Core.refilled, Core.reset]
  have hex : ∀ i, (s.core i).exclusive = false := fun i => by
    rw [Core.exclusive, hheld]
    simp [hc, Core.reset]
  refine ⟨fun i => ?_, ?_, ?_⟩
  · constructor <;> simp [hc, Core.reset]
  · constructor <;> simp [hp, hc, Core.reset]
  · constructor <;> simp [hheld, hex]

theorem inv_reachable (h : (machine N).Reachable acceptsSaved s) : s.Inv :=
  h.invariant (fun _ => inv_init) (fun _ e hs => inv_step hs e)

/-! ## All runs -/

theorem Inv.visible (h : s.Inv) : s.Visible := fun i hr hp ha => by
  have hi : i ≠ s.ccu.initiator := by
    rintro rfl
    simp [h.ccu.own hp] at ha
  simp [h.ccu.noRefill (by simp [hp]) i (not_aside hi)] at hr

theorem Inv.compatible (h : s.Inv) : s.Compatible := by
  -- a copy in the array is what its core holds: a core that waits for a refill has none
  have hheld : ∀ {j m}, (s.core j).copy = some m → (s.core j).held = some m := fun {j m} hm => by
    obtain ⟨h1, -, -, -, -⟩ := h.ok j
    grind -ring -linarith [Core.held, Core.refilled, Kind.refill]
  have hshared : ∀ {j k l m}, j ≠ k → (s.core j).copy = some l → (s.core k).copy = some m → l.shared = true :=
    fun {j k l m} hne hl hm => by
      by_contra hsh
      exact hne (h.compat.alone (by simp [Core.exclusive, hheld hl, hsh]) (hheld hm))
  intro j k l m hne hl hm
  refine ⟨h.compat.agree (hheld hl) (hheld hm), hshared hne hl hm, hshared hne.symm hm hl, ?_⟩
  by_contra hd
  simp only [not_or, Bool.not_eq_false, anyByte_iff] at hd
  obtain ⟨⟨a, ha⟩, b, hb⟩ := hd
  exact hne (h.compat.owner (hheld hl) ha (hheld hm) hb)

theorem Inv.absent_of_refilled (h : s.Inv) {j : Fin N} (hj : (s.core j).refilled = true) : (s.core j).copy = none := by
  obtain ⟨h1, -, -, -, -⟩ := h.ok j
  grind -ring -linarith [Core.refilled, Kind.refill]

/-- A transaction taken up while a refill is on its way finds the line nowhere. -/
theorem Inv.hidden (h : s.Inv) {e : Event N} (hok : ¬ s.acceptsSaved e) : ¬ (s.step e).Visible := by
  cases e with
  | accept i =>
    simp only [acceptsSaved, Classical.not_imp, not_forall, Bool.not_eq_false] at hok
    obtain ⟨hp, hs, j, hj⟩ := hok
    have hne : j ≠ i := fun hji => by simp [hji, Core.refilled, hs] at hj
    have hc := h.absent_of_refilled hj
    intro hv
    have := hv j
    simp [step, hp, hs, setCore, hne, hj, answerOf, hc, evalFlags, CrResp.zero] at this
  | acceptWrite i =>
    simp only [acceptsSaved, Classical.not_imp, not_forall, Bool.not_eq_false] at hok
    obtain ⟨hp, hs, j, hne, hj⟩ := hok
    have hc := h.absent_of_refilled hj
    intro hv
    have := hv j
    simp [step, hp, hs, setCore, hne, hj, answerOf, hc, evalFlags, CrResp.zero] at this
  | _ => exact absurd trivial hok

end State

section Runs

/-- After reset. -/
def initial : State 2 :=
  ⟨fun _ => .reset, ⟨.idle, .readShared, 0, fun _ => false, false, fun _ => 0, false, false, false⟩, fun _ => 0,
    fun _ => 0⟩

theorem initial_init : (machine 2).init initial := ⟨fun _ => rfl, rfl, rfl⟩

/-- A transaction of core `i` up to the response, with core `j` snooped. -/
def serve (i j : Fin 2) (k : Kind) (be : LineBe) : List (Event 2) :=
  [.request i k be, .accept i, .answer j, .resolve, .readMem]

/-- Core 1 reads the line for writing, core 0 reads it afterwards. -/
def readAfterWrite : List (Event 2) :=
  serve 1 0 .readUnique (fun b => b == 3) ++ [.save 1] ++ serve 0 1 .readShared (fun _ => false) ++ [.save 0]

/-- Core 1 asks for the line when core 0 has been granted it and not saved it. -/
def askedBeforeSave : List (Event 2) :=
  serve 0 1 .readShared (fun _ => false) ++ [.request 1 .readUnique fun b => b == 3, .accept 1]

end Runs
end Culsans.Coherence.Protocol
