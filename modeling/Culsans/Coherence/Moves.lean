import Culsans.Coherence.Protocol

/-! # What one event can do

Every event either changes nothing or makes one of the moves below.
-/

namespace Culsans.Coherence.Protocol
open Dcache Library

variable {N : ℕ}

/-- The moves of the protocol, with what allows them. -/
inductive Moves (s : State N) : Event N → State N → Prop
  | stay (e : Event N) : Moves s e s
  | miss (i : Fin N) (k : Kind) (be : LineBe) (hs : (s.core i).stage = .idle) (hb : (s.core i).back = none)
      (hk : k ≠ .cleanUnique) (hw : k ≠ .writeUnique) (hc : (s.core i).copy = none) :
    Moves s (.request i k be) (s.setCore i { s.core i with
      stage := .asked, kind := k, be := be, collidingClean := false, collidingRead := false })
  | bypass (i : Fin N) (be : LineBe) (hs : (s.core i).write = .idle) :
    Moves s (.request i .writeUnique be) (s.setCore i { s.core i with write := .asked, writeBe := be })
  | upgrade (i : Fin N) (be : LineBe) (m : LineCopy) (hs : (s.core i).stage = .idle)
      (hb : (s.core i).back = none) (hc : (s.core i).copy = some m) (hm : m.shared = true)
      (hn : (s.core i).mayStore = false) :
    Moves s (.request i .cleanUnique be) (s.setCore i { s.core i with
      stage := .asked, kind := .cleanUnique, be := be, collidingClean := false, collidingRead := false })
  | recheck (i : Fin N) (hs : (s.core i).stage = .asked) (hk : (s.core i).kind = .cleanUnique)
      (hc : (s.core i).copy = none) : Moves s (.recheck i) (s.setCore i { s.core i with kind := .readUnique })
  | store (i : Fin N) (be : LineBe) (m : LineCopy) (hc : (s.core i).copy = some m)
      (hs : (s.core i).stage = .idle) (hb : (s.core i).back = none)
      (hm : m.shared = false ∨ (s.core i).mayStore = true) :
    Moves s (.store i be) { s.setCore i { s.core i with
      copy := some ⟨s.stored be m.data, fun b => be b || m.dirty b, false⟩, mayStore := false } with
      clock := tick be s.clock }
  | evict (i : Fin N) (m : LineCopy) (hc : (s.core i).copy = some m) (hs : (s.core i).stage = .idle)
      (hb : (s.core i).back = none) (hd : anyByte m.dirty = true) :
    Moves s (.evict i) (s.setCore i { s.core i with back := some ⟨m.dirty, m.data, false⟩, mayStore := false })
  | drop (i : Fin N) (m : LineCopy) (hc : (s.core i).copy = some m) (hs : (s.core i).stage = .idle)
      (hb : (s.core i).back = none) (hd : anyByte m.dirty = false) :
    Moves s (.drop i) (s.setCore i { s.core i with copy := none, mayStore := false })
  | land (i : Fin N) (w : Write) (hb : (s.core i).back = some w) (hl : w.landed = false) :
    Moves s (.land i) { s.setCore i { s.core i with back := some { w with landed := true } } with
      mem := merge w.mask w.data s.mem }
  | written (i : Fin N) (w : Write) (hb : (s.core i).back = some w) (hl : w.landed = true) :
    Moves s (.written i) (s.setCore i { s.core i with copy := none, back := none })
  | accept (i : Fin N) (hp : s.ccu.phase = .idle) (hs : (s.core i).stage = .asked) :
    Moves s (.accept i) { s.setCore i { s.core i with stage := .served } with
      ccu := ⟨.snoop, (s.core i).kind, i, fun j => j == i, false, fun _ => 0, false, false, false⟩ }
  | acceptWrite (i : Fin N) (hp : s.ccu.phase = .idle) (hs : (s.core i).write = .asked) :
    Moves s (.acceptWrite i) { s.setCore i { s.core i with write := .served } with
      ccu := ⟨.snoop, .writeUnique, i, fun j => j == i, false, fun _ => 0, false, false, false⟩ }
  | answerMiss (j : Fin N) (hp : s.ccu.phase = .snoop) (ha : s.ccu.answered j = false)
      (hc : (s.core j).copy = none) :
    Moves s (.answer j) { s with ccu := { s.ccu with answered := fun k => k == j || s.ccu.answered k } }
  | answerShared (j : Fin N) (m : LineCopy) (hp : s.ccu.phase = .snoop) (ha : s.ccu.answered j = false)
      (hc : (s.core j).copy = some m) (hk : s.ccu.kind = .readShared) :
    Moves s (.answer j) { s.setCore j { s.core j with
      copy := some { m with shared := true }, collidingRead := true, mayStore := false } with
      ccu := { s.ccu with
        answered := fun k => k == j || s.ccu.answered k, available := true, shared := true
        data := if s.ccu.available = false then m.data else s.ccu.data } }
  | answerInvalid (j : Fin N) (m : LineCopy) (hp : s.ccu.phase = .snoop) (ha : s.ccu.answered j = false)
      (hc : (s.core j).copy = some m) (hk : s.ccu.kind ≠ .readShared) :
    Moves s (.answer j) { s.setCore j { s.core j with
      copy := none, collidingClean := true, mayStore := false } with
      ccu := { s.ccu with
        answered := fun k => k == j || s.ccu.answered k
        available := s.ccu.available || (s.ccu.kind.refill || anyByte m.dirty)
        data := if !s.ccu.available && (s.ccu.kind.refill || anyByte m.dirty) then m.data else s.ccu.data
        dirty := s.ccu.dirty || anyByte m.dirty } }
  | grantLine (hp : s.ccu.phase = .snoop) (ha : ∀ j, s.ccu.answered j = true)
      (hk : s.ccu.kind.refill = true) (hd : s.ccu.available = true) :
    Moves s .resolve ((s.grant ⟨s.ccu.data, fun _ => s.ccu.dirty, s.ccu.shared⟩).goTo .idle)
  | grantUpgrade (p : Phase) (hp : s.ccu.phase = .snoop) (ha : ∀ j, s.ccu.answered j = true)
      (hk : s.ccu.kind = .cleanUnique)
      (hd : (s.ccu.available = true ∧ p = .writeBack) ∨ (s.ccu.available = false ∧ p = .idle)) :
    Moves s .resolve ((s.grant ⟨fun _ => 0, fun _ => false, false⟩).goTo p)
  | collect (p : Phase) (hp : s.ccu.phase = .snoop) (ha : ∀ j, s.ccu.answered j = true)
      (hk : s.ccu.kind ≠ .cleanUnique)
      (hd : (s.ccu.available = true ∧ s.ccu.kind.refill = false ∧ p = .writeBack) ∨
        (s.ccu.available = false ∧ (p = .read ∧ s.ccu.kind ≠ .writeUnique ∨ p = .write ∧ s.ccu.kind = .writeUnique))) :
    Moves s .resolve (s.goTo p)
  | landCcu (hp : s.ccu.phase = .writeBack) (hl : s.ccu.landed = false) :
    Moves s .landCcu { s with mem := s.ccu.data, ccu := { s.ccu with landed := true } }
  | writtenCcu (p : Phase) (hp : s.ccu.phase = .writeBack) (hl : s.ccu.landed = true)
      (hk : p = .read ∧ s.ccu.kind = .lr ∨ p = .write ∧ s.ccu.kind = .writeUnique ∨
        p = .idle ∧ (s.ccu.kind = .cleanUnique ∨ s.ccu.kind.refill = true)) : Moves s .writtenCcu (s.goTo p)
  | grantMem (hp : s.ccu.phase = .read) (hk : s.ccu.kind.refill = true) :
    Moves s .readMem ((s.grant ⟨s.mem, fun _ => false, false⟩).goTo .idle)
  | locked (hp : s.ccu.phase = .read) (hk : s.ccu.kind.refill = false) : Moves s .readMem (s.finish.goTo .idle)
  | writeMem (hp : s.ccu.phase = .write) :
    Moves s .writeMem { s.finishWrite.goTo .idle with
      mem := s.stored (s.core s.ccu.initiator).writeBe s.mem
      clock := tick (s.core s.ccu.initiator).writeBe s.clock }
  | save (i : Fin N) (hs : (s.core i).stage = .granted) (hk : (s.core i).kind.refill = true) :
    Moves s (.save i) { s.setCore i { s.core i with copy := some (s.saved i), stage := .idle } with
      clock := if (s.core i).kind = .readUnique then tick (s.core i).be s.clock else s.clock }
  | refetch (i : Fin N) (hs : (s.core i).stage = .granted) (hk : (s.core i).kind = .cleanUnique)
      (hc : (s.core i).collidingClean = true) :
    Moves s (.upgraded i) (s.setCore i { s.core i with stage := .asked, kind := .readUnique })
  | upgraded (i : Fin N) (hs : (s.core i).stage = .granted) (hk : (s.core i).kind = .cleanUnique)
      (hc : (s.core i).collidingClean = false) :
    Moves s (.upgraded i) (s.setCore i { s.core i with stage := .idle, mayStore := !(s.core i).collidingRead })

namespace State
variable {s : State N}

theorem free_iff {i : Fin N} : s.free i = true ↔ (s.core i).stage = .idle ∧ (s.core i).back = none := by
  simp [free]

theorem moves_resolve (hp : s.ccu.phase = .snoop) (ha : ∀ j, s.ccu.answered j = true) :
    Moves s .resolve s.resolved := by
  unfold resolved
  cases hk : s.ccu.kind with
  | readShared | readUnique =>
    simp only
    split_ifs with hd
    · exact .grantLine hp ha (by simp [hk, Kind.refill]) hd
    · exact .collect _ hp ha (by simp [hk]) (.inr ⟨by simpa using hd, .inl ⟨rfl, by simp [hk]⟩⟩)
  | cleanUnique =>
    simp only
    refine .grantUpgrade _ hp ha hk ?_
    cases hd : s.ccu.available <;> simp
  | lr =>
    refine .collect _ hp ha (by simp [hk]) ?_
    cases hd : s.ccu.available <;> simp [hk, Kind.refill]
  | writeUnique =>
    refine .collect _ hp ha (by simp [hk]) ?_
    cases hd : s.ccu.available <;> simp [hk, Kind.refill]

theorem moves_answer {j : Fin N} (hp : s.ccu.phase = .snoop) (ha : s.ccu.answered j = false) :
    Moves s (.answer j) { s.setCore j (s.snooped j) with ccu := s.collected j } := by
  cases hc : (s.core j).copy with
  | none =>
    have hans : s.answerOf j = ⟨.zero, .sendCrResp⟩ := by simp [answerOf, hc, evalFlags]
    have hcore : (s.setCore j (s.snooped j)).core = s.core := by
      funext k
      simp only [setCore, snooped, hans]
      split_ifs with hk
      · rw [hk]
      · rfl
    have hccu : s.collected j = { s.ccu with answered := fun k => k == j || s.ccu.answered k } := by
      simp [collected, hans, CrResp.zero]
    simp only [hcore, hccu]
    exact .answerMiss j hp ha hc
  | some m =>
    by_cases hk : s.ccu.kind = .readShared
    · have hans : s.answerOf j = ⟨⟨true, false, false, true⟩, .updateShared⟩ := by
        simp [answerOf, hc, evalFlags, hk, Kind.snoop]
      simpa [snooped, collected, hans, hc] using Moves.answerShared j m hp ha hc hk
    · have hans : s.answerOf j =
          ⟨⟨false, anyByte m.dirty, false, s.ccu.kind.refill || anyByte m.dirty⟩, .invalidate⟩ := by
        cases hkind : s.ccu.kind <;> simp_all [answerOf, evalFlags, Kind.snoop, Kind.refill]
      simpa [snooped, collected, hans, hc] using Moves.answerInvalid j m hp ha hc hk

theorem step_request {i : Fin N} {k : Kind} (be : LineBe) (hk : k ≠ .writeUnique) :
    s.step (.request i k be) = if s.canRequest i k then
      s.setCore i { s.core i with
        stage := .asked, kind := k, be := be, collidingClean := false, collidingRead := false }
    else s := by
  cases k <;> first | rfl | exact absurd rfl hk

theorem moves_request (i : Fin N) (k : Kind) (be : LineBe) :
    Moves s (.request i k be) (s.step (.request i k be)) := by
  by_cases hw : k = .writeUnique
  · subst hw
    simp only [step]
    split_ifs with h
    · exact .bypass i be h
    · exact .stay _
  rw [step_request be hw]
  split_ifs with h
  · rw [canRequest, Bool.and_eq_true, free_iff] at h
    obtain ⟨⟨hs, hb⟩, h⟩ := h
    cases hc : (s.core i).copy with
    | none =>
      simp only [hc, Bool.not_eq_true', Bool.or_eq_false_iff, beq_eq_false_iff_ne] at h
      exact .miss i k be hs hb h.1 hw hc
    | some m =>
      simp only [hc, Bool.and_eq_true, beq_iff_eq, Bool.not_eq_true'] at h
      obtain ⟨⟨rfl, hm⟩, hn⟩ := h
      exact .upgrade i be m hs hb hc hm hn
  · exact .stay _

/-- The inversion rule of the protocol. -/
theorem moves (s : State N) (e : Event N) : Moves s e (s.step e) := by
  cases e with
  | request i k be => exact moves_request i k be
  | recheck i =>
    simp only [step]
    split_ifs with h
    · exact .recheck i h.1 h.2.1 h.2.2
    · exact .stay _
  | store i be =>
    simp only [step]
    cases hc : (s.core i).copy with
    | none => exact .stay _
    | some m =>
      simp only
      split_ifs with h
      · rw [Bool.and_eq_true, free_iff, Bool.or_eq_true, Bool.not_eq_true'] at h
        exact .store i be m hc h.1.1 h.1.2 h.2
      · exact .stay _
  | evict i =>
    simp only [step]
    cases hc : (s.core i).copy with
    | none => exact .stay _
    | some m =>
      simp only
      split_ifs with h
      · rw [Bool.and_eq_true, free_iff] at h
        exact hc ▸ .evict i m hc h.1.1 h.1.2 h.2
      · exact .stay _
  | drop i =>
    simp only [step]
    cases hc : (s.core i).copy with
    | none => exact .stay _
    | some m =>
      simp only
      split_ifs with h
      · rw [Bool.and_eq_true, free_iff, Bool.not_eq_true'] at h
        exact .drop i m hc h.1.1 h.1.2 h.2
      · exact .stay _
  | land i =>
    simp only [step]
    cases hb : (s.core i).back with
    | none => exact .stay _
    | some w =>
      simp only
      split_ifs with h
      · exact .stay _
      · exact .land i w hb (by simpa using h)
  | written i =>
    simp only [step]
    cases hb : (s.core i).back with
    | none => exact .stay _
    | some w =>
      simp only
      split_ifs with h
      · exact .written i w hb h
      · exact .stay _
  | accept i =>
    simp only [step]
    split_ifs with h
    · exact .accept i h.1 h.2
    · exact .stay _
  | acceptWrite i =>
    simp only [step]
    split_ifs with h
    · exact .acceptWrite i h.1 h.2
    · exact .stay _
  | answer j =>
    simp only [step]
    split_ifs with h
    · exact moves_answer h.1 h.2
    · exact .stay _
  | resolve =>
    simp only [step]
    split_ifs with h
    · exact moves_resolve h.1 h.2
    · exact .stay _
  | landCcu =>
    simp only [step]
    split_ifs with h
    · exact .landCcu h.1 h.2
    · exact .stay _
  | writtenCcu =>
    simp only [step]
    split_ifs with h
    · cases hk : s.ccu.kind <;> exact .writtenCcu _ h.1 h.2 (by simp [hk, Kind.refill])
    · exact .stay _
  | readMem =>
    simp only [step]
    split_ifs with h hk
    · exact .grantMem h hk
    · exact .locked h (by simpa using hk)
    · exact .stay _
  | writeMem =>
    simp only [step]
    split_ifs with h
    · exact .writeMem h
    · exact .stay _
  | save i =>
    simp only [step]
    by_cases h : (s.core i).stage = .granted ∧ (s.core i).kind.refill = true
    · rw [if_pos h]
      exact .save i h.1 h.2
    · rw [if_neg h]
      exact .stay _
  | upgraded i =>
    simp only [step]
    split_ifs with h hc
    · exact .refetch i h.1 h.2 hc
    · exact .upgraded i h.1 h.2 (by simpa using hc)
    · exact .stay _

end State
end Culsans.Coherence.Protocol
