import Culsans.Core.Scoreboard

/-! # The scoreboard as an in-order queue

The issued entries are the slots from the first commit pointer on, as many as the counter
says. Every instruction gets a number when it is issued; the numbers of what has been
committed and of what is in the queue are in order.
-/

namespace Culsans.Core
open Library

namespace Scoreboard
variable {b p : ℕ} {q : Scoreboard b} {i : SbIn b p}

/-- What the commit stage and the issue stage promise. -/
structure Ok (q : Scoreboard b) (i : SbIn b p) : Prop where
  valid : ∀ k, i.commitAck k = true → (q.commitInstr k).valid = true
  first : i.commitAck 1 = true → i.commitAck 0 = true
  issue : i.issueAck = true → q.issueInstrValid i = true

instance (q : Scoreboard b) (i : SbIn b p) : Decidable (q.Ok i) :=
  decidable_of_iff ((∀ k, i.commitAck k = true → (q.commitInstr k).valid = true) ∧
    (i.commitAck 1 = true → i.commitAck 0 = true) ∧ (i.issueAck = true → q.issueInstrValid i = true))
    ⟨fun h => ⟨h.1, h.2.1, h.2.2⟩, fun h => ⟨h.valid, h.first, h.issue⟩⟩

/-- The slots of the queue, oldest first. -/
def queue (q : Scoreboard b) : List (BitVec (b + 1)) := slots (q.commitPointer 0) q.issueCnt.toNat

/-- How many instructions are committed. -/
def commits (i : SbIn b p) : ℕ := (i.commitAck 0).toNat + (i.commitAck 1).toNat

structure Inv (q : Scoreboard b) : Prop where
  cnt : q.issueCnt.toNat ≤ 2 ^ (b + 1)
  issued : ∀ j, (q.mem j).issued = true ↔ j ∈ q.queue
  issuePointer : q.issuePointer = q.commitPointer 0 + BitVec.ofNat (b + 1) q.issueCnt.toNat
  second : q.commitPointer 1 = q.commitPointer 0 + 1 ∨ q.issueCnt.toNat = 0
  valid : ∀ j, (q.mem j).sbe.valid = true → (q.mem j).issued = true

/-! ### The entries -/

theorem memIssue_eq (j : BitVec (b + 1)) : q.memIssue i j =
    if q.issueEn i = true ∧ j = q.issuePointer then ⟨true, i.decodedInstr.op.rdFpr, i.decodedInstr⟩ else q.mem j := by
  unfold memIssue
  cases q.issueEn i
  · simp
  · by_cases hj : j = q.issuePointer <;> simp [hj]

/-- A write-back touches nothing but the issued entry it addresses. -/
theorem writeBack_of_ne (m : BitVec (b + 1) → SbMem b) (wb : WbPort b) (j : BitVec (b + 1))
    (h : (q.mem j).issued = false ∨ wb.wtValid = false ∨ wb.transId ≠ j) : q.writeBack i m wb j = m j := by
  unfold writeBack
  split_ifs with hw
  · rw [Bool.and_eq_true] at hw
    refine Function.update_of_ne (fun hj => ?_) ..
    subst hj
    rcases h with h | h | h
    · exact absurd (hw.2.symm.trans h) (by decide)
    · exact absurd (hw.1.symm.trans h) (by decide)
    · exact absurd rfl h
  · rfl

/-- What a result does not change stays over all ports. -/
theorem foldl_writeBack_same {α : Type*} (f : SbMem b → α)
    (hf : ∀ m old t wb x, f (SbMem.writeResult m old t wb x) = f m) (l : List (WbPort b))
    (m : BitVec (b + 1) → SbMem b) (j : BitVec (b + 1)) : f (l.foldl (q.writeBack i) m j) = f (m j) := by
  induction l generalizing m with
  | nil => rfl
  | cons wb l ih =>
    refine (ih _).trans ?_
    unfold writeBack
    split_ifs
    · by_cases hj : j = wb.transId
      · subst hj
        rw [Function.update_self, hf]
      · rw [Function.update_of_ne hj]
    · rfl

theorem foldl_writeBack_of_ne (l : List (WbPort b)) (m : BitVec (b + 1) → SbMem b) (j : BitVec (b + 1))
    (h : (q.mem j).issued = false ∨ ∀ wb ∈ l, wb.wtValid = true → wb.transId ≠ j) :
    l.foldl (q.writeBack i) m j = m j := by
  induction l generalizing m with
  | nil => rfl
  | cons wb l ih =>
    have hl : (q.mem j).issued = false ∨ ∀ wb ∈ l, wb.wtValid = true → wb.transId ≠ j :=
      h.imp_right fun hwb v hv => hwb v (List.mem_cons_of_mem _ hv)
    have hfirst : (q.mem j).issued = false ∨ wb.wtValid = false ∨ wb.transId ≠ j := by
      rcases h with h | h
      · exact .inl h
      · cases hv : wb.wtValid
        · exact .inr (.inl rfl)
        · exact .inr (.inr (h wb (List.mem_cons_self ..) hv))
    exact (ih _ hl).trans (writeBack_of_ne m wb j hfirst)

/-- Slot `j` is committed. -/
def Retired (q : Scoreboard b) (i : SbIn b p) (j : BitVec (b + 1)) : Prop :=
  (i.commitAck 0 = true ∧ j = q.commitPointer 0) ∨ (i.commitAck 1 = true ∧ j = q.commitPointer 1)

/-- Entries that are not committed keep what the write-back left. -/
theorem memCommit_eq (j : BitVec (b + 1)) : (q.Retired i j → q.memCommit i j = (q.memWb i j).retire) ∧
    (¬ q.Retired i j → q.memCommit i j = q.memWb i j) := by
  have hfold : q.memCommit i = [0, 1].foldl (q.commitPort i) (q.memWb i) := rfl
  rw [hfold]
  simp only [List.foldl_cons, List.foldl_nil, commitPort]
  unfold Retired
  by_cases h0 : i.commitAck 0 = true ∧ j = q.commitPointer 0 <;>
    by_cases h1 : i.commitAck 1 = true ∧ j = q.commitPointer 1
  · obtain ⟨ha, rfl⟩ := h0
    refine ⟨fun _ => ?_, fun hn => absurd (.inl ⟨ha, rfl⟩) hn⟩
    rw [if_pos h1.1, ← h1.2, Function.update_self, if_pos ha, Function.update_self]
    rfl
  · obtain ⟨ha, rfl⟩ := h0
    refine ⟨fun _ => ?_, fun hn => absurd (.inl ⟨ha, rfl⟩) hn⟩
    rw [if_pos ha]
    split_ifs with hb
    · rw [Function.update_of_ne (fun he => h1 ⟨hb, he⟩), Function.update_self]
    · rw [Function.update_self]
  · refine ⟨fun _ => ?_, fun hn => absurd (.inr h1) hn⟩
    rw [if_pos h1.1, ← h1.2, Function.update_self]
    split_ifs with ha
    · rw [Function.update_of_ne fun he => h0 ⟨ha, he⟩]
    · rfl
  · refine ⟨fun hr => absurd hr (by tauto), fun _ => ?_⟩
    split_ifs with hb ha ha
    · rw [Function.update_of_ne fun he => h1 ⟨hb, he⟩, Function.update_of_ne fun he => h0 ⟨ha, he⟩]
    · rw [Function.update_of_ne fun he => h1 ⟨hb, he⟩]
    · rw [Function.update_of_ne fun he => h0 ⟨ha, he⟩]
    · rfl

/-- An entry is issued if it was or is being issued, until it is committed or flushed. -/
theorem memN_issued (j : BitVec (b + 1)) : (q.memN i j).issued = true ↔ i.flush = false ∧ ¬ q.Retired i j ∧
    ((q.issueEn i = true ∧ j = q.issuePointer) ∨ (q.mem j).issued = true) := by
  have hwb : (q.memWb i j).issued = (q.memIssue i j).issued := by
    rw [memWb, foldl_writeBack_same SbMem.issued fun _ _ _ _ _ => rfl, memNone]
    split_ifs <;> rfl
  have hissue : (q.memIssue i j).issued = true ↔
      (q.issueEn i = true ∧ j = q.issuePointer) ∨ (q.mem j).issued = true := by
    rw [memIssue_eq]
    split_ifs with h
    · simp [h]
    · simp [h]
  unfold memN
  cases hf : i.flush
  · by_cases hr : q.Retired i j
    · simp [(memCommit_eq j).1 hr, SbMem.retire, hr]
    · simp [(memCommit_eq j).2 hr, hwb, hissue, hr]
  · simp [SbMem.flushed]

/-- Valid entries are issued. -/
theorem memN_valid (h : q.Inv) (j : BitVec (b + 1)) (hv : (q.memN i j).sbe.valid = true) :
    (q.memN i j).issued = true := by
  have hflush : i.flush = false := by
    by_contra hf
    rw [memN, if_pos (by simpa using hf)] at hv
    exact absurd hv (by simp [SbMem.flushed])
  have hret : ¬ q.Retired i j := by
    intro hr
    simp [memN, hflush, (memCommit_eq j).1 hr, SbMem.retire] at hv
  rw [memN_issued]
  refine ⟨hflush, hret, ?_⟩
  by_contra hnone
  rw [not_or, Bool.not_eq_true] at hnone
  have hwb : q.memWb i j = q.mem j := by
    rw [memWb, foldl_writeBack_of_ne _ _ _ (.inl hnone.2), memNone]
    simp only [hnone.2, Bool.false_eq_true, and_false, if_false, memIssue_eq, if_neg hnone.1]
  have hold : (q.mem j).sbe.valid = true := by
    simpa [memN, hflush, (memCommit_eq j).2 hret, hwb] using hv
  exact absurd ((h.valid j hold).symm.trans hnone.2) (by decide)

/-! ### The counters -/

theorem numCommit_toNat (i : SbIn b p) : (numCommit i).toNat = commits i := by
  unfold numCommit commits
  cases i.commitAck 0 <;> cases i.commitAck 1 <;> rfl

theorem numCommit_setWidth (i : SbIn b p) (n : ℕ) : (numCommit i).setWidth n = BitVec.ofNat n (commits i) := by
  rw [← numCommit_toNat, BitVec.ofNat_toNat]

theorem issueEn_setWidth (n : ℕ) :
    (BitVec.ofBool (q.issueEn i)).setWidth n = BitVec.ofNat n (q.issueEn i).toNat := by
  rw [← BitVec.ofNat_toNat]
  cases q.issueEn i <;> rfl

theorem commits_le_two (i : SbIn b p) : commits i ≤ 2 := by
  unfold commits
  cases i.commitAck 0 <;> cases i.commitAck 1 <;> decide

/-- The counter is full when it has reached the number of entries. -/
theorem issueFull_iff (h : q.issueCnt.toNat ≤ 2 ^ (b + 1)) : q.issueFull = true ↔ q.issueCnt.toNat = 2 ^ (b + 1) := by
  have hlt := q.issueCnt.isLt
  have hpow : 2 ^ (b + 2) = 2 * 2 ^ (b + 1) := by rw [Nat.pow_succ, Nat.mul_comm]
  rw [issueFull, BitVec.getLsbD, Nat.testBit_eq_decide_div_mod_eq, decide_eq_true_eq]
  constructor
  · intro hd
    by_contra hne
    rw [Nat.div_eq_of_lt (by omega)] at hd
    exact absurd hd (by decide)
  · intro he
    rw [he, Nat.div_self (Nat.two_pow_pos _)]

/-- Only instructions that are in the queue are committed. -/
theorem commits_le (hok : q.Ok i) (h : q.Inv) : commits i ≤ q.issueCnt.toNat := by
  have hmem (k : Fin 2) (hk : i.commitAck k = true) : (q.commitPointer k - q.commitPointer 0).toNat <
      q.issueCnt.toNat :=
    mem_slots.mp ((h.issued _).mp (h.valid _ (hok.valid k hk)))
  cases h1 : i.commitAck 1
  · cases h0 : i.commitAck 0
    · simp [commits, h0, h1]
    · have hpos := hmem 0 h0
      simp only [commits, h0, h1, Bool.toNat_true, Bool.toNat_false]
      omega
  · have hlt := hmem 1 h1
    rcases h.second with hp | hp
    · have hone : q.commitPointer 1 - q.commitPointer 0 = BitVec.ofNat (b + 1) 1 := by
        rw [hp, BitVec.add_comm, BitVec.add_sub_cancel]
        rfl
      rw [hone, BitVec.toNat_ofNat, Nat.mod_eq_of_lt (Nat.one_lt_two_pow (Nat.succ_ne_zero b))] at hlt
      exact (commits_le_two i).trans hlt
    · omega

/-- Nothing is issued into a full queue. -/
theorem lt_of_issueEn (h : q.issueCnt.toNat ≤ 2 ^ (b + 1)) (he : q.issueEn i = true) :
    q.issueCnt.toNat < 2 ^ (b + 1) := by
  have hfull : q.issueFull = false := by
    simp only [issueEn, decodedInstrAck, Bool.and_eq_true, Bool.not_eq_true'] at he
    exact he.1.2.2
  have hne := (issueFull_iff h).not.mp (by simp [hfull])
  omega

/-- Without a flush the counter moves as the queue does. -/
theorem issueCnt_step (hok : q.Ok i) (h : q.Inv) (hf : i.flush = false) :
    (q.step i).issueCnt.toNat = q.issueCnt.toNat - commits i + (q.issueEn i).toNat := by
  have hle := commits_le hok h
  have hcnt := h.cnt
  have hpow : 2 ^ (b + 2) = 2 * 2 ^ (b + 1) := by rw [Nat.pow_succ, Nat.mul_comm]
  have htwo := commits_le_two i
  have hpos := Nat.two_pow_pos (b + 1)
  have hen : (q.issueEn i).toNat ≤ 1 := Bool.toNat_le _
  have hsub : (q.issueCnt - BitVec.ofNat (b + 2) (commits i)).toNat = q.issueCnt.toNat - commits i := by
    have hc : (BitVec.ofNat (b + 2) (commits i)).toNat = commits i := by
      rw [BitVec.toNat_ofNat, Nat.mod_eq_of_lt (by omega)]
    rw [BitVec.toNat_sub_of_le (by rw [BitVec.le_def, hc]; exact hle), hc]
  simp only [step, hf, Bool.false_eq_true, if_false, numCommit_setWidth, issueEn_setWidth]
  rw [BitVec.toNat_add, hsub, BitVec.toNat_ofNat, Nat.mod_eq_of_lt (a := (q.issueEn i).toNat) (by omega),
    Nat.mod_eq_of_lt (by omega)]

/-! ### The queue -/

/-- The ports that acknowledge, the first one first. -/
def acks (i : SbIn b p) : List (Fin 2) := (List.finRange 2).filter i.commitAck

theorem acks_eq (i : SbIn b p) :
    acks i = (if i.commitAck 0 then [0] else []) ++ (if i.commitAck 1 then [1] else []) := by
  have hrange : List.finRange 2 = [0, 1] := rfl
  rw [acks, hrange]
  cases h0 : i.commitAck 0 <;> cases h1 : i.commitAck 1 <;> simp [h0, h1]

/-- The slots that are committed are the oldest ones. -/
theorem acks_map (hok : q.Ok i) (h : q.Inv) :
    (acks i).map q.commitPointer = slots (q.commitPointer 0) (commits i) := by
  have hle := commits_le hok h
  rw [acks_eq]
  cases h1 : i.commitAck 1
  · cases h0 : i.commitAck 0 <;> simp [commits, h0, h1, slots]
  · have h0 := hok.first h1
    have htwo : commits i = 2 := by simp [commits, h0, h1]
    have hp : q.commitPointer 1 = q.commitPointer 0 + 1 := h.second.resolve_right (by omega)
    rw [htwo, h0]
    simp [slots, List.range_succ, hp]

theorem retired_iff (hok : q.Ok i) (h : q.Inv) (j : BitVec (b + 1)) :
    q.Retired i j ↔ j ∈ slots (q.commitPointer 0) (commits i) := by
  rw [← acks_map hok h, acks_eq, Retired]
  cases i.commitAck 0 <;> cases i.commitAck 1 <;> simp

/-- What is in the queue and not committed, with what is issued. -/
def staying (q : Scoreboard b) (i : SbIn b p) : List (BitVec (b + 1)) :=
  slots (q.commitPointer 0 + BitVec.ofNat (b + 1) (commits i)) (q.issueCnt.toNat - commits i + (q.issueEn i).toNat)

/-- What is issued goes to the end of the queue, what is committed leaves at its front. -/
theorem queue_split (hok : q.Ok i) (h : q.Inv) : q.queue ++ (if q.issueEn i then [q.issuePointer] else []) =
    slots (q.commitPointer 0) (commits i) ++ q.staying i := by
  have hle := commits_le hok h
  have hlast : (if q.issueEn i then [q.issuePointer] else []) =
      slots (q.commitPointer 0 + BitVec.ofNat (b + 1) q.issueCnt.toNat) (q.issueEn i).toNat := by
    rw [← h.issuePointer]
    cases q.issueEn i <;> simp [slots]
  rw [hlast, queue, ← slots_add, staying, ← slots_add]
  congr 1
  omega

theorem queue_step (hok : q.Ok i) (h : q.Inv) (hf : i.flush = false) : (q.step i).queue = q.staying i := by
  have hp : (q.step i).commitPointer 0 = q.commitPointer 0 + BitVec.ofNat (b + 1) (commits i) := by
    simp only [step, commitPointer0, hf, Bool.false_eq_true, if_false, numCommit_setWidth]
  rw [queue, staying, hp, issueCnt_step hok h hf]

theorem queue_flush (hf : i.flush = true) : (q.step i).queue = [] := by
  simp [queue, step, hf]

/-- The queue with what is being issued fits into the entries. -/
theorem nodup_issued (h : q.Inv) :
    (q.queue ++ (if q.issueEn i then [q.issuePointer] else [])).Nodup := by
  cases he : q.issueEn i
  · simp only [Bool.false_eq_true, if_false, List.append_nil]
    exact nodup_slots h.cnt
  · have hlt := lt_of_issueEn h.cnt he
    rw [if_pos rfl, h.issuePointer, queue, ← slots_succ]
    exact nodup_slots hlt

theorem Inv.reset : (Scoreboard.reset : Scoreboard b).Inv where
  cnt := by simp [Scoreboard.reset]
  issued j := by simp [Scoreboard.reset, SbMem.zero, queue]
  issuePointer := by simp [Scoreboard.reset]
  second := .inr (by simp [Scoreboard.reset])
  valid j hv := by simp [Scoreboard.reset, SbMem.zero] at hv

/-- An entry is issued exactly when it is in the queue. -/
theorem issued_step (hok : q.Ok i) (h : q.Inv) (j : BitVec (b + 1)) :
    ((q.step i).mem j).issued = true ↔ j ∈ (q.step i).queue := by
  change (q.memN i j).issued = true ↔ _
  rw [memN_issued]
  cases hf : i.flush
  · have hsplit := queue_split hok h
    have hnd := nodup_issued (i := i) h
    rw [hsplit, List.nodup_append] at hnd
    rw [queue_step hok h hf]
    have hmem : (q.issueEn i = true ∧ j = q.issuePointer) ∨ (q.mem j).issued = true ↔
        j ∈ slots (q.commitPointer 0) (commits i) ++ q.staying i := by
      rw [← hsplit, h.issued]
      cases q.issueEn i <;> simp [or_comm]
    rw [hmem, retired_iff hok h, List.mem_append]
    constructor
    · rintro ⟨-, hr, h1 | h1⟩
      · exact absurd h1 hr
      · exact h1
    · intro h1
      exact ⟨rfl, fun hr => hnd.2.2 j hr j h1 rfl, .inr h1⟩
  · rw [queue_flush hf]
    simp

theorem Inv.step (hok : q.Ok i) (h : q.Inv) : (q.step i).Inv := by
  have hcnt := h.cnt
  have hle := commits_le hok h
  cases hf : i.flush
  · have hstep := issueCnt_step hok h hf
    refine ⟨?_, issued_step hok h, ?_, .inl ?_, fun j hv => memN_valid h j hv⟩
    · rw [hstep]
      cases he : q.issueEn i
      · rw [Bool.toNat_false]
        omega
      · have hlt := lt_of_issueEn hcnt he
        rw [Bool.toNat_true]
        omega
    · have hp : q.commitPointer 0 + BitVec.ofNat (b + 1) (commits i) +
          BitVec.ofNat (b + 1) (q.issueCnt.toNat - commits i + (q.issueEn i).toNat) =
            q.issuePointer + BitVec.ofNat (b + 1) (q.issueEn i).toNat := by
        rw [h.issuePointer, BitVec.add_assoc, BitVec.add_assoc, ← BitVec.ofNat_add, ← BitVec.ofNat_add]
        congr 2
        omega
      rw [hstep]
      simp only [Scoreboard.step, commitPointer0, hf, Bool.false_eq_true, if_false, numCommit_setWidth,
        issueEn_setWidth]
      exact hp.symm
    · simp only [Scoreboard.step, hf, Bool.false_eq_true, if_false]
  · refine ⟨?_, issued_step hok h, ?_, .inr ?_, fun j hv => memN_valid h j hv⟩ <;>
      simp [Scoreboard.step, commitPointer0, hf]

/-! ### The order of the commits -/

/-- An observer of the issue and the commit ports. -/
structure IssueLog (b : ℕ) where
  /-- every issued instruction, in the order of issue -/
  issued : List Instr
  /-- the place of the instruction of a slot among them -/
  number : BitVec (b + 1) → ℕ
  /-- what was committed, as the ports showed it -/
  committed : List (ℕ × Instr)
  flushed : List ℕ

def watch (g : IssueLog b) (q : Scoreboard b) (i : SbIn b p) : IssueLog b :=
  let number := if q.issueEn i then Function.update g.number q.issuePointer g.issued.length else g.number
  let leaving := (acks i).map q.commitPointer
  { issued := g.issued ++ if q.issueEn i then [i.decodedInstr.instr] else []
    number := number
    committed := g.committed ++ (acks i).map fun k => (g.number (q.commitPointer k), (q.commitInstr k).instr)
    flushed := if i.flush then
        g.flushed ++ ((q.queue ++ if q.issueEn i then [q.issuePointer] else []).filter (· ∉ leaving)).map number
      else g.flushed }

def logged (b p : ℕ) : Machine (Scoreboard b × IssueLog b) (SbIn b p) :=
  (⟨fun q => q = reset, step⟩ : Machine (Scoreboard b) (SbIn b p)).observe ⟨[], fun _ => 0, [], []⟩ watch

/-- What is committed and what is in the queue, by number. -/
def IssueLog.sequence (g : IssueLog b) (q : Scoreboard b) : List ℕ :=
  g.committed.map Prod.fst ++ q.queue.map g.number

/-- Every issued instruction is committed, flushed or in the queue, once, and those that are not
flushed are in the order of issue. -/
structure IssueLog.Ordered (g : IssueLog b) (q : Scoreboard b) : Prop where
  order : (g.sequence q).Sublist (List.range g.issued.length)
  once : (g.sequence q ++ g.flushed).Perm (List.range g.issued.length)
  queued : ∀ j ∈ q.queue, g.issued[g.number j]? = some (q.mem j).sbe.instr
  committed : ∀ x ∈ g.committed, g.issued[x.1]? = some x.2

/-- An instruction keeps its entry until it is committed. -/
theorem memN_instr (j : BitVec (b + 1)) : (q.memN i j).sbe.instr =
    if q.issueEn i = true ∧ j = q.issuePointer then i.decodedInstr.instr else (q.mem j).sbe.instr := by
  have hwb : (q.memWb i j).sbe.instr = (q.memIssue i j).sbe.instr := by
    rw [memWb, foldl_writeBack_same (fun m => m.sbe.instr) fun _ _ _ _ _ => rfl, memNone]
    split_ifs <;> rfl
  have hcommit : (q.memCommit i j).sbe.instr = (q.memIssue i j).sbe.instr := by
    rw [← hwb]
    by_cases hr : q.Retired i j
    · rw [(memCommit_eq j).1 hr]
      rfl
    · rw [(memCommit_eq j).2 hr]
  have hall : (q.memN i j).sbe.instr = (q.memIssue i j).sbe.instr := by
    rw [← hcommit, memN]
    split_ifs <;> rfl
  rw [hall, memIssue_eq]
  split_ifs <;> rfl

/-- The committed slots are in the queue, and not the one that is issued to. -/
theorem leaving_subset (hok : q.Ok i) (h : q.Inv) {j : BitVec (b + 1)}
    (hj : j ∈ slots (q.commitPointer 0) (commits i)) : j ∈ q.queue := by
  rw [queue, slots_drop (commits_le hok h)]
  exact List.mem_append_left _ hj

theorem watch_number (h : q.Inv) (g : IssueLog b) {j : BitVec (b + 1)} (hj : j ∈ q.queue) :
    (watch g q i).number j = g.number j := by
  simp only [watch]
  cases he : q.issueEn i
  · rfl
  · have hnd := nodup_issued (i := i) h
    rw [he, if_pos rfl, List.nodup_append] at hnd
    rw [if_pos rfl, Function.update_of_ne (hnd.2.2 j hj _ (List.mem_singleton_self _))]

/-- The numbers grow by the one of the issued instruction. -/
theorem watch_numbers (hok : q.Ok i) (h : q.Inv) (g : IssueLog b) :
    g.sequence q ++ (if q.issueEn i then [g.issued.length] else []) =
      (watch g q i).committed.map Prod.fst ++ (q.staying i).map (watch g q i).number := by
  have hall : q.queue.map g.number ++ (if q.issueEn i then [g.issued.length] else []) =
      (q.queue ++ (if q.issueEn i then [q.issuePointer] else [])).map (watch g q i).number := by
    rw [List.map_append, List.map_congr_left fun j hj => watch_number (i := i) h g hj]
    cases he : q.issueEn i <;> simp [watch, he]
  have hleave : (slots (q.commitPointer 0) (commits i)).map (watch g q i).number =
      (acks i).map fun k => g.number (q.commitPointer k) := by
    rw [List.map_congr_left fun j hj => watch_number (i := i) h g (leaving_subset hok h hj), ← acks_map hok h,
      List.map_map]
    rfl
  have hcom : (watch g q i).committed.map Prod.fst =
      g.committed.map Prod.fst ++ (acks i).map fun k => g.number (q.commitPointer k) := by
    simp [watch, Function.comp_def]
  rw [IssueLog.sequence, List.append_assoc, hall, queue_split hok h, List.map_append, hleave, hcom, List.append_assoc]

theorem watch_length (g : IssueLog b) : List.range (watch g q i).issued.length =
    List.range g.issued.length ++ (if q.issueEn i then [g.issued.length] else []) := by
  simp only [watch]
  cases q.issueEn i <;> simp [List.range_succ]

/-- What a flush takes is what the commits leave. -/
theorem watch_flushed (hok : q.Ok i) (h : q.Inv) (g : IssueLog b) : (watch g q i).flushed =
    g.flushed ++ if i.flush then (q.staying i).map (watch g q i).number else [] := by
  have hnd := nodup_issued (i := i) h
  rw [queue_split hok h, List.nodup_append] at hnd
  have hstay : (q.queue ++ (if q.issueEn i then [q.issuePointer] else [])).filter
      (· ∉ (acks i).map q.commitPointer) = q.staying i := by
    rw [queue_split hok h, acks_map hok h, List.filter_append, List.filter_eq_nil_iff.mpr, List.nil_append,
      List.filter_eq_self]
    · intro j hj
      rw [decide_eq_true_eq]
      exact fun hl => hnd.2.2 j hl j hj rfl
    · intro j hj
      simpa using hj
  simp only [watch, hstay]
  cases i.flush
  · simp
  · rfl

theorem IssueLog.Ordered.step {g : IssueLog b} (ho : g.Ordered q) (hok : q.Ok i) (h : q.Inv) :
    (watch g q i).Ordered (q.step i) := by
  have hnums := watch_numbers hok h g
  have hlen := watch_length (q := q) (i := i) g
  have hfl := watch_flushed hok h g
  have hissued : (watch g q i).issued = g.issued ++ if q.issueEn i then [i.decodedInstr.instr] else [] := rfl
  have hkeep {n : ℕ} {x : Instr} (hn : g.issued[n]? = some x) : (watch g q i).issued[n]? = some x := by
    rw [hissued, List.getElem?_append_left (List.getElem?_eq_some_iff.mp hn).1]
    exact hn
  have hseq : ((watch g q i).sequence (q.step i) = g.sequence q ++ if q.issueEn i then [g.issued.length] else []) ∨
      i.flush = true := by
    cases hf : i.flush
    · exact .inl (by rw [IssueLog.sequence, queue_step hok h hf, hnums])
    · exact .inr rfl
  have hflush (hf : i.flush = true) :
      (watch g q i).sequence (q.step i) = (watch g q i).committed.map Prod.fst := by
    rw [IssueLog.sequence, queue_flush hf, List.map_nil, List.append_nil]
  constructor
  · rw [hlen]
    have hsub := ho.order.append (List.Sublist.refl (if q.issueEn i then [g.issued.length] else []))
    rcases hseq with hs | hf
    · rw [hs]
      exact hsub
    · rw [hflush hf]
      rw [hnums] at hsub
      exact (List.sublist_append_left _ _).trans hsub
  · rw [hlen, hfl]
    have hperm := ho.once.append_right (if q.issueEn i then [g.issued.length] else [])
    refine List.Perm.trans ?_ hperm
    have hswap (k l m : List ℕ) : (k ++ l ++ m).Perm (k ++ m ++ l) := by
      rw [List.append_assoc, List.append_assoc]
      exact List.Perm.append_left _ List.perm_append_comm
    cases hf : i.flush
    · rw [hseq.resolve_right (by simp [hf]), if_neg Bool.false_ne_true, List.append_nil]
      exact hswap ..
    · rw [hflush hf, if_pos rfl, ← List.append_assoc]
      refine (hswap ..).trans ?_
      rw [← hnums]
      exact hswap ..
  · intro j hj
    have hmem : j ∈ q.queue ++ (if q.issueEn i then [q.issuePointer] else []) := by
      rw [queue_split hok h, List.mem_append]
      cases hf : i.flush
      · rw [queue_step hok h hf] at hj
        exact .inr hj
      · rw [queue_flush hf] at hj
        exact absurd hj List.not_mem_nil
    change (watch g q i).issued[_]? = some (q.memN i j).sbe.instr
    rw [memN_instr]
    split_ifs with hnew
    · simp [hnew.1, hnew.2, watch]
    · have hold : j ∈ q.queue := by
        rw [List.mem_append] at hmem
        refine hmem.resolve_right fun hin => hnew ?_
        cases he : q.issueEn i
        · rw [he] at hin
          exact absurd hin (by simp)
        · rw [he] at hin
          exact ⟨rfl, by simpa using hin⟩
      rw [watch_number h g hold]
      exact hkeep (ho.queued j hold)
  · intro x hx
    have hx' : x ∈ g.committed ∨ ∃ k ∈ acks i, (g.number (q.commitPointer k), (q.commitInstr k).instr) = x := by
      simpa [watch] using hx
    rcases hx' with hold | ⟨k, hk, rfl⟩
    · exact hkeep (ho.committed x hold)
    · have hin : q.commitPointer k ∈ q.queue :=
        leaving_subset hok h (acks_map hok h ▸ List.mem_map_of_mem hk)
      exact hkeep (ho.queued _ hin)

/-! ### Whole runs -/

/-- The cycle without its write-backs. -/
def quiet (i : SbIn b p) : SbIn b p := { i with wb := fun k => { i.wb k with wtValid := false } }

/-- What is true of every cycle. -/
structure InOrderCycle (q : Scoreboard b) (i : SbIn b p) : Prop where
  /-- the counter does not run below zero -/
  enough : commits i ≤ q.issueCnt.toNat
  count : i.flush = false → (q.step i).issueCnt.toNat = q.issueCnt.toNat - commits i + (q.issueEn i).toNat
  oldest : (acks i).map q.commitPointer = q.queue.take (commits i)
  dual : i.commitAck 1 = true → q.commitPointer 1 = q.commitPointer 0 + 1 ∧ q.commitPointer 0 ≠ q.commitPointer 1 ∧
    (acks i).map q.commitPointer = [q.commitPointer 0, q.commitPointer 1]
  /-- an entry that no port addresses, or that is not issued, does not see the write-backs -/
  writeBack : ∀ j, ((q.mem j).issued = false ∨ ∀ k, (i.wb k).wtValid = true → (i.wb k).transId ≠ j) →
    (q.step i).mem j = (q.step (quiet i)).mem j
  rest : q.step i = { q.step (quiet i) with mem := (q.step i).mem }
  flush : i.flush = true → (q.step i).queue = [] ∧ ∀ j, ((q.step i).mem j).issued = false

theorem memN_quiet (j : BitVec (b + 1))
    (h : (q.mem j).issued = false ∨ ∀ k, (i.wb k).wtValid = true → (i.wb k).transId ≠ j) :
    q.memN i j = q.memN (quiet i) j := by
  have hwb : q.memWb i j = q.memNone i j := by
    refine foldl_writeBack_of_ne _ _ _ (h.imp_right fun hk wb hwb => ?_)
    obtain ⟨k, -, rfl⟩ := List.mem_map.mp hwb
    exact hk k
  have hquiet : q.memWb (quiet i) j = q.memNone i j := by
    refine foldl_writeBack_of_ne _ _ _ (.inr fun wb hwb hv => ?_)
    obtain ⟨k, -, rfl⟩ := List.mem_map.mp hwb
    exact absurd hv (by simp [quiet])
  have hsame : q.memCommit i j = q.memCommit (quiet i) j := by
    by_cases hr : q.Retired i j
    · rw [(memCommit_eq j).1 hr, (memCommit_eq (i := quiet i) j).1 hr, hwb, hquiet]
    · rw [(memCommit_eq j).2 hr, (memCommit_eq (i := quiet i) j).2 hr, hwb, hquiet]
  have hflush : (quiet i).flush = i.flush := rfl
  simp only [memN, hflush]
  split_ifs
  · exact congrArg SbMem.flushed hsame
  · exact hsame

theorem inOrderCycle (hok : q.Ok i) (h : q.Inv) : q.InOrderCycle i where
  enough := commits_le hok h
  count := issueCnt_step hok h
  oldest := by
    rw [acks_map hok h, queue, slots_drop (commits_le hok h), List.take_left' length_slots]
  dual h1 := by
    have h0 := hok.first h1
    have hle := commits_le hok h
    have htwo : commits i = 2 := by simp [commits, h0, h1]
    have hp : q.commitPointer 1 = q.commitPointer 0 + 1 := h.second.resolve_right (by omega)
    have hpair : (acks i).map q.commitPointer = [q.commitPointer 0, q.commitPointer 1] := by
      rw [acks_eq, h0, h1]
      rfl
    have hnd : (slots (q.commitPointer 0) (commits i)).Nodup := nodup_slots (hle.trans h.cnt)
    rw [← acks_map hok h, hpair] at hnd
    exact ⟨hp, by simpa using hnd, hpair⟩
  writeBack := memN_quiet
  rest := rfl
  flush hf := by
    have hq := queue_flush (q := q) hf
    refine ⟨hq, fun j => ?_⟩
    have hj := (issued_step hok h j).not.mpr (by rw [hq]; exact List.not_mem_nil)
    simpa using hj

theorem inv_of_reachable {x : Scoreboard b × IssueLog b}
    (h : (logged b p).Reachable (fun x i => x.1.Ok i) x) : x.1.Inv ∧ x.2.Ordered x.1 := by
  induction h with
  | init h0 =>
    obtain ⟨hq, hg⟩ := h0
    rw [hq, hg]
    exact ⟨.reset, ⟨by simp [IssueLog.sequence, queue, reset], by simp [IssueLog.sequence, queue, reset],
      by simp [queue, reset], by simp⟩⟩
  | step i _ hok ih => exact ⟨ih.1.step hok, ih.2.step hok ih.1⟩

/-- A cycle in which nothing comes. -/
def noEvent (b p : ℕ) : SbIn b p where
  flushUnissuedInstr := false
  flush := false
  unresolvedBranch := false
  commitAck _ := false
  decodedInstr := SbMem.zero.sbe
  decodedInstrValid := false
  issueAck := false
  targetAddress := 0
  wb _ := ⟨0, 0, ⟨0, 0, false⟩, false⟩
  xWe := false

theorem noEvent_ok (q : Scoreboard b) : q.Ok (noEvent b p) :=
  ⟨fun _ h => absurd h Bool.false_ne_true, fun h => absurd h Bool.false_ne_true, fun h => absurd h Bool.false_ne_true⟩

/-- The scoreboard is a queue: its entries are an interval, every instruction is committed or
flushed once, in the order of issue, and every cycle comes to an end and moves the interval. It is one of four
entries at least: with two, no cycle ends. -/
theorem in_order_queue (b p : ℕ) : (∀ x : Scoreboard b × IssueLog b, (logged b p).Reachable (fun x i => x.1.Ok i) x →
    (∀ j, (x.1.mem j).issued = true ↔ j ∈ slots (x.1.commitPointer 0) x.1.issueCnt.toNat) ∧
      x.1.issuePointer = x.1.commitPointer 0 + BitVec.ofNat (b + 1) x.1.issueCnt.toNat ∧
        x.1.issueCnt.toNat ≤ 2 ^ (b + 1) ∧ x.2.Ordered x.1 ∧
          ∀ i : SbIn b p, x.1.Ok i → (∃ fuel, x.1.cycleWithin i fuel = some (x.1.step i)) ∧ x.1.InOrderCycle i) ↔
    4 ≤ 2 ^ (b + 1) := by
  have hfour : 4 ≤ 2 ^ (b + 1) ↔ 0 < b := by
    rw [show 4 = 2 ^ 2 from rfl, Nat.pow_le_pow_iff_right (by omega)]
    omega
  rw [hfour]
  constructor
  · intro h
    by_contra hb
    obtain rfl : b = 0 := by omega
    have hr : (logged 0 p).Reachable (fun x i => x.1.Ok i) (reset, ⟨[], fun _ => 0, [], []⟩) := .init ⟨rfl, rfl⟩
    obtain ⟨-, -, -, -, hcycle⟩ := h _ hr
    obtain ⟨⟨fuel, hends⟩, -⟩ := hcycle (noEvent 0 p) (noEvent_ok _)
    rw [cycleWithin_hangs] at hends
    cases hends
  · intro hb x hr
    obtain ⟨hinv, hord⟩ := inv_of_reachable hr
    exact ⟨hinv.issued, hinv.issuePointer, hinv.cnt, hord,
      fun i hok => ⟨⟨3, cycleWithin_ends x.1 i hb⟩, inOrderCycle hok hinv⟩⟩

/-- With two entries the loop over the commit ports does not end in the first cycle, in which nothing comes. -/
theorem two_entries_hang : (reset : Scoreboard 0).Ok (noEvent 0 1) ∧
    ∀ fuel, (reset : Scoreboard 0).cycleWithin (noEvent 0 1) fuel = none :=
  ⟨by decide, cycleWithin_hangs reset (noEvent 0 1)⟩

/-- A cycle that issues `pc` if `issue`, writes both results if `wb` and commits on both ports if `commit`. -/
def cycle (issue : Bool) (pc : BitVec 64) (wb commit : Bool) : SbIn 1 2 where
  flushUnissuedInstr := false
  flush := false
  unresolvedBranch := false
  commitAck _ := commit
  decodedInstr := ⟨pc, 0, .alu, ⟨.other, false⟩, 5, 0, false, ⟨0, 0, false⟩, 0⟩
  decodedInstrValid := issue
  issueAck := issue
  targetAddress := 0
  wb k := ⟨BitVec.ofNat 2 k, pc, ⟨0, 0, false⟩, wb⟩
  xWe := false

/-- Two instructions are committed together while a third one is issued. -/
def dualCommit : List (SbIn 1 2) :=
  [cycle true 4 false false, cycle true 8 false false, cycle false 0 true false, cycle true 12 false true]

def afterDual : Scoreboard 1 × IssueLog 1 := (logged 1 2).run (reset, ⟨[], fun _ => 0, [], []⟩) dualCommit

set_option maxRecDepth 10000 in
theorem in_order_queue_dual : afterDual.2.committed.map Prod.fst = [0, 1] ∧
    afterDual.1.issueCnt.toNat ≤ 4 ∧ ∀ i : SbIn 1 2, afterDual.1.Ok i →
      (∃ fuel, afterDual.1.cycleWithin i fuel = some (afterDual.1.step i)) ∧ afterDual.1.InOrderCycle i := by
  have hreset : (logged 1 2).Reachable (fun x i => x.1.Ok i) (reset, ⟨[], fun _ => 0, [], []⟩) := .init ⟨rfl, rfl⟩
  have hok : (logged 1 2).Along (fun x i => x.1.Ok i) (reset, ⟨[], fun _ => 0, [], []⟩) dualCommit := by decide +kernel
  have hreach : (logged 1 2).Reachable (fun x i => x.1.Ok i) afterDual := hreset.run hok
  obtain ⟨-, -, hcnt, -, hcycle⟩ := (in_order_queue 1 2).mpr (by decide) afterDual hreach
  exact ⟨by decide +kernel, hcnt, hcycle⟩

end Scoreboard
end Culsans.Core
