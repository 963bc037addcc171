import Culsans.Frontend.QueueOrder

/-! # The addresses of the instruction queue

The queue keeps no addresses: it counts on from the first one, and takes over what has been predicted.
What it puts out is right as long as the fetches have gone where it has been predicted.
-/

namespace Culsans.Frontend
open Library Library.RoundRobin

/-- The address after an instruction that stands at an address. -/
def Accepted.nextFrom (a : Accepted) (v : BitVec 64) : BitVec 64 :=
  if a.data.cf = .noCF then v + if a.data.instr.extractLsb' 0 2 != 0b11 then 2 else 4 else a.predict

/-- The addresses that are counted from the first one. -/
def labels (v : BitVec 64) : List Accepted → List (BitVec 64)
  | [] => []
  | a :: l => v :: labels (a.nextFrom v) l

/-- The counter after some instructions. -/
def labelAfter (v : BitVec 64) (l : List Accepted) : BitVec 64 := l.foldl (fun v a => a.nextFrom v) v

theorem next_eq (a : Accepted) : a.next = a.nextFrom a.addr := rfl

theorem labels_concat (v : BitVec 64) (l : List Accepted) (a : Accepted) :
    labels v (l ++ [a]) = labels v l ++ [labelAfter v l] := by
  induction l generalizing v with
  | nil => rfl
  | cons b l ih =>
    rw [List.cons_append, labels, ih, labels]
    rfl

variable {depth : ℕ} {x : InstrQueue depth × QueueLog} {i : QueueIn} {done rest : List Accepted}

/-- The counter and what has been put out are counted from the first address. -/
structure Labelled (x : InstrQueue depth × QueueLog) (done : List Accepted) : Prop where
  pc : ∀ a ∈ x.2.accepted.head?, x.1.pc = labelAfter a.addr done
  issued : ∀ a ∈ x.2.accepted.head?, x.2.issued.map (·.address) = labels a.addr done

/-- The counter after an entry has been taken. -/
theorem Holds.pcD_issue {a : Accepted} (h : Holds x done (a :: rest)) (hi : x.1.issues i = true) :
    x.1.pcD i = a.nextFrom x.1.pc := by
  have hr : x.1.resetAddress = false := by
    rw [h.resetAddress, h.accepted]
    simp
  have hready : i.fetchEntryReady = true := by
    rw [InstrQueue.issues, Bool.and_eq_true] at hi
    exact hi.2
  have hpop : x.1.popAddress i = (a.data.cf != .noCF) := by
    rw [InstrQueue.popAddress_eq h.idxDs, hi, Bool.and_true, h.head_instr]
    rfl
  rw [InstrQueue.pcD, hr, Bool.and_false, if_neg Bool.false_ne_true, hpop, hready, if_pos rfl, Accepted.nextFrom,
    h.head_instr]
  by_cases hc : a.data.cf = .noCF
  · simp [hc, InstrData.entry]
  · rw [if_pos (bne_iff_ne.mpr hc), if_neg hc, h.head_address hc]

theorem Holds.pcD_keep (h : Holds x done rest) (hi : Packets x i) (hne : x.2.accepted ≠ [])
    (hp : x.1.issues i = false) :
    x.1.pcD i = x.1.pc := by
  have hr : x.1.resetAddress = false := by
    rw [h.resetAddress]
    exact Bool.eq_false_iff.mpr fun he => hne (List.isEmpty_iff.mp he)
  have hready : i.fetchEntryReady = false := by
    by_contra hready
    have hready := Bool.eq_true_of_not_eq_false hready
    rw [InstrQueue.issues, hready, hi.ready hready] at hp
    cases hp
  rw [InstrQueue.pcD, hr, InstrQueue.popAddress_eq h.idxDs, hp, hready]
  simp

namespace Labelled

theorem empty {q : InstrQueue depth} : Labelled (q, .empty) [] where
  pc a ha := by cases ha
  issued a ha := by cases ha

theorem step (hl : Labelled x done) (h : Holds x done rest) (hi : Packets x i) (hf : i.flush = false) :
    Labelled ((instrQueue depth).next x i) (doneNext x.1 i done rest) := by
  have ht := h.takes hi
  have hpc : (x.1.step i).pc = x.1.pcD i := by simp [InstrQueue.step, hf]
  rw [Holds.next_eq hf]
  by_cases hne : x.2.accepted = []
  · obtain ⟨rfl, rfl⟩ := List.append_eq_nil_iff.mp (h.accepted.symm.trans hne)
    have hn := h.issues_nil (i := i)
    have hissued : x.2.issued = [] := List.forall₂_nil_right_iff.mp h.issued
    rw [doneNext, hn, if_neg Bool.false_ne_true, if_neg Bool.false_ne_true, hne, hissued]
    constructor
    case pc =>
      intro a ha
      rcases acceptedNow_cases ht with hn | ⟨hc, hn⟩
      · rw [hn] at ha
        cases ha
      · have hr : x.1.resetAddress = true := by
          rw [h.resetAddress, hne]
          rfl
        have haddr : a.addr = i.addr 0 := by
          rcases hn with hn | ⟨hn, -⟩ <;> rw [hn] at ha <;> exact congrArg Accepted.addr (Option.some.inj ha).symm
        rw [hpc, InstrQueue.pcD, show i.valid.getLsbD 0 = true from ht.valid 0 hc, hr, haddr]
        rfl
    case issued =>
      intro a _
      rfl
  · have hhead (l : List Accepted) : (x.2.accepted ++ l).head? = x.2.accepted.head? := by
      rw [List.head?_append_of_ne_nil _ hne]
    rw [doneNext]
    cases hp : x.1.issues i with
    | false =>
      constructor
      case pc =>
        intro a ha
        rw [hhead] at ha
        rw [hpc, h.pcD_keep hi hne hp]
        exact hl.pc a ha
      case issued =>
        intro a ha
        rw [hhead] at ha
        simpa using hl.issued a ha
    | true =>
      obtain ⟨b, r, rfl⟩ := h.exists_head hp
      constructor
      case pc =>
        intro a ha
        rw [hhead] at ha
        rw [hpc, h.pcD_issue hp, hl.pc a ha]
        simp [labelAfter, List.foldl_append]
      case issued =>
        intro a ha
        rw [hhead] at ha
        have haddr : x.1.fetchEntry.address = x.1.pc := by
          rw [h.head_instr]
          rfl
        simp [hl.issued a ha, haddr, labels_concat, hl.pc a ha]

end Labelled

end Culsans.Frontend
