import Mathlib.Data.List.Forall2
import Mathlib.Data.List.Induction
import Mathlib.Logic.Function.Basic
import Mathlib.Tactic.SplitIfs

/-! # Operands of instructions in flight

Instructions leave a queue in order and write registers. One that enters the queue takes its
operands from the registers or from the instructions still in it, each from the youngest one
that writes the register. Then what leaves the queue was given what a sequential execution
reads. Behind an instruction that is not lasting nothing is promised: it never leaves the
queue, or the queue is cleared when it does.
-/

namespace Culsans.Library

variable {κ α : Type*} [DecidableEq κ]

/-- An instruction that has left the queue. -/
structure Committed (κ α : Type*) where
  operands : List (κ × α)
  dest : Option κ
  value : α

/-- What the youngest instruction with that destination has written, else the initial value. -/
def lastWrite (regs : κ → α) (done : List (Committed κ α)) (r : κ) : α :=
  match done.reverse.find? fun d => d.dest = some r with
  | some d => d.value
  | none => regs r

/-- The operands of every instruction are what the ones before it have written. -/
def InOrder (regs : κ → α) (done : List (Committed κ α)) : Prop :=
  ∀ l d l', done = l ++ d :: l' → ∀ o ∈ d.operands, lastWrite regs l o.1 = o.2

/-- An instruction between its issue and its commit. -/
structure InFlight (κ α : Type*) where
  dest : Option κ
  /-- what it is going to write, once this is known -/
  value : Option α
  operands : List (κ × α)
  lasting : Bool

/-- What is known of the registers behind an instruction. -/
def behind (f : κ → Option α) (e : InFlight κ α) : κ → Option α :=
  match e.dest with
  | some r => Function.update f r e.value
  | none => f

/-- Every instruction has the operands known in front of it. -/
def Captured : (κ → Option α) → List (InFlight κ α) → Prop
  | _, [] => True
  | f, e :: q => (∀ o ∈ e.operands, f o.1 = some o.2) ∧ (e.lasting = true → Captured (behind f e) q)

/-- An instruction and the same one later. -/
structure Settles (e e' : InFlight κ α) : Prop where
  dest : e'.dest = e.dest
  operands : e'.operands = e.operands
  value : ∀ v, e.value = some v → e'.value = some v
  lasting : e'.lasting = true → e.lasting = true

/-- An instruction and what it has become when it leaves the queue. -/
structure Leaves (e : InFlight κ α) (d : Committed κ α) : Prop where
  /-- it may write nothing if nobody was told what it writes -/
  dest : d.dest = e.dest ∨ d.dest = none ∧ e.value = none
  operands : d.operands = e.operands
  value : ∀ v, e.value = some v → d.value = v

variable {regs : κ → α} {done : List (Committed κ α)} {d : Committed κ α} {f f' : κ → Option α} {e e' : InFlight κ α}
  {q q' : List (InFlight κ α)} {r : κ}

@[simp] theorem lastWrite_nil (r : κ) : lastWrite regs [] r = regs r := rfl

theorem lastWrite_concat (r : κ) :
    lastWrite regs (done ++ [d]) r = if d.dest = some r then d.value else lastWrite regs done r := by
  simp only [lastWrite, List.reverse_append, List.reverse_singleton, List.singleton_append, List.find?_cons]
  split_ifs with hd <;> simp [hd]

theorem InOrder.nil : InOrder regs ([] : List (Committed κ α)) := by
  intro l d l' h
  simp at h

theorem InOrder.concat (h : InOrder regs done) (hd : ∀ o ∈ d.operands, lastWrite regs done o.1 = o.2) :
    InOrder regs (done ++ [d]) := by
  intro l x l' he
  cases l' using List.reverseRecOn with
  | nil =>
    obtain ⟨rfl, hx⟩ := List.append_inj' he rfl
    cases hx
    exact hd
  | append_singleton l' y =>
    rw [← List.cons_append, ← List.append_assoc] at he
    exact h l x l' (List.append_inj' he rfl).1

/-! ### The queue -/

theorem behind_self (h : e.dest = some r) : behind f e r = e.value := by
  simp [behind, h]

theorem behind_of_ne (h : e.dest ≠ some r) : behind f e r = f r := by
  rw [behind]
  cases hd : e.dest with
  | none => rfl
  | some t =>
    have ht : r ≠ t := by
      rintro rfl
      exact h hd
    exact Function.update_of_ne ht ..

theorem behind_mono (hf : ∀ r v, f r = some v → f' r = some v) (h : Settles e e') (r : κ) (v : α)
    (hr : behind f e r = some v) : behind f' e' r = some v := by
  by_cases hd : e.dest = some r
  · rw [behind_self hd] at hr
    rw [behind_self (h.dest.trans hd)]
    exact h.value v hr
  · rw [behind_of_ne hd] at hr
    rw [behind_of_ne (h.dest ▸ hd)]
    exact hf r v hr

/-- More becomes known, and the instructions settle. -/
theorem Captured.mono (hf : ∀ r v, f r = some v → f' r = some v) (hq : List.Forall₂ Settles q q') (h : Captured f q) :
    Captured f' q' := by
  induction hq generalizing f f' with
  | nil => trivial
  | cons he _ ih =>
    refine ⟨fun o ho => hf _ _ (h.1 o (he.operands ▸ ho)), fun hl => ?_⟩
    exact ih (behind_mono hf he) (h.2 (he.lasting hl))

/-- A new instruction goes to the end of the queue. -/
theorem Captured.concat (h : Captured f q)
    (he : (∀ x ∈ q, x.lasting = true) → ∀ o ∈ e.operands, q.foldl behind f o.1 = some o.2) : Captured f (q ++ [e]) := by
  induction q generalizing f with
  | nil => exact ⟨he (by simp), fun _ => trivial⟩
  | cons x q ih =>
    refine ⟨h.1, fun hx => ih (h.2 hx) fun hq => he ?_⟩
    intro y hy
    rcases List.mem_cons.mp hy with rfl | hy
    · exact hx
    · exact hq y hy

theorem foldl_behind_of_ne (h : ∀ e ∈ q, e.dest ≠ some r) : q.foldl behind f r = f r := by
  induction q generalizing f with
  | nil => rfl
  | cons e q ih =>
    rw [List.foldl_cons, ih fun x hx => h x (List.mem_cons_of_mem _ hx), behind_of_ne (h e (List.mem_cons_self ..))]

/-- The only instruction with that destination decides. -/
theorem foldl_behind_of_dest (he : e ∈ q) (hd : e.dest = some r)
    (hu : ∀ x ∈ q, x.dest = some r → x.value = e.value) : q.foldl behind f r = e.value := by
  induction q using List.reverseRecOn with
  | nil => exact absurd he List.not_mem_nil
  | append_singleton q x ih =>
    rw [List.foldl_append, List.foldl_cons, List.foldl_nil]
    by_cases hx : x.dest = some r
    · rw [behind_self hx]
      exact hu x (List.mem_append_right _ (List.mem_singleton_self x)) hx
    · rw [behind_of_ne hx]
      have hne : e ≠ x := by
        rintro rfl
        exact hx hd
      have hmem : e ∈ q := (List.mem_append.mp he).resolve_right fun h => hne (List.mem_singleton.mp h)
      exact ih hmem fun y hy => hu y (List.mem_append_left _ hy)

/-- What is known behind an instruction is still known when it has left. -/
theorem Leaves.known (hl : Leaves e d) (v : α) (h : behind (fun r => some (lastWrite regs done r)) e r = some v) :
    some (lastWrite regs (done ++ [d]) r) = some v := by
  rw [lastWrite_concat]
  by_cases hd : e.dest = some r
  · rw [behind_self hd] at h
    rcases hl.dest with hdest | ⟨-, hnone⟩
    · rw [if_pos (hdest.trans hd), hl.value v h]
    · rw [hnone] at h
      cases h
  · rw [behind_of_ne hd] at h
    have hdest : d.dest ≠ some r := by
      rcases hl.dest with hdest | ⟨hdest, -⟩
      · rwa [hdest]
      · rw [hdest]
        exact (Option.some_ne_none r).symm
    rwa [if_neg hdest]

omit [DecidableEq κ] in
theorem Settles.refl (e : InFlight κ α) : Settles e e := ⟨rfl, rfl, fun _ hv => hv, fun hv => hv⟩

/-- The oldest instruction leaves: it has its operands, and the registers now tell what it told. -/
theorem Captured.leave (hi : InOrder regs done) (h : Captured (fun r => some (lastWrite regs done r)) (e :: q))
    (hl : Leaves e d) : InOrder regs (done ++ [d]) ∧
      (e.lasting = true → Captured (fun r => some (lastWrite regs (done ++ [d]) r)) q) := by
  refine ⟨hi.concat fun o ho => Option.some.inj (h.1 o (hl.operands ▸ ho)), fun he => ?_⟩
  exact Captured.mono (fun r v hr => hl.known v hr) (List.forall₂_same.mpr fun x _ => .refl x) (h.2 he)

theorem foldl_behind_mono (hf : ∀ r v, f r = some v → f' r = some v) (v : α) (h : q.foldl behind f r = some v) :
    q.foldl behind f' r = some v := by
  induction q generalizing f f' with
  | nil => exact hf r v h
  | cons e q ih => exact ih (behind_mono hf (.refl e)) h

/-- What the queue tells of a register stays when its oldest instruction leaves. -/
theorem Leaves.told (hl : Leaves e d) (v : α)
    (h : (e :: q).foldl behind (fun r => some (lastWrite regs done r)) r = some v) :
    q.foldl behind (fun r => some (lastWrite regs (done ++ [d]) r)) r = some v :=
  foldl_behind_mono (fun _ v hr => hl.known v hr) v h

end Culsans.Library
