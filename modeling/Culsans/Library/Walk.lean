import Mathlib.Data.List.Basic

/-! # Walks

Each step of a walk stands where the one before it has gone, up to a step that leaves the way.
-/

namespace Culsans.Library

/-- What a step has to be at a place, where it goes, and which steps leave the way. -/
structure Walk (A α : Type*) where
  ok : A → α → Prop
  next : α → A
  stray : α → Prop

namespace Walk
variable {A α : Type*} (W : Walk A α)

/-- The steps from a place on are right; nothing is said of what comes after a stray one. -/
def Follows : A → List α → Prop
  | _, [] => True
  | v, a :: l => W.ok v a ∧ (¬ W.stray a → Follows (W.next a) l)

instance decidableFollows [∀ v a, Decidable (W.ok v a)] [∀ a, Decidable (W.stray a)] : ∀ v l, Decidable (W.Follows v l)
  | _, [] => .isTrue trivial
  | v, a :: l =>
    letI := decidableFollows (W.next a) l
    inferInstanceAs (Decidable (W.ok v a ∧ (¬ W.stray a → W.Follows (W.next a) l)))

/-- The place after some steps. -/
def arrive : A → List α → A
  | v, [] => v
  | _, a :: l => arrive (W.next a) l

/-- No step leaves the way. -/
def Straight (l : List α) : Prop := ∀ a ∈ l, ¬ W.stray a

variable {W} {v : A} {l r : List α}

theorem straight_append : W.Straight (l ++ r) ↔ W.Straight l ∧ W.Straight r := List.forall_mem_append

theorem straight_nil : W.Straight [] := List.forall_mem_nil _

theorem arrive_append : W.arrive v (l ++ r) = W.arrive (W.arrive v l) r := by
  induction l generalizing v with
  | nil => rfl
  | cons a l ih => exact ih

/-- More steps follow if they follow where the first ones have gone. -/
theorem follows_append : W.Follows v (l ++ r) ↔ W.Follows v l ∧ (W.Straight l → W.Follows (W.arrive v l) r) := by
  induction l generalizing v with
  | nil => exact ⟨fun h => ⟨trivial, fun _ => h⟩, fun h => h.2 straight_nil⟩
  | cons a l ih =>
    have hstraight : W.Straight (a :: l) ↔ ¬ W.stray a ∧ W.Straight l := List.forall_mem_cons
    rw [List.cons_append, Follows, Follows, arrive, hstraight, ih]
    constructor
    · rintro ⟨ha, h⟩
      exact ⟨⟨ha, fun hs => (h hs).1⟩, fun hs => (h hs.1).2 hs.2⟩
    · rintro ⟨⟨ha, h⟩, hr⟩
      exact ⟨ha, fun hs => ⟨h hs, fun hl => hr ⟨hs, hl⟩⟩⟩

/-- One more step. -/
theorem follows_concat {a : α} (h : W.Follows v l) (ha : W.Straight l → W.ok (W.arrive v l) a) :
    W.Follows v (l ++ [a]) :=
  follows_append.mpr ⟨h, fun hl => ⟨ha hl, fun _ => trivial⟩⟩

/-- The step after some that have not left the way. -/
theorem Follows.ok_concat {a : α} (h : W.Follows v (l ++ a :: r)) (hl : W.Straight l) : W.ok (W.arrive v l) a :=
  ((follows_append.mp h).2 hl).1

end Walk
end Culsans.Library
