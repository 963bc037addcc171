import Mathlib.Data.List.Basic
import Mathlib.Tactic.SplitIfs

/-! # Streams of items of one or two units

The first unit of an item tells whether it is the only one. A piece of a stream may end
within an item, whose first unit is then left over.
-/

namespace Culsans.Library.PairStream

inductive Item (α : Type*)
  | one (a : α)
  | two (a b : α)

variable {α : Type*} (short : α → Bool)

/-- The items that end in a piece of a stream, after a unit that is left over. -/
def parse : Option α → List α → List (Item α)
  | _, [] => []
  | none, a :: l => if short a then .one a :: parse none l else parse (some a) l
  | some b, a :: l => .two b a :: parse none l

/-- What the piece leaves over. -/
def rest : Option α → List α → Option α
  | p, [] => p
  | none, a :: l => if short a then rest none l else rest (some a) l
  | some _, _ :: l => rest none l

/-- The units of an item. -/
def Item.units : Item α → List α
  | .one a => [a]
  | .two a b => [a, b]

variable {short} {p : Option α} {a b : α}

@[simp] theorem parse_nil : parse short p [] = [] := by
  cases p <;> rfl

@[simp] theorem rest_nil : rest short p [] = p := by
  cases p <;> rfl

/-- A piece is parsed where the one before it has stopped. -/
theorem parse_append (l l' : List α) : parse short p (l ++ l') = parse short p l ++
    parse short (rest short p l) l' := by
  induction l generalizing p with
  | nil => simp
  | cons a l ih =>
    cases p with
    | none =>
      rw [List.cons_append, parse, parse, rest]
      split_ifs
      · rw [ih, List.cons_append]
      · exact ih
    | some b => rw [List.cons_append, parse, parse, rest, ih, List.cons_append]

theorem rest_append (l l' : List α) : rest short p (l ++ l') = rest short (rest short p l) l' := by
  induction l generalizing p with
  | nil => simp
  | cons a l ih =>
    cases p with
    | none =>
      rw [List.cons_append, rest, rest]
      split_ifs <;> exact ih
    | some b => exact ih

/-- The unit left over is the first of two. -/
theorem rest_first (hp : ∀ u ∈ p, short u = false) (l : List α) : ∀ u ∈ rest short p l, short u = false := by
  induction l generalizing p with
  | nil => simpa using hp
  | cons a l ih =>
    cases p with
    | some b => exact ih (fun u hu => absurd hu (Option.not_mem_none u))
    | none =>
      rw [rest]
      split_ifs with ha
      · exact ih hp
      · refine ih fun u hu => ?_
        obtain rfl := Option.mem_some_iff.mp hu
        exact Bool.eq_false_iff.mpr ha

/-- The unit left over is the last one. -/
theorem getLast?_of_rest {u : α} (l : List α) (hl : l ≠ []) (hu : rest short p l = some u) : l.getLast? = some u := by
  induction l generalizing p with
  | nil => exact absurd rfl hl
  | cons a l ih =>
    cases l with
    | nil =>
      cases p with
      | some b => cases hu
      | none =>
        rw [rest] at hu
        split_ifs at hu
        · cases hu
        · exact hu
    | cons b l =>
      rw [List.getLast?_cons_cons]
      cases p with
      | some c => exact ih (List.cons_ne_nil _ _) hu
      | none =>
        rw [rest] at hu
        split_ifs at hu
        · exact ih (List.cons_ne_nil _ _) hu
        · exact ih (List.cons_ne_nil _ _) hu

/-- No unit is lost, and none is used twice. -/
theorem units_parse (l : List α) : (parse short p l).flatMap Item.units ++ (rest short p l).toList = p.toList ++ l := by
  induction l generalizing p with
  | nil => simp
  | cons a l ih =>
    cases p with
    | none =>
      rw [parse, rest]
      split_ifs
      · rw [List.flatMap_cons, List.append_assoc, ih]
        rfl
      · exact ih
    | some b =>
      rw [parse, rest, List.flatMap_cons, List.append_assoc, ih]
      rfl

end Culsans.Library.PairStream
