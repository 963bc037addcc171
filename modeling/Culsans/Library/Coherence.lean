import Mathlib.Logic.Function.Basic
import Mathlib.Tactic.ByContra
import Mathlib.Tactic.SplitIfs

/-! # Copies of one line of memory

A line of bytes lives in memory and in the copies that some agents hold. A copy
marks the bytes that are newer than memory and whether other copies may exist.
-/

namespace Culsans.Library

structure Copy (β δ : Type*) where
  data : β → δ
  dirty : β → Bool
  shared : Bool

/-- Overwrite the masked bytes. -/
def merge {β δ : Type*} (mask : β → Bool) (new old : β → δ) : β → δ :=
  fun b => if mask b then new b else old b

variable {ι β δ : Type*} {copy copy' : ι → Option (Copy β δ)} {mem : β → δ} {i : ι}

/-- The copies of a line agree with each other and with memory. -/
structure Coherent (copy : ι → Option (Copy β δ)) (mem : β → δ) : Prop where
  /-- an unshared copy is the only one -/
  alone : ∀ {j k l m}, copy j = some l → l.shared = false → copy k = some m → j = k
  /-- one agent owns all dirty bytes -/
  owner : ∀ {j k l m a b}, copy j = some l → l.dirty a = true → copy k = some m → m.dirty b = true → j = k
  agree : ∀ {j k l m}, copy j = some l → copy k = some m → l.data = m.data
  clean : ∀ {k m b}, copy k = some m → (∀ j l, copy j = some l → l.dirty b = false) → mem b = m.data b

namespace Coherent

theorem nowhere (h : ∀ j, copy j = none) : Coherent copy mem := by
  constructor <;> simp [h]

/-- Only one agent holds a copy, and its clean bytes are those of memory. -/
theorem sole (h : ∀ k, k ≠ i → copy k = none)
    (hm : ∀ l, copy i = some l → ∀ b, l.dirty b = false → mem b = l.data b) : Coherent copy mem := by
  have hi : ∀ {k l}, copy k = some l → k = i := by
    intro k l hk
    by_contra hne
    simp [h k hne] at hk
  constructor
  · intro j k l m hj _ hk
    rw [hi hj, hi hk]
  · intro j k l m a b hj _ hk _
    rw [hi hj, hi hk]
  · intro j k l m hj hk
    rw [hi hj] at hj
    rw [hi hk, hj] at hk
    cases hk
    rfl
  · intro k m b hk hd
    exact hm m (hi hk ▸ hk) b (hd k m hk)

/-- A clean copy may be dropped. -/
theorem drop (h : Coherent copy mem) (hi : copy' i = none) (hk : ∀ k, k ≠ i → copy' k = copy k)
    (hd : ∀ l, copy i = some l → ∀ b, l.dirty b = false) : Coherent copy' mem := by
  have hold : ∀ {k l}, copy' k = some l → copy k = some l := by
    intro k l hl
    by_cases hki : k = i
    · simp [hki, hi] at hl
    · rwa [hk k hki] at hl
  constructor
  · exact fun hj hs hk => h.alone (hold hj) hs (hold hk)
  · exact fun hj ha hk hb => h.owner (hold hj) ha (hold hk) hb
  · exact fun hj hk => h.agree (hold hj) (hold hk)
  · intro k m b hm hc
    refine h.clean (hold hm) fun j l hj => ?_
    by_cases hji : j = i
    · exact hd l (hji ▸ hj) b
    · exact hc j l (by rwa [hk j hji])

/-- The owner writes its dirty bytes to memory and gives its copy up. -/
theorem writeBack (h : Coherent copy mem) {l : Copy β δ} (hl : copy i = some l) (hi : copy' i = none)
    (hk : ∀ k, k ≠ i → copy' k = copy k) : Coherent copy' (merge l.dirty l.data mem) := by
  have hold : ∀ {k m}, copy' k = some m → k ≠ i ∧ copy k = some m := by
    intro k m hm
    by_cases hki : k = i
    · simp [hki, hi] at hm
    · exact ⟨hki, by rwa [hk k hki] at hm⟩
  constructor
  · exact fun hj hs hk => h.alone (hold hj).2 hs (hold hk).2
  · exact fun hj ha hk hb => h.owner (hold hj).2 ha (hold hk).2 hb
  · exact fun hj hk => h.agree (hold hj).2 (hold hk).2
  · intro k m b hm hc
    rw [merge]
    split_ifs with hb
    · exact congrFun (h.agree hl (hold hm).2) b
    · refine h.clean (hold hm).2 fun j n hj => ?_
      by_cases hji : j = i
      · rw [hji, hl] at hj
        cases hj
        simpa using hb
      · exact hc j n (by rwa [hk j hji])

/-- A reader gets a clean copy of the line from a holder; from then on all copies are shared. -/
theorem read (h : Coherent copy mem) {f : ι} {l : Copy β δ} (hl : copy f = some l) (hn : copy i = none)
    (hi : copy' i = some ⟨l.data, fun _ => false, true⟩)
    (hk : ∀ k, k ≠ i → copy' k = (copy k).map fun m => { m with shared := true }) : Coherent copy' mem := by
  have hold : ∀ {k m}, copy' k = some m → m.shared = true ∧ m.data = l.data ∧
      ((k = i ∧ ∀ b, m.dirty b = false) ∨ (k ≠ i ∧ ∃ n, copy k = some n ∧ m.dirty = n.dirty)) := by
    intro k m hm
    by_cases hki : k = i
    · rw [hki, hi] at hm
      cases hm
      exact ⟨rfl, rfl, .inl ⟨hki, fun _ => rfl⟩⟩
    · rw [hk k hki, Option.map_eq_some_iff] at hm
      obtain ⟨n, hn, rfl⟩ := hm
      have hd : n.data = l.data := h.agree hn hl
      exact ⟨rfl, hd, .inr ⟨hki, n, hn, rfl⟩⟩
  constructor
  · intro j k m n hj hs _
    rw [(hold hj).1] at hs
    cases hs
  · intro j k m n a b hj ha hk hb
    obtain ⟨-, -, ⟨-, hd⟩ | ⟨-, m', hm, hd⟩⟩ := hold hj
    · simp [hd a] at ha
    obtain ⟨-, -, ⟨-, he⟩ | ⟨-, n', hn, he⟩⟩ := hold hk
    · simp [he b] at hb
    exact h.owner hm (hd ▸ ha) hn (he ▸ hb)
  · exact fun hj hk => (hold hj).2.1.trans (hold hk).2.1.symm
  · intro k m b hm hc
    rw [(hold hm).2.1]
    refine h.clean hl fun j n hj => ?_
    have hji : j ≠ i := by
      intro hji
      simp [hji, hn] at hj
    exact hc j { n with shared := true } (by rw [hk j hji, hj]; rfl)

end Coherent
end Culsans.Library
