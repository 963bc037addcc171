import Culsans.Library.BitTree
import Culsans.Library.Machine
import Culsans.Mmu.Tlb

/-! # Replacement in the translation lookaside buffer

The nodes of the PLRU tree on the way to an entry that hits are turned away from it; the next
victim is the entry to which the nodes lead.
-/

namespace Culsans.Mmu.Tlb
open Library Library.BitTree
variable {w k : ℕ} {q : Tlb w k} {i : TlbIn w} {j l : Fin (2 ^ k)} {b : Bool}

def machine (w k : ℕ) : Machine (Tlb w k) (TlbIn w) where
  init s := s = reset
  next := step

/-- The entries that a lookup marks as used. -/
def used (q : Tlb w k) (i : TlbIn w) (j : Fin (2 ^ k)) : Bool := q.luHit i.luAsid i.luVaddr j && i.luAccess

/-- The half of the tree in which an entry lies. -/
def half (j : Fin (2 ^ k)) : Bool := turn k j 0

/-! ### The tree -/

theorem replaceEn_iff : q.replaceEn j = true ↔ LeadsTo q.plruTree k j := by
  simp only [replaceEn, List.all_eq_true, List.mem_range, beq_iff_eq]
  rfl

theorem plruHit_eq (t : ℕ → Bool) : plruHit k j t = avoid k j t (List.range k) := rfl

/-- The nodes of the way point away from the entry after a hit. -/
theorem plruHit_node {t : ℕ → Bool} {lvl p : ℕ} (hp : p < 2 ^ lvl) (hl : lvl < k) :
    plruHit k j t (node lvl p) = if p = above k j lvl then !turn k j lvl else t (node lvl p) := by
  rw [plruHit_eq, avoid_node j.isLt hp fun l hl' => (List.mem_range.mp hl').le]
  simp [hl]

theorem plruHit_root (hk : 0 < k) (t : ℕ → Bool) : plruHit k j t (node 0 0) = !half j := by
  rw [plruHit_node (by decide) hk, if_pos (above_zero j.isLt).symm]
  rfl

theorem plruHit_other {t : ℕ → Bool} {m : ℕ} (h : ∀ lvl < k, m ≠ node lvl (above k j lvl)) : plruHit k j t m = t m := by
  rw [plruHit_eq]
  exact avoid_other fun lvl hl => h lvl (List.mem_range.mp hl)

theorem plruTree_step : (q.step i).plruTree =
    (List.finRange (2 ^ k)).foldl (fun t j => if q.used i j then plruHit k j t else t) q.plruTree := rfl

/-- A lookup that hits one entry. -/
theorem plruTree_only (h : ∀ l, q.used i l = true ↔ l = j) : (q.step i).plruTree = plruHit k j q.plruTree := by
  have hused : q.used i = fun l => l == j := by
    funext l
    rw [Bool.eq_iff_iff, h l, beq_iff_eq]
  have hone : (List.finRange (2 ^ k)).filter (q.used i) = [j] := by
    rw [hused, List.filter_beq, List.count_eq_one_of_mem (List.nodup_finRange _) (List.mem_finRange j)]
    rfl
  rw [plruTree_step, ← List.foldl_filter, hone]
  rfl

/-! ### The victim -/

theorem replaceEn_follow : q.replaceEn ⟨follow q.plruTree k, follow_lt⟩ = true :=
  replaceEn_iff.mpr leadsTo_follow

theorem replaceEn_unique (h : q.replaceEn j = true) : j = ⟨follow q.plruTree k, follow_lt⟩ :=
  Fin.ext ((replaceEn_iff.mp h).eq_follow j.isLt)

/-- Two entries of different halves have no node in common below the root. -/
theorem above_ne {lvl : ℕ} (h : half l ≠ half j) (h0 : 0 < lvl) (hl : lvl ≤ k) : above k l lvl ≠ above k j lvl := by
  have hhalf (x : Fin (2 ^ k)) : half x = (above k x lvl).testBit (lvl - 1) := by
    rw [half, turn, above, Nat.testBit_shiftRight]
    congr 1
    omega
  intro heq
  exact h (by rw [hhalf, hhalf, heq])

/-- After a hit the victim is the entry of the other half to which the nodes below the root lead. -/
theorem victim_of_hit (hk : 0 < k) (h : ∀ l, q.used i l = true ↔ l = j) :
    (q.step i).replaceEn l = true ↔
      half l = !half j ∧ ∀ lvl, 0 < lvl → lvl < k → q.plruTree (node lvl (above k l lvl)) = turn k l lvl := by
  rw [replaceEn_iff, plruTree_only h]
  have hroot : plruHit k j q.plruTree (node 0 (above k l 0)) = !half j := by
    rw [above_zero l.isLt, plruHit_root hk]
  have hbelow {lvl : ℕ} (hne : half l = !half j) (h0 : 0 < lvl) (hl : lvl < k) :
      plruHit k j q.plruTree (node lvl (above k l lvl)) = q.plruTree (node lvl (above k l lvl)) := by
    rw [plruHit_node (above_lt l.isLt hl.le) hl, if_neg (above_ne (by simp [hne]) h0 hl.le)]
  constructor
  · intro hlead
    have hne : half l = !half j := (hlead 0 hk).symm.trans hroot
    exact ⟨hne, fun lvl h0 hl => (hbelow hne h0 hl).symm.trans (hlead lvl hl)⟩
  · rintro ⟨hne, hlead⟩ lvl hl
    rcases Nat.eq_zero_or_pos lvl with rfl | h0
    · exact hroot.trans hne.symm
    · exact (hbelow hne h0 hl).trans (hlead lvl h0 hl)

/-! ### Runs of lookups -/

/-- Every entry that the lookup marks as used lies in one half. -/
def UsesHalf (b : Bool) (q : Tlb w k) (i : TlbIn w) : Prop := ∀ j, q.used i j = true → half j = b

/-- The root points away from the half in which entries have been used. -/
theorem root_step (hk : 0 < k) (h : UsesHalf b q i)
    (hr : q.plruTree (node 0 0) = !b ∨ ∃ j, q.used i j = true) : (q.step i).plruTree (node 0 0) = !b := by
  have hfold (js : List (Fin (2 ^ k))) (t : ℕ → Bool) (ht : t (node 0 0) = !b ∨ ∃ j ∈ js, q.used i j = true) :
      js.foldl (fun t j => if q.used i j then plruHit k j t else t) t (node 0 0) = !b := by
    induction js generalizing t with
    | nil => simpa using ht
    | cons j js ih =>
      rw [List.foldl_cons]
      apply ih
      cases hj : q.used i j with
      | true => exact .inl (by rw [if_pos rfl, plruHit_root hk, h j hj])
      | false =>
        rw [if_neg Bool.false_ne_true]
        refine ht.imp id ?_
        rintro ⟨l, hl, hu⟩
        rcases List.mem_cons.mp hl with rfl | hl
        · exact absurd (hj.symm.trans hu) (by decide)
        · exact ⟨l, hl, hu⟩
  rw [plruTree_step]
  exact hfold _ _ (hr.imp id fun ⟨j, hj⟩ => ⟨j, List.mem_finRange j, hj⟩)

theorem root_run (hk : 0 < k) {is : List (TlbIn w)} (hr : q.plruTree (node 0 0) = !b)
    (h : (machine w k).Along (UsesHalf b) q is) : ((machine w k).run q is).plruTree (node 0 0) = !b := by
  induction is generalizing q with
  | nil => exact hr
  | cons i is ih => exact ih (root_step hk h.1 (.inl hr)) h.2

theorem half_of_root (hk : 0 < k) (hr : q.plruTree (node 0 0) = !b) (h : q.replaceEn j = true) : half j = !b := by
  have hlead := replaceEn_iff.mp h 0 hk
  rw [above_zero j.isLt] at hlead
  exact hlead.symm.trans hr

/-- One entry is selected for replacement, whatever the tree holds. A hit makes only the nodes on the way
to the entry point away from it, so the victim comes from the other half; it stays in the other half
for as long as only entries of the one half are used. -/
theorem plru_replacement (hk : 0 < k) (q : Tlb w k) :
    (∃! j, q.replaceEn j = true) ∧
    (∀ i j, (∀ l, q.used i l = true ↔ l = j) →
      (q.step i).replaceEn j = false ∧
      (∀ lvl < k, (q.step i).plruTree (node lvl (above k j lvl)) = !turn k j lvl) ∧
      (∀ m, (∀ lvl < k, m ≠ node lvl (above k j lvl)) → (q.step i).plruTree m = q.plruTree m) ∧
      ∀ l, (q.step i).replaceEn l = true ↔ half l = !half j ∧
        ∀ lvl, 0 < lvl → lvl < k → q.plruTree (node lvl (above k l lvl)) = turn k l lvl) ∧
    ∀ b i is, (∃ j, q.used i j = true) → UsesHalf b q i → (machine w k).Along (UsesHalf b) (q.step i) is →
      ∀ l, ((machine w k).run (q.step i) is).replaceEn l = true → half l = !b := by
  refine ⟨⟨_, replaceEn_follow, fun j hj => replaceEn_unique hj⟩, fun i j h => ⟨?_, ?_, ?_, ?_⟩, ?_⟩
  · have hvictim := (victim_of_hit (l := j) hk h).mp
    by_contra hne
    simpa using (hvictim (by simpa using hne)).1
  · intro lvl hl
    rw [plruTree_only h, plruHit_node (above_lt j.isLt hl.le) hl, if_pos rfl]
  · intro m hm
    rw [plruTree_only h, plruHit_other hm]
  · exact fun l => victim_of_hit hk h
  · intro b i is hex hhalf halong l hl
    exact half_of_root hk (root_run hk (root_step hk hhalf (.inr hex)) halong) hl

/-- A translation of page 5 is stored. -/
def storeIn : TlbIn 1 :=
  ⟨false, ⟨true, false, false, 5, 1, { zeroPte with r := true, v := true }⟩, false, 0, 0, 0, 0⟩

/-- An access to page 5. -/
def accessIn : TlbIn 1 := ⟨false, ⟨false, false, false, 0, 0, zeroPte⟩, true, 1, 0x5000, 0, 0⟩

/-- The translation goes to entry 0; when it is used the victim is an entry of the other half. -/
theorem plru_replacement_access :
    let q : Tlb 1 2 := reset.step storeIn
    q.used accessIn 0 = true ∧ (q.step accessIn).replaceEn 0 = false ∧ (q.step accessIn).replaceEn 2 = true ∧
      ∀ l, ((machine 1 2).run (q.step accessIn) [accessIn, accessIn]).replaceEn l = true → half l = true := by
  obtain ⟨-, hhit, hrun⟩ := plru_replacement (by decide) (reset.step storeIn : Tlb 1 2)
  refine ⟨by decide +kernel, (hhit accessIn 0 (by decide +kernel)).1, by decide +kernel, ?_⟩
  exact hrun false accessIn _ ⟨0, by decide +kernel⟩ (by unfold UsesHalf; decide +kernel)
    ⟨by unfold UsesHalf; decide +kernel, by unfold UsesHalf; decide +kernel, trivial⟩

end Culsans.Mmu.Tlb
