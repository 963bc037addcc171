import Mathlib.Data.Set.Basic
import Culsans.Mmu.Replacement
import Culsans.Mmu.Walker

/-! # What the translation lookaside buffer holds, and SFENCE.VMA

The buffer serves one page table for each address space. An entry of a page that is global is
used in all of them, so what is global must be the same everywhere.
-/

namespace Culsans.Mmu
open Library

/-! ### Translations -/

section Translation
variable {mem : BitVec 56 → Pte} {root b : BitVec 44} {va va' : BitVec 64} {n m : ℕ} {p : Pte} {g g' : Bool}
  {allow : BitVec 56 → Bool} {ok : Pte → Bool}

/-- The leaf of an address and its level. The entry is global if one on the way to it is. -/
def translation (mem : BitVec 56 → Pte) (root : BitVec 44) (va : BitVec 64) : Option (ℕ × Pte) :=
  match checkedWalk mem (fun _ => true) (fun _ => true) va 2 root false with
  | .leaf n p g => some (n, { p with g := g })
  | _ => none

theorem translation_eq_some : translation mem root va = some (n, p) ↔
    ∃ p' g, checkedWalk mem (fun _ => true) (fun _ => true) va 2 root false = .leaf n p' g ∧
      p = { p' with g := g } := by
  rw [translation]
  cases hw : checkedWalk mem (fun _ => true) (fun _ => true) va 2 root false with
  | accessException pa => simp
  | pageFault => simp
  | leaf n' p' g =>
    simp only [Option.some.injEq, Prod.mk.injEq, WalkResult.leaf.injEq]
    constructor
    · rintro ⟨rfl, rfl⟩
      exact ⟨p', g, ⟨rfl, rfl, rfl⟩, rfl⟩
    · rintro ⟨_, _, ⟨rfl, rfl, rfl⟩, rfl⟩
      exact ⟨rfl, rfl⟩

/-- What a visit that gives a leaf has found. -/
theorem visit_eq_leaf {below : BitVec 44 → Bool → WalkResult} (h : visit mem allow ok va n b g below = .leaf m p g') :
    (m = n ∧ ∀ va' below', vpn va' n = vpn va n → visit mem allow ok va' n b g below' = .leaf m p g') ∨
      (mem (pteAddr b (vpn va n))).invalid = false ∧
        below (mem (pteAddr b (vpn va n))).ppn (g || (mem (pteAddr b (vpn va n))).g) = .leaf m p g' ∧
        ∀ va' below', vpn va' n = vpn va n → visit mem allow ok va' n b g below' =
          below' (mem (pteAddr b (vpn va n))).ppn (g || (mem (pteAddr b (vpn va n))).g) := by
  cases ha : allow (pteAddr b (vpn va n)) with
  | false =>
    rw [visit_forbidden ha] at h
    cases h
  | true =>
    cases hi : (mem (pteAddr b (vpn va n))).invalid with
    | true =>
      rw [visit_invalid ha hi] at h
      cases h
    | false =>
      cases hl : ((mem (pteAddr b (vpn va n))).r || (mem (pteAddr b (vpn va n))).x) with
      | true =>
        refine .inl ?_
        have hres := h
        rw [visit_leaf ha rfl hi hl] at hres
        split_ifs at hres with hok
        cases hres
        refine ⟨rfl, fun va' below' hv => ?_⟩
        rw [visit_leaf (by rwa [hv]) (by rw [hv]) hi hl, if_pos hok]
      | false =>
        refine .inr ⟨rfl, ?_, fun va' below' hv => ?_⟩
        · rwa [visit_table ha rfl hi hl] at h
        · rw [visit_table (by rwa [hv]) (by rw [hv]) hi hl]

/-- The leaf depends on the page numbers of its level and those above. -/
theorem checkedWalk_congr (h : checkedWalk mem allow ok va n b g = .leaf m p g') :
    m ≤ n ∧ ((∀ l, m ≤ l → l ≤ n → vpn va' l = vpn va l) → checkedWalk mem allow ok va' n b g = .leaf m p g') := by
  induction n generalizing b g with
  | zero =>
    rw [checkedWalk] at h
    rcases visit_eq_leaf h with ⟨rfl, hva⟩ | ⟨-, hbelow, -⟩
    · exact ⟨le_rfl, fun hv => hva va' _ (hv 0 le_rfl le_rfl)⟩
    · cases hbelow
  | succ n ih =>
    rw [checkedWalk] at h
    rcases visit_eq_leaf h with ⟨rfl, hva⟩ | ⟨-, hbelow, hva⟩
    · exact ⟨le_rfl, fun hv => hva va' _ (hv (n + 1) le_rfl le_rfl)⟩
    · obtain ⟨hle, hwalk⟩ := ih hbelow
      refine ⟨Nat.le_succ_of_le hle, fun hv => ?_⟩
      rw [checkedWalk, hva va' _ (hv (n + 1) (Nat.le_succ_of_le hle) le_rfl)]
      exact hwalk fun l hl hln => hv l hl (Nat.le_succ_of_le hln)

/-- The addresses of a page have one translation. -/
theorem translation_congr (h : translation mem root va = some (n, p)) (hv : ∀ l, n ≤ l → l ≤ 2 → vpn va' l = vpn va l) :
    translation mem root va' = some (n, p) := by
  obtain ⟨p', g, hw, rfl⟩ := translation_eq_some.mp h
  exact translation_eq_some.mpr ⟨p', g, (checkedWalk_congr hw).2 hv, rfl⟩

theorem translation_level_le (h : translation mem root va = some (n, p)) : n ≤ 2 := by
  obtain ⟨p', g, hw, -⟩ := translation_eq_some.mp h
  have hcongr : n ≤ 2 ∧ ((∀ l, n ≤ l → l ≤ 2 → vpn va l = vpn va l) → _) := checkedWalk_congr hw
  exact hcongr.1

/-- A walk that may use only some leaves, and only where the PMP allows its reads, finds no other leaf. -/
theorem checkedWalk_mono (h : checkedWalk mem allow ok va n b g = .leaf m p g') :
    checkedWalk mem (fun _ => true) (fun _ => true) va n b g = .leaf m p g' := by
  have hvisit {n : ℕ} {b : BitVec 44} {g : Bool} {below below' : BitVec 44 → Bool → WalkResult}
      (hbelow : ∀ b g, below b g = .leaf m p g' → below' b g = .leaf m p g')
      (h : visit mem allow ok va n b g below = .leaf m p g') :
      visit mem (fun _ => true) (fun _ => true) va n b g below' = .leaf m p g' := by
    rw [visit] at h ⊢
    split_ifs at h with hno
    rw [if_neg (by simp)]
    cases he : (mem (pteAddr b (vpn va n))).entry with
    | fault => simp [he] at h
    | leaf p' =>
      simp only [he, Bool.and_true] at h ⊢
      split_ifs at h with hok
      rwa [if_pos (Bool.and_eq_true_iff.mp hok).1]
    | table b' =>
      simp only [he] at h ⊢
      exact hbelow _ _ h
  induction n generalizing b g with
  | zero =>
    refine hvisit ?_ h
    intro b g hf
    cases hf
  | succ n ih => exact hvisit (fun _ _ => ih) h

end Translation

/-! ### Entries -/

section Entries
variable {w k : ℕ} {mem : BitVec 56 → Pte} {root : BitVec w → BitVec 44} {t : Tag w} {c p : Pte} {a a' : BitVec w}
  {va va' : BitVec 64} {n : ℕ} {u : TlbUpdate w}

/-- What is global is mapped alike in every address space. -/
def GlobalsShared (mem : BitVec 56 → Pte) (root : BitVec w → BitVec 44) : Prop :=
  ∀ a a' va n p, translation mem (root a) va = some (n, p) → p.g = true → translation mem (root a') va = some (n, p)

/-- The update for a translated address. -/
structure UpdateOf (mem : BitVec 56 → Pte) (root : BitVec w → BitVec 44) (a : BitVec w) (va : BitVec 64)
    (u : TlbUpdate w) : Prop where
  walk : ∃ n, translation mem (root a) va = some (n, u.content) ∧ Tlb.AtLevel n u.is2M u.is1G
  vpn : u.vpn = va.extractLsb' 12 27
  asid : u.asid = a

/-- The walker updates the buffers with translations. -/
theorem updateOf_of_walk {k : Walk w} {allow : BitVec 56 → Bool} {isInstr : Bool} (hr : k.root = root k.asid)
    (h : k.event mem allow = .update isInstr u) : UpdateOf mem root k.asid k.vaddr u := by
  rw [Walk.event] at h
  cases hres : k.result mem allow with
  | accessException pa => simp [hres] at h
  | pageFault => simp [hres] at h
  | leaf n p g =>
    simp only [hres, WalkEvent.update.injEq] at h
    obtain ⟨-, rfl⟩ := h
    rw [Walk.result] at hres
    exact ⟨⟨n, translation_eq_some.mpr ⟨p, g, hr ▸ checkedWalk_mono hres, rfl⟩, rfl, rfl⟩, rfl, rfl⟩

def Tag.level (t : Tag w) : ℕ := if t.is1G then 2 else if t.is2M then 1 else 0

def Tag.vpn (t : Tag w) : ℕ → BitVec 9
  | 0 => t.vpn0
  | 1 => t.vpn1
  | _ => t.vpn2

/-- The addresses of the page of an entry. -/
def Tag.page (t : Tag w) : Set (BitVec 64) := {va | ∀ l, t.level ≤ l → l ≤ 2 → Mmu.vpn va l = t.vpn l}

theorem mem_page : va ∈ t.page ↔ Tlb.vpnHit t va = true := by
  simp only [Tag.page, Set.mem_ofPred_eq, Tlb.vpnHit, Bool.and_eq_true, Bool.or_eq_true, beq_iff_eq, Tag.level]
  constructor
  · intro h
    have h2 := h 2 (by split_ifs <;> omega) le_rfl
    refine ⟨h2, ?_⟩
    cases h1G : t.is1G with
    | true => exact .inl rfl
    | false =>
      rw [h1G, if_neg Bool.false_ne_true] at h
      refine .inr ⟨h 1 (by split_ifs <;> omega) (by decide), ?_⟩
      cases h2M : t.is2M with
      | true => exact .inl rfl
      | false => exact .inr (h 0 (by simp [h2M]) (by decide))
  · rintro ⟨h2, h⟩ l hl hle
    obtain rfl | rfl | rfl : l = 0 ∨ l = 1 ∨ l = 2 := by omega
    · split_ifs at hl with h1G h2M
      · omega
      · omega
      · exact ((h.resolve_left h1G).2).resolve_left h2M
    · split_ifs at hl with h1G
      · omega
      · exact (h.resolve_left h1G).1
      · exact (h.resolve_left h1G).1
    · exact h2

/-- The address space of an entry, or all of them if it is global. -/
def Spans (t : Tag w) (c : Pte) (a : BitVec w) : Prop := a = t.asid ∨ c.g = true

theorem luHit_iff {q : Tlb w k} {j : Fin (2 ^ k)} : q.luHit a va j = true ↔
    (q.tags j).valid = true ∧ Spans (q.tags j) (q.content j) a ∧ va ∈ (q.tags j).page := by
  simp only [Tlb.luHit, mem_page, Spans, Bool.and_eq_true, Bool.or_eq_true, beq_iff_eq, and_assoc]

/-- An entry holds the translation of every address that it is used for. -/
structure Holds (mem : BitVec 56 → Pte) (root : BitVec w → BitVec 44) (t : Tag w) (c : Pte) (n : ℕ) : Prop where
  level : t.level = n
  flags : Tlb.AtLevel n t.is2M t.is1G
  walk : ∀ a va, Spans t c a → va ∈ t.page → translation mem (root a) va = some (n, c)

theorem level_of_atLevel (h : Tlb.AtLevel n t.is2M t.is1G) (hn : n ≤ 2) : t.level = n := by
  rw [Tag.level, h.mega, h.giga]
  obtain rfl | rfl | rfl : n = 0 ∨ n = 1 ∨ n = 2 := by omega
  all_goals rfl

theorem vpn_updateTag (h : u.vpn = va.extractLsb' 12 27) {l : ℕ} (hl : l ≤ 2) :
    (Tlb.updateTag u).vpn l = Mmu.vpn va l := by
  obtain rfl | rfl | rfl : l = 0 ∨ l = 1 ∨ l = 2 := by omega
  all_goals
    simp only [Tag.vpn, Tlb.updateTag, h]
    exact Tlb.slice_vpn (by decide)

theorem mem_page_updateTag (h : u.vpn = va.extractLsb' 12 27) : va ∈ (Tlb.updateTag u).page :=
  fun _ _ hl => (vpn_updateTag h hl).symm

theorem holds_update (hg : GlobalsShared mem root) (h : UpdateOf mem root a va u) :
    ∃ n, Holds mem root (Tlb.updateTag u) u.content n := by
  obtain ⟨n, hwalk, hflags⟩ := h.walk
  have hlevel : (Tlb.updateTag u).level = n := level_of_atLevel hflags (translation_level_le hwalk)
  refine ⟨n, hlevel, hflags, fun a' va' hspan hpage => ?_⟩
  have hva : translation mem (root a) va' = some (n, u.content) := by
    refine translation_congr hwalk fun l hl hle => ?_
    rw [hpage l (hlevel.trans_le hl) hle, vpn_updateTag h.vpn hle]
  rcases hspan with hs | hs
  · rwa [hs, show (Tlb.updateTag u).asid = u.asid from rfl, h.asid]
  · exact hg a a' va' n _ hva hs

/-- Two entries that are used for one address are used for the same addresses. -/
theorem Holds.same {t' : Tag w} {c' : Pte} {n' : ℕ} (h : Holds mem root t c n) (h' : Holds mem root t' c' n')
    (hs : Spans t c a) (hp : va ∈ t.page) (hs' : Spans t' c' a) (hp' : va ∈ t'.page) {a₀ : BitVec w} {va₀ : BitVec 64}
    (hs₀ : Spans t c a₀) (hp₀ : va₀ ∈ t.page) : Spans t' c' a₀ ∧ va₀ ∈ t'.page := by
  have heq := (h.walk a va hs hp).symm.trans (h'.walk a va hs' hp')
  simp only [Option.some.injEq, Prod.mk.injEq] at heq
  obtain ⟨rfl, rfl⟩ := heq
  refine ⟨?_, fun l hl hle => ?_⟩
  · rcases hs₀ with rfl | hglobal
    · rcases hs' with rfl | hglobal
      · exact hs.imp Eq.symm id
      · exact .inr hglobal
    · exact .inr hglobal
  · rw [h'.level] at hl
    rw [hp₀ l (h.level.trans_le hl) hle, ← hp l (h.level.trans_le hl) hle, hp' l (h'.level.trans_le hl) hle]

end Entries

namespace Tlb
variable {w k : ℕ} {mem : BitVec 56 → Pte} {root : BitVec w → BitVec 44} {q : Tlb w k} {i : TlbIn w}
  {j j' : Fin (2 ^ k)} {a : BitVec w} {va : BitVec 64} {n : ℕ} {x : Tlb w k × List (BitVec w × BitVec 64)}

/-! ### Lookups -/

theorem lookup_eq_foldl : q.lookup a va = ((List.finRange (2 ^ k)).filter (q.luHit a va)).foldl
    (fun o j => { content := q.content j, is2M := if (q.tags j).is1G then o.is2M else (q.tags j).is2M,
                  is1G := (q.tags j).is1G || o.is1G, hit := true }) ⟨zeroPte, false, false, false⟩ := by
  rw [List.foldl_filter]
  rfl

/-- A lookup hits when some entry matches. -/
theorem lookup_hit_iff : (q.lookup a va).hit = true ↔ ∃ j, q.luHit a va j = true := by
  rw [lookup_eq_foldl]
  constructor
  · intro h
    by_contra hno
    have hnil : (List.finRange (2 ^ k)).filter (q.luHit a va) = [] :=
      List.filter_eq_nil_iff.mpr fun j _ hj => hno ⟨j, hj⟩
    rw [hnil] at h
    exact Bool.false_ne_true h
  · rintro ⟨j, hj⟩
    obtain ⟨js, j', hjs⟩ : ∃ js j', (List.finRange (2 ^ k)).filter (q.luHit a va) = js ++ [j'] := by
      have hne : (List.finRange (2 ^ k)).filter (q.luHit a va) ≠ [] :=
        List.ne_nil_of_mem (List.mem_filter.mpr ⟨List.mem_finRange j, hj⟩)
      exact ⟨_, _, (List.dropLast_append_getLast hne).symm⟩
    rw [hjs, List.foldl_append]
    rfl

/-- What a lookup answers if one entry matches. -/
theorem lookup_of_only (h : ∀ l, q.luHit a va l = true ↔ l = j) : q.lookup a va =
    ⟨q.content j, !(q.tags j).is1G && (q.tags j).is2M, (q.tags j).is1G, true⟩ := by
  have hhit : q.luHit a va = fun l => l == j := by
    funext l
    rw [Bool.eq_iff_iff, h l, beq_iff_eq]
  have hone : (List.finRange (2 ^ k)).filter (q.luHit a va) = [j] := by
    rw [hhit, List.filter_beq, List.count_eq_one_of_mem (List.nodup_finRange _) (List.mem_finRange j)]
    rfl
  rw [lookup_eq_foldl, hone]
  cases h1G : (q.tags j).is1G <;> simp [h1G]

/-! ### The fence -/

/-- SFENCE.VMA covers an entry: with address 0 every page, with address space 0 also what is global. -/
def Covered (i : TlbIn w) (t : Tag w) (c : Pte) : Prop :=
  (i.asidToBeFlushed = 0 ∨ c.g = false ∧ i.asidToBeFlushed = t.asid) ∧
    (i.vaddrToBeFlushed = 0 ∨ i.vaddrToBeFlushed ∈ t.page)

theorem flushed_iff : q.flushed i j = true ↔ Covered i (q.tags j) (q.content j) := by
  have hpage : ((vpn i.vaddrToBeFlushed 0 == (q.tags j).vpn0 && vpn i.vaddrToBeFlushed 1 == (q.tags j).vpn1 &&
      vpn i.vaddrToBeFlushed 2 == (q.tags j).vpn2) || (vpn i.vaddrToBeFlushed 2 == (q.tags j).vpn2 &&
        (q.tags j).is1G) ||
      (vpn i.vaddrToBeFlushed 1 == (q.tags j).vpn1 && vpn i.vaddrToBeFlushed 2 == (q.tags j).vpn2 && (q.tags j).is2M)) =
      vpnHit (q.tags j) i.vaddrToBeFlushed := by
    rw [vpnHit]
    cases vpn i.vaddrToBeFlushed 0 == (q.tags j).vpn0 <;> cases vpn i.vaddrToBeFlushed 1 == (q.tags j).vpn1 <;>
      cases vpn i.vaddrToBeFlushed 2 == (q.tags j).vpn2 <;> cases (q.tags j).is1G <;> cases (q.tags j).is2M <;> rfl
  simp only [flushed, hpage, Covered, mem_page]
  by_cases ha : i.asidToBeFlushed = 0#w
  · by_cases hv : i.vaddrToBeFlushed = 0#64
    · simp [ha, hv]
    · simp [ha, hv]
  · by_cases hv : i.vaddrToBeFlushed = 0#64
    · simp [ha, hv]
    · cases vpnHit (q.tags j) i.vaddrToBeFlushed <;> simp [ha, hv]

theorem tags_flush (hf : i.flush = true) : (q.step i).tags j = { q.tags j with
  valid := (q.tags j).valid && !q.flushed i j } := by
  simp [step, hf]

theorem content_flush (hf : i.flush = true) : (q.step i).content j = q.content j := by
  simp [step, hf]

/-! ### Runs -/

/-- The addresses that have missed since the last update. -/
def misses (x : Tlb w k × List (BitVec w × BitVec 64)) (i : TlbIn w) : List (BitVec w × BitVec 64) :=
  if i.luAccess && !(x.1.lookup i.luAsid i.luVaddr).hit then (i.luAsid, i.luVaddr) :: x.2 else x.2

def watched (w k : ℕ) : Machine (Tlb w k × List (BitVec w × BitVec 64)) (TlbIn w) :=
  (machine w k).observe [] fun l q i => if i.update.valid && !i.flush then [] else misses (q, l) i

/-- An update is for an address that has missed, and gives its translation. -/
def Walked (mem : BitVec 56 → Pte) (root : BitVec w → BitVec 44) (x : Tlb w k × List (BitVec w × BitVec 64))
    (i : TlbIn w) : Prop :=
  i.update.valid = true → ∃ m ∈ misses x i, UpdateOf mem root m.1 m.2 i.update

structure EntriesInv (mem : BitVec 56 → Pte) (root : BitVec w → BitVec 44) (x : Tlb w k × List (BitVec w × BitVec 64)) :
    Prop where
  holds : ∀ j, (x.1.tags j).valid = true → ∃ n, Holds mem root (x.1.tags j) (x.1.content j) n
  alone : ∀ j j' a va, x.1.luHit a va j = true → x.1.luHit a va j' = true → j = j'
  missed : ∀ m ∈ x.2, ∀ j, x.1.luHit m.1 m.2 j = false

theorem EntriesInv.missed_now (h : EntriesInv mem root x) {m : BitVec w × BitVec 64} (hm : m ∈ misses x i)
    (j : Fin (2 ^ k)) : x.1.luHit m.1 m.2 j = false := by
  rw [misses] at hm
  split_ifs at hm with hmiss
  · rcases List.mem_cons.mp hm with rfl | hm
    · rw [Bool.and_eq_true, Bool.not_eq_true'] at hmiss
      by_contra hj
      exact absurd (hmiss.2.symm.trans (lookup_hit_iff.mpr ⟨j, by simpa using hj⟩)) Bool.false_ne_true
    · exact h.missed m hm j
  · exact h.missed m hm j

/-- An entry that is kept matches what it matched. -/
theorem luHit_congr {q' : Tlb w k} (ht : q'.tags j = q.tags j) (hc : q'.content j = q.content j) :
    q'.luHit a va j = q.luHit a va j := by
  rw [luHit, luHit, ht, hc]

theorem luHit_flush (hf : i.flush = true) (h : (q.step i).luHit a va j = true) : q.luHit a va j = true := by
  simp only [luHit, tags_flush hf, content_flush hf, Bool.and_eq_true] at h ⊢
  exact ⟨⟨h.1.1.1, h.1.2⟩, h.2⟩

theorem entries_flush (h : EntriesInv mem root x) (hf : i.flush = true) :
    EntriesInv mem root (x.1.step i, misses x i) where
  holds j hv := by
    rw [tags_flush hf, Bool.and_eq_true] at hv
    obtain ⟨n, hn⟩ := h.holds j hv.1
    refine ⟨n, ?_⟩
    rw [tags_flush hf, content_flush hf]
    exact ⟨hn.level, hn.flags, hn.walk⟩
  alone j j' a va hj hj' := h.alone j j' a va (luHit_flush hf hj) (luHit_flush hf hj')
  missed m hm j := by
    by_contra hj
    have hold := luHit_flush hf (by simpa using hj)
    exact absurd ((h.missed_now hm j).symm.trans hold) Bool.false_ne_true

/-- The entry of the update replaces one entry. -/
theorem step_update (hf : i.flush = false) (hv : i.update.valid = true) : ∃ v, q.replaceEn v = true ∧
    (q.step i).tags v = updateTag i.update ∧ (q.step i).content v = i.update.content ∧
    ∀ l, l ≠ v → (q.step i).tags l = q.tags l ∧ (q.step i).content l = q.content l := by
  have hen := replaceEn_follow (q := q)
  refine ⟨_, hen, by simp [step, hf, hv, hen], by simp [step, hf, hv, hen], fun l hl => ?_⟩
  have hno : q.replaceEn l = false := by
    by_contra hl'
    exact hl (replaceEn_unique (by simpa using hl'))
  simp [step, hf, hno]

theorem entries_update (hg : GlobalsShared mem root) (h : EntriesInv mem root x) (hf : i.flush = false)
    (hv : i.update.valid = true) (hok : Walked mem root x i) : EntriesInv mem root (x.1.step i, []) := by
  obtain ⟨m, hm, hu⟩ := hok hv
  obtain ⟨v, -, htag, hcontent, hrest⟩ := step_update (q := x.1) hf hv
  obtain ⟨n, hn⟩ := holds_update hg hu
  -- an entry that matched an address of the new one would have matched the address that missed
  have hnew {l a va} (hl : l ≠ v) (hjl : (x.1.step i).luHit a va l = true) (hjv : (x.1.step i).luHit a va v = true) :
      False := by
    rw [luHit_congr (hrest l hl).1 (hrest l hl).2] at hjl
    obtain ⟨hvl, hsl, hpl⟩ := luHit_iff.mp hjl
    obtain ⟨-, hsv, hpv⟩ := luHit_iff.mp hjv
    rw [htag] at hsv hpv
    rw [hcontent] at hsv
    obtain ⟨nl, hnl⟩ := h.holds l hvl
    have hmiss := hn.same hnl hsv hpv hsl hpl (.inl hu.asid.symm) (mem_page_updateTag hu.vpn)
    exact absurd ((h.missed_now hm l).symm.trans (luHit_iff.mpr ⟨hvl, hmiss⟩)) Bool.false_ne_true
  refine ⟨fun l hl => ?_, fun l l' a va hl hl' => ?_, by simp⟩
  · by_cases hlv : l = v
    · subst hlv
      exact ⟨n, by rw [htag, hcontent]; exact hn⟩
    · rw [(hrest l hlv).1] at hl ⊢
      rw [(hrest l hlv).2]
      exact h.holds l hl
  · by_cases hlv : l = v
    · by_cases hlv' : l' = v
      · rw [hlv, hlv']
      · exact (hnew hlv' hl' (hlv ▸ hl)).elim
    · by_cases hlv' : l' = v
      · exact (hnew hlv hl (hlv' ▸ hl')).elim
      · rw [luHit_congr (hrest l hlv).1 (hrest l hlv).2] at hl
        rw [luHit_congr (hrest l' hlv').1 (hrest l' hlv').2] at hl'
        exact h.alone l l' a va hl hl'

theorem entries_step (hg : GlobalsShared mem root) (h : EntriesInv mem root x) (hok : Walked mem root x i) :
    EntriesInv mem root ((watched w k).next x i) := by
  cases hf : i.flush with
  | true => simpa [watched, Machine.observe, machine, hf] using entries_flush h hf
  | false =>
    cases hv : i.update.valid with
    | true => simpa [watched, Machine.observe, machine, hf, hv] using entries_update hg h hf hv hok
    | false =>
      have htags (l : Fin (2 ^ k)) : (x.1.step i).tags l = x.1.tags l := by simp [step, hf, hv]
      have hcontent (l : Fin (2 ^ k)) : (x.1.step i).content l = x.1.content l := by simp [step, hv]
      have hhit (l : Fin (2 ^ k)) (a : BitVec w) (va : BitVec 64) : (x.1.step i).luHit a va l = x.1.luHit a va l :=
        luHit_congr (htags l) (hcontent l)
      have hkept : EntriesInv mem root (x.1.step i, misses x i) :=
        ⟨fun l => by simpa only [htags,
          hcontent] using h.holds l, fun l l' a va => by simpa only [hhit] using h.alone l l' a va,
          fun m hm l => (hhit l m.1 m.2).trans (h.missed_now hm l)⟩
      simpa [watched, Machine.observe, machine, hv] using hkept

theorem entries_reachable (hg : GlobalsShared mem root) (hr : (watched w k).Reachable (Walked mem root) x) :
    EntriesInv mem root x := by
  refine hr.invariant (fun s hs => ?_) fun s i hi hok => entries_step hg hi hok
  obtain ⟨hq, hl⟩ := hs
  obtain ⟨q, l⟩ := s
  obtain rfl : q = reset := hq
  obtain rfl : l = [] := hl
  exact ⟨fun j hv => by simp [reset] at hv, fun j j' a va hj => by simp [luHit, reset] at hj, by simp⟩

/-- In every run in which updates are the translations of addresses that have missed: at most one entry
matches an address; a hit gives its translation; a fence takes away exactly the entries that it covers,
and no update is stored with it. -/
theorem tlb_fence (hg : GlobalsShared mem root) (hr : (watched w k).Reachable (Walked mem root) x) :
    (∀ a va j j', x.1.luHit a va j = true → x.1.luHit a va j' = true → j = j') ∧
    (∀ a va, (x.1.lookup a va).hit = true → ∃ n, translation mem (root a) va = some (n, (x.1.lookup a va).content) ∧
      AtLevel n (x.1.lookup a va).is2M (x.1.lookup a va).is1G) ∧
    ∀ i, i.flush = true → ∀ j, (x.1.step i).content j = x.1.content j ∧
      (Covered i (x.1.tags j) (x.1.content j) → ((x.1.step i).tags j).valid = false) ∧
      (¬ Covered i (x.1.tags j) (x.1.content j) → (x.1.step i).tags j = x.1.tags j) := by
  have h := entries_reachable hg hr
  refine ⟨fun a va j j' => h.alone j j' a va, fun a va hit => ?_, fun i hf j =>
    ⟨content_flush hf, fun hc => ?_, fun hc => ?_⟩⟩
  · obtain ⟨j, hj⟩ := lookup_hit_iff.mp hit
    have honly : ∀ l, x.1.luHit a va l = true ↔ l = j := fun l =>
      ⟨fun hl => h.alone l j a va hl hj, fun hl => hl ▸ hj⟩
    obtain ⟨hv, hspan, hpage⟩ := luHit_iff.mp hj
    obtain ⟨n, hn⟩ := h.holds j hv
    rw [lookup_of_only honly]
    refine ⟨n, hn.walk a va hspan hpage, ?_, hn.flags.giga⟩
    rw [hn.flags.giga, hn.flags.mega]
    cases n with
    | zero => rfl
    | succ n => cases n <;> simp
  · rw [tags_flush hf, flushed_iff.mpr hc, Bool.not_true, Bool.and_false]
  · have hkeep : x.1.flushed i j = false := by
      by_contra hfl
      exact hc (flushed_iff.mp (by simpa using hfl))
    rw [tags_flush hf, hkeep, Bool.not_false, Bool.and_true]

/-! ### A global giga page -/

/-- The first gigabyte is one global page, in both address spaces. -/
def globalTable (p : BitVec 56) : Pte :=
  if p = 0 then { zeroPte with ppn := 0x40000, v := true, r := true, a := true, g := true } else zeroPte

def noUpdate : TlbUpdate 1 := ⟨false, false, false, 0, 0, zeroPte⟩

/-- An access in address space 1 misses. -/
def missIn : TlbIn 1 := ⟨false, noUpdate, true, 1, 0x1234, 0, 0⟩

/-- The walk for it ends at the root table. -/
def loadWalk : Walk 1 := ⟨false, 0x1234, 1, 0, false, false⟩

def fillIn : TlbIn 1 := ⟨false, ⟨true, false, true, 1, 1, globalTable 0⟩, false, 0, 0, 0, 0⟩

def fence (asid : BitVec 1) (vaddr : BitVec 64) : TlbIn 1 := ⟨true, noUpdate, false, 0, 0, asid, vaddr⟩

def filled : Tlb 1 1 := (reset.step missIn).step fillIn

theorem filled_reachable : (watched 1 1).Reachable (Walked globalTable fun _ => 0) (filled, []) := by
  have h0 : (watched 1 1).Reachable (Walked globalTable fun _ => 0) (reset, []) := .init ⟨rfl, rfl⟩
  have h1 := h0.step missIn fun hv => absurd hv (by decide)
  refine h1.step fillIn fun _ => ?_
  have hwalk : loadWalk.event globalTable (fun _ => true) = .update false fillIn.update := rfl
  exact ⟨(1, 0x1234), by decide +kernel, updateOf_of_walk rfl hwalk⟩

/-- The page is used in address space 0 as well; a fence of address space 1 leaves it, and a fence
of one of its addresses takes it away. -/
theorem tlb_fence_global :
    (∃ n, translation globalTable 0 0x5678 = some (n, (filled.lookup 0 0x5678).content) ∧
      AtLevel n (filled.lookup 0 0x5678).is2M (filled.lookup 0 0x5678).is1G) ∧
    (filled.step (fence 1 0)).tags 0 = filled.tags 0 ∧ ((filled.step (fence 0 0x5678)).tags 0).valid = false := by
  have hshared : GlobalsShared globalTable fun _ : BitVec 1 => 0 := fun _ _ _ _ _ hwalk _ => hwalk
  obtain ⟨-, hlookup, hfence⟩ := tlb_fence hshared filled_reachable
  have hit : (filled.lookup 0 0x5678).hit = true := by decide +kernel
  have hout : ¬ Covered (fence 1 0) (filled.tags 0) (filled.content 0) := by
    rw [← flushed_iff]
    decide +kernel
  have hin : Covered (fence 0 0x5678) (filled.tags 0) (filled.content 0) := by
    rw [← flushed_iff]
    decide +kernel
  exact ⟨hlookup 0 0x5678 hit, (hfence (fence 1 0) rfl 0).2.2 hout, (hfence (fence 0 0x5678) rfl 0).2.1 hin⟩

end Tlb
end Culsans.Mmu
