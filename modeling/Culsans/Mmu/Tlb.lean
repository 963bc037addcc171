import Mathlib.Data.Fintype.Basic
import Mathlib.Data.List.FinRange
import Mathlib.Logic.Function.Basic
import Mathlib.Algebra.Group.Nat.Defs
import Culsans.Mmu.Sv39

/-! # The translation lookaside buffer (`tlb`)

`w` is `ASID_WIDTH`, and there are `2 ^ k` entries. An entry is written by the page
table walker in the place that the PLRU tree selects.
-/

namespace Culsans.Mmu
variable {w k : ℕ}

/-- `tlb_update_t` -/
structure TlbUpdate (w : ℕ) where
  valid : Bool
  is2M : Bool
  is1G : Bool
  vpn : BitVec 27
  asid : BitVec w
  content : Pte

structure Tag (w : ℕ) where
  asid : BitVec w
  vpn2 : BitVec 9
  vpn1 : BitVec 9
  vpn0 : BitVec 9
  is2M : Bool
  is1G : Bool
  valid : Bool

/-- The registers of the buffer. -/
structure Tlb (w k : ℕ) where
  tags : Fin (2 ^ k) → Tag w
  content : Fin (2 ^ k) → Pte
  plruTree : ℕ → Bool

structure TlbIn (w : ℕ) where
  flush : Bool
  update : TlbUpdate w
  luAccess : Bool
  luAsid : BitVec w
  luVaddr : BitVec 64
  asidToBeFlushed : BitVec w
  vaddrToBeFlushed : BitVec 64

/-- The `lu_*_o` outputs. -/
structure Lookup where
  content : Pte
  is2M : Bool
  is1G : Bool
  hit : Bool

namespace Tlb

def zeroPte : Pte := ⟨0, false, false, false, false, false, false, false, false⟩

def reset : Tlb w k where
  tags _ := ⟨0, 0, 0, 0, false, false, false⟩
  content _ := zeroPte
  plruTree _ := false

/-! ### Translation -/

def vpnHit (t : Tag w) (va : BitVec 64) : Bool :=
  vpn va 2 == t.vpn2 && (t.is1G || (vpn va 1 == t.vpn1 && (t.is2M || vpn va 0 == t.vpn0)))

/-- `lu_hit[i]`: the ASID of a global entry does not matter. -/
def luHit (q : Tlb w k) (asid : BitVec w) (va : BitVec 64) (i : Fin (2 ^ k)) : Bool :=
  (q.tags i).valid && (asid == (q.tags i).asid || (q.content i).g) && vpnHit (q.tags i) va

/-- One pass of the loop: a later hit overwrites the content, and a giga page flag stays set. -/
def lookupStep (q : Tlb w k) (asid : BitVec w) (va : BitVec 64) (o : Lookup) (i : Fin (2 ^ k)) : Lookup :=
  if q.luHit asid va i then
    { content := q.content i
      is2M := if (q.tags i).is1G then o.is2M else (q.tags i).is2M
      is1G := (q.tags i).is1G || o.is1G
      hit := true }
  else o

def lookup (q : Tlb w k) (asid : BitVec w) (va : BitVec 64) : Lookup :=
  (List.finRange (2 ^ k)).foldl (q.lookupStep asid va) ⟨zeroPte, false, false, false⟩

/-! ### Replacement -/

/-- The tree after a hit on entry `i`: its nodes point away from the entry. -/
def plruHit (k i : ℕ) (t : ℕ → Bool) : ℕ → Bool :=
  (List.range k).foldl
    (fun t lvl => Function.update t (2 ^ lvl - 1 + (i >>> (k - lvl))) (!i.testBit (k - lvl - 1))) t

def plruTreeN (q : Tlb w k) (i : TlbIn w) : ℕ → Bool :=
  (List.finRange (2 ^ k)).foldl
    (fun t j => if q.luHit i.luAsid i.luVaddr j && i.luAccess then plruHit k j t else t) q.plruTree

/-- The entry that every node of the tree on its path points to. -/
def replaceEn (q : Tlb w k) (i : Fin (2 ^ k)) : Bool :=
  (List.range k).all fun lvl =>
    q.plruTree (2 ^ lvl - 1 + (i.val >>> (k - lvl))) == i.val.testBit (k - lvl - 1)

/-! ### Update and flush -/

/-- Whether SFENCE.VMA names the entry: by page, by address space, or both. -/
def flushed (q : Tlb w k) (i : TlbIn w) (j : Fin (2 ^ k)) : Bool :=
  let t := q.tags j
  let asid0 := i.asidToBeFlushed == 0
  let vaddr0 := i.vaddrToBeFlushed == 0
  let m0 := vpn i.vaddrToBeFlushed 0 == t.vpn0
  let m1 := vpn i.vaddrToBeFlushed 1 == t.vpn1
  let m2 := vpn i.vaddrToBeFlushed 2 == t.vpn2
  let page := (m0 && m1 && m2) || (m2 && t.is1G) || (m1 && m2 && t.is2M)
  if asid0 && vaddr0 then true
  else if asid0 && page && !vaddr0 then true
  else if !(q.content j).g && page && i.asidToBeFlushed == t.asid && !vaddr0 && !asid0 then true
  else !(q.content j).g && vaddr0 && i.asidToBeFlushed == t.asid && !asid0

def updateTag (u : TlbUpdate w) : Tag w where
  asid := u.asid
  vpn2 := u.vpn.extractLsb' 18 9
  vpn1 := u.vpn.extractLsb' 9 9
  vpn0 := u.vpn.extractLsb' 0 9
  is2M := u.is2M
  is1G := u.is1G
  valid := true

def step (q : Tlb w k) (i : TlbIn w) : Tlb w k where
  tags j :=
    if i.flush then { q.tags j with valid := (q.tags j).valid && !q.flushed i j }
    else if i.update.valid && q.replaceEn j then updateTag i.update
    else q.tags j
  content j :=
    if !i.flush && (i.update.valid && q.replaceEn j) then i.update.content else q.content j
  plruTree := q.plruTreeN i

/-! ### Sound entries -/

variable {mem : BitVec 56 → Pte} {root : BitVec 44} {q : Tlb w k} {i : TlbIn w} {va : BitVec 64}

/-- The flags of the level at which a leaf is found. -/
structure AtLevel (n : ℕ) (is2M is1G : Bool) : Prop where
  mega : is2M = (n == 1)
  giga : is1G = (n == 2)

/-- A cached leaf that passed the checks of the walker: it may differ from the entry in memory
in the global bit, which the walker adds. -/
structure Cached (mem : BitVec 56 → Pte) (root : BitVec 44) (va : BitVec 64) (content : Pte)
    (n : ℕ) (p : Pte) : Prop where
  walk : walk mem root va = some (n, p)
  valid : p.invalid = false
  leaf : (p.r || p.x) = true
  aligned : p.aligned n = true
  accessed : p.a = true
  content_eq : content = { p with g := content.g }

/-- What a lookup that hits must answer. -/
def Exact (mem : BitVec 56 → Pte) (root : BitVec 44) (va : BitVec 64) (o : Lookup) : Prop :=
  ∃ n p, Cached mem root va o.content n p ∧ AtLevel n o.is2M o.is1G

/-- An entry answers exactly for every address that it matches. -/
def TagSound (mem : BitVec 56 → Pte) (root : BitVec 44) (t : Tag w) (c : Pte) : Prop :=
  t.valid = true → ∀ va, vpnHit t va = true → Exact mem root va ⟨c, t.is2M, t.is1G, true⟩

def Sound (mem : BitVec 56 → Pte) (root : BitVec 44) (q : Tlb w k) : Prop :=
  ∀ j, TagSound mem root (q.tags j) (q.content j)

theorem sound_reset : (reset : Tlb w k).Sound mem root := fun _ h => by
  simp [reset] at h

/-- What the loop has found so far. -/
structure Found (mem : BitVec 56 → Pte) (root : BitVec 44) (va : BitVec 64) (o : Lookup) : Prop where
  exact : o.hit = true → Exact mem root va o
  none : o.hit = false → o.is2M = false ∧ o.is1G = false

/-- The loop keeps the flags of the level. -/
theorem AtLevel.merge {n : ℕ} {b2 b1 o2 o1 : Bool} (h : AtLevel n b2 b1)
    (ho : (o2 = false ∧ o1 = false) ∨ AtLevel n o2 o1) : AtLevel n (if b1 then o2 else b2) (b1 || o1) := by
  have hmega := h.mega
  have hgiga := h.giga
  rcases ho with ⟨h2, h1⟩ | hl
  · constructor
    · cases b1 with
      | false => exact hmega
      | true =>
        have hn : n = 2 := by simpa using hgiga.symm
        simp [h2, hn]
    · rw [h1, Bool.or_false, hgiga]
  · constructor
    · cases b1 with
      | false => exact hmega
      | true => exact hl.mega
    · rw [hl.giga, hgiga, Bool.or_self]

theorem found_step (h : q.Sound mem root) {asid : BitVec w} {o : Lookup} (ho : Found mem root va o)
    (j : Fin (2 ^ k)) : Found mem root va (q.lookupStep asid va o j) := by
  by_cases hit : q.luHit asid va j = true
  · rw [lookupStep, if_pos hit]
    refine ⟨fun _ => ?_, fun hf => by simp at hf⟩
    simp only [luHit, Bool.and_eq_true] at hit
    obtain ⟨n, p, hc, hl⟩ := h j hit.1.1 va hit.2
    refine ⟨n, p, hc, hl.merge ?_⟩
    -- the flags already found are those of the same level
    cases hh : o.hit with
    | false => exact .inl (ho.none hh)
    | true =>
      obtain ⟨n', p', hc', hl'⟩ := ho.exact hh
      have hsame : n = n' := by
        have hw := hc.walk.symm.trans hc'.walk
        simp only [Option.some.injEq, Prod.mk.injEq] at hw
        exact hw.1
      exact .inr (hsame ▸ hl')
  · rw [lookupStep, if_neg hit]
    exact ho

/-- The outputs of a hit are those of every entry that hits. -/
theorem lookup_exact (h : q.Sound mem root) {asid : BitVec w} (hit : (q.lookup asid va).hit = true) :
    Exact mem root va (q.lookup asid va) := by
  have hall : ∀ (l : List (Fin (2 ^ k))) (o : Lookup), Found mem root va o →
      Found mem root va (l.foldl (q.lookupStep asid va) o) := by
    intro l
    induction l with
    | nil => exact fun o ho => ho
    | cons j l ih => exact fun o ho => ih _ (found_step h ho j)
  refine (hall _ _ ⟨fun hf => ?_, fun _ => ⟨rfl, rfl⟩⟩).exact hit
  simp at hf

theorem slice_vpn {a : ℕ} (h : a + 9 ≤ 27) :
    (va.extractLsb' 12 27).extractLsb' a 9 = va.extractLsb' (12 + a) 9 := by
  ext i hi
  have hlt : a + i < 27 := by omega
  simp [hlt, Nat.add_assoc]

/-- An update is of a leaf for the address that was walked. -/
theorem vpn_of_updateTag {u : TlbUpdate w} {va' : BitVec 64} {n : ℕ} (hv : u.vpn = va'.extractLsb' 12 27)
    (hl : AtLevel n u.is2M u.is1G) (hit : vpnHit (updateTag u) va = true) :
    ∀ j, n ≤ j → j ≤ 2 → vpn va j = vpn va' j := by
  have h2 : (va'.extractLsb' 12 27).extractLsb' 18 9 = vpn va' 2 := slice_vpn (by decide)
  have h1 : (va'.extractLsb' 12 27).extractLsb' 9 9 = vpn va' 1 := slice_vpn (by decide)
  have h0 : (va'.extractLsb' 12 27).extractLsb' 0 9 = vpn va' 0 := slice_vpn (by decide)
  simp only [vpnHit, updateTag, hv, h2, h1, h0, hl.mega, hl.giga, Bool.and_eq_true, Bool.or_eq_true,
    beq_iff_eq] at hit
  intro j hn hj
  match j with
  | 0 =>
    rcases hit.2 with h | h
    · omega
    · exact h.2.resolve_left (by omega)
  | 1 =>
    rcases hit.2 with h | h
    · omega
    · exact h.1
  | 2 => exact hit.1

/-- An entry written by the walker is sound when the walk for its own address is. -/
theorem tagSound_update {u : TlbUpdate w} {va' : BitVec 64} {n : ℕ} {p : Pte}
    (hv : u.vpn = va'.extractLsb' 12 27) (hl : AtLevel n u.is2M u.is1G)
    (hc : Cached mem root va' u.content n p) : TagSound mem root (updateTag u) u.content := by
  intro _ va hit
  refine ⟨n, p, ⟨?_, hc.valid, hc.leaf, hc.aligned, hc.accessed, hc.content_eq⟩, hl⟩
  exact walk_congr hc.walk (vpn_of_updateTag hv hl hit)

theorem sound_step (h : q.Sound mem root)
    (hu : i.update.valid = true → TagSound mem root (updateTag i.update) i.update.content) :
    (q.step i).Sound mem root := by
  intro j
  by_cases hf : i.flush = true
  · intro hval va hit
    simp only [step, hf, if_true, Bool.not_true, Bool.false_and, Bool.false_eq_true, if_false,
      Bool.and_eq_true] at hval hit ⊢
    exact h j hval.1 va hit
  · rw [Bool.not_eq_true] at hf
    by_cases hr : (i.update.valid && q.replaceEn j) = true
    · obtain ⟨hval, hen⟩ := Bool.and_eq_true_iff.mp hr
      simpa [step, hf, hval, hen] using hu hval
    · rw [Bool.not_eq_true] at hr
      simpa only [step, hf, hr, Bool.and_false, Bool.false_eq_true, if_false] using h j

end Tlb
end Culsans.Mmu
