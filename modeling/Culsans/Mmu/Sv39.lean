import Culsans.Library.PageWalk
import Culsans.Library.Sizes

/-! # The Sv39 address translation algorithm

What a translated load or store is for: the walk over a fixed page table, the
checks on the leaf under the privilege, SUM and MXR of the access, and the
physical address. Level 2 is the root table.
-/

namespace Culsans.Mmu
open Library

/-- `riscv::pte_t`, less the software and reserved bits -/
structure Pte where
  ppn : BitVec 44
  d : Bool
  a : Bool
  g : Bool
  u : Bool
  x : Bool
  w : Bool
  r : Bool
  v : Bool
deriving DecidableEq

/-- `riscv::priv_lvl_t` -/
inductive PrivLvl
  | m | s | u
deriving DecidableEq

/-- What the checks of an access depend on besides the page table. -/
structure Mode where
  privLvl : PrivLvl
  sum : Bool
  mxr : Bool

/-- The virtual page number of a level. -/
def vpn (va : BitVec 64) : ℕ → BitVec 9
  | 0 => va.extractLsb' 12 9
  | 1 => va.extractLsb' 21 9
  | _ => va.extractLsb' 30 9

/-- The address of an entry: `a + va.vpn[i] × 8`. -/
def pteAddr (ppn : BitVec 44) (i : BitVec 9) : BitVec 56 := ppn ++ i ++ 0#3

def Pte.invalid (p : Pte) : Bool := !p.v || (!p.r && p.w)

def Pte.entry (p : Pte) : TableEntry (BitVec 44) Pte :=
  if p.invalid then .fault else if p.r || p.x then .leaf p else .table p.ppn

/-- The walk from a table of level `n`. -/
def walkFrom (mem : BitVec 56 → Pte) (va : BitVec 64) (n : ℕ) (ppn : BitVec 44) : Option (ℕ × Pte) :=
  pageWalk (fun b i => (mem (pteAddr b i)).entry) (vpn va) n ppn

def walk (mem : BitVec 56 → Pte) (root : BitVec 44) (va : BitVec 64) : Option (ℕ × Pte) :=
  walkFrom mem va 2 root

/-- The page number bits below a superpage are zero. -/
def Pte.aligned (p : Pte) : ℕ → Bool
  | 0 => true
  | 1 => p.ppn.extractLsb' 0 9 == 0
  | _ => p.ppn.extractLsb' 0 18 == 0

/-- The U and SUM rule. -/
def Mode.privOk (m : Mode) (p : Pte) : Bool :=
  !(m.privLvl == .s && !m.sum && p.u) && !(m.privLvl == .u && !p.u)

def Mode.loadOk (m : Mode) (p : Pte) : Bool := p.a && (p.r || (p.x && m.mxr)) && m.privOk p

def Mode.storeOk (m : Mode) (p : Pte) : Bool := m.loadOk p && p.w && p.d

def Mode.allows (m : Mode) (isStore : Bool) (p : Pte) : Bool :=
  if isStore then m.storeOk p else m.loadOk p

/-- The page number of the leaf above the level, that of the virtual address below it. -/
def pagePpn (p : Pte) (va : BitVec 64) : ℕ → BitVec 44
  | 0 => p.ppn
  | 1 => p.ppn.extractLsb' 9 35 ++ vpn va 0
  | _ => p.ppn.extractLsb' 18 26 ++ (vpn va 1 ++ vpn va 0)

def physAddr (p : Pte) (va : BitVec 64) (n : ℕ) : BitVec 56 := pagePpn p va n ++ va.extractLsb' 0 12

/-- The physical address of an access, or no address for a page fault. -/
def sv39 (mem : BitVec 56 → Pte) (root : BitVec 44) (m : Mode) (isStore : Bool) (va : BitVec 64) :
    Option (BitVec 56) :=
  match walk mem root va with
  | some (n, p) => if p.aligned n && m.allows isStore p then some (physAddr p va n) else none
  | none => none

/-- The result of a walk whose reads are checked by the PMP. -/
inductive WalkResult
  | accessException (pa : BitVec 56)
  | pageFault
  | leaf (n : ℕ) (p : Pte) (g : Bool)

/-- One entry of a checked walk; `g` tells whether an entry above it has G. -/
def visit (mem : BitVec 56 → Pte) (allow : BitVec 56 → Bool) (ok : Pte → Bool) (va : BitVec 64) (n : ℕ)
    (b : BitVec 44) (g : Bool) (below : BitVec 44 → Bool → WalkResult) : WalkResult :=
  if !allow (pteAddr b (vpn va n)) then .accessException (pteAddr b (vpn va n))
  else
    match (mem (pteAddr b (vpn va n))).entry with
    | .fault => .pageFault
    | .leaf p => if p.aligned n && ok p then .leaf n p (g || p.g) else .pageFault
    | .table b' => below b' (g || (mem (pteAddr b (vpn va n))).g)

/-- The walk from a table of level `n`, for an access that may use a leaf if `ok` holds of it. -/
def checkedWalk (mem : BitVec 56 → Pte) (allow : BitVec 56 → Bool) (ok : Pte → Bool) (va : BitVec 64) :
    ℕ → BitVec 44 → Bool → WalkResult
  | 0, b, g => visit mem allow ok va 0 b g fun _ _ => .pageFault
  | n + 1, b, g => visit mem allow ok va (n + 1) b g (checkedWalk mem allow ok va n)

/-! ### Lemmas on walks -/

variable {mem : BitVec 56 → Pte} {root : BitVec 44} {va va' : BitVec 64} {n : ℕ} {p : Pte} {b : BitVec 44}

theorem Pte.entry_leaf (h : p.invalid = false) (hl : (p.r || p.x) = true) : p.entry = .leaf p := by
  simp [Pte.entry, h, hl]

theorem walkFrom_invalid (h : (mem (pteAddr b (vpn va n))).invalid = true) : walkFrom mem va n b = none :=
  pageWalk_fault (by simp [Pte.entry, h])

theorem walkFrom_leaf (h : (mem (pteAddr b (vpn va n))).invalid = false)
    (hl : ((mem (pteAddr b (vpn va n))).r || (mem (pteAddr b (vpn va n))).x) = true) :
    walkFrom mem va n b = some (n, mem (pteAddr b (vpn va n))) :=
  pageWalk_leaf (Pte.entry_leaf h hl)

theorem Pte.entry_table (h : p.invalid = false) (hl : (p.r || p.x) = false) : p.entry = .table p.ppn := by
  simp [Pte.entry, h, hl]

theorem walkFrom_table (h : (mem (pteAddr b (vpn va (n + 1)))).invalid = false)
    (hl : ((mem (pteAddr b (vpn va (n + 1)))).r || (mem (pteAddr b (vpn va (n + 1)))).x) = false) :
    walkFrom mem va (n + 1) b = walkFrom mem va n (mem (pteAddr b (vpn va (n + 1)))).ppn :=
  pageWalk_table (Pte.entry_table h hl)

theorem walkFrom_table_zero (h : (mem (pteAddr b (vpn va 0))).invalid = false)
    (hl : ((mem (pteAddr b (vpn va 0))).r || (mem (pteAddr b (vpn va 0))).x) = false) :
    walkFrom mem va 0 b = none :=
  pageWalk_table_zero (Pte.entry_table h hl)

/-- Addresses of one page share its leaf. -/
theorem walk_congr (h : walk mem root va = some (n, p)) (hv : ∀ j, n ≤ j → j ≤ 2 → vpn va' j = vpn va j) :
    walk mem root va' = some (n, p) :=
  pageWalk_congr h hv

theorem walk_level_le (h : walk mem root va = some (n, p)) : n ≤ 2 := by
  rw [walk, walkFrom] at h
  exact pageWalk_level_le h

/-- Without a leaf that the access may use there is no address. -/
theorem sv39_eq_none_of_walk {m : Mode} {isStore : Bool} (h : walk mem root va = none) :
    sv39 mem root m isStore va = none := by
  simp [sv39, h]

theorem sv39_of_walk {m : Mode} {isStore : Bool} (h : walk mem root va = some (n, p)) :
    sv39 mem root m isStore va =
      if p.aligned n && m.allows isStore p then some (physAddr p va n) else none := by
  simp [sv39, h]

/-! ### Lemmas on checked walks -/

variable {allow : BitVec 56 → Bool} {ok : Pte → Bool} {g : Bool} {below : BitVec 44 → Bool → WalkResult}

theorem checkedWalk_eq : checkedWalk mem allow ok va n b g =
    visit mem allow ok va n b g
      (match n with
        | 0 => fun _ _ => .pageFault
        | n + 1 => checkedWalk mem allow ok va n) := by
  cases n <;> rfl

theorem visit_forbidden (h : allow (pteAddr b (vpn va n)) = false) :
    visit mem allow ok va n b g below = .accessException (pteAddr b (vpn va n)) := by
  simp [visit, h]

theorem visit_invalid (h : allow (pteAddr b (vpn va n)) = true) (hi : (mem (pteAddr b (vpn va n))).invalid = true) :
    visit mem allow ok va n b g below = .pageFault := by
  simp [visit, h, Pte.entry, hi]

theorem visit_leaf (h : allow (pteAddr b (vpn va n)) = true) (hp : mem (pteAddr b (vpn va n)) = p)
    (hi : p.invalid = false) (hl : (p.r || p.x) = true) :
    visit mem allow ok va n b g below = if p.aligned n && ok p then .leaf n p (g || p.g) else .pageFault := by
  simp [visit, h, hp, Pte.entry_leaf hi hl]

theorem visit_table (h : allow (pteAddr b (vpn va n)) = true) (hp : mem (pteAddr b (vpn va n)) = p)
    (hi : p.invalid = false) (hl : (p.r || p.x) = false) :
    visit mem allow ok va n b g below = below p.ppn (g || p.g) := by
  simp [visit, h, hp, Pte.entry_table hi hl]

end Culsans.Mmu
