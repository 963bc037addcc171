import Mathlib.Data.BitVec
import Mathlib.Data.Fintype.Basic
import Mathlib.Tactic
import Culsans.Library.Sizes

/-! # Data types of the write-back data cache

The cache has 256 sets of eight ways with 128-bit lines. A 56-bit physical
address is kept as its tag (bits 55:12), set index (bits 11:4) and byte offset
(bits 3:0); the bits above are zero in every address the core or the
interconnect produces. Data is kept byte-wise because the dirty bits are.
-/

namespace Culsans.Dcache

abbrev Byte := BitVec 8
abbrev Tag := BitVec 44
abbrev Index := BitVec 8
abbrev Offset := BitVec 4
abbrev Way := Fin 8
abbrev WaySet := Way → Bool
abbrev Word := Fin 8 → Byte
abbrev WordBe := Fin 8 → Bool
abbrev LineData := Fin 16 → Byte
abbrev LineBe := Fin 16 → Bool

structure PAddr where
  tag : Tag
  index : Index
  offset : Offset
deriving DecidableEq

/-- Two addresses lie in the same cache line (bits 55:4 agree). -/
def PAddr.sameLine (a b : PAddr) : Bool := a.tag == b.tag && a.index == b.index

/-- Address bit 3: which 64-bit word of the line. -/
def PAddr.word (a : PAddr) : Bool := a.offset.getLsbD 3

/-- The address in units of 64-bit words. -/
def PAddr.dword (a : PAddr) : ℕ := (a.tag.toNat * 256 + a.index.toNat) * 2 + if a.word then 1 else 0

/-- The line address, with the byte offset cleared. -/
def PAddr.align (a : PAddr) : PAddr := { a with offset := 0 }

def wordOfByte (b : Fin 16) : Bool := decide (8 ≤ b.val)
def laneOfByte (b : Fin 16) : Fin 8 := ⟨b.val % 8, Nat.mod_lt _ (by decide)⟩
def byteOfLane (word : Bool) (k : Fin 8) : Fin 16 := ⟨(if word then 8 else 0) + k.val, by split <;> omega⟩

/-- Select one 64-bit word of a line. -/
def LineData.word (d : LineData) (sel : Bool) : Word := fun k => d (byteOfLane sel k)

/-- Place a 64-bit word at its position in a line, all other bytes zero. -/
def placeWord (sel : Bool) (w : Word) : LineData :=
  fun b => if wordOfByte b = sel then w (laneOfByte b) else 0

def placeBe (sel : Bool) (be : WordBe) : LineBe :=
  fun b => decide (wordOfByte b = sel) && be (laneOfByte b)

/-- Reduction OR over the ways. -/
def anyWay (s : WaySet) : Bool := (List.finRange 8).any s
def allWays : WaySet := fun _ => true
def noWay : WaySet := fun _ => false
def oneHot (w : Way) : WaySet := fun v => v == w

/-- `one_hot_to_bin`: index of the lowest bit set. -/
def oneHotToBin (s : WaySet) : Way := ((List.finRange 8).find? s).getD 0

/-- `get_victim_cl`: the lowest bit set, one-hot encoded. -/
def getVictimCl (s : WaySet) : WaySet := oneHot (oneHotToBin s)

def anyByte (d : LineBe) : Bool := (List.finRange 16).any d

/-- `cache_line_t` -/
structure CacheLine where
  tag : Tag
  data : LineData
  dirty : LineBe
  valid : Bool
  shared : Bool

def CacheLine.zero : CacheLine := ⟨0, fun _ => 0, fun _ => false, false, false⟩

/-- Bit enables of one way in the valid/dirty/shared array (`vldrty_t`). -/
structure VldrtyBe where
  dirty : LineBe
  valid : Bool
  shared : Bool

def VldrtyBe.none : VldrtyBe := ⟨fun _ => false, false, false⟩
def VldrtyBe.all : VldrtyBe := ⟨fun _ => true, true, true⟩

/-- `cl_be_t`; the tag bytes are always enabled together. -/
structure ClBe where
  tag : Bool
  data : LineBe
  vldrty : Way → VldrtyBe

def ClBe.none : ClBe := ⟨false, fun _ => false, fun _ => .none⟩

/-- Enable all status bits of the selected ways and nothing else. -/
def ClBe.status (ways : WaySet) : ClBe :=
  { ClBe.none with vldrty := fun w => if ways w then .all else .none }

/-- `mshr_t` -/
structure Mshr where
  id : Fin 3
  valid : Bool
  we : Bool
  addr : PAddr
  wdata : Word
  be : WordBe
  makeUnique : Bool

/-- `miss_req_t` -/
structure MissReq where
  valid : Bool
  addr : PAddr
  be : WordBe
  size : BitVec 2
  we : Bool
  wdata : Word
  bypass : Bool
  makeUnique : Bool

/-- `readshared_done_t` -/
structure ReadsharedDone where
  valid : Bool
  addr : PAddr

/-- `dcache_req_i_t` -/
structure DcacheReqI where
  addressIndex : Index
  addressOffset : Offset
  addressTag : Tag
  dataWdata : Word
  dataReq : Bool
  dataWe : Bool
  dataBe : WordBe
  dataSize : BitVec 2
  killReq : Bool
  tagValid : Bool

def DcacheReqI.none : DcacheReqI :=
  ⟨0, 0, 0, fun _ => 0, false, false, fun _ => false, 3, false, false⟩

/-- `dcache_req_o_t` -/
structure DcacheReqO where
  dataGnt : Bool
  dataRvalid : Bool
  dataRdata : Word

/-- `amo_t` -/
inductive Amo
  | none | lr | sc | swap | add | and | or | xor | max | maxu | min | minu | cas1 | cas2
deriving DecidableEq

/-- `amo_req_t` -/
structure AmoReq where
  req : Bool
  amoOp : Amo
  size : BitVec 2
  operandA : PAddr
  operandB : Word

def AmoReq.none : AmoReq := ⟨false, .none, 3, ⟨0, 0, 0⟩, fun _ => 0⟩

/-- `amo_resp_t` -/
structure AmoResp where
  ack : Bool
  result : Word

/-- `ace_trs_t` -/
inductive AceTrs
  | readNoSnoop | readOnce | readShared | readUnique | cleanUnique
  | writeNoSnoop | writeBack | writeUnique
deriving DecidableEq

/-- `acsnoop_t`: the encodings `snoop_pkg` names; every other code is reserved. -/
inductive AcSnoop
  | readOnce | readShared | readClean | readNotSharedDirty | readUnique | cleanShared
  | cleanInvalid | cleanUnique | makeInvalid | dvmComplete | dvmMessage | reserved
deriving DecidableEq

/-- `crresp_t` -/
structure CrResp where
  isShared : Bool
  passDirty : Bool
  error : Bool
  dataTransfer : Bool
deriving DecidableEq

def CrResp.zero : CrResp := ⟨false, false, false, false⟩

/-- The address rules of `ariane_cfg_t` the cache consults. Cacheability is decided
on the tag alone, because the index bits are zeroed before the check. -/
structure Cfg where
  isInsideCacheableRegions : Tag → Bool
  isInsideShareableRegions : PAddr → Bool

theorem anyWay_iff {s : WaySet} : anyWay s = true ↔ ∃ w, s w = true := by
  simp [anyWay]

theorem anyWay_eq_false_iff {s : WaySet} : anyWay s = false ↔ ∀ w, s w = false := by
  simp [anyWay]

@[simp] theorem anyWay_allWays : anyWay allWays = true := anyWay_iff.mpr ⟨0, rfl⟩
@[simp] theorem anyWay_noWay : anyWay noWay = false := anyWay_eq_false_iff.mpr fun _ => rfl
@[simp] theorem anyWay_oneHot (w : Way) : anyWay (oneHot w) = true :=
  anyWay_iff.mpr ⟨w, by simp [oneHot]⟩

theorem anyByte_iff {d : LineBe} : anyByte d = true ↔ ∃ b, d b = true := by
  simp [anyByte]

theorem anyByte_eq_false_iff {d : LineBe} : anyByte d = false ↔ ∀ b, d b = false := by
  simp [anyByte]

theorem oneHotToBin_spec {s : WaySet} (h : anyWay s = true) : s (oneHotToBin s) = true := by
  obtain ⟨w, hw⟩ := anyWay_iff.mp h
  unfold oneHotToBin
  cases hf : (List.finRange 8).find? s with
  | none => exact absurd hw (by simpa using List.find?_eq_none.mp hf w (List.mem_finRange w))
  | some v => simpa using List.find?_some hf

/-- No way before the selected one is in the set. -/
theorem oneHotToBin_first {s : WaySet} {v : Way} (h : v < oneHotToBin s) : s v = false := by
  unfold oneHotToBin at h
  cases hf : (List.finRange 8).find? s with
  | none => simpa using List.find?_eq_none.mp hf v (List.mem_finRange v)
  | some w =>
    rw [hf, Option.getD_some] at h
    obtain ⟨-, k, hk, hkw, hlt⟩ := List.find?_eq_some_iff_getElem.mp hf
    have hkv : k = w.val := by simpa [Fin.ext_iff] using hkw
    have hv : v.val < k := by
      rw [hkv]
      exact h
    simpa using hlt v.val hv

theorem PAddr.sameLine_iff {a b : PAddr} :
    a.sameLine b = true ↔ a.tag = b.tag ∧ a.index = b.index := by
  simp [sameLine]

end Culsans.Dcache
