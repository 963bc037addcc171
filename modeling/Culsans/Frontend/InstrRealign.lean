import Mathlib.Data.BitVec
import Mathlib.Data.List.Range
import Culsans.Library.Machine
import Culsans.Library.PairStream

/-! # Re-alignment of instructions (`instr_realign` with the fetch registers of `frontend`)

A fetch gives 32 bits, from which up to two instructions are taken; the first half of an
instruction that does not fit is kept for the next fetch.
-/

namespace Culsans.Frontend
open Library Library.PairStream

/-- The registers of `instr_realign`. -/
structure InstrRealign where
  unaligned : Bool
  unalignedAddress : BitVec 64
  unalignedInstr : BitVec 16
deriving DecidableEq

/-- The inputs of `instr_realign` without the flush. -/
structure RealignIn where
  valid : Bool
  address : BitVec 64
  data : BitVec 32

/-- One of the instructions of a fetch. -/
structure Slot where
  valid : Bool
  addr : BitVec 64
  instr : BitVec 32
deriving DecidableEq

/-- What `re_align` computes: the outputs and the next values of the registers. -/
structure ReAlign where
  slot0 : Slot
  slot1 : Slot
  unalignedD : Bool
  unalignedAddressD : BitVec 64
  unalignedInstrD : BitVec 16

/-- The pairs `(addr_o, instr_o)` of the valid slots. -/
def ReAlign.emits (r : ReAlign) : List (BitVec 64 × BitVec 32) :=
  (if r.slot0.valid then [(r.slot0.addr, r.slot0.instr)] else []) ++
    if r.slot1.valid then [(r.slot1.addr, r.slot1.instr)] else []

/-- A compressed instruction does not end in `11`. -/
def isCompressed (h : BitVec 16) : Bool := !(h.getLsbD 0 && h.getLsbD 1)

def low (data : BitVec 32) : BitVec 16 := data.extractLsb' 0 16
def high (data : BitVec 32) : BitVec 16 := data.extractLsb' 16 16

/-- The address of the word in which an address lies. -/
def align (v : BitVec 64) : BitVec 64 := v.extractLsb' 2 62 ++ 0#2

/-- `{address_i[riscv::VLEN-1:2], 2'b10}` -/
def upper (v : BitVec 64) : BitVec 64 := v.extractLsb' 2 62 ++ 2#2

namespace InstrRealign

def reset : InstrRealign := ⟨false, 0, 0⟩

def reAlign (q : InstrRealign) (i : RealignIn) : ReAlign :=
  let start : ReAlign :=
    { slot0 := ⟨i.valid, if q.unaligned then q.unalignedAddress else i.address,
        if q.unaligned then low i.data ++ q.unalignedInstr else i.data⟩
      slot1 := ⟨false, upper i.address, 0⟩
      unalignedD := q.unaligned
      unalignedAddressD := upper i.address
      unalignedInstrD := high i.data }
  let second : ReAlign :=
    if isCompressed (low i.data) || q.unaligned then
      if isCompressed (high i.data) then
        { start with unalignedD := false, slot1 := ⟨i.valid, upper i.address, 0#16 ++ high i.data⟩ }
      else { start with unalignedD := true }
    else start
  -- the fetch starts at an instruction in the upper half
  if i.valid && i.address.getLsbD 1 then
    if !isCompressed (low i.data) then
      { second with
        slot0 := { second.slot0 with valid := false }
        slot1 := { second.slot1 with valid := false }
        unalignedD := true
        unalignedInstrD := low i.data }
    else
      { second with slot0 := { second.slot0 with valid := true }, slot1 := { second.slot1 with valid := false } }
  else second

def step (q : InstrRealign) (flush : Bool) (i : RealignIn) : InstrRealign where
  unaligned := if flush then false else if i.valid then (q.reAlign i).unalignedD else q.unaligned
  unalignedAddress := if i.valid then (q.reAlign i).unalignedAddressD else q.unalignedAddress
  unalignedInstr := if i.valid then (q.reAlign i).unalignedInstrD else q.unalignedInstr

end InstrRealign

/-- The registers of `frontend` between the instruction cache and the re-aligner. -/
structure FetchRegs where
  realign : InstrRealign
  icacheValid : Bool
  icacheVaddr : BitVec 64
  icacheData : BitVec 32

/-- `icache_dreq_o.kill_s2`, and the answer of the cache. -/
structure FetchIn where
  killS2 : Bool
  valid : Bool
  vaddr : BitVec 64
  data : BitVec 32

namespace FetchRegs

def reset : FetchRegs := ⟨.reset, false, 0, 0⟩

def realignIn (q : FetchRegs) : RealignIn := ⟨q.icacheValid, q.icacheVaddr, q.icacheData⟩

/-- `icache_data`: the word is shifted to the half that has been asked for. -/
def icacheDataD (i : FetchIn) : BitVec 32 := i.data >>> (16 * (i.vaddr.getLsbD 1).toNat)

def step (q : FetchRegs) (i : FetchIn) : FetchRegs where
  realign := q.realign.step i.killS2 q.realignIn
  icacheValid := i.valid
  icacheVaddr := if i.valid then i.vaddr else q.icacheVaddr
  icacheData := if i.valid then icacheDataD i else q.icacheData

def emits (q : FetchRegs) : List (BitVec 64 × BitVec 32) := (q.realign.reAlign q.realignIn).emits

end FetchRegs
end Culsans.Frontend
