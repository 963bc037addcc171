import Culsans.Library.Machine
import Culsans.Mmu.Ptw

/-! # The memory management unit (`mmu`), data side

A request is looked up in the DTLB in the cycle in which it comes, and answered in
the next one from registers; after a miss it is answered by a later lookup or by an
error of the walker. Of the instruction side only the ITLB is here, because its
misses occupy the walker.
-/

namespace Culsans.Mmu
open Library Tlb

inductive Cause
  | loadPageFault | storePageFault | ldAccessFault | stAccessFault | ldAddrMisaligned | stAddrMisaligned
deriving DecidableEq

/-- `exception_t`, when its valid bit is set -/
structure LsuException where
  cause : Cause
  tval : BitVec 64
deriving DecidableEq

/-- The registers of `data_interface`. -/
structure DataRegs where
  lsuVaddr : BitVec 64
  lsuReq : Bool
  misalignedEx : Option LsuException
  dtlbPte : Pte
  dtlbHit : Bool
  lsuIsStore : Bool
  dtlbIs2M : Bool
  dtlbIs1G : Bool

structure MmuRegs (w ki kd : ℕ) where
  itlb : Tlb w ki
  dtlb : Tlb w kd
  ptw : Ptw w
  data : DataRegs

structure MmuIn (w : ℕ) where
  flush : Bool
  enableTranslation : Bool
  enLdStTranslation : Bool
  fetchReq : Bool
  fetchVaddr : BitVec 64
  misalignedEx : Option LsuException
  lsuReq : Bool
  lsuVaddr : BitVec 64
  lsuIsStore : Bool
  /-- `ld_st_priv_lvl_i`, `sum_i` and `mxr_i` -/
  mode : Mode
  satpPpn : BitVec 44
  asid : BitVec w
  asidToBeFlushed : BitVec w
  vaddrToBeFlushed : BitVec 64
  flushTlb : Bool
  dataGnt : Bool
  dataRvalid : Bool
  dataRdata : Pte
  /-- `allow_o` of `i_pmp_ptw` and `i_pmp_data` -/
  ptwAllow : Bool
  pmpDataAllow : Bool

/-- The outputs to the load and store units. -/
structure LsuOut where
  dtlbHit : Bool
  dtlbPpn : BitVec 44
  valid : Bool
  paddr : BitVec 56
  ex : Option LsuException

namespace MmuRegs
variable {w ki kd : ℕ}

def reset : MmuRegs w ki kd where
  itlb := Tlb.reset
  dtlb := Tlb.reset
  ptw := Ptw.reset
  data := ⟨0, false, none, zeroPte, false, false, false, false⟩

def itlbLookup (s : MmuRegs w ki kd) (i : MmuIn w) : Lookup := s.itlb.lookup i.asid i.fetchVaddr

def dtlbLookup (s : MmuRegs w ki kd) (i : MmuIn w) : Lookup := s.dtlb.lookup i.asid i.lsuVaddr

def ptwIn (s : MmuRegs w ki kd) (i : MmuIn w) : PtwIn w where
  flush := i.flush
  enableTranslation := i.enableTranslation
  enLdStTranslation := i.enLdStTranslation
  lsuIsStore := i.lsuIsStore
  asid := i.asid
  satpPpn := i.satpPpn
  mxr := i.mode.mxr
  itlbAccess := i.fetchReq
  itlbHit := (s.itlbLookup i).hit
  itlbVaddr := i.fetchVaddr
  dtlbAccess := i.lsuReq
  dtlbHit := (s.dtlbLookup i).hit
  dtlbVaddr := i.lsuVaddr
  dataGnt := i.dataGnt
  dataRvalid := i.dataRvalid
  dataRdata := i.dataRdata
  allowAccess := i.ptwAllow

def tlbIn (i : MmuIn w) (u : TlbUpdate w) (access : Bool) (va : BitVec 64) : TlbIn w where
  flush := i.flushTlb
  update := u
  luAccess := access
  luAsid := i.asid
  luVaddr := va
  asidToBeFlushed := i.asidToBeFlushed
  vaddrToBeFlushed := i.vaddrToBeFlushed

/-! ### `data_interface` -/

/-- `daccess_err` -/
def daccessErr (d : DataRegs) (i : MmuIn w) : Bool :=
  i.enLdStTranslation &&
    ((i.mode.privLvl == .s && !i.mode.sum && d.dtlbPte.u) || (i.mode.privLvl == .u && !d.dtlbPte.u))

/-- `lsu_paddr_o` under translation: the low bits of a superpage come from the virtual address. -/
def pagePaddr (d : DataRegs) : BitVec 56 :=
  if d.dtlbIs1G then d.dtlbPte.ppn.extractLsb' 18 26 ++ d.lsuVaddr.extractLsb' 0 30
  else if d.dtlbIs2M then d.dtlbPte.ppn.extractLsb' 9 35 ++ d.lsuVaddr.extractLsb' 0 21
  else d.dtlbPte.ppn ++ d.lsuVaddr.extractLsb' 0 12

/-- `lsu_dtlb_ppn_o` under translation: the flags are those of the lookup before. -/
def dtlbPpn (d : DataRegs) (ppn : BitVec 44) (va : BitVec 64) : BitVec 44 :=
  if d.dtlbIs1G then ppn.extractLsb' 30 14 ++ (va.extractLsb' 12 18 ++ ppn.extractLsb' 0 12)
  else if d.dtlbIs2M then ppn.extractLsb' 21 23 ++ (va.extractLsb' 12 9 ++ ppn.extractLsb' 0 12)
  else ppn

def pageFault (d : DataRegs) (va : BitVec 64) : LsuException :=
  ⟨if d.lsuIsStore then .storePageFault else .loadPageFault, va⟩

def accessFault (d : DataRegs) (tval : BitVec 64) : LsuException :=
  ⟨if d.lsuIsStore then .stAccessFault else .ldAccessFault, tval⟩

/-- The exception of a DTLB hit. -/
def hitException (d : DataRegs) (i : MmuIn w) : Option LsuException :=
  let denied := if d.lsuIsStore then !d.dtlbPte.w || daccessErr d i || !d.dtlbPte.d else daccessErr d i
  if denied then some (pageFault d d.lsuVaddr)
  else if !i.pmpDataAllow then some (accessFault d ((pagePaddr d).setWidth 64))
  else none

def dataInterface (s : MmuRegs w ki kd) (i : MmuIn w) : LsuOut :=
  let d := s.data
  let l := s.dtlbLookup i
  let hit := if i.enLdStTranslation then l.hit else true
  if i.enLdStTranslation && d.misalignedEx.isNone then
    let o : LsuOut := ⟨hit, dtlbPpn d l.content.ppn i.lsuVaddr, false, pagePaddr d, none⟩
    if d.dtlbHit && d.lsuReq then { o with valid := true, ex := hitException d i }
    else if s.ptw.ptwActive && !s.ptw.isInstrPtw then
      if s.ptw.ptwAccessException then { o with valid := true, ex := some (accessFault d i.lsuVaddr) }
      else if s.ptw.ptwError then { o with valid := true, ex := some (pageFault d s.ptw.vaddr) }
      else o
    else o
  else
    let paddr := d.lsuVaddr.extractLsb' 0 56
    let o : LsuOut := ⟨hit, i.lsuVaddr.extractLsb' 12 44, d.lsuReq, paddr, d.misalignedEx⟩
    if d.lsuReq && d.misalignedEx.isNone && !i.pmpDataAllow then
      { o with ex := some (accessFault d (paddr.setWidth 64)) }
    else o

def dataNext (s : MmuRegs w ki kd) (i : MmuIn w) : DataRegs where
  lsuVaddr := i.lsuVaddr
  lsuReq := i.lsuReq
  misalignedEx := if i.lsuReq then i.misalignedEx else none
  dtlbPte := (s.dtlbLookup i).content
  dtlbHit := (s.dtlbLookup i).hit
  lsuIsStore := i.lsuIsStore
  dtlbIs2M := (s.dtlbLookup i).is2M
  dtlbIs1G := (s.dtlbLookup i).is1G

def step (s : MmuRegs w ki kd) (i : MmuIn w) : MmuRegs w ki kd where
  itlb := s.itlb.step (tlbIn i (s.ptw.itlbUpdate (s.ptwIn i)) i.fetchReq i.fetchVaddr)
  dtlb := s.dtlb.step (tlbIn i (s.ptw.dtlbUpdate (s.ptwIn i)) i.lsuReq i.lsuVaddr)
  ptw := s.ptw.step (s.ptwIn i)
  data := s.dataNext i

/-! ### Runs -/

/-- The last cycle as far as promises refer to it: the outstanding read, MXR, and whether it flushed. -/
structure Past where
  pend : Option (BitVec 56)
  mxr : Bool
  flushed : Bool

def watch (g : Past) (s : MmuRegs w ki kd) (i : MmuIn w) : Past where
  pend := s.ptw.outstanding (s.ptwIn i) g.pend
  mxr := i.mode.mxr
  flushed := i.flush

def machine (w ki kd : ℕ) : Machine (MmuRegs w ki kd × Past) (MmuIn w) :=
  (⟨fun s => s = reset, step⟩ : Machine (MmuRegs w ki kd) (MmuIn w)).observe ⟨none, false, true⟩ watch

/-- One page table whose memory answers the walker, all of it allowed by the PMP. MXR changes by a
CSR write or a trap, which flush, and the LSU holds the address of a walk until a flush. -/
structure Ok (mem : BitVec 56 → Pte) (root : BitVec 44) (x : MmuRegs w ki kd × Past) (i : MmuIn w) : Prop where
  satp : i.satpPpn = root
  answers : Ptw.Answers mem x.2.pend (x.1.ptwIn i)
  ptwAllow : i.ptwAllow = true
  pmpDataAllow : i.pmpDataAllow = true
  mxr : x.2.flushed = false → i.mode.mxr = x.2.mxr
  hold : x.1.ptw.walking → x.1.ptw.isInstrPtw = false → i.flush = false → i.lsuVaddr = x.1.data.lsuVaddr

/-- What an access ends with. -/
inductive Outcome
  | paddr (p : BitVec 56)
  | exception (e : LsuException)
deriving DecidableEq

/-- The final outcome of a translated access, in the cycle in which the answer is valid. -/
def answer (s : MmuRegs w ki kd) (i : MmuIn w) : Option Outcome :=
  let o := s.dataInterface i
  if i.enLdStTranslation && s.data.misalignedEx.isNone && o.valid then
    some (match o.ex with
      | none => .paddr o.paddr
      | some e => .exception e)
  else none

/-- The outcome of the Sv39 algorithm under the mode in force. -/
def required (mem : BitVec 56 → Pte) (root : BitVec 44) (m : Mode) (d : DataRegs) : Outcome :=
  match sv39 mem root m d.lsuIsStore d.lsuVaddr with
  | some p => .paddr p
  | none => .exception ⟨if d.lsuIsStore then .storePageFault else .loadPageFault, d.lsuVaddr⟩

/-- A load that hits a page without R while MXR is clear, and that no other check stops. -/
def staleLoad (s : MmuRegs w ki kd) (i : MmuIn w) : Bool :=
  s.data.dtlbHit && s.data.lsuReq && !s.data.lsuIsStore && !s.data.dtlbPte.r && !i.mode.mxr &&
    i.mode.privOk s.data.dtlbPte

end MmuRegs
end Culsans.Mmu
