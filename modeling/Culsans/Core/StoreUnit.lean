import Culsans.Dcache.Package
import Culsans.Library.ByteLanes

/-! # Stores and atomics in the store unit

The re-aligner of `store_unit`, and `amo_buffer`, which hands an atomic to the data
cache as it came. Of `fu_op` the stores of the base instruction set and the atomics are kept.
-/

namespace Culsans.Core
open Dcache Library

/-- `fu_op` -/
inductive FuOp
  | sd | sw | sh | sb
  | amoLrw | amoLrd | amoScw | amoScd
  | amoSwapw | amoAddw | amoAndw | amoOrw | amoXorw | amoMaxw | amoMaxwu | amoMinw | amoMinwu
  | amoSwapd | amoAddd | amoAndd | amoOrd | amoXord | amoMaxd | amoMaxdu | amoMind | amoMindu
deriving DecidableEq

namespace FuOp

/-- `is_amo` -/
def isAmo : FuOp → Bool
  | sd | sw | sh | sb => false
  | _ => true

/-- `extract_transfer_size` -/
def extractTransferSize : FuOp → BitVec 2
  | sd | amoLrd | amoScd | amoSwapd | amoAddd | amoAndd | amoOrd | amoXord | amoMaxd | amoMaxdu | amoMind
  | amoMindu => 3
  | sw | amoLrw | amoScw | amoSwapw | amoAddw | amoAndw | amoOrw | amoXorw | amoMaxw | amoMaxwu | amoMinw
  | amoMinwu => 2
  | sh => 1
  | sb => 0

/-- `amo_op_d` -/
def amoOpD : FuOp → Amo
  | amoLrw | amoLrd => .lr
  | amoScw | amoScd => .sc
  | amoSwapw | amoSwapd => .swap
  | amoAddw | amoAddd => .add
  | amoAndw | amoAndd => .and
  | amoOrw | amoOrd => .or
  | amoXorw | amoXord => .xor
  | amoMaxw | amoMaxd => .max
  | amoMaxwu | amoMaxdu => .maxu
  | amoMinw | amoMind => .min
  | amoMinwu | amoMindu => .minu
  | sd | sw | sh | sb => .none

end FuOp

/-- `data_align`: the bytes are rotated up to the offset of the address. -/
def dataAlign (addr : Offset) (data : Word) : Word :=
  fun k => data (Fin.ofNat 8 (k.val + 8 - addr.toNat % 8))

/-- `st_data_n`: the operand of an atomic is not shifted. -/
def stDataN (op : FuOp) (vaddr : Offset) (data : Word) : Word :=
  if op.isAmo then data else dataAlign vaddr data

/-- `amo_req_o` of the AMO buffer, once the atomic may go. The page offset of the
virtual and the physical address are the same. -/
def amoReqO (op : FuOp) (paddr : PAddr) (data : BitVec 64) : AmoReq where
  req := true
  amoOp := op.amoOpD
  size := op.extractTransferSize
  operandA := paddr
  operandB := stDataN op paddr.offset (toBytes (data : BitVec (8 * 8)))

end Culsans.Core
