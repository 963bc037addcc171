import Culsans.Dcache.TagUniqueness
import Culsans.Dcache.SnoopAtomicity
import Culsans.Dcache.HoldOff
import Culsans.Dcache.Flush
import Culsans.Dcache.CriticalWord
import Culsans.Dcache.SnoopProtocol
import Culsans.Coherence.Atomicity
import Culsans.Coherence.WriteOrder
import Culsans.Ccu.ReadData
import Culsans.Ccu.WriteBack
import Culsans.Subsystem.AmoPath
import Culsans.Subsystem.BypassOwners
import Culsans.Mmu.Permissions
import Culsans.Mmu.Fence
import Culsans.Mmu.Pmp
import Culsans.Icache.FetchProtocol
import Culsans.Frontend.QueueOrder
import Culsans.Core.Mult
import Culsans.Core.IssueQueue
import Culsans.Core.LoadOrder
import Culsans.Core.IssueReadOperands
import Culsans.Core.OperandOrder
import Culsans.Core.BackEnd
import Culsans.Core.FenceT
import Culsans.Icache.AxiWrapper
import Culsans.Icache.FetchMemory
import Culsans.Subsystem.FenceFlush
import Culsans.Coherence.Lrsc
import Culsans.Coherence.LrscReservations
import Culsans.Subsystem.AmoAlu
import Culsans.Core.CompressedDecoder
import Culsans.Frontend.BranchUnit
import Culsans.Frontend.DeliveredPath
import Culsans.Frontend.ProgramOrder
import Culsans.Frontend.FetchSystem
