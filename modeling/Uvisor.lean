import Uvisor.Execution
import Uvisor.PoolQueue
import Uvisor.PoolInvariant
import Uvisor.PoolOperations
import Uvisor.Rpc
import Uvisor.QueueRotation
import Uvisor.RotationOrder
import Uvisor.RpcDescription
import Uvisor.RpcDrain
import Uvisor.RpcTermination
import Uvisor.PoolLocking
import Uvisor.PoolRefinement
import Uvisor.PoolHistory
import Uvisor.RpcHandlers
import Uvisor.RpcAtMostOnce
import Uvisor.RpcWakeup
import Uvisor.BitArray
import Uvisor.PageAllocator
import Uvisor.PageOperations
import Uvisor.PageOwnership
import Uvisor.PageAccounting
import Uvisor.PageGrants
import Uvisor.PageReleases
import Uvisor.Ipc
import Uvisor.IpcTermination
import Uvisor.IpcPasses
import Uvisor.IpcDelivery
import Uvisor.IpcTokens
import Uvisor.IpcTokenInvariant
import Uvisor.IpcTokenLifecycle
import Uvisor.IpcTokenRuns
import Uvisor.IpcFailures
import Uvisor.BoxEnumeration
import Uvisor.BoxAgreement
import Uvisor.Context
import Uvisor.ContextStack
import Uvisor.Interrupts
import Uvisor.InterruptStack
import Uvisor.ForgedFrames
import Uvisor.Threads
import Uvisor.ThreadBinding
import Uvisor.ArmMpu
import Uvisor.RoundRobin
import Uvisor.MpuIsolation
import Uvisor.MpuPriority
import Uvisor.RpcSystem
import Uvisor.RpcPasses
import Uvisor.MessageOrder
import Uvisor.DrainOrder
import Uvisor.RpcCallers
import Uvisor.RpcCallees
import Uvisor.RpcIntegrity
import Uvisor.RpcEndToEnd
import Uvisor.RpcWaits
import Uvisor.RpcCookies
import Uvisor.RpcTimeouts
import Uvisor.RpcFootprint
import Uvisor.RpcResultSlots
import Uvisor.RpcHonestCaller
import Uvisor.RpcMaliciousBoxes
import Uvisor.RpcAuthenticity
import Uvisor.RpcMemory
import Uvisor.PoolAccesses
import Uvisor.PoolInit
import Uvisor.RpcAccesses
import Uvisor.IpcMemory
import Uvisor.IpcAccesses
import Uvisor.RpcGroups
import Uvisor.RpcIndices
import Uvisor.ArmMpuAccess
import Uvisor.PageSubregions
import Uvisor.PageGeometry
import Uvisor.PageMasks
import Uvisor.FaultRecovery
import Uvisor.AlignedRegions
import Uvisor.RegionEncoding
import Uvisor.PublicMemory
import Uvisor.BoxMemory
import Uvisor.BoxSubregions
import Uvisor.BoxSanityChecks
import Uvisor.BoxOrder
import Uvisor.BoxPlacement
import Uvisor.BoxSections
import Uvisor.LastWrite
import Uvisor.Virq
import Uvisor.VirqOwnership
import Uvisor.VirqPhases
import Uvisor.KinetisAips
import Uvisor.SecureVirq
import Uvisor.SecureVirqRuns
import Uvisor.ActivePages
import Uvisor.ArmSau
import Uvisor.SauPriority
import Uvisor.SauBuffers
import Uvisor.SauConfiguration
import Uvisor.Scheduler
import Uvisor.BoxInit
import Uvisor.KinetisMpu
import Uvisor.KinetisSlots
import Uvisor.KinetisDescriptors
import Uvisor.BandedMemory
import Uvisor.BandedLayout
import Uvisor.StaticRegions
import Uvisor.AclSlices
import Uvisor.KinetisAcls
import Uvisor.AipsAdd
import Uvisor.AipsExclusive
import Uvisor.ByteMemory
import Uvisor.BusRecovery
import Uvisor.RegisterGateway
import Uvisor.RegisterOperations
import Uvisor.BoxNamespaces
import Uvisor.IrqAcls
import Uvisor.CyclicCounter
import Uvisor.SchedulerRounds
import Uvisor.AlignedWords
import Uvisor.SecureAllocator
import Uvisor.AlignedAlloc
import Uvisor.RegionSizes
import Uvisor.BitBand
import Uvisor.Linearizability
import Uvisor.PoolLinearizability
import Uvisor.BoxIsolation
import Uvisor.SauIsolation
import Uvisor.KinetisIsolation
import Uvisor.UnprivAccess
import Uvisor.SauBoot
import Uvisor.MpuBoot
import Uvisor.DebugBox
import Uvisor.KinetisBoot
import Uvisor.Disabled
import Uvisor.DisabledContexts
import Uvisor.DisabledVectors
import Uvisor.FaultHandlers
import Uvisor.MpuFaults
