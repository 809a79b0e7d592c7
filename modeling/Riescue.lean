import Riescue.AddrgenAttempts
import Riescue.AddrgenCounters
import Riescue.AddrgenExact
import Riescue.AddrgenHoles
import Riescue.AddrgenMasks
import Riescue.AddrgenReserved
import Riescue.AddrgenSafety
import Riescue.AddrgenServes
import Riescue.AplicRoutines
import Riescue.AssemblyLines
import Riescue.BarrierSafety
import Riescue.BranchSetup
import Riescue.CanonicalizerConsistent
import Riescue.CheckExcp
import Riescue.ConditionalPmp
import Riescue.CsrAccess
import Riescue.EndOfTest
import Riescue.ExpanderRuns
import Riescue.FeatureDiscovery
import Riescue.InterruptDispatch
import Riescue.InterruptTable
import Riescue.InterruptTaken
import Riescue.JumpTables
import Riescue.LegalizerWellFormed
import Riescue.LibLabelled
import Riescue.LinearScanConservation
import Riescue.LinearScanSpills
import Riescue.MemoryRegistry
import Riescue.NumGenFields
import Riescue.OsData
import Riescue.PageEmit
import Riescue.PageMappingIndex
import Riescue.PageMappingsLinked
import Riescue.PageMappingsNonleaf
import Riescue.PagetablesEntry
import Riescue.PagetablesLeaf
import Riescue.PagetablesOrder
import Riescue.ParallelSafety
import Riescue.PmaGeneratorClear
import Riescue.PmaHint
import Riescue.PmaLookup
import Riescue.PmaPreAllocation
import Riescue.PmaReads
import Riescue.PmaValue
import Riescue.PmpCapacity
import Riescue.RandomAddrsDisjoint
import Riescue.RegisterManager
import Riescue.SectionsExact
import Riescue.Selfcheck
import Riescue.Semaphore
import Riescue.SimultaneousAgreement
import Riescue.TestIndex
import Riescue.TrapGprs
import Riescue.TriggerDisable
import Riescue.TriggerPositions
import Riescue.VariableAmo
import Riescue.VariableLayout
import Riescue.VecIndexed
import Riescue.VregInits
import Riescue.LibAllocation
import Riescue.LinearScanLiveness
import Riescue.LinearScanRewrite
import Riescue.LinearScanStackSlots
import Riescue.LinearScanMeaning
import Riescue.LibSaveRestore
import Riescue.CsrSaveRestore
