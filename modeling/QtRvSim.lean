import QtRvSim.Machine.Control
import QtRvSim.Machine.Multiplier
import QtRvSim.Machine.SymbolTable
import QtRvSim.Memory.Backend
import QtRvSim.Memory.Equality
import QtRvSim.OsEmulation.Filepath
import QtRvSim.Refinement.AccessPaths
import QtRvSim.Refinement.BranchStatistics
import QtRvSim.Refinement.BusRanges
import QtRvSim.Refinement.CacheReset
import QtRvSim.Refinement.CsrImmediate
import QtRvSim.Refinement.DataLoads
import QtRvSim.Refinement.FaultAddress
import QtRvSim.Refinement.FaultingStore
import QtRvSim.Refinement.FenceOrder
import QtRvSim.Refinement.ForwardedValues
import QtRvSim.Refinement.IllegalEncodings
import QtRvSim.Refinement.IndirectJump
import QtRvSim.Refinement.InstructionCount
import QtRvSim.Refinement.LruLaw
import QtRvSim.Refinement.PcWidth
import QtRvSim.Refinement.PredictedAddress
import QtRvSim.Refinement.PredictorTables
import QtRvSim.Refinement.PredictorTransparency
import QtRvSim.Refinement.PrivilegeContainment
import QtRvSim.Refinement.RegisterOperands
import QtRvSim.Refinement.RelocationOperators
import QtRvSim.Refinement.Reservation
import QtRvSim.Refinement.SatpSwitch
import QtRvSim.Refinement.SourceLines
import QtRvSim.Refinement.SupervisorView
import QtRvSim.Refinement.TrapReturn
import QtRvSim.Refinement.WrongPath
