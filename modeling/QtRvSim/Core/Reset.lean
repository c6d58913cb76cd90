import QtRvSim.Core.Step

/-!
# A new machine

The configuration a core is constructed with, the state of a core after `reset`, and a memory that
holds a program.
-/

namespace QtRvSim

open ByteMemory FrontendMemory

/-- The configuration of a new core: every exception stops the machine and all but interrupts are
stepped over. -/
def CoreConfig.new (xlen : Xlen) (isaWord : ConfigIsaWord) (hazardUnit : HazardUnit) :
    CoreConfig where
  xlen := xlen
  isaWord := isaWord
  hazardUnit := hazardUnit
  endian := .little
  stopOnException _ := true
  stepOverException excause := excause != .intM && excause != .intS
  hwBreaks := []

def CoreConfig.rv64 (hazardUnit : HazardUnit) : CoreConfig :=
  .new ._64 { bits := 0xffffffff } hazardUnit

def CoreConfig.rv32 (hazardUnit : HazardUnit) : CoreConfig :=
  .new ._32 { bits := 0xffffffff } hazardUnit

def BranchPredictor.default (enabled : Bool) : BranchPredictor :=
  (BranchPredictor.new enabled .smith1Bit .notTaken 2 0 2).get (by cases enabled <;> decide)

theorem BranchPredictor.alwaysTaken_isSome :
    (BranchPredictor.new true .alwaysTaken .undefined 2 0 0).isSome = true := by
  decide

def Core.reset {M : Type} (cfg : CoreConfig) (predictor : BranchPredictor) (mem : M) :
    Core M where
  regs := .reset
  controlState := .new cfg.xlen cfg.isaWord
  predictor := predictor
  mem := mem
  loadReservedRange := .empty
  currentPrivilege := .machine
  currentAsid := 0
  stallCount := 0
  cycleCount := 0

/-- A memory that holds instructions from an address on, and zeros elsewhere. -/
def FlatMemory.ofWords (address : Address) (words : List Instruction) : FlatMemory :=
  ({ bytes := fun _ => 0 } : FlatMemory).writeBytes address
    (words.flatMap fun word => bytesOfValue .little 4 word.toNat)

/-- A 32-bit core with the default predictor in front of a word at address 0x200. -/
def predictingCore (word : Instruction) : Core FlatMemory :=
  .reset (.rv32 .none) (.default true) (.ofWords 0x200 [word])

end QtRvSim
