import QtRvSim.Core.Pipeline
import QtRvSim.Machine.Predictor
import QtRvSim.Memory.Frontend

/-!
# Stages of the core

The five stage functions and the exception entry shared by the single-cycle and the pipelined core
(`core.cpp`).  The exception handler called at the end of `handle_exception` is the default one,
which changes nothing.
-/

namespace QtRvSim

open FrontendMemory

inductive HazardUnit where
  | none
  | stall
  | stallForward
deriving DecidableEq, Repr

/-- Settings of a core that do not change while it runs. -/
structure CoreConfig where
  xlen : Xlen
  isaWord : ConfigIsaWord
  hazardUnit : HazardUnit
  endian : Endian
  stopOnException : ExceptionCause → Bool
  stepOverException : ExceptionCause → Bool
  hwBreaks : List Address

/-- State of a core apart from its stage registers, together with the units it drives. -/
structure Core (M : Type) where
  regs : Registers
  controlState : ControlState
  predictor : BranchPredictor
  mem : M
  loadReservedRange : AddressRange
  currentPrivilege : PrivilegeLevel
  currentAsid : BitVec 16
  stallCount : BitVec 32
  cycleCount : BitVec 32

namespace CoreConfig

def unsupportedInstFlagsToCheck (cfg : CoreConfig) : InstructionFlags :=
  InstructionFlags.supported
    ||| (if cfg.xlen = ._32 then InstructionFlags.rv64 else 0)
    ||| (if cfg.isaWord.contains 'A' then 0 else InstructionFlags.amo)
    ||| (if cfg.isaWord.contains 'M' then 0 else InstructionFlags.mul)

def disallowedPriv (privilege : PrivilegeLevel) : InstructionFlags :=
  (if privilege.toNat < PrivilegeLevel.supervisor.toNat then InstructionFlags.privS else 0)
    ||| (if privilege.toNat < PrivilegeLevel.hypervisor.toNat then InstructionFlags.privH else 0)
    ||| (if privilege.toNat < PrivilegeLevel.machine.toNat then InstructionFlags.privM else 0)

/-- Flags that decide whether an instruction is legal.  The core recomputes the mask whenever the
privilege changes, so it is a function of the privilege. -/
def checkInstFlagsMask (cfg : CoreConfig) (privilege : PrivilegeLevel) : InstructionFlags :=
  cfg.unsupportedInstFlagsToCheck ||| disallowedPriv privilege

def checkInstFlagsVal : InstructionFlags := InstructionFlags.supported

def getXlenFromReg (cfg : CoreConfig) (reg : RegisterValue) : BitVec 64 :=
  reg.asXlen cfg.xlen

end CoreConfig

namespace Core

variable {M : Type} [FrontendMemory M]

def makeAccessMode (core : Core M) (op : AccessOp) : AccessMode :=
  { asid := core.currentAsid, priv := core.currentPrivilege, opkind := op }

/-- Applies an update of the CSR file and delivers its signals to the memory system. -/
def updateCsr (core : Core M) (u : CsrUpdate) : Core M :=
  { core with controlState := u.1, mem := onCsrWrites u.2 core.mem }

def nextCycle (core : Core M) : Core M :=
  { core with cycleCount := core.cycleCount + 1 }

def setCurrentPrivilege (core : Core M) (privilege : PrivilegeLevel) : Core M :=
  { core with currentPrivilege := privilege }

/-- Writes the program counter of a core; a misaligned address leaves the core as it is. -/
def writePc (core : Core M) (address : Address) : Outcome (Core M) Unit :=
  match core.regs.writePc address with
  | .ok regs => (.ok (), { core with regs := regs })
  | .error e => (.error e, core)

def amo32Operations (memctl : AccessControl) (a b : BitVec 32) : BitVec 32 :=
  match memctl with
  | .amoswap32 => b
  | .amoadd32 => a + b
  | .amoxor32 => a ^^^ b
  | .amoand32 => a &&& b
  | .amoor32 => a ||| b
  | .amomin32 => if a.slt b then a else b
  | .amomax32 => if a.slt b then b else a
  | .amominu32 => if a.ult b then a else b
  | .amomaxu32 => if a.ult b then b else a
  | _ => 0

def amo64Operations (memctl : AccessControl) (a b : BitVec 64) : BitVec 64 :=
  match memctl with
  | .amoswap64 => b
  | .amoadd64 => a + b
  | .amoxor64 => a ^^^ b
  | .amoand64 => a &&& b
  | .amoor64 => a ||| b
  | .amomin64 => if a.slt b then a else b
  | .amomax64 => if a.slt b then b else a
  | .amominu64 => if a.ult b then a else b
  | .amomaxu64 => if a.ult b then b else a
  | _ => 0

/-- Load reserved; the reservation is made before the read. -/
def loadReserved (cfg : CoreConfig) (width : Nat) (extend : BitVec width → RegisterValue)
    (memAddr : AddressWithMode) (core : Core M) : Access (Core M) RegisterValue :=
  let core := { core with
    loadReservedRange :=
      ⟨memAddr.address, memAddr.address + BitVec.ofNat 64 (width / 8 - 1)⟩ }
  match readGeneric width cfg.endian .data memAddr core.mem with
  | (.ok value, mem) => (.ok (extend value), { core with mem := mem })
  | (.error e, mem) => (.error e, { core with mem := mem })

/-- Store conditional; a faulting store keeps the reservation. -/
def storeConditional (cfg : CoreConfig) (width : Nat) (rtValue : RegisterValue)
    (memAddr : AddressWithMode) (core : Core M) : Access (Core M) RegisterValue :=
  let range : AddressRange :=
    ⟨memAddr.address, memAddr.address + BitVec.ofNat 64 (width / 8 - 1)⟩
  if core.loadReservedRange.contains range then
    match writeGeneric cfg.endian .data memAddr (rtValue.setWidth width) core.mem with
    | (.ok (), mem) => (.ok 0, { core with mem := mem, loadReservedRange := .empty })
    | (.error e, mem) => (.error e, { core with mem := mem })
  else
    (.ok 1, { core with loadReservedRange := .empty })

def amoModify (cfg : CoreConfig) (width : Nat) (extend : BitVec width → RegisterValue)
    (operation : BitVec width → BitVec width → BitVec width) (rtValue : RegisterValue)
    (memAddr : AddressWithMode) (core : Core M) : Access (Core M) RegisterValue :=
  match readGeneric width cfg.endian .data memAddr core.mem with
  | (.error e, mem) => (.error e, { core with mem := mem })
  | (.ok fetched, mem) =>
    match writeGeneric cfg.endian .data memAddr
        (operation fetched (rtValue.setWidth width)) mem with
    | (.ok (), mem) => (.ok (extend fetched), { core with mem := mem })
    | (.error e, mem) => (.error e, { core with mem := mem })

def memorySpecial (cfg : CoreConfig) (memctl : AccessControl) (memread memwrite : Bool)
    (towriteVal rtValue : RegisterValue) (memAddr : AddressWithMode) (core : Core M) :
    Access (Core M) RegisterValue :=
  match memctl with
  | .cacheOp =>
    (.ok towriteVal,
      { core with
        mem := sync .program (sync .data core.mem)
        predictor := core.predictor.flush })
  | .lr32 =>
    if !memread then (.ok towriteVal, core)
    else loadReserved cfg 32 (·.signExtend 64) memAddr core
  | .sc32 =>
    if !memwrite then (.ok towriteVal, core) else storeConditional cfg 32 rtValue memAddr core
  | .lr64 =>
    if !memread then (.ok towriteVal, core) else loadReserved cfg 64 id memAddr core
  | .sc64 =>
    if !memwrite then (.ok towriteVal, core) else storeConditional cfg 64 rtValue memAddr core
  | .amoswap32 | .amoadd32 | .amoxor32 | .amoand32 | .amoor32 | .amomin32 | .amomax32
  | .amominu32 | .amomaxu32 =>
    if !memread || !memwrite then (.ok towriteVal, core)
    else amoModify cfg 32 (·.signExtend 64) (amo32Operations memctl) rtValue memAddr core
  | .amoswap64 | .amoadd64 | .amoxor64 | .amoand64 | .amoor64 | .amomin64 | .amomax64
  | .amominu64 | .amomaxu64 =>
    if !memread || !memwrite then (.ok towriteVal, core)
    else amoModify cfg 64 id (amo64Operations memctl) rtValue memAddr core
  | .sfenceVma =>
    (.ok towriteVal,
      { core with
        mem := sfenceVma .program towriteVal rtValue (sfenceVma .data towriteVal rtValue core.mem)
        predictor := core.predictor.flush
        loadReservedRange := .empty })
  | _ => (.ok towriteVal, core)

def countCycle (cfg : CoreConfig) (core : Core M) : Core M :=
  core.updateCsr (core.controlState.incrementInternal cfg.xlen .mcycle 1)

def fetch (cfg : CoreConfig) (pc : PCInterstage) (skipBreak : Bool) (core : Core M) :
    FetchInterstage × Core M :=
  if pc.stopIf then ({}, core)
  else
    let instAddr := core.regs.pc
    let (result, mem) := readGeneric 32 cfg.endian .program
      { address := instAddr, mode := core.makeAccessMode .fetch } core.mem
    let core := { core with mem := mem }
    let (inst, excause) : Instruction × ExceptionCause :=
      match result with
      | .ok word => (word, .none)
      | .error _ => (Instruction.nop, .insnPageFault)
    let excause := if !skipBreak && cfg.hwBreaks.contains instAddr then .hwbreak else excause
    let core := core.countCycle cfg
    let excause :=
      if excause = .none then core.controlState.coreInterruptRequest core.currentPrivilege
      else excause
    ({ inst := inst
       instAddr := instAddr
       nextInstAddr := instAddr + inst.size
       predictedNextInstAddr := core.predictor.predictNextPcAddress inst instAddr
       excause := excause
       isValid := true }, core)

def instXretPriv (flags : InstructionFlags) : PrivilegeLevel :=
  if flags.has .xret then
    if flags.has .privM then .machine
    else if flags.has .privH then .hypervisor
    else if flags.has .privS then .supervisor
    else .unprivileged
  else .unprivileged

def decodeExcause (cfg : CoreConfig) (flags : InstructionFlags) (excause : ExceptionCause)
    (privilege : PrivilegeLevel) : ExceptionCause :=
  let excause :=
    if (flags ^^^ CoreConfig.checkInstFlagsVal) &&& cfg.checkInstFlagsMask privilege ≠ 0 then
      .insnIllegal
    else excause
  if flags.has .exception && excause = .none then
    if flags.has .ebreak then .break
    else if flags.has .ecall then
      match privilege with
      | .unprivileged => .ecallU
      | .supervisor => .ecallS
      | _ => .ecallM
    else excause
  else excause

/-- First source register; instructions without one use `x0`. -/
def decodeNumRs (inst : Instruction) : RegisterId :=
  if inst.flags.has (.aluReqRs ||| .aluRsId) then inst.rs else 0

def decodeNumRt (inst : Instruction) : RegisterId :=
  if inst.flags.has .aluReqRt then inst.rt else 0

def decodeNumRd (inst : Instruction) : RegisterId :=
  if inst.flags.has .regwrite then inst.rd else 0

/-- First operand: the register number itself for the CSR immediate forms. -/
def decodeValRs (inst : Instruction) (regs : Registers) : RegisterValue :=
  if inst.flags.has .aluRsId then (decodeNumRs inst).setWidth 64
  else regs.readGp (decodeNumRs inst)

def decodeCsrAddress (inst : Instruction) : Csr.Address :=
  if inst.flags.has .csr then inst.csrAddress else 0

def decodeCsrRead (inst : Instruction) (core : Core M) : Except SimulatorException RegisterValue :=
  if inst.flags.has .csr then
    core.controlState.read (decodeCsrAddress inst) core.currentPrivilege
  else .ok 0

/-- The decode stage's output for given operands. -/
def decodeInterstage (cfg : CoreConfig) (dt : FetchInterstage) (privilege : PrivilegeLevel)
    (valRs valRt csrReadVal : RegisterValue) : DecodeInterstage :=
  let flags := dt.inst.flags
  { inst := dt.inst
    instAddr := dt.instAddr
    nextInstAddr := dt.nextInstAddr
    predictedNextInstAddr := dt.predictedNextInstAddr
    valRs := valRs
    valRt := valRt
    immediateVal := .ofI32 dt.inst.immediate
    csrReadVal := csrReadVal
    csrAddress := decodeCsrAddress dt.inst
    excause := decodeExcause cfg flags dt.excause privilege
    ffRs := .none
    ffRt := .none
    aluComponent := if flags.has .amo then .pass else if flags.has .mul then .mul else .alu
    aluop := dt.inst.aluOp
    memctl := dt.inst.memCtl
    numRs := decodeNumRs dt.inst
    numRt := decodeNumRt dt.inst
    numRd := decodeNumRd dt.inst
    memread := flags.has .memread
    memwrite := flags.has .memwrite
    alusrc := flags.has .alusrc
    regwrite := flags.has .regwrite
    aluReqRs := flags.has .aluReqRs
    aluReqRt := flags.has .aluReqRt
    branchBxx := flags.has .branch
    branchJal := flags.has .jump
    branchVal := flags.has .bjNot
    branchJalr := flags.has .branchJalr
    isValid := dt.isValid
    wOperation := cfg.xlen != ._64 || flags.has .forceWOp
    aluMod := flags.has .aluMod
    aluPc := flags.has .pcToAlu
    csr := flags.has .csr
    csrToAlu := flags.has .csrToAlu
    csrWrite := flags.has .csr && (!flags.has .csrToAlu || decodeNumRs dt.inst != 0)
    xret := flags.has .xret
    xretPrivlev := instXretPriv flags
    insertStallBefore := flags.has .csr
    amo := flags.has .amo }

/-- The decode stage.  Reading a CSR that does not exist or is not accessible throws. -/
def decode (cfg : CoreConfig) (dt : FetchInterstage) (core : Core M) :
    Except SimulatorException DecodeInterstage :=
  match decodeCsrRead dt.inst core with
  | .error e => .error e
  | .ok csrReadVal =>
    .ok (decodeInterstage cfg dt core.currentPrivilege (decodeValRs dt.inst core.regs)
      (core.regs.readGp (decodeNumRt dt.inst)) csrReadVal)

def aluResult (dt : DecodeInterstage) (valRs valRt : RegisterValue) : RegisterValue :=
  let aluFst := if dt.aluPc then dt.instAddr else valRs
  let aluSec :=
    if dt.csrToAlu then dt.csrReadVal else if dt.alusrc then dt.immediateVal else valRt
  if dt.excause ≠ .none then 0
  else aluCombinedOperate dt.aluop dt.aluComponent dt.wOperation dt.aluMod aluFst aluSec

def executeAluVal (dt : DecodeInterstage) : RegisterValue :=
  aluResult dt dt.valRs dt.valRt

def execute (dt : DecodeInterstage) : ExecuteInterstage :=
  { inst := dt.inst
    instAddr := dt.instAddr
    nextInstAddr := dt.nextInstAddr
    predictedNextInstAddr := dt.predictedNextInstAddr
    branchJalTarget := dt.instAddr + dt.immediateVal
    valRt := dt.valRt
    aluVal := executeAluVal dt
    immediateVal := dt.immediateVal
    csrReadVal := dt.csrReadVal
    csrAddress := dt.csrAddress
    excause := dt.excause
    memctl := dt.memctl
    numRd := dt.numRd
    memread := dt.memread
    memwrite := dt.memwrite
    regwrite := dt.regwrite
    isValid := dt.isValid
    branchBxx := dt.branchBxx
    branchJal := dt.branchJal
    branchVal := dt.branchVal
    branchJalr := dt.branchJalr
    aluZero := executeAluVal dt == 0
    csr := dt.csr
    csrWrite := dt.csrWrite
    xret := dt.xret
    xretPrivlev := dt.xretPrivlev
    amo := dt.amo }

structure AccessResult where
  excause : ExceptionCause
  memread : Bool
  memwrite : Bool
  regwrite : Bool
  towriteVal : RegisterValue

def memAddress (cfg : CoreConfig) (dt : ExecuteInterstage) (core : Core M) : AddressWithMode :=
  { address := cfg.getXlenFromReg dt.aluVal
    mode := core.makeAccessMode (if dt.memwrite || dt.amo then .write else .read) }

def regularAccess (cfg : CoreConfig) (dt : ExecuteInterstage) (memAddr : AddressWithMode)
    (core : Core M) : Access (Core M) RegisterValue :=
  let (written, mem) : Access M Unit :=
    if dt.memwrite then writeCtl cfg.endian dt.memctl memAddr dt.valRt core.mem
    else (.ok (), core.mem)
  match written with
  | .error e => (.error e, { core with mem := mem })
  | .ok () =>
    let (value, mem) : Access M RegisterValue :=
      if dt.memread then readCtl cfg.endian dt.memctl memAddr mem
      else (.ok dt.aluVal, mem)
    (value, { core with mem := mem })

def performAccess (cfg : CoreConfig) (dt : ExecuteInterstage) (core : Core M) :
    Access (Core M) RegisterValue :=
  let memAddr := memAddress cfg dt core
  if isSpecialAccess dt.memctl then
    memorySpecial cfg dt.memctl dt.memread dt.memwrite dt.aluVal dt.valRt memAddr core
  else if isRegularAccess dt.memctl then regularAccess cfg dt memAddr core
  else (.ok dt.aluVal, core)

/-- The access part of the memory stage: nothing happens for an instruction with an exception, and
a page fault turns into the instruction's exception. -/
def memoryAccess (cfg : CoreConfig) (dt : ExecuteInterstage) (core : Core M) :
    AccessResult × Core M :=
  if dt.excause ≠ .none then
    ({ excause := dt.excause
       memread := false
       memwrite := false
       regwrite := false
       towriteVal := dt.aluVal }, core)
  else
    match performAccess cfg dt core with
    | (.ok value, core) =>
      ({ excause := .none
         memread := dt.memread
         memwrite := dt.memwrite
         regwrite := dt.regwrite
         towriteVal := value }, core)
    | (.error e, core) =>
      ({ excause := e.cause
         memread := false
         memwrite := false
         regwrite := false
         towriteVal := 0 }, core)

variable {dt : ExecuteInterstage}

variable {cfg : CoreConfig} {core : Core M}

/-- The access part of the memory stage never removes an exception. -/
theorem memoryAccess_excause (h : (memoryAccess cfg dt core).1.excause = .none) :
    dt.excause = .none := by
  by_contra hexcause
  simp [memoryAccess, hexcause] at h

def branchBxxTaken (dt : ExecuteInterstage) : Bool :=
  dt.branchBxx && (!dt.branchVal ^^ !dt.aluZero)

def computeNextInstAddr (cfg : CoreConfig) (exec : ExecuteInterstage) (branchTaken : Bool) :
    Address :=
  if branchTaken || exec.branchJal then exec.branchJalTarget
  else if exec.branchJalr then cfg.getXlenFromReg exec.aluVal
  else exec.nextInstAddr

def updatePredictor (cfg : CoreConfig) (dt : ExecuteInterstage) (predictor : BranchPredictor) :
    BranchPredictor :=
  if dt.branchJal then
    predictor.update dt.inst dt.instAddr dt.branchJalTarget .jump .taken
  else if dt.branchJalr then
    predictor.update dt.inst dt.instAddr (cfg.getXlenFromReg dt.aluVal) .jump .taken
  else if dt.branchBxx then
    predictor.update dt.inst dt.instAddr dt.branchJalTarget .branch
      (if branchBxxTaken dt then .taken else .notTaken)
  else predictor

structure CsrResult where
  computedNextInstAddr : Address
  csrWritten : Bool

/-- Return from a trap: status update, privilege and the address to continue at. -/
def memoryXret (cfg : CoreConfig) (dt : ExecuteInterstage) (core : Core M) : Address × Core M :=
  let (restored, u) :=
    core.controlState.exceptionReturn cfg.xlen core.currentPrivilege dt.xretPrivlev
  let core := (core.updateCsr u).setCurrentPrivilege restored
  let epcReg : Csr.Id := if dt.xretPrivlev = .machine then .mepc else .sepc
  ((core.controlState.readInternal epcReg).asXlen cfg.xlen,
    { core with loadReservedRange := .empty })

/-- Write of a CSR instruction; the flag tells whether there is one. -/
def memoryCsrWrite (cfg : CoreConfig) (dt : ExecuteInterstage) (core : Core M) :
    Outcome (Core M) Bool :=
  if dt.csrWrite then
    match core.controlState.write cfg.xlen dt.csrAddress dt.aluVal core.currentPrivilege with
    | .ok u => (.ok true, core.updateCsr u)
    | .error e => (.error e, core)
  else (.ok false, core)

/-- The CSR part of the memory stage: instruction counter, CSR write and return from a trap. -/
def memoryCsr (cfg : CoreConfig) (dt : ExecuteInterstage) (computedNextInstAddr : Address)
    (core : Core M) : Outcome (Core M) CsrResult :=
  if dt.isValid && dt.excause = .none then
    let core := core.updateCsr (core.controlState.incrementInternal cfg.xlen .minstret 1)
    match memoryCsrWrite cfg dt core with
    | (.error e, core) => (.error e, core)
    | (.ok csrWritten, core) =>
      if dt.xret then
        let (address, core) := memoryXret cfg dt core
        (.ok { computedNextInstAddr := address, csrWritten := true }, core)
      else
        (.ok { computedNextInstAddr := computedNextInstAddr, csrWritten := csrWritten }, core)
  else
    (.ok { computedNextInstAddr := computedNextInstAddr, csrWritten := false }, core)

def selectTowriteVal (dt : ExecuteInterstage) (towriteVal : RegisterValue) : RegisterValue :=
  if dt.csr then dt.csrReadVal
  else if dt.branchJalr || dt.branchJal then dt.nextInstAddr
  else towriteVal

def memoryInterstage (dt : ExecuteInterstage) (memAddr : Address) (access : AccessResult)
    (csr : CsrResult) : MemoryInterstage × MemoryInternalState :=
  ({ inst := dt.inst
     instAddr := dt.instAddr
     nextInstAddr := dt.nextInstAddr
     predictedNextInstAddr := dt.predictedNextInstAddr
     computedNextInstAddr := csr.computedNextInstAddr
     memAddr := memAddr
     towriteVal := selectTowriteVal dt access.towriteVal
     excause := access.excause
     numRd := dt.numRd
     memtoreg := access.memread
     regwrite := access.regwrite
     isValid := dt.isValid
     csrWritten := csr.csrWritten
     xretPrivlev := dt.xretPrivlev },
   { memReadVal := access.towriteVal
     memWriteVal := dt.valRt
     memAddr := dt.aluVal
     memwrite := access.memwrite
     memread := access.memread })

/-- Counts a jump whose target was not the predicted one. -/
def countMisprediction (computed predicted : Address) (core : Core M) : Core M :=
  if computed ≠ predicted then
    { core with predictor := core.predictor.incrementMispredictions }
  else core

def memory (cfg : CoreConfig) (dt : ExecuteInterstage) (core : Core M) :
    Outcome (Core M) (MemoryInterstage × MemoryInternalState) :=
  let memAddr := memAddress cfg dt core
  let (access, core) := memoryAccess cfg dt core
  let core := { core with predictor := updatePredictor cfg dt core.predictor }
  match memoryCsr cfg dt (computeNextInstAddr cfg dt (branchBxxTaken dt)) core with
  | (.error e, core) => (.error e, core)
  | (.ok csr, core) =>
    (.ok (memoryInterstage dt memAddr.address access csr),
      countMisprediction csr.computedNextInstAddr dt.predictedNextInstAddr core)

def memoryAccessed (cfg : CoreConfig) (dt : ExecuteInterstage) (core : Core M) : Core M :=
  let core := (memoryAccess cfg dt core).2
  { core with predictor := updatePredictor cfg dt core.predictor }

theorem memory_of_csr {core₁ : Core M} {csr : CsrResult} (hcsr : memoryCsr cfg dt
      (computeNextInstAddr cfg dt (branchBxxTaken dt)) (memoryAccessed cfg dt core) = (.ok csr,
      core₁)) :
    memory cfg dt core =
      (.ok (memoryInterstage dt (memAddress cfg dt core).address (memoryAccess cfg dt core).1 csr),
        countMisprediction csr.computedNextInstAddr dt.predictedNextInstAddr core₁) := by
  rw [memoryAccessed] at hcsr
  simp only [memory, hcsr]

/-- What a memory stage that does not throw returns. -/
theorem memory_ok {core' : Core M} {r : MemoryInterstage × MemoryInternalState}
    (h : memory cfg dt core = (.ok r, core')) :
    ∃ csr core₁,
      memoryCsr cfg dt (computeNextInstAddr cfg dt (branchBxxTaken dt))
        (memoryAccessed cfg dt core) = (.ok csr, core₁) ∧
      r = memoryInterstage dt (memAddress cfg dt core).address (memoryAccess cfg dt core).1 csr ∧
      core' = countMisprediction csr.computedNextInstAddr dt.predictedNextInstAddr core₁ := by
  unfold memory at h
  dsimp only at h
  split at h
  next => cases h
  next csr core₁ hcsr =>
    cases h
    exact ⟨csr, core₁, hcsr, rfl, rfl⟩

def writeback (dt : MemoryInterstage) (core : Core M) : Core M :=
  if dt.regwrite then { core with regs := core.regs.writeGp dt.numRd dt.towriteVal } else core

def deliverToS (excause : ExceptionCause) (originPriv : PrivilegeLevel) (cs : ControlState) :
    Bool :=
  if excause = .intM || excause = .intS then excause = .intS
  else
    (originPriv = .supervisor || originPriv = .unprivileged) &&
      cs.readInternal .medeleg &&& 1#64 <<< excause.toNat != 0

/-- Causes whose trap value is the address of the access. -/
def hasFaultAddress : ExceptionCause → Bool
  | .insnPageFault | .loadPageFault | .storePageFault | .loadMisaligned | .storeMisaligned
  | .insnFault | .loadFault | .storeFault => true
  | _ => false

/-- The CSR updates of a trap, in order: epc, tval, cause. -/
def trapCsrUpdate (cfg : CoreConfig) (excause : ExceptionCause) (instAddr memRefAddr : Address)
    (originPriv : PrivilegeLevel) (toS : Bool) (cs : ControlState) : CsrUpdate :=
  let epcId : Csr.Id := if toS then .sepc else .mepc
  let tvalId : Csr.Id := if toS then .stval else .mtval
  let u := cs.writeInternal cfg.xlen epcId instAddr
  let u := ControlState.andThen u
    (ControlState.writeInternal cfg.xlen tvalId
      (if hasFaultAddress excause then memRefAddr else 0))
  -- the cause goes to the register of the current privilege, not of the target mode
  let updatePriv : PrivilegeLevel := if toS then .supervisor else originPriv
  ControlState.andThen u (ControlState.updateExceptionCause cfg.xlen excause updatePriv)

def recordTrap (cfg : CoreConfig) (excause : ExceptionCause) (instAddr memRefAddr : Address)
    (toS : Bool) (core : Core M) : Core M :=
  core.updateCsr
    (trapCsrUpdate cfg excause instAddr memRefAddr core.currentPrivilege toS core.controlState)

/-- Entry of the trap handler, unless the cause is stepped over or there is no handler. -/
def enterTrap (cfg : CoreConfig) (excause : ExceptionCause) (toS : Bool) (core : Core M) :
    Outcome (Core M) Unit :=
  let tvecId : Csr.Id := if toS then .stvec else .mtvec
  if core.controlState.readInternal tvecId ≠ 0 ∧ cfg.stepOverException excause = false then
    let targetPriv : PrivilegeLevel := if toS then .supervisor else .machine
    let core := core.updateCsr
      (core.controlState.exceptionInitiate cfg.xlen core.currentPrivilege targetPriv)
    let core := core.setCurrentPrivilege targetPriv
    core.writePc (core.controlState.exceptionPcAddress core.currentPrivilege)
  else
    (.ok (), core)

/-- The default exception handler changes nothing and asks the machine to stop. -/
def stopExceptionHandler : Bool := true

/-- The exception an unsupported instruction raises when it is reached. -/
def unsupportedInstruction (inst : Instruction) : SimulatorException :=
  { kind := .unsupportedInstruction
    reason := "Instruction with following encoding is not supported"
    ext := hexString inst.toNat
    cause := .none }

/-- Delivery of an exception after the break point check. -/
def deliverException (cfg : CoreConfig) (excause : ExceptionCause) (instAddr memRefAddr : Address)
    (core : Core M) : Outcome (Core M) Bool :=
  let toS := deliverToS excause core.currentPrivilege core.controlState
  let core := { core with loadReservedRange := .empty }
  match enterTrap cfg excause toS (recordTrap cfg excause instAddr memRefAddr toS core) with
  | (.ok (), core) => (.ok stopExceptionHandler, core)
  | (.error e, core) => (.error e, core)

/-- Exception entry of the core.  The next address and the address of the last jump only reach the
exception handler, whose default ignores them. -/
def handleException (cfg : CoreConfig) (excause : ExceptionCause) (inst : Instruction)
    (instAddr _nextAddr _jumpBranchPc memRefAddr : Address) (core : Core M) :
    Outcome (Core M) Bool :=
  if excause = .insnIllegal then (.error (unsupportedInstruction inst), core)
  else if excause = .hwbreak then
    match core.writePc instAddr with
    | (.error e, core) => (.error e, core)
    | (.ok (), core) =>
      if cfg.stopOnException excause then (.ok true, core)
      else deliverException cfg excause instAddr memRefAddr core
  else deliverException cfg excause instAddr memRefAddr core

/-- The addresses handed to the exception handler play no role. -/
theorem handleException_handler (cfg : CoreConfig) (excause : ExceptionCause) (inst : Instruction)
    (instAddr next jump next' jump' memRefAddr : Address) (core : Core M) :
    handleException cfg excause inst instAddr next jump memRefAddr core =
      handleException cfg excause inst instAddr next' jump' memRefAddr core := rfl

end Core

end QtRvSim
