import QtRvSim.Csr.ControlState
import QtRvSim.Machine.Registers

/-!
# Stage registers

The registers between the pipeline stages (`pipeline.h`).  The default value of each register is
the bubble that a flush leaves.  Of the data that a stage keeps for the visualisation only the
memory stage's view of its access is modelled.
-/

namespace QtRvSim

inductive ForwardFrom where
  | none
  | fromW
  | fromM
deriving DecidableEq, Repr

structure PCInterstage where
  stopIf : Bool := false
deriving DecidableEq, Repr

structure FetchInterstage where
  inst : Instruction := Instruction.nop
  instAddr : Address := stageAddrNone
  nextInstAddr : Address := 0
  predictedNextInstAddr : Address := 0
  excause : ExceptionCause := .none
  isValid : Bool := false
deriving DecidableEq, Repr

def FetchInterstage.withPrediction (dt : FetchInterstage) (predicted : Address) : FetchInterstage :=
  { dt with predictedNextInstAddr := predicted }

structure DecodeInterstage where
  inst : Instruction := Instruction.nop
  instAddr : Address := stageAddrNone
  nextInstAddr : Address := 0
  predictedNextInstAddr : Address := 0
  valRs : RegisterValue := 0
  valRt : RegisterValue := 0
  immediateVal : RegisterValue := 0
  csrReadVal : RegisterValue := 0
  csrAddress : Csr.Address := 0
  excause : ExceptionCause := .none
  ffRs : ForwardFrom := .none
  ffRt : ForwardFrom := .none
  aluComponent : AluComponent := .alu
  aluop : AluCombinedOp := AluOp.add.combined
  memctl : AccessControl := .none
  numRs : RegisterId := 0
  numRt : RegisterId := 0
  numRd : RegisterId := 0
  memread : Bool := false
  memwrite : Bool := false
  alusrc : Bool := false
  regwrite : Bool := false
  aluReqRs : Bool := false
  aluReqRt : Bool := false
  branchBxx : Bool := false
  branchJal : Bool := false
  branchVal : Bool := false
  branchJalr : Bool := false
  isValid : Bool := false
  wOperation : Bool := false
  aluMod : Bool := false
  aluPc : Bool := false
  csr : Bool := false
  csrToAlu : Bool := false
  csrWrite : Bool := false
  xret : Bool := false
  xretPrivlev : PrivilegeLevel := .unprivileged
  insertStallBefore : Bool := false
  amo : Bool := false
deriving DecidableEq, Repr

def DecodeInterstage.withPrediction (dt : DecodeInterstage) (predicted : Address) :
    DecodeInterstage :=
  { dt with predictedNextInstAddr := predicted }

structure ExecuteInterstage where
  inst : Instruction := Instruction.nop
  instAddr : Address := stageAddrNone
  nextInstAddr : Address := 0
  predictedNextInstAddr : Address := 0
  branchJalTarget : Address := 0
  valRt : RegisterValue := 0
  aluVal : RegisterValue := 0
  immediateVal : RegisterValue := 0
  csrReadVal : RegisterValue := 0
  csrAddress : Csr.Address := 0
  excause : ExceptionCause := .none
  memctl : AccessControl := .none
  numRd : RegisterId := 0
  memread : Bool := false
  memwrite : Bool := false
  regwrite : Bool := false
  isValid : Bool := false
  branchBxx : Bool := false
  branchJal : Bool := false
  branchVal : Bool := false
  branchJalr : Bool := false
  aluZero : Bool := false
  csr : Bool := false
  csrWrite : Bool := false
  xret : Bool := false
  xretPrivlev : PrivilegeLevel := .unprivileged
  amo : Bool := false
deriving DecidableEq, Repr

def ExecuteInterstage.withPrediction (dt : ExecuteInterstage) (predicted : Address) :
    ExecuteInterstage :=
  { dt with predictedNextInstAddr := predicted }

structure MemoryInterstage where
  inst : Instruction := Instruction.nop
  instAddr : Address := stageAddrNone
  nextInstAddr : Address := 0
  predictedNextInstAddr : Address := 0
  computedNextInstAddr : Address := 0
  memAddr : Address := 0
  towriteVal : RegisterValue := 0
  excause : ExceptionCause := .none
  numRd : RegisterId := 0
  memtoreg : Bool := false
  regwrite : Bool := false
  isValid : Bool := false
  csrWritten : Bool := false
  xretPrivlev : PrivilegeLevel := .unprivileged
deriving DecidableEq, Repr

def MemoryInterstage.withPrediction (dt : MemoryInterstage) (predicted : Address) :
    MemoryInterstage :=
  { dt with predictedNextInstAddr := predicted }

structure MemoryInternalState where
  memReadVal : RegisterValue := 0
  memWriteVal : RegisterValue := 0
  memAddr : RegisterValue := 0
  memwrite : Bool := false
  memread : Bool := false
deriving DecidableEq, Repr

structure Pipeline where
  pcIf : PCInterstage := {}
  ifId : FetchInterstage := {}
  idEx : DecodeInterstage := {}
  exMem : ExecuteInterstage := {}
  memInternal : MemoryInternalState := {}
  memWb : MemoryInterstage := {}
deriving DecidableEq, Repr

end QtRvSim
