import QtRvSim.Core.Stages

/-!
# Steps of the two cores

One step of the single-cycle core and of the pipelined core, and their runs (`core.cpp`).  A
simulator exception ends a run; the state it leaves is the one reached when it was thrown.
-/

namespace QtRvSim

open Core

variable {M : Type} [FrontendMemory M]

structure CoreSingle (M : Type) where
  core : Core M
  pipeline : Pipeline
  prevInstAddr : Address

structure CorePipelined (M : Type) where
  core : Core M
  pipeline : Pipeline

namespace CoreSingle

def start (core : Core M) : CoreSingle M :=
  { core := core, pipeline := {}, prevInstAddr := 0 }

/-- Last part of a step: the next address is written and an exception is handled. -/
def finishStep (cfg : CoreConfig) (s : CoreSingle M) : Outcome (CoreSingle M) Unit :=
  let memWb := s.pipeline.memWb
  match s.core.writePc memWb.computedNextInstAddr with
  | (.error e, core) => (.error e, { s with core := core })
  | (.ok (), core) =>
    if memWb.excause ≠ .none then
      match handleException cfg memWb.excause memWb.inst memWb.instAddr core.regs.pc
          s.prevInstAddr memWb.memAddr core with
      | (.ok _, core) => (.ok (), { s with core := core })
      | (.error e, core) => (.error e, { s with core := core })
    else
      (.ok (), { s with core := core, prevInstAddr := memWb.instAddr })

def doStep (cfg : CoreConfig) (skipBreak : Bool) (s : CoreSingle M) :
    Outcome (CoreSingle M) Unit :=
  let p := s.pipeline
  let (ifId, core) := fetch cfg p.pcIf skipBreak s.core
  let p := { p with ifId := ifId }
  match decode cfg ifId core with
  | .error e => (.error e, { s with core := core, pipeline := p })
  | .ok idEx =>
    let exMem := execute idEx
    let p := { p with idEx := idEx, exMem := exMem }
    match memory cfg exMem core with
    | (.error e, core) => (.error e, { s with core := core, pipeline := p })
    | (.ok (memWb, memInternal), core) =>
      finishStep cfg
        { s with
          core := writeback memWb core
          pipeline := { p with memWb := memWb, memInternal := memInternal } }

def step (cfg : CoreConfig) (skipBreak : Bool) (s : CoreSingle M) : Outcome (CoreSingle M) Unit :=
  doStep cfg skipBreak { s with core := s.core.nextCycle }

end CoreSingle

namespace CorePipelined

def start (core : Core M) : CorePipelined M :=
  { core := core, pipeline := {} }

/-- Flushes the stages behind the oldest one with an exception.  The flag tells whether there is
such a stage. -/
def flushExceptions (p : Pipeline) : Bool × Pipeline :=
  let inMem := p.memWb.excause != .none
  let p := if inMem then { p with exMem := {} } else p
  let inEx := inMem || p.exMem.excause != .none
  let p := if inEx then { p with idEx := {} } else p
  let inId := inEx || p.idEx.excause != .none
  let p := if inId then { p with ifId := {} } else p
  (inId, p)

def isHazardInStage (regwrite : Bool) (numRd : RegisterId) (idEx : DecodeInterstage) : Bool :=
  regwrite && numRd != 0 &&
    ((idEx.aluReqRs && numRd == idEx.numRs) || (idEx.aluReqRt && numRd == idEx.numRt))

def forwardOperands (numRd : RegisterId) (value : RegisterValue) (from_ : ForwardFrom)
    (idEx : DecodeInterstage) : DecodeInterstage :=
  let idEx :=
    if idEx.aluReqRs && numRd == idEx.numRs then { idEx with valRs := value, ffRs := from_ }
    else idEx
  if idEx.aluReqRt && numRd == idEx.numRt then { idEx with valRt := value, ffRt := from_ }
  else idEx

/-- Resolves data hazards of the decoded instruction; the flag asks for a stall. -/
def handleDataHazards (hazardUnit : HazardUnit) (p : Pipeline) : Bool × DecodeInterstage :=
  let (stall, idEx) :=
    if isHazardInStage p.memWb.regwrite p.memWb.numRd p.idEx then
      if hazardUnit = .stallForward then
        (false, forwardOperands p.memWb.numRd p.memWb.towriteVal .fromW p.idEx)
      else (true, p.idEx)
    else (false, p.idEx)
  if isHazardInStage p.exMem.regwrite p.exMem.numRd idEx then
    if hazardUnit = .stallForward then
      if p.exMem.memread then (true, idEx)
      else (stall, forwardOperands p.exMem.numRd p.exMem.aluVal .fromM idEx)
    else (true, idEx)
  else (stall, idEx)

def detectMispredictedJump (p : Pipeline) : Bool :=
  p.memWb.computedNextInstAddr != p.memWb.predictedNextInstAddr

def isStallRequested (p : Pipeline) : Bool :=
  p.idEx.insertStallBefore && p.exMem.isValid

def flushAndContinueFromAddress (nextPc : Address) (s : CorePipelined M) :
    Outcome (CorePipelined M) Unit :=
  match s.core.writePc nextPc with
  | (.error e, core) => (.error e, { s with core := core })
  | (.ok (), core) =>
    (.ok (), { core := core, pipeline := { s.pipeline with ifId := {}, idEx := {}, exMem := {} } })

def handleStall (savedIfId : FetchInterstage) (s : CorePipelined M) : CorePipelined M :=
  { core := { s.core with stallCount := s.core.stallCount + 1 }
    pipeline := { s.pipeline with ifId := savedIfId, idEx := {} } }

def takeException (cfg : CoreConfig) (jumpBranchPc : Address) (s : CorePipelined M) :
    Outcome (CorePipelined M) Unit :=
  let memWb := s.pipeline.memWb
  match s.core.writePc memWb.computedNextInstAddr with
  | (.error e, core) => (.error e, { s with core := core })
  | (.ok (), core) =>
    match handleException cfg memWb.excause memWb.inst memWb.instAddr
        memWb.computedNextInstAddr jumpBranchPc memWb.memAddr core with
    | (.ok _, core) => (.ok (), { s with core := core })
    | (.error e, core) => (.error e, { s with core := core })

def pcStage (cfg : CoreConfig) (jumpBranchPc : Address) (savedIfId : FetchInterstage)
    (exceptionInProgress stall : Bool) (s : CorePipelined M) : Outcome (CorePipelined M) Unit :=
  let s := { s with pipeline := { s.pipeline with pcIf := {} } }
  let p := s.pipeline
  if p.memWb.excause ≠ .none then
    takeException cfg jumpBranchPc s
  else if detectMispredictedJump p || p.memWb.csrWritten then
    flushAndContinueFromAddress p.memWb.computedNextInstAddr s
  else if exceptionInProgress then
    (.ok (), { s with pipeline := { p with pcIf := { stopIf := true } } })
  else if stall || isStallRequested p then
    (.ok (), handleStall savedIfId s)
  else
    match s.core.writePc p.ifId.predictedNextInstAddr with
    | (.error e, core) => (.error e, { s with core := core })
    | (.ok (), core) => (.ok (), { s with core := core })

def resolveHazards (cfg : CoreConfig) (p : Pipeline) : Bool × DecodeInterstage :=
  if cfg.hazardUnit ≠ .none then handleDataHazards cfg.hazardUnit p else (false, p.idEx)

/-- What follows the five stages: exception flushes, hazards and the PC stage. -/
def afterStages (cfg : CoreConfig) (jumpBranchPc : Address) (savedIfId : FetchInterstage)
    (s : CorePipelined M) : Outcome (CorePipelined M) Unit :=
  let (exceptionInProgress, p) := flushExceptions s.pipeline
  let (stall, idEx) := resolveHazards cfg p
  pcStage cfg jumpBranchPc savedIfId exceptionInProgress stall
    { s with pipeline := { p with idEx := idEx } }

def doStep (cfg : CoreConfig) (skipBreak : Bool) (s : CorePipelined M) :
    Outcome (CorePipelined M) Unit :=
  let p := s.pipeline
  let core := writeback p.memWb s.core
  match memory cfg p.exMem core with
  | (.error e, core) => (.error e, { s with core := core })
  | (.ok (memWb, memInternal), core) =>
    let exMem := execute p.idEx
    match decode cfg p.ifId core with
    | .error e =>
      (.error e,
        { core := core
          pipeline := { p with memWb := memWb, memInternal := memInternal, exMem := exMem } })
    | .ok idEx =>
      let (ifId, core) := fetch cfg p.pcIf skipBreak core
      afterStages cfg p.memWb.instAddr p.ifId
        { core := core
          pipeline :=
            { p with
              memWb := memWb
              memInternal := memInternal
              exMem := exMem
              idEx := idEx
              ifId := ifId } }

def step (cfg : CoreConfig) (skipBreak : Bool) (s : CorePipelined M) :
    Outcome (CorePipelined M) Unit :=
  doStep cfg skipBreak { s with core := s.core.nextCycle }

end CorePipelined

end QtRvSim
