import QtRvSim.Core.Flight
import QtRvSim.Core.StageOrigin

/-!
# Sources of operands

What a step of the pipelined core leaves in the register between the decode and the execute stage:
nothing, or the decoded instruction with operands of its own, of the execute stage or of the memory
stage.
-/

namespace QtRvSim

open Core

variable {M : Type} [FrontendMemory M] {cfg : CoreConfig}

namespace CorePipelined

inductive Sourced (exMem : ExecuteInterstage) (memWb : MemoryInterstage) (req : Bool)
    (num : RegisterId) (decoded : RegisterValue) : RegisterValue → ForwardFrom → Prop where
  | kept : Sourced exMem memWb req num decoded decoded .none
  | fromM (hwrites : writesOperand exMem.regwrite exMem.numRd req num = true)
      (hload : exMem.memread = false) : Sourced exMem memWb req num decoded exMem.aluVal .fromM
  | fromW (hwrites : writesOperand memWb.regwrite memWb.numRd req num = true) :
      Sourced exMem memWb req num decoded memWb.towriteVal .fromW

/-- The operand of a stage that writes it, or the decoded one. -/
theorem Sourced.forwardStage {exMem : ExecuteInterstage} {memWb : MemoryInterstage} {req : Bool}
    {num : RegisterId} {decoded : RegisterValue} :
    Sourced exMem memWb req num decoded
      (if writesOperand memWb.regwrite memWb.numRd req num then memWb.towriteVal else decoded)
      (if writesOperand memWb.regwrite memWb.numRd req num then .fromW else .none) := by
  split
  next hwrites => exact .fromW hwrites
  next => exact .kept

theorem Sourced.operand {exMem : ExecuteInterstage} {memWb : MemoryInterstage} {req : Bool}
    {num : RegisterId} {decoded : RegisterValue}
    (hload : writesOperand exMem.regwrite exMem.numRd req num = true → exMem.memread = false) :
    Sourced exMem memWb req num decoded (operandValue exMem memWb req num decoded)
      (operandSource exMem memWb req num .none) := by
  rw [operandValue, operandSource]
  split
  next hwrites => exact .fromM hwrites (hload hwrites)
  next => exact .forwardStage

/-- The hazard unit leaves operands with a source. -/
theorem resolveHazards_sourced (cfg : CoreConfig) {p : Pipeline} (hrs : p.idEx.ffRs = .none)
    (hrt : p.idEx.ffRt = .none) :
    Sourced p.exMem p.memWb p.idEx.aluReqRs p.idEx.numRs p.idEx.valRs
        (resolveHazards cfg p).2.valRs (resolveHazards cfg p).2.ffRs ∧
      Sourced p.exMem p.memWb p.idEx.aluReqRt p.idEx.numRt p.idEx.valRt
        (resolveHazards cfg p).2.valRt (resolveHazards cfg p).2.ffRt := by
  have hkept : Sourced p.exMem p.memWb p.idEx.aluReqRs p.idEx.numRs p.idEx.valRs
        p.idEx.valRs p.idEx.ffRs ∧
      Sourced p.exMem p.memWb p.idEx.aluReqRt p.idEx.numRt p.idEx.valRt
        p.idEx.valRt p.idEx.ffRt := by
    rw [hrs, hrt]
    exact ⟨.kept, .kept⟩
  rw [resolveHazards]
  cases cfg.hazardUnit with
  | none => exact hkept
  | stall =>
    simp only [ne_eq, reduceCtorEq, not_false_eq_true, if_true, handleDataHazards_stall]
    exact hkept
  | stallForward =>
    simp only [ne_eq, reduceCtorEq, not_false_eq_true, if_true, handleDataHazards_forward]
    split
    next =>
      simp only [forwardStage, withOperands, hrs, hrt]
      exact ⟨.forwardStage, .forwardStage⟩
    next hhazard =>
      simp only [withOperands, hrs, hrt]
      have hload : ∀ {req : Bool} {num : RegisterId},
          (writesOperand p.exMem.regwrite p.exMem.numRd req num = true →
            isHazardInStage p.exMem.regwrite p.exMem.numRd p.idEx = true) →
          writesOperand p.exMem.regwrite p.exMem.numRd req num = true →
            p.exMem.memread = false := by
        intro req num hstage hwrites
        rwa [hstage hwrites, Bool.true_and, Bool.not_eq_true] at hhazard
      refine ⟨.operand (hload fun hwrites => ?_), .operand (hload fun hwrites => ?_)⟩
      · rw [isHazardInStage_eq, hwrites, Bool.true_or]
      · rw [isHazardInStage_eq, hwrites, Bool.or_true]

/-- A step that has left an instruction in ID/EX, with the registers `p` behind its stages. -/
structure Moved (cfg : CoreConfig) (s s' : CorePipelined M) (p : Pipeline) : Prop where
  memory : ∃ internal c, Core.memory cfg s.pipeline.exMem
    (writeback s.pipeline.memWb s.core.nextCycle) = (.ok (p.memWb, internal), c) ∧
      Core.decode cfg s.pipeline.ifId c = .ok p.idEx
  exMem : p.exMem = execute s.pipeline.idEx
  idEx' : s'.pipeline.idEx = (resolveHazards cfg p).2
  exMem' : s'.pipeline.exMem = p.exMem
  memWb' : s'.pipeline.memWb = p.memWb
  excause : p.memWb.excause = .none
  goesOn : p.idEx.excause = .none → stalls cfg p = false

/-- What a step leaves in ID/EX. -/
theorem step_idEx {skipBreak : Bool} {s s' : CorePipelined M}
    (hstep : CorePipelined.step cfg skipBreak s = (.ok (), s')) :
    s'.pipeline.idEx = {} ∨ ∃ p, Moved cfg s s' p := by
  rw [CorePipelined.step, doStep_stages] at hstep
  split at hstep
  next => cases hstep
  next s₁ hstages =>
    obtain ⟨⟨memWb, internal⟩, c, idEx, hmemory, hdecode, rfl⟩ := stages_ok hstages
    have hcases := afterStages_end cfg s.pipeline.memWb.instAddr s.pipeline.ifId
      { core := (fetch cfg s.pipeline.pcIf skipBreak c).2
        pipeline :=
          { pcIf := s.pipeline.pcIf
            ifId := (fetch cfg s.pipeline.pcIf skipBreak c).1
            idEx := idEx
            exMem := execute s.pipeline.idEx
            memInternal := internal
            memWb := memWb } }
    rw [hstep] at hcases
    generalize houtcome : ((.ok (), s') : Outcome (CorePipelined M) Unit) = outcome at hcases
    cases hcases with
    | exception =>
      left
      rw [Flight.takeException_pipeline houtcome.symm]
    | redirect =>
      left
      unfold flushAndContinueFromAddress at houtcome
      split at houtcome
      · cases houtcome
      · cases houtcome
        rfl
    | drainExecute | stall =>
      cases houtcome
      exact .inl rfl
    | drainDecode hexception hredirect hexecute hdecode' =>
      cases houtcome
      exact .inr ⟨_, ⟨internal, c, hmemory, hdecode⟩, rfl, rfl, rfl, rfl, hexception,
        fun hnone => absurd hnone hdecode'⟩
    | goOn hexception hredirect hexecute hdecode' hstall =>
      unfold CorePipelined.goOn at houtcome
      dsimp only at houtcome
      split at houtcome
      next => cases houtcome
      next =>
        cases houtcome
        exact .inr ⟨_, ⟨internal, c, hmemory, hdecode⟩, rfl, rfl, rfl, rfl, hexception,
          fun _ => hstall⟩

namespace Moved

variable {s s' : CorePipelined M} {p : Pipeline}

variable (h : Moved cfg s s' p)
include h

/-- The decoded instruction. -/
theorem decoded :
    ∃ privilege regs csrReadVal, p.idEx = decodeInterstage cfg s.pipeline.ifId privilege
      (decodeValRs s.pipeline.ifId.inst regs)
      (regs.readGp (decodeNumRt s.pipeline.ifId.inst)) csrReadVal := by
  obtain ⟨-, c, -, hdecode⟩ := h.memory
  obtain ⟨csrReadVal, -, hidEx⟩ := decode_ok hdecode
  exact ⟨c.currentPrivilege, c.regs, csrReadVal, hidEx⟩

/-- The operands in ID/EX have a source. -/
theorem sourced :
    Sourced p.exMem p.memWb p.idEx.aluReqRs p.idEx.numRs p.idEx.valRs
        s'.pipeline.idEx.valRs s'.pipeline.idEx.ffRs ∧
      Sourced p.exMem p.memWb p.idEx.aluReqRt p.idEx.numRt p.idEx.valRt
        s'.pipeline.idEx.valRt s'.pipeline.idEx.ffRt := by
  obtain ⟨privilege, regs, csrReadVal, hidEx⟩ := h.decoded
  rw [h.idEx']
  apply resolveHazards_sourced <;> rw [hidEx] <;> rfl

/-- But for the operands ID/EX has the decoded instruction. -/
theorem fields :
    ∃ valRs valRt ffRs ffRt,
      s'.pipeline.idEx = withOperands p.idEx valRs valRt ffRs ffRt := by
  rw [h.idEx']
  exact resolveHazards_fields cfg p

end Moved

end CorePipelined

/-- A bubble writes no register: an instruction that writes one is valid. -/
theorem valid_stageInvariant (M : Type) [FrontendMemory M] (cfg : CoreConfig) :
    StageInvariant M cfg (fun _ f => f = {} ∨ f.isValid = true)
      (fun _ d => d.numRd = 0 ∨ d.isValid = true) (fun _ e => e.numRd = 0 ∨ e.isValid = true) where
  emptyFetch _ := .inl rfl
  emptyDecode _ := .inl rfl
  emptyExecute _ := .inl rfl
  fetch c pc skipBreak := by
    rw [fetch]
    split
    next => exact .inl rfl
    next => exact .inr rfl
  decode {c f d} h hdecode := by
    obtain ⟨csrReadVal, -, rfl⟩ := decode_ok hdecode
    rcases h with rfl | hvalid
    · have hbubble : decodeNumRd Instruction.nop = 0 := by decide
      exact .inl hbubble
    · exact .inr hvalid
  operands _ _ _ _ h := h
  execute h := h
  frameFetch _ h := h
  frameDecode _ h := h
  frameExecute _ h := h

end QtRvSim
