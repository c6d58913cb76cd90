import QtRvSim.Core.ControlEffect

/-!
# Bubbles in the pipeline

An empty stage register passes the decode, execute and memory stages without any effect.
-/

namespace QtRvSim

open Core CorePipelined Instruction

/-- An instruction that does nothing on its way through the memory stage. -/
structure ExecuteBubble (e : ExecuteInterstage) : Prop where
  isValid : e.isValid = false
  excause : e.excause = .none
  memctl : e.memctl = .none
  writes : ∀ reg, writesRegister e.regwrite e.numRd reg = false
  branchBxx : e.branchBxx = false
  branchJal : e.branchJal = false
  branchJalr : e.branchJalr = false
  predicted : e.predictedNextInstAddr = e.nextInstAddr

def DecodeBubble (d : DecodeInterstage) : Prop :=
  ExecuteBubble (execute d)

theorem executeBubble_default : ExecuteBubble {} := by
  constructor <;> first | rfl | exact fun _ => rfl

theorem decodeBubble_default : DecodeBubble {} := by
  constructor <;> first | rfl | exact fun _ => rfl

/-- Operands do not matter for a bubble. -/
theorem DecodeBubble.withOperands {d : DecodeInterstage} (h : DecodeBubble d)
    (valRs valRt : RegisterValue) (ffRs ffRt : ForwardFrom) :
    DecodeBubble (withOperands d valRs valRt ffRs ffRt) :=
  ⟨h.isValid, h.excause, h.memctl, h.writes, h.branchBxx, h.branchJal, h.branchJalr, h.predicted⟩

/-- Decoding an empty stage register gives a bubble. -/
theorem decodeBubble_nop (cfg : CoreConfig) (privilege : PrivilegeLevel)
    (valRs valRt csrReadVal : RegisterValue) :
    DecodeBubble (decodeInterstage cfg {} privilege valRs valRt csrReadVal) := by
  refine ⟨rfl, decodeExcause_nop cfg privilege, ?_, fun reg => ?_, ?_, ?_, ?_, rfl⟩
  · show nop.memCtl = .none
    decide
  · show writesRegister (nop.flags.has .regwrite) (decodeNumRd nop) reg =
      false
    have hrd : decodeNumRd nop = 0 := by decide
    simp [writesRegister, hrd]
  · show nop.flags.has .branch = false
    decide
  · show nop.flags.has .jump = false
    decide
  · show nop.flags.has .branchJalr = false
    decide

/-- A stage that writes no register has no write-back. -/
theorem writeback_of_not_writes {w : MemoryInterstage} {M : Type}
    (hwrites : ∀ reg, writesRegister w.regwrite w.numRd reg = false) (c : Core M) :
    writeback w c = c := by
  unfold writeback
  split
  next hregwrite =>
    have hrd : w.numRd = 0 := by
      have h := hwrites w.numRd
      simpa [writesRegister, hregwrite] using h
    rw [hrd, Registers.writeGp_zero]
  next => rfl

/-- A bubble passes the memory stage without effect. -/
theorem memory_bubble {M : Type} [FrontendMemory M] (cfg : CoreConfig) {e : ExecuteInterstage}
    (h : ExecuteBubble e) (c : Core M) :
    ∃ r, memory cfg e c = (.ok r, c) ∧ r.1.isValid = false ∧ r.1.excause = .none ∧
      r.1.csrWritten = false ∧
      r.1.computedNextInstAddr = r.1.predictedNextInstAddr ∧
      (∀ reg, writesRegister r.1.regwrite r.1.numRd reg = false) := by
  have haccess : memoryAccess cfg e c =
      ({ excause := .none
         memread := e.memread
         memwrite := e.memwrite
         regwrite := e.regwrite
         towriteVal := e.aluVal }, c) := by
    simp [memoryAccess, performAccess, h.excause, h.memctl, isSpecialAccess, isRegularAccess]
  have hpredictor : updatePredictor cfg e c.predictor = c.predictor := by
    simp [updatePredictor, h.branchBxx, h.branchJal, h.branchJalr]
  have haccessed : memoryAccessed cfg e c = c := by
    simp only [memoryAccessed, haccess, hpredictor]
  have hnext : computeNextInstAddr cfg e (branchBxxTaken e) = e.nextInstAddr := by
    simp [computeNextInstAddr, branchBxxTaken, h.branchBxx, h.branchJal, h.branchJalr]
  have hcsr : memoryCsr cfg e (computeNextInstAddr cfg e (branchBxxTaken e))
      (memoryAccessed cfg e c) =
      (.ok { computedNextInstAddr := e.nextInstAddr, csrWritten := false }, c) := by
    rw [haccessed, hnext]
    simp [memoryCsr, h.isValid]
  have hmemory := memory_of_csr hcsr
  rw [haccess, countMisprediction, if_neg (not_not.mpr h.predicted.symm)] at hmemory
  exact ⟨_, hmemory, h.isValid, rfl, rfl, h.predicted.symm, h.writes⟩

end QtRvSim
