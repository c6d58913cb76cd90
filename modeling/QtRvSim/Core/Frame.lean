import QtRvSim.Core.AccessScript
import QtRvSim.Core.Step
import QtRvSim.Csr.Frame

/-!
# What the stages leave alone

The accesses of the memory stage change the memory system, the reservation and the predictor only.
The rest of the memory stage and the exception entry add CSR updates and the privilege; neither
touches the interrupt registers unless a CSR is written.
-/

namespace QtRvSim

open FrontendMemory

variable {M : Type} [FrontendMemory M]

/-- The cores differ in memory and reservation only, and the predictor may have been flushed. -/
structure AccessFrame (c c' : Core M) : Prop where
  regs : c'.regs = c.regs
  controlState : c'.controlState = c.controlState
  privilege : c'.currentPrivilege = c.currentPrivilege
  asid : c'.currentAsid = c.currentAsid
  predictor : c'.predictor = c.predictor ∨ c'.predictor = c.predictor.flush

namespace AccessFrame

omit [FrontendMemory M] in
theorem refl (c : Core M) : AccessFrame c c := ⟨rfl, rfl, rfl, rfl, .inl rfl⟩

theorem performAccess (cfg : CoreConfig) (dt : ExecuteInterstage) (c : Core M) :
    AccessFrame c (Core.performAccess cfg dt c).2 := by
  rw [Core.performAccess_eq]
  refine ⟨rfl, rfl, rfl, rfl, ?_⟩
  show Core.predictorAfter dt c = _ ∨ Core.predictorAfter dt c = _
  unfold Core.predictorAfter
  split
  · exact .inr rfl
  · exact .inr rfl
  · exact .inl rfl

theorem memoryAccess (cfg : CoreConfig) (dt : ExecuteInterstage) (c : Core M) :
    AccessFrame c (Core.memoryAccess cfg dt c).2 := by
  have haccess := performAccess cfg dt c
  unfold Core.memoryAccess
  split
  · exact refl c
  · split <;> (next hresult => rw [hresult] at haccess; exact haccess)

end AccessFrame

namespace Core

theorem memoryAccessed_regs (cfg : CoreConfig) (dt : ExecuteInterstage) (c : Core M) :
    (memoryAccessed cfg dt c).regs = c.regs :=
  (AccessFrame.memoryAccess cfg dt c).regs

theorem memoryAccessed_privilege (cfg : CoreConfig) (dt : ExecuteInterstage) (c : Core M) :
    (memoryAccessed cfg dt c).currentPrivilege = c.currentPrivilege :=
  (AccessFrame.memoryAccess cfg dt c).privilege

theorem memoryAccessed_predictor (cfg : CoreConfig) (dt : ExecuteInterstage) (c : Core M) :
    (memoryAccessed cfg dt c).predictor = updatePredictor cfg dt c.predictor ∨
      (memoryAccessed cfg dt c).predictor = updatePredictor cfg dt c.predictor.flush :=
  (AccessFrame.memoryAccess cfg dt c).predictor.imp (congrArg (updatePredictor cfg dt))
    (congrArg (updatePredictor cfg dt))

variable {cfg : CoreConfig} {dt : ExecuteInterstage} {c c' : Core M}

theorem memoryCsrWrite_regs (cfg : CoreConfig) (dt : ExecuteInterstage) (c : Core M) :
    (memoryCsrWrite cfg dt c).2.regs = c.regs := by
  unfold memoryCsrWrite
  split
  · split <;> rfl
  · rfl

theorem memoryCsr_regs (cfg : CoreConfig) (dt : ExecuteInterstage) (next : Address) (c : Core M) :
    (memoryCsr cfg dt next c).2.regs = c.regs := by
  have hwrite := memoryCsrWrite_regs cfg dt
    (c.updateCsr (c.controlState.incrementInternal cfg.xlen .minstret 1))
  unfold memoryCsr
  split
  · dsimp only
    split
    next hresult =>
      rwa [hresult] at hwrite
    next hresult =>
      rw [hresult] at hwrite
      split <;> exact hwrite
  · rfl

variable (computed predicted : Address)

omit [FrontendMemory M] in
theorem countMisprediction_regs (c : Core M) :
    (countMisprediction computed predicted c).regs = c.regs := by
  unfold countMisprediction
  split <;> rfl

omit [FrontendMemory M] in
theorem countMisprediction_mem (c : Core M) :
    (countMisprediction computed predicted c).mem = c.mem := by
  unfold countMisprediction
  split <;> rfl

omit [FrontendMemory M] in
theorem countMisprediction_privilege (c : Core M) :
    (countMisprediction computed predicted c).currentPrivilege = c.currentPrivilege := by
  unfold countMisprediction
  split <;> rfl

variable {r : MemoryInterstage × MemoryInternalState}

/-- The memory stage leaves the register file alone. -/
theorem memory_regs (h : memory cfg dt c = (.ok r, c')) : c'.regs = c.regs := by
  obtain ⟨csr, c₁, hc₁, -, rfl⟩ := memory_ok h
  have hregs := memoryCsr_regs cfg dt (computeNextInstAddr cfg dt (branchBxxTaken dt))
    (memoryAccessed cfg dt c)
  rw [hc₁] at hregs
  rw [countMisprediction_regs, hregs, memoryAccessed_regs]

/-- Without an exception the access part keeps the control signals. -/
theorem memoryAccess_of_none (h : (memoryAccess cfg dt c).1.excause = .none) :
    ∃ value c', performAccess cfg dt c = (.ok value, c') ∧
      memoryAccess cfg dt c =
        ({ excause := .none
           memread := dt.memread
           memwrite := dt.memwrite
           regwrite := dt.regwrite
           towriteVal := value }, c') := by
  have hnone := memoryAccess_excause h
  unfold memoryAccess at h ⊢
  rw [if_neg (not_not.mpr hnone)] at h ⊢
  split at h
  next value c' hresult => exact ⟨value, c', hresult, rfl⟩
  next fault c' hresult => exact absurd h (getCurrentCause_ne_none fault.opkind)

/-- What the memory stage tells about an instruction is what it was given, as long as there is no
exception. -/
theorem memory_interstage (h : memory cfg dt c = (.ok r, c')) (hexcause : r.1.excause = .none) :
    dt.excause = .none ∧ r.1.regwrite = dt.regwrite ∧ r.1.numRd = dt.numRd := by
  obtain ⟨csr, c₁, -, rfl, -⟩ := memory_ok h
  obtain ⟨value, c₂, -, haccess⟩ := memoryAccess_of_none hexcause
  exact ⟨memoryAccess_excause hexcause, by rw [haccess]; rfl, rfl⟩

/-- Without a CSR write or a return from a trap the next address and the privilege stay. -/
theorem memoryCsr_of_not_written {next : Address} {csr : CsrResult}
    (h : memoryCsr cfg dt next c = (.ok csr, c')) (hcsr : csr.csrWritten = false) :
    csr.computedNextInstAddr = next ∧ c'.currentPrivilege = c.currentPrivilege := by
  unfold memoryCsr at h
  split at h
  · dsimp only at h
    split at h
    next => cases h
    next written c₁ hwrite =>
      have hpriv : c₁.currentPrivilege = c.currentPrivilege := by
        unfold memoryCsrWrite at hwrite
        split at hwrite
        · split at hwrite
          next => cases hwrite; rfl
          next => cases hwrite
        · cases hwrite
          rfl
      split at h
      · cases h
        cases hcsr
      · cases h
        exact ⟨rfl, hpriv⟩
  · cases h
    exact ⟨rfl, rfl⟩

section

variable (h : memory cfg dt c = (.ok r, c'))
include h

theorem memory_privilege (hcsr : r.1.csrWritten = false) :
    c'.currentPrivilege = c.currentPrivilege := by
  obtain ⟨csr, c₁, hc₁, rfl, rfl⟩ := memory_ok h
  rw [countMisprediction_privilege, (memoryCsr_of_not_written hc₁ hcsr).2, memoryAccessed_privilege]

theorem memory_next (hcsr : r.1.csrWritten = false) :
    r.1.computedNextInstAddr = computeNextInstAddr cfg dt (branchBxxTaken dt) := by
  obtain ⟨csr, c₁, hc₁, rfl, rfl⟩ := memory_ok h
  exact (memoryCsr_of_not_written hc₁ hcsr).1

/-- Only CSR writes and returns from traps count as CSR writes. -/
theorem memory_csrWritten (hwrite : dt.csrWrite = false) (hxret : dt.xret = false) :
    r.1.csrWritten = false := by
  obtain ⟨csr, c₁, hcsr, rfl, -⟩ := memory_ok h
  simp only [memoryCsr, memoryCsrWrite, hwrite, hxret, Bool.false_eq_true, if_false] at hcsr
  split at hcsr <;> (cases hcsr; rfl)

end

/-- The memory stage hands on an instruction that has an exception; only the predictor sees it. -/
theorem memory_of_exception (hexcause : dt.excause ≠ .none) :
    memory cfg dt c =
      (.ok (memoryInterstage dt (memAddress cfg dt c).address
          { excause := dt.excause, memread := false, memwrite := false, regwrite := false,
            towriteVal := dt.aluVal }
          { computedNextInstAddr := computeNextInstAddr cfg dt (branchBxxTaken dt),
            csrWritten := false }),
        countMisprediction (computeNextInstAddr cfg dt (branchBxxTaken dt))
          dt.predictedNextInstAddr { c with predictor := updatePredictor cfg dt c.predictor }) := by
  have haccess : memoryAccess cfg dt c =
      ({ excause := dt.excause, memread := false, memwrite := false, regwrite := false,
         towriteVal := dt.aluVal }, c) := if_pos hexcause
  have hcsr : memoryCsr cfg dt (computeNextInstAddr cfg dt (branchBxxTaken dt))
      (memoryAccessed cfg dt c) =
        (.ok { computedNextInstAddr := computeNextInstAddr cfg dt (branchBxxTaken dt),
               csrWritten := false },
          { c with predictor := updatePredictor cfg dt c.predictor }) := by
    rw [memoryAccessed, haccess, memoryCsr, if_neg]
    simp [hexcause]
  rw [memory_of_csr hcsr, haccess]

/-- An instruction with an exception writes no register. -/
theorem memory_regwrite_of_excause {cfg : CoreConfig} {dt : ExecuteInterstage} {c c' : Core M}
    (h : memory cfg dt c = (.ok r, c')) (hexcause : r.1.excause ≠ .none) :
    r.1.regwrite = false := by
  obtain ⟨csr, c₁, -, rfl, -⟩ := memory_ok h
  unfold memoryAccess at hexcause ⊢
  split
  next => rfl
  next hnone =>
    rw [if_neg hnone] at hexcause
    split at hexcause
    next => exact absurd rfl hexcause
    next => rfl

theorem memoryCsrWrite_predictor (cfg : CoreConfig) (dt : ExecuteInterstage) (c : Core M) :
    (memoryCsrWrite cfg dt c).2.predictor = c.predictor := by
  unfold memoryCsrWrite
  split
  · split <;> rfl
  · rfl

theorem memoryCsr_predictor (cfg : CoreConfig) (dt : ExecuteInterstage) (next : Address)
    (c : Core M) : (memoryCsr cfg dt next c).2.predictor = c.predictor := by
  have hwrite := memoryCsrWrite_predictor cfg dt
    (c.updateCsr (c.controlState.incrementInternal cfg.xlen .minstret 1))
  unfold memoryCsr
  split
  · dsimp only
    split
    next hresult =>
      rwa [hresult] at hwrite
    next hresult =>
      rw [hresult] at hwrite
      split <;> exact hwrite
  · rfl

theorem updatePredictor_enabled (cfg : CoreConfig) (dt : ExecuteInterstage)
    (bp : BranchPredictor) : (updatePredictor cfg dt bp).enabled = bp.enabled := by
  unfold updatePredictor
  split
  · simp
  · split
    · simp
    · split <;> simp

/-- What the predictor learns from an instruction. -/
theorem learntEntries_updatePredictor {p : Address → Address → Prop} {bp : BranchPredictor}
    (h : bp.LearntEntries p) {e : ExecuteInterstage}
    (hjal : e.branchJal = true → p e.instAddr e.branchJalTarget)
    (hjalr : e.branchJal = false → e.branchJalr = true →
      p e.instAddr (cfg.getXlenFromReg e.aluVal))
    (hbxx : bp.enabled = true → e.branchJal = false → e.branchJalr = false →
      e.branchBxx = true → p e.instAddr e.branchJalTarget) :
    (updatePredictor cfg e bp).LearntEntries p := by
  unfold updatePredictor
  cases hj : e.branchJal with
  | true => exact h.update e.inst (fun _ => hjal hj) .jump .taken
  | false =>
    cases hr : e.branchJalr with
    | true => exact h.update e.inst (fun _ => hjalr hj hr) .jump .taken
    | false =>
      cases hb : e.branchBxx with
      | true => exact h.update e.inst (fun henabled => hbxx henabled hj hr hb) .branch _
      | false => exact h

theorem learntTargets_updatePredictor {p : Address → Prop} {bp : BranchPredictor}
    (h : bp.LearntTargets p) {e : ExecuteInterstage}
    (hjal : e.branchJal = true → p e.branchJalTarget)
    (hjalr : e.branchJal = false → e.branchJalr = true → p (cfg.getXlenFromReg e.aluVal))
    (hbxx : bp.enabled = true → e.branchJal = false → e.branchJalr = false →
      e.branchBxx = true → p e.branchJalTarget) :
    (updatePredictor cfg e bp).LearntTargets p :=
  learntEntries_updatePredictor (p := fun _ => p) h hjal hjalr hbxx

/-- The memory stage may flush the predictor, trains it and counts mispredictions; what these
operations keep holds after the stage. -/
theorem memory_predictor {P : BranchPredictor → Prop} (h : memory cfg dt c = (.ok r, c'))
    (hflush : ∀ bp, P bp → P bp.flush) (hupdate : ∀ bp, P bp → P (updatePredictor cfg dt bp))
    (hcount : ∀ bp, P bp → P bp.incrementMispredictions) (hp : P c.predictor) : P c'.predictor := by
  obtain ⟨csr, c₁, hc₁, -, rfl⟩ := memory_ok h
  have hpredictor := memoryCsr_predictor cfg dt (computeNextInstAddr cfg dt (branchBxxTaken dt))
    (memoryAccessed cfg dt c)
  rw [hc₁] at hpredictor
  have hp₁ : P c₁.predictor := by
    rw [show c₁.predictor = _ from hpredictor]
    rcases memoryAccessed_predictor cfg dt c with hkeep | hflushed
    · rw [hkeep]
      exact hupdate _ hp
    · rw [hflushed]
      exact hupdate _ (hflush _ hp)
  unfold countMisprediction
  split
  · exact hcount _ hp₁
  · exact hp₁

variable {address : Address}

omit [FrontendMemory M] in
/-- A successful write of the program counter changes nothing else. -/
theorem writePc_ok (h : c.writePc address = (.ok (), c')) :
    ∃ haligned : address.toNat % 4 = 0,
      c' = { c with regs := { c.regs with pc := address, pcAligned := haligned } } := by
  by_cases haligned : address.toNat % 4 = 0
  · rw [writePc, Registers.writePc_of_aligned _ haligned] at h
    cases h
    exact ⟨haligned, rfl⟩
  · rw [writePc, Registers.writePc_of_unaligned _ haligned] at h
    cases h

omit [FrontendMemory M] in
theorem writePc_of_aligned (c : Core M) (haligned : address.toNat % 4 = 0) :
    c.writePc address =
      (.ok (), { c with regs := { c.regs with pc := address, pcAligned := haligned } }) := by
  rw [writePc, Registers.writePc_of_aligned _ haligned]

omit [FrontendMemory M] in
theorem writePc_of_unaligned (c : Core M) (hunaligned : ¬ address.toNat % 4 = 0) :
    c.writePc address = (.error (Registers.unalignedJump address), c) := by
  rw [writePc, Registers.writePc_of_unaligned _ hunaligned]

theorem fetch_regs (cfg : CoreConfig) (pc : PCInterstage) (skipBreak : Bool) (c : Core M) :
    (fetch cfg pc skipBreak c).2.regs = c.regs := by
  unfold fetch
  split <;> rfl

/-- A fetch that is not stopped is of the instruction at the program counter. -/
theorem fetch_running (cfg : CoreConfig) {pc : PCInterstage} (hstop : pc.stopIf = false)
    (skipBreak : Bool) (c : Core M) :
    (fetch cfg pc skipBreak c).1.isValid = true ∧
      (fetch cfg pc skipBreak c).1.instAddr = c.regs.pc ∧
      (fetch cfg pc skipBreak c).1.nextInstAddr = c.regs.pc + 4 := by
  rw [fetch, if_neg (by rw [hstop]; decide)]
  exact ⟨rfl, rfl, rfl⟩

theorem fetch_stopped (cfg : CoreConfig) {pc : PCInterstage} (hstop : pc.stopIf = true)
    (skipBreak : Bool) (c : Core M) : fetch cfg pc skipBreak c = ({}, c) := by
  rw [fetch, if_pos hstop]

section Writeback

omit [FrontendMemory M]

/-- Without a register write there is no write-back. -/
theorem writeback_of_regwrite {w : MemoryInterstage} (h : w.regwrite = false) (c : Core M) :
    writeback w c = c := by
  simp [writeback, h]

variable (w : MemoryInterstage)

theorem writeback_pc (c : Core M) : (writeback w c).regs.pc = c.regs.pc := by
  unfold writeback
  split
  · simp only [Registers.writeGp]
    split <;> rfl
  · rfl

theorem writeback_mem (c : Core M) : (writeback w c).mem = c.mem := by
  unfold writeback
  split <;> rfl

theorem writeback_predictor (c : Core M) : (writeback w c).predictor = c.predictor := by
  unfold writeback
  split <;> rfl

end Writeback

end Core

end QtRvSim
