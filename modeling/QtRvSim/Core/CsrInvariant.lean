import QtRvSim.Core.ControlEffect

/-!
# Invariants of the CSR file

A property of the CSR file that every write handler keeps, and the few assignments that bypass the
handlers, holds in every state that a run of either core reaches.
-/

namespace QtRvSim

open Csr ControlState Core

structure StableCsr (xlen : Xlen) (inv : ControlState → Prop) : Prop where
  write : ∀ (id : Csr.Id) (value : RegisterValue) {cs : ControlState}, inv cs →
    inv (cs.runWriteHandler xlen id value).1
  cause : ∀ (toPrivlev : PrivilegeLevel) (value : RegisterValue) {cs : ControlState}, inv cs →
    inv (cs.set (if toPrivlev = .machine then .mcause else .scause) value)
  interrupt : ∀ (irqNum : Nat) (active : Bool) {cs : ControlState}, inv cs →
    inv (cs.setInterruptSignal irqNum active).1

namespace StableCsr

variable {cfg : CoreConfig} {inv : ControlState → Prop} (hinv : StableCsr cfg.xlen inv)
  {cs : ControlState}

include hinv

theorem writeField (desc : RegisterFieldDesc) (value : BitVec 64) (h : inv cs) :
    inv (cs.writeField cfg.xlen desc value).1 := by
  rw [ControlState.writeField, writeInternal_fst]
  exact hinv.write _ _ h

theorem exceptionInitiate (actPrivlev toPrivlev : PrivilegeLevel) (h : inv cs) :
    inv (cs.exceptionInitiate cfg.xlen actPrivlev toPrivlev).1 := by
  unfold ControlState.exceptionInitiate
  split <;> exact hinv.writeField _ _ (hinv.writeField _ _ (hinv.writeField _ _ h))

theorem exceptionReturn (actPrivlev xretPrivlev : PrivilegeLevel) (h : inv cs) :
    inv (cs.exceptionReturn cfg.xlen actPrivlev xretPrivlev).2.1 := by
  have hclear {r : PrivilegeLevel × CsrUpdate} (hr : inv r.2.1) :
      inv (if actPrivlev = .machine ∧ r.1 ≠ .machine then
        andThen r.2 (ControlState.writeField cfg.xlen Field.Mstatus.mprv 0) else r.2).1 := by
    split
    · exact hinv.writeField _ _ hr
    · exact hr
  apply hclear
  cases xretPrivlev with
  | unprivileged | hypervisor => exact h
  | supervisor | machine => exact hinv.writeField _ _ (hinv.writeField _ _ (hinv.writeField _ _ h))

theorem cycleCounted (h : inv cs) : inv (Core.cycleCounted cfg cs) := by
  rw [Core.cycleCounted, incrementInternal, writeInternal_fst]
  exact hinv.write _ _ h

theorem instructionCounted (h : inv cs) : inv (Core.instructionCounted cfg cs) := by
  rw [Core.instructionCounted, incrementInternal, writeInternal_fst]
  exact hinv.write _ _ h

theorem writeEffect {dt : ExecuteInterstage} {privilege : PrivilegeLevel} {written : Bool}
    {cs' : ControlState} (heffect : WriteEffect cfg dt privilege cs written cs') (h : inv cs) :
    inv cs' := by
  cases heffect with
  | skip => exact h
  | write _ hwrite =>
    obtain ⟨id, -, -, rfl⟩ := write_ok hwrite
    rw [writeInternal_fst]
    exact hinv.write _ _ h

theorem memoryEffect {dt : ExecuteInterstage} {privilege privilege' : PrivilegeLevel}
    {written : Bool} {cs' : ControlState}
    (heffect : MemoryEffect cfg dt cs privilege written cs' privilege') (h : inv cs) :
    inv cs' := by
  have hcount := hinv.instructionCounted h
  cases heffect with
  | idle => exact h
  | count _ _ hwrite => exact hinv.writeEffect hwrite hcount
  | xret _ _ hwrite => exact hinv.exceptionReturn _ _ (hinv.writeEffect hwrite hcount)

theorem trapped (excause : ExceptionCause) (instAddr memRefAddr : Address)
    (privilege : PrivilegeLevel) (h : inv cs) :
    inv (Core.trapped cfg excause instAddr memRefAddr privilege cs) := by
  have hrecord (toS : Bool) :
      inv (trapCsrUpdate cfg excause instAddr memRefAddr privilege toS cs).1 := by
    exact hinv.cause _ _ (hinv.write _ _ (hinv.write _ _ h))
  unfold Core.trapped
  dsimp only
  split
  · exact hinv.exceptionInitiate _ _ (hrecord _)
  · exact hrecord _

variable {M : Type} [FrontendMemory M]

omit [FrontendMemory M] in
theorem aside {c c' : Core M} (haside : Aside cfg c c') (h : inv c.controlState) :
    inv c'.controlState := by
  rcases haside.control with hkeep | hcount
  · rw [hkeep]
    exact h
  · rw [hcount]
    exact hinv.cycleCounted h

theorem stepEnd {call : Option (TrapCall M)} {raised : ExceptionCause} {c c' : Core M}
    {result : Except SimulatorException Unit} (hend : StepEnd cfg call raised c result c')
    (h : inv c.controlState) : inv c'.controlState := by
  cases hend with
  | plain => exact h
  | trap t _ _ regs hcore hhandle =>
    have hcall : inv t.core.controlState := by
      rw [hcore]
      exact h
    have heffect := @TrapCall.handle_effect M _ cfg t
    rw [hhandle] at heffect
    cases heffect with
    | thrown | stopped => exact hcall
    | delivered => exact hinv.trapped _ _ _ _ hcall

variable {σ : Type} [Hart σ M] [MemoryStage σ M] [StagedHart σ]

theorem step {skipBreak : Bool} {s s' : σ} (hstep : Hart.step cfg skipBreak s = (.ok (), s'))
    (h : inv (Hart.core s).controlState) : inv (Hart.core s').controlState := by
  obtain ⟨e, c, r, c₁, c₂, hentering, hmemory, haside, hend⟩ := StagedHart.step hstep
  refine hinv.stepEnd hend (hinv.aside haside (hinv.memoryEffect (memory_effect hmemory) ?_))
  exact hinv.aside (StagedHart.entering hentering) h

/-- A run of either core keeps the property. -/
theorem reached {c : Core M} {s : σ}
    (hrun : Hart.Reached cfg c s) (h : inv c.controlState) : inv (Hart.core s).controlState := by
  induction hrun with
  | refl =>
    rw [StagedHart.start]
    exact h
  | tail _ hmove ih =>
    cases hmove with
    | interrupt irqNum active =>
      rw [StagedHart.setCore]
      exact hinv.interrupt irqNum active ih
    | step skipBreak hstep => exact hinv.step hstep ih

end StableCsr

end QtRvSim
