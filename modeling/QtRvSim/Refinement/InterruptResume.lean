import QtRvSim.Core.StageOrigin
import QtRvSim.Refinement.InterruptMasking
import QtRvSim.Refinement.TrapRegisters

/-!
# Where a hart goes on after an interrupt

The instruction that carries an interrupt has no effect.  If the handler of the target mode is
entered, its address is in the register epc and it can be executed later.  If there is no handler
or interrupts are stepped over, the hart goes on behind it, so that the instruction is lost.
-/

namespace QtRvSim

open Csr ControlState Core CorePipelined Hart

variable {M : Type} [FrontendMemory M] {cfg : CoreConfig}

/-- The address that follows an instruction whose operands are suppressed: a jump and a branch on
zero go to their target, a jump to a register goes to address zero. -/
def suppressedNext (inst : Instruction) (instAddr : Address) : Address :=
  if (inst.flags.has .branch && !inst.flags.has .bjNot) || inst.flags.has .jump then
    instAddr + RegisterValue.ofI32 inst.immediate
  else if inst.flags.has .branchJalr then 0
  else instAddr + inst.size

namespace Core

theorem computeNextInstAddr_of_interrupt {privilege : PrivilegeLevel} {d : DecodeInterstage}
    (h : Decoded cfg privilege d) {toS : Bool} (htag : d.excause = interruptCause toS) :
    computeNextInstAddr cfg (execute d) (branchBxxTaken (execute d)) =
      suppressedNext d.inst d.instAddr := by
  have hraised : d.excause ≠ .none := htag ▸ interruptCause_ne_none _
  have halu : executeAluVal d = 0 := if_pos hraised
  have hzero : cfg.getXlenFromReg 0 = 0 := by
    cases hxlen : cfg.xlen <;>
      simp [CoreConfig.getXlenFromReg, RegisterValue.asXlen, hxlen, RegisterValue.asU32]
  -- the suppressed result is zero, so that a branch on zero is taken
  have hnext : computeNextInstAddr cfg (execute d) (branchBxxTaken (execute d)) =
      if (d.branchBxx && !d.branchVal) || d.branchJal then d.instAddr + d.immediateVal
      else if d.branchJalr then 0
      else d.nextInstAddr := by
    simp only [computeNextInstAddr, branchBxxTaken, execute, halu, beq_self_eq_true, Bool.not_true,
      Bool.xor_false, hzero]
  rw [hnext]
  cases h with
  | empty => exact absurd rfl hraised
  | @inst f hfetched csrReadVal valRs valRt ffRs ffRt =>
    change decodeExcause cfg f.inst.flags f.excause privilege = _ at htag
    have hsize : f.nextInstAddr = f.instAddr + f.inst.size := by
      rcases hfetched with rfl | ⟨hsize, -⟩
      · exact absurd (decodeExcause_interrupt htag).symm (interruptCause_ne_none _)
      · exact hsize
    simp only [suppressedNext, withOperands, decodeInterstage, hsize]

/-- An instruction with an exception does not write CSRs. -/
theorem memory_csrWritten_of_excause {dt : ExecuteInterstage}
    {r : MemoryInterstage × MemoryInternalState} {c c' : Core M}
    (h : memory cfg dt c = (.ok r, c')) (hexcause : dt.excause ≠ .none) :
    r.1.csrWritten = false := by
  have heffect := memory_effect h
  generalize r.1.csrWritten = written, c'.controlState = cs', c'.currentPrivilege = privilege'
    at heffect ⊢
  cases heffect with
  | idle => rfl
  | count hnone | xret hnone => exact absurd hnone hexcause

/-- Behind an instruction with an interrupt, the memory stage continues as if its operands were
zero. -/
theorem memory_next_of_interrupt {privilege : PrivilegeLevel} {d : DecodeInterstage}
    (hdecoded : Decoded cfg privilege d) {r : MemoryInterstage × MemoryInternalState}
    {c c' : Core M} (h : memory cfg (execute d) c = (.ok r, c')) {toS : Bool}
    (htag : r.1.excause = interruptCause toS) :
    r.1.computedNextInstAddr = suppressedNext r.1.inst r.1.instAddr := by
  have hexecute := memory_interrupt h htag
  have hraised : (execute d).excause ≠ .none := hexecute ▸ interruptCause_ne_none _
  rw [memory_next h (memory_csrWritten_of_excause h hraised),
    computeNextInstAddr_of_interrupt hdecoded hexecute]
  obtain ⟨csr, c₁, -, rfl, -⟩ := memory_ok h
  rfl

end Core

namespace TrapCall

/-- After the call the hart goes on at the handler of the target mode, with the address of the
instruction in epc, or at the instruction itself. -/
def Resumes (cfg : CoreConfig) (t : TrapCall M) (c : Core M) (next : Option Address) : Prop :=
  (t.core.controlState.registerData (tvecId t.toS) ≠ 0 ∧
      next = some (t.core.controlState.registerData (tvecId t.toS)) ∧
      c.controlState.registerData (epcId t.toS) = RegisterValue.asXlen cfg.xlen t.instAddr) ∨
    next = some t.instAddr

/-- The handler is entered, or the address behind the suppressed instruction happens to be one of
the two addresses. -/
def ResumesWhen (cfg : CoreConfig) (t : TrapCall M) : Prop :=
  entersTrap cfg t.excause t.toS t.core.controlState ∨
    suppressedNext t.inst t.instAddr = t.instAddr ∨
    (t.core.controlState.registerData (tvecId t.toS) ≠ 0 ∧
      suppressedNext t.inst t.instAddr = t.core.controlState.registerData (tvecId t.toS))

theorem resumes_iff {t : TrapCall M} (hinterrupt : t.IsInterrupt)
    (hnext : t.core.regs.pc = suppressedNext t.inst t.instAddr) {c : Core M} {stop : Bool}
    (hhandle : t.handle cfg = (.ok stop, c)) :
    t.Resumes cfg c (some c.regs.pc) ↔ t.ResumesWhen cfg := by
  have hillegal : t.excause ≠ .insnIllegal := by
    rcases hinterrupt with h | h <;> rw [h] <;> decide
  have hbreak : t.excause ≠ .hwbreak := by
    rcases hinterrupt with h | h <;> rw [h] <;> decide
  have hepc : c.controlState.registerData (epcId t.toS) =
      RegisterValue.asXlen cfg.xlen t.instAddr := by
    have hregister := @handle_registerData M _ cfg t hillegal hbreak (epcId t.toS)
      (by cases t.toS <;> decide)
    rw [hhandle, trapCsrUpdate_registerData] at hregister
    refine hregister.trans ?_
    cases t.toS <;> cases t.core.currentPrivilege <;> rfl
  have hpc : c.regs.pc = if entersTrap cfg t.excause t.toS t.core.controlState then
      t.core.controlState.registerData (tvecId t.toS) else suppressedNext t.inst t.instAddr := by
    have hdelivered := (@handle_deliver M _ cfg t hillegal hbreak).2
    rw [hhandle, hnext] at hdelivered
    exact hdelivered rfl
  unfold Resumes ResumesWhen
  rw [hpc, hepc]
  by_cases henters : entersTrap cfg t.excause t.toS t.core.controlState
  · simp only [henters, true_or, iff_true]
    exact .inl ⟨henters.1, rfl, trivial⟩
  · simp only [henters, false_or, Option.some.injEq, and_true]
    exact or_comm

end TrapCall

/-- Address of the next instruction that the single-cycle core executes. -/
def CoreSingle.nextInstruction (s : CoreSingle M) : Option Address :=
  if s.pipeline.pcIf.stopIf then none else some s.core.regs.pc

/-- Address of the next instruction that the pipelined core executes: the oldest one in flight, or
the one that is fetched next. -/
def CorePipelined.nextInstruction (s : CorePipelined M) : Option Address :=
  let p := s.pipeline
  if p.exMem.isValid then some p.exMem.instAddr
  else if p.idEx.isValid then some p.idEx.instAddr
  else if p.ifId.isValid then some p.ifId.instAddr
  else if p.pcIf.stopIf then none
  else some s.core.regs.pc

theorem CoreSingle.resumes_iff {skipBreak : Bool} {s s' : CoreSingle M} {t : TrapCall M}
    (hcall : CoreSingle.trapCall cfg skipBreak s = some t) (hinterrupt : t.IsInterrupt)
    (hstep : CoreSingle.step cfg skipBreak s = (.ok (), s')) :
    t.Resumes cfg s'.core s'.nextInstruction ↔ t.ResumesWhen cfg := by
  obtain ⟨s₁, stop, hstages, hcallOf, hhandle, hpipeline⟩ := step_of_trapCall hcall hstep
  obtain ⟨idEx, r, c, hdecode, hmemory, rfl⟩ := stages_ok hstages
  obtain ⟨hraised, hexcause, hinstAddr, -, hpc⟩ := callOf_some hcallOf
  have htag := TrapCall.excause_of_isInterrupt hinterrupt
  rw [hexcause] at htag
  have hdecoded := decode_decoded (fetch_fetched _ _ _) hdecode
  -- a fetch that is stopped attaches no interrupt
  have hstop : s.pipeline.pcIf.stopIf = false := by
    by_contra hstop
    have hempty := memory_interrupt hmemory htag
    obtain ⟨csrReadVal, -, rfl⟩ := decode_ok hdecode
    have hfetch := decodeExcause_interrupt hempty
    rw [fetch, if_pos (by simpa using hstop)] at hfetch
    exact interruptCause_ne_none _ hfetch.symm
  have hnext : t.core.regs.pc = suppressedNext t.inst t.instAddr := by
    obtain ⟨haligned, hcore⟩ := writePc_ok hpc
    rw [hcore, callOf_inst hcallOf, hinstAddr]
    exact memory_next_of_interrupt hdecoded hmemory htag
  rw [nextInstruction, hpipeline, if_neg (by simp [hstop])]
  exact TrapCall.resumes_iff hinterrupt hnext hhandle

theorem CorePipelined.resumes_iff {c₀ : Core M} {skipBreak : Bool} {s s' : CorePipelined M}
    {t : TrapCall M} (hrun : Hart.Reached cfg c₀ s)
    (hcall : trapCall cfg skipBreak s = some t) (hinterrupt : t.IsInterrupt)
    (hstep : step cfg skipBreak s = (.ok (), s')) :
    t.Resumes cfg s'.core s'.nextInstruction ↔ t.ResumesWhen cfg := by
  obtain ⟨s₁, stop, hstages, hcallOf, hhandle, hpipeline⟩ := step_of_trapCall hcall hstep
  obtain ⟨r, c, idEx, hmemory, -, rfl⟩ := stages_ok hstages
  obtain ⟨hraised, hexcause, hinstAddr, -, hpc⟩ := callOf_some hcallOf
  have htag := TrapCall.excause_of_isInterrupt hinterrupt
  rw [hexcause] at htag
  have hnext : t.core.regs.pc = suppressedNext t.inst t.instAddr := by
    obtain ⟨haligned, hcore⟩ := writePc_ok hpc
    rw [hcore, callOf_inst hcallOf, hinstAddr]
    rcases ((origin_stageInvariant M cfg).reached hrun).exMem with hempty | ⟨d, hdecoded, hexMem⟩
    · have hcarried := memory_interrupt hmemory htag
      rw [show s.pipeline.exMem = {} from hempty] at hcarried
      exact absurd hcarried.symm (interruptCause_ne_none _)
    · rw [show s.pipeline.exMem = execute d from hexMem] at hmemory
      exact memory_next_of_interrupt hdecoded hmemory htag
  rw [nextInstruction, hpipeline]
  exact TrapCall.resumes_iff hinterrupt hnext hhandle

/-- After an interrupt the hart goes on at the handler or at the interrupted instruction, in every
run of either core, exactly if the handler is entered or the address behind the suppressed
instruction happens to be one of the two. -/
theorem interrupt_resumes_iff (cfg : CoreConfig) (c : Core M) :
    (∀ s s' : CoreSingle M, Hart.Reached cfg c s → ∀ skipBreak t,
        Hart.trapCall cfg skipBreak s = some t → t.IsInterrupt →
        Hart.step cfg skipBreak s = (.ok (), s') →
        (t.Resumes cfg s'.core s'.nextInstruction ↔ t.ResumesWhen cfg)) ∧
      ∀ s s' : CorePipelined M, Hart.Reached cfg c s → ∀ skipBreak t,
        Hart.trapCall cfg skipBreak s = some t → t.IsInterrupt →
        Hart.step cfg skipBreak s = (.ok (), s') →
        (t.Resumes cfg s'.core s'.nextInstruction ↔ t.ResumesWhen cfg) :=
  ⟨fun _ _ _ _ _ hcall hinterrupt hstep => CoreSingle.resumes_iff hcall hinterrupt hstep,
    fun _ _ hrun _ _ hcall hinterrupt hstep =>
      resumes_iff hrun hcall hinterrupt hstep⟩

/-- The core with the timer interrupt enabled and a handler at address 0x300. -/
def handlerCore : Core FlatMemory :=
  { timerCore with controlState := timerCore.controlState.set .mtvec 0x300 }

def handlerState : CoreSingle FlatMemory :=
  Hart.setCore (handlerCore.setInterruptSignal 7 true) (CoreSingle.start handlerCore)

theorem interrupt_resumes_handlerState :
    ∃ t s', Hart.trapCall (.rv64 .none) false handlerState = some t ∧ t.IsInterrupt ∧
      Hart.step (.rv64 .none) false handlerState = (.ok (), s') ∧
      t.Resumes (.rv64 .none) s'.core s'.nextInstruction := by
  have hcall : (trapCall (.rv64 .none) false handlerState).map
      (fun t =>
        (t.excause, decide (entersTrap (.rv64 .none) t.excause t.toS t.core.controlState))) =
      some (.intM, true) := by decide +kernel
  obtain ⟨t, ht, hfields⟩ := Option.map_eq_some_iff.mp hcall
  simp only [Prod.mk.injEq, decide_eq_true_eq] at hfields
  have hok : (step (.rv64 .none) false handlerState).1.isOk = true := by decide +kernel
  have hstep := step_of_isOk hok
  have hrun : Hart.Reached (.rv64 .none) handlerCore handlerState :=
    .single (.interrupt (CoreSingle.start handlerCore) 7 true)
  exact ⟨t, _, ht, .inl hfields.1, hstep,
    ((interrupt_resumes_iff (.rv64 .none) handlerCore).1 handlerState _ hrun false t ht
      (.inl hfields.1) hstep).mpr (.inl hfields.2)⟩

/-- A program that enables the timer interrupt without a handler and then sets `x1`. -/
def lostCore : Core FlatMemory :=
  .reset (.rv64 .none) (.default false)
    (.ofWords 0x200 [0x08000293, 0x3042a073, 0x30046073, 0x00100093])

def enabledState : CoreSingle FlatMemory :=
  (Hart.after (.rv64 .none) false 3 (CoreSingle.start lostCore)).get (by decide +kernel)

def lostState : CoreSingle FlatMemory :=
  Hart.setCore (enabledState.core.setInterruptSignal 7 true) enabledState

/-- Without a handler the interrupt skips the instruction it is attached to. -/
theorem interrupt_loses_instruction :
    Hart.Reached (.rv64 .none) lostCore lostState ∧
      ∃ t s', Hart.trapCall (.rv64 .none) false lostState = some t ∧ t.IsInterrupt ∧
        t.instAddr = 0x20c ∧ Hart.step (.rv64 .none) false lostState = (.ok (), s') ∧
        s'.core.regs.readGp 1 = 0 ∧ s'.nextInstruction = some 0x210 ∧
        ¬t.Resumes (.rv64 .none) s'.core s'.nextInstruction := by
  constructor
  · have hsteps : after (.rv64 .none) false 3 (CoreSingle.start lostCore) =
        some enabledState := (Option.some_get _).symm
    exact .tail (moves_of_after hsteps) (.interrupt enabledState 7 true)
  · have hcall : (trapCall (.rv64 .none) false lostState).map
        (fun t => (t.excause, t.instAddr, t.core.controlState.registerData (tvecId t.toS))) =
        some (.intM, 0x20c, 0) := by decide +kernel
    obtain ⟨t, ht, hfields⟩ := Option.map_eq_some_iff.mp hcall
    simp only [Prod.mk.injEq] at hfields
    obtain ⟨hexcause, hinstAddr, htvec⟩ := hfields
    have hok : (step (.rv64 .none) false lostState).1.isOk = true := by decide +kernel
    have hnext : (step (.rv64 .none) false lostState).2.nextInstruction = some 0x210 := by
      decide +kernel
    refine ⟨t, _, ht, .inl hexcause, hinstAddr, step_of_isOk hok, by decide +kernel, hnext, ?_⟩
    rintro (⟨hne, -, -⟩ | hsame)
    · exact hne htvec
    · rw [hnext, hinstAddr] at hsame
      revert hsame
      decide

end QtRvSim
