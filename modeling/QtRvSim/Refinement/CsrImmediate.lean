import QtRvSim.Core.Forwarding
import QtRvSim.Core.Reset

/-!
# Operands of the CSR immediate forms

`csrrwi`, `csrrsi` and `csrrci` have a number in place of their source register.  The decode stage
takes it as the operand, but the instructions still claim to read a register, so the forwarding unit
replaces the operand if the instruction before them writes the register of that number
(`csrImmediate_operand`).
-/

namespace QtRvSim

open Core CorePipelined

variable {M : Type} [FrontendMemory M] {cfg : CoreConfig}

def csrImmediateForms : List (WordPattern 32) :=
  [⟨0x5073, 0x707f⟩, ⟨0x6073, 0x707f⟩, ⟨0x7073, 0x707f⟩]

def csrNumber (word : Instruction) : RegisterValue :=
  (word.extractLsb' 15 5).setWidth 64

variable {word : Instruction}

/-- The rows of the three instructions. -/
theorem csrImmediate_flags (h : Encodes csrImmediateForms word) :
    word.flags.has .aluReqRs = true ∧ word.flags.has .aluRsId = true ∧
      word.flags.has .csr = true :=
  InstructionMap.find_of_patterns (P := fun e => e.flags.has .aluReqRs = true ∧
    e.flags.has .aluRsId = true ∧ e.flags.has .csr = true) (by decide +kernel) h

theorem not_csrImmediate_nop : ¬Encodes csrImmediateForms Instruction.nop := by decide

/-- The source register is the number. -/
theorem rs_setWidth (word : Instruction) : word.rs.setWidth 64 = csrNumber word := by
  have hrs : word.rs = word.extractLsb' 15 5 := by
    apply BitVec.eq_of_toNat_eq
    rw [Instruction.rs, BitVec.toNat_setWidth, Instruction.toNat_field word (by decide),
      BitVec.extractLsb'_toNat, Nat.shiftRight_eq_div_pow, Nat.mod_mod]
  rw [hrs, csrNumber]

theorem decodeNumRs_csrImmediate (h : Encodes csrImmediateForms word) :
    decodeNumRs word = word.rs := by
  rw [decodeNumRs, InstructionFlags.has_or, (csrImmediate_flags h).1, Bool.true_or, if_pos rfl]

/-- The decode stage takes the number. -/
theorem decodeValRs_csrImmediate (h : Encodes csrImmediateForms word) (regs : Registers) :
    decodeValRs word regs = csrNumber word := by
  rw [decodeValRs, if_pos (csrImmediate_flags h).2.1, decodeNumRs_csrImmediate h, rs_setWidth]

/-- An instruction of the three that the execute stage will execute has its number as operand. -/
def UsesNumber (d : DecodeInterstage) : Prop :=
  Encodes csrImmediateForms d.inst → d.excause = .none → d.valRs = csrNumber d.inst

theorem usesNumber_empty : UsesNumber {} := fun h => absurd h not_csrImmediate_nop

/-- The operand of the instruction in IF/ID is not the result of the instruction in EX/MEM. -/
def takesNumber (cfg : CoreConfig) (s : CorePipelined M) : Bool :=
  cfg.hazardUnit != .stallForward ||
    !writesRegister s.pipeline.exMem.regwrite s.pipeline.exMem.numRd s.pipeline.ifId.inst.rs

/-! ### The pipelined core -/

namespace CorePipelined

/-- What the hazard unit makes of the operand when no stage behind it is valid. -/
theorem valRs_of_goesOn {p : Pipeline} (hstall : stalls cfg p = false)
    (hempty : ∀ reg, writesRegister p.exMem.regwrite p.exMem.numRd reg = false)
    (hreq : p.idEx.aluReqRs = true) :
    (resolveHazards cfg p).2.valRs =
      if cfg.hazardUnit = .stallForward ∧
          writesRegister p.memWb.regwrite p.memWb.numRd p.idEx.numRs = true then
        p.memWb.towriteVal
      else p.idEx.valRs := by
  rw [stalls, Bool.or_eq_false_iff] at hstall
  rw [resolveHazards] at hstall ⊢
  cases hunit : cfg.hazardUnit with
  | none => simp
  | stall =>
    simp only [ne_eq, reduceCtorEq, not_false_eq_true, if_true, handleDataHazards_stall,
      false_and, if_false]
  | stallForward =>
    simp only [hunit, ne_eq, reduceCtorEq, not_false_eq_true, if_true] at hstall ⊢
    obtain ⟨⟨ffRs, ffRt, hfields⟩, -⟩ := handleDataHazards_operands (by decide) hstall.1
    rw [hfields]
    simp only [withOperands, operandValue, writesOperand, hempty, hreq, Bool.true_and,
      Bool.false_eq_true, if_false, true_and]

/-- The operand of one of the three instructions after the step that decodes it. -/
theorem csrImmediate_step {c : Core M} {s s' : CorePipelined M} {skipBreak : Bool}
    (hrun : Hart.Reached cfg c s) (hstep : step cfg skipBreak s = (.ok (), s'))
    (hform : Encodes csrImmediateForms s'.pipeline.idEx.inst)
    (hexcause : s'.pipeline.idEx.excause = .none) :
    s'.pipeline.idEx.valRs =
      if takesNumber cfg s then csrNumber s'.pipeline.idEx.inst
      else s'.pipeline.memWb.towriteVal := by
  rcases step_idEx hstep with hempty | ⟨p, hmoved⟩
  · rw [hempty] at hform
    exact absurd hform not_csrImmediate_nop
  obtain ⟨valRs, valRt, ffRs, ffRt, hfields⟩ := hmoved.fields
  obtain ⟨privilege, regs, csrReadVal, hidEx⟩ := hmoved.decoded
  have hinst : s'.pipeline.idEx.inst = s.pipeline.ifId.inst := by
    rw [hfields, hidEx]
    rfl
  have hnone : p.idEx.excause = .none := by
    rwa [hfields] at hexcause
  rw [hinst] at hform ⊢
  obtain ⟨hreq, -, hcsr⟩ := csrImmediate_flags hform
  have hstall := hmoved.goesOn hnone
  -- the instruction waits for an invalid execute stage, which writes no register
  have hbubble : p.exMem.isValid = false := by
    rw [stalls, Bool.or_eq_false_iff, isStallRequested] at hstall
    have hwaits : p.idEx.insertStallBefore = true := by
      rw [hidEx]
      exact hcsr
    rw [hwaits, Bool.true_and] at hstall
    exact hstall.2
  have hwrites (reg : RegisterId) : writesRegister p.exMem.regwrite p.exMem.numRd reg = false := by
    have hvalid := ((valid_stageInvariant M cfg).reached hrun).idEx
    rw [hmoved.exMem] at hbubble ⊢
    rcases hvalid with hzero | hvalid
    · have hnum : (execute s.pipeline.idEx).numRd = 0 := hzero
      rw [writesRegister, hnum]
      simp
    · exact absurd hvalid (by rw [show s.pipeline.idEx.isValid = false from hbubble]; simp)
  obtain ⟨internal, c', hmemory, -⟩ := hmoved.memory
  obtain ⟨-, hregwrite, hnumRd⟩ := memory_interstage hmemory hmoved.excause
  have hnumRs : p.idEx.numRs = s.pipeline.ifId.inst.rs := by
    rw [hidEx]
    exact decodeNumRs_csrImmediate hform
  have hvalue : p.idEx.valRs = csrNumber s.pipeline.ifId.inst := by
    rw [hidEx]
    exact decodeValRs_csrImmediate hform regs
  have hneeds : p.idEx.aluReqRs = true := by
    rw [hidEx]
    exact hreq
  rw [hmoved.idEx', valRs_of_goesOn hstall hwrites hneeds, hmoved.memWb', hnumRs, hvalue,
    takesNumber]
  simp only at hregwrite hnumRd
  rw [hregwrite, hnumRd]
  cases cfg.hazardUnit <;>
    cases writesRegister s.pipeline.exMem.regwrite s.pipeline.exMem.numRd
      s.pipeline.ifId.inst.rs <;> simp

/-- The instruction before one of the three does not write the register of the number. -/
def Clear (cfg : CoreConfig) (s : CorePipelined M) : Prop :=
  Encodes csrImmediateForms s.pipeline.ifId.inst → takesNumber cfg s = true

theorem usesNumber_reached {c : Core M} {s : CorePipelined M}
    (hrun : Hart.ReachedIf cfg (fun _ => Clear cfg) c s) : UsesNumber s.pipeline.idEx := by
  induction hrun with
  | refl => exact usesNumber_empty
  | tail hrun hmove ih =>
    cases hmove with
    | step skipBreak hclear hstep =>
      intro hform hexcause
      rw [csrImmediate_step (Hart.ReachedIf.reached hrun) hstep hform hexcause, if_pos]
      -- what is decoded is the instruction of IF/ID
      rcases step_idEx hstep with hempty | ⟨p, hmoved⟩
      · rw [hempty] at hform
        exact absurd hform not_csrImmediate_nop
      · obtain ⟨valRs, valRt, ffRs, ffRt, hfields⟩ := hmoved.fields
        obtain ⟨privilege, regs, csrReadVal, hidEx⟩ := hmoved.decoded
        rw [hfields, hidEx] at hform
        exact hclear hform
    | interrupt irqNum active => exact ih

end CorePipelined

/-! ### The single-cycle core -/

theorem CoreSingle.usesNumber_reached {c : Core M} {s : CoreSingle M}
    (hrun : Hart.Reached cfg c s) : UsesNumber s.pipeline.idEx := by
  induction hrun with
  | refl => exact usesNumber_empty
  | @tail s s' _ hmove ih =>
    cases hmove with
    | step skipBreak hstep =>
      have hstep : CoreSingle.step cfg skipBreak s = (.ok (), s') := hstep
      rw [CoreSingle.step, doStep_stages] at hstep
      split at hstep
      next => cases hstep
      next s₁ hstages =>
        obtain ⟨idEx, r, c', hdecode, -, rfl⟩ := stages_ok hstages
        have hpipeline := congrArg (fun o => o.2.pipeline.idEx) hstep
        simp only [finishStep_pipeline] at hpipeline
        rw [← hpipeline]
        obtain ⟨csrReadVal, -, rfl⟩ := decode_ok hdecode
        exact fun hform _ => decodeValRs_csrImmediate hform _
    | interrupt irqNum active => exact ih

/-- The CSR immediate forms have their number as operand in the single-cycle core, and in the
pipelined core in every run in which they do not follow an instruction that writes the register of
that number; behind such an instruction the forwarding unit gives them its result. -/
theorem csrImmediate_operand (cfg : CoreConfig) (c : Core M) :
    (∀ s : CoreSingle M, Hart.Reached cfg c s → UsesNumber s.pipeline.idEx) ∧
      (∀ s : CorePipelined M, Hart.ReachedIf cfg (fun _ => CorePipelined.Clear cfg) c s →
        UsesNumber s.pipeline.idEx) ∧
      ∀ (s s' : CorePipelined M) (skipBreak : Bool), Hart.Reached cfg c s →
        CorePipelined.step cfg skipBreak s = (.ok (), s') →
        Encodes csrImmediateForms s'.pipeline.idEx.inst → s'.pipeline.idEx.excause = .none →
          s'.pipeline.idEx.valRs =
            if takesNumber cfg s then csrNumber s'.pipeline.idEx.inst
            else s'.pipeline.memWb.towriteVal :=
  ⟨fun _ => CoreSingle.usesNumber_reached, fun _ => usesNumber_reached,
    fun _ _ _ hrun hstep => csrImmediate_step hrun hstep⟩

/-- `csrrwi x0, mscratch, 5` behind some words. -/
def csrImmediateCore (words : List Instruction) : Core FlatMemory :=
  .reset (.rv32 .stallForward) (.default false) (.ofWords 0x200 (words ++ [0x3402d073]))

/-- Behind `addi x6, x0, 100` the operand is 5. -/
theorem csrImmediate_operand_x6 :
    ∃ s s' : CorePipelined FlatMemory,
      Hart.after (.rv32 .stallForward) false 3 (.start (csrImmediateCore [0x06400313])) = some s ∧
      CorePipelined.step (.rv32 .stallForward) false s = (.ok (), s') ∧
      s'.pipeline.idEx.inst = 0x3402d073 ∧ s'.pipeline.idEx.valRs = 5 := by
  have hfacts : ((Hart.after (.rv32 .stallForward) false 3
      (start (csrImmediateCore [0x06400313]))).map fun s =>
        (takesNumber (.rv32 .stallForward) s,
          (Hart.step (.rv32 .stallForward) false s).1.isOk,
          (Hart.step (.rv32 .stallForward) false s).2.pipeline.idEx.inst,
          (Hart.step (.rv32 .stallForward) false s).2.pipeline.idEx.excause)) =
      some (true, true, 0x3402d073, .none) := by
    decide +kernel
  obtain ⟨s, hafter, hs⟩ := Option.map_eq_some_iff.mp hfacts
  simp only [Prod.mk.injEq] at hs
  obtain ⟨htakes, hok, hinst, hexcause⟩ := hs
  have hstep := Hart.step_of_isOk hok
  have hform : Encodes csrImmediateForms
      (Hart.step (.rv32 .stallForward) false s).2.pipeline.idEx.inst := by
    rw [hinst]
    decide
  have hvalue := (csrImmediate_operand (.rv32 .stallForward) (csrImmediateCore [0x06400313])).2.2
    s _ false (Hart.moves_of_after hafter) hstep hform hexcause
  rw [htakes, if_pos rfl, hinst] at hvalue
  exact ⟨s, _, hafter, hstep, hinst, hvalue⟩

/-- Behind `addi x5, x0, 100` the operand is 100, and so is the register that is written. -/
theorem csrImmediate_forwarded :
    csrNumber 0x3402d073 = 5 ∧
      ((Hart.after (.rv32 .stallForward) false 4
        (CorePipelined.start (csrImmediateCore [0x06400293]))).map fun s =>
          (s.pipeline.idEx.inst, s.pipeline.idEx.valRs)) = some (0x3402d073, 100) ∧
      ((Hart.after (.rv32 .stallForward) false 6
        (CorePipelined.start (csrImmediateCore [0x06400293]))).map fun s =>
          s.core.controlState.registerData .mscratch) = some 100 := by
  decide +kernel

end QtRvSim
