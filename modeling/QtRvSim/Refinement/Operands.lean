import QtRvSim.Core.ControlEffect
import QtRvSim.Core.Hazards
import QtRvSim.Refinement.Sequential

/-!
# Operands in the pipeline

The operands an instruction carries through the pipeline against those the sequential machine
reads.  The stalling unit delivers the same values.  The forwarding unit delivers values that agree
on XLEN bits, because it takes the target of a jump for its link; the arithmetic units look at no
more than XLEN bits, so the results are the same.
-/

namespace QtRvSim

open Core CorePipelined FrontendMemory Sequential Instruction

/-- Neither an atomic instruction nor a fence or cache operation. -/
def Instruction.isPlain (inst : Instruction) : Bool :=
  !inst.flags.has .amo && !isSpecialAccess inst.memCtl

section Tables

open InstructionFlags InstructionMap

variable {inst : Instruction}

/-- Only Zicsr instructions use a register number as operand. -/
theorem Instruction.not_aluRsId (hcsr : inst.isZicsr = false) :
    inst.flags.has .aluRsId = false := by
  have h : ∀ a ∈ root.entries, a.flags.has aluRsId = true → a.flags.has csr = true := by
    decide +kernel
  have himp : inst.flags.has aluRsId = true → inst.flags.has csr = true :=
    find_of_entries h (by decide) inst
  rw [isZicsr] at hcsr
  exact Bool.eq_false_iff.mpr fun hrs => Bool.false_ne_true (hcsr.symm.trans (himp hrs))

/-- Doubleword loads and stores are instructions of RV64 only. -/
theorem Instruction.ctlSize_rv64 (hsize : ctlSize inst.memCtl = 8) :
    inst.flags.has .rv64 = true := by
  have h : ∀ a ∈ root.entries, ctlSize a.memCtl = 8 → a.flags.has rv64 = true := by
    decide +kernel
  exact find_of_entries h (by decide) inst hsize

/-- The ALU adds the immediate to the address of a `jal`. -/
theorem Instruction.jump_alu (hjump : inst.flags.has .jump = true) :
    inst.flags.has .pcToAlu = true ∧ inst.flags.has .alusrc = true ∧
      inst.aluOp = AluOp.add.combined ∧ inst.flags.has .amo = false ∧
      inst.flags.has .mul = false ∧ inst.flags.has .aluMod = false ∧
      inst.flags.has .forceWOp = false ∧ inst.flags.has .csrToAlu = false := by
  have h : ∀ a ∈ root.entries, a.flags.has jump = true →
      a.flags.has pcToAlu = true ∧ a.flags.has alusrc = true ∧
        a.alu = AluOp.add.combined ∧ a.flags.has amo = false ∧ a.flags.has mul = false ∧
        a.flags.has aluMod = false ∧ a.flags.has forceWOp = false ∧
        a.flags.has csrToAlu = false := by
    decide +kernel
  exact find_of_entries h (by decide) inst hjump

/-- A `jalr` is no conditional branch. -/
theorem Instruction.jalr_not_branch (hjalr : inst.flags.has .branchJalr = true) :
    inst.flags.has .branch = false := by
  have h : ∀ a ∈ root.entries, a.flags.has branchJalr = true → a.flags.has branch = false := by
    decide +kernel
  exact find_of_entries h (by decide) inst hjalr

/-- A return from a trap is neither a jump nor a branch. -/
theorem Instruction.xret_not_branch (hxret : inst.flags.has .xret = true) :
    inst.flags.has .jump = false ∧ inst.flags.has .branchJalr = false ∧
      inst.flags.has .branch = false := by
  have h : ∀ a ∈ root.entries, a.flags.has xret = true →
      a.flags.has jump = false ∧ a.flags.has branchJalr = false ∧ a.flags.has branch = false := by
    decide +kernel
  exact find_of_entries h (by decide) inst hxret

end Tables

variable {inst : Instruction}

/-- Operands that are not needed are `x0`. -/
theorem decodeNumRs_of_not_req (hzicsr : inst.isZicsr = false)
    (hreq : inst.flags.has .aluReqRs = false) : decodeNumRs inst = 0 := by
  rw [decodeNumRs, InstructionFlags.has_or, hreq, not_aluRsId hzicsr]
  rfl

theorem decodeNumRt_of_not_req (hreq : inst.flags.has .aluReqRt = false) :
    decodeNumRt inst = 0 := by
  rw [decodeNumRt, hreq]
  rfl

theorem decodeValRs_eq (hzicsr : inst.isZicsr = false) (regs : Registers) :
    decodeValRs inst regs = regs.readGp (decodeNumRs inst) := by
  rw [decodeValRs, not_aluRsId hzicsr]
  rfl

section Alu

variable {xlen : Xlen} {a a' b b' : RegisterValue}

/-- On XLEN bits the arithmetic units see no difference. -/
theorem aluCombinedOperate_congr (ha : a.asXlen xlen = a'.asXlen xlen)
    (hb : b.asXlen xlen = b'.asXlen xlen) {component : AluComponent} (hpass : component ≠ .pass)
    {wOperation : Bool} (hw : xlen = ._64 ∨ wOperation = true) (op : AluCombinedOp)
    (modified : Bool) :
    aluCombinedOperate op component wOperation modified a b =
      aluCombinedOperate op component wOperation modified a' b' := by
  cases xlen with
  | _64 =>
    obtain rfl : a = a' := ha
    obtain rfl : b = b' := hb
    rfl
  | _32 =>
    have ha' : a.asU32 = a'.asU32 := setWidth_congr ha 32 (by decide)
    have hb' : b.asU32 = b'.asU32 := setWidth_congr hb 32 (by decide)
    obtain rfl : wOperation = true := hw.resolve_left (by decide)
    cases component with
    | alu => simp only [aluCombinedOperate, alu32Operate, ha', hb', if_true]
    | mul => simp only [aluCombinedOperate, mul32Operate, ha', hb', if_true]
    | pass => exact absurd rfl hpass

end Alu

/-- An operand in the pipeline against the register value it stands for. -/
def OperandAgree (cfg : CoreConfig) (v v' : RegisterValue) : Prop :=
  v = v' ∨ (cfg.hazardUnit = .stallForward ∧ v.asXlen cfg.xlen = v'.asXlen cfg.xlen)

theorem OperandAgree.xlen {cfg : CoreConfig} {v v' : RegisterValue} (h : OperandAgree cfg v v') :
    v.asXlen cfg.xlen = v'.asXlen cfg.xlen := by
  rcases h with rfl | ⟨-, h⟩
  · rfl
  · exact h

/-- A decoded instruction in the pipeline against the sequential machine's.  The operands matter
only for instructions without an exception. -/
structure DecodeAgree (cfg : CoreConfig) (d d' : DecodeInterstage) : Prop where
  fields : d = (withOperands d' d.valRs d.valRt d.ffRs d.ffRt).withPrediction
    d.predictedNextInstAddr
  valRs : d'.excause = .none → OperandAgree cfg d.valRs d'.valRs
  valRt : d'.excause = .none → OperandAgree cfg d.valRt d'.valRt

/-- With forwarding, only plain instructions are executed as in the sequential machine. -/
def Settled (cfg : CoreConfig) (inst : Instruction) : Prop :=
  cfg.hazardUnit = .stallForward → inst.isPlain = true

/-- The result of the arithmetic units depends on the operands' XLEN bits only. -/
theorem executeAluVal_congr {cfg : CoreConfig} {d d' : DecodeInterstage} (h : DecodeAgree cfg d d')
    (hpass : cfg.hazardUnit = .stallForward → d'.aluComponent ≠ .pass)
    (hw : cfg.xlen = ._64 ∨ d'.wOperation = true) : executeAluVal d = executeAluVal d' := by
  have hval : executeAluVal d = aluResult d' d.valRs d.valRt := by
    rw [h.fields]
    rfl
  rw [hval]
  by_cases hexcause : d'.excause = .none
  · have hrs := h.valRs hexcause
    have hrt := h.valRt hexcause
    by_cases hunit : cfg.hazardUnit = .stallForward
    · simp only [executeAluVal, aluResult, hexcause, ne_eq, not_true_eq_false, if_false]
      refine aluCombinedOperate_congr ?_ ?_ (hpass hunit) hw _ _
      · cases d'.aluPc with
        | true => rfl
        | false => exact hrs.xlen
      · cases d'.csrToAlu with
        | true => rfl
        | false =>
          cases d'.alusrc with
          | true => rfl
          | false => exact hrt.xlen
    · rw [hrs.resolve_right fun h => hunit h.1, hrt.resolve_right fun h => hunit h.1]
      rfl
  · simp only [executeAluVal, aluResult, hexcause, ne_eq, not_false_eq_true, if_true]

variable {cfg : CoreConfig} {skipBreak : Bool} {prog : Program}

/-- A legal instruction of RV32 is no doubleword load or store. -/
theorem narrow_of_legal {excause : ExceptionCause} {privilege : PrivilegeLevel}
    (hlegal : decodeExcause cfg inst.flags excause privilege = .none) :
    cfg.xlen = ._64 ∨ ctlSize inst.memCtl ≠ 8 := by
  cases hxlen : cfg.xlen with
  | _64 => exact .inl rfl
  | _32 =>
    refine .inr fun hsize => ?_
    have hbit : inst.flags[24] = true := by
      rw [← BitVec.getLsbD_eq_getElem, ← InstructionFlags.has_bit _ (by decide)]
      exact ctlSize_rv64 hsize
    have hillegal : (inst.flags ^^^ CoreConfig.checkInstFlagsVal) &&&
        cfg.checkInstFlagsMask privilege ≠ 0 := by
      intro h0
      have hmask := congrArg (fun x => x.getLsbD 24) h0
      simp [hbit, hxlen, CoreConfig.checkInstFlagsMask, CoreConfig.unsupportedInstFlagsToCheck,
        CoreConfig.checkInstFlagsVal, InstructionFlags.supported, InstructionFlags.rv64] at hmask
    rw [decodeExcause_illegal hillegal] at hlegal
    cases hlegal
variable {s : Core FlatMemory}

/-- Agreeing decoded instructions agree after the execute stage. -/
theorem DecodeAgree.execute {d : DecodeInterstage}
    (h : DecodeAgree cfg d (decoded cfg skipBreak prog s))
    (hsettled : Settled cfg (prog s.regs.pc)) :
    ExecuteAgree cfg (Core.execute d) (executed cfg skipBreak prog s) := by
  have hpass : cfg.hazardUnit = .stallForward →
      (decoded cfg skipBreak prog s).aluComponent ≠ .pass := by
    intro hunit
    have hamo : (prog s.regs.pc).flags.has .amo = false := by
      have hplain := hsettled hunit
      simp only [isPlain, Bool.and_eq_true, Bool.not_eq_true'] at hplain
      exact hplain.1
    show (if (prog s.regs.pc).flags.has .amo then AluComponent.pass
      else if (prog s.regs.pc).flags.has .mul then .mul else .alu) ≠ .pass
    rw [hamo]
    cases (prog s.regs.pc).flags.has .mul <;> decide
  have hw : cfg.xlen = ._64 ∨ (decoded cfg skipBreak prog s).wOperation = true := by
    cases hxlen : cfg.xlen with
    | _64 => exact .inl rfl
    | _32 => exact .inr (by simp [decoded, decodeInterstage, hxlen])
  have halu := executeAluVal_congr h hpass hw
  constructor
  · simp only [executed, Core.execute, halu]
    generalize executeAluVal (decoded cfg skipBreak prog s) = aluVal
    rw [h.fields]
    rfl
  · intro hexcause
    rcases h.valRt hexcause with hval | ⟨hunit, hval⟩
    · exact .inl hval
    · have hplain := hsettled hunit
      simp only [isPlain, Bool.and_eq_true, Bool.not_eq_true'] at hplain
      exact .inr ⟨hval, hplain.2, narrow_of_legal hexcause⟩

/-- Plain instructions that do not load write back the ALU result. -/
theorem performAccess_of_plain {e : ExecuteInterstage} {c c' : Core FlatMemory}
    {value : RegisterValue} (hspecial : isSpecialAccess e.memctl = false)
    (hload : e.memread = false) (h : performAccess cfg e c = (.ok value, c')) :
    value = e.aluVal := by
  unfold performAccess at h
  dsimp only at h
  rw [if_neg (by rw [hspecial]; decide)] at h
  split at h
  · simp only [regularAccess, hload] at h
    split at h
    · cases h
    · cases h
      rfl
  · cases h
    rfl

/-- The ALU result of a `jal` is its target on XLEN bits. -/
theorem jal_aluVal (hjump : (prog s.regs.pc).flags.has .jump = true)
    (hexcause : (executed cfg skipBreak prog s).excause = .none) :
    (executed cfg skipBreak prog s).aluVal.asXlen cfg.xlen =
      RegisterValue.asXlen cfg.xlen
        (executed cfg skipBreak prog s).branchJalTarget := by
  obtain ⟨hpc, hsrc, hop, hamo, hmul, hmod, hforce, hcsr⟩ := jump_alu hjump
  have hexcause' : (decoded cfg skipBreak prog s).excause = .none := hexcause
  have haluVal : (executed cfg skipBreak prog s).aluVal =
      aluCombinedOperate AluOp.add.combined .alu (cfg.xlen != ._64) false s.regs.pc
        (.ofI32 (prog s.regs.pc).immediate) := by
    simp only [executed, execute, executeAluVal, aluResult, hexcause']
    simp [decoded, decodeInterstage, fetched, hpc, hsrc, hop, hamo, hmul, hmod, hforce, hcsr]
  rw [haluVal]
  exact aluAdd_asXlen cfg.xlen _ _

/-- A value that can be forwarded from the execute stage is, on XLEN bits, what the instruction
writes back; a jump that continues at the next word has its link as target. -/
theorem towriteVal_forward {s₁ : Core FlatMemory} {r : MemoryInterstage × MemoryInternalState}
    (hmemory : memory cfg (executed cfg skipBreak prog s) s = (.ok r, s₁))
    (hexcause : r.1.excause = .none) (hcsr : r.1.csrWritten = false)
    (hnext : r.1.computedNextInstAddr = s.regs.pc + 4) (hplain : (prog s.regs.pc).isPlain = true)
    (hzicsr : (prog s.regs.pc).isZicsr = false)
    (hload : (executed cfg skipBreak prog s).memread = false) :
    r.1.towriteVal.asXlen cfg.xlen =
      (executed cfg skipBreak prog s).aluVal.asXlen cfg.xlen := by
  rw [memory_next hmemory hcsr] at hnext
  have hnone := (memory_interstage hmemory hexcause).1
  obtain ⟨csr, s₂, -, rfl, -⟩ := memory_ok hmemory
  obtain ⟨value, s₃, haccess, hresult⟩ := memoryAccess_of_none hexcause
  simp only [isPlain, Bool.and_eq_true, Bool.not_eq_true'] at hplain
  have hvalue := performAccess_of_plain hplain.2 hload haccess
  have htowrite : (memoryInterstage (executed cfg skipBreak prog s)
      (memAddress cfg (executed cfg skipBreak prog s) s).address
      (memoryAccess cfg (executed cfg skipBreak prog s) s).1 csr).1.towriteVal =
      if (prog s.regs.pc).flags.has .branchJalr || (prog s.regs.pc).flags.has .jump then
        s.regs.pc + 4
      else (executed cfg skipBreak prog s).aluVal := by
    rw [hresult, ← hvalue]
    show (if (prog s.regs.pc).flags.has .csr then 0
      else if (prog s.regs.pc).flags.has .branchJalr || (prog s.regs.pc).flags.has .jump then
        s.regs.pc + 4
      else value) = _
    rw [isZicsr] at hzicsr
    rw [hzicsr]
    rfl
  rw [htowrite, ← hnext]
  cases hjump : (prog s.regs.pc).flags.has .jump with
  | true =>
    have hjal : (executed cfg skipBreak prog s).branchJal = true := hjump
    rw [Bool.or_true, if_pos rfl, jal_aluVal hjump hnone, computeNextInstAddr, hjal, Bool.or_true,
      if_pos rfl]
  | false =>
    cases hjalr : (prog s.regs.pc).flags.has .branchJalr with
    | true =>
      have hbxx : (executed cfg skipBreak prog s).branchBxx = false :=
        jalr_not_branch hjalr
      have hjal : (executed cfg skipBreak prog s).branchJal = false := hjump
      have hjalr' : (executed cfg skipBreak prog s).branchJalr = true := hjalr
      rw [Bool.or_false, if_pos rfl, computeNextInstAddr, branchBxxTaken, hbxx, hjal, hjalr']
      exact RegisterValue.asXlen_asXlen cfg.xlen _
    | false => rfl

/-- The sequential machine executes an instruction without exception or CSR write and continues
at the predicted address. -/
def Flows (cfg : CoreConfig) (skipBreak : Bool) (prog : Program) (s : Core FlatMemory)
    (predicted : Address) (s' : Core FlatMemory) : Prop :=
  Settled cfg (prog s.regs.pc) ∧
    ∃ r s₁, memory cfg (Sequential.executed cfg skipBreak prog s) s = (.ok r, s₁) ∧
      r.1.excause = .none ∧ r.1.csrWritten = false ∧ r.1.computedNextInstAddr = predicted ∧
      (writeback r.1 s₁).writePc predicted = (.ok (), s')

namespace Flows

variable {s s' : Core FlatMemory} {predicted : Address}

theorem pc (h : Flows cfg skipBreak prog s predicted s') : s'.regs.pc = predicted := by
  obtain ⟨-, r, s₁, -, -, -, -, hpc⟩ := h
  obtain ⟨-, rfl⟩ := writePc_ok hpc
  rfl

theorem privilege (h : Flows cfg skipBreak prog s predicted s') :
    s'.currentPrivilege = s.currentPrivilege := by
  obtain ⟨-, r, s₁, hmemory, -, hcsr, -, hpc⟩ := h
  obtain ⟨-, rfl⟩ := writePc_ok hpc
  rw [← memory_privilege hmemory hcsr]
  unfold writeback
  split <;> rfl

theorem excause (h : Flows cfg skipBreak prog s predicted s') :
    (executed cfg skipBreak prog s).excause = .none := by
  obtain ⟨-, r, s₁, hmemory, hexcause, -⟩ := h
  exact (memory_interstage hmemory hexcause).1

variable (h : Flows cfg skipBreak prog s predicted s')
include h

/-- An instruction leaves the registers alone that it does not write. -/
theorem readGp_of_not_writes {reg : RegisterId} (hwrites : writesRegister (executed cfg
      skipBreak prog s).regwrite (executed cfg skipBreak prog s).numRd reg = false) :
    s'.regs.readGp reg = s.regs.readGp reg := by
  obtain ⟨-, r, s₁, hmemory, hexcause, -, -, hpc⟩ := h
  obtain ⟨-, rfl⟩ := writePc_ok hpc
  obtain ⟨-, hregwrite, hrd⟩ := memory_interstage hmemory hexcause
  have hread := writeback_readGp r.1 s₁ reg
  rwa [hregwrite, hrd, hwrites, memory_regs hmemory] at hread

/-- What the register holds that an instruction writes. -/
theorem readGp_of_writes {reg : RegisterId} (hwrites : writesRegister (executed cfg
      skipBreak prog s).regwrite (executed cfg skipBreak prog s).numRd reg = true) :
    ∃ r s₁, memory cfg (executed cfg skipBreak prog s) s = (.ok r, s₁) ∧
      r.1.excause = .none ∧ r.1.csrWritten = false ∧ r.1.computedNextInstAddr = predicted ∧
      s'.regs.readGp reg = r.1.towriteVal := by
  obtain ⟨-, r, s₁, hmemory, hexcause, hcsr, hnext, hpc⟩ := h
  refine ⟨r, s₁, hmemory, hexcause, hcsr, hnext, ?_⟩
  obtain ⟨-, rfl⟩ := writePc_ok hpc
  obtain ⟨-, hregwrite, hrd⟩ := memory_interstage hmemory hexcause
  have hread := writeback_readGp r.1 s₁ reg
  rwa [hregwrite, hrd, hwrites] at hread

end Flows

/-- The instruction in the execute stage leads from one state of the sequential machine to the
next; a bubble leads nowhere. -/
inductive Advances (cfg : CoreConfig) (skipBreak : Bool) (prog : Program)
    (exMem : ExecuteInterstage) (s : Core FlatMemory) : Core FlatMemory → Prop where
  | bubble (hwrites : ∀ reg, writesRegister exMem.regwrite exMem.numRd reg = false) :
      Advances cfg skipBreak prog exMem s s
  | flow {s' : Core FlatMemory} {predicted : Address}
      (hflow : Flows cfg skipBreak prog s predicted s')
      (hexec : ExecuteAgree cfg exMem (Sequential.executed cfg skipBreak prog s))
      (hzicsr : (prog s.regs.pc).isZicsr = false)
      (hpredicted : cfg.hazardUnit = .stallForward → predicted = s.regs.pc + 4) :
      Advances cfg skipBreak prog exMem s s'

variable {exMem : ExecuteInterstage} {s' : Core FlatMemory}

/-- An instruction that does not write a register leaves its value. -/
theorem Advances.readGp_of_not_writes (h : Advances cfg skipBreak prog exMem s s')
    {reg : RegisterId} (hwrites : writesRegister exMem.regwrite exMem.numRd reg = false) :
    s'.regs.readGp reg = s.regs.readGp reg := by
  cases h with
  | bubble => rfl
  | flow hflow hexec =>
    refine hflow.readGp_of_not_writes ?_
    rwa [hexec.fields] at hwrites

theorem Advances.privilege (h : Advances cfg skipBreak prog exMem s s') :
    s'.currentPrivilege = s.currentPrivilege := by
  cases h with
  | bubble => rfl
  | flow hflow => exact hflow.privilege

/-- The operand the hazard unit selects is the register of the sequential machine. -/
theorem operandValue_agree {memWb : MemoryInterstage} {req : Bool} {num : RegisterId}
    {c : Core FlatMemory} (hreq : req = false → num = 0)
    (hwriteback : ∀ reg, s.regs.readGp reg = (writeback memWb c).regs.readGp reg)
    (hadvance : Advances cfg skipBreak prog exMem s s')
    (hforward : Forwardable cfg.hazardUnit exMem req num) :
    OperandAgree cfg (operandValue exMem memWb req num (c.regs.readGp num))
      (s'.regs.readGp num) := by
  cases req with
  | false =>
    obtain rfl := hreq rfl
    exact .inl rfl
  | true =>
    cases hex : writesRegister exMem.regwrite exMem.numRd num with
    | false =>
      refine .inl ?_
      rw [hadvance.readGp_of_not_writes hex, hwriteback, writeback_readGp]
      simp only [operandValue, writesOperand, hex, Bool.true_and]
      rfl
    | true =>
      obtain ⟨hunit, hload⟩ := hforward (by simp only [writesOperand, hex, Bool.true_and])
      refine .inr ⟨hunit, ?_⟩
      simp only [operandValue, writesOperand, hex, Bool.true_and, if_true]
      cases hadvance with
      | bubble hwrites =>
        rw [hwrites] at hex
        cases hex
      | flow hflow hexec hzicsr hpredicted =>
        have hplain := hflow.1 hunit
        rw [hexec.fields] at hex hload ⊢
        obtain ⟨r, s₁, hmemory, hexcause, hcsr, hnext, hread⟩ := hflow.readGp_of_writes hex
        rw [hread]
        exact (towriteVal_forward hmemory hexcause hcsr
          (hnext.trans (hpredicted hunit)) hplain hzicsr hload).symm

end QtRvSim
