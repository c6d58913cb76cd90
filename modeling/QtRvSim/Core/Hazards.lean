import QtRvSim.Core.Step

/-!
# The hazard unit

What `handle_data_hazards` does to the two operands of the decoded instruction.  An operand is
written by a stage if the instruction needs it and the stage writes its register.  Without a stall
the operand is the value of the youngest stage that writes it.
-/

namespace QtRvSim

def writesRegister (regwrite : Bool) (numRd reg : RegisterId) : Bool :=
  regwrite && numRd != 0 && numRd == reg

/-- No stage writes `x0`. -/
theorem writesRegister_zero (regwrite : Bool) (numRd : RegisterId) :
    writesRegister regwrite numRd 0 = false := by
  by_cases hzero : numRd = 0
  · simp [writesRegister, hzero]
  · rw [writesRegister, beq_eq_false_iff_ne.mpr hzero, Bool.and_false]

/-- The register file after the write-back stage. -/
theorem Core.writeback_readGp {M : Type} (w : MemoryInterstage) (c : Core M) (reg : RegisterId) :
    (writeback w c).regs.readGp reg =
      if writesRegister w.regwrite w.numRd reg then w.towriteVal else c.regs.readGp reg := by
  have hiff : (reg = w.numRd ∧ w.numRd ≠ 0) ↔ (w.numRd != 0 && w.numRd == reg) = true := by
    simp only [bne_iff_ne, Bool.and_eq_true, beq_iff_eq]
    exact ⟨fun h => ⟨h.2, h.1.symm⟩, fun h => ⟨h.2.symm, h.1⟩⟩
  cases hregwrite : w.regwrite with
  | false => simp [writeback, writesRegister, hregwrite]
  | true =>
    simp only [writeback, writesRegister, hregwrite, if_true, Registers.readGp_writeGp, hiff,
      Bool.true_and]

namespace CorePipelined

def writesOperand (regwrite : Bool) (numRd : RegisterId) (req : Bool) (num : RegisterId) : Bool :=
  req && writesRegister regwrite numRd num

/-- The operand value of the youngest stage that writes it. -/
def operandValue (exMem : ExecuteInterstage) (memWb : MemoryInterstage) (req : Bool)
    (num : RegisterId) (value : RegisterValue) : RegisterValue :=
  if writesOperand exMem.regwrite exMem.numRd req num then exMem.aluVal
  else if writesOperand memWb.regwrite memWb.numRd req num then memWb.towriteVal
  else value

theorem isHazardInStage_eq (regwrite : Bool) (numRd : RegisterId) (idEx : DecodeInterstage) :
    isHazardInStage regwrite numRd idEx =
      (writesOperand regwrite numRd idEx.aluReqRs idEx.numRs ||
        writesOperand regwrite numRd idEx.aluReqRt idEx.numRt) := by
  simp only [isHazardInStage, writesOperand, writesRegister]
  cases regwrite && numRd != 0 <;> simp

def withOperands (idEx : DecodeInterstage) (valRs valRt : RegisterValue)
    (ffRs ffRt : ForwardFrom) : DecodeInterstage :=
  { idEx with valRs := valRs, valRt := valRt, ffRs := ffRs, ffRt := ffRt }

/-- Forwarding changes the operands only. -/
theorem forwardOperands_eq (numRd : RegisterId) (value : RegisterValue) (from_ : ForwardFrom)
    (idEx : DecodeInterstage) :
    forwardOperands numRd value from_ idEx =
      withOperands idEx
        (if idEx.aluReqRs && numRd == idEx.numRs then value else idEx.valRs)
        (if idEx.aluReqRt && numRd == idEx.numRt then value else idEx.valRt)
        (if idEx.aluReqRs && numRd == idEx.numRs then from_ else idEx.ffRs)
        (if idEx.aluReqRt && numRd == idEx.numRt then from_ else idEx.ffRt) := by
  cases hrs : (idEx.aluReqRs && numRd == idEx.numRs) <;>
    cases hrt : (idEx.aluReqRt && numRd == idEx.numRt) <;>
    simp [forwardOperands, withOperands, hrs, hrt]

def operandSource (exMem : ExecuteInterstage) (memWb : MemoryInterstage) (req : Bool)
    (num : RegisterId) (source : ForwardFrom) : ForwardFrom :=
  if writesOperand exMem.regwrite exMem.numRd req num then .fromM
  else if writesOperand memWb.regwrite memWb.numRd req num then .fromW
  else source

/-- Forwarding from a stage, whether or not it is a hazard. -/
def forwardStage (regwrite : Bool) (numRd : RegisterId) (value : RegisterValue)
    (from_ : ForwardFrom) (idEx : DecodeInterstage) : DecodeInterstage :=
  withOperands idEx
    (if writesOperand regwrite numRd idEx.aluReqRs idEx.numRs then value else idEx.valRs)
    (if writesOperand regwrite numRd idEx.aluReqRt idEx.numRt then value else idEx.valRt)
    (if writesOperand regwrite numRd idEx.aluReqRs idEx.numRs then from_ else idEx.ffRs)
    (if writesOperand regwrite numRd idEx.aluReqRt idEx.numRt then from_ else idEx.ffRt)

theorem forwardStage_of_hazard {regwrite : Bool} {numRd : RegisterId} {idEx : DecodeInterstage}
    (hhazard : isHazardInStage regwrite numRd idEx = true) (value : RegisterValue)
    (from_ : ForwardFrom) :
    forwardOperands numRd value from_ idEx = forwardStage regwrite numRd value from_ idEx := by
  have hwrites : (regwrite && numRd != 0) = true := by
    simp only [isHazardInStage, Bool.and_eq_true] at hhazard ⊢
    exact hhazard.1
  simp only [forwardOperands_eq, forwardStage, writesOperand, writesRegister, hwrites,
    Bool.true_and]

theorem forwardStage_of_no_hazard {regwrite : Bool} {numRd : RegisterId}
    {idEx : DecodeInterstage} (hhazard : isHazardInStage regwrite numRd idEx = false)
    (value : RegisterValue) (from_ : ForwardFrom) :
    forwardStage regwrite numRd value from_ idEx = idEx := by
  rw [isHazardInStage_eq, Bool.or_eq_false_iff] at hhazard
  simp only [forwardStage, hhazard.1, hhazard.2]
  rfl

/-- The stalling unit asks for a stall at every hazard and changes nothing. -/
theorem handleDataHazards_stall (p : Pipeline) :
    handleDataHazards .stall p =
      (isHazardInStage p.memWb.regwrite p.memWb.numRd p.idEx ||
        isHazardInStage p.exMem.regwrite p.exMem.numRd p.idEx, p.idEx) := by
  cases hmem : isHazardInStage p.memWb.regwrite p.memWb.numRd p.idEx <;>
    cases hex : isHazardInStage p.exMem.regwrite p.exMem.numRd p.idEx <;>
    simp [handleDataHazards, hmem, hex]

/-- The forwarding unit asks for a stall behind a load and else forwards the youngest value. -/
theorem handleDataHazards_forward (p : Pipeline) :
    handleDataHazards .stallForward p =
      if isHazardInStage p.exMem.regwrite p.exMem.numRd p.idEx && p.exMem.memread then
        (true, forwardStage p.memWb.regwrite p.memWb.numRd p.memWb.towriteVal .fromW p.idEx)
      else
        (false, withOperands p.idEx
          (operandValue p.exMem p.memWb p.idEx.aluReqRs p.idEx.numRs p.idEx.valRs)
          (operandValue p.exMem p.memWb p.idEx.aluReqRt p.idEx.numRt p.idEx.valRt)
          (operandSource p.exMem p.memWb p.idEx.aluReqRs p.idEx.numRs p.idEx.ffRs)
          (operandSource p.exMem p.memWb p.idEx.aluReqRt p.idEx.numRt p.idEx.ffRt)) := by
  -- the first stage is forwarded in both cases
  have hfirst :
      (if isHazardInStage p.memWb.regwrite p.memWb.numRd p.idEx then
          (false, forwardOperands p.memWb.numRd p.memWb.towriteVal .fromW p.idEx)
        else (false, p.idEx)) =
      (false, forwardStage p.memWb.regwrite p.memWb.numRd p.memWb.towriteVal .fromW p.idEx) := by
    cases hmem : isHazardInStage p.memWb.regwrite p.memWb.numRd p.idEx
    · rw [forwardStage_of_no_hazard hmem]
      rfl
    · rw [← forwardStage_of_hazard hmem]
      rfl
  have hsecond :
      isHazardInStage p.exMem.regwrite p.exMem.numRd
        (forwardStage p.memWb.regwrite p.memWb.numRd p.memWb.towriteVal .fromW p.idEx) =
      isHazardInStage p.exMem.regwrite p.exMem.numRd p.idEx := rfl
  have hboth (hhazard : Bool)
      (hex : isHazardInStage p.exMem.regwrite p.exMem.numRd p.idEx = hhazard) :
      (if hhazard then
          forwardOperands p.exMem.numRd p.exMem.aluVal .fromM
            (forwardStage p.memWb.regwrite p.memWb.numRd p.memWb.towriteVal .fromW p.idEx)
        else forwardStage p.memWb.regwrite p.memWb.numRd p.memWb.towriteVal .fromW p.idEx) =
      forwardStage p.exMem.regwrite p.exMem.numRd p.exMem.aluVal .fromM
        (forwardStage p.memWb.regwrite p.memWb.numRd p.memWb.towriteVal .fromW p.idEx) := by
    cases hhazard
    · exact (forwardStage_of_no_hazard (hsecond.trans hex) _ _).symm
    · exact forwardStage_of_hazard (hsecond.trans hex) _ _
  simp only [handleDataHazards, if_true, hfirst, hsecond]
  cases hex : isHazardInStage p.exMem.regwrite p.exMem.numRd p.idEx
  · exact congrArg (Prod.mk false) (hboth false hex)
  · cases hload : p.exMem.memread
    · exact congrArg (Prod.mk false) (hboth true hex)
    · rfl

/-- The unit changes nothing but the operands. -/
theorem handleDataHazards_fields {hazardUnit : HazardUnit} (hunit : hazardUnit ≠ .none)
    (p : Pipeline) :
    ∃ valRs valRt ffRs ffRt,
      (handleDataHazards hazardUnit p).2 = withOperands p.idEx valRs valRt ffRs ffRt := by
  cases hazardUnit with
  | none => exact absurd rfl hunit
  | stall =>
    rw [handleDataHazards_stall]
    exact ⟨_, _, _, _, rfl⟩
  | stallForward =>
    rw [handleDataHazards_forward]
    split <;> exact ⟨_, _, _, _, rfl⟩

/-- The execute stage writes the operand only if its value can be forwarded. -/
def Forwardable (hazardUnit : HazardUnit) (exMem : ExecuteInterstage) (req : Bool)
    (num : RegisterId) : Prop :=
  writesOperand exMem.regwrite exMem.numRd req num = true →
    hazardUnit = .stallForward ∧ exMem.memread = false

/-- Without a stall both operands are those of the youngest stage that writes them. -/
theorem handleDataHazards_operands {hazardUnit : HazardUnit} (hunit : hazardUnit ≠ .none)
    {p : Pipeline} (hstall : (handleDataHazards hazardUnit p).1 = false) :
    (∃ ffRs ffRt, (handleDataHazards hazardUnit p).2 = withOperands p.idEx
      (operandValue p.exMem p.memWb p.idEx.aluReqRs p.idEx.numRs p.idEx.valRs)
      (operandValue p.exMem p.memWb p.idEx.aluReqRt p.idEx.numRt p.idEx.valRt) ffRs ffRt) ∧
    Forwardable hazardUnit p.exMem p.idEx.aluReqRs p.idEx.numRs ∧
    Forwardable hazardUnit p.exMem p.idEx.aluReqRt p.idEx.numRt := by
  cases hazardUnit with
  | none => exact absurd rfl hunit
  | stall =>
    rw [handleDataHazards_stall, Bool.or_eq_false_iff, isHazardInStage_eq,
      isHazardInStage_eq, Bool.or_eq_false_iff, Bool.or_eq_false_iff] at hstall
    obtain ⟨⟨hmemRs, hmemRt⟩, hexRs, hexRt⟩ := hstall
    refine ⟨⟨p.idEx.ffRs, p.idEx.ffRt, ?_⟩, ?_, ?_⟩
    · simp only [handleDataHazards_stall, operandValue, hexRs, hexRt, hmemRs, hmemRt]
      rfl
    · simp [Forwardable, hexRs]
    · simp [Forwardable, hexRt]
  | stallForward =>
    rw [handleDataHazards_forward] at hstall ⊢
    cases hload : (isHazardInStage p.exMem.regwrite p.exMem.numRd p.idEx && p.exMem.memread) with
    | true =>
      rw [hload] at hstall
      cases hstall
    | false =>
      refine ⟨⟨_, _, rfl⟩, ?_, ?_⟩
      all_goals
        intro hwrites
        rw [isHazardInStage_eq, hwrites] at hload
        simpa using hload

end CorePipelined

end QtRvSim
