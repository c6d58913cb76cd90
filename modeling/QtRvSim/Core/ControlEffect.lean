import QtRvSim.Core.TrapCall

/-!
# What a step does to the CSRs and to the privilege

Fetching counts a cycle.  The memory stage counts an instruction, writes a CSR or returns from a
trap.  The exception entry records a trap in the CSRs of its target mode and may enter it.  Nothing
else in a step touches the CSR file or the privilege level.
-/

namespace QtRvSim

open Csr ControlState CoreConfig CorePipelined

variable {M : Type} [FrontendMemory M] {cfg : CoreConfig}

namespace Core

def cycleCounted (cfg : CoreConfig) (cs : ControlState) : ControlState :=
  (cs.incrementInternal cfg.xlen .mcycle 1).1

def instructionCounted (cfg : CoreConfig) (cs : ControlState) : ControlState :=
  (cs.incrementInternal cfg.xlen .minstret 1).1

section

variable (cfg : CoreConfig)

theorem fetch_control (pc : PCInterstage) (skipBreak : Bool) (c : Core M) :
    (fetch cfg pc skipBreak c).2.controlState =
        (if pc.stopIf then c.controlState else cycleCounted cfg c.controlState) ∧
      (fetch cfg pc skipBreak c).2.currentPrivilege = c.currentPrivilege := by
  unfold fetch
  split <;> exact ⟨rfl, rfl⟩

/-- A fetched instruction carries a break point, a page fault or the interrupt the CSR file asks
for. -/
theorem fetch_excause (pc : PCInterstage) (skipBreak : Bool) (c : Core M) :
    (fetch cfg pc skipBreak c).1.excause ∈ [ExceptionCause.none, .hwbreak, .insnPageFault] ∨
      (fetch cfg pc skipBreak c).1.excause =
        (fetch cfg pc skipBreak c).2.controlState.coreInterruptRequest
          (fetch cfg pc skipBreak c).2.currentPrivilege := by
  have hchoice (e request : ExceptionCause)
      (he : e ∈ [ExceptionCause.none, .hwbreak, .insnPageFault]) :
      (if e = .none then request else e) ∈ [ExceptionCause.none, .hwbreak, .insnPageFault] ∨
        (if e = .none then request else e) = request := by
    split
    · exact .inr rfl
    · exact .inl he
  unfold fetch
  split
  · exact .inl List.mem_cons_self
  · apply hchoice
    split
    · simp
    · split <;> simp

theorem fetch_excause_mem (pc : PCInterstage) (skipBreak : Bool) (c : Core M) :
    (fetch cfg pc skipBreak c).1.excause ∈
      [ExceptionCause.none, .hwbreak, .insnPageFault, .intM, .intS] := by
  have hrequest : ∀ (cs : ControlState) (privilege : PrivilegeLevel),
      cs.coreInterruptRequest privilege ∈ [ExceptionCause.none, .intM, .intS] := by
    intro cs privilege
    unfold ControlState.coreInterruptRequest
    dsimp only
    split
    · simp
    · split <;> simp
  rcases fetch_excause cfg pc skipBreak c with hplain | hinterrupt
  · revert hplain
    simp only [List.mem_cons]
    tauto
  · rw [hinterrupt]
    have := hrequest (fetch cfg pc skipBreak c).2.controlState
      (fetch cfg pc skipBreak c).2.currentPrivilege
    revert this
    simp only [List.mem_cons]
    tauto

/-- Decoding keeps the exception of the fetch or attaches one of its own. -/
theorem decodeExcause_cases (flags : InstructionFlags) (excause : ExceptionCause)
    (privilege : PrivilegeLevel) :
    decodeExcause cfg flags excause privilege = excause ∨
      decodeExcause cfg flags excause privilege ∈
        [ExceptionCause.insnIllegal, .break, .ecallU, .ecallS, .ecallM] := by
  unfold decodeExcause
  dsimp only
  by_cases hflags :
      (flags ^^^ checkInstFlagsVal) &&& cfg.checkInstFlagsMask privilege ≠ 0
  · rw [if_pos hflags, if_neg (by simp)]
    exact .inr (by decide)
  · rw [if_neg hflags]
    split
    next =>
      split
      · exact .inr (by decide)
      split
      · cases privilege <;> exact .inr (by decide)
      · exact .inl rfl
    next => exact .inl rfl

end

theorem decodeExcause_illegal {flags : InstructionFlags} {privilege : PrivilegeLevel}
    (hillegal : (flags ^^^ checkInstFlagsVal) &&& cfg.checkInstFlagsMask privilege ≠ 0)
    (excause : ExceptionCause) : decodeExcause cfg flags excause privilege = .insnIllegal := by
  simp only [decodeExcause, if_pos hillegal]
  simp

/-- A legal instruction has none of the flags that the core forbids. -/
theorem has_eq_false_of_legal {flags mask f : InstructionFlags}
    (hlegal : (flags ^^^ checkInstFlagsVal) &&& mask = 0) (hmask : f &&& mask = f)
    (hval : checkInstFlagsVal &&& f = 0) : flags.has f = false := by
  have hzero : flags &&& f = 0 := by
    rw [← hmask]
    ext i hi
    have hlegalBit := congrArg (fun v : BitVec 32 => v.getLsbD i) hlegal
    have hvalBit := congrArg (fun v : BitVec 32 => v.getLsbD i) hval
    simp only [BitVec.getLsbD_and, BitVec.getLsbD_xor, BitVec.ofNat_eq_ofNat,
      BitVec.getLsbD_zero] at hlegalBit hvalBit
    simp only [← BitVec.getLsbD_eq_getElem, BitVec.getLsbD_and, BitVec.ofNat_eq_ofNat,
      BitVec.getLsbD_zero]
    revert hlegalBit hvalBit
    cases flags.getLsbD i <;> cases checkInstFlagsVal.getLsbD i <;>
      cases BitVec.getLsbD mask i <;> cases BitVec.getLsbD f i <;> simp
  rw [InstructionFlags.has, hzero]
  rfl

/-- The instruction of an empty stage register is legal everywhere. -/
theorem decodeExcause_nop (cfg : CoreConfig) (privilege : PrivilegeLevel) :
    decodeExcause cfg Instruction.nop.flags .none privilege = .none := by
  have hflags : Instruction.nop.flags = InstructionMap.flagsAluI := by decide
  have hmask : (InstructionMap.flagsAluI ^^^ checkInstFlagsVal) &&&
      cfg.checkInstFlagsMask privilege = 0 := by
    unfold checkInstFlagsMask unsupportedInstFlagsToCheck
    generalize cfg.isaWord.contains 'A' = a
    generalize cfg.isaWord.contains 'M' = m
    cases cfg.xlen <;> cases a <;> cases m <;> cases privilege <;> decide
  have hexception : InstructionMap.flagsAluI.has .exception = false := by decide
  simp only [decodeExcause, hflags, if_neg (not_not.mpr hmask), hexception, Bool.false_and]
  rfl

omit [FrontendMemory M] in
/-- What a decode stage that does not throw returns. -/
theorem decode_ok {dt : FetchInterstage} {c : Core M} {d : DecodeInterstage}
    (h : decode cfg dt c = .ok d) :
    ∃ csrReadVal, decodeCsrRead dt.inst c = .ok csrReadVal ∧
      d = decodeInterstage cfg dt c.currentPrivilege (decodeValRs dt.inst c.regs)
        (c.regs.readGp (decodeNumRt dt.inst)) csrReadVal := by
  unfold decode at h
  split at h
  next => cases h
  next csrReadVal hread =>
    cases h
    exact ⟨csrReadVal, hread, rfl⟩

section

omit [FrontendMemory M]

theorem writeback_control (w : MemoryInterstage) (c : Core M) :
    (writeback w c).controlState = c.controlState ∧
      (writeback w c).currentPrivilege = c.currentPrivilege := by
  unfold writeback
  split <;> exact ⟨rfl, rfl⟩

theorem writePc_ok_control {address : Address} {c c' : Core M}
    (h : c.writePc address = (.ok (), c')) :
    c'.controlState = c.controlState ∧ c'.currentPrivilege = c.currentPrivilege := by
  obtain ⟨haligned, rfl⟩ := writePc_ok h
  exact ⟨rfl, rfl⟩

end

inductive WriteEffect (cfg : CoreConfig) (dt : ExecuteInterstage) (privilege : PrivilegeLevel)
    (cs : ControlState) : Bool → ControlState → Prop where
  | skip (hcsr : dt.csrWrite = false) : WriteEffect cfg dt privilege cs false cs
  | write (hcsr : dt.csrWrite = true) {u : CsrUpdate}
      (hwrite : cs.write cfg.xlen dt.csrAddress dt.aluVal privilege = .ok u) :
      WriteEffect cfg dt privilege cs true u.1

/-- What the memory stage does to the CSR file and to the privilege.  The flag tells whether the
stage reports a CSR write. -/
inductive MemoryEffect (cfg : CoreConfig) (dt : ExecuteInterstage) (cs : ControlState)
    (privilege : PrivilegeLevel) : Bool → ControlState → PrivilegeLevel → Prop where
  | idle (hidle : ¬(dt.isValid && dt.excause = .none)) :
      MemoryEffect cfg dt cs privilege false cs privilege
  | count (hexcause : dt.excause = .none) (hxret : dt.xret = false) {written : Bool}
      {cs₁ : ControlState}
      (hwrite : WriteEffect cfg dt privilege (instructionCounted cfg cs) written cs₁) :
      MemoryEffect cfg dt cs privilege written cs₁ privilege
  | xret (hexcause : dt.excause = .none) (hxret : dt.xret = true) {written : Bool}
      {cs₁ : ControlState}
      (hwrite : WriteEffect cfg dt privilege (instructionCounted cfg cs) written cs₁) :
      MemoryEffect cfg dt cs privilege true
        (cs₁.exceptionReturn cfg.xlen privilege dt.xretPrivlev).2.1
        (cs₁.exceptionReturn cfg.xlen privilege dt.xretPrivlev).1

variable {dt : ExecuteInterstage} {c c' : Core M}

theorem memoryCsrWrite_effect {written : Bool} (h : memoryCsrWrite cfg dt c = (.ok written, c')) :
    WriteEffect cfg dt c.currentPrivilege c.controlState written c'.controlState ∧
      c'.currentPrivilege = c.currentPrivilege := by
  unfold memoryCsrWrite at h
  split at h
  next hcsr =>
    split at h
    next u hwrite =>
      cases h
      exact ⟨.write hcsr hwrite, rfl⟩
    next => cases h
  next hcsr =>
    cases h
    exact ⟨.skip (Bool.eq_false_iff.mpr hcsr), rfl⟩

theorem memoryCsr_effect {next : Address} {csr : CsrResult}
    (h : memoryCsr cfg dt next c = (.ok csr, c')) :
    MemoryEffect cfg dt c.controlState c.currentPrivilege csr.csrWritten c'.controlState
      c'.currentPrivilege := by
  unfold memoryCsr at h
  split at h
  next hvalid =>
    have hexcause : dt.excause = .none := by simp_all
    dsimp only at h
    split at h
    next => cases h
    next written c₁ hcsrWrite =>
      obtain ⟨hwrite, hprivilege⟩ := memoryCsrWrite_effect hcsrWrite
      split at h
      next hxret =>
        cases h
        have heffect := MemoryEffect.xret hexcause hxret hwrite
        simp only [memoryXret, hprivilege]
        exact heffect
      next hxret =>
        cases h
        rw [hprivilege]
        exact .count hexcause (Bool.eq_false_iff.mpr hxret) hwrite
  next hidle =>
    cases h
    exact .idle hidle

omit [FrontendMemory M] in
theorem countMisprediction_control (computed predicted : Address) (c : Core M) :
    (countMisprediction computed predicted c).controlState = c.controlState := by
  unfold countMisprediction
  split <;> rfl

/-- The effect of a memory stage that does not throw. -/
theorem memory_effect {r : MemoryInterstage × MemoryInternalState}
    (h : memory cfg dt c = (.ok r, c')) :
    MemoryEffect cfg dt c.controlState c.currentPrivilege r.1.csrWritten c'.controlState
      c'.currentPrivilege := by
  obtain ⟨csr, c₁, hcsr, rfl, rfl⟩ := memory_ok h
  have heffect := memoryCsr_effect hcsr
  have hframe := AccessFrame.memoryAccess cfg dt c
  rw [memoryAccessed_privilege] at heffect
  rw [countMisprediction_control, countMisprediction_privilege]
  simp only [memoryAccessed, hframe.controlState] at heffect
  exact heffect

/-- A memory stage that throws has counted the instruction and done nothing else to the CSRs. -/
theorem memory_error_control {e : SimulatorException} (h : memory cfg dt c = (.error e, c')) :
    c'.controlState = instructionCounted cfg c.controlState ∧
      c'.currentPrivilege = c.currentPrivilege := by
  have hframe := AccessFrame.memoryAccess cfg dt c
  unfold memory at h
  dsimp only at h
  split at h
  next c₁ hcsr =>
    cases h
    unfold memoryCsr at hcsr
    split at hcsr
    · dsimp only at hcsr
      split at hcsr
      next c₂ hwrite =>
        cases hcsr
        unfold memoryCsrWrite at hwrite
        split at hwrite
        · split at hwrite
          · cases hwrite
          · cases hwrite
            refine ⟨?_, hframe.privilege⟩
            rw [instructionCounted, ← hframe.controlState]
            rfl
        · cases hwrite
      next =>
        split at hcsr <;> cases hcsr
    · cases hcsr
  next => cases h

/-! ### Exception entry -/

def targetPriv (toS : Bool) : PrivilegeLevel := if toS then .supervisor else .machine

def tvecId (toS : Bool) : Csr.Id := if toS then .stvec else .mtvec

/-- The target mode has a handler and the cause is not stepped over. -/
def entersTrap (cfg : CoreConfig) (excause : ExceptionCause) (toS : Bool) (cs : ControlState) :
    Prop :=
  cs.readInternal (tvecId toS) ≠ 0 ∧ cfg.stepOverException excause = false

instance (cfg : CoreConfig) (excause : ExceptionCause) (toS : Bool) (cs : ControlState) :
    Decidable (entersTrap cfg excause toS cs) :=
  inferInstanceAs (Decidable (_ ∧ _))

/-- A trap is recorded in the registers epc, tval and cause only. -/
theorem trapCsrUpdate_frame (excause : ExceptionCause) (instAddr memRefAddr : Address)
    (originPriv : PrivilegeLevel) (toS : Bool) (cs : ControlState) {other : Csr.Id}
    (hother : other ∉ [Id.mepc, .sepc, .mtval, .stval, .mcause, .scause]) :
    (trapCsrUpdate cfg excause instAddr memRefAddr originPriv toS cs).1.registerData other =
      cs.registerData other := by
  simp only [List.mem_cons, List.not_mem_nil, or_false, not_or] at hother
  obtain ⟨hmepc, hsepc, hmtval, hstval, hmcause, hscause⟩ := hother
  have hwrite (id : Csr.Id) (value : RegisterValue) (cs : ControlState)
      (hid : (registers id).writeHandler = .defaultWlrl) (hne : other ≠ id) :
      (cs.runWriteHandler cfg.xlen id value).1.registerData other = cs.registerData other := by
    simp [runWriteHandler, hid, hne]
  simp only [trapCsrUpdate, andThen_fst, writeInternal_fst]
  rw [updateExceptionCause_frame _ _ hmcause hscause]
  cases toS with
  | true =>
    rw [hwrite _ _ _ rfl (by simpa using hstval), hwrite _ _ _ rfl (by simpa using hsepc)]
  | false =>
    rw [hwrite _ _ _ rfl (by simpa using hmtval), hwrite _ _ _ rfl (by simpa using hmepc)]

/-- Recording a trap leaves the trap vector. -/
theorem entersTrap_recorded (excause excause' : ExceptionCause) (instAddr memRefAddr : Address)
    (originPriv : PrivilegeLevel) (toS toS' : Bool) (cs : ControlState) :
    entersTrap cfg excause' toS'
        (trapCsrUpdate cfg excause instAddr memRefAddr originPriv toS cs).1 ↔
      entersTrap cfg excause' toS' cs := by
  unfold entersTrap readInternal
  rw [trapCsrUpdate_frame]
  cases toS' <;> decide

variable {excause : ExceptionCause}

theorem enterTrap_of_enters {toS : Bool} (henters : entersTrap cfg excause toS c.controlState) :
    enterTrap cfg excause toS c =
      ((c.updateCsr (c.controlState.exceptionInitiate cfg.xlen c.currentPrivilege
          (targetPriv toS))).setCurrentPrivilege (targetPriv toS)).writePc
        (c.controlState.registerData (tvecId toS)) := by
  have htvec : (c.controlState.exceptionInitiate cfg.xlen c.currentPrivilege
      (targetPriv toS)).1.exceptionPcAddress (targetPriv toS) =
      c.controlState.registerData (tvecId toS) := by
    cases toS with
    | true | false => exact exceptionInitiate_frame _ _ (by decide) (by decide) (by decide)
  rw [← htvec]
  exact if_pos henters

theorem enterTrap_of_not_enters {toS : Bool} (henters : ¬entersTrap cfg excause toS c.controlState)
    : enterTrap cfg excause toS c = (.ok (), c) :=
  if_neg henters

/-- The CSR file after a trap has been recorded and, if it is, entered. -/
def trapped (cfg : CoreConfig) (excause : ExceptionCause) (instAddr memRefAddr : Address)
    (privilege : PrivilegeLevel) (cs : ControlState) : ControlState :=
  let toS := deliverToS excause privilege cs
  let cs₁ := (trapCsrUpdate cfg excause instAddr memRefAddr privilege toS cs).1
  if entersTrap cfg excause toS cs then
    (cs₁.exceptionInitiate cfg.xlen privilege (targetPriv toS)).1
  else cs₁

def trappedPriv (cfg : CoreConfig) (excause : ExceptionCause) (privilege : PrivilegeLevel)
    (cs : ControlState) : PrivilegeLevel :=
  let toS := deliverToS excause privilege cs
  if entersTrap cfg excause toS cs then targetPriv toS else privilege

def trappedPc (cfg : CoreConfig) (excause : ExceptionCause) (pc : Address)
    (privilege : PrivilegeLevel) (cs : ControlState) : Address :=
  let toS := deliverToS excause privilege cs
  if entersTrap cfg excause toS cs then cs.registerData (tvecId toS) else pc

/-- Delivering an exception records a trap; the program counter is the vector if it can be. -/
theorem deliverException_effect (excause : ExceptionCause) (instAddr memRefAddr : Address)
    (c : Core M) :
    ∃ result regs mem, deliverException cfg excause instAddr memRefAddr c =
        (result, { c with
          regs := regs
          mem := mem
          controlState := trapped cfg excause instAddr memRefAddr c.currentPrivilege c.controlState
          currentPrivilege := trappedPriv cfg excause c.currentPrivilege c.controlState
          loadReservedRange := .empty }) ∧
      (result.isOk = true →
        regs.pc = trappedPc cfg excause c.regs.pc c.currentPrivilege c.controlState) := by
  have hrecorded := @entersTrap_recorded cfg excause excause instAddr memRefAddr
    c.currentPrivilege (deliverToS excause c.currentPrivilege c.controlState)
    (deliverToS excause c.currentPrivilege c.controlState) c.controlState
  unfold deliverException trapped trappedPriv trappedPc
  by_cases henters : entersTrap cfg excause
      (deliverToS excause c.currentPrivilege c.controlState) c.controlState
  · simp only [if_pos henters]
    rw [enterTrap_of_enters (hrecorded.mpr henters)]
    dsimp only [recordTrap, updateCsr]
    rw [trapCsrUpdate_frame _ _ _ _ _ _ (by
      cases deliverToS excause c.currentPrivilege c.controlState <;> decide)]
    by_cases haligned : (c.controlState.registerData (tvecId
        (deliverToS excause c.currentPrivilege c.controlState))).toNat % 4 = 0
    · rw [writePc_of_aligned _ haligned]
      exact ⟨_, _, _, rfl, fun _ => rfl⟩
    · rw [writePc_of_unaligned _ haligned]
      exact ⟨_, _, _, rfl, nofun⟩
  · simp only [if_neg henters]
    rw [enterTrap_of_not_enters (mt hrecorded.mp henters)]
    exact ⟨_, _, _, rfl, fun _ => rfl⟩

/-- The exception is handed on to a mode: an illegal instruction ends the run, and a break point may
stop the machine instead. -/
def delivers (cfg : CoreConfig) (excause : ExceptionCause) : Bool :=
  excause != .insnIllegal && !(excause == .hwbreak && cfg.stopOnException .hwbreak)

/-- What the exception entry does: it throws, it stops at a break point, or it records a trap. -/
inductive EntryEffect (cfg : CoreConfig) (excause : ExceptionCause) (instAddr memRefAddr : Address)
    (c : Core M) : Outcome (Core M) Bool → Prop where
  | thrown (e : SimulatorException) (hcause : excause = .insnIllegal ∨ excause = .hwbreak) :
      EntryEffect cfg excause instAddr memRefAddr c (.error e, c)
  | stopped (hdelivers : delivers cfg excause = false) {regs : Registers}
      (hpc : regs.pc = instAddr) :
      EntryEffect cfg excause instAddr memRefAddr c (.ok true, { c with regs := regs })
  | delivered (hdelivers : delivers cfg excause = true)
      (result : Except SimulatorException Bool) {regs : Registers} (mem : M)
      (hpc : result.isOk = true → regs.pc = trappedPc cfg excause
        (if excause = .hwbreak then instAddr else c.regs.pc) c.currentPrivilege c.controlState) :
      EntryEffect cfg excause instAddr memRefAddr c (result, { c with
        regs := regs
        mem := mem
        controlState := trapped cfg excause instAddr memRefAddr c.currentPrivilege c.controlState
        currentPrivilege := trappedPriv cfg excause c.currentPrivilege c.controlState
        loadReservedRange := .empty })

theorem handleException_effect (excause : ExceptionCause) (inst : Instruction)
    (instAddr next jump memRefAddr : Address) (c : Core M) :
    EntryEffect cfg excause instAddr memRefAddr c
      (handleException cfg excause inst instAddr next jump memRefAddr c) := by
  unfold handleException
  by_cases hillegal : excause = .insnIllegal
  · rw [if_pos hillegal]
    exact .thrown _ (.inl hillegal)
  rw [if_neg hillegal]
  by_cases hbreak : excause = .hwbreak
  · rw [if_pos hbreak]
    by_cases haligned : instAddr.toNat % 4 = 0
    · rw [writePc_of_aligned _ haligned]
      dsimp only
      split
      next hstop => exact .stopped (by simp [delivers, hbreak, hbreak ▸ hstop]) rfl
      next hstop =>
        obtain ⟨result, regs, mem, heffect, hpc⟩ := @deliverException_effect M _ cfg excause
          instAddr memRefAddr
          { c with regs := { c.regs with pc := instAddr, pcAligned := haligned } }
        rw [heffect]
        refine .delivered ?_ result mem (by rw [if_pos hbreak]; exact hpc)
        subst hbreak
        simpa [delivers] using hstop
    · rw [writePc_of_unaligned _ haligned]
      exact .thrown _ (.inr hbreak)
  · obtain ⟨result, regs, mem, heffect, hpc⟩ :=
      @deliverException_effect M _ cfg excause instAddr memRefAddr c
    rw [if_neg hbreak, heffect]
    exact .delivered (by simp [delivers, hillegal, hbreak]) result mem
      (by rw [if_neg hbreak]; exact hpc)

/-- The program counter behind the exception entry: nothing is written, or the address of the
instruction, or the trap vector. -/
theorem handleException_pc {inst : Instruction} {instAddr next jump memRefAddr : Address}
    {c c' : Core M} {stop : Bool}
    (h : handleException cfg excause inst instAddr next jump memRefAddr c = (.ok stop, c')) :
    c'.regs.pc = c.regs.pc ∨ c'.regs.pc = instAddr ∨
      ∃ toS, c'.regs.pc = c.controlState.registerData (tvecId toS) := by
  have heffect := @handleException_effect M _ cfg excause inst instAddr next jump memRefAddr c
  rw [h] at heffect
  cases heffect with
  | stopped _ hpc => exact .inr (.inl hpc)
  | delivered _ _ _ hpc =>
    rw [hpc rfl, trappedPc]
    split
    · exact .inr (.inr ⟨_, rfl⟩)
    · split
      · exact .inr (.inl rfl)
      · exact .inl rfl

end Core

/-! ### Steps -/

open Core

theorem TrapCall.handle_effect (t : TrapCall M) :
    EntryEffect cfg t.excause t.instAddr t.memRefAddr t.core (t.handle cfg) :=
  handleException_effect _ _ _ _ _ _ _

/-- A trap other than an illegal instruction or a break point is always recorded. -/
theorem TrapCall.handle_deliver {t : TrapCall M} (hillegal : t.excause ≠ .insnIllegal)
    (hbreak : t.excause ≠ .hwbreak) :
    (t.handle cfg).2.controlState = trapped cfg t.excause t.instAddr t.memRefAddr
        t.core.currentPrivilege t.core.controlState ∧
      ((t.handle cfg).1.isOk = true → (t.handle cfg).2.regs.pc =
        trappedPc cfg t.excause t.core.regs.pc t.core.currentPrivilege t.core.controlState) := by
  have heffect := @handle_effect M _ cfg t
  generalize t.handle cfg = outcome at heffect ⊢
  cases heffect with
  | thrown _ hcause => exact absurd hcause (not_or.mpr ⟨hillegal, hbreak⟩)
  | stopped hdelivers => simp [delivers, hillegal, hbreak] at hdelivers
  | delivered _ result _ hpc =>
    rw [if_neg hbreak] at hpc
    exact ⟨rfl, hpc⟩

/-- The end of a step whose memory stage has raised an exception or none, from the core its stages
leave: either there is no exception entry, or the entry has the last word. -/
inductive StepEnd (cfg : CoreConfig) (call : Option (TrapCall M)) (raised : ExceptionCause)
    (c : Core M) : Except SimulatorException Unit → Core M → Prop where
  | plain {result : Except SimulatorException Unit} (hcall : call = none)
      (hraised : result.isOk = true → raised = .none) (regs : Registers)
      (stallCount : BitVec 32) :
      StepEnd cfg call raised c result { c with regs := regs, stallCount := stallCount }
  | trap {result : Except SimulatorException Unit} {c' : Core M} (t : TrapCall M)
      (hcall : call = some t) (hexcause : t.excause = raised) (regs : Registers)
      (hcore : t.core = { c with regs := regs }) {outcome : Except SimulatorException Bool}
      (hhandle : t.handle cfg = (outcome, c')) (hresult : result.isOk = outcome.isOk) :
      StepEnd cfg call raised c result c'

/-- Neither the program counter nor an exception entry reaches the predictor. -/
theorem StepEnd.predictor {call : Option (TrapCall M)} {raised : ExceptionCause} {c c' : Core M}
    {result : Except SimulatorException Unit} (h : StepEnd cfg call raised c result c') :
    c'.predictor = c.predictor := by
  cases h with
  | plain => rfl
  | trap t _ _ regs hcore hhandle =>
    have hkeep : t.core.predictor = c.predictor := by rw [hcore]
    have heffect := @TrapCall.handle_effect M _ cfg t
    rw [hhandle] at heffect
    cases heffect <;> exact hkeep

theorem CoreSingle.finishStep_end (cfg : CoreConfig) (s : CoreSingle M) :
    StepEnd cfg (callOf s) s.pipeline.memWb.excause s.core (finishStep cfg s).1
      (finishStep cfg s).2.core := by
  unfold finishStep callOf
  dsimp only
  by_cases haligned : s.pipeline.memWb.computedNextInstAddr.toNat % 4 = 0
  · rw [writePc_of_aligned _ haligned]
    dsimp only
    split
    next hraised =>
      generalize hhandle : @handleException M _ cfg _ _ _ _ _ _ _ = outcome
      rcases outcome with ⟨_ | _, _⟩ <;> exact .trap _ rfl rfl _ rfl hhandle rfl
    next hraised => exact .plain rfl (fun _ => not_not.mp hraised) _ _
  · rw [writePc_of_unaligned _ haligned]
    exact .plain rfl (fun h => by cases h) _ _

theorem StepEnd.writePc {call : Option (TrapCall M)} {raised : ExceptionCause} (hcall : call = none)
    (hraised : raised = .none) (address : Address) (c : Core M) :
    StepEnd cfg call raised c (c.writePc address).1 (c.writePc address).2 := by
  by_cases haligned : address.toNat % 4 = 0
  · rw [writePc_of_aligned _ haligned]
    exact .plain hcall (fun _ => hraised) _ _
  · rw [writePc_of_unaligned _ haligned]
    exact .plain hcall (fun h => by cases h) _ _

theorem CorePipelined.afterStages_stepEnd (cfg : CoreConfig) (jumpBranchPc : Address)
    (savedIfId : FetchInterstage) (s : CorePipelined M) :
    StepEnd cfg (callOf jumpBranchPc s) s.pipeline.memWb.excause s.core
      (afterStages cfg jumpBranchPc savedIfId s).1
      (afterStages cfg jumpBranchPc savedIfId s).2.core := by
  have hnone (hraised : s.pipeline.memWb.excause = .none) : callOf jumpBranchPc s = none :=
    if_neg (not_not.mpr hraised)
  have hend := afterStages_end cfg jumpBranchPc savedIfId s
  generalize afterStages cfg jumpBranchPc savedIfId s = outcome at hend ⊢
  cases hend with
  | exception hraised =>
    unfold takeException callOf
    dsimp only
    rw [if_pos hraised]
    by_cases haligned : s.pipeline.memWb.computedNextInstAddr.toNat % 4 = 0
    · rw [writePc_of_aligned _ haligned]
      dsimp only
      generalize hhandle : @handleException M _ cfg _ _ _ _ _ _ _ = outcome
      rcases outcome with ⟨_ | _, _⟩ <;> exact .trap _ rfl rfl _ rfl hhandle rfl
    · rw [writePc_of_unaligned _ haligned]
      exact .plain rfl (fun h => by cases h) _ _
  | redirect hraised =>
    have hwrite := @StepEnd.writePc M _ cfg _ _ (hnone hraised) hraised
      s.pipeline.memWb.computedNextInstAddr s.core
    unfold flushAndContinueFromAddress
    generalize s.core.writePc s.pipeline.memWb.computedNextInstAddr = written at hwrite ⊢
    rcases written with ⟨_ | _, _⟩ <;> exact hwrite
  | drainExecute hraised | drainDecode hraised | stall hraised =>
    exact .plain (hnone hraised) (fun _ => hraised) _ _
  | goOn hraised =>
    have hwrite := @StepEnd.writePc M _ cfg _ _ (hnone hraised) hraised
      s.pipeline.ifId.predictedNextInstAddr s.core
    unfold goOn
    dsimp only
    generalize s.core.writePc s.pipeline.ifId.predictedNextInstAddr = written at hwrite ⊢
    rcases written with ⟨_ | _, _⟩ <;> exact hwrite

/-- A step throws in its stages, or it ends as its stages let it. -/
theorem CoreSingle.step_outcome (cfg : CoreConfig) (skipBreak : Bool) (s : CoreSingle M) :
    (∃ e s₁, stages cfg skipBreak { s with core := s.core.nextCycle } = (.error e, s₁) ∧
        CoreSingle.step cfg skipBreak s = (.error e, s₁)) ∨
      ∃ s₁, stages cfg skipBreak { s with core := s.core.nextCycle } = (.ok (), s₁) ∧
        StepEnd cfg (trapCall cfg skipBreak s) s₁.pipeline.memWb.excause s₁.core
          (CoreSingle.step cfg skipBreak s).1 (CoreSingle.step cfg skipBreak s).2.core := by
  rw [CoreSingle.step, doStep_stages]
  unfold trapCall
  cases hstages : stages cfg skipBreak { s with core := s.core.nextCycle } with
  | mk result s₁ =>
    cases result with
    | error e => exact .inl ⟨e, s₁, rfl, rfl⟩
    | ok => exact .inr ⟨s₁, rfl, finishStep_end cfg s₁⟩

/-- A step throws in its stages, or it ends as its stages let it. -/
theorem CorePipelined.step_outcome (cfg : CoreConfig) (skipBreak : Bool) (s : CorePipelined M) :
    (∃ e s₁, stages cfg skipBreak { s with core := s.core.nextCycle } = (.error e, s₁) ∧
        step cfg skipBreak s = (.error e, s₁)) ∨
      ∃ s₁, stages cfg skipBreak { s with core := s.core.nextCycle } = (.ok (), s₁) ∧
        StepEnd cfg (trapCall cfg skipBreak s) s₁.pipeline.memWb.excause s₁.core
          (step cfg skipBreak s).1 (step cfg skipBreak s).2.core := by
  rw [step, doStep_stages]
  unfold trapCall
  cases hstages : stages cfg skipBreak { s with core := s.core.nextCycle } with
  | mk result s₁ =>
    cases result with
    | error e => exact .inl ⟨e, s₁, rfl, rfl⟩
    | ok => exact .inr ⟨s₁, rfl, afterStages_stepEnd cfg _ _ s₁⟩

/-- Within a step only the memory stage changes the predictor. -/
theorem CorePipelined.doStep_predictor {skipBreak : Bool} {s s' : CorePipelined M}
    (h : doStep cfg skipBreak s = (.ok (), s')) :
    ∃ r c, memory cfg s.pipeline.exMem (writeback s.pipeline.memWb s.core) = (.ok r, c) ∧
      s'.core.predictor = c.predictor := by
  rw [doStep_stages] at h
  split at h
  next => cases h
  next s₁ hstages =>
    obtain ⟨r, c, idEx, hmemory, -, hs₁⟩ := stages_ok hstages
    have hend := (afterStages_stepEnd cfg s.pipeline.memWb.instAddr s.pipeline.ifId s₁).predictor
    rw [h, hs₁] at hend
    exact ⟨r, c, hmemory, hend.trans (fetch_predictor ..)⟩

/-- What the stages before and behind the memory stage do to the core: they count a cycle, fetch
and write a register. -/
structure Aside (cfg : CoreConfig) (c c' : Core M) : Prop where
  control : c'.controlState = c.controlState ∨ c'.controlState = cycleCounted cfg c.controlState
  privilege : c'.currentPrivilege = c.currentPrivilege
  predictor : c'.predictor = c.predictor
  reservation : c'.loadReservedRange = c.loadReservedRange

theorem aside_fetch (pc : PCInterstage) (skipBreak : Bool) (c : Core M) :
    Aside cfg c (fetch cfg pc skipBreak c).2 := by
  unfold fetch
  split
  · exact ⟨.inl rfl, rfl, rfl, rfl⟩
  · exact ⟨.inr rfl, rfl, rfl, rfl⟩

omit [FrontendMemory M] in
theorem aside_writeback (w : MemoryInterstage) (c : Core M) : Aside cfg c (writeback w c) := by
  unfold writeback
  split <;> exact ⟨.inl rfl, rfl, rfl, rfl⟩

/-- A step of either core is its memory stage, other stages before and behind it, and its end. -/
class StagedHart (σ : Type) {M : outParam Type} [FrontendMemory M] [Hart σ M] [MemoryStage σ M] :
    Prop where
  start (c : Core M) : Hart.core (Hart.start c : σ) = c
  setCore (c : Core M) (s : σ) : Hart.core (Hart.setCore c s) = c
  entering {cfg : CoreConfig} {skipBreak : Bool} {s : σ} {e : ExecuteInterstage} {c : Core M}
    (hentering : MemoryStage.entering cfg skipBreak s = some (e, c)) :
    Aside cfg (Hart.core s).nextCycle c
  step {cfg : CoreConfig} {skipBreak : Bool} {s s' : σ}
    (hstep : Hart.step cfg skipBreak s = (.ok (), s')) :
    ∃ e c r c₁ c₂, MemoryStage.entering cfg skipBreak s = some (e, c) ∧
      memory cfg e c = (.ok r, c₁) ∧ Aside cfg c₁ c₂ ∧
      StepEnd cfg (Hart.trapCall cfg skipBreak s) r.1.excause c₂ (.ok ()) (Hart.core s')

instance : StagedHart (CoreSingle M) where
  start _ := rfl
  setCore _ _ := rfl
  entering hentering := by
    obtain ⟨d, -, -, rfl⟩ := CoreSingle.entering_some hentering
    exact aside_fetch _ _ _
  step {cfg skipBreak s s'} hstep := by
    have houtcome := CoreSingle.step_outcome cfg skipBreak s
    rw [show CoreSingle.step cfg skipBreak s = _ from hstep] at houtcome
    rcases houtcome with ⟨e, s₁, -, hthrown⟩ | ⟨s₁, hstages, hend⟩
    · cases hthrown
    · obtain ⟨d, r, c, hdecode, hmemory, rfl⟩ := CoreSingle.stages_ok hstages
      refine ⟨_, _, r, c, _, ?_, hmemory, aside_writeback r.1 c, hend⟩
      show CoreSingle.entering cfg skipBreak s = _
      unfold CoreSingle.entering
      dsimp only at hdecode ⊢
      rw [hdecode]

instance : StagedHart (CorePipelined M) where
  start _ := rfl
  setCore _ _ := rfl
  entering hentering := by
    obtain ⟨rfl, rfl⟩ := Prod.mk.inj (Option.some.inj hentering)
    exact aside_writeback _ _
  step {cfg skipBreak s s'} hstep := by
    have houtcome := CorePipelined.step_outcome cfg skipBreak s
    rw [show CorePipelined.step cfg skipBreak s = _ from hstep] at houtcome
    rcases houtcome with ⟨e, s₁, -, hthrown⟩ | ⟨s₁, hstages, hend⟩
    · cases hthrown
    · obtain ⟨r, c, d, hmemory, -, rfl⟩ := CorePipelined.stages_ok hstages
      exact ⟨_, _, r, c, _, rfl, hmemory, aside_fetch _ _ _, hend⟩

end QtRvSim
