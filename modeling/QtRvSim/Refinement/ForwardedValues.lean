import QtRvSim.Core.Forwarding
import QtRvSim.Core.Reset

/-!
# Forwarded values

The forwarding unit takes operands from the execute and the memory stage.  The value of the memory
stage is the one that is written.  The value of the execute stage is its ALU result, which for a
jump is the target and not the link that it writes.  If the jump was predicted the instruction
behind it is not flushed and has the wrong operand (`forwarded_written_iff`).
-/

namespace QtRvSim

open Core CorePipelined

variable {M : Type} [FrontendMemory M] {cfg : CoreConfig}

section Tables

open InstructionFlags InstructionMap

/-- Instructions that write a register and do not read memory do not access it at all. -/
theorem Instruction.memCtl_of_regwrite {inst : Instruction}
    (hregwrite : inst.flags.has .regwrite = true) (hmemread : inst.flags.has .memread = false) :
    inst.memCtl = .none := by
  have h : ∀ a ∈ root.entries, a.flags.has regwrite = true → a.flags.has memread = false →
      a.memCtl = .none := by
    decide +kernel
  exact find_of_entries h (by decide) inst hregwrite hmemread

/-- A CSR instruction that may leave the CSR has the ALU set or clear bits of its old value. -/
theorem Instruction.csrToAlu_alu {inst : Instruction} (hcsr : inst.flags.has .csr = true)
    (htoAlu : inst.flags.has .csrToAlu = true) :
    (inst.aluOp = AluOp.or.combined ∧ inst.flags.has .aluMod = false ∨
        inst.aluOp = AluOp.and.combined ∧ inst.flags.has .aluMod = true) ∧
      inst.flags.has .pcToAlu = false ∧ inst.flags.has .amo = false ∧
      inst.flags.has .mul = false ∧ inst.flags.has .forceWOp = false := by
  have h : ∀ a ∈ root.entries, a.flags.has csr = true → a.flags.has csrToAlu = true →
      (a.alu = AluOp.or.combined ∧ a.flags.has aluMod = false ∨
          a.alu = AluOp.and.combined ∧ a.flags.has aluMod = true) ∧
        a.flags.has pcToAlu = false ∧ a.flags.has amo = false ∧ a.flags.has mul = false ∧
        a.flags.has forceWOp = false := by
    decide +kernel
  exact find_of_entries h (by decide) inst hcsr htoAlu

/-- A CSR instruction does not jump. -/
theorem Instruction.csr_not_jump {inst : Instruction} (hcsr : inst.flags.has .csr = true) :
    inst.flags.has .jump = false ∧ inst.flags.has .branchJalr = false := by
  have h : ∀ a ∈ root.entries, a.flags.has csr = true →
      a.flags.has jump = false ∧ a.flags.has branchJalr = false := by
    decide +kernel
  exact find_of_entries h (by decide) inst hcsr

end Tables

/-- Setting or clearing no bits leaves a value. -/
theorem alu_zero_asXlen (xlen : Xlen) {op : AluCombinedOp} {modified : Bool}
    (h : op = AluOp.or.combined ∧ modified = false ∨ op = AluOp.and.combined ∧ modified = true)
    (value : RegisterValue) :
    (aluCombinedOperate op .alu (xlen != ._64) modified 0 value).asXlen xlen =
      value.asXlen xlen := by
  have hzero : RegisterValue.asU32 0#64 = 0#32 := rfl
  have hall : ∀ (w : Nat) (x : BitVec w), ~~~0#w &&& x = x := by
    intro w x
    rw [BitVec.not_zero, BitVec.allOnes_and]
  rcases h with ⟨rfl, rfl⟩ | ⟨rfl, rfl⟩ <;> cases xlen <;>
    simp only [aluCombinedOperate, alu64Operate, alu32Operate, RegisterValue.asXlen, hzero, hall,
      AluOp.aluOp_combined, bne_self_eq_false, Bool.false_eq_true, if_false, if_true,
      RegisterValue.asU32_ofI32, BitVec.ofNat_eq_ofNat, BitVec.zero_or, reduceCtorEq, bne_iff_ne,
      ne_eq, not_false_eq_true]

namespace CorePipelined

/-! ### CSR instructions that leave the CSR -/

/-- A CSR instruction without a write has the operand zero. -/
def ReadsOnly (d : DecodeInterstage) : Prop :=
  d.csr = true → d.csrWrite = false → d.valRs = 0

/-- The ALU result of a CSR instruction without a write is the old value. -/
def PassesCsr (cfg : CoreConfig) (e : ExecuteInterstage) : Prop :=
  e.csr = true → e.csrWrite = false → e.excause = .none →
    e.aluVal.asXlen cfg.xlen = e.csrReadVal.asXlen cfg.xlen

theorem decodeValRs_zero {inst : Instruction} (hnum : decodeNumRs inst = 0) (regs : Registers) :
    decodeValRs inst regs = 0 := by
  rw [decodeValRs, hnum]
  split
  · rfl
  · exact regs.readGp_zero

variable {s s' : CorePipelined M}

theorem Moved.readsOnly {p : Pipeline} (h : Moved cfg s s' p) : ReadsOnly s'.pipeline.idEx := by
  intro hcsr hwrite
  obtain ⟨valRs, valRt, ffRs, ffRt, hfields⟩ := h.fields
  obtain ⟨privilege, regs, csrReadVal, hidEx⟩ := h.decoded
  rw [hfields, hidEx] at hcsr hwrite
  have hnum : decodeNumRs s.pipeline.ifId.inst = 0 := by
    have hflag : s.pipeline.ifId.inst.flags.has .csr = true := hcsr
    change (s.pipeline.ifId.inst.flags.has .csr && (!s.pipeline.ifId.inst.flags.has .csrToAlu ||
      decodeNumRs s.pipeline.ifId.inst != 0)) = false at hwrite
    rw [hflag, Bool.true_and, Bool.or_eq_false_iff] at hwrite
    exact bne_eq_false_iff_eq.mp hwrite.2
  have hdecoded : p.idEx.valRs = 0 := by
    rw [hidEx]
    exact decodeValRs_zero hnum regs
  have hzero : p.idEx.numRs = 0 := by
    rw [hidEx]
    exact hnum
  have hkept : ∀ regwrite numRd req, writesOperand regwrite numRd req 0 = false := by
    intro regwrite numRd req
    rw [writesOperand, writesRegister_zero, Bool.and_false]
  -- no stage writes x0, so the operand is the decoded one
  have hsourced := h.sourced.1
  rw [hzero, hdecoded] at hsourced
  generalize s'.pipeline.idEx.valRs = value, s'.pipeline.idEx.ffRs = source at hsourced ⊢
  cases hsourced with
  | kept => rfl
  | fromM hwrites => exact absurd hwrites (by rw [hkept]; simp)
  | fromW hwrites => exact absurd hwrites (by rw [hkept]; simp)

theorem passesCsr_execute {privilege : PrivilegeLevel} {d : DecodeInterstage}
    (horigin : Decoded cfg privilege d) (hreads : ReadsOnly d) : PassesCsr cfg (execute d) := by
  intro hcsr hwrite hexcause
  have hzero := hreads hcsr hwrite
  cases horigin with
  | empty => cases hcsr
  | @inst f hfetched csrReadVal valRs valRt ffRs ffRt =>
    have hflag : f.inst.flags.has .csr = true := hcsr
    have htoAlu : f.inst.flags.has .csrToAlu = true := by
      change (f.inst.flags.has .csr && (!f.inst.flags.has .csrToAlu ||
        decodeNumRs f.inst != 0)) = false at hwrite
      rw [hflag, Bool.true_and, Bool.or_eq_false_iff] at hwrite
      simpa using hwrite.1
    obtain ⟨hop, hpc, hamo, hmul, hforce⟩ := Instruction.csrToAlu_alu hflag htoAlu
    have hvalRs : valRs = 0 := hzero
    have halu := alu_zero_asXlen cfg.xlen hop csrReadVal
    have hnone : decodeExcause cfg f.inst.flags f.excause privilege = .none := hexcause
    simp only [execute, executeAluVal, aluResult, withOperands, decodeInterstage, hpc, hamo, hmul,
      hforce, htoAlu, hnone, hvalRs, Bool.false_eq_true, if_false, if_true, Bool.or_false, ne_eq,
      not_true_eq_false]
    exact halu

/-! ### Invariant of the operands -/

/-- The operands in ID/EX have a source in EX/MEM or MEM/WB, and CSR instructions without a write
pass the old value through the ALU. -/
structure OperandsSourced (cfg : CoreConfig) (s : CorePipelined M) : Prop where
  rs : ∃ decoded, Sourced s.pipeline.exMem s.pipeline.memWb s.pipeline.idEx.aluReqRs
    s.pipeline.idEx.numRs decoded s.pipeline.idEx.valRs s.pipeline.idEx.ffRs
  rt : ∃ decoded, Sourced s.pipeline.exMem s.pipeline.memWb s.pipeline.idEx.aluReqRt
    s.pipeline.idEx.numRt decoded s.pipeline.idEx.valRt s.pipeline.idEx.ffRt
  readsOnly : ReadsOnly s.pipeline.idEx
  passesCsr : PassesCsr cfg s.pipeline.exMem

/-- What a step leaves in EX/MEM. -/
theorem step_exMem {skipBreak : Bool} (hstep : step cfg skipBreak s = (.ok (), s')) :
    s'.pipeline.exMem = {} ∨ s'.pipeline.exMem = execute s.pipeline.idEx := by
  obtain ⟨memWb, idEx, hdone⟩ :=
    @Flight.step_done M _ cfg skipBreak ⟨s, ⟨none, none, none, none⟩, 0, []⟩ s' hstep
  have hlanded := hdone.landed
  generalize Flight.ending cfg skipBreak (Flight.mk s ⟨none, none, none, none⟩ 0 []) = e at hlanded
  cases hlanded with
  | exception hifId hidEx hexMem | redirect hifId hidEx hexMem => exact .inl hexMem
  | drainExecute hifId hidEx hexMem | stall hifId hidEx hexMem => exact .inr hexMem
  | drainDecode hifId hidEx hexMem | goOn hifId hidEx hexMem => exact .inr hexMem

omit [FrontendMemory M] in
theorem OperandsSourced.empty (hidEx : s.pipeline.idEx = {})
    (hpasses : PassesCsr cfg s.pipeline.exMem) : OperandsSourced cfg s := by
  refine ⟨⟨0, ?_⟩, ⟨0, ?_⟩, ?_, hpasses⟩
  · rw [hidEx]
    exact .kept
  · rw [hidEx]
    exact .kept
  · rw [hidEx]
    exact fun hcsr => nomatch hcsr

variable {c : Core M}

theorem OperandsSourced.reached (hrun : Hart.Reached cfg c s) : OperandsSourced cfg s := by
  induction hrun with
  | refl => exact .empty rfl fun hcsr => nomatch hcsr
  | @tail s s' hrun hmove ih =>
    cases hmove with
    | step skipBreak hstep =>
      have hpasses : PassesCsr cfg s'.pipeline.exMem := by
        rcases step_exMem hstep with hempty | hexecuted
        · rw [hempty]
          exact fun hcsr => nomatch hcsr
        · rw [hexecuted]
          have horigin := ((origin_stageInvariant M cfg).reached hrun).idEx
          exact passesCsr_execute horigin ih.readsOnly
      rcases step_idEx hstep with hempty | ⟨p, hmoved⟩
      · exact .empty hempty hpasses
      · obtain ⟨hrs, hrt⟩ := hmoved.sourced
        obtain ⟨valRs, valRt, ffRs, ffRt, hfields⟩ := hmoved.fields
        refine ⟨⟨p.idEx.valRs, ?_⟩, ⟨p.idEx.valRt, ?_⟩, hmoved.readsOnly, hpasses⟩
        · rw [← hmoved.exMem', ← hmoved.memWb'] at hrs
          rw [hfields] at hrs ⊢
          exact hrs
        · rw [← hmoved.exMem', ← hmoved.memWb'] at hrt
          rw [hfields] at hrt ⊢
          exact hrt
    | interrupt irqNum active => exact ⟨ih.rs, ih.rt, ih.readsOnly, ih.passesCsr⟩

/-! ### The value that is written -/

/-- The ALU result of a jump is its link. -/
def LinkIsResult (cfg : CoreConfig) (e : ExecuteInterstage) : Prop :=
  (e.branchJalr || e.branchJal) = true →
    e.aluVal.asXlen cfg.xlen = RegisterValue.asXlen cfg.xlen e.nextInstAddr

/-- An instruction that was not seen to write a CSR does not. -/
theorem csrWrite_of_not_written {e : ExecuteInterstage} {c' : Core M}
    {r : MemoryInterstage × MemoryInternalState} (h : Core.memory cfg e c = (.ok r, c'))
    (hvalid : e.isValid = true) (hexcause : e.excause = .none) (hcsr : r.1.csrWritten = false) :
    e.csrWrite = false := by
  obtain ⟨csr, c₁, hmemory, rfl, -⟩ := memory_ok h
  change csr.csrWritten = false at hcsr
  by_contra hwrite
  rw [Bool.not_eq_false] at hwrite
  rw [memoryCsr, if_pos (by simp [hvalid, hexcause])] at hmemory
  simp only [memoryCsrWrite, hwrite, if_true] at hmemory
  split at hmemory
  next => cases hmemory
  next written c₂ hwritten =>
    split at hwritten
    next =>
      obtain ⟨hwritten, -⟩ := Prod.mk.inj hwritten
      obtain rfl := Except.ok.inj hwritten
      split at hmemory <;> cases hmemory <;> cases hcsr
    next => cases hwritten

/-- The ALU result of an instruction that writes a register and neither reads memory nor redirects
the pipeline is written, but for a jump. -/
theorem aluVal_written_iff {privilege : PrivilegeLevel} {e : ExecuteInterstage} {c' : Core M}
    {r : MemoryInterstage × MemoryInternalState} (horigin : Executed cfg privilege e)
    (hpasses : PassesCsr cfg e) (h : Core.memory cfg e c = (.ok r, c'))
    (hvalid : e.isValid = true) (hregwrite : e.regwrite = true) (hmemread : e.memread = false)
    (hexcause : r.1.excause = .none) (hcsr : r.1.csrWritten = false) :
    e.aluVal.asXlen cfg.xlen = r.1.towriteVal.asXlen cfg.xlen ↔ LinkIsResult cfg e := by
  have hnone := (memory_interstage h hexcause).1
  have hwrite := csrWrite_of_not_written h hvalid hnone hcsr
  obtain ⟨csr, c₁, -, rfl, -⟩ := memory_ok h
  obtain ⟨value, c₂, hperform, haccess⟩ := memoryAccess_of_none hexcause
  change e.aluVal.asXlen cfg.xlen =
    (selectTowriteVal e (memoryAccess cfg e c).1.towriteVal).asXlen cfg.xlen ↔ _
  rw [haccess, selectTowriteVal]
  rcases horigin with rfl | ⟨d, hd, rfl⟩
  · cases hregwrite
  cases hd with
  | empty => cases hregwrite
  | @inst f hfetched csrReadVal valRs valRt ffRs ffRt =>
    split
    next hzicsr =>
      -- a CSR instruction that leaves the CSR passes its old value
      refine iff_of_true (hpasses hzicsr hwrite hnone) fun hjump => ?_
      obtain ⟨hjal, hjalr⟩ := @Instruction.csr_not_jump f.inst hzicsr
      have hnot : (f.inst.flags.has .branchJalr || f.inst.flags.has .jump) = true := hjump
      rw [hjal, hjalr] at hnot
      exact absurd hnot (by decide)
    next =>
      split
      next hjump => exact ⟨fun hlink _ => hlink, fun hlink => hlink hjump⟩
      next hjump =>
        -- nothing is accessed, so the result is written
        have hctl := @Instruction.memCtl_of_regwrite f.inst hregwrite hmemread
        have hmemctl : (execute (withOperands (decodeInterstage cfg f privilege valRs valRt
            csrReadVal) valRs valRt ffRs ffRt)).memctl = .none := hctl
        rw [performAccess, hmemctl] at hperform
        obtain ⟨hvalue, -⟩ := Prod.mk.inj hperform
        rw [← Except.ok.inj hvalue]
        exact iff_of_true rfl fun hjump' => absurd hjump' hjump

/-- A source operand: its register, its value and the stage that it was taken from. -/
structure SourceOperand where
  num : RegisterId
  value : RegisterValue
  source : ForwardFrom

def sourceOperands (d : DecodeInterstage) : List SourceOperand :=
  [⟨d.numRs, d.valRs, d.ffRs⟩, ⟨d.numRt, d.valRt, d.ffRt⟩]

/-- The register file behind the write-back stage of the next step. -/
def nextRegs (s : CorePipelined M) : Registers :=
  (writeback s.pipeline.memWb s.core.nextCycle).regs

variable {num : RegisterId}

omit [FrontendMemory M] in
theorem nextRegs_readGp
    (hwrites : writesRegister s.pipeline.memWb.regwrite s.pipeline.memWb.numRd num = true) :
    (nextRegs s).readGp num = s.pipeline.memWb.towriteVal := by
  rw [nextRegs, writeback_readGp, if_pos hwrites]

omit [FrontendMemory M] in
/-- An operand that was taken from the memory stage is written next. -/
theorem Sourced.fromW_written {req : Bool} {decoded value : RegisterValue}
    (h : Sourced s.pipeline.exMem s.pipeline.memWb req num decoded value .fromW) :
    writesRegister s.pipeline.memWb.regwrite s.pipeline.memWb.numRd num = true ∧
      value = (nextRegs s).readGp num := by
  cases h with
  | fromW hwrites =>
    have hregister := (Bool.and_eq_true_iff.mp hwrites).2
    exact ⟨hregister, (nextRegs_readGp hregister).symm⟩

/-- An operand that was taken from the execute stage is written after the next step, unless it is
the target of a jump. -/
theorem Sourced.fromM_written {skipBreak : Bool} (hrun : Hart.Reached cfg c s)
    (hstep : step cfg skipBreak s = (.ok (), s'))
    (hexcause : s'.pipeline.memWb.excause = .none) (hredirect : redirects s'.pipeline = false)
    {req : Bool} {decoded value : RegisterValue}
    (h : Sourced s.pipeline.exMem s.pipeline.memWb req num decoded value .fromM) :
    writesRegister s'.pipeline.memWb.regwrite s'.pipeline.memWb.numRd num = true ∧
      (value.asXlen cfg.xlen = ((nextRegs s').readGp num).asXlen cfg.xlen ↔
        LinkIsResult cfg s.pipeline.exMem) := by
  cases h with
  | fromM hwrites hload =>
    have hregister := (Bool.and_eq_true_iff.mp hwrites).2
    have hsignals := hregister
    rw [writesRegister, Bool.and_eq_true_iff, Bool.and_eq_true_iff] at hsignals
    obtain ⟨memWb, idEx, hdone⟩ :=
      @Flight.step_done M _ cfg skipBreak ⟨s, ⟨none, none, none, none⟩, 0, []⟩ s' hstep
    obtain ⟨internal, hmemory⟩ := hdone.memory
    rw [hdone.memWb] at hexcause ⊢
    obtain ⟨hnone, hregwrite, hnumRd⟩ := memory_interstage hmemory hexcause
    simp only at hregwrite hnumRd
    have hcsr : memWb.csrWritten = false := by
      rw [redirects, Bool.or_eq_false_iff, hdone.memWb] at hredirect
      exact hredirect.2
    have hvalid : s.pipeline.exMem.isValid = true := by
      refine (((valid_stageInvariant M cfg).reached hrun).exMem).resolve_left ?_
      exact bne_iff_ne.mp hsignals.1.2
    have hwritten := aluVal_written_iff ((origin_stageInvariant M cfg).reached hrun).exMem
      (OperandsSourced.reached hrun).passesCsr hmemory hvalid hsignals.1.1 hload hexcause hcsr
    have hnext : writesRegister memWb.regwrite memWb.numRd num = true := by
      rw [hregwrite, hnumRd]
      exact hregister
    refine ⟨hnext, ?_⟩
    rw [← hdone.memWb] at hnext
    rw [nextRegs_readGp hnext, hdone.memWb]
    exact hwritten

/-- In every run, an operand taken from MEM/WB is what is written next, and an operand taken from
EX/MEM by an instruction that is not flushed is what the older instruction writes on XLEN bits,
exactly if that one is no jump or its target is its link. -/
theorem forwarded_written_iff {c : Core M} {s s' : CorePipelined M} {skipBreak : Bool}
    (hrun : Hart.Reached cfg c s) (hstep : CorePipelined.step cfg skipBreak s = (.ok (), s')) :
    ∀ operand ∈ sourceOperands s.pipeline.idEx,
      (operand.source = .fromW →
        writesRegister s.pipeline.memWb.regwrite s.pipeline.memWb.numRd operand.num = true ∧
          operand.value = (nextRegs s).readGp operand.num) ∧
      (operand.source = .fromM → s'.pipeline.memWb.excause = .none →
        redirects s'.pipeline = false →
        writesRegister s'.pipeline.memWb.regwrite s'.pipeline.memWb.numRd operand.num = true ∧
          (operand.value.asXlen cfg.xlen =
              ((nextRegs s').readGp operand.num).asXlen cfg.xlen ↔
            LinkIsResult cfg s.pipeline.exMem)) := by
  have hsourced := OperandsSourced.reached hrun
  have hall : ∀ operand ∈ sourceOperands s.pipeline.idEx, ∃ req decoded,
      Sourced s.pipeline.exMem s.pipeline.memWb req operand.num decoded operand.value
        operand.source := by
    intro operand hoperand
    rcases List.mem_cons.mp hoperand with rfl | hoperand
    · exact ⟨_, hsourced.rs⟩
    · obtain rfl := List.mem_singleton.mp hoperand
      exact ⟨_, hsourced.rt⟩
  intro operand hoperand
  obtain ⟨req, decoded, hoperand⟩ := hall operand hoperand
  refine ⟨fun hsource => ?_, fun hsource hexcause hredirect => ?_⟩
  · rw [hsource] at hoperand
    exact hoperand.fromW_written
  · rw [hsource] at hoperand
    exact hoperand.fromM_written hrun hstep hexcause hredirect

end CorePipelined

/-- A core that forwards, in front of some words. -/
def forwardingCore (bp : BranchPredictor) (words : List Instruction) : Core FlatMemory :=
  .reset (.rv32 .stallForward) bp (.ofWords 0x200 words)

/-- `addi x1, x0, 7; addi x5, x1, 0`. -/
theorem forwarded_written_iff_addi :
    ∃ s s' : CorePipelined FlatMemory,
      Hart.after (.rv32 .stallForward) false 3
        (.start (forwardingCore (.default false) [0x00700093, 0x00008293])) = some s ∧
      CorePipelined.step (.rv32 .stallForward) false s = (.ok (), s') ∧
      s.pipeline.idEx.ffRs = .fromM ∧
      s.pipeline.idEx.valRs.asXlen ._32 =
        ((CorePipelined.nextRegs s').readGp s.pipeline.idEx.numRs).asXlen ._32 := by
  have hfacts : ((Hart.after (.rv32 .stallForward) false 3
      (start (forwardingCore (.default false) [0x00700093, 0x00008293]))).map fun s =>
        (s.pipeline.idEx.ffRs, s.pipeline.exMem.branchJalr || s.pipeline.exMem.branchJal,
          (Hart.step (.rv32 .stallForward) false s).1.isOk,
          (Hart.step (.rv32 .stallForward) false s).2.pipeline.memWb.excause,
          redirects (Hart.step (.rv32 .stallForward) false s).2.pipeline)) =
      some (.fromM, false, true, .none, false) := by
    decide +kernel
  obtain ⟨s, hafter, hs⟩ := Option.map_eq_some_iff.mp hfacts
  simp only [Prod.mk.injEq] at hs
  obtain ⟨hsource, hjump, hok, hexcause, hredirect⟩ := hs
  have hstep := Hart.step_of_isOk hok
  have hwritten := forwarded_written_iff (Hart.moves_of_after hafter) hstep
    ⟨s.pipeline.idEx.numRs, s.pipeline.idEx.valRs, s.pipeline.idEx.ffRs⟩ List.mem_cons_self
  obtain ⟨-, hvalue⟩ := hwritten.2 hsource hexcause hredirect
  refine ⟨s, _, hafter, hstep, hsource, hvalue.mpr fun h => ?_⟩
  rw [hjump] at h
  cases h

/-- A predictor that takes every jump it knows. -/
def knownPredictor : BranchPredictor :=
  (BranchPredictor.new true .alwaysTaken .undefined 2 0 0).get BranchPredictor.alwaysTaken_isSome

/-- `jal x1, 0x208; nop; addi x5, x1, 0; jal x0, 0x200`.  When the jump is fetched again it is
predicted, and the addition has the target `0x208` and not the link `0x204`. -/
theorem forwarded_target :
    let start := start
      (forwardingCore knownPredictor [0x008000ef, 0x00000013, 0x00008293, 0xff5ff06f])
    ((Hart.after (.rv32 .stallForward) false 12 start).map fun s =>
        (s.pipeline.idEx.inst, s.pipeline.idEx.ffRs, s.pipeline.idEx.valRs)) =
      some (0x00008293, .fromM, 0x208) ∧
    ((Hart.after (.rv32 .stallForward) false 13 start).map fun s =>
        (s.pipeline.memWb.inst, s.pipeline.memWb.towriteVal, s.pipeline.memWb.excause,
          redirects s.pipeline)) =
      some (0x008000ef, 0x204, .none, false) ∧
    ((Hart.after (.rv32 .stallForward) false 15 start).map fun s =>
        (s.core.regs.readGp 1, s.core.regs.readGp 5)) = some (0x204, 0x208) := by
  decide +kernel

end QtRvSim
