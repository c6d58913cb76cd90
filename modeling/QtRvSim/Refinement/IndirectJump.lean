import QtRvSim.Core.ControlFlow
import QtRvSim.Core.Reset
import QtRvSim.Core.StageOrigin

/-!
# Indirect jumps

`jalr` continues at the sum of a register and an offset with bit 0 cleared, and writes the address
of the next instruction.  The cores do not clear the bit: an odd sum is refused as a misaligned
jump.
-/

namespace QtRvSim

open Core

def IsJalr (word : Instruction) : Prop :=
  WordPattern.Matches ⟨0x00000067, 0x0000707f⟩ word

instance (word : Instruction) : Decidable (IsJalr word) :=
  inferInstanceAs (Decidable (WordPattern.Matches _ _))

def jalrOffset (word : Instruction) : BitVec 64 :=
  (word.extractLsb' 20 12).signExtend 64

def jalrTarget (cfg : CoreConfig) (rs1 : RegisterValue) (word : Instruction) : Address :=
  cfg.getXlenFromReg (rs1 + jalrOffset word) &&& ~~~1#64

variable {word : Instruction}

/-- The row of `jalr`. -/
theorem IsJalr.entry (h : IsJalr word) :
    word.flags = .supported ||| .regwrite ||| .branchJalr ||| .alusrc ||| .aluReqRs ∧
      word.type = .i ∧ word.aluOp = AluOp.add.combined ∧ word.memCtl = .none :=
  InstructionMap.find_of_patterns (P := fun e =>
    e.flags = .supported ||| .regwrite ||| .branchJalr ||| .alusrc ||| .aluReqRs ∧
      e.type = .i ∧ e.alu = AluOp.add.combined ∧ e.memCtl = .none) (by decide +kernel)
    ⟨_, List.mem_singleton.mpr rfl, h⟩

variable {cfg : CoreConfig} {privilege : PrivilegeLevel} {d : DecodeInterstage}

structure JalrExecuted (cfg : CoreConfig) (d : DecodeInterstage) (e : ExecuteInterstage) :
    Prop where
  target : cfg.getXlenFromReg e.aluVal = cfg.getXlenFromReg (d.valRs + jalrOffset d.inst)
  excause : e.excause = .none
  branchJalr : e.branchJalr = true
  branchBxx : e.branchBxx = false
  branchJal : e.branchJal = false
  memctl : e.memctl = .none
  csr : e.csr = false
  csrWrite : e.csrWrite = false
  xret : e.xret = false
  regwrite : e.regwrite = true
  numRd : e.numRd = d.inst.rd
  nextInstAddr : e.nextInstAddr = d.instAddr + 4

theorem Core.Decoded.jalr (h : Decoded cfg privilege d) (hjalr : IsJalr d.inst)
    (hexcause : d.excause = .none) : JalrExecuted cfg d (execute d) := by
  have hnop : ¬IsJalr Instruction.nop := by decide
  cases h with
  | empty => exact absurd hjalr hnop
  | @inst f hfetched csrReadVal valRs valRt ffRs ffRt =>
    change IsJalr f.inst at hjalr
    obtain ⟨hflags, htype, halu, hmemctl⟩ := hjalr.entry
    have hnext : f.nextInstAddr = f.instAddr + 4 := by
      rcases hfetched with rfl | ⟨hnext, -⟩
      · exact absurd hjalr hnop
      · exact hnext
    have hhas (b : Bool) (flag : InstructionFlags)
        (hflag : InstructionFlags.has (.supported ||| .regwrite ||| .branchJalr ||| .alusrc
          ||| .aluReqRs) flag = b) : f.inst.flags.has flag = b := by
      rw [hflags]
      exact hflag
    have hvalue : (execute (CorePipelined.withOperands
        (decodeInterstage cfg f privilege valRs valRt csrReadVal) valRs valRt ffRs ffRt)).aluVal =
        aluCombinedOperate AluOp.add.combined .alu (cfg.xlen != ._64) false valRs
          (jalrOffset f.inst) := by
      change (if _ then _ else _) = _
      rw [if_neg (not_not.mpr hexcause)]
      simp only [CorePipelined.withOperands, decodeInterstage, halu, hhas false .amo rfl,
        hhas false .mul rfl, hhas false .forceWOp rfl, hhas false .aluMod rfl,
        hhas false .pcToAlu rfl, hhas false .csrToAlu rfl, hhas true .alusrc rfl,
        Instruction.immediate_i htype, Bool.or_false, Bool.false_eq_true, if_false, if_true]
      rfl
    refine ⟨?_, hexcause, hhas _ _ rfl, hhas _ _ rfl, hhas _ _ rfl, hmemctl, hhas _ _ rfl, ?_,
      hhas _ _ rfl, hhas _ _ rfl, ?_, hnext⟩
    · rw [hvalue]
      exact aluAdd_asXlen cfg.xlen _ _
    · show (f.inst.flags.has .csr && _) = false
      rw [hhas false .csr rfl, Bool.false_and]
    · show decodeNumRd f.inst = f.inst.rd
      rw [decodeNumRd, hhas true .regwrite rfl, if_pos rfl]

variable {M : Type} [FrontendMemory M] {e : ExecuteInterstage}

structure JalrDone (cfg : CoreConfig) (d : DecodeInterstage) (e : ExecuteInterstage)
    (w : MemoryInterstage) : Prop where
  computed : w.computedNextInstAddr = cfg.getXlenFromReg (d.valRs + jalrOffset d.inst)
  predicted : w.predictedNextInstAddr = e.predictedNextInstAddr
  towriteVal : w.towriteVal = d.instAddr + 4
  excause : w.excause = .none
  regwrite : w.regwrite = true
  numRd : w.numRd = d.inst.rd
  csrWritten : w.csrWritten = false

theorem JalrExecuted.memory (h : JalrExecuted cfg d e) (c : Core M) :
    ∃ r c', Core.memory cfg e c = (.ok r, c') ∧ JalrDone cfg d e r.1 := by
  have haccess : memoryAccess cfg e c =
      ({ excause := .none, memread := e.memread, memwrite := e.memwrite, regwrite := e.regwrite,
         towriteVal := e.aluVal }, c) := by
    rw [memoryAccess, if_neg (not_not.mpr h.excause), performAccess, h.memctl]
    rfl
  have hnext : computeNextInstAddr cfg e (branchBxxTaken e) =
      cfg.getXlenFromReg (d.valRs + jalrOffset d.inst) := by
    rw [computeNextInstAddr, branchBxxTaken, h.branchBxx, h.branchJal, h.branchJalr, ← h.target]
    rfl
  obtain ⟨c₁, hcsr⟩ : ∃ c₁, memoryCsr cfg e (computeNextInstAddr cfg e (branchBxxTaken e))
      (memoryAccessed cfg e c) =
        (.ok { computedNextInstAddr := computeNextInstAddr cfg e (branchBxxTaken e),
               csrWritten := false }, c₁) := by
    unfold memoryCsr memoryCsrWrite
    rw [h.csrWrite, h.xret]
    split <;> exact ⟨_, rfl⟩
  refine ⟨_, _, memory_of_csr hcsr, hnext, rfl, ?_, ?_, ?_, h.numRd, rfl⟩
  · show selectTowriteVal e _ = _
    rw [selectTowriteVal, h.csr, h.branchJalr, ← h.nextInstAddr]
    rfl
  · rw [haccess]
    rfl
  · rw [haccess]
    exact h.regwrite

/-! ### The sum and the target -/

omit [FrontendMemory M] in
theorem getXlenFromReg_mod_four (cfg : CoreConfig) (v : RegisterValue) :
    (cfg.getXlenFromReg v).toNat % 4 = v.toNat % 4 := by
  rw [CoreConfig.getXlenFromReg]
  cases cfg.xlen with
  | _64 => rfl
  | _32 =>
    simp only [RegisterValue.asXlen, RegisterValue.asU32, BitVec.toNat_setWidth]
    omega

/-- Clearing bit 0 of a word. -/
theorem toNat_and_not_one (x : BitVec 64) : (x &&& ~~~1#64).toNat = x.toNat / 2 * 2 :=
  BitFields.toNat_and_not_lowMask x 1

/-- The target is where the cores go, if the sum is even. -/
theorem jalrTarget_of_even {rs1 : RegisterValue} (heven : (rs1 + jalrOffset word).toNat % 2 = 0) :
    jalrTarget cfg rs1 word = cfg.getXlenFromReg (rs1 + jalrOffset word) := by
  have hmod := getXlenFromReg_mod_four cfg (rs1 + jalrOffset word)
  apply BitVec.eq_of_toNat_eq
  rw [jalrTarget, toNat_and_not_one]
  omega

/-- Bit 1 of the target is bit 1 of the sum. -/
theorem jalrTarget_bit (rs1 : RegisterValue) (word : Instruction) :
    (jalrTarget cfg rs1 word).getLsbD 1 = decide (2 ≤ (rs1 + jalrOffset word).toNat % 4) := by
  have hmod := getXlenFromReg_mod_four cfg (rs1 + jalrOffset word)
  rw [BitVec.getLsbD, jalrTarget, toNat_and_not_one, Nat.testBit_eq_decide_div_mod_eq]
  refine decide_eq_decide.mpr ?_
  omega

/-! ### The single-cycle core -/

/-- A `jalr` is legal on every core and at every privilege. -/
theorem IsJalr.legal (h : IsJalr word) (privilege : PrivilegeLevel) :
    decodeExcause cfg word.flags .none privilege = .none := by
  have hmask : (word.flags ^^^ CoreConfig.checkInstFlagsVal) &&&
      cfg.checkInstFlagsMask privilege = 0 := by
    rw [h.entry.1, CoreConfig.checkInstFlagsMask, CoreConfig.unsupportedInstFlagsToCheck]
    generalize cfg.isaWord.contains 'A' = a
    generalize cfg.isaWord.contains 'M' = m
    cases cfg.xlen <;> cases a <;> cases m <;> cases privilege <;> decide
  have hexception : word.flags.has .exception = false := by rw [h.entry.1]; decide
  simp only [decodeExcause, if_neg (not_not.mpr hmask), hexception, Bool.false_and]
  rfl

omit [FrontendMemory M] in
theorem IsJalr.decode {f : FetchInterstage} (h : IsJalr f.inst) (hexcause : f.excause = .none)
    (c : Core M) : ∃ d, Core.decode cfg f c = .ok d ∧ d.inst = f.inst ∧ d.instAddr = f.instAddr ∧
      d.excause = .none ∧ d.valRs = c.regs.readGp f.inst.rs := by
  have hflags := h.entry.1
  have hread : decodeCsrRead f.inst c = .ok 0 := by
    rw [decodeCsrRead, hflags]
    rfl
  refine ⟨_, by rw [Core.decode, hread], rfl, rfl, ?_, ?_⟩
  · show decodeExcause cfg f.inst.flags f.excause _ = .none
    rw [hexcause]
    exact h.legal _
  · show decodeValRs f.inst c.regs = _
    rw [decodeValRs, decodeNumRs, hflags]
    rfl

namespace CoreSingle

/-- A step jumps as a `jalr` should: to the target with the address of the next instruction in its
register, or it throws because bit 1 of the target is set. -/
def Jumps (cfg : CoreConfig) (skipBreak : Bool) (word : Instruction) (s : CoreSingle M) : Prop :=
  let target := jalrTarget cfg (s.core.regs.readGp word.rs) word
  if target.getLsbD 1 then
    ∃ e, (step cfg skipBreak s).1 = .error e ∧ e.kind = .unalignedJump
  else
    ∃ s', step cfg skipBreak s = (.ok (), s') ∧ s'.core.regs.pc = target ∧
      (word.rd ≠ 0 → cfg.getXlenFromReg (s'.core.regs.readGp word.rd) =
        cfg.getXlenFromReg (s.core.regs.pc + 4))

variable {s : CoreSingle M}

/-- The end of the step of a `jalr`. -/
theorem finishStep_jalr (h : JalrDone cfg d e s.pipeline.memWb) {sum : BitVec 64}
    (hsum : d.valRs + jalrOffset d.inst = sum) :
    if sum.toNat % 4 = 0 then
      ∃ s', finishStep cfg s = (.ok (), s') ∧ s'.core.regs.pc = cfg.getXlenFromReg sum ∧
        s'.core.regs.gp = s.core.regs.gp
    else ∃ ex, (finishStep cfg s).1 = .error ex ∧ ex.kind = .unalignedJump := by
  have hmod := getXlenFromReg_mod_four cfg sum
  rw [← hsum, ← h.computed, hsum] at hmod
  unfold finishStep
  dsimp only
  split
  next hzero =>
    rw [writePc_of_aligned _ (hmod.trans hzero)]
    dsimp only
    rw [if_neg (not_not.mpr h.excause)]
    exact ⟨_, rfl, hsum ▸ h.computed, rfl⟩
  next hzero =>
    rw [writePc_of_unaligned _ (fun h => hzero (hmod.symm.trans h))]
    exact ⟨_, rfl, rfl⟩

/-- The step of a `jalr`, by the sum of its operands. -/
theorem step_jalr {skipBreak : Bool} {word : Instruction} (hjalr : IsJalr word)
    (hword : (fetch cfg s.pipeline.pcIf skipBreak s.core.nextCycle).1.inst = word)
    (hexcause : (fetch cfg s.pipeline.pcIf skipBreak s.core.nextCycle).1.excause = .none)
    {sum : BitVec 64} (hsum : s.core.regs.readGp word.rs + jalrOffset word = sum) :
    if sum.toNat % 4 = 0 then
      ∃ s', step cfg skipBreak s = (.ok (), s') ∧ s'.core.regs.pc = cfg.getXlenFromReg sum ∧
        (word.rd ≠ 0 → s'.core.regs.readGp word.rd = s.core.regs.pc + 4)
    else ∃ ex, (step cfg skipBreak s).1 = .error ex ∧ ex.kind = .unalignedJump := by
  have hstop : s.pipeline.pcIf.stopIf = false := by
    by_contra hstop
    rw [Bool.not_eq_false] at hstop
    rw [← hword, fetch_stopped cfg hstop] at hjalr
    exact absurd hjalr (by decide : ¬IsJalr Instruction.nop)
  have haddress := (fetch_running cfg hstop skipBreak s.core.nextCycle).2.1
  have hregs := fetch_regs cfg s.pipeline.pcIf skipBreak s.core.nextCycle
  have hfetched := @fetch_fetched M _ cfg s.pipeline.pcIf skipBreak s.core.nextCycle
  generalize hfetch : fetch cfg s.pipeline.pcIf skipBreak s.core.nextCycle = fetched
    at hword hexcause haddress hregs hfetched
  obtain ⟨f, c⟩ := fetched
  dsimp only at hword hexcause haddress hregs hfetched
  subst hword
  obtain ⟨d, hdecode, hinst, hinstAddr, hd, hvalRs⟩ := @IsJalr.decode cfg M f hjalr hexcause c
  obtain ⟨r, c', hmemory, hdone⟩ :=
    ((decode_decoded hfetched hdecode).jalr (hinst ▸ hjalr) hd).memory c
  obtain ⟨s₁, hmemWb, hcore, hstep⟩ : ∃ s₁ : CoreSingle M, s₁.pipeline.memWb = r.1 ∧
      s₁.core = writeback r.1 c' ∧ step cfg skipBreak s = finishStep cfg s₁ := by
    refine ⟨{ s with
      core := writeback r.1 c'
      pipeline :=
        { s.pipeline with
          ifId := f, idEx := d, exMem := execute d, memWb := r.1, memInternal := r.2 } },
      rfl, rfl, ?_⟩
    rw [step, doStep]
    dsimp only
    rw [hfetch]
    dsimp only
    rw [hdecode]
    dsimp only
    rw [hmemory]
  have hsum' : d.valRs + jalrOffset d.inst = sum := by
    rw [hvalRs, hinst, hregs]
    exact hsum
  rw [← hmemWb] at hdone
  have hfinish := finishStep_jalr hdone hsum'
  rw [← hstep] at hfinish
  by_cases hzero : sum.toNat % 4 = 0
  · rw [if_pos hzero] at hfinish ⊢
    obtain ⟨s', hs', hpc, hgp⟩ := hfinish
    refine ⟨s', hs', hpc, fun hrd => ?_⟩
    rw [Registers.readGp, if_neg hrd, hgp, hcore, ← hmemWb, writeback, if_pos hdone.regwrite,
      hdone.numRd, hinst, hdone.towriteVal, hinstAddr, haddress, Registers.writeGp, if_neg hrd]
    exact Function.update_self _ _ _
  · rw [if_neg hzero] at hfinish ⊢
    exact hfinish

theorem jumps_iff {skipBreak : Bool} {word : Instruction} (hjalr : IsJalr word)
    (hword : (fetch cfg s.pipeline.pcIf skipBreak s.core.nextCycle).1.inst = word)
    (hexcause : (fetch cfg s.pipeline.pcIf skipBreak s.core.nextCycle).1.excause = .none) :
    s.Jumps cfg skipBreak word ↔
      (s.core.regs.readGp word.rs + jalrOffset word).toNat % 4 ≠ 1 := by
  have hstep := step_jalr hjalr hword hexcause rfl
  rw [Jumps, jalrTarget_bit]
  by_cases hzero : (s.core.regs.readGp word.rs + jalrOffset word).toNat % 4 = 0
  · rw [if_pos hzero] at hstep
    rw [if_neg (by rw [hzero]; decide), jalrTarget_of_even (by omega)]
    obtain ⟨s', hs', hpc, hlink⟩ := hstep
    exact ⟨fun _ => by omega, fun _ => ⟨s', hs', hpc, fun hrd => by rw [hlink hrd]⟩⟩
  · rw [if_neg hzero] at hstep
    by_cases hbit : 2 ≤ (s.core.regs.readGp word.rs + jalrOffset word).toNat % 4
    · rw [if_pos (decide_eq_true hbit)]
      exact ⟨fun _ => by omega, fun _ => hstep⟩
    · rw [if_neg (by simpa using hbit)]
      refine ⟨?_, fun hone => absurd hone (by omega)⟩
      rintro ⟨s', hs', -⟩
      obtain ⟨ex, hex, -⟩ := hstep
      rw [hs'] at hex
      cases hex

end CoreSingle

/-! ### The pipelined core -/

namespace CorePipelined

/-- The step that has the `jalr` in its memory stage, and whose stages leave `s₁`, jumps as it
should: the target follows the instruction in the pipeline and its write-back writes the address of
the next instruction, or the step throws because bit 1 of the target is set.  A step that does not
redirect the fetch may still throw for a younger instruction. -/
def Jumps (cfg : CoreConfig) (skipBreak : Bool) (d : DecodeInterstage) (s s₁ : CorePipelined M) :
    Prop :=
  let target := jalrTarget cfg d.valRs d.inst
  if target.getLsbD 1 then
    ∃ e, (step cfg skipBreak s).1 = .error e ∧ e.kind = .unalignedJump
  else
    (redirects s₁.pipeline = true → (step cfg skipBreak s).1 = .ok ()) ∧
      ∀ s', step cfg skipBreak s = (.ok (), s') → s'.behindMemory = target ∧
        (d.inst.rd ≠ 0 →
          cfg.getXlenFromReg ((writeback s'.pipeline.memWb s'.core).regs.readGp d.inst.rd) =
            cfg.getXlenFromReg (d.instAddr + 4))

theorem jumps_iff {skipBreak : Bool} {s s₁ : CorePipelined M} (h : s.Chained)
    (hexec : JalrExecuted cfg d s.pipeline.exMem) (hvalid : s.pipeline.exMem.isValid = true)
    (hstages : stages cfg skipBreak { s with core := s.core.nextCycle } = (.ok (), s₁)) :
    s.Jumps cfg skipBreak d s₁ ↔ (d.valRs + jalrOffset d.inst).toNat % 4 ≠ 1 := by
  obtain ⟨r, c, hmemory, hdone⟩ :=
    hexec.memory (writeback s.pipeline.memWb s.core.nextCycle)
  have hstep : step cfg skipBreak s =
      afterStages cfg s.pipeline.memWb.instAddr s.pipeline.ifId s₁ := by
    rw [step, doStep_stages, hstages]
  have hmemWb : s₁.pipeline.memWb = r.1 := by
    obtain ⟨r', c', idEx, hmemory', -, rfl⟩ := stages_ok hstages
    cases hmemory.symm.trans hmemory'
    rfl
  have hmod := getXlenFromReg_mod_four cfg (d.valRs + jalrOffset d.inst)
  rw [← hdone.computed] at hmod
  have hredirect (hredirects : redirects s₁.pipeline = true) :
      (step cfg skipBreak s).1 = if (d.valRs + jalrOffset d.inst).toNat % 4 = 0 then .ok ()
        else .error (Registers.unalignedJump r.1.computedNextInstAddr) := by
    obtain ⟨ifId, idEx, hflush⟩ := afterStages_of_redirects (by rw [hmemWb]; exact hdone.excause)
      hredirects s.pipeline.memWb.instAddr s.pipeline.ifId
    rw [hstep, hflush, hmemWb, flushAndContinueFromAddress]
    by_cases hzero : (d.valRs + jalrOffset d.inst).toNat % 4 = 0
    · rw [if_pos hzero, writePc_of_aligned _ (hmod.trans hzero)]
    · rw [if_neg hzero, writePc_of_unaligned _ fun h => hzero (hmod.symm.trans h)]
  rw [Jumps, jalrTarget_bit]
  by_cases hzero : (d.valRs + jalrOffset d.inst).toNat % 4 = 0
  · rw [if_neg (by rw [hzero]; decide), jalrTarget_of_even (by omega)]
    refine ⟨fun _ => by omega, fun _ => ⟨fun hr => by rw [hredirect hr, if_pos hzero], ?_⟩⟩
    intro s' hs'
    obtain ⟨r', d', c', hdone'⟩ := step_stepped hs'
    cases hmemory.symm.trans hdone'.memory
    refine ⟨?_, fun hrd => ?_⟩
    · rw [← hdone.computed, ← hdone'.memWb]
      exact step_continues h hs' hvalid (by rw [hdone'.memWb]; exact hdone.excause)
    · rw [hdone'.memWb, writeback, if_pos hdone.regwrite, hdone.numRd, hdone.towriteVal,
        Registers.readGp_writeGp, if_pos ⟨rfl, hrd⟩]
  · -- the prediction was the address of an instruction, so it was wrong
    have hredirects : redirects s₁.pipeline = true := by
      have hpredicted := h.exMem hvalid hexec.excause
      have haligned := h.behindExecute_aligned
      rw [← hpredicted, ← hdone.predicted, ← hmemWb] at haligned
      rw [redirects, detectMispredictedJump, Bool.or_eq_true, bne_iff_ne]
      left
      intro heq
      rw [← heq, hmemWb] at haligned
      exact hzero (hmod.symm.trans haligned)
    have herror := hredirect hredirects
    rw [if_neg hzero] at herror
    by_cases hbit : 2 ≤ (d.valRs + jalrOffset d.inst).toNat % 4
    · rw [if_pos (decide_eq_true hbit)]
      exact ⟨fun _ => by omega, fun _ => ⟨_, herror, rfl⟩⟩
    · rw [if_neg (by simpa using hbit)]
      refine ⟨?_, fun hone => absurd hone (by omega)⟩
      rintro ⟨hok, -⟩
      rw [hok hredirects] at herror
      cases herror

end CorePipelined

/-- A 64-bit core in front of a word; `x2` is 0xbfffff00. -/
def jalrCore (word : Instruction) : CoreSingle FlatMemory :=
  .start (.reset (.rv64 .none) (.default false) (.ofWords 0x200 [word]))

end QtRvSim
