import QtRvSim.Core.Bubbles
import QtRvSim.Refinement.Operands

/-!
# The pipeline refines the sequential machine

The invariant of the pipelined core.  Instructions in the memory stage register have had their
effect apart from the register write.  The older of the remaining stage registers holds the next
instruction of the sequential machine, the stage register behind it the instruction after that if
the prediction is right, and so on; behind a misprediction or an exception nothing is claimed.
-/

namespace QtRvSim

open Core CorePipelined FrontendMemory Sequential

section Stages

variable (cfg : CoreConfig) (skipBreak : Bool) (prog : Program)

/-- The prediction made for an instruction: an aligned address, and the next word if operands are
forwarded. -/
structure Predicted (s : Core FlatMemory) (predicted : Address) : Prop where
  aligned : predicted.toNat % 4 = 0
  sequential : cfg.hazardUnit = .stallForward → predicted = s.regs.pc + 4

/-- The instruction that is fetched next. -/
structure FetchStage (p : Pipeline) (pc : Address) (s : Core FlatMemory) : Prop where
  running : p.pcIf.stopIf = false
  pc : pc = s.regs.pc

/-- The stage register behind fetch, and what is younger. -/
inductive IfIdStage (p : Pipeline) (pc : Address) (s : Core FlatMemory) : Prop where
  | bubble (hifId : p.ifId = {}) (hnext : FetchStage p pc s)
  | inst (predicted : Address)
      (hifId : p.ifId = (Sequential.fetched cfg skipBreak prog s).withPrediction predicted)
      (hpredicted : Predicted cfg s predicted)
      (hnext : ∀ s', Flows cfg skipBreak prog s predicted s' → FetchStage p pc s')

/-- The stage register behind decode, and what is younger. -/
inductive IdExStage (p : Pipeline) (pc : Address) (s : Core FlatMemory) : Prop where
  | bubble (hidEx : DecodeBubble p.idEx) (hnext : IfIdStage cfg skipBreak prog p pc s)
  | inst (hidEx : DecodeAgree cfg p.idEx (Sequential.decoded cfg skipBreak prog s))
      (hzicsr : (prog s.regs.pc).isZicsr = false)
      (hpredicted : Predicted cfg s p.idEx.predictedNextInstAddr)
      (hnext : ∀ s', Flows cfg skipBreak prog s p.idEx.predictedNextInstAddr s' →
        IfIdStage cfg skipBreak prog p pc s')

/-- The stage register behind execute, and what is younger. -/
inductive ExMemStage (p : Pipeline) (pc : Address) (s : Core FlatMemory) : Prop where
  | bubble (hexMem : ExecuteBubble p.exMem) (hnext : IdExStage cfg skipBreak prog p pc s)
  | inst (hvalid : p.exMem.isValid = true)
      (hexMem : Settled cfg (prog s.regs.pc) →
        ExecuteAgree cfg p.exMem (Sequential.executed cfg skipBreak prog s))
      (hzicsr : (prog s.regs.pc).isZicsr = false)
      (hpredicted : Predicted cfg s p.exMem.predictedNextInstAddr)
      (hnext : ∀ s', Flows cfg skipBreak prog s p.exMem.predictedNextInstAddr s' →
        IdExStage cfg skipBreak prog p pc s')

/-- The pipelined core stands for a state of the sequential machine. -/
structure PipelineInv (x : CorePipelined FlatMemory) (s : Core FlatMemory) : Prop where
  arch : ArchAgree (writeback x.pipeline.memWb x.core) s
  notZicsr : x.pipeline.ifId.inst.isZicsr = false
  stages : ExMemStage cfg skipBreak prog x.pipeline x.core.regs.pc s

end Stages

/-- Number of steps until an instruction enters the memory stage. -/
def youngestRank (p : Pipeline) : Nat :=
  if p.idEx.isValid then 1 else if p.ifId.isValid then 2 else 3

def pipelineRank (p : Pipeline) : Nat :=
  if p.exMem.isValid then 0 else youngestRank p

/-- The state after the five stages, given the results of the memory stage. -/
def staged (cfg : CoreConfig) (skipBreak : Bool) (p : Pipeline)
    (r : MemoryInterstage × MemoryInternalState) (c : Core FlatMemory) :
    CorePipelined FlatMemory :=
  { core := (fetch cfg p.pcIf skipBreak c).2
    pipeline :=
      { p with
        memWb := r.1
        memInternal := r.2
        exMem := execute p.idEx
        idEx := decodeInterstage cfg p.ifId c.currentPrivilege (decodeValRs p.ifId.inst c.regs)
          (c.regs.readGp (decodeNumRt p.ifId.inst)) 0
        ifId := (fetch cfg p.pcIf skipBreak c).1 } }

variable {cfg : CoreConfig} {skipBreak : Bool} {prog : Program}
  {r : MemoryInterstage × MemoryInternalState} {c : Core FlatMemory}

/-- A step after the memory stage. -/
theorem doStep_eq {x : CorePipelined FlatMemory} (hzicsr : x.pipeline.ifId.inst.isZicsr = false)
    (hmemory : memory cfg x.pipeline.exMem (writeback x.pipeline.memWb x.core) = (.ok r, c)) :
    CorePipelined.doStep cfg skipBreak x =
      afterStages cfg x.pipeline.memWb.instAddr x.pipeline.ifId
        (staged cfg skipBreak x.pipeline r c) := by
  simp only [CorePipelined.doStep, hmemory, decode_eq hzicsr]
  rfl

/-- On flat memory a fetch only counts the cycle. -/
theorem fetch_snd (cfg : CoreConfig) (skipBreak : Bool) (pc : PCInterstage) (c : Core FlatMemory) :
    (fetch cfg pc skipBreak c).2 = if pc.stopIf then c else c.countCycle cfg := by
  unfold fetch
  split <;> rfl

theorem fetch_arch (cfg : CoreConfig) (skipBreak : Bool) (pc : PCInterstage)
    (c : Core FlatMemory) : CoreAgree (fetch cfg pc skipBreak c).2 c := by
  rw [fetch_snd]
  split
  · exact ⟨.refl c, rfl⟩
  · exact CoreAgree.countCycle ⟨.refl c, rfl⟩ cfg

variable {t : Core FlatMemory} {p : Pipeline}

/-- The decoded instruction agrees with the sequential machine's if its operands do. -/
theorem decodeAgree_of_fetched {predicted : Address}
    (hifId : p.ifId = (fetched cfg skipBreak prog t).withPrediction predicted)
    (hprivilege : t.currentPrivilege = c.currentPrivilege) {valRs valRt : RegisterValue}
    (hrs : (decoded cfg skipBreak prog t).excause = .none → OperandAgree cfg valRs
      (decoded cfg skipBreak prog t).valRs)
    (hrt : (decoded cfg skipBreak prog t).excause = .none → OperandAgree cfg valRt
      (decoded cfg skipBreak prog t).valRt) (ffRs ffRt : ForwardFrom) :
    DecodeAgree cfg
      (withOperands (staged cfg skipBreak p r c).pipeline.idEx valRs valRt ffRs ffRt)
      (decoded cfg skipBreak prog t) := by
  refine ⟨?_, hrs, hrt⟩
  simp only [staged, hifId, ← hprivilege]
  rfl

/-- The operands of the instruction that enters the execute stage. -/
theorem operands_of_goOn (hunit : cfg.hazardUnit ≠ .none) {t' : Core FlatMemory}
    (harch : ArchAgree (writeback r.1 c) t) {predicted : Address}
    (hifId : p.ifId = (fetched cfg skipBreak prog t').withPrediction predicted)
    (hzicsr : p.ifId.inst.isZicsr = false)
    (hadvance : Advances cfg skipBreak prog (execute p.idEx) t t')
    (hstall : (resolveHazards cfg (staged cfg skipBreak p r c).pipeline).1 = false) :
    DecodeAgree cfg (resolveHazards cfg (staged cfg skipBreak p r c).pipeline).2
      (decoded cfg skipBreak prog t') := by
  rw [resolveHazards, if_pos hunit] at hstall ⊢
  obtain ⟨⟨ffRs, ffRt, hresolved⟩, hforwardRs, hforwardRt⟩ :=
    handleDataHazards_operands hunit hstall
  have hprivilege : t'.currentPrivilege = c.currentPrivilege := by
    rw [hadvance.privilege, ← harch.privilege]
    unfold writeback
    split <;> rfl
  have hinst : prog t'.regs.pc = p.ifId.inst := by
    rw [hifId]
    rfl
  have hwriteback (reg : RegisterId) :
      t.regs.readGp reg = (writeback r.1 c).regs.readGp reg := (harch.readGp reg).symm
  rw [hresolved]
  refine decodeAgree_of_fetched hifId hprivilege (fun _ => ?_) (fun _ => ?_) ffRs ffRt
  · have hagree := operandValue_agree (decodeNumRs_of_not_req hzicsr) hwriteback hadvance hforwardRs
    have hseq : (decoded cfg skipBreak prog t').valRs =
        t'.regs.readGp (decodeNumRs p.ifId.inst) := by
      rw [← decodeValRs_eq hzicsr, ← hinst]
      rfl
    rw [hseq]
    rwa [← decodeValRs_eq hzicsr c.regs] at hagree
  · have hagree := operandValue_agree decodeNumRt_of_not_req hwriteback hadvance hforwardRt
    have hseq : (decoded cfg skipBreak prog t').valRt =
        t'.regs.readGp (decodeNumRt p.ifId.inst) := by
      rw [← hinst]
      rfl
    rw [hseq]
    exact hagree

/-- A bubble that leaves the decode stage register leaves the sequential machine where it is, and
an instruction leads to the next state if it flows. -/
theorem exMemStage_of_idExStage {p' : Pipeline} {pc pc' : Address}
    (hidEx : IdExStage cfg skipBreak prog p pc t) (hexMem : p'.exMem = execute p.idEx)
    (hbehind : ∀ t', Advances cfg skipBreak prog (execute p.idEx) t t' → (execute p.idEx).excause =
      .none → IfIdStage cfg skipBreak prog p pc t' → IdExStage cfg skipBreak prog p' pc' t') :
    ExMemStage cfg skipBreak prog p' pc' t := by
  cases hidEx with
  | bubble hbubble hnext =>
    exact .bubble (hexMem ▸ hbubble) (hbehind t (.bubble hbubble.writes) hbubble.excause hnext)
  | inst hagree hzicsr hpredicted hnext =>
    have hvalid : (execute p.idEx).isValid = true := by
      show p.idEx.isValid = true
      rw [hagree.fields]
      rfl
    refine .inst (hexMem ▸ hvalid) (fun hsettled => hexMem ▸ hagree.execute hsettled) hzicsr
      (hexMem ▸ hpredicted) fun t' hflow => ?_
    rw [hexMem] at hflow
    have hexec := hagree.execute hflow.1
    refine hbehind t' (.flow hflow hexec hzicsr hpredicted.sequential) ?_ (hnext t' hflow)
    rw [hexec.fields]
    exact hflow.excause

/-- A stall keeps the fetched instruction. -/
theorem IfIdStage.keep {p' : Pipeline} {pc : Address} (h : IfIdStage cfg skipBreak prog p pc t)
    (hifId : p'.ifId = p.ifId) (hrunning : p'.pcIf.stopIf = false) :
    IfIdStage cfg skipBreak prog p' pc t := by
  cases h with
  | bubble hempty hnext => exact .bubble (hifId.trans hempty) ⟨hrunning, hnext.pc⟩
  | inst predicted hfetched hpredicted hnext =>
    exact .inst predicted (hifId.trans hfetched) hpredicted fun t' hflow =>
      ⟨hrunning, (hnext t' hflow).pc⟩

/-- The instruction that is fetched. -/
theorem ifIdStage_of_fetch {p' : Pipeline} (hfetch : FetchStage p c.regs.pc t)
    (hprogram : Sequential.FetchesProgram cfg prog c)
    (hpredicted : Predicted cfg c (c.predictor.predictNextPcAddress (prog c.regs.pc) c.regs.pc))
    (hifId : p'.ifId = (fetch cfg p.pcIf skipBreak c).1) (hrunning : p'.pcIf.stopIf = false)
    {pc' : Address} (hpc : pc' = c.predictor.predictNextPcAddress (prog c.regs.pc) c.regs.pc) :
    IfIdStage cfg skipBreak prog p' pc' t := by
  have hfetched : fetched cfg skipBreak prog c =
      fetched cfg skipBreak prog t := by
    simp only [fetched, hfetch.pc]
  rw [fetch_eq hfetch.running hprogram.word hprogram.noInterrupt, hfetched] at hifId
  exact .inst _ hifId ⟨hpredicted.aligned, hfetch.pc ▸ hpredicted.sequential⟩
    fun t' hflow => ⟨hrunning, hpc.trans hflow.pc.symm⟩

/-- What is known once the instruction in the memory stage has gone on as predicted, or was a
bubble. -/
structure AfterMemory (cfg : CoreConfig) (skipBreak : Bool) (prog : Program) (p : Pipeline)
    (r : MemoryInterstage × MemoryInternalState) (c t : Core FlatMemory) : Prop where
  arch : ArchAgree (writeback r.1 c) t
  notZicsr : p.ifId.inst.isZicsr = false
  idEx : IdExStage cfg skipBreak prog p c.regs.pc t
  excause : r.1.excause = .none
  csrWritten : r.1.csrWritten = false
  computed : r.1.computedNextInstAddr = r.1.predictedNextInstAddr

section Continue

variable {p p' : Pipeline} {r : MemoryInterstage × MemoryInternalState} {c t t' : Core FlatMemory}

theorem AfterMemory.privilege (h : AfterMemory cfg skipBreak prog p r c t) :
    t.currentPrivilege = c.currentPrivilege := by
  rw [← h.arch.privilege]
  unfold writeback
  split <;> rfl

theorem AfterMemory.redirects (h : AfterMemory cfg skipBreak prog p r c t) :
    redirects (staged cfg skipBreak p r c).pipeline = false := by
  show (r.1.computedNextInstAddr != r.1.predictedNextInstAddr || r.1.csrWritten) = false
  rw [h.computed, h.csrWritten]
  simp

/-- Nothing is decoded behind an empty stage register. -/
theorem staged_bubble (hempty : p.ifId = {}) :
    DecodeBubble (staged cfg skipBreak p r c).pipeline.idEx := by
  simp only [staged, hempty]
  exact decodeBubble_nop cfg _ _ _ _

/-- The instruction whose exception drains the pipeline. -/
theorem idExStage_of_drain (h : AfterMemory cfg skipBreak prog p r c t)
    (hadvance : Advances cfg skipBreak prog (execute p.idEx) t t')
    (hifId : IfIdStage cfg skipBreak prog p c.regs.pc t')
    (hdecode : (staged cfg skipBreak p r c).pipeline.idEx.excause ≠ .none)
    (hidEx : p'.idEx = (resolveHazards cfg (staged cfg skipBreak p r c).pipeline).2)
    (pc' : Address) : IdExStage cfg skipBreak prog p' pc' t' := by
  have hprivilege := hadvance.privilege.trans h.privilege
  obtain ⟨valRs, valRt, ffRs, ffRt, hresolved⟩ :=
    resolveHazards_fields cfg (staged cfg skipBreak p r c).pipeline
  rw [hresolved] at hidEx
  cases hifId with
  | bubble hempty hnext =>
    have hbubble : DecodeBubble (staged cfg skipBreak p r c).pipeline.idEx :=
      staged_bubble hempty
    exact absurd hbubble.excause hdecode
  | inst predicted hfetched hpredicted hnext =>
    have hexcause : (decoded cfg skipBreak prog t').excause ≠ .none := by
      simp only [staged, hfetched, ← hprivilege] at hdecode
      exact hdecode
    have hagree : DecodeAgree cfg
        (withOperands (staged cfg skipBreak p r c).pipeline.idEx valRs valRt ffRs ffRt)
        (decoded cfg skipBreak prog t') :=
      decodeAgree_of_fetched hfetched hprivilege (fun hnone => absurd hnone hexcause)
        (fun hnone => absurd hnone hexcause) ffRs ffRt
    have hinst : prog t'.regs.pc = p.ifId.inst := by
      rw [hfetched]
      rfl
    have hpred : p'.idEx.predictedNextInstAddr = predicted := by
      rw [hidEx]
      simp only [staged, hfetched]
      rfl
    rw [← hidEx] at hagree
    refine .inst hagree (hinst ▸ h.notZicsr) (hpred ▸ hpredicted) fun t'' hflow => ?_
    exact absurd hflow.excause hexcause

/-- The instruction that enters the execute stage. -/
theorem idExStage_of_goOn (hunit : cfg.hazardUnit ≠ .none)
    (h : AfterMemory cfg skipBreak prog p r c t)
    (hadvance : Advances cfg skipBreak prog (execute p.idEx) t t')
    (hifId : IfIdStage cfg skipBreak prog p c.regs.pc t')
    (hstall : (resolveHazards cfg (staged cfg skipBreak p r c).pipeline).1 = false)
    (hidEx : p'.idEx = (resolveHazards cfg (staged cfg skipBreak p r c).pipeline).2)
    {pc' : Address} (hfetch : ∀ t'', FetchStage p c.regs.pc t'' →
      IfIdStage cfg skipBreak prog p' pc' t'') :
    IdExStage cfg skipBreak prog p' pc' t' := by
  cases hifId with
  | bubble hempty hnext =>
    obtain ⟨valRs, valRt, ffRs, ffRt, hresolved⟩ :=
      resolveHazards_fields cfg (staged cfg skipBreak p r c).pipeline
    refine .bubble ?_ (hfetch t' hnext)
    rw [hidEx, hresolved]
    exact (staged_bubble hempty).withOperands _ _ _ _
  | inst predicted hfetched hpredicted hnext =>
    have hagree := operands_of_goOn hunit h.arch hfetched h.notZicsr hadvance hstall
    have hinst : prog t'.regs.pc = p.ifId.inst := by
      rw [hfetched]
      rfl
    have hpred : p'.idEx.predictedNextInstAddr = predicted := by
      obtain ⟨valRs, valRt, ffRs, ffRt, hresolved⟩ :=
        resolveHazards_fields cfg (staged cfg skipBreak p r c).pipeline
      rw [hidEx, hresolved]
      simp only [staged, hfetched]
      rfl
    rw [← hidEx] at hagree
    refine .inst hagree (hinst ▸ h.notZicsr) (hpred ▸ hpredicted) fun t'' hflow => ?_
    exact hfetch t'' (hnext t'' (hpred ▸ hflow))

/-- An instruction that leaves the decode stage register is about to enter the memory stage. -/
theorem pipelineRank_lt (hexMem : p'.exMem = execute p.idEx)
    (hbehind : p.idEx.isValid = false → youngestRank p' < youngestRank p) :
    pipelineRank p' < youngestRank p := by
  have hvalid : p'.exMem.isValid = p.idEx.isValid := by rw [hexMem]; rfl
  unfold pipelineRank
  rw [hvalid]
  cases hidEx : p.idEx.isValid with
  | true => simp [youngestRank, hidEx]
  | false => exact hbehind hidEx

theorem IfIdStage.youngestRank_eq {pc : Address} (h : IfIdStage cfg skipBreak prog p pc t)
    (hidEx : p.idEx.isValid = false) :
    (p.ifId = {} ∧ p.pcIf.stopIf = false ∧ youngestRank p = 3) ∨
      (p.ifId.isValid = true ∧ youngestRank p = 2) := by
  cases h with
  | bubble hempty hnext =>
    exact .inl ⟨hempty, hnext.running, by simp [youngestRank, hidEx, hempty]⟩
  | inst predicted hfetched =>
    have hvalid : p.ifId.isValid = true := by rw [hfetched]; rfl
    exact .inr ⟨hvalid, by simp [youngestRank, hidEx, hvalid]⟩

/-- A decode stage register that holds no valid instruction holds a bubble. -/
theorem IdExStage.bubble_of_not_valid {pc : Address} (h : IdExStage cfg skipBreak prog p pc t)
    (hidEx : p.idEx.isValid = false) :
    DecodeBubble p.idEx ∧ IfIdStage cfg skipBreak prog p pc t := by
  cases h with
  | bubble hbubble hnext => exact ⟨hbubble, hnext⟩
  | inst hagree =>
    have hvalid : p.idEx.isValid = true := by
      rw [hagree.fields]
      rfl
    rw [hvalid] at hidEx
    cases hidEx

theorem fetch_predicted (cfg : CoreConfig) (skipBreak : Bool) (prog : Program) (pc : PCInterstage)
    (c : Core FlatMemory) :
    (fetch cfg pc skipBreak c).1.predictedNextInstAddr =
      if pc.stopIf then 0 else c.predictor.predictNextPcAddress (prog c.regs.pc) c.regs.pc := by
  unfold fetch
  split <;> rfl

theorem fetch_isValid (cfg : CoreConfig) (skipBreak : Bool) (pc : PCInterstage)
    (c : Core FlatMemory) : (fetch cfg pc skipBreak c).1.isValid = !pc.stopIf := by
  unfold fetch
  cases pc.stopIf <;> rfl

theorem isZicsr_empty : ({} : FetchInterstage).inst.isZicsr = false := by decide

theorem fetch_notZicsr (skipBreak : Bool) (pc : PCInterstage)
    (hprogram : Sequential.FetchesProgram cfg prog c) :
    (fetch cfg pc skipBreak c).1.inst.isZicsr = false := by
  unfold fetch
  split
  · exact isZicsr_empty
  · show Instruction.isZicsr (c.mem.readU32 cfg.endian c.regs.pc) = false
    rw [hprogram.word]
    exact hprogram.notZicsr

/-- Behind a bubble in the memory stage an invalid decode stage register does not stall. -/
theorem stalls_of_bubbles (hidle : ∀ reg, writesRegister r.1.regwrite r.1.numRd reg = false)
    (hbubble : DecodeBubble p.idEx) :
    stalls cfg (staged cfg skipBreak p r c).pipeline = false := by
  have hvalid : (staged cfg skipBreak p r c).pipeline.exMem.isValid = false := hbubble.isValid
  have hresolve : (resolveHazards cfg (staged cfg skipBreak p r c).pipeline).1 = false :=
    resolveHazards_of_not_writes cfg hidle hbubble.writes
  rw [stalls, hresolve, isStallRequested, hvalid, Bool.and_false]
  rfl

/-- The state after a step whose memory stage went on as predicted, or saw a bubble. -/
structure Continued (cfg : CoreConfig) (skipBreak : Bool) (prog : Program) (p : Pipeline)
    (r : MemoryInterstage × MemoryInternalState) (c t : Core FlatMemory)
    (x : CorePipelined FlatMemory) : Prop where
  memWb : x.pipeline.memWb = r.1
  memInternal : x.pipeline.memInternal = r.2
  mem : x.core.mem = c.mem
  predictor : x.core.predictor = c.predictor
  arch : ArchAgree (writeback x.pipeline.memWb x.core) t
  inv : Sequential.FetchesProgram cfg prog c → PipelineInv cfg skipBreak prog x t
  rank : (∀ reg, writesRegister r.1.regwrite r.1.numRd reg = false) →
    pipelineRank x.pipeline < youngestRank p

section

variable (h : AfterMemory cfg skipBreak prog p r c t)
include h

/-- Interrupts are those of the sequential machine. -/
theorem AfterMemory.noInterrupt (hirq : Sequential.NoInterrupt t) : Sequential.NoInterrupt c := by
  have hagree : (writeback r.1 c).controlState = c.controlState := by
    unfold writeback
    split <;> rfl
  have hcsr := h.arch.csr
  rw [hagree] at hcsr
  rw [Sequential.NoInterrupt, hcsr.coreInterruptRequest, ← h.privilege]
  exact hirq

/-- Agreement after a step that keeps the results of the memory stage. -/
theorem AfterMemory.arch_of {x : CorePipelined FlatMemory} (hmemWb : x.pipeline.memWb = r.1)
    (hcore : ArchAgree x.core c) : ArchAgree (writeback x.pipeline.memWb x.core) t :=
  hmemWb ▸ (hcore.writeback r.1).trans h.arch

/-- What has to be shown about a step that keeps the results of the memory stage. -/
theorem AfterMemory.continued {x : CorePipelined FlatMemory} (hcore : ArchAgree x.core c)
    (hpredictor : x.core.predictor = c.predictor) (hmemWb : x.pipeline.memWb = r.1)
    (hmemInternal : x.pipeline.memInternal = r.2) (hexMem : x.pipeline.exMem = execute p.idEx)
    (hzicsr : Sequential.FetchesProgram cfg prog c → x.pipeline.ifId.inst.isZicsr = false)
    (hbehind : Sequential.FetchesProgram cfg prog c → ∀ t', Advances cfg skipBreak prog (execute
      p.idEx) t t' → (execute p.idEx).excause = .none → IfIdStage cfg skipBreak prog p c.regs.pc
      t' → IdExStage cfg skipBreak prog x.pipeline x.core.regs.pc t') (hrank : (∀ reg,
      writesRegister r.1.regwrite r.1.numRd reg = false) → DecodeBubble p.idEx → IfIdStage cfg
      skipBreak prog p c.regs.pc t → p.idEx.isValid = false → youngestRank x.pipeline <
      youngestRank p) : Continued cfg skipBreak prog p r c t x := by
  have harch := h.arch_of hmemWb hcore
  refine ⟨hmemWb, hmemInternal, hcore.mem, hpredictor, harch, fun hprogram => ?_, fun hidle => ?_⟩
  · exact ⟨harch, hzicsr hprogram,
      exMemStage_of_idExStage h.idEx hexMem (hbehind hprogram)⟩
  · refine pipelineRank_lt hexMem fun hinvalid => ?_
    obtain ⟨hbubble, hifId⟩ := h.idEx.bubble_of_not_valid hinvalid
    exact hrank hidle hbubble hifId hinvalid

end

theorem youngestRank_of_idEx (hvalid : p.idEx.isValid = true) : youngestRank p = 1 := by
  rw [youngestRank, if_pos hvalid]

theorem youngestRank_of_ifId (hvalid : p.ifId.isValid = true) : youngestRank p ≤ 2 := by
  rw [youngestRank, if_pos hvalid]
  split <;> decide

/-- The decoded instruction is valid if the fetched one was. -/
theorem resolveHazards_isValid (cfg : CoreConfig) (skipBreak : Bool) (p : Pipeline)
    (r : MemoryInterstage × MemoryInternalState) (c : Core FlatMemory) :
    (resolveHazards cfg (staged cfg skipBreak p r c).pipeline).2.isValid = p.ifId.isValid := by
  obtain ⟨valRs, valRt, ffRs, ffRt, hresolved⟩ :=
    resolveHazards_fields cfg (staged cfg skipBreak p r c).pipeline
  rw [hresolved]
  rfl

/-- After a correct prediction, or behind a bubble, the step neither throws nor flushes. -/
theorem afterStages_continued (hunit : cfg.hazardUnit ≠ .none)
    (h : AfterMemory cfg skipBreak prog p r c t)
    (hpredicted : Predicted cfg c
      (c.predictor.predictNextPcAddress (prog c.regs.pc) c.regs.pc)) (jumpBranchPc : Address) :
    ∃ x, afterStages cfg jumpBranchPc p.ifId (staged cfg skipBreak p r c) = (.ok (), x) ∧
      Continued cfg skipBreak prog p r c t x := by
  have hcore := fetch_arch cfg skipBreak p.pcIf c
  have hpredictor : (fetch cfg p.pcIf skipBreak c).2.predictor = c.predictor := by
    rw [fetch_snd]
    split <;> rfl
  have hend := afterStages_end cfg jumpBranchPc p.ifId (staged cfg skipBreak p r c)
  generalize afterStages cfg jumpBranchPc p.ifId (staged cfg skipBreak p r c) = outcome at hend ⊢
  cases hend with
  | exception hexception => exact absurd h.excause hexception
  | redirect _ hredirect =>
    rw [h.redirects] at hredirect
    cases hredirect
  | drainExecute _ _ hexecute =>
    refine ⟨_, rfl, h.continued hcore.toArchAgree hpredictor rfl rfl rfl
      (fun _ => isZicsr_empty) ?_ ?_⟩
    · exact fun _ t' _ hnone => absurd hnone hexecute
    · exact fun _ hbubble => absurd hbubble.excause hexecute
  | drainDecode _ _ _ hdecode =>
    refine ⟨_, rfl, h.continued hcore.toArchAgree hpredictor rfl rfl rfl
      (fun _ => isZicsr_empty) ?_ ?_⟩
    · exact fun _ t' hadvance _ hifId => idExStage_of_drain h hadvance hifId hdecode rfl _
    · intro _ _ hifId hinvalid
      have hvalid := resolveHazards_isValid cfg skipBreak p r c
      rcases hifId.youngestRank_eq hinvalid with ⟨hempty, -⟩ | ⟨hfull, hrank⟩
      · have hempty' : DecodeBubble (staged cfg skipBreak p r c).pipeline.idEx :=
          staged_bubble hempty
        exact absurd hempty'.excause hdecode
      · rw [hrank, youngestRank_of_idEx (hvalid.trans hfull)]
        decide
  | stall _ _ _ _ hstall =>
    refine ⟨_, rfl, h.continued ?_ hpredictor rfl rfl rfl (fun _ => h.notZicsr) ?_ ?_⟩
    · exact ⟨hcore.gp, hcore.csr, hcore.mem, hcore.reservation, hcore.privilege, hcore.asid⟩
    · intro _ t' _ _ hifId
      have hpc := hcore.pc
      exact .bubble decodeBubble_default (hpc ▸ hifId.keep rfl rfl)
    · intro hidle hbubble
      rw [stalls_of_bubbles hidle hbubble] at hstall
      cases hstall
  | goOn _ _ _ _ hstall =>
    have hstallHazard : (resolveHazards cfg (staged cfg skipBreak p r c).pipeline).1 = false := by
      rw [stalls, Bool.or_eq_false_iff] at hstall
      exact hstall.1
    have hfetched := fetch_predicted cfg skipBreak prog p.pcIf c
    have haligned :
        (fetch cfg p.pcIf skipBreak c).1.predictedNextInstAddr.toNat % 4 = 0 := by
      rw [hfetched]
      split
      · rfl
      · exact hpredicted.aligned
    have hwrite := writePc_of_aligned (fetch cfg p.pcIf skipBreak c).2 haligned
    simp only [goOn, staged, hwrite]
    refine ⟨_, rfl, h.continued ?_ hpredictor rfl rfl rfl 
      (fetch_notZicsr skipBreak p.pcIf) ?_ ?_⟩
    · exact ⟨hcore.gp, hcore.csr, hcore.mem, hcore.reservation, hcore.privilege, hcore.asid⟩
    · intro hprogram t' hadvance _ hifId
      refine idExStage_of_goOn hunit h hadvance hifId hstallHazard rfl fun t'' hfetch => ?_
      have hpc : (fetch cfg p.pcIf skipBreak c).1.predictedNextInstAddr =
          c.predictor.predictNextPcAddress (prog c.regs.pc) c.regs.pc := by
        rw [hfetched, hfetch.running]
        rfl
      exact ifIdStage_of_fetch hfetch hprogram hpredicted rfl rfl hpc
    · intro hidle hbubble hifId hinvalid
      have hvalid := resolveHazards_isValid cfg skipBreak p r c
      rcases hifId.youngestRank_eq hinvalid with ⟨hempty, hrunning, hrank⟩ | ⟨hfull, hrank⟩
      · rw [hrank]
        refine Nat.lt_succ_of_le (youngestRank_of_ifId ?_)
        show (fetch cfg p.pcIf skipBreak c).1.isValid = true
        rw [fetch_isValid, hrunning]
        rfl
      · rw [hrank, youngestRank_of_idEx (hvalid.trans hfull)]
        decide

end Continue

end QtRvSim
