import QtRvSim.Refinement.Simulation

/-!
# A step of the pipelined core

A step whose memory stage sees a bubble leaves the sequential machine where it is and brings the
next instruction closer to the memory stage.  Any other step is a step of the sequential machine:
it takes the same exception, continues at the same address or throws the same simulator exception.
-/

namespace QtRvSim

open Core CorePipelined FrontendMemory RankedSimulation Sequential

variable {cfg : CoreConfig} {skipBreak : Bool} {prog : Program} {x : CorePipelined FlatMemory}
  {s : Core FlatMemory}

/-- The pipeline is empty and about to fetch the next instruction. -/
theorem pipelineInv_of_flushed (harch : ArchAgree (writeback x.pipeline.memWb x.core) s)
    (hpc : x.core.regs.pc = s.regs.pc) (hrunning : x.pipeline.pcIf.stopIf = false)
    (hifId : x.pipeline.ifId = {}) (hidEx : x.pipeline.idEx = {}) (hexMem : x.pipeline.exMem = {}) :
    PipelineInv cfg skipBreak prog x s := by
  refine ⟨harch, ?_, .bubble (hexMem ▸ executeBubble_default)
    (.bubble (hidEx ▸ decodeBubble_default) (.bubble hifId ⟨hrunning, hpc⟩))⟩
  rw [hifId]
  exact isZicsr_empty

/-- Counting cycles plays no role. -/
theorem PipelineInv.nextCycle (h : PipelineInv cfg skipBreak prog x s) :
    PipelineInv cfg skipBreak prog { x with core := x.core.nextCycle } s := by
  have hcore : ArchAgree x.core.nextCycle x.core :=
    ⟨rfl, .refl _, rfl, rfl, rfl, rfl⟩
  exact ⟨(hcore.writeback _).trans h.arch, h.notZicsr, h.stages⟩

/-- What a step leads to, if the word it fetches is the program's and there is no interrupt, and
what was in the memory stage. -/
structure Reaches (cfg : CoreConfig) (skipBreak : Bool) (prog : Program)
    (x : CorePipelined FlatMemory) (s : Core FlatMemory) (x' : CorePipelined FlatMemory)
    (s' : Core FlatMemory) : Prop where
  arch : ArchAgree (writeback x'.pipeline.memWb x'.core) s'
  inv : x'.core.mem.readU32 cfg.endian x.core.regs.pc = prog x.core.regs.pc →
    (prog x.core.regs.pc).isZicsr = false → Sequential.NoInterrupt s' →
    PipelineInv cfg skipBreak prog x' s'
  memory : ExecuteBubble x.pipeline.exMem ∨
    ExecuteAgree cfg x.pipeline.exMem (Sequential.executed cfg skipBreak prog s) ∧
      (prog s.regs.pc).isZicsr = false ∧ ∃ r, Sequential.step cfg skipBreak prog s = (.ok r, s')

theorem Reaches.of_nextCycle {x' : CorePipelined FlatMemory} {s' : Core FlatMemory}
    (h : Reaches cfg skipBreak prog { x with core := x.core.nextCycle } s x' s') :
    Reaches cfg skipBreak prog x s x' s' :=
  ⟨h.arch, h.inv, h.memory⟩

/-- Taking an exception is the end of an instruction with an exception. -/
theorem takeException_eq (cfg : CoreConfig) (hexcause : x.pipeline.memWb.excause ≠ .none)
    (jumpBranchPc : Address) :
    (takeException cfg jumpBranchPc x).1 = (finish cfg x.pipeline.memWb x.core).1 ∧
      (takeException cfg jumpBranchPc x).2.core =
        (finish cfg x.pipeline.memWb x.core).2 ∧
      (takeException cfg jumpBranchPc x).2.pipeline = x.pipeline := by
  unfold takeException finish
  dsimp only
  rcases x.core.writePc x.pipeline.memWb.computedNextInstAddr with ⟨_ | _, core⟩
  · exact ⟨rfl, rfl, rfl⟩
  · simp only [if_pos hexcause]
    rw [handleException_handler cfg _ _ _ _ _ x.pipeline.memWb.computedNextInstAddr 0]
    rcases handleException cfg x.pipeline.memWb.excause x.pipeline.memWb.inst
      x.pipeline.memWb.instAddr x.pipeline.memWb.computedNextInstAddr 0
      x.pipeline.memWb.memAddr core with ⟨_ | _, core'⟩
    · exact ⟨rfl, rfl, rfl⟩
    · exact ⟨rfl, rfl, rfl⟩

section Step

variable {x : CorePipelined FlatMemory} {s : Core FlatMemory}

/-- The outcome of a step as the machine shows it. -/
theorem machine_step_eq {x' : CorePipelined FlatMemory}
    (hstep : CorePipelined.doStep cfg skipBreak { x with core := x.core.nextCycle } =
      (.ok (), x')) :
    (CorePipelined.machine cfg skipBreak).step x =
      .ok (retiredInstruction cfg x'.pipeline.memWb x'.pipeline.memInternal, x') := by
  simp only [CorePipelined.machine, CorePipelined.step, hstep]

theorem doStep_of_machine {o : Option RetiredInstruction} {x' : CorePipelined FlatMemory}
    (hstep : (CorePipelined.machine cfg skipBreak).step x = .ok (o, x')) :
    CorePipelined.doStep cfg skipBreak { x with core := x.core.nextCycle } = (.ok (), x') := by
  simp only [CorePipelined.machine, CorePipelined.step] at hstep
  split at hstep
  next hdo =>
    cases hstep
    exact hdo
  next => cases hstep

/-- A bubble in the memory stage. -/
theorem doStep_bubble (hunit : cfg.hazardUnit ≠ .none) (h : PipelineInv cfg skipBreak prog x s)
    (hbubble : ExecuteBubble x.pipeline.exMem)
    (hidEx : IdExStage cfg skipBreak prog x.pipeline x.core.regs.pc s)
    (hpredicted : ∀ r c,
      memory cfg x.pipeline.exMem (writeback x.pipeline.memWb x.core) = (.ok r, c) →
      r.1.computedNextInstAddr = r.1.predictedNextInstAddr → r.1.csrWritten = false →
      Predicted cfg c (c.predictor.predictNextPcAddress (prog c.regs.pc) c.regs.pc)) :
    ∃ x', CorePipelined.doStep cfg skipBreak x = (.ok (), x') ∧
      retiredInstruction cfg x'.pipeline.memWb x'.pipeline.memInternal = none ∧
      Reaches cfg skipBreak prog x s x' s ∧ pipelineRank x'.pipeline < pipelineRank x.pipeline := by
  obtain ⟨r, hmemory, hinvalid, hexcause, hcsr, hnext, hwrites⟩ :=
    memory_bubble cfg hbubble (writeback x.pipeline.memWb x.core)
  have hafter : AfterMemory cfg skipBreak prog x.pipeline r
      (writeback x.pipeline.memWb x.core) s := by
    refine ⟨?_, h.notZicsr, ?_, hexcause, hcsr, hnext⟩
    · rw [writeback_of_not_writes hwrites]
      exact h.arch
    · rw [writeback_pc]
      exact hidEx
  obtain ⟨x', hend, hcontinued⟩ :=
    afterStages_continued hunit hafter (hpredicted _ _ hmemory hnext hcsr) x.pipeline.memWb.instAddr
  refine ⟨x', (doStep_eq h.notZicsr hmemory).trans hend, ?_,
    ⟨hcontinued.arch, fun hword hzicsr hirq => ?_, .inl hbubble⟩, ?_⟩
  · rw [hcontinued.memWb, retiredInstruction, hinvalid]
    simp
  · rw [hcontinued.mem] at hword
    exact hcontinued.inv ⟨by rw [writeback_pc]; exact hword, by rw [writeback_pc]; exact hzicsr,
      hafter.noInterrupt hirq⟩
  · have hrank : pipelineRank x.pipeline = youngestRank x.pipeline := by
      simp [pipelineRank, hbubble.isValid]
    exact hrank ▸ hcontinued.rank hwrites

/-- A step of the pipelined core is a step of the sequential machine. -/
inductive StepAgrees (cfg : CoreConfig) (skipBreak : Bool) (prog : Program)
    (x : CorePipelined FlatMemory) (s : Core FlatMemory) : Prop where
  | ok (x' : CorePipelined FlatMemory) (r : MemoryInterstage × MemoryInternalState)
      (s' : Core FlatMemory) (hstep : CorePipelined.doStep cfg skipBreak x = (.ok (), x'))
      (hseq : Sequential.step cfg skipBreak prog s = (.ok r, s'))
      (hretired : retiredInstruction cfg x'.pipeline.memWb x'.pipeline.memInternal =
        retiredInstruction cfg r.1 r.2)
      (hreaches : Reaches cfg skipBreak prog x s x' s')
  | error (e : SimulatorException) (x' : CorePipelined FlatMemory) (s' : Core FlatMemory)
      (hstep : CorePipelined.doStep cfg skipBreak x = (.error e, x'))
      (hseq : Sequential.step cfg skipBreak prog s = (.error e, s'))

/-- The memory stages of both machines on the same instruction. -/
structure SameMemory (cfg : CoreConfig) (skipBreak : Bool) (prog : Program)
    (x : CorePipelined FlatMemory) (s : Core FlatMemory)
    (r r' : MemoryInterstage × MemoryInternalState) (c s₁ : Core FlatMemory) : Prop where
  pipelined : memory cfg x.pipeline.exMem (writeback x.pipeline.memWb x.core) = (.ok r, c)
  sequential : memory cfg (Sequential.executed cfg skipBreak prog s) s = (.ok r', s₁)
  result : MemoryAgree cfg x.pipeline.exMem.predictedNextInstAddr r r'
  arch : ArchAgree c s₁
  execute : ExecuteAgree cfg x.pipeline.exMem (Sequential.executed cfg skipBreak prog s)
  notZicsr : (prog s.regs.pc).isZicsr = false

variable {r r' : MemoryInterstage × MemoryInternalState} {c s₁ : Core FlatMemory}

/-- The sequential machine ends its instruction. -/
theorem SameMemory.step_ok (hmem : SameMemory cfg skipBreak prog x s r r' c s₁)
    {s' : Core FlatMemory}
    (hfinish : Sequential.finish cfg r'.1 (writeback r'.1 s₁) = (.ok (), s')) :
    Sequential.step cfg skipBreak prog s = (.ok r', s') := by
  simp only [Sequential.step, hmem.sequential, hfinish]

theorem SameMemory.step_error (hmem : SameMemory cfg skipBreak prog x s r r' c s₁)
    {e : SimulatorException} {s' : Core FlatMemory}
    (hfinish : Sequential.finish cfg r'.1 (writeback r'.1 s₁) = (.error e, s')) :
    Sequential.step cfg skipBreak prog s = (.error e, s') := by
  simp only [Sequential.step, hmem.sequential, hfinish]

/-- The instruction in the memory stage takes an exception. -/
theorem stepAgrees_exception (h : PipelineInv cfg skipBreak prog x s)
    (hmem : SameMemory cfg skipBreak prog x s r r' c s₁) (hexcause : r'.1.excause ≠ .none) :
    StepAgrees cfg skipBreak prog x s := by
  have hr : r.1 = r'.1.withPrediction _ := hmem.result.interstage
  have hexcause' : r.1.excause ≠ .none := by rw [hr]; exact hexcause
  have hregwrite := memory_regwrite_of_excause hmem.sequential hexcause
  have hwriteback : writeback r'.1 s₁ = s₁ := writeback_of_regwrite hregwrite s₁
  have hcore : ArchAgree (fetch cfg x.pipeline.pcIf skipBreak c).2 s₁ :=
    (fetch_arch cfg skipBreak x.pipeline.pcIf c).toArchAgree.trans hmem.arch
  have hfinish := Sequential.finish_congr cfg hcore r'.1
  have hend := (doStep_eq h.notZicsr hmem.pipelined).trans
    (afterStages_of_exception (s := staged cfg skipBreak x.pipeline r c) hexcause' cfg
      x.pipeline.memWb.instAddr x.pipeline.ifId)
  generalize hx₀ : ({ staged cfg skipBreak x.pipeline r c with pipeline := _ } :
    CorePipelined FlatMemory) = x₀ at hend
  have hmemWb : x₀.pipeline.memWb = r.1 := by rw [← hx₀]; rfl
  have hmemInternal : x₀.pipeline.memInternal = r.2 := by rw [← hx₀]; rfl
  have hcore₀ : x₀.core = (fetch cfg x.pipeline.pcIf skipBreak c).2 := by rw [← hx₀]; rfl
  obtain ⟨hresult, hcore', hpipeline⟩ :=
    takeException_eq cfg (hmemWb ▸ hexcause') x.pipeline.memWb.instAddr
  have hfinish₀ : Sequential.finish cfg x₀.pipeline.memWb x₀.core =
      Sequential.finish cfg r'.1 (fetch cfg x.pipeline.pcIf skipBreak c).2 := by
    rw [hmemWb, hcore₀, hr]
    rfl
  rw [hfinish₀] at hresult hcore'
  rcases htaken : takeException cfg x.pipeline.memWb.instAddr x₀ with ⟨result, x'⟩
  rw [htaken] at hresult hcore' hpipeline hend
  rcases hfinish.cases with ⟨v, c', s', hc, hs, hagree⟩ | ⟨e, c', s', hc, hs⟩
  · rw [hc] at hresult hcore'
    subst hresult
    have hseq := hmem.step_ok (hwriteback.symm ▸ hs)
    have hregwrite' : x'.pipeline.memWb.regwrite = false := by
      rw [hpipeline, hmemWb, hr]
      exact hregwrite
    have harch : ArchAgree (writeback x'.pipeline.memWb x'.core) s' := by
      rw [writeback_of_regwrite hregwrite', hcore']
      exact hagree.toArchAgree
    refine .ok x' r' s' hend hseq ?_
      ⟨harch, fun _ _ _ => ?_, .inr ⟨hmem.execute, hmem.notZicsr, r', hseq⟩⟩
    · rw [hpipeline, hmemWb, hmemInternal]
      exact hmem.result.retired
    · have hpc : x'.core.regs.pc = s'.regs.pc := by rw [hcore']; exact hagree.pc
      refine pipelineInv_of_flushed harch hpc ?_ ?_ ?_ ?_
      all_goals rw [hpipeline, ← hx₀]
  · rw [hc] at hresult
    subst hresult
    rw [← hwriteback] at hs
    exact .error e x' s' hend (hmem.step_error hs)

/-- The end of an instruction without exception. -/
theorem finish_of_none {w : MemoryInterstage} (hexcause : w.excause = .none) (s : Core FlatMemory) :
    finish cfg w s = s.writePc w.computedNextInstAddr := by
  unfold finish
  rcases s.writePc w.computedNextInstAddr with ⟨_ | _, s'⟩
  · rfl
  · simp only [if_neg (not_not.mpr hexcause)]

/-- The pipeline is flushed because the instruction in the memory stage does not continue at the
predicted address or has written a CSR. -/
theorem stepAgrees_redirect (h : PipelineInv cfg skipBreak prog x s)
    (hmem : SameMemory cfg skipBreak prog x s r r' c s₁) (hexcause : r'.1.excause = .none)
    (hredirects : redirects (staged cfg skipBreak x.pipeline r c).pipeline = true) :
    StepAgrees cfg skipBreak prog x s := by
  have hr : r.1 = r'.1.withPrediction _ := hmem.result.interstage
  have hexcause' : r.1.excause = .none := by rw [hr]; exact hexcause
  have hcore : ArchAgree (fetch cfg x.pipeline.pcIf skipBreak c).2 s₁ :=
    (fetch_arch cfg skipBreak x.pipeline.pcIf c).toArchAgree.trans hmem.arch
  obtain ⟨ifId, idEx, hflush⟩ := @afterStages_of_redirects _ _ _ cfg hexcause' hredirects
    x.pipeline.memWb.instAddr x.pipeline.ifId
  have hend := (doStep_eq h.notZicsr hmem.pipelined).trans hflush
  have hnext : r.1.computedNextInstAddr = r'.1.computedNextInstAddr := by rw [hr]; rfl
  change _ = flushAndContinueFromAddress r.1.computedNextInstAddr _ at hend
  rw [hnext] at hend
  have hfinish : finish cfg r'.1 (writeback r'.1 s₁) = _ :=
    finish_of_none hexcause (writeback r'.1 s₁)
  unfold flushAndContinueFromAddress at hend
  by_cases haligned : r'.1.computedNextInstAddr.toNat % 4 = 0
  · rw [writePc_of_aligned _ haligned] at hend hfinish
    have hseq := hmem.step_ok hfinish
    have harch := ((hcore.setPc haligned).writeback r'.1).trans
      ((ArchAgree.refl (writeback r'.1 s₁)).setPc haligned).symm
    have hwriteback (core : Core FlatMemory) : writeback r'.1 core = writeback r.1 core := by
      rw [hr]
      rfl
    rw [hwriteback] at harch
    exact .ok _ r' _ hend hseq hmem.result.retired
      ⟨harch, fun _ _ _ => pipelineInv_of_flushed harch rfl rfl rfl rfl rfl,
        .inr ⟨hmem.execute, hmem.notZicsr, r', hseq⟩⟩
  · rw [writePc_of_unaligned _ haligned] at hend hfinish
    exact .error _ _ _ hend (hmem.step_error hfinish)

variable (hunit : cfg.hazardUnit ≠ .none) (h : PipelineInv cfg skipBreak prog x s)
include hunit h

/-- The instruction in the memory stage continues at the predicted address. -/
theorem stepAgrees_flow (hmem : SameMemory cfg skipBreak prog x s r r' c s₁)
    (hsettled : Settled cfg (prog s.regs.pc)) (hexcause : r'.1.excause = .none)
    (hcomputed : r.1.computedNextInstAddr = r.1.predictedNextInstAddr)
    (hcsr : r.1.csrWritten = false)
    (hprediction : Predicted cfg s x.pipeline.exMem.predictedNextInstAddr) (hnext : ∀ s', Flows
      cfg skipBreak prog s x.pipeline.exMem.predictedNextInstAddr s' → IdExStage cfg skipBreak
      prog x.pipeline x.core.regs.pc s') (hpc : c.regs.pc = x.core.regs.pc)
    (hpredicted : Predicted cfg c (c.predictor.predictNextPcAddress (prog c.regs.pc) c.regs.pc)) :
    StepAgrees cfg skipBreak prog x s := by
  have hr : r.1 = r'.1.withPrediction _ := hmem.result.interstage
  have hexcause' : r.1.excause = .none := by rw [hr]; exact hexcause
  have hcomputed' : r'.1.computedNextInstAddr = x.pipeline.exMem.predictedNextInstAddr := by
    rwa [hr] at hcomputed
  have hcsr' : r'.1.csrWritten = false := by
    rwa [hr] at hcsr
  obtain ⟨s', hwrite, hs'⟩ : ∃ s', (writeback r'.1 s₁).writePc
      x.pipeline.exMem.predictedNextInstAddr = (.ok (), s') ∧ ArchAgree s' (writeback r'.1 s₁) :=
    ⟨_, writePc_of_aligned _ hprediction.aligned, (ArchAgree.refl _).setPc hprediction.aligned⟩
  have hflow := hnext s' ⟨hsettled, r', s₁, hmem.sequential, hexcause, hcsr', hcomputed', hwrite⟩
  have hseq := hmem.step_ok ((finish_of_none hexcause _).trans (by rw [hcomputed', hwrite]))
  have harch : ArchAgree (writeback r.1 c) s' := by
    rw [hr]
    exact (hmem.arch.writeback r'.1).trans hs'.symm
  have hafter : AfterMemory cfg skipBreak prog x.pipeline r c s' :=
    ⟨harch, h.notZicsr, hpc.symm ▸ hflow, hexcause', hcsr, hcomputed⟩
  obtain ⟨x', hend, hcontinued⟩ :=
    afterStages_continued hunit hafter hpredicted x.pipeline.memWb.instAddr
  refine .ok x' r' s' ((doStep_eq h.notZicsr hmem.pipelined).trans hend) hseq ?_
    ⟨hcontinued.arch, fun hword hzicsr hirq => ?_,
      .inr ⟨hmem.execute, hmem.notZicsr, r', hseq⟩⟩
  · rw [hcontinued.memWb, hcontinued.memInternal]
    exact hmem.result.retired
  · rw [hcontinued.mem] at hword
    exact hcontinued.inv ⟨hpc.symm ▸ hword, hpc.symm ▸ hzicsr, hafter.noInterrupt hirq⟩

/-- An instruction in the memory stage. -/
theorem stepAgrees_inst (hsettled : Settled cfg (prog s.regs.pc))
    (hexMem : ExecuteAgree cfg x.pipeline.exMem (executed cfg skipBreak prog s))
    (hzicsr : (prog s.regs.pc).isZicsr = false)
    (hprediction : Predicted cfg s x.pipeline.exMem.predictedNextInstAddr) (hnext : ∀ s', Flows
      cfg skipBreak prog s x.pipeline.exMem.predictedNextInstAddr s' → IdExStage cfg skipBreak
      prog x.pipeline x.core.regs.pc s') (hpredicted : ∀ r c, memory cfg x.pipeline.exMem
      (writeback x.pipeline.memWb x.core) = (.ok r, c) → r.1.computedNextInstAddr =
      r.1.predictedNextInstAddr → r.1.csrWritten = false → Predicted cfg c
      (c.predictor.predictNextPcAddress (prog c.regs.pc) c.regs.pc)) :
    StepAgrees cfg skipBreak prog x s := by
  obtain ⟨r, r', c, s₁, hmemory, hmemory', hresult, harch⟩ :=
    h.arch.memory hexMem (executed_csrWrite hzicsr) rfl
  have hmem : SameMemory cfg skipBreak prog x s r r' c s₁ :=
    ⟨hmemory, hmemory', hresult, harch, hexMem, hzicsr⟩
  by_cases hexcause : r'.1.excause = .none
  case neg => exact stepAgrees_exception h hmem hexcause
  cases hredirects : redirects (staged cfg skipBreak x.pipeline r c).pipeline with
  | true => exact stepAgrees_redirect h hmem hexcause hredirects
  | false =>
    have hpc : c.regs.pc = x.core.regs.pc := by rw [memory_regs hmemory, writeback_pc]
    obtain ⟨hcomputed, hcsr⟩ : r.1.computedNextInstAddr = r.1.predictedNextInstAddr ∧
        r.1.csrWritten = false := by
      simpa [redirects, detectMispredictedJump, staged] using hredirects
    exact stepAgrees_flow hunit h hmem hsettled hexcause hcomputed hcsr hprediction hnext hpc
      (hpredicted r c hmemory hcomputed hcsr)

/-- A step of the pipelined core against the sequential machine, with the relation between the
states reached left to what is fetched. -/
theorem pipelined_step (hsettled : Settled cfg (prog s.regs.pc)) (hpredicted : ∀ r c, memory cfg
      x.pipeline.exMem (writeback x.pipeline.memWb x.core.nextCycle) = (.ok r, c) →
      r.1.computedNextInstAddr = r.1.predictedNextInstAddr → r.1.csrWritten = false → Predicted
      cfg c (c.predictor.predictNextPcAddress (prog c.regs.pc) c.regs.pc)) :
    Answers (CorePipelined.machine cfg skipBreak) (Sequential.machine cfg skipBreak prog)
      (Reaches cfg skipBreak prog x s) (fun x => pipelineRank x.pipeline) x s := by
  have hcycle := h.nextCycle
  cases h.stages with
  | bubble hbubble hidEx =>
    obtain ⟨x', hstep, hretired, hreaches, hrank⟩ :=
      doStep_bubble hunit hcycle hbubble hidEx hpredicted
    exact .stutter x' (by rw [machine_step_eq hstep, hretired]) hreaches.of_nextCycle hrank
  | inst hvalid hexMem hzicsr hprediction hnext =>
    cases stepAgrees_inst hunit hcycle hsettled (hexMem hsettled) hzicsr hprediction hnext
      hpredicted with
    | ok x' r s' hstep hseq hretired hreaches =>
      refine .advance _ x' s' (machine_step_eq hstep) ?_ hreaches.of_nextCycle
      simp only [Sequential.machine, hseq, hretired]
    | error e x' s' hstep hseq =>
      refine .fail e ?_ ?_
      · simp only [CorePipelined.machine, CorePipelined.step, hstep]
      · simp only [Sequential.machine, hseq]

end Step

end QtRvSim
