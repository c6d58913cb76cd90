import QtRvSim.Refinement.PipelineCorrect

/-!
# Transparency of the branch predictor

With the hazard unit in stall mode an enabled predictor changes neither what the pipelined core
retires nor the simulator exceptions it raises, as long as the branches that are not taken have
aligned targets.  The predicted address is written to the program counter before it is checked, so
a predictor that has learnt the misaligned target of a branch raises an exception that the program
does not.
-/

namespace QtRvSim

open Core FrontendMemory RankedSimulation CorePipelined Machine

variable {cfg : CoreConfig} {skipBreak : Bool} {prog : Program}

/-- A conditional branch in the memory stage that is not taken has an aligned target. -/
def AlignedBranch (e : ExecuteInterstage) : Prop :=
  e.branchBxx = true → branchBxxTaken e = false → e.branchJalTarget.toNat % 4 = 0

variable {e : ExecuteInterstage}

/-- The predictor learns aligned targets from instructions that continue at an aligned address. -/
theorem alignedTargets_updatePredictor {bp : BranchPredictor} (h : bp.AlignedTargets)
    (hbranch : bp.enabled = true → AlignedBranch e)
    (hjalr : e.branchJalr = true → e.branchBxx = false)
    (hnext : (computeNextInstAddr cfg e (branchBxxTaken e)).toNat % 4 = 0) :
    (updatePredictor cfg e bp).AlignedTargets := by
  unfold computeNextInstAddr at hnext
  refine learntTargets_updatePredictor (p := (·.toNat % 4 = 0)) h (fun hjal => ?_)
    (fun hjal hjalr' => ?_) (fun henabled hjal _ hbxx => ?_)
  · rwa [hjal, Bool.or_true, if_pos rfl] at hnext
  · have htaken : branchBxxTaken e = false := by
      rw [branchBxxTaken, hjalr hjalr', Bool.false_and]
    rwa [hjal, htaken, hjalr'] at hnext
  · cases htaken : branchBxxTaken e with
    | true =>
      rwa [htaken, Bool.true_or, if_pos rfl] at hnext
    | false => exact hbranch henabled hbxx htaken

/-- Only jumps and branches train the predictor. -/
theorem updatePredictor_of_not_branch (hjal : e.branchJal = false) (hjalr : e.branchJalr = false)
    (hbxx : e.branchBxx = false) (bp : BranchPredictor) : updatePredictor cfg e bp = bp := by
  simp [updatePredictor, hjal, hjalr, hbxx]

variable {r : MemoryInterstage × MemoryInternalState} {c s c' : Core FlatMemory}

/-- After the memory stage the targets are aligned if the instruction continues at an aligned
address. -/
theorem alignedTargets_memory (h : c.predictor.AlignedTargets)
    (hmemory : memory cfg e c = (.ok r, c'))
    (hex : ExecuteAgree cfg e (Sequential.executed cfg skipBreak prog s))
    (hbranch : c.predictor.enabled = true → AlignedBranch e)
    (hnext : (prog s.regs.pc).flags.has .xret = false → (computeNextInstAddr cfg e (branchBxxTaken
      e)).toNat % 4 = 0) : c'.predictor.AlignedTargets := by
  have hjal : e.branchJal = (prog s.regs.pc).flags.has .jump := by rw [hex.fields]; rfl
  have hjalr : e.branchJalr = (prog s.regs.pc).flags.has .branchJalr := by rw [hex.fields]; rfl
  have hbxx : e.branchBxx = (prog s.regs.pc).flags.has .branch := by rw [hex.fields]; rfl
  refine (memory_predictor
    (P := fun bp => bp.enabled = c.predictor.enabled ∧ bp.AlignedTargets) hmemory
    (fun _ hbp => ⟨hbp.1, BranchPredictor.LearntTargets.flush (p := (·.toNat % 4 = 0))⟩)
    (fun bp hbp => ?_)
    (fun _ hbp => hbp) ⟨rfl, h⟩).2
  refine ⟨(updatePredictor_enabled cfg e bp).trans hbp.1, ?_⟩
  cases hxret : (prog s.regs.pc).flags.has .xret with
  | true =>
    obtain ⟨hjump, hjumpr, hbr⟩ := Instruction.xret_not_branch hxret
    rw [updatePredictor_of_not_branch (hjal.trans hjump) (hjalr.trans hjumpr) (hbxx.trans hbr)]
    exact hbp.2
  | false =>
    refine alignedTargets_updatePredictor hbp.2 (fun h => hbranch (hbp.1 ▸ h)) (fun h => ?_)
      (hnext hxret)
    rw [hbxx]
    exact Instruction.jalr_not_branch (hjalr ▸ h)

/-- A bubble does not train the predictor. -/
theorem alignedTargets_bubble (h : c.predictor.AlignedTargets) (hbubble : ExecuteBubble e)
    (hmemory : memory cfg e c = (.ok r, c')) : c'.predictor.AlignedTargets := by
  obtain ⟨r', hmemory', -⟩ := memory_bubble cfg hbubble c
  rw [hmemory'] at hmemory
  cases hmemory
  exact h

/-- An instruction of the sequential machine that is no return from a trap continues at an aligned
address. -/
theorem Sequential.step_aligned {s' : Core FlatMemory}
    (hstep : Sequential.step cfg skipBreak prog s = (.ok r, s'))
    (hzicsr : (prog s.regs.pc).isZicsr = false) (hxret : (prog s.regs.pc).flags.has .xret = false) :
    (computeNextInstAddr cfg (Sequential.executed cfg skipBreak prog s)
      (branchBxxTaken (Sequential.executed cfg skipBreak prog s))).toNat % 4 = 0 := by
  obtain ⟨s₁, hmemory, hfinish⟩ := Sequential.step_ok hstep
  have hcsr : r.1.csrWritten = false :=
    memory_csrWritten hmemory (Sequential.executed_csrWrite hzicsr) hxret
  rw [← memory_next hmemory hcsr]
  unfold Sequential.finish at hfinish
  split at hfinish
  next => cases hfinish
  next hpc => exact (writePc_ok hpc).1

/-- What is required of a run: it fetches from the code, does not overwrite it and takes no
interrupt. -/
structure CodeState (cfg : CoreConfig) (prog : Program) (code : Set Address)
    (x : CorePipelined FlatMemory) : Prop where
  fetched : x.core.regs.pc ∈ code
  kept : ∀ a ∈ code, programOf cfg x.core.mem a = prog a
  noInterrupt : Sequential.NoInterrupt x.core

variable {code : Set Address}

structure Predicts (cfg : CoreConfig) (skipBreak : Bool) (prog : Program) (code : Set Address)
    (x : CorePipelined FlatMemory) (s : Core FlatMemory) : Prop where
  inv : PipelineInv cfg skipBreak prog x s
  targets : x.core.predictor.AlignedTargets
  run : ∀ n x', (CorePipelined.machine cfg skipBreak).after n x = .ok x' →
    CodeState cfg prog code x'
  branches : x.core.predictor.enabled = true →
    ∀ n x', (CorePipelined.machine cfg skipBreak).after n x = .ok x' →
      AlignedBranch x'.pipeline.exMem

/-- The fetched word is the program's in every state that is reached. -/
theorem Reaches.inv_of_code {x x' : CorePipelined FlatMemory} {s' : Core FlatMemory}
    (h : Reaches cfg skipBreak prog x s x' s') (hx : CodeState cfg prog code x)
    (hx' : CodeState cfg prog code x') (hzicsr : ∀ a ∈ code, (prog a).isZicsr = false) :
    PipelineInv cfg skipBreak prog x' s' := by
  refine h.inv (hx'.kept _ hx.fetched) (hzicsr _ hx.fetched) ((noInterrupt_congr h.arch).mp ?_)
  unfold writeback
  split <;> exact hx'.noInterrupt

theorem predicts_simulates (hstall : cfg.hazardUnit = .stall)
    (hzicsr : ∀ a ∈ code, (prog a).isZicsr = false) :
    Simulates (machine cfg skipBreak) (Sequential.machine cfg skipBreak prog)
      (Predicts cfg skipBreak prog code) (fun x => pipelineRank x.pipeline) := by
  have hunit : cfg.hazardUnit ≠ .none := by rw [hstall]; decide
  have hforward : cfg.hazardUnit ≠ .stallForward := by rw [hstall]; decide
  intro x s h
  have hx := h.run 0 x rfl
  have hpredictor : (writeback x.pipeline.memWb x.core.nextCycle).predictor = x.core.predictor :=
    writeback_predictor _ _
  have htargets : (writeback x.pipeline.memWb x.core.nextCycle).predictor.AlignedTargets := by
    rw [hpredictor]
    exact h.targets
  have hbranch : (writeback x.pipeline.memWb x.core.nextCycle).predictor.enabled = true →
      AlignedBranch x.pipeline.exMem := by
    rw [hpredictor]
    exact fun henabled => h.branches henabled 0 x rfl
  have hpredicted (r c) (hmemory : memory cfg x.pipeline.exMem
      (writeback x.pipeline.memWb x.core.nextCycle) = (.ok r, c))
      (hcomputed : r.1.computedNextInstAddr = r.1.predictedNextInstAddr)
      (hcsr : r.1.csrWritten = false) :
      Predicted cfg c (c.predictor.predictNextPcAddress (prog c.regs.pc) c.regs.pc) := by
    refine ⟨BranchPredictor.LearntTargets.predictNextPcAddress (p := (·.toNat % 4 = 0)) ?_ _
      (BranchPredictor.add_four_aligned c.regs.pcAligned), fun h => absurd h hforward⟩
    cases h.inv.stages with
    | bubble hbubble => exact alignedTargets_bubble htargets hbubble hmemory
    | inst _ hexMem _ hprediction =>
      refine alignedTargets_memory htargets hmemory (hexMem fun h => absurd h hforward) hbranch
        fun _ => ?_
      rw [← memory_next hmemory hcsr, hcomputed]
      obtain ⟨csr, c₁, -, rfl, -⟩ := memory_ok hmemory
      exact hprediction.aligned
  have hreached {x' : CorePipelined FlatMemory} {s' : Core FlatMemory}
      {o : Option RetiredInstruction}
      (hstep : (machine cfg skipBreak).step x = .ok (o, x'))
      (hr : Reaches cfg skipBreak prog x s x' s') : Predicts cfg skipBreak prog code x' s' := by
    have hrun := forall_after_tail h.run hstep
    refine ⟨hr.inv_of_code hx (hrun 0 x' rfl) hzicsr, ?_, hrun, fun henabled =>
      forall_after_tail (h.branches (step_enabled hstep ▸ henabled)) hstep⟩
    obtain ⟨r, c, hmemory, htrained⟩ := doStep_predictor (doStep_of_machine hstep)
    rw [htrained]
    rcases hr.memory with hbubble | ⟨hex, hnotZicsr, r', hseq⟩
    · exact alignedTargets_bubble htargets hbubble hmemory
    · refine alignedTargets_memory htargets hmemory hex hbranch fun hxret => ?_
      have hnext := Sequential.step_aligned hseq hnotZicsr hxret
      rw [hex.fields]
      exact hnext
  cases pipelined_step hunit h.inv (fun h => absurd h hforward) hpredicted with
  | stutter x' hstep hr hrank => exact .stutter x' hstep (hreached hstep hr) hrank
  | advance o x' s' hstep habs hr => exact .advance o x' s' hstep habs (hreached hstep hr)
  | fail e hstep habs => exact .fail e hstep habs

theorem predicts_start {bp : BranchPredictor} (htargets : bp.AlignedTargets)
    (hrun : ∀ n x, (machine cfg skipBreak).after n (.start { c with predictor := bp })
      = .ok x → CodeState cfg prog code x)
    (hbranch : bp.enabled = true → ∀ n x, (machine cfg skipBreak).after n (.start { c
      with predictor := bp }) = .ok x → AlignedBranch x.pipeline.exMem) :
    Predicts cfg skipBreak prog code (.start { c with predictor := bp }) c := by
  have hcore : ArchAgree { c with predictor := bp } c := ⟨rfl, .refl _, rfl, rfl, rfl, rfl⟩
  exact ⟨pipelineInv_of_flushed hcore rfl rfl rfl rfl rfl, htargets, hrun, hbranch⟩

/-- Two runs that follow the same sequential run retire the same. -/
theorem retired_of_common {R : CorePipelined FlatMemory → Core FlatMemory → Prop}
    {rank : CorePipelined FlatMemory → Nat}
    (hsim : Simulates (machine cfg skipBreak) (Sequential.machine cfg skipBreak prog)
      R rank) (hrel : R (.start c) s) (hrel' : R (.start c') s) (n : Nat) :
    ∃ m, retired cfg skipBreak n (.start c) =
      retired cfg skipBreak m (.start c') := by
  cases n with
  | zero => exact ⟨0, rfl⟩
  | succ n =>
    obtain ⟨m, hm⟩ := outputs_of_common hsim hsim hrel hrel' n
    exact ⟨m + 1, by rw [retired_start, retired_start, hm]⟩

/-- In stall mode, if the conditional branches that are not taken have aligned targets, a run with
an enabled predictor retires the same instructions and raises the same simulator exceptions as the
run with the predictor disabled. -/
theorem predictor_transparent (hstall : cfg.hazardUnit = .stall) {type : PredictorType}
    {state : PredictorState} {btbBits bhrBits bhtAddrBits : TableBits} {bp bp' : BranchPredictor}
    (hnew : BranchPredictor.new true type state btbBits bhrBits bhtAddrBits = some bp)
    (hdisabled : bp'.enabled = false) {c : Core FlatMemory}
    (hzicsr : ∀ a ∈ code, (programOf cfg c.mem a).isZicsr = false)
    (hrun : ∀ n x, (CorePipelined.machine cfg skipBreak).after n
        (.start { c with predictor := bp }) = .ok x →
      CodeState cfg (programOf cfg c.mem) code x)
    (hrun' : ∀ n x, (CorePipelined.machine cfg skipBreak).after n
        (.start { c with predictor := bp' }) = .ok x →
      CodeState cfg (programOf cfg c.mem) code x)
    (hbranch : ∀ n x, (CorePipelined.machine cfg skipBreak).after n
        (.start { c with predictor := bp }) = .ok x →
      AlignedBranch x.pipeline.exMem) :
    (∀ n, ∃ m, CorePipelined.retired cfg skipBreak n (.start { c with predictor := bp }) =
        CorePipelined.retired cfg skipBreak m (.start { c with predictor := bp' })) ∧
      (∀ m, ∃ n, CorePipelined.retired cfg skipBreak n (.start { c with predictor := bp }) =
        CorePipelined.retired cfg skipBreak m (.start { c with predictor := bp' })) ∧
      ∀ e, (∃ n, (CorePipelined.machine cfg skipBreak).Fails n
          (.start { c with predictor := bp }) e) ↔
        ∃ m, (CorePipelined.machine cfg skipBreak).Fails m
          (.start { c with predictor := bp' }) e := by
  have hsim := @predicts_simulates cfg skipBreak (programOf cfg c.mem) code hstall hzicsr
  have hrel : Predicts cfg skipBreak (programOf cfg c.mem) code
      (.start { c with predictor := bp }) c :=
    predicts_start (BranchPredictor.LearntTargets.new (p := (·.toNat % 4 = 0)) hnew) hrun
      fun _ => hbranch
  have hrel' : Predicts cfg skipBreak (programOf cfg c.mem) code
      (.start { c with predictor := bp' }) c := by
    refine predicts_start
      (BranchPredictor.LearntTargets.of_disabled (p := (·.toNat % 4 = 0)) hdisabled) hrun'
      fun henabled => ?_
    rw [hdisabled] at henabled
    cases henabled
  refine ⟨fun n => ?_, fun m => ?_,
    fun e => ⟨fails_of_common hsim hsim hrel hrel', fails_of_common hsim hsim hrel' hrel⟩⟩
  · obtain ⟨m, hm⟩ := retired_of_common hsim hrel hrel' n
    exact ⟨m, hm⟩
  · obtain ⟨n, hn⟩ := retired_of_common hsim hrel' hrel m
    exact ⟨n, hn.symm⟩

section Samples

def codeTest (cfg : CoreConfig) (prog : Program) (code : List Address)
    (x : CorePipelined FlatMemory) : Bool :=
  code.contains x.core.regs.pc && code.all (fun a => programOf cfg x.core.mem a == prog a) &&
    x.core.controlState.coreInterruptRequest x.core.currentPrivilege == .none

/-- For a run that ends, the conditions can be tested. -/
theorem codeState_of_checkRun {code : List Address} {n : Nat} {x : CorePipelined FlatMemory}
    (hcheck : (machine cfg skipBreak).checkRun (codeTest cfg prog code) n x = true)
    (m : Nat) (x' : CorePipelined FlatMemory)
    (hx' : (machine cfg skipBreak).after m x = .ok x') :
    CodeState cfg prog { a | a ∈ code } x' := by
  have htest := forall_after_of_checkRun hcheck m x' hx'
  simp only [codeTest, Bool.and_eq_true, List.contains_iff_mem, List.all_eq_true, beq_iff_eq]
    at htest
  exact ⟨htest.1.1, htest.1.2, htest.2⟩

theorem alignedBranch_of_checkRun {n : Nat} {x : CorePipelined FlatMemory}
    (hcheck : (machine cfg skipBreak).checkRun (fun x =>
      !x.pipeline.exMem.branchBxx || branchBxxTaken x.pipeline.exMem ||
        x.pipeline.exMem.branchJalTarget.toNat % 4 == 0) n x = true)
    (m : Nat) (x' : CorePipelined FlatMemory)
    (hx' : (machine cfg skipBreak).after m x = .ok x') :
    AlignedBranch x'.pipeline.exMem := by
  have htest := forall_after_of_checkRun hcheck m x' hx'
  intro hbxx htaken
  simpa [hbxx, htaken] using htest

/-- A predictor that takes every branch it knows. -/
def takenPredictor : BranchPredictor :=
  (BranchPredictor.new true .alwaysTaken .undefined 2 0 0).get BranchPredictor.alwaysTaken_isSome

/-- A branch that is never taken, passed twice before an illegal word:
`bne x0, x0, target; bne x5, x0, 0x210; addi x5, x0, 1; jal x0, 0x200`. -/
def loopCore (branch : Instruction) : Core FlatMemory :=
  .reset (.rv64 .stall) (.default false)
    (.ofWords 0x200 [branch, 0x00029663, 0x00100293, 0xff5ff06f])

def loopCode : List Address :=
  [0x200, 0x204, 0x208, 0x20c, 0x210, 0x214, 0x218, 0x21c]

theorem predictor_transparent_loopCore :
    (∀ n, ∃ m, CorePipelined.retired (.rv64 .stall) false n
        (.start { loopCore 0x00001463 with predictor := takenPredictor }) =
      CorePipelined.retired (.rv64 .stall) false m
        (.start { loopCore 0x00001463 with predictor := .default false })) ∧
    (∀ m, ∃ n, CorePipelined.retired (.rv64 .stall) false n
        (.start { loopCore 0x00001463 with predictor := takenPredictor }) =
      CorePipelined.retired (.rv64 .stall) false m
        (.start { loopCore 0x00001463 with predictor := .default false })) ∧
    ∀ e, (∃ n, (CorePipelined.machine (.rv64 .stall) false).Fails n
        (.start { loopCore 0x00001463 with predictor := takenPredictor }) e) ↔
      ∃ m, (CorePipelined.machine (.rv64 .stall) false).Fails m
        (.start { loopCore 0x00001463 with predictor := .default false }) e :=
  @predictor_transparent (.rv64 .stall) false { a | a ∈ loopCode } rfl .alwaysTaken .undefined 2 0 0
    takenPredictor (.default false) rfl rfl (loopCore 0x00001463)
    (notZicsr_of_all (by decide +kernel))
    (codeState_of_checkRun (n := 20) (by decide +kernel))
    (codeState_of_checkRun (n := 20) (by decide +kernel))
    (alignedBranch_of_checkRun (n := 20) (by decide +kernel))

theorem loopCore_unalignedJump : ((machine (.rv64 .stall) false).failure 8
    (.start { loopCore 0x00001363 with predictor := takenPredictor })).any
      (fun e => e.kind == .unalignedJump) = true := by
  decide +kernel

theorem loopCore_unsupportedInstruction : ((machine (.rv64 .stall) false).failure 16
    (.start { loopCore 0x00001363 with predictor := .default false })).any
      (fun e => e.kind == .unsupportedInstruction) = true := by
  decide +kernel

/-- The predictor learns the misaligned target `0x206` of a branch that is never taken.  When the
branch is fetched again, the run raises an exception that the run without prediction does not. -/
theorem predictor_raises_unalignedJump :
    (∀ n x, (CorePipelined.machine (.rv64 .stall) false).after n
        (.start { loopCore 0x00001363 with predictor := takenPredictor }) = .ok x →
      CodeState (.rv64 .stall) (programOf (.rv64 .stall) (loopCore 0x00001363).mem)
        { a | a ∈ loopCode } x) ∧
    (∀ n x, (CorePipelined.machine (.rv64 .stall) false).after n
        (.start { loopCore 0x00001363 with predictor := .default false }) = .ok x →
      CodeState (.rv64 .stall) (programOf (.rv64 .stall) (loopCore 0x00001363).mem)
        { a | a ∈ loopCode } x) ∧
    (∀ a ∈ loopCode,
      (programOf (.rv64 .stall) (loopCore 0x00001363).mem a).isZicsr = false) ∧
    ∃ e, e.kind = .unalignedJump ∧
      (∃ n, (CorePipelined.machine (.rv64 .stall) false).Fails n
        (.start { loopCore 0x00001363 with predictor := takenPredictor }) e) ∧
      ¬ ∃ m, (CorePipelined.machine (.rv64 .stall) false).Fails m
        (.start { loopCore 0x00001363 with predictor := .default false }) e := by
  refine ⟨codeState_of_checkRun (n := 20) (by decide +kernel),
    codeState_of_checkRun (n := 20) (by decide +kernel),
    notZicsr_of_all (by decide +kernel), ?_⟩
  refine (exists_fails_of_failure loopCore_unalignedJump).imp fun e he =>
    ⟨eq_of_beq he.1, he.2, not_fails_of_failure loopCore_unsupportedInstruction ?_⟩
  rw [eq_of_beq he.1]
  rfl

end Samples

end QtRvSim
