import QtRvSim.Core.Reset
import QtRvSim.Refinement.PipelineStep

/-!
# Correctness of the pipeline

With a hazard unit and a disabled predictor the pipelined core retires the instructions that the
single-cycle core retires from the same state.  Both refine the sequential machine that executes
the words of the initial memory.
-/

namespace QtRvSim

open Core FrontendMemory RankedSimulation CorePipelined

variable {cfg : CoreConfig} {skipBreak : Bool}

def programOf (cfg : CoreConfig) (mem : FlatMemory) : Program :=
  fun address => mem.readU32 cfg.endian address

/-- The addresses that either core fetches from hold instructions that access no CSR and are never
overwritten; the instructions that are executed are plain, and no interrupt is taken. -/
structure PlainProgram (cfg : CoreConfig) (skipBreak : Bool) (c : Core FlatMemory)
    (code : Set Address) : Prop where
  notZicsr : ∀ a ∈ code, (programOf cfg c.mem a).isZicsr = false
  kept : ∀ n s, (CoreSingle.machine cfg skipBreak).after n (.start c) = .ok s →
    ∀ a ∈ code, programOf cfg s.core.mem a = programOf cfg c.mem a
  fetched : ∀ n s, (CoreSingle.machine cfg skipBreak).after n (.start c) = .ok s →
    s.core.regs.pc ∈ code
  plain : ∀ n s, (CoreSingle.machine cfg skipBreak).after n (.start c) = .ok s →
    (programOf cfg c.mem s.core.regs.pc).isPlain = true
  noInterrupt : ∀ n s, (CoreSingle.machine cfg skipBreak).after n (.start c) = .ok s →
    Sequential.NoInterrupt s.core
  fetchedAhead : ∀ n x, (CorePipelined.machine cfg skipBreak).after n (.start c) = .ok x →
    x.core.regs.pc ∈ code

/-- A state of the sequential machine that keeps the code, and whose next instruction is plain. -/
structure PlainState (cfg : CoreConfig) (prog : Program) (code : Set Address)
    (s : Core FlatMemory) : Prop where
  kept : ∀ a ∈ code, programOf cfg s.mem a = prog a
  plain : (prog s.regs.pc).isPlain = true
  noInterrupt : Sequential.NoInterrupt s

variable {c : Core FlatMemory} {code : Set Address}

/-- The single-cycle core runs in lockstep with the sequential machine. -/
theorem PlainProgram.single (h : PlainProgram cfg skipBreak c code) :
    Sequential.SingleAgree (.start c) c ∧
      ∀ n s, (CoreSingle.machine cfg skipBreak).after n (.start c) = .ok s →
        Sequential.FetchesProgram cfg (programOf cfg c.mem) s.core :=
  ⟨⟨⟨.refl c, rfl⟩, rfl⟩, fun n s hs =>
    ⟨h.kept n s hs _ (h.fetched n s hs), h.notZicsr _ (h.fetched n s hs), h.noInterrupt n s hs⟩⟩

theorem noInterrupt_congr {c s : Core FlatMemory} (h : ArchAgree c s) :
    Sequential.NoInterrupt c ↔ Sequential.NoInterrupt s := by
  rw [Sequential.NoInterrupt, Sequential.NoInterrupt, h.csr.coreInterruptRequest, h.privilege]

/-- All states that the sequential machine reaches are plain. -/
theorem PlainProgram.sequential (h : PlainProgram cfg skipBreak c code) (n : Nat)
    (s : Core FlatMemory)
    (hs : (Sequential.machine cfg skipBreak (programOf cfg c.mem)).after n c = .ok s) :
    PlainState cfg (programOf cfg c.mem) code s := by
  obtain ⟨s₁, hs₁, ⟨hagree, -⟩, -⟩ :=
    after_of_lockstep Sequential.single_lockstep h.single hs
  refine ⟨?_, hagree.pc ▸ h.plain n s₁ hs₁,
    (noInterrupt_congr hagree.toArchAgree).mp (h.noInterrupt n s₁ hs₁)⟩
  rw [← hagree.mem]
  exact h.kept n s₁ hs₁

structure Pipelines (cfg : CoreConfig) (skipBreak : Bool) (prog : Program) (code : Set Address)
    (x : CorePipelined FlatMemory) (s : Core FlatMemory) : Prop where
  inv : PipelineInv cfg skipBreak prog x s
  disabled : x.core.predictor.enabled = false
  plain : ∀ n s', (Sequential.machine cfg skipBreak prog).after n s = .ok s' →
    PlainState cfg prog code s'
  fetched : ∀ n x', (CorePipelined.machine cfg skipBreak).after n x = .ok x' →
    x'.core.regs.pc ∈ code

/-- Training neither enables nor disables the predictor. -/
theorem memory_enabled {e : ExecuteInterstage} {c c' : Core FlatMemory}
    {r : MemoryInterstage × MemoryInternalState} (hmemory : memory cfg e c = (.ok r, c')) :
    c'.predictor.enabled = c.predictor.enabled :=
  memory_predictor (P := fun bp => bp.enabled = c.predictor.enabled) hmemory (fun _ h => h)
    (fun bp h => (updatePredictor_enabled cfg e bp).trans h) (fun _ h => h) rfl

theorem step_enabled {x x' : CorePipelined FlatMemory} {o : Option RetiredInstruction}
    (hstep : (machine cfg skipBreak).step x = .ok (o, x')) :
    x'.core.predictor.enabled = x.core.predictor.enabled := by
  obtain ⟨r, c, hmemory, hpredictor⟩ := doStep_predictor (doStep_of_machine hstep)
  rw [hpredictor, memory_enabled hmemory, writeback_predictor]
  rfl

/-- A disabled predictor predicts the next word. -/
theorem predicted_of_disabled {c : Core FlatMemory} (hdisabled : c.predictor.enabled = false)
    (inst : Instruction) :
    Predicted cfg c (c.predictor.predictNextPcAddress inst c.regs.pc) := by
  rw [BranchPredictor.predictNextPcAddress_of_disabled hdisabled]
  exact ⟨BranchPredictor.add_four_aligned c.regs.pcAligned, fun _ => rfl⟩

theorem pipelines_simulates (hunit : cfg.hazardUnit ≠ .none) {prog : Program}
    (hzicsr : ∀ a ∈ code, (prog a).isZicsr = false) :
    Simulates (machine cfg skipBreak) (Sequential.machine cfg skipBreak prog)
      (Pipelines cfg skipBreak prog code) (fun x => pipelineRank x.pipeline) := by
  intro x s h
  have hpc := h.fetched 0 x rfl
  have hreaches {x' : CorePipelined FlatMemory} {s' : Core FlatMemory}
      (hr : Reaches cfg skipBreak prog x s x' s') (hs' : PlainState cfg prog code s') :
      PipelineInv cfg skipBreak prog x' s' := by
    have hmem : x'.core.mem = s'.mem := (writeback_mem _ _).symm.trans hr.arch.mem
    exact hr.inv (hmem ▸ hs'.kept _ hpc) (hzicsr _ hpc) hs'.noInterrupt
  have hpredicted (r c) (hmemory : memory cfg x.pipeline.exMem
      (writeback x.pipeline.memWb x.core.nextCycle) = (.ok r, c)) :
      Predicted cfg c (c.predictor.predictNextPcAddress (prog c.regs.pc) c.regs.pc) :=
    predicted_of_disabled
      (by rw [memory_enabled hmemory, writeback_predictor]; exact h.disabled) _
  have hplain := h.plain 0 s rfl
  cases pipelined_step hunit h.inv (fun _ => hplain.plain)
    (fun r c hmemory _ _ => hpredicted r c hmemory) with
  | stutter x' hstep hr hrank =>
    exact .stutter x' hstep ⟨hreaches hr hplain, (step_enabled hstep).trans h.disabled, h.plain,
      Machine.forall_after_tail h.fetched hstep⟩ hrank
  | advance o x' s' hstep habs hr =>
    have hplain' := Machine.forall_after_tail h.plain habs
    exact .advance o x' s' hstep habs ⟨hreaches hr (hplain' 0 s' rfl),
      (step_enabled hstep).trans h.disabled, hplain', Machine.forall_after_tail h.fetched hstep⟩
  | fail e hstep habs => exact .fail e hstep habs

/-- At the start the pipeline is empty. -/
theorem retired_start (cfg : CoreConfig) (skipBreak : Bool) (m : Nat) (c : Core FlatMemory) :
    retired cfg skipBreak (m + 1) (.start c) =
      (machine cfg skipBreak).outputs m (.start c) :=
  retired_succ cfg skipBreak m (.start c)

/-- With a hazard unit and the predictor disabled, the pipelined core retires what the
single-cycle core retires, and everything that it retires. -/
theorem pipeline_correct (hunit : cfg.hazardUnit ≠ .none) (hdisabled : c.predictor.enabled = false)
    (hprogram : PlainProgram cfg skipBreak c code) :
    (∀ m, ∃ n, CorePipelined.retired cfg skipBreak m (.start c) =
        CoreSingle.retired cfg skipBreak n (.start c)) ∧
      ∀ n, ∃ m, CorePipelined.retired cfg skipBreak m (.start c) =
        CoreSingle.retired cfg skipBreak n (.start c) := by
  have hsim := @pipelines_simulates cfg skipBreak code hunit (programOf cfg c.mem)
    hprogram.notZicsr
  have hrel : Pipelines cfg skipBreak (programOf cfg c.mem) code (.start c) c :=
    ⟨pipelineInv_of_flushed (.refl c) rfl rfl rfl rfl rfl, hdisabled, hprogram.sequential,
      hprogram.fetchedAhead⟩
  have hsingle (n : Nat) : CoreSingle.retired cfg skipBreak n (.start c) =
      (Sequential.machine cfg skipBreak (programOf cfg c.mem)).outputs n c :=
    outputs_of_lockstep Sequential.single_lockstep n hprogram.single
  constructor
  · intro m
    cases m with
    | zero => exact ⟨0, rfl⟩
    | succ m =>
      obtain ⟨n, hn⟩ := outputs_of_simulates hsim m hrel
      exact ⟨n, by rw [retired_start, hn, hsingle]⟩
  · intro n
    obtain ⟨m, hm⟩ := exists_outputs_of_simulates hsim n hrel
    exact ⟨m + 1, by rw [retired_start, hm, hsingle]⟩

theorem notZicsr_of_all {prog : Program} {code : List Address}
    (h : code.all (fun a => !(prog a).isZicsr) = true) :
    ∀ a ∈ code, (prog a).isZicsr = false := by
  simpa using h

def plainTest (cfg : CoreConfig) (c : Core FlatMemory) (code : List Address)
    (s : CoreSingle FlatMemory) : Bool :=
  code.contains s.core.regs.pc &&
    code.all (fun a => programOf cfg s.core.mem a == programOf cfg c.mem a) &&
    (programOf cfg c.mem s.core.regs.pc).isPlain &&
    s.core.controlState.coreInterruptRequest s.core.currentPrivilege == .none

/-- For a program that stops, the conditions can be tested. -/
theorem PlainProgram.of_checkRun (code : List Address) {n m : Nat}
    (hzicsr : code.all (fun a => !(programOf cfg c.mem a).isZicsr) = true)
    (hsingle : (CoreSingle.machine cfg skipBreak).checkRun (plainTest cfg c code) n (.start c) =
      true)
    (hpipelined : (machine cfg skipBreak).checkRun
      (fun x => code.contains x.core.regs.pc) m (.start c) = true) :
    PlainProgram cfg skipBreak c { a | a ∈ code } := by
  have htest (n s) (hs : (CoreSingle.machine cfg skipBreak).after n (.start c) = .ok s) :=
    Machine.forall_after_of_checkRun hsingle n s hs
  simp only [plainTest, Bool.and_eq_true, List.contains_iff_mem, List.all_eq_true, beq_iff_eq]
    at htest
  refine ⟨notZicsr_of_all hzicsr, fun n s hs => (htest n s hs).1.1.2,
    fun n s hs => (htest n s hs).1.1.1, fun n s hs => (htest n s hs).1.2,
    fun n s hs => (htest n s hs).2, fun n x hx => ?_⟩
  simpa using Machine.forall_after_of_checkRun hpipelined n x hx

/-- `addi x5, x0, 1; sw x5, 0(x0)` before an illegal word. -/
def storeCore : Core FlatMemory :=
  .reset (.rv64 .stallForward) (.default false) (.ofWords 0x200 [0x00100293, 0x00502023])

theorem pipeline_correct_storeCore :
    (∀ m, ∃ n, CorePipelined.retired (.rv64 .stallForward) false m (.start storeCore) =
        CoreSingle.retired (.rv64 .stallForward) false n (.start storeCore)) ∧
      ∀ n, ∃ m, CorePipelined.retired (.rv64 .stallForward) false m (.start storeCore) =
        CoreSingle.retired (.rv64 .stallForward) false n (.start storeCore) :=
  pipeline_correct (by decide) rfl
    (.of_checkRun [0x200, 0x204, 0x208, 0x20c, 0x210] (n := 4) (m := 8)
      (by decide +kernel) (by decide +kernel) (by decide +kernel))

end QtRvSim
