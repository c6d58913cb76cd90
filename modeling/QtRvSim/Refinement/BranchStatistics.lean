import QtRvSim.Core.ControlEffect
import QtRvSim.Core.Reset

/-!
# Branch statistics

The predictor counts every branch and jump, and the memory stage counts every instruction that does
not continue at the predicted address.  Returns from traps, and any other instruction with a stale
prediction, are counted as wrong without being counted at all, so the counters add up only in runs
without such instructions.
-/

namespace QtRvSim

open Csr ControlState Core BranchPredictor BitVec

/-- The wrong predictions are among all predictions, and the correct ones are the rest. -/
def PredictionStatistics.AddsUp (stats : PredictionStatistics) : Prop :=
  stats.wrong.toNat ≤ stats.total.toNat ∧
    stats.correct.toNat + stats.wrong.toNat = stats.total.toNat

instance (stats : PredictionStatistics) : Decidable stats.AddsUp :=
  inferInstanceAs (Decidable (_ ∧ _))

namespace BranchPredictor

variable {bp : BranchPredictor}

/-- A counted jump leaves room for a misprediction. -/
theorem addsUp_incrementJumps (h : bp.totalStats.AddsUp)
    (hmax : bp.totalStats.total ≠ allOnes 32) :
    bp.incrementJumps.totalStats.AddsUp ∧
      bp.incrementJumps.totalStats.wrong < bp.incrementJumps.totalStats.total := by
  obtain ⟨hle, hsum⟩ := h
  have hmax' : bp.totalStats.total.toNat ≠ 2 ^ 32 - 1 := fun heq =>
    hmax (eq_of_toNat_eq (by rw [heq, toNat_allOnes]))
  have htotal : (bp.totalStats.total + 1).toNat = bp.totalStats.total.toNat + 1 := by
    rw [toNat_add, show (1 : BitVec 32).toNat = 1 from rfl]
    omega
  have hcorrect : (bp.totalStats.total + 1 - bp.totalStats.wrong).toNat =
      bp.totalStats.total.toNat + 1 - bp.totalStats.wrong.toNat := by
    rw [toNat_sub_of_le (by rw [le_def]; omega), htotal]
  simp only [incrementJumps, PredictionStatistics.AddsUp, lt_def, htotal, hcorrect]
  omega

theorem addsUp_incrementMispredictions
    (hlt : bp.totalStats.wrong < bp.totalStats.total) :
    bp.incrementMispredictions.totalStats.AddsUp := by
  rw [lt_def] at hlt
  have hwrong : (bp.totalStats.wrong + 1).toNat = bp.totalStats.wrong.toNat + 1 := by
    rw [toNat_add, show (1 : BitVec 32).toNat = 1 from rfl]
    omega
  have hcorrect : (bp.totalStats.total - (bp.totalStats.wrong + 1)).toNat =
      bp.totalStats.total.toNat - (bp.totalStats.wrong.toNat + 1) := by
    rw [toNat_sub_of_le (by rw [le_def]; omega), hwrong]
  simp only [incrementMispredictions, PredictionStatistics.AddsUp, hwrong, hcorrect]
  omega

theorem totalStats_update (henabled : bp.enabled = true) (inst : Instruction)
    (instAddr target : Address) (type : BranchType) (result : BranchResult) :
    (bp.update inst instAddr target type result).totalStats = bp.incrementJumps.totalStats := by
  unfold update
  simp only [henabled, Bool.not_true, Bool.false_eq_true, if_false]
  split <;> rfl

end BranchPredictor

/-! ### The memory stage -/

def ExecuteInterstage.isJump (e : ExecuteInterstage) : Bool :=
  e.branchJal || e.branchJalr || e.branchBxx

def ExecuteInterstage.returns (e : ExecuteInterstage) : Bool :=
  e.isValid && e.excause = .none && e.xret

variable {M : Type}

/-- Where an instruction other than a branch or a jump continues: a return from a trap at the saved
address, every other instruction at the next word. -/
def Core.continuesAt (cfg : CoreConfig) (e : ExecuteInterstage) (c : Core M) : Address :=
  if e.returns then
    (c.controlState.registerData
      (if e.xretPrivlev = .machine then .mepc else .sepc)).asXlen cfg.xlen
  else e.nextInstAddr

/-- The counters can account for the instruction: the counter of branches does not overflow, and
every other instruction was predicted right, unless a branch without a misprediction is left to
make up for it. -/
def Core.Accountable (cfg : CoreConfig) (e : ExecuteInterstage) (c : Core M) : Prop :=
  if e.isJump then c.predictor.totalStats.total ≠ BitVec.allOnes 32
  else c.predictor.totalStats.wrong < c.predictor.totalStats.total ∨
    (e.csrWrite && e.xret) = false ∧ e.predictedNextInstAddr = c.continuesAt cfg e

instance (cfg : CoreConfig) (e : ExecuteInterstage) (c : Core M) :
    Decidable (c.Accountable cfg e) :=
  inferInstanceAs (Decidable (if e.isJump = true then c.predictor.totalStats.total ≠ _
    else c.predictor.totalStats.wrong < _ ∨ (e.csrWrite && e.xret) = false ∧ _ = _))

variable [FrontendMemory M] {cfg : CoreConfig} {e : ExecuteInterstage} {c c' : Core M}

theorem totalStats_updatePredictor {bp : BranchPredictor} (henabled : bp.enabled = true) :
    (updatePredictor cfg e bp).totalStats =
      if e.isJump then bp.incrementJumps.totalStats else bp.totalStats := by
  unfold updatePredictor ExecuteInterstage.isJump
  cases e.branchJal <;> cases e.branchJalr <;> cases e.branchBxx <;>
    simp [totalStats_update henabled]

/-- The address that the CSR part of the memory stage hands on. -/
theorem memoryCsr_continuesAt {csr : CsrResult} (hcsr : (e.csrWrite && e.xret) = false)
    (h : memoryCsr cfg e e.nextInstAddr c = (.ok csr, c')) :
    csr.computedNextInstAddr = c.continuesAt cfg e := by
  unfold memoryCsr at h
  unfold Core.continuesAt ExecuteInterstage.returns
  split at h
  next hactive =>
    rw [hactive, Bool.true_and]
    dsimp only at h
    split at h
    next => cases h
    next written c₁ hwrite =>
      split at h
      next hxret =>
        cases h
        have hnowrite : e.csrWrite = false := by simpa [hxret] using hcsr
        rw [memoryCsrWrite, if_neg (by simp [hnowrite])] at hwrite
        cases hwrite
        rw [if_pos hxret]
        have hframe {id : Csr.Id} (hid : id ∈ [Id.mepc, .sepc]) :
            ((c.updateCsr (c.controlState.incrementInternal cfg.xlen .minstret 1)).controlState
              |>.exceptionReturn cfg.xlen c.currentPrivilege e.xretPrivlev).2.1.registerData id =
              c.controlState.registerData id := by
          have hother : id ≠ .cycle ∧ id ≠ .mstatus ∧ id ≠ .sstatus ∧ id ≠ .minstret := by
            revert id
            decide
          rw [exceptionReturn_frame _ _ hother.1 hother.2.1 hother.2.2.1]
          exact writeInternal_frame _ hother.2.2.2 hother.1 hother.2.1 hother.2.2.1
        refine congrArg (RegisterValue.asXlen cfg.xlen) (hframe ?_)
        split <;> simp
      next hxret =>
        cases h
        rw [if_neg hxret]
  next hidle =>
    cases h
    rw [if_neg (by simp [hidle])]

/-- The memory stage keeps the counters adding up. -/
theorem memory_addsUp {r : MemoryInterstage × MemoryInternalState}
    (h : memory cfg e c = (.ok r, c')) (henabled : c.predictor.enabled = true)
    (hsum : c.predictor.totalStats.AddsUp) (hcount : c.Accountable cfg e) :
    c'.predictor.enabled = true ∧ c'.predictor.totalStats.AddsUp := by
  obtain ⟨csr, c₁, hcsr, -, rfl⟩ := memory_ok h
  have hpredictor := memoryCsr_predictor cfg e (computeNextInstAddr cfg e (branchBxxTaken e))
    (memoryAccessed cfg e c)
  rw [hcsr] at hpredictor
  -- the predictor may have been flushed, which leaves the counters
  obtain ⟨bp, hbp, henabled', hstats⟩ : ∃ bp, c₁.predictor = updatePredictor cfg e bp ∧
      bp.enabled = true ∧ bp.totalStats = c.predictor.totalStats := by
    rcases memoryAccessed_predictor cfg e c with hkeep | hflushed
    · exact ⟨_, hpredictor.trans hkeep, henabled, rfl⟩
    · exact ⟨_, hpredictor.trans hflushed, henabled, rfl⟩
  have hupdated := @totalStats_updatePredictor cfg e bp henabled'
  rw [← hbp, hstats] at hupdated
  have hafter : c₁.predictor.totalStats.AddsUp ∧
      (csr.computedNextInstAddr ≠ e.predictedNextInstAddr →
        c₁.predictor.totalStats.wrong < c₁.predictor.totalStats.total) := by
    unfold Core.Accountable at hcount
    cases hjump : e.isJump with
    | true =>
      rw [hjump, if_pos rfl] at hupdated hcount
      obtain ⟨hsum', hroom⟩ := addsUp_incrementJumps (hstats ▸ hsum)
        (hstats ▸ hcount)
      rw [hupdated]
      exact ⟨hsum', fun _ => hroom⟩
    | false =>
      rw [hjump, if_neg Bool.false_ne_true] at hupdated hcount
      rw [hupdated]
      refine ⟨hsum, fun hmiss => ?_⟩
      rcases hcount with hroom | ⟨hwrite, hpredicted⟩
      · exact hroom
      · refine absurd ?_ hmiss
        have hnext : computeNextInstAddr cfg e (branchBxxTaken e) = e.nextInstAddr := by
          simp only [ExecuteInterstage.isJump, Bool.or_eq_false_iff] at hjump
          simp [computeNextInstAddr, branchBxxTaken, hjump]
        rw [hnext] at hcsr
        rw [memoryCsr_continuesAt hwrite hcsr, hpredicted, Core.continuesAt, Core.continuesAt,
          memoryAccessed, (AccessFrame.memoryAccess cfg e c).controlState]
  have henabled₁ : c₁.predictor.enabled = true := by
    rw [hbp, updatePredictor_enabled, henabled']
  unfold countMisprediction
  split
  next hmiss =>
    exact ⟨henabled₁, addsUp_incrementMispredictions (hafter.2 hmiss)⟩
  next => exact ⟨henabled₁, hafter.1⟩

/-! ### Runs -/

/-- The counters can account for the instruction in the memory stage of the step. -/
def AccountableStep {σ : Type} [MemoryStage σ M] (cfg : CoreConfig) (skipBreak : Bool) (s : σ) :
    Prop :=
  ∀ e c, MemoryStage.entering cfg skipBreak s = some (e, c) → c.Accountable cfg e

theorem addsUp_of_reachedIf {σ : Type} [Hart σ M] [MemoryStage σ M] [StagedHart σ] {s : σ}
    (henabled : c.predictor.enabled = true) (hstart : c.predictor.totalStats.AddsUp)
    (hrun : Hart.ReachedIf cfg (AccountableStep cfg) c s) :
    (Hart.core s).predictor.enabled = true ∧ (Hart.core s).predictor.totalStats.AddsUp := by
  induction hrun with
  | refl =>
    rw [StagedHart.start]
    exact ⟨henabled, hstart⟩
  | tail _ hmove ih =>
    cases hmove with
    | step skipBreak hcond hstep =>
      obtain ⟨e, cₑ, r, c₁, c₂, hentering, hmemory, haside, hend⟩ := StagedHart.step hstep
      have hsame : cₑ.predictor = _ := (StagedHart.entering hentering).predictor
      rw [hend.predictor, haside.predictor]
      exact memory_addsUp hmemory (hsame ▸ ih.1) (hsame ▸ ih.2) (hcond e cₑ hentering)
    | interrupt irqNum active =>
      rw [StagedHart.setCore]
      exact ih

/-- In every run of a core with an enabled predictor, in which the counters can account for every
instruction, they add up. -/
theorem branch_statistics_add_up {type : PredictorType} {state : PredictorState}
    {btbBits bhrBits bhtAddrBits : TableBits}
    (hnew : BranchPredictor.new true type state btbBits bhrBits bhtAddrBits = some c.predictor) :
    (∀ s : CoreSingle M, Hart.ReachedIf cfg (AccountableStep cfg) c s →
        s.core.predictor.totalStats.AddsUp) ∧
      ∀ s : CorePipelined M, Hart.ReachedIf cfg (AccountableStep cfg) c s →
        s.core.predictor.totalStats.AddsUp := by
  obtain ⟨henabled, hstats⟩ : c.predictor.enabled = true ∧ c.predictor.totalStats = {} := by
    simp only [BranchPredictor.new, Option.map_eq_some_iff] at hnew
    obtain ⟨predictor, -, hpredictor⟩ := hnew
    rw [← hpredictor]
    exact ⟨rfl, rfl⟩
  have hstart : c.predictor.totalStats.AddsUp := by
    rw [hstats]
    decide
  exact ⟨fun s hrun => (addsUp_of_reachedIf henabled hstart hrun).2,
    fun s hrun => (addsUp_of_reachedIf henabled hstart hrun).2⟩

/-- `jal x0, 8`. -/
theorem branch_statistics_add_up_jal :
    ∃ s', CoreSingle.step (.rv32 .none) false (.start (predictingCore 0x0080006f)) = (.ok (), s') ∧
      s'.core.predictor.totalStats.AddsUp := by
  have hstep := Hart.step_of_isOk (show (Hart.step (.rv32 .none) false
    (CoreSingle.start (predictingCore 0x0080006f))).1.isOk = true by decide +kernel)
  have hcount : (MemoryStage.entering (.rv32 .none) false
      (CoreSingle.start (predictingCore 0x0080006f))).all
      (fun x => decide (x.2.Accountable (.rv32 .none) x.1)) = true := by decide +kernel
  have hnew : new true .smith1Bit .notTaken 2 0 2 =
    some (predictingCore 0x0080006f).predictor := rfl
  refine ⟨_, hstep, (branch_statistics_add_up hnew).1 _
    (.tail .refl (.step false (fun e c hentering => ?_) hstep))⟩
  exact of_decide_eq_true ((Option.all_eq_true _ _).mp hcount (e, c) hentering)

/-- `mret` is counted as a wrong prediction out of none. -/
theorem mret_counted_as_wrong :
    ((Hart.after (.rv32 .none) false 1 (CoreSingle.start (predictingCore 0x30200073))).map
        fun s => s.core.predictor.totalStats) =
        some { total := 0, correct := 0xffffffff, wrong := 1 } ∧
      ((Hart.after (.rv32 .none) false 4 (CorePipelined.start (predictingCore 0x30200073))).map
        fun s => s.core.predictor.totalStats) =
        some { total := 0, correct := 0xffffffff, wrong := 1 } := by
  decide +kernel

end QtRvSim
