import QtRvSim.Core.Frame
import QtRvSim.Core.Hazards

/-!
# Ends of a pipeline step

After its five stages the pipelined core does one of six things: it takes the exception of the
instruction in the memory stage, it redirects the program counter and flushes, it drains the
pipeline behind an exception in an earlier stage, it stalls, or it goes on at the predicted
address.
-/

namespace QtRvSim

namespace CorePipelined

variable {M : Type} [FrontendMemory M]

/-- The instruction in the memory stage does not continue at the predicted address, or it has
written a CSR. -/
def redirects (p : Pipeline) : Bool :=
  detectMispredictedJump p || p.memWb.csrWritten

def stalls (cfg : CoreConfig) (p : Pipeline) : Bool :=
  (resolveHazards cfg p).1 || isStallRequested p

def goOn (cfg : CoreConfig) (s : CorePipelined M) : Outcome (CorePipelined M) Unit :=
  let s := { s with
    pipeline := { s.pipeline with pcIf := {}, idEx := (resolveHazards cfg s.pipeline).2 } }
  match s.core.writePc s.pipeline.ifId.predictedNextInstAddr with
  | (.error e, core) => (.error e, { s with core := core })
  | (.ok (), core) => (.ok (), { s with core := core })

/-- The ends of a step whose stages have left the given state. -/
inductive StageEnd (cfg : CoreConfig) (jumpBranchPc : Address) (savedIfId : FetchInterstage)
    (s : CorePipelined M) : Outcome (CorePipelined M) Unit → Prop where
  | exception (hexception : s.pipeline.memWb.excause ≠ .none) :
      StageEnd cfg jumpBranchPc savedIfId s (takeException cfg jumpBranchPc
        { s with pipeline := { s.pipeline with pcIf := {}, exMem := {}, idEx := {}, ifId := {} } })
  | redirect (hexception : s.pipeline.memWb.excause = .none)
      (hredirect : redirects s.pipeline = true) (ifId : FetchInterstage)
      (idEx : DecodeInterstage) :
      StageEnd cfg jumpBranchPc savedIfId s
        (flushAndContinueFromAddress s.pipeline.memWb.computedNextInstAddr
          { s with pipeline := { s.pipeline with pcIf := {}, ifId := ifId, idEx := idEx } })
  | drainExecute (hexception : s.pipeline.memWb.excause = .none)
      (hredirect : redirects s.pipeline = false) (hexecute : s.pipeline.exMem.excause ≠ .none) :
      StageEnd cfg jumpBranchPc savedIfId s
        (.ok (), { s with
          pipeline := { s.pipeline with pcIf := { stopIf := true }, idEx := {}, ifId := {} } })
  | drainDecode (hexception : s.pipeline.memWb.excause = .none)
      (hredirect : redirects s.pipeline = false) (hexecute : s.pipeline.exMem.excause = .none)
      (hdecode : s.pipeline.idEx.excause ≠ .none) :
      StageEnd cfg jumpBranchPc savedIfId s
        (.ok (), { s with
          pipeline := { s.pipeline with
            pcIf := { stopIf := true }
            idEx := (resolveHazards cfg s.pipeline).2
            ifId := {} } })
  | stall (hexception : s.pipeline.memWb.excause = .none)
      (hredirect : redirects s.pipeline = false) (hexecute : s.pipeline.exMem.excause = .none)
      (hdecode : s.pipeline.idEx.excause = .none) (hstall : stalls cfg s.pipeline = true) :
      StageEnd cfg jumpBranchPc savedIfId s
        (.ok (), handleStall savedIfId { s with pipeline := { s.pipeline with pcIf := {} } })
  | goOn (hexception : s.pipeline.memWb.excause = .none)
      (hredirect : redirects s.pipeline = false) (hexecute : s.pipeline.exMem.excause = .none)
      (hdecode : s.pipeline.idEx.excause = .none) (hstall : stalls cfg s.pipeline = false) :
      StageEnd cfg jumpBranchPc savedIfId s (goOn cfg s)

variable (cfg : CoreConfig)

/-- The hazard unit changes nothing but the operands. -/
theorem resolveHazards_fields (p : Pipeline) :
    ∃ valRs valRt ffRs ffRt,
      (resolveHazards cfg p).2 = withOperands p.idEx valRs valRt ffRs ffRt := by
  unfold resolveHazards
  split
  next hunit => exact handleDataHazards_fields hunit p
  next => exact ⟨_, _, _, _, rfl⟩

variable {p : Pipeline}

/-- There are no hazards for a flushed instruction. -/
theorem resolveHazards_flushed (hflushed : p.idEx = {}) : (resolveHazards cfg p).2 = {} := by
  unfold resolveHazards
  cases cfg.hazardUnit with
  | none => exact hflushed
  | stall =>
    simp only [ne_eq, reduceCtorEq, not_false_eq_true, if_true, handleDataHazards_stall]
    exact hflushed
  | stallForward =>
    simp only [ne_eq, reduceCtorEq, not_false_eq_true, if_true, handleDataHazards_forward,
      isHazardInStage_eq, hflushed, writesOperand, Bool.false_and, Bool.or_false]
    rfl

/-- Stages that write no register cause no stall. -/
theorem resolveHazards_of_not_writes
    (hmemWb : ∀ reg, writesRegister p.memWb.regwrite p.memWb.numRd reg = false)
    (hexMem : ∀ reg, writesRegister p.exMem.regwrite p.exMem.numRd reg = false) :
    (resolveHazards cfg p).1 = false := by
  unfold resolveHazards
  cases cfg.hazardUnit with
  | none => rfl
  | stall =>
    simp only [ne_eq, reduceCtorEq, not_false_eq_true, if_true, handleDataHazards_stall,
      isHazardInStage_eq, writesOperand, hmemWb, hexMem, Bool.and_false, Bool.or_false]
  | stallForward =>
    simp only [ne_eq, reduceCtorEq, not_false_eq_true, if_true, handleDataHazards_forward,
      isHazardInStage_eq, writesOperand, hexMem, Bool.and_false, Bool.or_false, Bool.false_and]
    rfl

theorem flushExceptions_memory (hmemory : p.memWb.excause ≠ .none) :
    flushExceptions p = (true, { p with exMem := {}, idEx := {}, ifId := {} }) := by
  simp [flushExceptions, hmemory]

section

variable (hmemory : p.memWb.excause = .none)
include hmemory

theorem flushExceptions_execute (hexecute : p.exMem.excause ≠ .none) :
    flushExceptions p = (true, { p with idEx := {}, ifId := {} }) := by
  simp [flushExceptions, hmemory, hexecute]

theorem flushExceptions_decode (hexecute : p.exMem.excause = .none)
    (hdecode : p.idEx.excause ≠ .none) : flushExceptions p = (true, { p with ifId := {} }) := by
  simp [flushExceptions, hmemory, hexecute, hdecode]

theorem flushExceptions_none (hexecute : p.exMem.excause = .none)
    (hdecode : p.idEx.excause = .none) : flushExceptions p = (false, p) := by
  simp [flushExceptions, hmemory, hexecute, hdecode]

end

section PcStage

variable {cfg : CoreConfig} {jumpBranchPc : Address} {savedIfId : FetchInterstage}
  {s : CorePipelined M}

variable (hmemory : s.pipeline.memWb.excause = .none)
include hmemory

theorem pcStage_redirect (hredirect : redirects s.pipeline = true)
    (exceptionInProgress stall : Bool) :
    pcStage cfg jumpBranchPc savedIfId exceptionInProgress stall s =
      flushAndContinueFromAddress s.pipeline.memWb.computedNextInstAddr
        { s with pipeline := { s.pipeline with pcIf := {} } } := by
  unfold pcStage
  rw [if_neg (not_not.mpr hmemory)]
  exact if_pos hredirect

variable (hredirect : redirects s.pipeline = false)
include hredirect

theorem pcStage_inProgress (stall : Bool) :
    pcStage cfg jumpBranchPc savedIfId true stall s =
      (.ok (), { s with pipeline := { s.pipeline with pcIf := { stopIf := true } } }) := by
  unfold pcStage
  rw [if_neg (not_not.mpr hmemory)]
  exact (if_neg (Bool.eq_false_iff.mp hredirect)).trans (if_pos rfl)

theorem pcStage_stall {stall : Bool} (hstall : (stall || isStallRequested s.pipeline) = true) :
    pcStage cfg jumpBranchPc savedIfId false stall s =
      (.ok (), handleStall savedIfId { s with pipeline := { s.pipeline with pcIf := {} } }) := by
  unfold pcStage
  rw [if_neg (not_not.mpr hmemory)]
  exact (if_neg (Bool.eq_false_iff.mp hredirect)).trans
    ((if_neg Bool.false_ne_true).trans (if_pos hstall))

theorem pcStage_goOn {stall : Bool} (hstall : (stall || isStallRequested s.pipeline) = false) :
    pcStage cfg jumpBranchPc savedIfId false stall s =
      match s.core.writePc s.pipeline.ifId.predictedNextInstAddr with
      | (.error e, core) =>
        (.error e, { core := core, pipeline := { s.pipeline with pcIf := {} } })
      | (.ok (), core) =>
        (.ok (), { core := core, pipeline := { s.pipeline with pcIf := {} } }) := by
  unfold pcStage
  rw [if_neg (not_not.mpr hmemory)]
  exact (if_neg (Bool.eq_false_iff.mp hredirect)).trans
    ((if_neg Bool.false_ne_true).trans (if_neg (Bool.eq_false_iff.mp hstall)))

end PcStage

/-- A step ends in one of the six ways. -/
theorem afterStages_end (jumpBranchPc : Address) (savedIfId : FetchInterstage) (s : CorePipelined M)
    : StageEnd cfg jumpBranchPc savedIfId s (afterStages cfg jumpBranchPc savedIfId s) := by
  unfold afterStages
  by_cases hmemory : s.pipeline.memWb.excause = .none
  case neg =>
    have h := @StageEnd.exception M _ cfg jumpBranchPc savedIfId s hmemory
    rw [flushExceptions_memory hmemory]
    simp only [resolveHazards_flushed, pcStage, if_pos hmemory]
    exact h
  cases hredirect : redirects s.pipeline with
  | true =>
    by_cases hexecute : s.pipeline.exMem.excause = .none
    · by_cases hdecode : s.pipeline.idEx.excause = .none
      · rw [flushExceptions_none hmemory hexecute hdecode]
        dsimp only
        rw [pcStage_redirect ?_ ?_]
        exacts [.redirect hmemory hredirect _ _, hmemory, hredirect]
      · rw [flushExceptions_decode hmemory hexecute hdecode]
        dsimp only
        rw [pcStage_redirect ?_ ?_]
        exacts [.redirect hmemory hredirect _ _, hmemory, hredirect]
    · rw [flushExceptions_execute hmemory hexecute]
      dsimp only
      rw [pcStage_redirect ?_ ?_]
      exacts [.redirect hmemory hredirect _ _, hmemory, hredirect]
  | false =>
    by_cases hexecute : s.pipeline.exMem.excause = .none
    · by_cases hdecode : s.pipeline.idEx.excause = .none
      · rw [flushExceptions_none hmemory hexecute hdecode]
        dsimp only
        obtain ⟨valRs, valRt, ffRs, ffRt, hfields⟩ := resolveHazards_fields cfg s.pipeline
        have hstalls : ((resolveHazards cfg s.pipeline).1 || isStallRequested { s.pipeline with
            idEx := (resolveHazards cfg s.pipeline).2 }) = stalls cfg s.pipeline := by
          rw [hfields]
          rfl
        cases hstall : stalls cfg s.pipeline with
        | true =>
          rw [pcStage_stall ?_ ?_ ?_]
          exacts [.stall hmemory hredirect hexecute hdecode hstall, hmemory, hredirect,
            hstalls.trans hstall]
        | false =>
          rw [pcStage_goOn ?_ ?_ ?_]
          exacts [.goOn hmemory hredirect hexecute hdecode hstall, hmemory, hredirect,
            hstalls.trans hstall]
      · rw [flushExceptions_decode hmemory hexecute hdecode]
        dsimp only
        rw [pcStage_inProgress ?_ ?_]
        exacts [.drainDecode hmemory hredirect hexecute hdecode, hmemory, hredirect]
    · rw [flushExceptions_execute hmemory hexecute]
      simp only [resolveHazards_flushed]
      rw [pcStage_inProgress ?_ ?_]
      exacts [.drainExecute hmemory hredirect hexecute, hmemory, hredirect]

theorem afterStages_of_exception {s : CorePipelined M}
    (hexception : s.pipeline.memWb.excause ≠ .none) (cfg : CoreConfig) (jumpBranchPc : Address)
    (savedIfId : FetchInterstage) :
    afterStages cfg jumpBranchPc savedIfId s = takeException cfg jumpBranchPc
      { s with
        pipeline := { s.pipeline with pcIf := {}, exMem := {}, idEx := {}, ifId := {} } } := by
  have hend := afterStages_end cfg jumpBranchPc savedIfId s
  generalize afterStages cfg jumpBranchPc savedIfId s = outcome at hend ⊢
  cases hend with
  | exception => rfl
  | redirect hnone | drainExecute hnone | drainDecode hnone | stall hnone | goOn hnone =>
    exact absurd hnone hexception

theorem afterStages_of_redirects {s : CorePipelined M} {cfg : CoreConfig}
    (hexception : s.pipeline.memWb.excause = .none) (hredirects : redirects s.pipeline = true)
    (jumpBranchPc : Address) (savedIfId : FetchInterstage) :
    ∃ ifId idEx, afterStages cfg jumpBranchPc savedIfId s =
      flushAndContinueFromAddress s.pipeline.memWb.computedNextInstAddr
        { s with pipeline := { s.pipeline with pcIf := {}, ifId := ifId, idEx := idEx } } := by
  have hend := afterStages_end cfg jumpBranchPc savedIfId s
  generalize afterStages cfg jumpBranchPc savedIfId s = outcome at hend ⊢
  cases hend with
  | exception hraised => exact absurd hexception hraised
  | redirect _ _ ifId idEx => exact ⟨ifId, idEx, rfl⟩
  | drainExecute _ hnot | drainDecode _ hnot | stall _ hnot | goOn _ hnot =>
    rw [hredirects] at hnot
    cases hnot

theorem fetch_predictor (cfg : CoreConfig) (pc : PCInterstage) (skipBreak : Bool) (c : Core M) :
    (Core.fetch cfg pc skipBreak c).2.predictor = c.predictor := by
  unfold Core.fetch
  split <;> rfl

end CorePipelined

end QtRvSim
