import QtRvSim.Core.ControlEffect

/-!
# Invariants of the stage registers

A property of the instructions in flight that may depend on the privilege and on `mstatus` survives
a run of the pipelined core if every stage hands it on: whatever changes the privilege or `mstatus`
also flushes the stages behind it.
-/

namespace QtRvSim

open Csr ControlState Core CorePipelined

variable {M : Type} [FrontendMemory M] {cfg : CoreConfig}

structure SameMode (c c' : Core M) : Prop where
  privilege : c'.currentPrivilege = c.currentPrivilege
  mstatus : c'.controlState.registerData .mstatus = c.controlState.registerData .mstatus

namespace SameMode

omit [FrontendMemory M] in
theorem symm {c c' : Core M} (h : SameMode c c') : SameMode c' c :=
  ⟨h.privilege.symm, h.mstatus.symm⟩

omit [FrontendMemory M] in
theorem trans {c c' c'' : Core M} (h : SameMode c c') (h' : SameMode c' c'') : SameMode c c'' :=
  ⟨h'.privilege.trans h.privilege, h'.mstatus.trans h.mstatus⟩

omit [FrontendMemory M] in
theorem of_control {c c' : Core M} (hcontrol : c'.controlState = c.controlState)
    (hprivilege : c'.currentPrivilege = c.currentPrivilege) : SameMode c c' :=
  ⟨hprivilege, by rw [hcontrol]⟩

omit [FrontendMemory M] in
theorem nextCycle (c : Core M) : SameMode c c.nextCycle := ⟨rfl, rfl⟩

theorem cycleCounted_mstatus (cfg : CoreConfig) (cs : ControlState) :
    (cycleCounted cfg cs).registerData .mstatus = cs.registerData .mstatus := by
  simp [cycleCounted, incrementInternal, runWriteHandler, registers]

theorem instructionCounted_mstatus (cfg : CoreConfig) (cs : ControlState) :
    (instructionCounted cfg cs).registerData .mstatus = cs.registerData .mstatus := by
  simp [instructionCounted, incrementInternal, runWriteHandler, registers]

theorem fetch (pc : PCInterstage) (skipBreak : Bool) (c : Core M) :
    SameMode c (Core.fetch cfg pc skipBreak c).2 := by
  obtain ⟨hcontrol, hprivilege⟩ := fetch_control cfg pc skipBreak c
  refine ⟨hprivilege, ?_⟩
  rw [hcontrol]
  split
  · rfl
  · exact cycleCounted_mstatus _ _

omit [FrontendMemory M] in
theorem writeback (w : MemoryInterstage) (c : Core M) : SameMode c (Core.writeback w c) :=
  of_control (writeback_control w c).1 (writeback_control w c).2

/-- A memory stage that reports no CSR write leaves the mode. -/
theorem memory {dt : ExecuteInterstage} {r : MemoryInterstage × MemoryInternalState}
    {c c' : Core M} (h : Core.memory cfg dt c = (.ok r, c')) (hcsr : r.1.csrWritten = false) :
    SameMode c c' := by
  have heffect := memory_effect h
  rw [hcsr] at heffect
  refine ⟨memory_privilege h hcsr, ?_⟩
  generalize c'.controlState = cs', c'.currentPrivilege = privilege' at heffect ⊢
  cases heffect with
  | idle => rfl
  | count _ _ hwrite =>
    cases hwrite
    exact instructionCounted_mstatus _ _

/-- So does one that was given an exception. -/
theorem memory_of_excause {dt : ExecuteInterstage} {r : MemoryInterstage × MemoryInternalState}
    {c c' : Core M} (h : Core.memory cfg dt c = (.ok r, c')) (hexcause : dt.excause ≠ .none) :
    SameMode c c' := by
  have heffect := memory_effect h
  generalize hwritten : r.1.csrWritten = written at heffect
  generalize hcs : c'.controlState = cs', hprivilege : c'.currentPrivilege = privilege' at heffect
  cases heffect with
  | idle => exact of_control hcs hprivilege
  | count hnone | xret hnone => exact absurd hnone hexcause

/-- Interrupt lines do not touch the mode. -/
theorem setInterruptSignal (irqNum : Nat) (active : Bool) (c : Core M) :
    SameMode c (c.setInterruptSignal irqNum active) := by
  refine ⟨rfl, ?_⟩
  show (c.controlState.setInterruptSignal irqNum active).1.registerData .mstatus = _
  unfold ControlState.setInterruptSignal
  split
  · rfl
  · simp

end SameMode

/-- Properties of the stage registers that every stage behind the fetch stage hands on, for a mode
that stays the same. -/
structure StageHandover (M : Type) [FrontendMemory M] (cfg : CoreConfig)
    (fetched : Core M → FetchInterstage → Prop) (decoded : Core M → DecodeInterstage → Prop)
    (executed : Core M → ExecuteInterstage → Prop) : Prop where
  emptyFetch : ∀ c, fetched c {}
  emptyDecode : ∀ c, decoded c {}
  emptyExecute : ∀ c, executed c {}
  decode : ∀ {c : Core M} {f d}, fetched c f → Core.decode cfg f c = .ok d → decoded c d
  operands : ∀ {c : Core M} {d} valRs valRt ffRs ffRt, decoded c d →
    decoded c (CorePipelined.withOperands d valRs valRt ffRs ffRt)
  execute : ∀ {c : Core M} {d}, decoded c d → executed c (Core.execute d)
  frameFetch : ∀ {c c' : Core M} {f}, SameMode c c' → fetched c f → fetched c' f
  frameDecode : ∀ {c c' : Core M} {d}, SameMode c c' → decoded c d → decoded c' d
  frameExecute : ∀ {c c' : Core M} {e}, SameMode c c' → executed c e → executed c' e

/-- Properties of the stage registers that every stage hands on, for a mode that stays the same. -/
structure StageInvariant (M : Type) [FrontendMemory M] (cfg : CoreConfig)
    (fetched : Core M → FetchInterstage → Prop) (decoded : Core M → DecodeInterstage → Prop)
    (executed : Core M → ExecuteInterstage → Prop) : Prop
    extends StageHandover M cfg fetched decoded executed where
  fetch : ∀ c pc skipBreak,
    fetched (Core.fetch cfg pc skipBreak c).2 (Core.fetch cfg pc skipBreak c).1

section Handover

variable {fetched : Core M → FetchInterstage → Prop} {decoded : Core M → DecodeInterstage → Prop}
  {executed : Core M → ExecuteInterstage → Prop}

structure StageInvariant.InFlight (fetched : Core M → FetchInterstage → Prop)
    (decoded : Core M → DecodeInterstage → Prop) (executed : Core M → ExecuteInterstage → Prop)
    (s : CorePipelined M) : Prop where
  ifId : fetched s.core s.pipeline.ifId
  idEx : decoded s.core s.pipeline.idEx
  exMem : executed s.core s.pipeline.exMem

open StageInvariant (InFlight)

namespace StageHandover

variable (hinv : StageHandover M cfg fetched decoded executed)

include hinv

theorem inFlight_start (c : Core M) : InFlight fetched decoded executed (start c) :=
  ⟨hinv.emptyFetch _, hinv.emptyDecode _, hinv.emptyExecute _⟩

theorem resolveHazards {c : Core M} {p : Pipeline} (h : decoded c p.idEx) :
    decoded c (resolveHazards cfg p).2 := by
  obtain ⟨valRs, valRt, ffRs, ffRt, hfields⟩ := resolveHazards_fields cfg p
  rw [hfields]
  exact hinv.operands _ _ _ _ h

/-- The end of a step that goes on, drains or stalls hands the properties on; the other ends leave
no instruction in flight. -/
theorem afterStages {jumpBranchPc : Address} {savedIfId : FetchInterstage} {s s' : CorePipelined M}
    (hsaved : s.pipeline.memWb.csrWritten = false → fetched s.core savedIfId)
    (h : s.pipeline.memWb.csrWritten = false → InFlight fetched decoded executed s)
    (hend : afterStages cfg jumpBranchPc savedIfId s = (.ok (), s')) :
    InFlight fetched decoded executed s' := by
  have hcases := afterStages_end cfg jumpBranchPc savedIfId s
  rw [hend] at hcases
  generalize houtcome : ((.ok (), s') : Outcome (CorePipelined M) Unit) = outcome at hcases
  have hwritten (hredirect : redirects s.pipeline = false) :
      s.pipeline.memWb.csrWritten = false := by
    simp only [redirects, Bool.or_eq_false_iff] at hredirect
    exact hredirect.2
  cases hcases with
  | exception =>
    unfold takeException at houtcome
    dsimp only at houtcome
    split at houtcome
    next => cases houtcome
    next =>
      split at houtcome
      · cases houtcome
        exact ⟨hinv.emptyFetch _, hinv.emptyDecode _, hinv.emptyExecute _⟩
      · cases houtcome
  | redirect =>
    unfold flushAndContinueFromAddress at houtcome
    split at houtcome
    · cases houtcome
    · cases houtcome
      exact ⟨hinv.emptyFetch _, hinv.emptyDecode _, hinv.emptyExecute _⟩
  | drainExecute _ hredirect =>
    cases houtcome
    exact ⟨hinv.emptyFetch _, hinv.emptyDecode _, (h (hwritten hredirect)).exMem⟩
  | drainDecode _ hredirect =>
    cases houtcome
    have hflight := h (hwritten hredirect)
    exact ⟨hinv.emptyFetch _, hinv.resolveHazards hflight.idEx, hflight.exMem⟩
  | stall _ hredirect =>
    cases houtcome
    have hmode : SameMode s.core { s.core with stallCount := s.core.stallCount + 1 } :=
      ⟨rfl, rfl⟩
    exact ⟨hinv.frameFetch hmode (hsaved (hwritten hredirect)), hinv.emptyDecode _,
      hinv.frameExecute hmode (h (hwritten hredirect)).exMem⟩
  | goOn _ hredirect =>
    have hflight := h (hwritten hredirect)
    unfold goOn at houtcome
    dsimp only at houtcome
    split at houtcome
    next => cases houtcome
    next c hpc =>
      cases houtcome
      have hmode : SameMode s.core c :=
        .of_control (writePc_ok_control hpc).1 (writePc_ok_control hpc).2
      exact ⟨hinv.frameFetch hmode hflight.ifId,
        hinv.frameDecode hmode (hinv.resolveHazards hflight.idEx),
        hinv.frameExecute hmode hflight.exMem⟩

/-- A step keeps the properties, if it fetches an instruction with them. -/
theorem step {skipBreak : Bool} {s s' : CorePipelined M}
    (h : InFlight fetched decoded executed s)
    (hfetches : ∀ r c, Core.memory cfg s.pipeline.exMem
        (Core.writeback s.pipeline.memWb s.core.nextCycle) = (.ok r, c) →
      fetched (Core.fetch cfg s.pipeline.pcIf skipBreak c).2
        (Core.fetch cfg s.pipeline.pcIf skipBreak c).1)
    (hstep : CorePipelined.step cfg skipBreak s = (.ok (), s')) :
    InFlight fetched decoded executed s' := by
  rw [CorePipelined.step, CorePipelined.doStep_stages] at hstep
  split at hstep
  next => cases hstep
  next s₁ hstages =>
    obtain ⟨r, c, idEx, hmemory, hdecode, rfl⟩ := CorePipelined.stages_ok hstages
    -- the mode of the core is the same before and after the memory stage
    have hback : SameMode s.core (Core.writeback s.pipeline.memWb s.core.nextCycle) :=
      (SameMode.nextCycle s.core).trans (.writeback s.pipeline.memWb s.core.nextCycle)
    have hmode (hcsr : r.1.csrWritten = false) : SameMode s.core c :=
      hback.trans (.memory hmemory hcsr)
    have hfetch : SameMode c (Core.fetch cfg s.pipeline.pcIf skipBreak c).2 := .fetch _ _ _
    refine hinv.afterStages ?_ ?_ hstep
    · intro hcsr
      exact hinv.frameFetch ((hmode hcsr).trans hfetch) h.ifId
    · intro hcsr
      exact ⟨hfetches r c hmemory,
        hinv.frameDecode hfetch (hinv.decode (hinv.frameFetch (hmode hcsr) h.ifId) hdecode),
        hinv.frameExecute ((hmode hcsr).trans hfetch) (hinv.execute h.idEx)⟩

/-- Interrupt lines keep the properties. -/
theorem interrupt {s : CorePipelined M} (h : InFlight fetched decoded executed s) (irqNum : Nat)
    (active : Bool) : InFlight fetched decoded executed
      { s with core := s.core.setInterruptSignal irqNum active } := by
  have hmode : SameMode s.core (s.core.setInterruptSignal irqNum active) :=
    .setInterruptSignal irqNum active s.core
  exact ⟨hinv.frameFetch hmode h.ifId, hinv.frameDecode hmode h.idEx,
    hinv.frameExecute hmode h.exMem⟩

end StageHandover

/-- The properties hold in every state that a run reaches. -/
theorem StageInvariant.reached (hinv : StageInvariant M cfg fetched decoded executed) {c : Core M}
    {s : CorePipelined M} (hrun : Hart.Reached cfg c s) :
    InFlight fetched decoded executed s := by
  apply hrun.invariant (hinv.inFlight_start c)
  intro s s' hmove h
  cases hmove with
  | step skipBreak hstep => exact hinv.step h (fun _ _ _ => hinv.fetch _ _ _) hstep
  | interrupt irqNum active => exact hinv.interrupt h irqNum active

end Handover

end QtRvSim
