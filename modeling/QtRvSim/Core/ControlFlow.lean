import QtRvSim.Core.StageInvariant

/-!
# Control flow of the pipelined core

Where a step of the pipelined core leaves the stage registers and the program counter, and the
invariant that orders the instructions in flight: every instruction is followed by the one at the
address that was predicted for it.  An instruction that leaves the memory stage is then followed by
the one at the address the memory stage has computed (`CorePipelined.step_continues`).
-/

namespace QtRvSim

open Core

variable {M : Type} [FrontendMemory M] {cfg : CoreConfig} {skipBreak : Bool}

namespace CorePipelined

/-- What a step leaves that began with the registers `p` and the program counter `pc`, whose memory
stage has left `w`, whose decode stage `d` and whose fetch stage `f`. -/
inductive Ended (p : Pipeline) (pc : Address) (w : MemoryInterstage) (d : DecodeInterstage)
    (f : FetchInterstage) (s' : CorePipelined M) : Prop where
  | exception (hexcause : w.excause ≠ .none) (hifId : s'.pipeline.ifId = {})
      (hidEx : s'.pipeline.idEx = {}) (hexMem : s'.pipeline.exMem = {})
      (hpcIf : s'.pipeline.pcIf = {})
  | redirect (hexcause : w.excause = .none) (hifId : s'.pipeline.ifId = {})
      (hidEx : s'.pipeline.idEx = {}) (hexMem : s'.pipeline.exMem = {})
      (hpcIf : s'.pipeline.pcIf = {}) (hpc : s'.core.regs.pc = w.computedNextInstAddr)
      (hredirect : w.computedNextInstAddr ≠ w.predictedNextInstAddr ∨ w.csrWritten = true)
  | drainExecute (hexcause : w.excause = .none)
      (hcomputed : w.computedNextInstAddr = w.predictedNextInstAddr)
      (hraised : p.idEx.excause ≠ .none) (hifId : s'.pipeline.ifId = {})
      (hidEx : s'.pipeline.idEx = {}) (hexMem : s'.pipeline.exMem = execute p.idEx)
      (hpc : s'.core.regs.pc = pc)
  | drainDecode (hexcause : w.excause = .none)
      (hcomputed : w.computedNextInstAddr = w.predictedNextInstAddr)
      (hnone : p.idEx.excause = .none) (hraised : d.excause ≠ .none)
      (hifId : s'.pipeline.ifId = {}) {valRs valRt : RegisterValue} {ffRs ffRt : ForwardFrom}
      (hidEx : s'.pipeline.idEx = withOperands d valRs valRt ffRs ffRt)
      (hexMem : s'.pipeline.exMem = execute p.idEx) (hpc : s'.core.regs.pc = pc)
  | stall (hexcause : w.excause = .none)
      (hcomputed : w.computedNextInstAddr = w.predictedNextInstAddr)
      (hnone : p.idEx.excause = .none) (hifId : s'.pipeline.ifId = p.ifId)
      (hidEx : s'.pipeline.idEx = {}) (hexMem : s'.pipeline.exMem = execute p.idEx)
      (hpcIf : s'.pipeline.pcIf = {}) (hpc : s'.core.regs.pc = pc)
  | goOn (hexcause : w.excause = .none)
      (hcomputed : w.computedNextInstAddr = w.predictedNextInstAddr)
      (hnone : p.idEx.excause = .none) (hdecoded : d.excause = .none)
      (hifId : s'.pipeline.ifId = f) {valRs valRt : RegisterValue} {ffRs ffRt : ForwardFrom}
      (hidEx : s'.pipeline.idEx = withOperands d valRs valRt ffRs ffRt)
      (hexMem : s'.pipeline.exMem = execute p.idEx) (hpcIf : s'.pipeline.pcIf = {})
      (hpc : s'.core.regs.pc = f.predictedNextInstAddr)

/-- A step that does not throw: `r` and `c` are what the memory stage leaves and `d` is the decoded
instruction. -/
structure Stepped (cfg : CoreConfig) (skipBreak : Bool) (s s' : CorePipelined M)
    (r : MemoryInterstage × MemoryInternalState) (d : DecodeInterstage) (c : Core M) : Prop where
  memory : Core.memory cfg s.pipeline.exMem (writeback s.pipeline.memWb s.core.nextCycle) =
    (.ok r, c)
  decode : Core.decode cfg s.pipeline.ifId c = .ok d
  memWb : s'.pipeline.memWb = r.1
  ended : Ended s.pipeline s.core.regs.pc r.1 d (fetch cfg s.pipeline.pcIf skipBreak c).1 s'

theorem computed_of_not_redirects {p : Pipeline} (h : redirects p = false) :
    p.memWb.computedNextInstAddr = p.memWb.predictedNextInstAddr := by
  simpa [redirects, detectMispredictedJump] using (Bool.or_eq_false_iff.mp h).1

theorem afterStages_ended {jumpBranchPc : Address} {p : Pipeline} {s s' : CorePipelined M}
    (hexMem : s.pipeline.exMem = execute p.idEx)
    (hend : afterStages cfg jumpBranchPc p.ifId s = (.ok (), s')) :
    s'.pipeline.memWb = s.pipeline.memWb ∧
      Ended p s.core.regs.pc s.pipeline.memWb s.pipeline.idEx s.pipeline.ifId s' := by
  have hcases := afterStages_end cfg jumpBranchPc p.ifId s
  rw [hend] at hcases
  obtain ⟨valRs, valRt, ffRs, ffRt, hfields⟩ := resolveHazards_fields cfg s.pipeline
  generalize houtcome : ((.ok (), s') : Outcome (CorePipelined M) Unit) = outcome at hcases
  have hexcause : s.pipeline.exMem.excause = p.idEx.excause := by rw [hexMem]; rfl
  cases hcases with
  | exception hexception =>
    unfold takeException at houtcome
    dsimp only at houtcome
    split at houtcome
    next => cases houtcome
    next =>
      split at houtcome
      · cases houtcome
        exact ⟨rfl, .exception hexception rfl rfl rfl rfl⟩
      · cases houtcome
  | redirect hexception hredirect =>
    unfold flushAndContinueFromAddress at houtcome
    split at houtcome
    next => cases houtcome
    next c hpc =>
      cases houtcome
      obtain ⟨haligned, rfl⟩ := writePc_ok hpc
      refine ⟨rfl, .redirect hexception rfl rfl rfl rfl rfl ?_⟩
      simpa [redirects, detectMispredictedJump] using hredirect
  | drainExecute hexception hredirect hexecute =>
    cases houtcome
    exact ⟨rfl, .drainExecute hexception (computed_of_not_redirects hredirect)
      (hexcause ▸ hexecute) rfl rfl hexMem rfl⟩
  | drainDecode hexception hredirect hexecute hdecode =>
    cases houtcome
    exact ⟨rfl, .drainDecode hexception (computed_of_not_redirects hredirect)
      (hexcause ▸ hexecute) hdecode rfl hfields hexMem rfl⟩
  | stall hexception hredirect hexecute hdecode hstall =>
    cases houtcome
    exact ⟨rfl, .stall hexception (computed_of_not_redirects hredirect)
      (hexcause ▸ hexecute) rfl rfl hexMem rfl rfl⟩
  | goOn hexception hredirect hexecute hdecode hstall =>
    unfold CorePipelined.goOn at houtcome
    dsimp only at houtcome
    split at houtcome
    next => cases houtcome
    next c hpc =>
      cases houtcome
      obtain ⟨haligned, rfl⟩ := writePc_ok hpc
      exact ⟨rfl, .goOn hexception (computed_of_not_redirects hredirect)
        (hexcause ▸ hexecute) hdecode rfl hfields hexMem rfl rfl⟩

variable {s s' : CorePipelined M}

theorem step_stepped (hstep : step cfg skipBreak s = (.ok (), s')) :
    ∃ r d c, Stepped cfg skipBreak s s' r d c := by
  rw [step, doStep_stages] at hstep
  split at hstep
  next => cases hstep
  next s₁ hstages =>
    obtain ⟨r, c, idEx, hmemory, hdecode, rfl⟩ := stages_ok hstages
    obtain ⟨hmemWb, hended⟩ := @afterStages_ended M _ cfg _ s.pipeline _ s' rfl hstep
    have hpc : (fetch cfg s.pipeline.pcIf skipBreak c).2.regs.pc = s.core.regs.pc := by
      rw [fetch_regs, memory_regs hmemory, writeback_pc]
      rfl
    rw [hpc] at hended
    exact ⟨r, idEx, c, hmemory, hdecode, hmemWb, hended⟩

theorem takeException_pc {jumpBranchPc : Address}
    (h : takeException cfg jumpBranchPc s = (.ok (), s')) :
    s'.core.regs.pc = s.pipeline.memWb.computedNextInstAddr ∨
      s'.core.regs.pc = s.pipeline.memWb.instAddr ∨
      ∃ toS, s'.core.regs.pc = s.core.controlState.registerData (tvecId toS) := by
  unfold takeException at h
  dsimp only at h
  split at h
  next => cases h
  next c hwrite =>
    obtain ⟨haligned, rfl⟩ := writePc_ok hwrite
    split at h
    next c' hhandle =>
      cases h
      exact handleException_pc hhandle
    next => cases h

theorem afterStages_exception_pc {jumpBranchPc : Address} {savedIfId : FetchInterstage}
    (h : afterStages cfg jumpBranchPc savedIfId s = (.ok (), s'))
    (hexcause : s.pipeline.memWb.excause ≠ .none) :
    s'.core.regs.pc = s.pipeline.memWb.computedNextInstAddr ∨
      s'.core.regs.pc = s.pipeline.memWb.instAddr ∨
      ∃ toS, s'.core.regs.pc = s.core.controlState.registerData (tvecId toS) := by
  rw [afterStages_of_exception hexcause] at h
  have hpc := takeException_pc h
  exact hpc

/-- Address at which a step with an exception continues. -/
theorem Stepped.exception_pc {r : MemoryInterstage × MemoryInternalState} {d : DecodeInterstage}
    {c : Core M} (hdone : Stepped cfg skipBreak s s' r d c)
    (hstep : step cfg skipBreak s = (.ok (), s')) (hexcause : r.1.excause ≠ .none) :
    s'.core.regs.pc = r.1.computedNextInstAddr ∨ s'.core.regs.pc = r.1.instAddr ∨
      ∃ toS, s'.core.regs.pc =
        (fetch cfg s.pipeline.pcIf skipBreak c).2.controlState.registerData (tvecId toS) := by
  rw [step, doStep_stages] at hstep
  split at hstep
  next => cases hstep
  next s₁ hstages =>
    obtain ⟨r', c', idEx, hmemory, -, rfl⟩ := stages_ok hstages
    cases hmemory.symm.trans hdone.memory
    exact afterStages_exception_pc hstep hexcause

/-! ### The order of the instructions in flight -/

def behindDecode (s : CorePipelined M) : Address :=
  if s.pipeline.ifId.isValid then s.pipeline.ifId.instAddr else s.core.regs.pc

def behindExecute (s : CorePipelined M) : Address :=
  if s.pipeline.idEx.isValid then s.pipeline.idEx.instAddr else s.behindDecode

def behindMemory (s : CorePipelined M) : Address :=
  if s.pipeline.exMem.isValid then s.pipeline.exMem.instAddr else s.behindExecute

/-- Every instruction in flight is followed by the one at the address predicted for it.  Behind an
instruction with an exception nothing is fetched. -/
structure Chained (s : CorePipelined M) : Prop where
  ifId : s.pipeline.ifId.isValid = true →
    s.pipeline.ifId.predictedNextInstAddr = s.core.regs.pc
  idEx : s.pipeline.idEx.isValid = true → s.pipeline.idEx.excause = .none →
    s.pipeline.idEx.predictedNextInstAddr = s.behindDecode
  exMem : s.pipeline.exMem.isValid = true → s.pipeline.exMem.excause = .none →
    s.pipeline.exMem.predictedNextInstAddr = s.behindExecute
  stopped : s.pipeline.pcIf.stopIf = true →
    s.pipeline.idEx.excause ≠ .none ∨ s.pipeline.exMem.excause ≠ .none
  emptyFetch : s.pipeline.ifId.isValid = false → s.pipeline.ifId = {}
  emptyDecode : s.pipeline.idEx.isValid = false → s.pipeline.idEx.excause = .none
  alignedFetch : s.pipeline.ifId.isValid = true → s.pipeline.ifId.instAddr.toNat % 4 = 0
  alignedDecode : s.pipeline.idEx.isValid = true → s.pipeline.idEx.instAddr.toNat % 4 = 0

namespace Chained

variable {s : CorePipelined M}

omit [FrontendMemory M] in
theorem of_empty (hifId : s.pipeline.ifId = {}) (hidEx : s.pipeline.idEx = {})
    (hexMem : s.pipeline.exMem = {}) (hpcIf : s.pipeline.pcIf = {}) : s.Chained where
  ifId h := by rw [hifId] at h; cases h
  idEx h := by rw [hidEx] at h; cases h
  exMem h := by rw [hexMem] at h; cases h
  stopped h := by rw [hpcIf] at h; cases h
  emptyFetch _ := hifId
  emptyDecode _ := by rw [hidEx]
  alignedFetch h := by rw [hifId] at h; cases h
  alignedDecode h := by rw [hidEx] at h; cases h

omit [FrontendMemory M] in
/-- What is behind the execute stage has an aligned address. -/
theorem behindExecute_aligned (h : s.Chained) : s.behindExecute.toNat % 4 = 0 := by
  unfold behindExecute behindDecode
  split
  · exact h.alignedDecode ‹_›
  · split
    · exact h.alignedFetch ‹_›
    · exact s.core.regs.pcAligned

omit [FrontendMemory M] in
/-- The instruction in IF/ID as the decode stage hands it on. -/
theorem decoded (h : s.Chained) {c : Core M} {d : DecodeInterstage}
    (hdecode : Core.decode cfg s.pipeline.ifId c = .ok d) :
    d.isValid = s.pipeline.ifId.isValid ∧ d.instAddr = s.pipeline.ifId.instAddr ∧
      d.predictedNextInstAddr = s.pipeline.ifId.predictedNextInstAddr ∧
      (d.isValid = false → d.excause = .none) := by
  obtain ⟨csrReadVal, -, rfl⟩ := decode_ok hdecode
  refine ⟨rfl, rfl, rfl, fun hvalid => ?_⟩
  have hempty := h.emptyFetch hvalid
  rw [hempty]
  exact decodeExcause_nop cfg c.currentPrivilege

/-- A step that goes on has fetched the instruction at the program counter. -/
theorem fetched {s : CorePipelined M} (h : s.Chained)
    {r : MemoryInterstage × MemoryInternalState} {c : Core M}
    (hmemory : Core.memory cfg s.pipeline.exMem (writeback s.pipeline.memWb s.core.nextCycle) =
      (.ok r, c))
    (hexcause : r.1.excause = .none) (hnone : s.pipeline.idEx.excause = .none) :
    (fetch cfg s.pipeline.pcIf skipBreak c).1.isValid = true ∧
      (fetch cfg s.pipeline.pcIf skipBreak c).1.instAddr = s.core.regs.pc := by
  have hstop : s.pipeline.pcIf.stopIf = false := by
    by_contra hstop
    rw [Bool.not_eq_false] at hstop
    rcases h.stopped hstop with hidEx | hexMem
    · exact hidEx hnone
    · obtain ⟨csr, c₁, -, rfl, -⟩ := memory_ok hmemory
      exact hexMem (memoryAccess_excause hexcause)
  obtain ⟨hvalid, hinstAddr, -⟩ := fetch_running cfg hstop skipBreak c
  refine ⟨hvalid, hinstAddr.trans ?_⟩
  rw [memory_regs hmemory, writeback_pc]
  rfl

omit [FrontendMemory M] in
/-- What was behind the decode stage is behind the execute stage, if the step goes on or stalls. -/
theorem behindExecute_moved {s' : CorePipelined M} {d : DecodeInterstage}
    (hvalid : d.isValid = s.pipeline.ifId.isValid)
    (hinstAddr : d.instAddr = s.pipeline.ifId.instAddr) {valRs valRt : RegisterValue}
    {ffRs ffRt : ForwardFrom} (hidEx : s'.pipeline.idEx = withOperands d valRs valRt ffRs ffRt)
    (hbehind : s'.behindDecode = s.core.regs.pc) : s'.behindExecute = s.behindDecode := by
  rw [behindExecute, hidEx, hbehind]
  show (if d.isValid then d.instAddr else _) = _
  rw [hvalid, hinstAddr, behindDecode]

theorem step {s s' : CorePipelined M} (h : s.Chained)
    (hstep : CorePipelined.step cfg skipBreak s = (.ok (), s')) : s'.Chained := by
  obtain ⟨r, d, c, hdone⟩ := step_stepped hstep
  obtain ⟨hvalid, hinstAddr, hpredicted, hempty⟩ := h.decoded hdone.decode
  -- the instruction of ID/EX is followed as before
  have hexMem {s' : CorePipelined M} (hexMem : s'.pipeline.exMem = execute s.pipeline.idEx)
      (hbehind : s'.behindExecute = s.behindDecode) :
      s'.pipeline.exMem.isValid = true → s'.pipeline.exMem.excause = .none →
        s'.pipeline.exMem.predictedNextInstAddr = s'.behindExecute := by
    rw [hexMem, hbehind]
    exact h.idEx
  cases hdone.ended with
  | exception _ hifId hidEx hexMem hpcIf => exact .of_empty hifId hidEx hexMem hpcIf
  | redirect _ hifId hidEx hexMem hpcIf => exact .of_empty hifId hidEx hexMem hpcIf
  | drainExecute _ _ hraised hifId hidEx hexMem' hpc =>
    have hexcause : s'.pipeline.exMem.excause ≠ .none := by rw [hexMem']; exact hraised
    exact
      { ifId := fun hv => by rw [hifId] at hv; cases hv
        idEx := fun hv => by rw [hidEx] at hv; cases hv
        exMem := fun _ hnone => absurd hnone hexcause
        stopped := fun _ => .inr hexcause
        emptyFetch := fun _ => hifId
        emptyDecode := fun _ => by rw [hidEx]
        alignedFetch := fun hv => by rw [hifId] at hv; cases hv
        alignedDecode := fun hv => by rw [hidEx] at hv; cases hv }
  | drainDecode _ _ _ hraised hifId hidEx hexMem' hpc =>
    have hexcause : s'.pipeline.idEx.excause ≠ .none := by rw [hidEx]; exact hraised
    have hbehind : s'.behindDecode = s.core.regs.pc := by rw [behindDecode, hifId]; exact hpc
    exact
      { ifId := fun hv => by rw [hifId] at hv; cases hv
        idEx := fun _ hnone => absurd hnone hexcause
        exMem := hexMem hexMem' (behindExecute_moved hvalid hinstAddr hidEx hbehind)
        stopped := fun _ => .inl hexcause
        emptyFetch := fun _ => hifId
        emptyDecode := by rw [hidEx]; exact hempty
        alignedFetch := fun hv => by rw [hifId] at hv; cases hv
        alignedDecode := by
          rw [hidEx]
          show d.isValid = true → d.instAddr.toNat % 4 = 0
          rw [hvalid, hinstAddr]
          exact h.alignedFetch }
  | stall _ _ _ hifId hidEx hexMem' hpcIf hpc =>
    have hbehind : s'.behindExecute = s.behindDecode := by
      rw [behindExecute, behindDecode, behindDecode, hidEx, hifId, hpc]
      rfl
    exact
      { ifId := by rw [hifId, hpc]; exact h.ifId
        idEx := fun hv => by rw [hidEx] at hv; cases hv
        exMem := hexMem hexMem' hbehind
        stopped := fun hstop => by rw [hpcIf] at hstop; cases hstop
        emptyFetch := by rw [hifId]; exact h.emptyFetch
        emptyDecode := fun _ => by rw [hidEx]
        alignedFetch := by rw [hifId]; exact h.alignedFetch
        alignedDecode := fun hv => by rw [hidEx] at hv; cases hv }
  | goOn hexcause _ hnone hdecoded hifId hidEx hexMem' hpcIf hpc =>
    obtain ⟨hfetched, haddress⟩ := @fetched M _ cfg skipBreak s h _ _ hdone.memory hexcause hnone
    have hbehind : s'.behindDecode = s.core.regs.pc := by
      rw [behindDecode, hifId, if_pos hfetched, haddress]
    exact
      { ifId := fun _ => by rw [hifId, hpc]
        idEx := by
          rw [hidEx, hbehind]
          show d.isValid = true → _ → d.predictedNextInstAddr = _
          rw [hvalid, hpredicted]
          exact fun hv _ => h.ifId hv
        exMem := hexMem hexMem' (behindExecute_moved hvalid hinstAddr hidEx hbehind)
        stopped := fun hstop => by rw [hpcIf] at hstop; cases hstop
        emptyFetch := fun hv => by rw [hifId, hfetched] at hv; cases hv
        emptyDecode := by rw [hidEx]; exact hempty
        alignedFetch := fun _ => by rw [hifId, haddress]; exact s.core.regs.pcAligned
        alignedDecode := by
          rw [hidEx]
          show d.isValid = true → d.instAddr.toNat % 4 = 0
          rw [hvalid, hinstAddr]
          exact h.alignedFetch }

/-- The instructions in flight are in order in every state that a run reaches. -/
theorem reached {c : Core M} (hrun : Hart.Reached cfg c s) : s.Chained := by
  apply hrun.invariant (Chained.of_empty rfl rfl rfl rfl)
  intro s s' hmove h
  cases hmove with
  | step skipBreak hstep => exact h.step hstep
  | interrupt irqNum active =>
    exact ⟨h.ifId, h.idEx, h.exMem, h.stopped, h.emptyFetch, h.emptyDecode, h.alignedFetch,
      h.alignedDecode⟩

end Chained

/-- A step without an exception takes what is behind the execute stage in front of the memory
stage, or it redirects. -/
theorem step_moves (h : s.Chained) {r : MemoryInterstage × MemoryInternalState}
    {d : DecodeInterstage} {c : Core M} (hdone : Stepped cfg skipBreak s s' r d c)
    (hexcause : r.1.excause = .none) :
    (s'.behindMemory = s.behindExecute ∧
        r.1.computedNextInstAddr = r.1.predictedNextInstAddr) ∨
      (s'.behindMemory = r.1.computedNextInstAddr ∧
        (r.1.computedNextInstAddr ≠ r.1.predictedNextInstAddr ∨ r.1.csrWritten = true)) := by
  obtain ⟨hdvalid, hdaddr, -, -⟩ := h.decoded hdone.decode
  have hmoved (hexMem : s'.pipeline.exMem = execute s.pipeline.idEx)
      (hbehind : s.pipeline.idEx.isValid = false → s'.behindExecute = s.behindDecode) :
      s'.behindMemory = s.behindExecute := by
    rw [behindMemory, hexMem]
    show (if s.pipeline.idEx.isValid then s.pipeline.idEx.instAddr else s'.behindExecute) =
      if s.pipeline.idEx.isValid then s.pipeline.idEx.instAddr else s.behindDecode
    cases hidEx : s.pipeline.idEx.isValid with
    | true => rfl
    | false => exact hbehind hidEx
  cases hdone.ended with
  | exception hraised => exact absurd hexcause hraised
  | redirect _ hifId hidEx hexMem _ hpc hredirect =>
    refine .inr ⟨?_, hredirect⟩
    rw [behindMemory, behindExecute, behindDecode, hifId, hidEx, hexMem]
    exact hpc
  | drainExecute _ hcomputed hraised _ _ hexMem _ =>
    exact .inl ⟨hmoved hexMem fun hinvalid => absurd (h.emptyDecode hinvalid) hraised, hcomputed⟩
  | drainDecode _ hcomputed _ _ hifId hidEx hexMem hpc =>
    refine .inl ⟨hmoved hexMem fun _ => ?_, hcomputed⟩
    refine Chained.behindExecute_moved hdvalid hdaddr hidEx ?_
    rw [behindDecode, hifId]
    exact hpc
  | stall _ hcomputed _ hifId hidEx hexMem _ hpc =>
    refine .inl ⟨hmoved hexMem fun _ => ?_, hcomputed⟩
    rw [behindExecute, behindDecode, behindDecode, hidEx, hifId, hpc]
    rfl
  | goOn _ hcomputed hnone _ hifId hidEx hexMem _ _ =>
    obtain ⟨hfetched, haddress⟩ :=
      @Chained.fetched M _ cfg skipBreak s h _ _ hdone.memory hexcause hnone
    refine .inl ⟨hmoved hexMem fun _ => ?_, hcomputed⟩
    refine Chained.behindExecute_moved hdvalid hdaddr hidEx ?_
    rw [behindDecode, hifId, if_pos hfetched, haddress]

/-- An instruction that leaves the memory stage without an exception is followed by the one at the
address the memory stage has computed. -/
theorem step_continues (h : s.Chained) (hstep : step cfg skipBreak s = (.ok (), s'))
    (hvalid : s.pipeline.exMem.isValid = true) (hexcause : s'.pipeline.memWb.excause = .none) :
    s'.behindMemory = s'.pipeline.memWb.computedNextInstAddr := by
  obtain ⟨r, d, c, hdone⟩ := step_stepped hstep
  rw [hdone.memWb] at hexcause ⊢
  rcases step_moves h hdone hexcause with ⟨hbehind, hcomputed⟩ | ⟨hbehind, -⟩
  · -- without a redirection the address is the predicted one, which is behind the execute stage
    obtain ⟨csr, c₁, -, hr, -⟩ := memory_ok hdone.memory
    subst hr
    have hpredicted := h.exMem hvalid (memoryAccess_excause hexcause)
    rw [hbehind, hcomputed]
    exact hpredicted.symm
  · exact hbehind

end CorePipelined

end QtRvSim
