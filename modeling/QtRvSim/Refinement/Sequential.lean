import QtRvSim.Core.Frame
import QtRvSim.Refinement.Agreement

/-!
# The sequential machine

The abstract machine that both cores refine: it executes one instruction of a fixed program after
the other on flat memory, without stage registers, prediction or cycle counting.  The single-cycle
core runs in lockstep with it as long as the words it fetches are those of the program.
-/

namespace QtRvSim

open Core FrontendMemory RankedSimulation

abbrev Program := Address → Instruction

namespace Sequential

variable (cfg : CoreConfig) (skipBreak : Bool) (prog : Program)

/-- The instruction at the program counter, as the fetch stage hands it on. -/
def fetched (s : Core FlatMemory) : FetchInterstage :=
  { inst := prog s.regs.pc
    instAddr := s.regs.pc
    nextInstAddr := s.regs.pc + (prog s.regs.pc).size
    excause := if !skipBreak && cfg.hwBreaks.contains s.regs.pc then .hwbreak else .none
    isValid := true }

def decoded (s : Core FlatMemory) : DecodeInterstage :=
  decodeInterstage cfg (fetched cfg skipBreak prog s) s.currentPrivilege
    (decodeValRs (prog s.regs.pc) s.regs) (s.regs.readGp (decodeNumRt (prog s.regs.pc))) 0

def executed (s : Core FlatMemory) : ExecuteInterstage :=
  execute (decoded cfg skipBreak prog s)

/-- End of an instruction: continue at the computed address or enter the trap handler. -/
def finish (w : MemoryInterstage) (s : Core FlatMemory) : Outcome (Core FlatMemory) Unit :=
  match s.writePc w.computedNextInstAddr with
  | (.error e, s) => (.error e, s)
  | (.ok (), s) =>
    if w.excause ≠ .none then
      match handleException cfg w.excause w.inst w.instAddr w.computedNextInstAddr 0 w.memAddr s
      with
      | (.ok _, s) => (.ok (), s)
      | (.error e, s) => (.error e, s)
    else (.ok (), s)

def step (s : Core FlatMemory) :
    Outcome (Core FlatMemory) (MemoryInterstage × MemoryInternalState) :=
  match memory cfg (executed cfg skipBreak prog s) s with
  | (.error e, s) => (.error e, s)
  | (.ok (w, i), s) =>
    match finish cfg w (writeback w s) with
    | (.error e, s) => (.error e, s)
    | (.ok (), s) => (.ok (w, i), s)

def machine : Machine (Core FlatMemory) RetiredInstruction SimulatorException where
  step s :=
    match step cfg skipBreak prog s with
    | (.ok (w, i), s') => .ok (retiredInstruction cfg w i, s')
    | (.error e, _) => .error e

variable {cfg skipBreak prog} {c s : Core FlatMemory}

/-- Instructions end alike on agreeing cores. -/
theorem finish_congr (cfg : CoreConfig) (h : ArchAgree c s) (w : MemoryInterstage) :
    OutcomeAgree (finish cfg w c) (finish cfg w s) := by
  simp only [finish]
  rcases (h.writePc w.computedNextInstAddr).cases with
    ⟨v, c', s', hc, hs, hagree⟩ | ⟨e, c', s', hc, hs⟩
  · simp only [hc, hs]
    split
    · rcases (hagree.handleException cfg w.excause w.inst w.instAddr w.memAddr
        w.computedNextInstAddr w.computedNextInstAddr 0 0).cases with
        ⟨v, c', s', hc, hs, hagree⟩ | ⟨e, c', s', hc, hs⟩
      · rw [hc, hs]
        exact ⟨rfl, fun _ _ => hagree⟩
      · rw [hc, hs]
        exact ⟨rfl, nofun⟩
    · exact ⟨rfl, fun _ _ => hagree⟩
  · rw [hc, hs]
    exact ⟨rfl, nofun⟩

def NoInterrupt (c : Core FlatMemory) : Prop :=
  c.controlState.coreInterruptRequest c.currentPrivilege = .none

/-- A core fetches the program's word, which accesses no CSR, and takes no interrupt. -/
structure FetchesProgram (cfg : CoreConfig) (prog : Program) (c : Core FlatMemory) : Prop where
  word : c.mem.readU32 cfg.endian c.regs.pc = prog c.regs.pc
  notZicsr : (prog c.regs.pc).isZicsr = false
  noInterrupt : NoInterrupt c

/-- A fetch returns the program's instruction with a prediction and counts the cycle. -/
theorem fetch_eq {pc : PCInterstage} (hstop : pc.stopIf = false)
    (hword : c.mem.readU32 cfg.endian c.regs.pc = prog c.regs.pc) (hirq : NoInterrupt c) :
    fetch cfg pc skipBreak c =
      ((fetched cfg skipBreak prog c).withPrediction
          (c.predictor.predictNextPcAddress (prog c.regs.pc) c.regs.pc),
        c.countCycle cfg) := by
  have hread : readGeneric 32 cfg.endian .program
      { address := c.regs.pc, mode := c.makeAccessMode .fetch } c.mem =
      (.ok (prog c.regs.pc), c.mem) := by
    rw [← hword]
    rfl
  have hnone : (c.controlState.incrementInternal cfg.xlen .mcycle 1).1.coreInterruptRequest
      c.currentPrivilege = .none :=
    ((ControlState.AgreeOffCycle.increment_mcycle cfg.xlen 1
      c.controlState).coreInterruptRequest _).trans hirq
  simp only [fetch, hstop, hread, fetched, Core.countCycle, Core.updateCsr, hnone]
  by_cases hbreak : (!skipBreak && cfg.hwBreaks.contains c.regs.pc) = true
  · simp only [if_pos hbreak]
    rfl
  · simp only [if_neg hbreak]
    rfl

theorem decode_eq {dt : FetchInterstage} (hcsr : dt.inst.isZicsr = false) :
    decode cfg dt c = .ok (decodeInterstage cfg dt c.currentPrivilege
      (decodeValRs dt.inst c.regs) (c.regs.readGp (decodeNumRt dt.inst)) 0) := by
  rw [Instruction.isZicsr] at hcsr
  simp [decode, decodeCsrRead, hcsr]

theorem decoded_congr (h : CoreAgree c s) :
    decoded cfg skipBreak prog c = decoded cfg skipBreak prog s := by
  have hval (inst : Instruction) : decodeValRs inst c.regs = decodeValRs inst s.regs := by
    simp only [decodeValRs, h.readGp]
  simp only [decoded, fetched, h.pc, h.privilege, hval, h.readGp]

/-- Decoding the program's instruction gives the sequential machine's, with the prediction. -/
theorem decode_fetched {c : Core FlatMemory} (hcsr : (prog c.regs.pc).isZicsr = false)
    (predicted : Address) :
    decode cfg ((fetched cfg skipBreak prog c).withPrediction predicted) c =
      .ok ((decoded cfg skipBreak prog c).withPrediction predicted) :=
  decode_eq hcsr

theorem executed_csrWrite (hcsr : (prog c.regs.pc).isZicsr = false) :
    (executed cfg skipBreak prog c).csrWrite = false := by
  simp only [executed, execute, decoded, decodeInterstage, fetched]
  rw [Instruction.isZicsr] at hcsr
  rw [hcsr, Bool.false_and]

/-- Executing with a prediction agrees with the sequential machine. -/
theorem execute_decoded {c s : Core FlatMemory} (h : CoreAgree c s) (predicted : Address) :
    ExecuteAgree cfg (execute ((decoded cfg skipBreak prog c).withPrediction predicted))
      (executed cfg skipBreak prog s) := by
  rw [decoded_congr h]
  exact ⟨rfl, fun _ => .inl rfl⟩

/-- The end of a step of the single-cycle core is the end of an instruction. -/
theorem finishStep_eq (cfg : CoreConfig) (s : CoreSingle FlatMemory) :
    (CoreSingle.finishStep cfg s).1 = (finish cfg s.pipeline.memWb s.core).1 ∧
      (CoreSingle.finishStep cfg s).2.core = (finish cfg s.pipeline.memWb s.core).2 ∧
      (CoreSingle.finishStep cfg s).2.pipeline = s.pipeline := by
  unfold CoreSingle.finishStep finish
  dsimp only
  rcases s.core.writePc s.pipeline.memWb.computedNextInstAddr with ⟨_ | _, core⟩
  · exact ⟨rfl, rfl, rfl⟩
  · by_cases hexcause : s.pipeline.memWb.excause ≠ .none
    · simp only [if_pos hexcause]
      rw [handleException_handler cfg _ _ _ _ _ s.pipeline.memWb.computedNextInstAddr 0]
      rcases handleException cfg s.pipeline.memWb.excause s.pipeline.memWb.inst
        s.pipeline.memWb.instAddr s.pipeline.memWb.computedNextInstAddr 0
        s.pipeline.memWb.memAddr core with ⟨_ | _, core'⟩
      · exact ⟨rfl, rfl, rfl⟩
      · exact ⟨rfl, rfl, rfl⟩
    · simp only [if_neg hexcause, and_self]

/-- A state of the single-cycle core stands for a state of the sequential machine. -/
structure SingleAgree (s : CoreSingle FlatMemory) (t : Core FlatMemory) : Prop where
  core : CoreAgree s.core t
  running : s.pipeline.pcIf.stopIf = false

/-- The parts of a step that returns. -/
theorem step_ok {s' : Core FlatMemory} {r : MemoryInterstage × MemoryInternalState}
    (hstep : step cfg skipBreak prog s = (.ok r, s')) :
    ∃ s₁, memory cfg (executed cfg skipBreak prog s) s = (.ok r, s₁) ∧
      finish cfg r.1 (writeback r.1 s₁) = (.ok (), s') := by
  unfold step at hstep
  split at hstep
  next => cases hstep
  next w i s₁ hmemory =>
    split at hstep
    next => cases hstep
    next hfinish =>
      cases hstep
      exact ⟨s₁, hmemory, hfinish⟩

/-- A step of the single-cycle core is a step of the sequential machine. -/
theorem single_step {s : CoreSingle FlatMemory} {t : Core FlatMemory} (h : SingleAgree s t)
    (hfetch : FetchesProgram cfg prog s.core) :
    (∃ o s' t', (CoreSingle.machine cfg skipBreak).step s = .ok (o, s') ∧
        (machine cfg skipBreak prog).step t = .ok (o, t') ∧ SingleAgree s' t') ∨
      ∃ e, (CoreSingle.machine cfg skipBreak).step s = .error e ∧
        (machine cfg skipBreak prog).step t = .error e := by
  have hcsr : (prog t.regs.pc).isZicsr = false := h.core.pc ▸ hfetch.notZicsr
  let c := s.core.nextCycle
  let predicted := c.predictor.predictNextPcAddress (prog c.regs.pc) c.regs.pc
  have hfetched : fetch cfg s.pipeline.pcIf skipBreak c =
      ((fetched cfg skipBreak prog (c.countCycle cfg)).withPrediction predicted,
        c.countCycle cfg) := fetch_eq h.running hfetch.word hfetch.noInterrupt
  have hdecoded : decode cfg ((fetched cfg skipBreak prog (c.countCycle cfg)).withPrediction
      predicted) (c.countCycle cfg) =
      .ok ((decoded cfg skipBreak prog (c.countCycle cfg)).withPrediction predicted) :=
    @decode_fetched cfg skipBreak prog (c.countCycle cfg) hfetch.notZicsr predicted
  have hagree : CoreAgree (c.countCycle cfg) t := h.core.nextCycle.countCycle cfg
  obtain ⟨r, r', c', t', hmem, hmem', hresult, harch⟩ := hagree.toArchAgree.memory
    (@execute_decoded cfg skipBreak prog _ _ hagree predicted) (executed_csrWrite hcsr) rfl
  have hend := finish_congr cfg (harch.writeback r'.1) r'.1
  have hwriteback : finish cfg r.1 (writeback r.1 c') = finish cfg r'.1 (writeback r'.1 c') := by
    rw [hresult.interstage]
    rfl
  simp only [CoreSingle.machine, CoreSingle.step, CoreSingle.doStep, machine]
  rw [hfetched]
  simp only [hdecoded, hmem]
  generalize hS : ({ core := writeback r.1 c', pipeline := _, prevInstAddr := s.prevInstAddr } :
    CoreSingle FlatMemory) = S
  obtain ⟨hresult', hcore, hpipeline⟩ := finishStep_eq cfg S
  have hfinish : finish cfg S.pipeline.memWb S.core = finish cfg r'.1 (writeback r'.1 c') := by
    rw [← hwriteback, ← hS]
  rw [hfinish] at hresult' hcore
  rcases hlast : CoreSingle.finishStep cfg S with ⟨result, S'⟩
  rw [hlast] at hresult' hcore hpipeline
  rcases hend.cases with ⟨v, c'', t'', hc, ht, hagree'⟩ | ⟨e, c'', t'', hc, ht⟩
  · have hstep : step cfg skipBreak prog t = (.ok r', t'') := by
      simp only [step, hmem', ht]
    rw [hc] at hresult' hcore
    subst hresult'
    refine .inl ⟨_, S', t'', rfl, ?_,
      ⟨hcore ▸ hagree', ?_⟩⟩
    · rw [hstep, hpipeline, ← hS]
      exact congrArg (fun o => Except.ok (o, t'')) hresult.retired.symm
    · rw [hpipeline, ← hS]
      exact h.running
  · have hstep : step cfg skipBreak prog t = (.error e, t'') := by
      simp only [step, hmem', ht]
    rw [hc] at hresult'
    subst hresult'
    exact .inr ⟨e, rfl, by rw [hstep]⟩

/-- The single-cycle core and the sequential machine run in lockstep while the core fetches the
program's words. -/
theorem single_lockstep :
    Lockstep (CoreSingle.machine cfg skipBreak) (machine cfg skipBreak prog) fun s t =>
      SingleAgree s t ∧ ∀ n s', (CoreSingle.machine cfg skipBreak).after n s = .ok s' →
        FetchesProgram cfg prog s'.core := by
  rintro s t ⟨hagree, hfetch⟩
  rcases single_step hagree (hfetch 0 s rfl) with
    ⟨o, s', t', hs, ht, hagree'⟩ | hfail
  · exact .inl ⟨o, s', t', hs, ht, hagree', Machine.forall_after_tail hfetch hs⟩
  · exact .inr hfail

end Sequential

end QtRvSim
