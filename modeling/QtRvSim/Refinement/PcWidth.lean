import QtRvSim.Core.ControlFlow
import QtRvSim.Core.CsrInvariant
import QtRvSim.Core.Reset

/-!
# Width of the program counter

Addresses have 64 bits on both widths.  A 32-bit core truncates the target of `jalr` and the address
of a return from a trap, but neither the address of the next instruction nor the target of a branch
or of `jal`.  As long as these sums stay within 32 bits, so does every program counter.
-/

namespace QtRvSim

open Csr ControlState Core RegisterValue

variable {M : Type} [FrontendMemory M] {cfg : CoreConfig} {skipBreak : Bool}

def IsNarrow (a : Address) : Prop := a.toNat < 2 ^ 32

instance (a : Address) : Decidable (IsNarrow a) := inferInstanceAs (Decidable (_ < _))

theorem isNarrow_asXlen (v : RegisterValue) : IsNarrow (v.asXlen ._32) := by
  rw [IsNarrow, toNat_asXlen]
  exact Nat.mod_lt _ (by decide)

theorem eq_asXlen_iff (a : Address) : a = asXlen ._32 a ↔ IsNarrow a := by
  rw [← BitVec.toNat_inj, toNat_asXlen, eq_comm]
  exact Nat.mod_eq_iff_lt (by decide)

theorem isNarrow_next_iff {a : Address} (h : IsNarrow a) :
    IsNarrow (a + 4) ↔ a.toNat + 4 < 2 ^ 32 := by
  have hfour : (4 : Address).toNat = 4 := rfl
  unfold IsNarrow at h ⊢
  rw [BitVec.toNat_add, hfour]
  omega

theorem isNarrow_offset_iff {a : Address} (h : IsNarrow a) (offset : RegisterValue) :
    IsNarrow (a + offset) ↔
      0 ≤ a.toNat + offset.toInt ∧ a.toNat + offset.toInt < 2 ^ 32 := by
  unfold IsNarrow at h ⊢
  have hoffset := offset.isLt
  rw [BitVec.toNat_add, BitVec.toInt_eq_toNat_cond]
  split <;> omega

def NarrowVectors (cs : ControlState) : Prop :=
  ∀ toS, IsNarrow (cs.registerData (tvecId toS))

theorem isNarrow_defaultWlrlValue (desc : RegisterDesc) (reg val : RegisterValue) :
    IsNarrow (defaultWlrlValue ._32 desc reg val) := by
  rw [IsNarrow, defaultWlrlValue, BitVec.toNat_and]
  exact Nat.lt_of_le_of_lt Nat.and_le_right (by decide)

/-- The registers of a 32-bit core keep 32 bits of what is written. -/
theorem narrowVectors_stable : StableCsr ._32 NarrowVectors where
  write id value cs h toS := by
    by_cases hid : tvecId toS = id
    · subst hid
      have hwritten : (cs.runWriteHandler ._32 (tvecId toS) value).1.registerData (tvecId toS) =
          defaultWlrlValue ._32 (registers (tvecId toS)) (cs.registerData (tvecId toS)) value := by
        cases toS <;> simp [runWriteHandler, tvecId, registers]
      rw [hwritten]
      exact isNarrow_defaultWlrlValue _ _ _
    · rw [runWriteHandler_frame value hid (by cases toS <;> decide) (by cases toS <;> decide)
        (by cases toS <;> decide)]
      exact h toS
  cause toPrivlev value cs h toS := by
    have hcause : tvecId toS ≠ if toPrivlev = .machine then Csr.Id.mcause else .scause := by
      cases toS <;> split <;> decide
    rw [set_registerData, if_neg hcause]
    exact h toS
  interrupt irqNum active cs h toS := by
    unfold ControlState.setInterruptSignal
    split
    · exact h toS
    · rw [set_registerData, if_neg (by cases toS <;> decide), set_registerData,
        if_neg (by cases toS <;> decide)]
      exact h toS

/-! ### One step -/

/-- The addresses that a 32-bit core computes in a step.  `f` has been fetched, `d` is executed, `w`
leaves the memory stage and `pc` is stored. -/
structure Modulo (f : FetchInterstage) (d : DecodeInterstage) (w : MemoryInterstage)
    (pc : Address) : Prop where
  fetched : IsNarrow f.instAddr
  sequential : f.isValid = true → f.nextInstAddr = RegisterValue.asXlen ._32 (f.instAddr + 4)
  branch : d.branchBxx = true ∨ d.branchJal = true →
    (execute d).branchJalTarget = RegisterValue.asXlen ._32 (d.instAddr + d.immediateVal)
  computed : IsNarrow w.computedNextInstAddr
  stored : IsNarrow pc

/-- Neither the address behind `pc`, where an instruction is fetched unless the fetch is stopped,
nor the target of the branch or `jal` leaves 32 bits. -/
structure Within (stopIf : Bool) (pc : Address) (d : DecodeInterstage) : Prop where
  sequential : stopIf = false → pc.toNat + 4 < 2 ^ 32
  branch : d.branchBxx = true ∨ d.branchJal = true →
    0 ≤ d.instAddr.toNat + d.immediateVal.toInt ∧
      d.instAddr.toNat + d.immediateVal.toInt < 2 ^ 32

structure NarrowExecute (e : ExecuteInterstage) : Prop where
  instAddr : IsNarrow e.instAddr
  nextInstAddr : IsNarrow e.nextInstAddr
  target : e.branchBxx = true ∨ e.branchJal = true → IsNarrow e.branchJalTarget

theorem isNarrow_stageAddrNone : IsNarrow stageAddrNone := by decide

theorem NarrowExecute.empty : NarrowExecute {} :=
  ⟨isNarrow_stageAddrNone, by decide, fun h => by rcases h with h | h <;> cases h⟩

variable {d : DecodeInterstage}

/-- A branch is executed as the condition allows. -/
theorem NarrowExecute.execute {stopIf : Bool} {pc : Address} (hinst : IsNarrow d.instAddr)
    (hnext : IsNarrow d.nextInstAddr) (h : Within stopIf pc d) : NarrowExecute (Core.execute d) :=
  ⟨hinst, hnext, fun hbranch => (isNarrow_offset_iff hinst _).mpr (h.branch hbranch)⟩

variable {e : ExecuteInterstage}

theorem NarrowExecute.computeNextInstAddr (h : NarrowExecute e) (hxlen : cfg.xlen = ._32) :
    IsNarrow (Core.computeNextInstAddr cfg e (branchBxxTaken e)) := by
  unfold Core.computeNextInstAddr
  split
  next hjump =>
    apply h.target
    rcases Bool.or_eq_true_iff.mp hjump with htaken | hjal
    · exact .inl (Bool.and_eq_true_iff.mp htaken).1
    · exact .inr hjal
  next =>
    split
    · rw [CoreConfig.getXlenFromReg, hxlen]
      exact isNarrow_asXlen _
    · exact h.nextInstAddr

variable {c : Core M}

/-- The memory stage continues at the computed address or at that of a return from a trap. -/
theorem memoryCsr_computed {computed : Address} {c' : Core M} {csr : CsrResult}
    (h : memoryCsr cfg e computed c = (.ok csr, c')) :
    csr.computedNextInstAddr = computed ∨
      ∃ v : RegisterValue, csr.computedNextInstAddr = v.asXlen cfg.xlen := by
  unfold memoryCsr at h
  dsimp only at h
  split at h
  next =>
    split at h
    next => cases h
    next =>
      split at h
      next =>
        cases h
        exact .inr ⟨_, rfl⟩
      next =>
        cases h
        exact .inl rfl
  next =>
    cases h
    exact .inl rfl

theorem NarrowExecute.memory {e : ExecuteInterstage} (h : NarrowExecute e)
    (hxlen : cfg.xlen = ._32) {c c' : Core M} {r : MemoryInterstage × MemoryInternalState}
    (hmemory : Core.memory cfg e c = (.ok r, c')) :
    IsNarrow r.1.computedNextInstAddr ∧ IsNarrow r.1.instAddr := by
  obtain ⟨csr, c₁, hcsr, rfl, -⟩ := memory_ok hmemory
  refine ⟨?_, h.instAddr⟩
  have hcomputed : (memoryInterstage e (memAddress cfg e c).address (memoryAccess cfg e c).1
      csr).1.computedNextInstAddr = csr.computedNextInstAddr := rfl
  rw [hcomputed]
  rcases memoryCsr_computed hcsr with hnext | ⟨v, hreturn⟩
  · rw [hnext]
    exact h.computeNextInstAddr hxlen
  · rw [hreturn, hxlen]
    exact isNarrow_asXlen v

/-- The predictor learns narrow targets. -/
theorem NarrowExecute.predictor (h : NarrowExecute e) (hxlen : cfg.xlen = ._32) {c' : Core M}
    {r : MemoryInterstage × MemoryInternalState} (hmemory : Core.memory cfg e c = (.ok r, c'))
    (hc : c.predictor.LearntTargets IsNarrow) : c'.predictor.LearntTargets IsNarrow := by
  refine memory_predictor hmemory (fun _ _ => BranchPredictor.LearntTargets.flush)
    (fun bp hbp => ?_) (fun _ hbp => hbp) hc
  refine learntTargets_updatePredictor hbp (fun hjal => h.target (.inr hjal)) (fun _ _ => ?_)
    (fun _ _ _ hbxx => h.target (.inl hbxx))
  rw [CoreConfig.getXlenFromReg, hxlen]
  exact isNarrow_asXlen _

/-- A fetch computes its addresses modulo 2^32 exactly if the next one does not leave 32 bits. -/
theorem fetch_sequential_iff (pc : PCInterstage) (hpc : IsNarrow c.regs.pc) :
    let f := (fetch cfg pc skipBreak c).1
    (f.isValid = true → f.nextInstAddr = asXlen ._32 (f.instAddr + 4)) ↔
      (pc.stopIf = false → c.regs.pc.toNat + 4 < 2 ^ 32) := by
  intro f
  cases hstop : pc.stopIf with
  | true =>
    have hempty : f.isValid = false := by
      simp only [f, fetch_stopped cfg hstop]
    simp [hempty]
  | false =>
    obtain ⟨hvalid, hinst, hnext⟩ := fetch_running cfg hstop skipBreak c
    simp only [f, hvalid, hinst, hnext, forall_const]
    rw [eq_asXlen_iff, isNarrow_next_iff hpc]

theorem fetch_narrow (pc : PCInterstage) (hpc : IsNarrow c.regs.pc) :
    IsNarrow (fetch cfg pc skipBreak c).1.instAddr := by
  cases hstop : pc.stopIf with
  | true =>
    rw [fetch_stopped cfg hstop]
    exact isNarrow_stageAddrNone
  | false =>
    rw [(fetch_running cfg hstop skipBreak c).2.1]
    exact hpc

theorem fetch_next_narrow (pc : PCInterstage) (hpc : IsNarrow c.regs.pc)
    (hwithin : pc.stopIf = false → c.regs.pc.toNat + 4 < 2 ^ 32) :
    IsNarrow (fetch cfg pc skipBreak c).1.nextInstAddr := by
  cases hstop : pc.stopIf with
  | true =>
    rw [fetch_stopped cfg hstop]
    exact Nat.two_pow_pos 32
  | false =>
    rw [(fetch_running cfg hstop skipBreak c).2.2]
    exact (isNarrow_next_iff hpc).mpr (hwithin hstop)

theorem fetch_running_predicted {pc : PCInterstage} (hstop : pc.stopIf = false) :
    (fetch cfg pc skipBreak c).1.predictedNextInstAddr =
      c.predictor.predictNextPcAddress (fetch cfg pc skipBreak c).1.inst c.regs.pc := by
  rw [fetch, if_neg (by rw [hstop]; decide)]
  rfl

omit [FrontendMemory M] in
theorem decode_addresses {f : FetchInterstage} (h : decode cfg f c = .ok d) :
    d.instAddr = f.instAddr ∧ d.nextInstAddr = f.nextInstAddr := by
  unfold decode at h
  split at h
  next => cases h
  next =>
    cases h
    exact ⟨rfl, rfl⟩

theorem execute_branch_iff (hinst : IsNarrow d.instAddr) :
    (execute d).branchJalTarget = asXlen ._32 (d.instAddr + d.immediateVal) ↔
      0 ≤ d.instAddr.toNat + d.immediateVal.toInt ∧
        d.instAddr.toNat + d.immediateVal.toInt < 2 ^ 32 := by
  rw [← isNarrow_offset_iff hinst, ← eq_asXlen_iff]
  rfl

/-! ### The single-cycle core -/

namespace CoreSingle

def ModuloStep (cfg : CoreConfig) (skipBreak : Bool) (s s' : CoreSingle M) : Prop :=
  let fetched := fetch cfg s.pipeline.pcIf skipBreak s.core.nextCycle
  ∀ d, decode cfg fetched.1 fetched.2 = .ok d →
    Modulo fetched.1 d s'.pipeline.memWb s'.core.regs.pc

def StaysWithin (cfg : CoreConfig) (skipBreak : Bool) (s : CoreSingle M) : Prop :=
  let fetched := fetch cfg s.pipeline.pcIf skipBreak s.core.nextCycle
  ∀ d, decode cfg fetched.1 fetched.2 = .ok d →
    Within s.pipeline.pcIf.stopIf s.core.regs.pc d

/-- The program counter and the trap vectors have 32 bits. -/
structure Narrow (s : CoreSingle M) : Prop where
  pc : IsNarrow s.core.regs.pc
  vectors : NarrowVectors s.core.controlState

/-- What a step leaves that does not throw. -/
theorem step_pc {s s' : CoreSingle M} (hstep : step cfg skipBreak s = (.ok (), s')) :
    ∃ d r c, decode cfg (fetch cfg s.pipeline.pcIf skipBreak s.core.nextCycle).1
        (fetch cfg s.pipeline.pcIf skipBreak s.core.nextCycle).2 = .ok d ∧
      memory cfg (execute d) (fetch cfg s.pipeline.pcIf skipBreak s.core.nextCycle).2 =
        (.ok r, c) ∧
      s'.pipeline.memWb = r.1 ∧
      (s'.core.regs.pc = r.1.computedNextInstAddr ∨ s'.core.regs.pc = r.1.instAddr ∨
        ∃ toS, s'.core.regs.pc = c.controlState.registerData (tvecId toS)) := by
  rw [step, doStep_stages] at hstep
  split at hstep
  next => cases hstep
  next s₁ hstages =>
    obtain ⟨d, r, c, hdecode, hmemory, rfl⟩ := stages_ok hstages
    refine ⟨d, r, c, hdecode, hmemory, ?_⟩
    unfold finishStep at hstep
    dsimp only at hstep
    split at hstep
    next => cases hstep
    next c₁ hwrite =>
      obtain ⟨haligned, rfl⟩ := writePc_ok hwrite
      split at hstep
      next =>
        split at hstep
        next c₂ hhandle =>
          cases hstep
          have hpc := handleException_pc hhandle
          dsimp only at hpc
          rw [(writeback_control r.1 c).1] at hpc
          exact ⟨rfl, hpc⟩
        next => cases hstep
      next =>
        cases hstep
        exact ⟨rfl, .inl rfl⟩

theorem Narrow.modulo {s s' : CoreSingle M} (h : s.Narrow) (hxlen : cfg.xlen = ._32)
    (hstep : step cfg skipBreak s = (.ok (), s')) (hwithin : s.StaysWithin cfg skipBreak) :
    s.ModuloStep cfg skipBreak s' ∧ s'.Narrow := by
  obtain ⟨d, r, c, hdecode, hmemory, hmemWb, hpc⟩ := step_pc hstep
  have hd := hwithin d hdecode
  have hbefore : IsNarrow s.core.nextCycle.regs.pc := h.pc
  have hfetched : IsNarrow (fetch cfg s.pipeline.pcIf skipBreak s.core.nextCycle).1.instAddr :=
    fetch_narrow _ hbefore
  obtain ⟨hinst, hnext⟩ := decode_addresses hdecode
  have hnextNarrow : IsNarrow d.nextInstAddr := hnext ▸ fetch_next_narrow _ hbefore hd.sequential
  have hexecute : NarrowExecute (execute d) := .execute (hinst ▸ hfetched) hnextNarrow hd
  obtain ⟨hcomputed, haddress⟩ := hexecute.memory hxlen hmemory
  have hvectors : NarrowVectors (Hart.core s').controlState :=
    (hxlen ▸ narrowVectors_stable : StableCsr cfg.xlen _).step hstep h.vectors
  have hafter : NarrowVectors c.controlState :=
    (hxlen ▸ narrowVectors_stable : StableCsr cfg.xlen _).memoryEffect (memory_effect hmemory)
      ((hxlen ▸ narrowVectors_stable : StableCsr cfg.xlen _).aside (aside_fetch _ _ _) h.vectors)
  have hstored : IsNarrow s'.core.regs.pc := by
    rcases hpc with hpc | hpc | ⟨toS, hpc⟩
    · exact hpc ▸ hcomputed
    · exact hpc ▸ haddress
    · exact hpc ▸ hafter toS
  refine ⟨fun d' hdecode' => ?_, hstored, hvectors⟩
  cases Except.ok.inj (hdecode.symm.trans hdecode')
  exact
    { fetched := hfetched
      sequential := (fetch_sequential_iff _ hbefore).mpr hd.sequential
      branch := fun hbranch => (execute_branch_iff (hinst ▸ hfetched)).mpr (hd.branch hbranch)
      computed := hmemWb ▸ hcomputed
      stored := hstored }

/-- From a narrow state, a step computes modulo 2^32 exactly if it adds within 32 bits. -/
theorem Narrow.modulo_iff {s s' : CoreSingle M} (h : s.Narrow) (hxlen : cfg.xlen = ._32)
    (hstep : step cfg skipBreak s = (.ok (), s')) :
    s.ModuloStep cfg skipBreak s' ↔ s.StaysWithin cfg skipBreak := by
  refine ⟨fun hmodulo d hdecode => ?_, fun hwithin => (h.modulo hxlen hstep hwithin).1⟩
  have hd := hmodulo d hdecode
  have hbefore : IsNarrow s.core.nextCycle.regs.pc := h.pc
  exact ⟨(fetch_sequential_iff _ hbefore).mp hd.sequential, fun hbranch =>
    (execute_branch_iff ((decode_addresses hdecode).1 ▸ fetch_narrow _ hbefore)).mp
      (hd.branch hbranch)⟩

end CoreSingle

/-! ### The pipelined core -/

namespace CorePipelined

def ModuloStep (cfg : CoreConfig) (skipBreak : Bool) (s s' : CorePipelined M) : Prop :=
  ∀ r c, memory cfg s.pipeline.exMem (writeback s.pipeline.memWb s.core.nextCycle) = (.ok r, c) →
    Modulo (fetch cfg s.pipeline.pcIf skipBreak c).1 s.pipeline.idEx s'.pipeline.memWb
      s'.core.regs.pc

def StaysWithin (s : CorePipelined M) : Prop :=
  Within s.pipeline.pcIf.stopIf s.core.regs.pc s.pipeline.idEx

/-- The addresses in the core and in the stage registers have 32 bits. -/
structure Narrow (s : CorePipelined M) : Prop where
  pc : IsNarrow s.core.regs.pc
  vectors : NarrowVectors s.core.controlState
  targets : s.core.predictor.LearntTargets IsNarrow
  ifId : IsNarrow s.pipeline.ifId.instAddr ∧ IsNarrow s.pipeline.ifId.nextInstAddr
  idEx : IsNarrow s.pipeline.idEx.instAddr ∧ IsNarrow s.pipeline.idEx.nextInstAddr
  exMem : NarrowExecute s.pipeline.exMem

variable {s s' : CorePipelined M} {r : MemoryInterstage × MemoryInternalState}
  {d : DecodeInterstage} {c : Core M}

theorem Stepped.pc (hdone : Stepped cfg skipBreak s s' r d c) : c.regs.pc = s.core.regs.pc := by
  rw [memory_regs hdone.memory, writeback_pc]
  rfl

theorem Stepped.controlState_narrow (hdone : Stepped cfg skipBreak s s' r d c)
    (hxlen : cfg.xlen = ._32) (h : NarrowVectors s.core.controlState) :
    NarrowVectors (fetch cfg s.pipeline.pcIf skipBreak c).2.controlState := by
  have hstable : StableCsr cfg.xlen NarrowVectors := hxlen ▸ narrowVectors_stable
  refine hstable.aside (aside_fetch _ _ _)
    (hstable.memoryEffect (memory_effect hdone.memory) ?_)
  exact hstable.aside (@aside_writeback M cfg _ _) h

/-- The stage registers stay narrow. -/
theorem Narrow.stages (h : s.Narrow) (hdone : Stepped cfg skipBreak s s' r d c)
    (hwithin : s.StaysWithin) :
    (IsNarrow s'.pipeline.ifId.instAddr ∧ IsNarrow s'.pipeline.ifId.nextInstAddr) ∧
      (IsNarrow s'.pipeline.idEx.instAddr ∧ IsNarrow s'.pipeline.idEx.nextInstAddr) ∧
      NarrowExecute s'.pipeline.exMem := by
  have hempty : IsNarrow stageAddrNone ∧ IsNarrow 0 := ⟨isNarrow_stageAddrNone, by decide⟩
  have hfetched : IsNarrow (fetch cfg s.pipeline.pcIf skipBreak c).1.instAddr ∧
      IsNarrow (fetch cfg s.pipeline.pcIf skipBreak c).1.nextInstAddr := by
    have hpc : IsNarrow c.regs.pc := hdone.pc ▸ h.pc
    exact ⟨fetch_narrow _ hpc, fetch_next_narrow _ hpc (hdone.pc ▸ hwithin.sequential)⟩
  have hdecoded : IsNarrow d.instAddr ∧ IsNarrow d.nextInstAddr := by
    rw [(decode_addresses hdone.decode).1, (decode_addresses hdone.decode).2]
    exact h.ifId
  have hexecuted : NarrowExecute (execute s.pipeline.idEx) :=
    .execute h.idEx.1 h.idEx.2 hwithin
  cases hdone.ended with
  | exception _ hifId hidEx hexMem =>
    rw [hifId, hidEx, hexMem]
    exact ⟨hempty, hempty, .empty⟩
  | redirect _ hifId hidEx hexMem =>
    rw [hifId, hidEx, hexMem]
    exact ⟨hempty, hempty, .empty⟩
  | drainExecute _ _ _ hifId hidEx hexMem =>
    rw [hifId, hidEx, hexMem]
    exact ⟨hempty, hempty, hexecuted⟩
  | drainDecode _ _ _ _ hifId hidEx hexMem =>
    rw [hifId, hidEx, hexMem]
    exact ⟨hempty, hdecoded, hexecuted⟩
  | stall _ _ _ hifId hidEx hexMem =>
    rw [hifId, hidEx, hexMem]
    exact ⟨h.ifId, hempty, hexecuted⟩
  | goOn _ _ _ _ hifId hidEx hexMem =>
    rw [hifId, hidEx, hexMem]
    exact ⟨hfetched, hdecoded, hexecuted⟩

/-- The stored program counter stays narrow. -/
theorem Narrow.stored (h : s.Narrow) (hxlen : cfg.xlen = ._32)
    (hstep : step cfg skipBreak s = (.ok (), s')) (hdone : Stepped cfg skipBreak s s' r d c)
    (hwithin : s.StaysWithin) : IsNarrow s'.core.regs.pc := by
  obtain ⟨hcomputed, haddress⟩ := h.exMem.memory hxlen hdone.memory
  cases hdone.ended with
  | exception hexcause =>
    rcases hdone.exception_pc hstep hexcause with hpc | hpc | ⟨toS, hpc⟩
    · exact hpc ▸ hcomputed
    · exact hpc ▸ haddress
    · exact hpc ▸ hdone.controlState_narrow hxlen h.vectors toS
  | redirect _ _ _ _ _ hpc => exact hpc ▸ hcomputed
  | drainExecute _ _ _ _ _ _ hpc => exact hpc ▸ h.pc
  | drainDecode _ _ _ _ _ _ _ hpc => exact hpc ▸ h.pc
  | stall _ _ _ _ _ _ _ hpc => exact hpc ▸ h.pc
  | goOn _ _ _ _ _ _ _ _ hpc =>
    rw [hpc]
    cases hstop : s.pipeline.pcIf.stopIf with
    | true =>
      rw [fetch_stopped cfg hstop]
      exact Nat.two_pow_pos 32
    | false =>
      rw [fetch_running_predicted hstop]
      apply BranchPredictor.LearntTargets.predictNextPcAddress
      · apply h.exMem.predictor hxlen hdone.memory
        rw [writeback_predictor]
        exact h.targets
      · rw [hdone.pc]
        exact (isNarrow_next_iff h.pc).mpr (hwithin.sequential hstop)

theorem Narrow.modulo (h : s.Narrow) (hxlen : cfg.xlen = ._32)
    (hstep : step cfg skipBreak s = (.ok (), s')) (hwithin : s.StaysWithin) :
    s.ModuloStep cfg skipBreak s' ∧ s'.Narrow := by
  obtain ⟨r, d, c, hdone⟩ := step_stepped hstep
  have hstored := h.stored hxlen hstep hdone hwithin
  have hpc : IsNarrow c.regs.pc := hdone.pc ▸ h.pc
  have hvectors : NarrowVectors (Hart.core s').controlState :=
    (hxlen ▸ narrowVectors_stable : StableCsr cfg.xlen _).step hstep h.vectors
  have htargets : s'.core.predictor.LearntTargets IsNarrow := by
    obtain ⟨r', c', hmemory, hpredictor⟩ := doStep_predictor hstep
    rw [hpredictor]
    apply h.exMem.predictor hxlen hmemory
    rw [writeback_predictor]
    exact h.targets
  obtain ⟨hifId, hidEx, hexMem⟩ := h.stages hdone hwithin
  refine ⟨fun r' c' hmemory => ?_, hstored, hvectors, htargets, hifId, hidEx, hexMem⟩
  cases hmemory.symm.trans hdone.memory
  exact
    { fetched := fetch_narrow _ hpc
      sequential := (fetch_sequential_iff _ hpc).mpr (hdone.pc ▸ hwithin.sequential)
      branch := fun hbranch => (execute_branch_iff h.idEx.1).mpr (hwithin.branch hbranch)
      computed := hdone.memWb ▸ (h.exMem.memory hxlen hdone.memory).1
      stored := hstored }

/-- From a narrow state, a step computes modulo 2^32 exactly if it adds within 32 bits. -/
theorem Narrow.modulo_iff (h : s.Narrow) (hxlen : cfg.xlen = ._32)
    (hstep : step cfg skipBreak s = (.ok (), s')) :
    s.ModuloStep cfg skipBreak s' ↔ s.StaysWithin := by
  refine ⟨fun hmodulo => ?_, fun hwithin => (h.modulo hxlen hstep hwithin).1⟩
  obtain ⟨r, d, c, hdone⟩ := step_stepped hstep
  have hd := hmodulo r c hdone.memory
  have hpc : IsNarrow c.regs.pc := hdone.pc ▸ h.pc
  exact ⟨hdone.pc ▸ (fetch_sequential_iff _ hpc).mp hd.sequential, fun hbranch =>
    (execute_branch_iff h.idEx.1).mp (hd.branch hbranch)⟩

end CorePipelined

/-! ### Runs -/

structure Core.Narrow (c : Core M) : Prop where
  pc : IsNarrow c.regs.pc
  vectors : NarrowVectors c.controlState
  targets : c.predictor.LearntTargets IsNarrow

omit [FrontendMemory M] in
/-- A core starts so after a reset. -/
theorem Core.Narrow.reset (cfg : CoreConfig) {bp : BranchPredictor}
    (hbp : bp.LearntTargets IsNarrow) (mem : M) : (Core.reset cfg bp mem).Narrow where
  pc := by
    show IsNarrow Registers.pcInit
    decide
  vectors toS := by
    have hzero : (ControlState.new cfg.xlen cfg.isaWord).registerData (tvecId toS) = 0 := by
      rw [ControlState.new, set_registerData, if_neg (by cases toS <;> decide)]
      cases cfg.xlen <;> cases toS <;> rfl
    show IsNarrow ((ControlState.new cfg.xlen cfg.isaWord).registerData (tvecId toS))
    rw [hzero]
    decide
  targets := hbp

theorem CoreSingle.Narrow.reached (hxlen : cfg.xlen = ._32) (hc : c.Narrow) {s : CoreSingle M}
    (hrun : Hart.ReachedIf cfg (CoreSingle.StaysWithin cfg) c s) : s.Narrow := by
  induction hrun with
  | refl => exact ⟨hc.pc, hc.vectors⟩
  | tail _ hmove ih =>
    cases hmove with
    | step skipBreak hwithin hstep => exact (ih.modulo hxlen hstep hwithin).2
    | interrupt irqNum active =>
      exact ⟨ih.pc, narrowVectors_stable.interrupt irqNum active ih.vectors⟩

theorem CorePipelined.Narrow.reached (hxlen : cfg.xlen = ._32) (hc : c.Narrow) {s : CorePipelined M}
    (hrun : Hart.ReachedIf cfg (fun _ => CorePipelined.StaysWithin) c s) : s.Narrow := by
  have hempty : IsNarrow stageAddrNone ∧ IsNarrow 0 := ⟨isNarrow_stageAddrNone, by decide⟩
  induction hrun with
  | refl => exact ⟨hc.pc, hc.vectors, hc.targets, hempty, hempty, .empty⟩
  | tail _ hmove ih =>
    cases hmove with
    | step skipBreak hwithin hstep => exact (ih.modulo hxlen hstep hwithin).2
    | interrupt irqNum active =>
      exact { ih with vectors := narrowVectors_stable.interrupt irqNum active ih.vectors }

/-- In every run of a 32-bit core whose steps add within 32 bits the program counter has 32 bits.
In each state such a run reaches, a step computes its addresses modulo 2^32 exactly if it adds
within 32 bits too. -/
theorem pc_width_iff (hxlen : cfg.xlen = ._32) {c : Core M} (hc : c.Narrow) :
    (∀ s : CoreSingle M, Hart.ReachedIf cfg (CoreSingle.StaysWithin cfg) c s →
        IsNarrow s.core.regs.pc ∧
          ∀ skipBreak s', CoreSingle.step cfg skipBreak s = (.ok (), s') →
            (s.ModuloStep cfg skipBreak s' ↔ s.StaysWithin cfg skipBreak)) ∧
      ∀ s : CorePipelined M, Hart.ReachedIf cfg (fun _ => CorePipelined.StaysWithin) c s →
        IsNarrow s.core.regs.pc ∧
          ∀ skipBreak s', CorePipelined.step cfg skipBreak s = (.ok (), s') →
            (s.ModuloStep cfg skipBreak s' ↔ s.StaysWithin) := by
  refine ⟨fun s hrun => ?_, fun s hrun => ?_⟩
  · have hs := CoreSingle.Narrow.reached hxlen hc hrun
    exact ⟨hs.pc, fun skipBreak s' hstep => hs.modulo_iff hxlen hstep⟩
  · have hs := CorePipelined.Narrow.reached hxlen hc hrun
    exact ⟨hs.pc, fun skipBreak s' hstep => hs.modulo_iff hxlen hstep⟩

/-- A 32-bit core in front of a word at address 0x200. -/
def narrowCore (word : Instruction) : Core FlatMemory :=
  .reset (.rv32 .none) (.default false) (.ofWords 0x200 [word])

theorem narrowCore_narrow (word : Instruction) : (narrowCore word).Narrow :=
  .reset _ (.of_disabled rfl) _

/-- `jal x0, 8`. -/
theorem pc_width_iff_jal :
    ∃ s', CoreSingle.step (.rv32 .none) false (.start (narrowCore 0x0080006f)) = (.ok (), s') ∧
      (CoreSingle.start (narrowCore 0x0080006f)).ModuloStep (.rv32 .none) false s' := by
  have hstep := Hart.step_of_isOk (show (Hart.step (.rv32 .none) false
    (CoreSingle.start (narrowCore 0x0080006f))).1.isOk = true by decide +kernel)
  refine ⟨_, hstep, ?_⟩
  refine (((pc_width_iff rfl (narrowCore_narrow _)).1 _ .refl).2 false _ hstep).mpr ?_
  intro d hdecode
  refine ⟨fun _ => by decide, fun _ => ?_⟩
  have hfields : (decode (.rv32 .none)
      (fetch (.rv32 .none) {} false (narrowCore 0x0080006f).nextCycle).1
      (fetch (.rv32 .none) {} false (narrowCore 0x0080006f).nextCycle).2).map
        (fun d => (d.instAddr, d.immediateVal)) = .ok (0x200, 8) := by decide +kernel
  have hd := hfields.symm.trans (congrArg (Except.map _) hdecode)
  obtain ⟨hinst, himm⟩ := Prod.mk.inj (Except.ok.inj hd)
  rw [← hinst, ← himm]
  decide

/-- `jal x0, -1024` at address 0x200 should go to 0xfffffe00, and the stored program counter has 64
bits. -/
theorem backward_jal_leaves_word :
    ∃ s', CoreSingle.step (.rv32 .none) false (.start (narrowCore 0xc01ff06f)) = (.ok (), s') ∧
      s'.core.regs.pc = 0xfffffffffffffe00 ∧
      ¬(CoreSingle.start (narrowCore 0xc01ff06f)).ModuloStep (.rv32 .none) false s' := by
  have hstep := Hart.step_of_isOk (show (Hart.step (.rv32 .none) false
    (CoreSingle.start (narrowCore 0xc01ff06f))).1.isOk = true by decide +kernel)
  have hpc : (Hart.step (.rv32 .none) false
      (CoreSingle.start (narrowCore 0xc01ff06f))).2.core.regs.pc = 0xfffffffffffffe00 := by
    decide +kernel
  refine ⟨_, hstep, hpc, fun hmodulo => ?_⟩
  obtain ⟨d, r, c, hdecode, -⟩ := CoreSingle.step_pc hstep
  have hstored := (hmodulo d hdecode).stored
  rw [hpc] at hstored
  revert hstored
  decide

end QtRvSim
