import QtRvSim.Core.Reset
import QtRvSim.Core.StageInvariant

/-!
# Interrupts are taken only when they are enabled

An interrupt is attached to an instruction when it is fetched and taken when the instruction
reaches the end of the memory stage.  In the pipelined core that is up to three steps later, but
whatever could disable the interrupt in between flushes the instruction.
-/

namespace QtRvSim

open Csr ControlState Core

variable {M : Type} [FrontendMemory M] {cfg : CoreConfig}

namespace Core

def enableBit (toS : Bool) : RegisterFieldDesc :=
  if toS then Field.Mstatus.sie else Field.Mstatus.mie

def interruptCause (toS : Bool) : ExceptionCause :=
  if toS then .intS else .intM

theorem interruptCause_ne_none (toS : Bool) : interruptCause toS ≠ .none := by
  cases toS <;> decide

/-- Interrupts to a mode are enabled: the hart runs below the mode, or it runs in the mode and the
enable bit of the mode is set. -/
def InterruptsEnabled (c : Core M) (toS : Bool) : Prop :=
  c.currentPrivilege.toNat < (targetPriv toS).toNat ∨
    (c.currentPrivilege = targetPriv toS ∧ c.controlState.readField (enableBit toS) = 1)

/-- An interrupt that is attached to an instruction is enabled. -/
def TagEnabled (c : Core M) (excause : ExceptionCause) : Prop :=
  ∀ toS, excause = interruptCause toS → c.InterruptsEnabled toS

variable {toS : Bool}

theorem readField_enableBit {cs : ControlState} (h : cs.readField (enableBit toS) ≠ 0) :
    cs.readField (enableBit toS) = 1 := by
  have hbit : ∀ k (w : BitVec 64), (BitField.mk 1 k).decode w ≠ 0 →
      (BitField.mk 1 k).decode w = 1 := by
    intro k w hne
    rw [BitField.decode_bit] at hne ⊢
    split
    · rfl
    next hclear => exact absurd (if_neg hclear) hne
  cases toS with
  | true | false => exact hbit _ _ h

omit [FrontendMemory M] in
/-- The interrupt that the CSR file asks for is enabled. -/
theorem tagEnabled_coreInterruptRequest (c : Core M) :
    c.TagEnabled (c.controlState.coreInterruptRequest c.currentPrivilege) := by
  intro toS htag
  have hcases : c.controlState.coreInterruptRequest c.currentPrivilege = .none ∨
      ∃ toS, c.controlState.coreInterruptRequest c.currentPrivilege = interruptCause toS ∧
        (c.currentPrivilege.toNat < (targetPriv toS).toNat ∨
          (c.currentPrivilege = targetPriv toS ∧
            c.controlState.readField (enableBit toS) ≠ 0)) := by
    unfold coreInterruptRequest
    dsimp only
    split
    next hm =>
      right
      refine ⟨false, rfl, ?_⟩
      simpa [targetPriv, enableBit] using hm.2
    next =>
      split
      next hs =>
        right
        refine ⟨true, rfl, ?_⟩
        simpa [targetPriv, enableBit] using hs.2
      next => exact .inl rfl
  rcases hcases with hnone | ⟨toS', hcause, henabled⟩
  · rw [hnone] at htag
    cases toS <;> cases htag
  · have hsame : toS = toS' := by
      rw [hcause] at htag
      revert htag
      cases toS <;> cases toS' <;> decide
    subst hsame
    exact henabled.imp id fun h => ⟨h.1, readField_enableBit h.2⟩

variable {excause : ExceptionCause} {c : Core M}

omit [FrontendMemory M] in
theorem TagEnabled.of_not_interrupt (h : ∀ toS, excause ≠ interruptCause toS) :
    c.TagEnabled excause :=
  fun toS htag => absurd htag (h toS)

variable {c' : Core M}

omit [FrontendMemory M] in
theorem InterruptsEnabled.congr (hmode : SameMode c c') (h : c.InterruptsEnabled toS) :
    c'.InterruptsEnabled toS := by
  unfold InterruptsEnabled readField readInternal at h ⊢
  have hreg : (enableBit toS).regId = .mstatus := by cases toS <;> rfl
  rw [hreg] at h ⊢
  rw [hmode.privilege, hmode.mstatus]
  exact h

/-- A fetched instruction only carries an enabled interrupt. -/
theorem fetch_tagEnabled (pc : PCInterstage) (skipBreak : Bool) (c : Core M) :
    (fetch cfg pc skipBreak c).2.TagEnabled (fetch cfg pc skipBreak c).1.excause := by
  rcases fetch_excause cfg pc skipBreak c with hplain | hrequest
  · apply TagEnabled.of_not_interrupt
    intro toS htag
    rw [htag] at hplain
    revert hplain
    cases toS <;> decide
  · rw [hrequest]
    exact tagEnabled_coreInterruptRequest _

/-- Decoding attaches no interrupt. -/
theorem decodeExcause_interrupt {flags : InstructionFlags} {privilege : PrivilegeLevel}
    (h : decodeExcause cfg flags excause privilege = interruptCause toS) :
    excause = interruptCause toS := by
  rcases decodeExcause_cases cfg flags excause privilege with hkept | hown
  · rw [← hkept, h]
  · rw [h] at hown
    cases toS <;> exact absurd hown (by decide)

/-- The memory stage attaches no interrupt. -/
theorem memory_interrupt {dt : ExecuteInterstage} {r : MemoryInterstage × MemoryInternalState}
    (h : memory cfg dt c = (.ok r, c')) (htag : r.1.excause = interruptCause toS) :
    dt.excause = interruptCause toS := by
  by_contra hexcause
  obtain ⟨csr, c₁, -, rfl, -⟩ := memory_ok h
  change (memoryAccess cfg dt c).1.excause = interruptCause toS at htag
  have hnone : dt.excause = .none := by
    by_contra hraised
    rw [memoryAccess, if_pos hraised] at htag
    exact hexcause htag
  have hfault : ∀ op, getCurrentCause op ≠ interruptCause toS := by
    intro op
    cases op <;> cases toS <;> decide
  rw [memoryAccess, if_neg (not_not.mpr hnone)] at htag
  split at htag
  · cases toS <;> cases htag
  next fault _ _ => exact hfault fault.opkind htag

omit [FrontendMemory M] in
theorem TagEnabled.congr (hmode : SameMode c c') (h : c.TagEnabled excause) :
    c'.TagEnabled excause :=
  fun toS htag => (h toS htag).congr hmode

omit [FrontendMemory M] in
theorem decode_tagEnabled {dt : FetchInterstage} {d : DecodeInterstage}
    (h : c.TagEnabled dt.excause) (hdecode : decode cfg dt c = .ok d) : c.TagEnabled d.excause := by
  obtain ⟨csrReadVal, -, rfl⟩ := decode_ok hdecode
  intro toS htag
  exact h toS (decodeExcause_interrupt htag)

end Core

/-- The interrupts attached to the instructions in flight are enabled. -/
theorem tagEnabled_stageInvariant (M : Type) [FrontendMemory M] (cfg : CoreConfig) :
    StageInvariant M cfg (fun c f => c.TagEnabled f.excause) (fun c d => c.TagEnabled d.excause)
      (fun c e => c.TagEnabled e.excause) where
  emptyFetch _ := .of_not_interrupt (by decide)
  emptyDecode _ := .of_not_interrupt (by decide)
  emptyExecute _ := .of_not_interrupt (by decide)
  fetch c pc skipBreak := fetch_tagEnabled pc skipBreak c
  decode h hdecode := decode_tagEnabled h hdecode
  operands _ _ _ _ h := h
  execute h := h
  frameFetch hmode h := h.congr hmode
  frameDecode hmode h := h.congr hmode
  frameExecute hmode h := h.congr hmode

omit [FrontendMemory M] in
/-- The target mode of an interrupt is the one its cause says. -/
theorem TrapCall.excause_of_isInterrupt {t : TrapCall M} (h : t.IsInterrupt) :
    t.excause = interruptCause t.toS := by
  rcases h with h | h <;> simp [TrapCall.toS, deliverToS, interruptCause, h]

/-- A step from the given core takes only enabled interrupts, and none to the mode the core runs in
while the enable bit of the mode is clear. -/
def MaskedAt (c : Core M) (call : Option (TrapCall M)) : Prop :=
  ∀ t, call = some t → t.IsInterrupt →
    t.core.InterruptsEnabled t.toS ∧
      ¬(c.currentPrivilege = targetPriv t.toS ∧ c.controlState.readField (enableBit t.toS) = 0)

omit [FrontendMemory M] in
/-- An interrupt that is enabled when it is taken, in the mode in which the step started. -/
theorem MaskedAt.of_sameMode {c : Core M} {call : Option (TrapCall M)}
    (h : ∀ t, call = some t → t.IsInterrupt →
      c.InterruptsEnabled t.toS ∧ SameMode c t.core) : MaskedAt c call := by
  intro t ht hinterrupt
  obtain ⟨henabled, hmode⟩ := h t ht hinterrupt
  refine ⟨henabled.congr hmode, ?_⟩
  rintro ⟨hprivilege, hclear⟩
  rcases henabled with hbelow | ⟨-, hset⟩
  · rw [hprivilege] at hbelow
    exact absurd hbelow (Nat.lt_irrefl _)
  · rw [hclear] at hset
    exact absurd hset (by decide)

theorem CoreSingle.maskedAt (skipBreak : Bool) (s : CoreSingle M) :
    MaskedAt s.core (CoreSingle.trapCall cfg skipBreak s) := by
  apply MaskedAt.of_sameMode
  intro t ht hinterrupt
  have htag := TrapCall.excause_of_isInterrupt hinterrupt
  unfold trapCall at ht
  split at ht
  next => cases ht
  next s₁ hstages =>
    obtain ⟨idEx, r, c, hdecode, hmemory, rfl⟩ := stages_ok hstages
    obtain ⟨hexcause, hcause, -, -, hpc⟩ := callOf_some ht
    rw [hcause] at htag
    have hexecute := memory_interrupt hmemory htag
    have hraised : (execute idEx).excause ≠ .none := hexecute ▸ interruptCause_ne_none _
    -- the interrupt was attached by the fetch of this very step
    have henabled := decode_tagEnabled (fetch_tagEnabled _ _ _) hdecode t.toS hexecute
    have hfetch : SameMode s.core
        (fetch cfg s.pipeline.pcIf skipBreak s.core.nextCycle).2 :=
      (SameMode.nextCycle s.core).trans (.fetch s.pipeline.pcIf skipBreak s.core.nextCycle)
    refine ⟨henabled.congr hfetch.symm, hfetch.trans ?_⟩
    refine ((SameMode.memory_of_excause hmemory hraised).trans (.writeback r.1 c)).trans ?_
    exact .of_control (writePc_ok_control hpc).1 (writePc_ok_control hpc).2

theorem CorePipelined.maskedAt {c : Core M} {s : CorePipelined M} (hrun : Hart.Reached cfg c s)
    (skipBreak : Bool) : MaskedAt s.core (CorePipelined.trapCall cfg skipBreak s) := by
  apply MaskedAt.of_sameMode
  intro t ht hinterrupt
  have htag := TrapCall.excause_of_isInterrupt hinterrupt
  have hflight := (tagEnabled_stageInvariant M cfg).reached hrun
  unfold trapCall at ht
  split at ht
  next => cases ht
  next s₁ hstages =>
    obtain ⟨r, c, idEx, hmemory, -, rfl⟩ := stages_ok hstages
    obtain ⟨hexcause, hcause, -, -, hpc⟩ := callOf_some ht
    rw [hcause] at htag
    have hexecute := memory_interrupt hmemory htag
    have hraised : s.pipeline.exMem.excause ≠ .none := hexecute ▸ interruptCause_ne_none _
    have hback : SameMode s.core (writeback s.pipeline.memWb s.core.nextCycle) :=
      (SameMode.nextCycle s.core).trans (.writeback s.pipeline.memWb s.core.nextCycle)
    have hfetch : SameMode c (fetch cfg s.pipeline.pcIf skipBreak c).2 := .fetch _ _ _
    refine ⟨hflight.exMem t.toS hexecute, hback.trans ?_⟩
    refine ((SameMode.memory_of_excause hmemory hraised).trans hfetch).trans ?_
    exact .of_control (writePc_ok_control hpc).1 (writePc_ok_control hpc).2

/-- In every run of either core, whatever the program and the interrupt lines do, an interrupt is
taken only if it is enabled.  So none is taken to the mode in which the hart runs while the enable
bit of the mode is clear. -/
theorem interrupts_masked (cfg : CoreConfig) (c : Core M) :
    (∀ s : CoreSingle M, Hart.Reached cfg c s →
        ∀ skipBreak, MaskedAt s.core (Hart.trapCall cfg skipBreak s)) ∧
      ∀ s : CorePipelined M, Hart.Reached cfg c s →
        ∀ skipBreak, MaskedAt s.core (Hart.trapCall cfg skipBreak s) :=
  ⟨fun s _ skipBreak => CoreSingle.maskedAt skipBreak s,
    fun _ hrun skipBreak => CorePipelined.maskedAt hrun skipBreak⟩

def timerCore : Core FlatMemory :=
  let c : Core FlatMemory := .reset (.rv64 .none) (.default false) (.ofWords 0x200 [0x13])
  { c with controlState := (c.controlState.set .mie 0x80).set .mstatus 0x8 }

def timerState : CoreSingle FlatMemory :=
  Hart.setCore (timerCore.setInterruptSignal 7 true) (CoreSingle.start timerCore)

theorem interrupts_masked_timerState :
    ∃ t, Hart.trapCall (.rv64 .none) false timerState = some t ∧ t.IsInterrupt ∧
      t.core.InterruptsEnabled t.toS := by
  have hcall : (Hart.trapCall (.rv64 .none) false timerState).map (·.excause) = some .intM := by
    decide +kernel
  obtain ⟨t, ht, hexcause⟩ := Option.map_eq_some_iff.mp hcall
  have hrun : Hart.Reached (.rv64 .none) timerCore timerState :=
    .single (.interrupt (CoreSingle.start timerCore) 7 true)
  exact ⟨t, ht, .inl hexcause,
    ((interrupts_masked (.rv64 .none) timerCore).1 timerState hrun false t ht (.inl hexcause)).1⟩

end QtRvSim
