import QtRvSim.Core.CsrInvariant
import QtRvSim.Refinement.FaultAddress

/-!
# The counter of retired instructions

The memory stage counts an instruction before its access is done, so `minstret` also counts the
instructions whose access ends in a page fault.
-/

namespace QtRvSim

open Csr ControlState Core BitVec RegisterValue CoreConfig

variable {M : Type} [FrontendMemory M] {cfg : CoreConfig}

def Core.minstret (c : Core M) : RegisterValue := c.controlState.registerData .minstret

/-- The memory stage is given an instruction without an exception. -/
def ExecuteInterstage.isActive (e : ExecuteInterstage) : Bool :=
  e.isValid && e.excause = .none

def ExecuteInterstage.writesMinstret (e : ExecuteInterstage) : Bool :=
  e.isActive && e.csrWrite && e.csrAddress == (registers .minstret).address

def Core.completes (cfg : CoreConfig) (e : ExecuteInterstage) (c : Core M) : Bool :=
  e.isActive && (performAccess cfg e c).1.isOk

def Core.faults (cfg : CoreConfig) (e : ExecuteInterstage) (c : Core M) : Bool :=
  e.isActive && !(performAccess cfg e c).1.isOk

/-! ### The register -/

theorem WriteEffect.minstret {dt : ExecuteInterstage} {privilege : PrivilegeLevel} {written : Bool}
    {cs cs' : ControlState} (heffect : WriteEffect cfg dt privilege cs written cs')
    (hactive : dt.isActive = true) (hwrites : dt.writesMinstret = false) :
    cs'.registerData .minstret = cs.registerData .minstret := by
  cases heffect with
  | skip => rfl
  | write hcsr hwrite =>
    obtain ⟨id, haddress, -, rfl⟩ := write_ok hwrite
    refine writeInternal_frame _ ?_ (by decide) (by decide) (by decide)
    rintro rfl
    rw [ExecuteInterstage.writesMinstret, hactive, hcsr, ← haddress] at hwrites
    revert hwrites
    decide

/-- Counting an instruction adds one, on XLEN bits. -/
theorem instructionCounted_minstret (cfg : CoreConfig) (cs : ControlState) :
    cfg.getXlenFromReg ((instructionCounted cfg cs).registerData .minstret) =
      cfg.getXlenFromReg (cs.registerData .minstret + 1) := by
  have hmask : (registers .minstret).writeMask = allOnes 64 := by decide
  have hvalue : (instructionCounted cfg cs).registerData .minstret =
      defaultWlrlValue cfg.xlen (registers .minstret) (cs.registerData .minstret)
        (cs.registerData .minstret + 1) := by
    simp [instructionCounted, incrementInternal, runWriteHandler, registers]
  rw [hvalue]
  simp only [getXlenFromReg]
  cases cfg.xlen with
  | _64 => simp only [defaultWlrlValue, hmask, and_allOnes, not_allOnes, and_zero, or_zero]
  | _32 =>
    have hlow : asU32 0xffffffff = allOnes 32 := by decide
    simp only [defaultWlrlValue, hmask, and_allOnes, not_allOnes, and_zero, or_zero, asXlen]
    rw [asU32, setWidth_and, ← asU32, ← asU32, hlow, and_allOnes]

/-- A trap leaves the counter. -/
theorem trapped_minstret (excause : ExceptionCause) (instAddr memRefAddr : Address)
    (privilege : PrivilegeLevel) (cs : ControlState) :
    (trapped cfg excause instAddr memRefAddr privilege cs).registerData .minstret =
      cs.registerData .minstret := by
  unfold trapped
  dsimp only
  split
  · rw [exceptionInitiate_frame _ _ (by decide) (by decide) (by decide),
      trapCsrUpdate_frame _ _ _ _ _ _ (by decide)]
  · rw [trapCsrUpdate_frame _ _ _ _ _ _ (by decide)]

theorem StepEnd.minstret {call : Option (TrapCall M)} {raised : ExceptionCause} {c c' : Core M}
    {result : Except SimulatorException Unit} (hend : StepEnd cfg call raised c result c') :
    c'.minstret = c.minstret := by
  cases hend with
  | plain => rfl
  | trap t _ _ regs hcore hhandle =>
    have hkeep : t.core.minstret = c.minstret := by rw [hcore]; rfl
    have heffect := @TrapCall.handle_effect M _ cfg t
    rw [hhandle] at heffect
    cases heffect with
    | thrown | stopped => exact hkeep
    | delivered => exact (trapped_minstret _ _ _ _ _).trans hkeep

omit [FrontendMemory M] in
theorem Aside.minstret {c c' : Core M} (h : Aside cfg c c') : c'.minstret = c.minstret := by
  rw [Core.minstret, Core.minstret]
  rcases h.control with hkeep | hcount
  · rw [hkeep]
  · rw [hcount]
    exact writeInternal_frame _ (by decide) (by decide) (by decide) (by decide)

/-- The memory stage counts the instruction it is given, if that has no exception. -/
theorem memory_minstret {e : ExecuteInterstage} {c c' : Core M}
    {r : MemoryInterstage × MemoryInternalState} (h : memory cfg e c = (.ok r, c'))
    (hwrites : e.writesMinstret = false) :
    cfg.getXlenFromReg c'.minstret =
      cfg.getXlenFromReg (c.minstret + BitVec.ofNat 64 e.isActive.toNat) := by
  cases hactive : e.isActive with
  | false =>
    have hidle : c'.controlState = c.controlState := by
      obtain ⟨csr, c₁, hcsr, -, rfl⟩ := memory_ok h
      have hframe := AccessFrame.memoryAccess cfg e c
      rw [memoryCsr, if_neg (by
        rw [← ExecuteInterstage.isActive, hactive]
        exact Bool.false_ne_true)] at hcsr
      cases hcsr
      rw [countMisprediction_control, memoryAccessed]
      exact hframe.controlState
    rw [Core.minstret, hidle]
    exact congrArg _ (BitVec.add_zero _).symm
  | true =>
    have hcounted := instructionCounted_minstret cfg c.controlState
    have heffect := memory_effect h
    rw [Core.minstret]
    generalize r.1.csrWritten = written at heffect
    generalize c'.controlState = cs' at heffect ⊢
    generalize c'.currentPrivilege = p' at heffect
    cases heffect with
    | idle hidle => exact absurd hactive hidle
    | count _ _ hwrite =>
      rw [WriteEffect.minstret hwrite hactive hwrites]
      exact hcounted
    | xret _ _ hwrite =>
      rw [exceptionReturn_frame _ _ (by decide) (by decide) (by decide),
        WriteEffect.minstret hwrite hactive hwrites]
      exact hcounted

/-! ### Runs that count -/

section Runs

variable {σ : Type} [Hart σ M] [MemoryStage σ M]

open MemoryStage

/-- A run that does not write the counter, in which `n` instructions have completed and the accesses
of `k` instructions were refused. -/
inductive CountedRun (cfg : CoreConfig) (c : Core M) : Nat → Nat → σ → Prop where
  | start : CountedRun cfg c 0 0 (Hart.start c)
  | step {n k : Nat} {s s' : σ} {e : ExecuteInterstage} {cₑ : Core M} (skipBreak : Bool)
      (hrun : CountedRun cfg c n k s) (hstep : Hart.step cfg skipBreak s = (.ok (), s'))
      (hentering : entering cfg skipBreak s = some (e, cₑ)) (hwrites : e.writesMinstret = false) :
      CountedRun cfg c (n + (cₑ.completes cfg e).toNat) (k + (cₑ.faults cfg e).toNat) s'
  | interrupt {n k : Nat} {s : σ} (irqNum : Nat) (active : Bool) (hrun : CountedRun cfg c n k s) :
      CountedRun cfg c n k (Hart.setCore ((Hart.core s).setInterruptSignal irqNum active) s)

/-- A step counts what enters the memory stage. -/
theorem minstret_of_step [StagedHart σ] {skipBreak : Bool} {s s' : σ} {e : ExecuteInterstage}
    {c : Core M} (hstep : Hart.step cfg skipBreak s = (.ok (), s'))
    (hentering : entering cfg skipBreak s = some (e, c)) (hwrites : e.writesMinstret = false) :
    cfg.getXlenFromReg (Hart.core s').minstret =
      cfg.getXlenFromReg ((Hart.core s).minstret + BitVec.ofNat 64 e.isActive.toNat) := by
  obtain ⟨e', cₑ, r, c₁, c₂, hentering', hmemory, haside, hend⟩ := StagedHart.step hstep
  cases hentering.symm.trans hentering'
  rw [hend.minstret, haside.minstret, memory_minstret hmemory hwrites,
    (StagedHart.entering hentering).minstret]
  rfl

end Runs

theorem Core.completes_add_faults (cfg : CoreConfig) (e : ExecuteInterstage) (c : Core M) :
    (c.completes cfg e).toNat + (c.faults cfg e).toNat = e.isActive.toNat := by
  rw [Core.completes, Core.faults]
  cases e.isActive with
  | false => rfl
  | true => cases (performAccess cfg e c).1.isOk <;> rfl

theorem Core.setInterruptSignal_minstret (irqNum : Nat) (active : Bool) (c : Core M) :
    (c.setInterruptSignal irqNum active).minstret = c.minstret := by
  show (c.controlState.setInterruptSignal irqNum active).1.registerData .minstret = _
  unfold ControlState.setInterruptSignal
  split
  · rfl
  · simp [Core.minstret]

/-- The counter has grown by `n`, on XLEN bits. -/
def Core.Counted (cfg : CoreConfig) (c c' : Core M) (n : Nat) : Prop :=
  cfg.getXlenFromReg c'.minstret = cfg.getXlenFromReg (c.minstret + BitVec.ofNat 64 n)

omit [FrontendMemory M] in
theorem Core.counted_iff (c c' : Core M) (n : Nat) :
    c.Counted cfg c' n ↔ c'.minstret.toNat ≡ c.minstret.toNat + n [MOD 2 ^ cfg.xlen.bits] := by
  have hdvd : 2 ^ cfg.xlen.bits ∣ 2 ^ 64 := by
    cases cfg.xlen with
    | _32 => exact ⟨2 ^ 32, rfl⟩
    | _64 => exact dvd_rfl
  rw [Core.Counted, getXlenFromReg, getXlenFromReg, asXlen_eq_iff, toNat_add, toNat_ofNat,
    Nat.add_mod_mod, Nat.mod_mod_of_dvd _ hdvd]
  rfl

section Runs

variable {σ : Type} [Hart σ M] [MemoryStage σ M] [StagedHart σ]

/-- The counter of a run has grown by the instructions that completed and those whose access was
refused. -/
theorem CountedRun.counted {c : Core M} {n k : Nat} {s : σ} (hrun : CountedRun cfg c n k s) :
    c.Counted cfg (Hart.core s) (n + k) := by
  induction hrun with
  | start =>
    rw [StagedHart.start, Core.counted_iff]
    rfl
  | interrupt irqNum active hrun ih =>
    rw [Core.Counted, StagedHart.setCore, Core.setInterruptSignal_minstret]
    exact ih
  | @step n k s s' e cₑ skipBreak hrun hstep hentering hwrites ih =>
    have hone : (Hart.core s).Counted cfg (Hart.core s') e.isActive.toNat :=
      minstret_of_step hstep hentering hwrites
    rw [Core.counted_iff] at hone ih ⊢
    rw [← Core.completes_add_faults cfg e cₑ] at hone
    have hsum := hone.trans (ih.add_right _)
    convert hsum using 1
    omega

theorem CountedRun.counted_iff_dvd {c : Core M} {n k : Nat} {s : σ}
    (hrun : CountedRun cfg c n k s) :
    c.Counted cfg (Hart.core s) n ↔ 2 ^ cfg.xlen.bits ∣ k := by
  have hcounted := hrun.counted
  rw [Core.counted_iff] at hcounted ⊢
  rw [← Nat.modEq_zero_iff_dvd]
  constructor
  · intro hn
    exact Nat.ModEq.add_left_cancel' (c.minstret.toNat + n)
      (by simpa [Nat.add_assoc] using hcounted.symm.trans hn)
  · intro hk
    simpa [Nat.add_assoc] using hcounted.trans ((hk.add_left n).add_left c.minstret.toNat)

omit [StagedHart σ] in
/-- The run of one step. -/
theorem CountedRun.one (c : Core M) (completes faults : Bool)
    (hok : (Hart.step cfg false (Hart.start c : σ)).1.isOk = true)
    (hentering : (MemoryStage.entering cfg false (Hart.start c : σ)).map
      (fun x => (x.1.writesMinstret, x.2.completes cfg x.1, x.2.faults cfg x.1)) =
        some (false, completes, faults)) :
    CountedRun cfg c completes.toNat faults.toNat (Hart.step cfg false (Hart.start c : σ)).2 := by
  obtain ⟨⟨e, cₑ⟩, hgiven, hfields⟩ := Option.map_eq_some_iff.mp hentering
  simp only [Prod.mk.injEq] at hfields
  obtain ⟨hwrites, rfl, rfl⟩ := hfields
  simpa using CountedRun.step false .start (Hart.step_of_isOk hok) hgiven hwrites

end Runs

/-- In every run of either core the counter grows by the number of instructions that complete, on
XLEN bits, exactly if the number of refused accesses is zero on XLEN bits.  Runs of the two cores
with equally many completed instructions count the same exactly if they agree in the number of
refused accesses. -/
theorem minstret_counts_iff (cfg : CoreConfig) (c : Core M) :
    (∀ (n k : Nat) (s : CoreSingle M), CountedRun cfg c n k s →
        (c.Counted cfg s.core n ↔ 2 ^ cfg.xlen.bits ∣ k)) ∧
      (∀ (n k : Nat) (s : CorePipelined M), CountedRun cfg c n k s →
        (c.Counted cfg s.core n ↔ 2 ^ cfg.xlen.bits ∣ k)) ∧
      ∀ (n k k' : Nat) (s : CoreSingle M) (s' : CorePipelined M), CountedRun cfg c n k s →
        CountedRun cfg c n k' s' →
        (cfg.getXlenFromReg s.core.minstret = cfg.getXlenFromReg s'.core.minstret ↔
          k ≡ k' [MOD 2 ^ cfg.xlen.bits]) := by
  refine ⟨fun n k s hrun => hrun.counted_iff_dvd, fun n k s hrun => hrun.counted_iff_dvd, ?_⟩
  intro n k k' s s' hsingle hpipelined
  have hone := (Core.counted_iff _ _ _).mp hsingle.counted
  have htwo := (Core.counted_iff _ _ _).mp hpipelined.counted
  rw [getXlenFromReg, getXlenFromReg, asXlen_eq_iff]
  constructor
  · intro hsame
    have hsum := hone.symm.trans (Nat.ModEq.trans hsame htwo)
    exact (hsum.add_left_cancel').add_left_cancel'
  · intro hsame
    exact hone.trans (((hsame.add_left n).add_left c.minstret.toNat).trans htwo.symm)

/-- A 64-bit core in front of `sw x5, 0(x2)`. -/
def plainStoreCore : Core FlatMemory :=
  .reset (.rv64 .none) (.default false) (.ofWords 0x200 [0x00512023])

theorem minstret_counts_iff_store :
    ∃ s : CoreSingle FlatMemory, CountedRun (.rv64 .none) plainStoreCore 1 0 s ∧
      plainStoreCore.Counted (.rv64 .none) s.core 1 := by
  have hrun : CountedRun (.rv64 .none) plainStoreCore 1 0
      (CoreSingle.step (.rv64 .none) false (.start plainStoreCore)).2 :=
    @CountedRun.one _ _ (.rv64 .none) (CoreSingle FlatMemory) _ _ plainStoreCore true false
      (by decide +kernel) (by decide +kernel)
  exact ⟨_, hrun, ((minstret_counts_iff (.rv64 .none) plainStoreCore).1 1 0 _ hrun).mpr
    (Nat.dvd_zero _)⟩

/-- The store to a page that is not mapped raises a page fault, and the counter is one. -/
theorem faulting_store_counted :
    ∃ s : CoreSingle (VirtualMemory smallVm FlatMemory),
      CountedRun (.rv64 .none) storingCore 0 1 s ∧ storingCore.minstret = 0 ∧
        s.core.minstret = 1 ∧ ¬storingCore.Counted (.rv64 .none) s.core 0 := by
  have hrun : CountedRun (.rv64 .none) storingCore 0 1
      (CoreSingle.step (.rv64 .none) false (.start storingCore)).2 :=
    @CountedRun.one _ _ (.rv64 .none) (CoreSingle (VirtualMemory smallVm FlatMemory)) _ _
      storingCore false true (by decide +kernel) (by decide +kernel)
  have hbefore : storingCore.minstret = 0 := by decide +kernel
  have hafter : (CoreSingle.step (.rv64 .none) false (.start storingCore)).2.core.minstret = 1 := by
    decide +kernel
  refine ⟨_, hrun, hbefore, hafter, ?_⟩
  rw [Core.Counted, hbefore, hafter]
  decide

end QtRvSim
