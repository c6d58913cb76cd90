import QtRvSim.Core.StageInvariant
import QtRvSim.Core.StageEnd
import QtRvSim.Core.Reset

/-!
# Predicted addresses

The branch target buffer learns the target of a branch together with its address.  As long as the
fetch stage reads the same code, every valid entry is the target that the word at its address
encodes, and a prediction is the next word or such a target.
-/

namespace QtRvSim

open Core InstructionMap Instruction CorePipelined FrontendMemory

/-! ### Branches and jumps of the instruction table -/

namespace Instruction

def IsJal (word : Instruction) : Prop :=
  Encodes [⟨0x6f, 0x7f⟩] word

/-- `jalr`; the table does not look at the function bits. -/
def IsJalr (word : Instruction) : Prop :=
  Encodes [⟨0x67, 0x7f⟩] word

/-- `beq`, `bne`, `blt`, `bge`, `bltu` and `bgeu`. -/
def IsBranch (word : Instruction) : Prop :=
  Encodes [⟨0x63, 0x707f⟩, ⟨0x1063, 0x707f⟩, ⟨0x4063, 0x707f⟩, ⟨0x5063, 0x707f⟩, ⟨0x6063, 0x707f⟩,
    ⟨0x7063, 0x707f⟩] word

variable {word : Instruction}

/-- A flag is only in the rows of the given encodings. -/
theorem encodes_of_flag {flag : InstructionFlags} {patterns : List (WordPattern 32)}
    (hunknown : unknownEntry.flags.has flag = false)
    (hrows : ∀ l ∈ root.leaves [], l.2.flags.has flag = true → (⟨l.2.code, l.2.mask⟩ : WordPattern
      32) ∈ patterns) (hflag : word.flags.has flag = true) : Encodes patterns word := by
  have hknown : find word ≠ unknownEntry := by
    intro h
    rw [flags, h, hunknown] at hflag
    cases hflag
  obtain ⟨l, hl, hentry, hmatch⟩ := find_mem hknown
  rw [← hentry] at hmatch
  exact ⟨_, hrows l hl (by rw [hentry]; exact hflag), hmatch⟩

theorem isJal_of_flag (h : word.flags.has .jump = true) : word.IsJal :=
  encodes_of_flag (by decide) (by decide +kernel) h

theorem isJalr_of_flag (h : word.flags.has .branchJalr = true) : word.IsJalr :=
  encodes_of_flag (by decide) (by decide +kernel) h

theorem isBranch_of_flag (h : word.flags.has .branch = true) : word.IsBranch :=
  encodes_of_flag (by decide) (by decide +kernel) h

end Instruction

/-- The address is the target that the word at an address encodes; nothing is said about the target
of an indirect jump. -/
def EncodedTarget (code : Address → Instruction) (address target : Address) : Prop :=
  (code address).IsJalr ∨ ((code address).IsJal ∨ (code address).IsBranch) ∧
    target = address + RegisterValue.ofI32 (code address).immediate

/-! ### Stages -/

namespace Core

variable {code : Address → Instruction}

/-- The register holds the word of the code at its address, or a word that is no branch, and an
address that the code explains. -/
structure FetchedFrom (code : Address → Instruction) (f : FetchInterstage) : Prop where
  inst : f.inst = .nop ∨ f.inst = code f.instAddr
  predicted : f.isValid = true → f.predictedNextInstAddr = f.instAddr + 4 ∨
    EncodedTarget code f.instAddr f.predictedNextInstAddr

/-- A branch or jump in the register is the one of the code, with its target. -/
structure DecodedFrom (code : Address → Instruction) (d : DecodeInterstage) : Prop where
  direct : d.branchJal = true ∨ d.branchBxx = true →
    EncodedTarget code d.instAddr (d.instAddr + d.immediateVal)
  indirect : d.branchJalr = true → (code d.instAddr).IsJalr

structure ExecutedFrom (code : Address → Instruction) (e : ExecuteInterstage) : Prop where
  direct : e.branchJal = true ∨ e.branchBxx = true → EncodedTarget code e.instAddr e.branchJalTarget
  indirect : e.branchJalr = true → (code e.instAddr).IsJalr

theorem FetchedFrom.decode {f : FetchInterstage} (h : FetchedFrom code f) (cfg : CoreConfig)
    (privilege : PrivilegeLevel) (valRs valRt csrReadVal : RegisterValue) :
    DecodedFrom code (decodeInterstage cfg f privilege valRs valRt csrReadVal) := by
  have hnop : nop.flags.has .jump = false ∧ nop.flags.has .branch = false ∧
      nop.flags.has .branchJalr = false := by decide
  rcases h.inst with hinst | hinst
  · refine ⟨fun hdirect => ?_, fun hindirect => ?_⟩
    · simp [decodeInterstage, hinst, hnop] at hdirect
    · simp [decodeInterstage, hinst, hnop] at hindirect
  · refine ⟨fun hdirect => .inr ⟨?_, ?_⟩, fun hindirect => ?_⟩
    · refine hdirect.imp (fun hjal => ?_) (fun hbxx => ?_)
      · exact isJal_of_flag (hinst ▸ hjal)
      · exact isBranch_of_flag (hinst ▸ hbxx)
    · rw [show (decodeInterstage cfg f privilege valRs valRt csrReadVal).instAddr = f.instAddr from
        rfl, ← hinst]
      rfl
    · exact isJalr_of_flag (hinst ▸ hindirect)

theorem learntEntries_memory {M : Type} [FrontendMemory M] {cfg : CoreConfig}
    {e : ExecuteInterstage} {c c' : Core M} {r : MemoryInterstage × MemoryInternalState}
    (h : ExecutedFrom code e) (hmemory : memory cfg e c = (.ok r, c'))
    (hlearnt : c.predictor.LearntEntries (EncodedTarget code)) :
    c'.predictor.LearntEntries (EncodedTarget code) := by
  refine memory_predictor hmemory (fun _ _ => .flush) (fun bp hbp => ?_) (fun _ hbp => hbp) hlearnt
  exact learntEntries_updatePredictor hbp (fun hjal => h.direct (.inl hjal))
    (fun _ hjalr => .inl (h.indirect hjalr)) (fun _ _ _ hbxx => h.direct (.inr hbxx))

end Core

/-! ### Runs -/

variable {M : Type} [FrontendMemory M] {cfg : CoreConfig} {code : Address → Instruction}

/-- The fetch stage of the step reads the word of the code at the program counter, unless the read
faults. -/
def FetchesCode (code : Address → Instruction) (cfg : CoreConfig) (_skipBreak : Bool)
    (s : CorePipelined M) : Prop :=
  ∀ r c word mem,
    memory cfg s.pipeline.exMem (writeback s.pipeline.memWb s.core.nextCycle) = (.ok r, c) →
    FrontendMemory.readGeneric 32 cfg.endian .program
      { address := c.regs.pc, mode := c.makeAccessMode .fetch } c.mem = (.ok word, mem) →
    word = code c.regs.pc

/-- The instructions in flight come from the code. -/
theorem code_stageHandover (M : Type) [FrontendMemory M] (cfg : CoreConfig)
    (code : Address → Instruction) :
    StageHandover M cfg (fun _ => FetchedFrom code) (fun _ => DecodedFrom code)
      (fun _ => ExecutedFrom code) where
  emptyFetch _ := ⟨.inl rfl, fun h => nomatch h⟩
  emptyDecode _ := ⟨fun h => by simp at h, fun h => nomatch h⟩
  emptyExecute _ := ⟨fun h => by simp at h, fun h => nomatch h⟩
  decode h hdecode := by
    obtain ⟨csrReadVal, -, rfl⟩ := decode_ok hdecode
    exact h.decode _ _ _ _ _
  operands _ _ _ _ h := ⟨h.direct, h.indirect⟩
  execute h := ⟨h.direct, h.indirect⟩
  frameFetch _ h := h
  frameDecode _ h := h
  frameExecute _ h := h

theorem fetch_fetchedFrom {c : Core M}
    (hcode : ∀ word mem, readGeneric 32 cfg.endian .program
      { address := c.regs.pc, mode := c.makeAccessMode .fetch } c.mem = (.ok word, mem) →
      word = code c.regs.pc)
    (hlearnt : c.predictor.LearntEntries (EncodedTarget code)) (pc : PCInterstage)
    (skipBreak : Bool) : FetchedFrom code (fetch cfg pc skipBreak c).1 := by
  unfold fetch
  split
  · exact ⟨.inl rfl, fun h => nomatch h⟩
  · dsimp only
    -- the predictor does not look at the word
    refine ⟨?_, fun _ => hlearnt.predictNextPcAddress .nop c.regs.pc⟩
    rcases hread : readGeneric 32 cfg.endian .program
      { address := c.regs.pc, mode := c.makeAccessMode .fetch } c.mem with ⟨_ | word, mem⟩
    · exact .inl rfl
    · exact .inr (hcode word mem hread)

/-- The instructions in flight and the entries of the predictor come from the code. -/
def CorePipelined.FromCode (code : Address → Instruction) (s : CorePipelined M) : Prop :=
  StageInvariant.InFlight (fun _ => FetchedFrom code) (fun _ => DecodedFrom code)
      (fun _ => ExecutedFrom code) s ∧
    s.core.predictor.LearntEntries (EncodedTarget code)

theorem CorePipelined.FromCode.step {skipBreak : Bool} {s s' : CorePipelined M}
    (h : s.FromCode code) (hcode : FetchesCode code cfg skipBreak s)
    (hstep : step cfg skipBreak s = (.ok (), s')) : s'.FromCode code := by
  have hmemory {r : MemoryInterstage × MemoryInternalState} {c : Core M}
      (hmemory : memory cfg s.pipeline.exMem (writeback s.pipeline.memWb s.core.nextCycle) =
        (.ok r, c)) : c.predictor.LearntEntries (EncodedTarget code) := by
    refine learntEntries_memory h.1.exMem hmemory ?_
    rw [writeback_predictor]
    exact h.2
  refine ⟨(code_stageHandover M cfg code).step h.1 (fun r c hdone => ?_) hstep, ?_⟩
  · exact fetch_fetchedFrom (fun word mem => hcode r c word mem hdone) (hmemory hdone) _ _
  · obtain ⟨r, c, hdone, hpredictor⟩ := doStep_predictor hstep
    rw [hpredictor]
    exact hmemory hdone

theorem CorePipelined.FromCode.reached {c : Core M} {s : CorePipelined M}
    (hlearnt : c.predictor.LearntEntries (EncodedTarget code))
    (hrun : Hart.ReachedIf cfg (FetchesCode code cfg) c s) : s.FromCode code := by
  induction hrun with
  | refl => exact ⟨(code_stageHandover M cfg code).inFlight_start c, hlearnt⟩
  | tail _ hmove ih =>
    cases hmove with
    | step skipBreak hcode hstep => exact ih.step hcode hstep
    | interrupt irqNum active =>
      exact ⟨(code_stageHandover M cfg code).interrupt ih.1 irqNum active, ih.2⟩

/-- In every run over fixed code, the address predicted for a fetched instruction that is not `jalr`
is the next word, or the target that a `jal` or a branch encodes. -/
theorem predicted_address_learnt {enabled : Bool} {type : PredictorType}
    {state : PredictorState} {btbBits bhrBits bhtAddrBits : TableBits} {c : Core M}
    (hnew : BranchPredictor.new enabled type state btbBits bhrBits bhtAddrBits =
      some c.predictor) {s : CorePipelined M}
    (hrun : Hart.ReachedIf cfg (FetchesCode code cfg) c s)
    (hvalid : s.pipeline.ifId.isValid = true)
    (hjalr : ¬(code s.pipeline.ifId.instAddr).IsJalr) :
    s.pipeline.ifId.predictedNextInstAddr = s.pipeline.ifId.instAddr + 4 ∨
      ((code s.pipeline.ifId.instAddr).IsJal ∨ (code s.pipeline.ifId.instAddr).IsBranch) ∧
        s.pipeline.ifId.predictedNextInstAddr = s.pipeline.ifId.instAddr +
          RegisterValue.ofI32 (code s.pipeline.ifId.instAddr).immediate := by
  have hinv : s.FromCode code := .reached (.new hnew) hrun
  rcases hinv.1.ifId.predicted hvalid with hnext | hjalr' | htarget
  · exact .inl hnext
  · exact absurd hjalr' hjalr
  · exact .inr htarget

/-- The first fetch of `jal x0, 8`. -/
theorem predicted_address_learnt_jal :
    ∃ s', CorePipelined.step (.rv32 .none) false (.start (predictingCore 0x0080006f)) =
        (.ok (), s') ∧
      (s'.pipeline.ifId.predictedNextInstAddr = s'.pipeline.ifId.instAddr + 4 ∨
        s'.pipeline.ifId.predictedNextInstAddr = s'.pipeline.ifId.instAddr + 8) := by
  have hstep := Hart.step_of_isOk (show (Hart.step (.rv32 .none) false
    (start (predictingCore 0x0080006f))).1.isOk = true by decide +kernel)
  have hnew : BranchPredictor.new true .smith1Bit .notTaken 2 0 2 =
    some (predictingCore 0x0080006f).predictor := rfl
  have hcode : FetchesCode (fun _ => 0x0080006f) (.rv32 .none) false
      (start (predictingCore 0x0080006f)) := by
    intro r c word mem hmemory hread
    have hword : (readGeneric 32 .little .program
        { address := (memory (.rv32 .none) {} (predictingCore 0x0080006f).nextCycle).2.regs.pc
          mode := (memory (.rv32 .none) {} (predictingCore 0x0080006f).nextCycle).2.makeAccessMode
            .fetch }
        (memory (.rv32 .none) {} (predictingCore 0x0080006f).nextCycle).2.mem).1.toOption =
        some (0x0080006f : BitVec 32) := by decide +kernel
    have hcore : (memory (.rv32 .none) {} (predictingCore 0x0080006f).nextCycle).2 = c :=
      congrArg Prod.snd hmemory
    have hread' : (readGeneric 32 .little .program
        { address := c.regs.pc, mode := c.makeAccessMode .fetch } c.mem).1 = .ok word :=
      congrArg Prod.fst hread
    rw [hcore, hread'] at hword
    exact Option.some.inj hword
  have hfetched : (Hart.step (.rv32 .none) false
      (start (predictingCore 0x0080006f))).2.pipeline.ifId.isValid = true := by
    decide +kernel
  refine ⟨_, hstep, (predicted_address_learnt hnew (.tail .refl (.step false hcode hstep))
    hfetched (show ¬Encodes [⟨0x67, 0x7f⟩] 0x0080006f by decide)).imp_right ?_⟩
  exact fun h => h.2.trans (congrArg _ (by decide +kernel))

end QtRvSim
