import QtRvSim.Core.Reset
import QtRvSim.Core.StageInvariant

/-!
# Encodings a core has to reject

The words that are instructions of RV64 only, of the M extension or of the A extension, as bit
patterns of the instruction set, and which of them a core without the feature rejects.  The core
compares flags of the decoding table, so a word slips through where the table row lacks the flag.
-/

namespace QtRvSim

open Core InstructionMap CoreConfig InstructionFlags BitVec

def funct3Pattern (code : BitVec 32) : WordPattern 32 := ⟨code, 0x0000707f⟩

def funct7Pattern (code : BitVec 32) : WordPattern 32 := ⟨code, 0xfe00707f⟩

/-- The encodings of an atomic operation, with every `aq` and `rl`. -/
def amoPatterns (code mask : BitVec 32) : List (WordPattern 32) :=
  [0x00000000, 0x02000000, 0x04000000, 0x06000000].map fun aqrl =>
    ⟨code ||| aqrl, mask ||| 0x06000000⟩

/-- `ld`, `lwu` and `sd`. -/
def wideAccesses : List (WordPattern 32) :=
  [0x00003003, 0x00006003, 0x00003023].map funct3Pattern

/-- `addiw`, `slliw`, `srliw`, `sraiw`, `addw`, `subw`, `sllw`, `srlw` and `sraw`. -/
def wordOperations : List (WordPattern 32) :=
  funct3Pattern 0x0000001b ::
    [0x0000101b, 0x0000501b, 0x4000501b, 0x0000003b, 0x4000003b, 0x0000103b, 0x0000503b,
      0x4000503b].map funct7Pattern

/-- `mulw`, `divw`, `divuw`, `remw` and `remuw`. -/
def wordMultiplications : List (WordPattern 32) :=
  [0x0200003b, 0x0200403b, 0x0200503b, 0x0200603b, 0x0200703b].map funct7Pattern

/-- `amoxor`, `amoor`, `amoand`, `amomin`, `amomax`, `amominu` and `amomaxu` of a width. -/
def amoLogic (funct3 : BitVec 32) : List (WordPattern 32) :=
  [0x2000002f, 0x4000002f, 0x6000002f, 0x8000002f, 0xa000002f, 0xc000002f, 0xe000002f].flatMap
    fun code => amoPatterns (code ||| funct3) 0xf800707f

/-- `amoadd`, `amoswap`, `lr` and `sc` of a width; `lr` has no second source register. -/
def amoBasic (funct3 : BitVec 32) : List (WordPattern 32) :=
  amoPatterns (0x0000002f ||| funct3) 0xf800707f ++ amoPatterns (0x0800002f ||| funct3) 0xf800707f
    ++ amoPatterns (0x1000002f ||| funct3) 0xf9f0707f
    ++ amoPatterns (0x1800002f ||| funct3) 0xf800707f

/-- `slli`, `srli` and `srai` with a shift amount of 32 or more. -/
def wideShifts : List (WordPattern 32) :=
  [0x02001013, 0x02005013, 0x42005013].map funct7Pattern

/-- The instructions RV64 adds to RV32. -/
def rv64Only : List (WordPattern 32) :=
  wideAccesses ++ wordOperations ++ wordMultiplications ++ amoLogic 0x3000 ++ amoBasic 0x3000
    ++ wideShifts

def mExtension : List (WordPattern 32) :=
  [0x02000033, 0x02001033, 0x02002033, 0x02003033, 0x02004033, 0x02005033, 0x02006033,
    0x02007033].map funct7Pattern ++ wordMultiplications

def aExtension : List (WordPattern 32) :=
  amoBasic 0x2000 ++ amoLogic 0x2000 ++ amoBasic 0x3000 ++ amoLogic 0x3000

/-- The instruction set of the core lacks the word. -/
def MustReject (cfg : CoreConfig) (word : Instruction) : Prop :=
  cfg.xlen = ._32 ∧ Encodes rv64Only word ∨
    cfg.isaWord.contains 'M' = false ∧ Encodes mExtension word ∨
    cfg.isaWord.contains 'A' = false ∧ Encodes aExtension word

/-- The table row of the word does not tell that it is an RV64 instruction: the immediate shifts,
whose rows also stand for the shifts of RV32, and four atomic operations. -/
def Unflagged (cfg : CoreConfig) (word : Instruction) : Prop :=
  cfg.xlen = ._32 ∧ (Encodes wideShifts word ∨
    cfg.isaWord.contains 'A' = true ∧ Encodes (amoBasic 0x3000) word)

instance (cfg : CoreConfig) (word : Instruction) : Decidable (MustReject cfg word) :=
  inferInstanceAs (Decidable (_ ∨ _))

instance (cfg : CoreConfig) (word : Instruction) : Decidable (Unflagged cfg word) :=
  inferInstanceAs (Decidable (_ ∧ _))

/-! ### The rows of the table -/

variable {word : Instruction}

theorem Encodes.append {ps qs : List (WordPattern 32)} :
    Encodes (ps ++ qs) word ↔ Encodes ps word ∨ Encodes qs word := by
  simp only [Encodes, List.mem_append, or_and_right, exists_or]

/-- Most rows for RV64 instructions have the flag. -/
theorem flags_rv64
    (h : Encodes (wideAccesses ++ wordOperations ++ wordMultiplications ++ amoLogic 0x3000) word) :
    word.flags.has .rv64 = true :=
  find_of_patterns (P := fun e => e.flags.has .rv64 = true) (by decide +kernel) h

theorem flags_mul (h : Encodes mExtension word) : word.flags.has .mul = true :=
  find_of_patterns (P := fun e => e.flags.has .mul = true) (by decide +kernel) h

theorem flags_amo (h : Encodes aExtension word) : word.flags.has .amo = true :=
  find_of_patterns (P := fun e => e.flags.has .amo = true) (by decide +kernel) h

/-- The rows of the wide shifts have no flag that a core checks. -/
theorem flags_wideShifts (h : Encodes wideShifts word) :
    word.flags &&& (.rv64 ||| .amo ||| .mul ||| .privS ||| .privH ||| .privM ||| .supported) =
      supported :=
  find_of_patterns (P := fun e => e.flags &&& (.rv64 ||| .amo ||| .mul ||| .privS ||| .privH
    ||| .privM ||| .supported) = supported) (by decide +kernel) h

/-- The rows of four atomic operations have only the flag of the extension. -/
theorem flags_amoBasic (h : Encodes (amoBasic 0x3000) word) :
    word.flags &&& (.rv64 ||| .mul ||| .privS ||| .privH ||| .privM ||| .supported) =
      supported :=
  find_of_patterns (P := fun e => e.flags &&& (.rv64 ||| .mul ||| .privS ||| .privH
    ||| .privM ||| .supported) = supported) (by decide +kernel) h

/-- None of the words accesses a CSR, branches or asks for an exception. -/
theorem flags_plain (h : Encodes (rv64Only ++ mExtension ++ aExtension) word) :
    word.flags &&& (.csr ||| .exception ||| .branch ||| .jump ||| .branchJalr) = 0 :=
  find_of_patterns (P := fun e => e.flags &&& (.csr ||| .exception ||| .branch ||| .jump
    ||| .branchJalr) = 0) (by decide +kernel) h

theorem MustReject.encodes {cfg : CoreConfig} (h : MustReject cfg word) :
    Encodes (rv64Only ++ mExtension ++ aExtension) word := by
  rw [Encodes.append, Encodes.append]
  rcases h with ⟨-, h⟩ | ⟨-, h⟩ | ⟨-, h⟩
  · exact .inl (.inl h)
  · exact .inl (.inr h)
  · exact .inr h

/-- A word of the encodings has none of the flags of `flags_plain`. -/
theorem MustReject.has_eq_false {cfg : CoreConfig} (h : MustReject cfg word)
    {flag : InstructionFlags}
    (hflag : flag &&& (.csr ||| .exception ||| .branch ||| .jump ||| .branchJalr) = flag) :
    word.flags.has flag = false := by
  rw [has, ← hflag, BitVec.and_comm flag, ← BitVec.and_assoc,
    flags_plain h.encodes, BitVec.ofNat_eq_ofNat, BitVec.zero_and]
  rfl

/-! ### The check of the decode stage -/

/-- Flags that are as they should be under a larger mask are legal. -/
theorem legal_of_and_eq {flags mask mask' : InstructionFlags} (hmask : mask &&& mask' = mask)
    (hflags : flags &&& mask' = checkInstFlagsVal) :
    (flags ^^^ checkInstFlagsVal) &&& mask = 0 := by
  rw [← hflags, ← hmask]
  apply eq_of_getLsbD_eq
  intro i hi
  simp only [getLsbD_and, getLsbD_xor, ofNat_eq_ofNat, getLsbD_zero]
  cases flags.getLsbD i <;> cases getLsbD mask i <;> cases getLsbD mask' i <;> rfl

/-- A word has to be rejected: the flags of its row say so unless they are missing. -/
theorem illegal_iff {cfg : CoreConfig} (hmust : MustReject cfg word) (privilege : PrivilegeLevel) :
    (word.flags ^^^ checkInstFlagsVal) &&& cfg.checkInstFlagsMask privilege ≠ 0 ↔
      ¬Unflagged cfg word := by
  have hflag (flag : InstructionFlags) (hhas : word.flags.has flag = true)
      (hmask : flag &&& cfg.checkInstFlagsMask privilege = flag)
      (hval : checkInstFlagsVal &&& flag = 0) :
      (word.flags ^^^ checkInstFlagsVal) &&& cfg.checkInstFlagsMask privilege ≠ 0 := by
    intro hlegal
    rw [has_eq_false_of_legal hlegal hmask hval] at hhas
    cases hhas
  have hamo (ha : cfg.isaWord.contains 'A' = false) (h : Encodes aExtension word) :=
    hflag .amo (flags_amo h) (by
      rw [checkInstFlagsMask, unsupportedInstFlagsToCheck, ha]
      cases cfg.xlen <;> cases cfg.isaWord.contains 'M' <;> cases privilege <;> decide) (by decide)
  constructor
  · rintro hillegal ⟨hxlen, hshift | ⟨ha, hbasic⟩⟩ <;> apply hillegal
    · apply legal_of_and_eq _ (flags_wideShifts hshift)
      rw [checkInstFlagsMask, unsupportedInstFlagsToCheck, hxlen]
      cases cfg.isaWord.contains 'A' <;> cases cfg.isaWord.contains 'M' <;> cases privilege <;>
        decide
    · apply legal_of_and_eq _ (flags_amoBasic hbasic)
      rw [checkInstFlagsMask, unsupportedInstFlagsToCheck, hxlen, ha]
      cases cfg.isaWord.contains 'M' <;> cases privilege <;> decide
  · intro hflagged
    rcases hmust with ⟨hxlen, hrv64⟩ | ⟨hm, hencodes⟩ | ⟨ha, hencodes⟩
    · rw [rv64Only, Encodes.append, Encodes.append] at hrv64
      rcases hrv64 with (hrow | hbasic) | hshift
      · refine hflag .rv64 (flags_rv64 hrow) ?_ (by decide)
        rw [checkInstFlagsMask, unsupportedInstFlagsToCheck, hxlen]
        cases cfg.isaWord.contains 'A' <;> cases cfg.isaWord.contains 'M' <;> cases privilege <;>
          decide
      · cases ha : cfg.isaWord.contains 'A' with
        | true => exact absurd ⟨hxlen, .inr ⟨ha, hbasic⟩⟩ hflagged
        | false =>
          refine hamo ha ?_
          rw [aExtension, Encodes.append, Encodes.append]
          exact .inl (.inr hbasic)
      · exact absurd ⟨hxlen, .inl hshift⟩ hflagged
    · refine hflag .mul (flags_mul hencodes) ?_ (by decide)
      rw [checkInstFlagsMask, unsupportedInstFlagsToCheck, hm]
      cases cfg.xlen <;> cases cfg.isaWord.contains 'A' <;> cases privilege <;> decide
    · exact hamo ha hencodes

variable {M : Type} [FrontendMemory M] {cfg : CoreConfig} {word : Instruction}

/-- The decode stage makes the word illegal where its row has the flags. -/
theorem decodeExcause_iff (hmust : MustReject cfg word) {excause : ExceptionCause}
    (hexcause : excause ≠ .insnIllegal) (privilege : PrivilegeLevel) :
    decodeExcause cfg word.flags excause privilege = .insnIllegal ↔ ¬Unflagged cfg word := by
  rw [← illegal_iff hmust privilege]
  by_cases hillegal : (word.flags ^^^ checkInstFlagsVal) &&&
      cfg.checkInstFlagsMask privilege ≠ 0
  · exact ⟨fun _ => hillegal, fun _ => decodeExcause_illegal hillegal _⟩
  · refine ⟨fun h => absurd h ?_, fun h => absurd h hillegal⟩
    have hplain : word.flags.has .exception = false := hmust.has_eq_false (by decide)
    simp only [decodeExcause, if_neg hillegal, hplain, Bool.false_and, Bool.false_eq_true, if_false]
    exact hexcause

omit [FrontendMemory M] in
/-- The decode stage does not throw for the word. -/
theorem decode_of_mustReject {f : FetchInterstage} (hmust : MustReject cfg f.inst) (c : Core M) :
    decode cfg f c = .ok (decodeInterstage cfg f c.currentPrivilege (decodeValRs f.inst c.regs)
      (c.regs.readGp (decodeNumRt f.inst)) 0) := by
  have hread : decodeCsrRead f.inst c = .ok 0 := by
    rw [decodeCsrRead, hmust.has_eq_false (by decide)]
    rfl
  rw [decode, hread]

/-- The execute stage goes on behind the word. -/
theorem computeNextInstAddr_of_mustReject {f : FetchInterstage} (hmust : MustReject cfg f.inst)
    (privilege : PrivilegeLevel) (valRs valRt csrReadVal : RegisterValue) (branchTaken : Bool)
    (htaken : branchTaken =
      branchBxxTaken (execute (decodeInterstage cfg f privilege valRs valRt csrReadVal))) :
    computeNextInstAddr cfg (execute (decodeInterstage cfg f privilege valRs valRt csrReadVal))
      branchTaken = f.nextInstAddr := by
  have hbxx : (execute (decodeInterstage cfg f privilege valRs valRt csrReadVal)).branchBxx =
    false := hmust.has_eq_false (by decide)
  have hjal : (execute (decodeInterstage cfg f privilege valRs valRt csrReadVal)).branchJal =
    false := hmust.has_eq_false (by decide)
  have hjalr : (execute (decodeInterstage cfg f privilege valRs valRt csrReadVal)).branchJalr =
    false := hmust.has_eq_false (by decide)
  rw [htaken, branchBxxTaken, computeNextInstAddr, hbxx, hjal, hjalr]
  rfl

/-! ### The cores -/

/-- The memory stage hands the instruction on as illegal, and it has no effect. -/
def DroppedInMemory (cfg : CoreConfig) (e : ExecuteInterstage) (c : Core M) : Prop :=
  ∃ r c', memory cfg e c = (.ok r, c') ∧ r.1.excause = .insnIllegal ∧ r.1.regwrite = false ∧
    c'.regs = c.regs ∧ c'.mem = c.mem ∧ c'.controlState = c.controlState

theorem droppedInMemory {e : ExecuteInterstage} (h : e.excause = .insnIllegal) (c : Core M) :
    DroppedInMemory cfg e c := by
  refine ⟨_, _, memory_of_exception (by rw [h]; decide), h, rfl, ?_, ?_, ?_⟩
  · exact countMisprediction_regs _ _ _
  · exact countMisprediction_mem _ _ _
  · exact countMisprediction_control _ _ _

/-- The single-cycle core throws in the step that fetches the word, and leaves registers and memory
as they were after the fetch. -/
structure CoreSingle.Rejects (cfg : CoreConfig) (skipBreak : Bool) (word : Instruction)
    (s : CoreSingle M) : Prop where
  decode : (step cfg skipBreak s).2.pipeline.idEx.excause = .insnIllegal
  thrown : (step cfg skipBreak s).1 = .error (unsupportedInstruction word)
  gp : (step cfg skipBreak s).2.core.regs.gp = s.core.regs.gp
  mem : (step cfg skipBreak s).2.core.mem =
    (fetch cfg s.pipeline.pcIf skipBreak s.core.nextCycle).2.mem
  control : (step cfg skipBreak s).2.core.controlState =
    (fetch cfg s.pipeline.pcIf skipBreak s.core.nextCycle).2.controlState

/-- The pipelined core throws in the step that has the word in its memory stage, and the word has
no effect there; registers change by the write-back of the instruction in front. -/
structure CorePipelined.Rejects (cfg : CoreConfig) (skipBreak : Bool) (s : CorePipelined M) :
    Prop where
  decode : s.pipeline.exMem.excause = .insnIllegal
  dropped : DroppedInMemory cfg s.pipeline.exMem (writeback s.pipeline.memWb s.core.nextCycle)
  thrown : (step cfg skipBreak s).1.isOk = false
  gp : (step cfg skipBreak s).2.core.regs.gp =
    (writeback s.pipeline.memWb s.core.nextCycle).regs.gp

/-- The empty stage register is none of the encodings. -/
theorem not_mustReject_nop : ¬MustReject cfg Instruction.nop := by
  intro h
  have hnone : ¬Encodes (rv64Only ++ mExtension ++ aExtension) Instruction.nop := by decide +kernel
  exact hnone h.encodes

/-- Only a running fetch stage fetches one of the encodings. -/
theorem stopIf_of_mustReject {pc : PCInterstage} {skipBreak : Bool} {c : Core M}
    (hmust : MustReject cfg (fetch cfg pc skipBreak c).1.inst) : pc.stopIf = false := by
  by_contra hstop
  rw [Bool.not_eq_false] at hstop
  rw [fetch_stopped cfg hstop] at hmust
  exact not_mustReject_nop hmust

/-- The fetch stage makes no instruction illegal. -/
theorem fetch_not_illegal {pc : PCInterstage} {skipBreak : Bool} {c : Core M} :
    (fetch cfg pc skipBreak c).1.excause ≠ .insnIllegal := by
  intro h
  have hmem := fetch_excause_mem cfg pc skipBreak c
  rw [h] at hmem
  revert hmem
  decide

namespace CoreSingle

/-- The decoded instruction stays in its register. -/
theorem step_idEx {skipBreak : Bool} {s : CoreSingle M} {d : DecodeInterstage}
    (hdecode : Core.decode cfg (fetch cfg s.pipeline.pcIf skipBreak s.core.nextCycle).1
      (fetch cfg s.pipeline.pcIf skipBreak s.core.nextCycle).2 = .ok d) :
    (step cfg skipBreak s).2.pipeline.idEx = d := by
  rw [step, doStep]
  dsimp only
  rw [hdecode]
  dsimp only
  rcases memory cfg (execute d) (fetch cfg s.pipeline.pcIf skipBreak s.core.nextCycle).2
    with ⟨_ | ⟨memWb, memInternal⟩, c⟩
  · rfl
  · dsimp only
    rw [finishStep_pipeline]

/-- A step ends by throwing for an illegal instruction. -/
theorem finishStep_of_illegal {s : CoreSingle M}
    (hillegal : s.pipeline.memWb.excause = .insnIllegal)
    (haligned : s.pipeline.memWb.computedNextInstAddr.toNat % 4 = 0) :
    finishStep cfg s =
      (.error (unsupportedInstruction s.pipeline.memWb.inst),
        { s with
          core :=
            { s.core with
              regs :=
                { s.core.regs with
                  pc := s.pipeline.memWb.computedNextInstAddr, pcAligned := haligned } } }) := by
  unfold finishStep
  dsimp only
  rw [writePc_of_aligned _ haligned]
  dsimp only
  rw [if_pos (by rw [hillegal]; decide), handleException, if_pos hillegal]

theorem doStep_of_illegal {skipBreak : Bool} {s : CoreSingle M} {f : FetchInterstage} {c : Core M}
    {d : DecodeInterstage} (hfetch : fetch cfg s.pipeline.pcIf skipBreak s.core = (f, c))
    (hdecode : Core.decode cfg f c = .ok d) (hillegal : d.excause = .insnIllegal)
    (haligned :
      (computeNextInstAddr cfg (execute d) (branchBxxTaken (execute d))).toNat % 4 = 0) :
    (doStep cfg skipBreak s).1 = .error (unsupportedInstruction d.inst) ∧
      (doStep cfg skipBreak s).2.core.regs.gp = c.regs.gp ∧
      (doStep cfg skipBreak s).2.core.mem = c.mem ∧
      (doStep cfg skipBreak s).2.core.controlState = c.controlState := by
  have hexcause : (execute d).excause ≠ .none := ne_of_eq_of_ne hillegal (by decide)
  generalize hnext : computeNextInstAddr cfg (execute d) (branchBxxTaken (execute d)) = next
    at haligned
  have hregs := countMisprediction_regs next (execute d).predictedNextInstAddr
    { c with predictor := updatePredictor cfg (execute d) c.predictor }
  have hmem := countMisprediction_mem next (execute d).predictedNextInstAddr
    { c with predictor := updatePredictor cfg (execute d) c.predictor }
  have hcontrol := countMisprediction_control next (execute d).predictedNextInstAddr
    { c with predictor := updatePredictor cfg (execute d) c.predictor }
  have hmemory := @memory_of_exception M _ cfg (execute d) c hexcause
  rw [hnext] at hmemory
  generalize countMisprediction next (execute d).predictedNextInstAddr
    { c with predictor := updatePredictor cfg (execute d) c.predictor } = c'
    at hmemory hregs hmem hcontrol
  rw [doStep]
  dsimp only
  rw [hfetch]
  dsimp only
  rw [hdecode]
  dsimp only
  rw [hmemory]
  dsimp only
  rw [writeback_of_regwrite rfl, finishStep_of_illegal hillegal haligned]
  have hgp : c'.regs.gp = c.regs.gp := congrArg Registers.gp hregs
  exact ⟨rfl, hgp, hmem, hcontrol⟩

theorem rejects_iff {skipBreak : Bool} {s : CoreSingle M} (hmust : MustReject cfg word)
    (hword : (fetch cfg s.pipeline.pcIf skipBreak s.core.nextCycle).1.inst = word) :
    s.Rejects cfg skipBreak word ↔ ¬Unflagged cfg word := by
  subst hword
  have hnext := (fetch_running cfg (stopIf_of_mustReject hmust) skipBreak s.core.nextCycle).2.2
  have hregs := fetch_regs cfg s.pipeline.pcIf skipBreak s.core.nextCycle
  have hfetched := @fetch_not_illegal M _ cfg s.pipeline.pcIf skipBreak s.core.nextCycle
  generalize hfetch : fetch cfg s.pipeline.pcIf skipBreak s.core.nextCycle = fetched
    at hmust hnext hregs hfetched
  obtain ⟨f, c⟩ := fetched
  dsimp only at hmust hnext hregs hfetched
  have hdecode := decode_of_mustReject hmust c
  have hidEx := @step_idEx M _ cfg skipBreak s _ (by rw [hfetch]; exact hdecode)
  have hillegal := decodeExcause_iff hmust hfetched c.currentPrivilege
  refine ⟨fun h => hillegal.mp ?_, fun hflagged => ?_⟩
  · have hexcause := h.decode
    rwa [hidEx] at hexcause
  · replace hillegal := hillegal.mpr hflagged
    have haligned := BranchPredictor.add_four_aligned s.core.nextCycle.regs.pcAligned
    rw [← hnext, ← computeNextInstAddr_of_mustReject hmust _ _ _ _ _ rfl] at haligned
    obtain ⟨hthrown, hgp, hmemory, hcontrol⟩ := @doStep_of_illegal M _ cfg skipBreak
      { s with core := s.core.nextCycle } f c _ hfetch hdecode hillegal haligned
    refine ⟨by rw [hidEx]; exact hillegal, hthrown, hgp.trans (congrArg Registers.gp hregs), ?_, ?_⟩
    · rw [hfetch]
      exact hmemory
    · rw [hfetch]
      exact hcontrol

end CoreSingle

/-- In the stage registers too, the encodings are illegal where their rows have the flags. -/
theorem mustReject_stageInvariant (M : Type) [FrontendMemory M] (cfg : CoreConfig) :
    StageInvariant M cfg (fun _ f => f.excause ≠ .insnIllegal)
      (fun _ d => MustReject cfg d.inst → (d.excause = .insnIllegal ↔ ¬Unflagged cfg d.inst))
      (fun _ e => MustReject cfg e.inst → (e.excause = .insnIllegal ↔ ¬Unflagged cfg e.inst)) where
  emptyFetch _ := by decide
  emptyDecode _ hmust := absurd hmust not_mustReject_nop
  emptyExecute _ hmust := absurd hmust not_mustReject_nop
  fetch _ _ _ := fetch_not_illegal
  decode hfetched hdecode hmust := by
    obtain ⟨csrReadVal, -, rfl⟩ := decode_ok hdecode
    exact decodeExcause_iff hmust hfetched _
  operands _ _ _ _ h := h
  execute h := h
  frameFetch _ h := h
  frameDecode _ h := h
  frameExecute _ h := h

namespace CorePipelined

theorem takeException_of_illegal {jumpBranchPc : Address} {s : CorePipelined M}
    (hillegal : s.pipeline.memWb.excause = .insnIllegal) :
    (takeException cfg jumpBranchPc s).1.isOk = false ∧
      (takeException cfg jumpBranchPc s).2.core.regs.gp = s.core.regs.gp := by
  unfold takeException
  dsimp only
  by_cases haligned : s.pipeline.memWb.computedNextInstAddr.toNat % 4 = 0
  · rw [writePc_of_aligned _ haligned]
    dsimp only
    rw [handleException, if_pos hillegal]
    exact ⟨rfl, rfl⟩
  · rw [writePc_of_unaligned _ haligned]
    exact ⟨rfl, rfl⟩

theorem rejects_iff {c : Core M} {s : CorePipelined M} (hrun : Hart.Reached cfg c s)
    (hmust : MustReject cfg word) (hword : s.pipeline.exMem.inst = word) (skipBreak : Bool) :
    s.Rejects cfg skipBreak ↔ ¬Unflagged cfg word := by
  subst hword
  have hillegal := ((mustReject_stageInvariant M cfg).reached hrun).exMem hmust
  refine ⟨fun h => hillegal.mp h.decode, fun hflagged => ?_⟩
  replace hillegal := hillegal.mpr hflagged
  have hdropped : DroppedInMemory cfg s.pipeline.exMem
      (writeback s.pipeline.memWb s.core.nextCycle) := droppedInMemory hillegal _
  suffices hstep : (step cfg skipBreak s).1.isOk = false ∧
      (step cfg skipBreak s).2.core.regs.gp =
        (writeback s.pipeline.memWb s.core.nextCycle).regs.gp from
    ⟨hillegal, hdropped, hstep.1, hstep.2⟩
  obtain ⟨r, c', hmemory, hexcause, -, hregs, -, -⟩ := hdropped
  rw [step, doStep]
  dsimp only
  rw [hmemory]
  dsimp only
  cases Core.decode cfg s.pipeline.ifId c' with
  | error e => exact ⟨rfl, congrArg Registers.gp hregs⟩
  | ok idEx =>
    have hfetch := fetch_regs cfg s.pipeline.pcIf skipBreak c'
    dsimp only
    rw [afterStages_of_exception (by dsimp only; rw [hexcause]; decide), ← hregs, ← hfetch]
    exact takeException_of_illegal hexcause

end CorePipelined

/-- A core without the feature rejects an encoding, in decode and without any effect, exactly if
the row of the word has the flag of the feature. -/
theorem illegal_encodings_rejected (hmust : MustReject cfg word) :
    (∀ (s : CoreSingle M) (skipBreak : Bool),
      (fetch cfg s.pipeline.pcIf skipBreak s.core.nextCycle).1.inst = word →
        (s.Rejects cfg skipBreak word ↔ ¬Unflagged cfg word)) ∧
    ∀ (c : Core M) (s : CorePipelined M) (skipBreak : Bool), Hart.Reached cfg c s →
      (s.pipeline.ifId.inst = word → ∀ c₁ : Core M,
        (∃ d, decode cfg s.pipeline.ifId c₁ = .ok d ∧ d.excause = .insnIllegal) ↔
          ¬Unflagged cfg word) ∧
      (s.pipeline.exMem.inst = word → (s.Rejects cfg skipBreak ↔ ¬Unflagged cfg word)) := by
  refine ⟨fun s skipBreak => CoreSingle.rejects_iff hmust, fun c s skipBreak hrun =>
    ⟨?_, fun hword => CorePipelined.rejects_iff hrun hmust hword skipBreak⟩⟩
  rintro rfl c₁
  have hfetched := ((mustReject_stageInvariant M cfg).reached hrun).ifId
  rw [decode_of_mustReject hmust, ← decodeExcause_iff hmust hfetched c₁.currentPrivilege]
  constructor
  · rintro ⟨d, hd, hexcause⟩
    cases hd
    exact hexcause
  · exact fun hexcause => ⟨_, rfl, hexcause⟩

/-- A 32-bit core in front of a word. -/
def wordCore (word : Instruction) : CoreSingle FlatMemory :=
  .start (.reset (.rv32 .none) (.default false) (.ofWords 0x200 [word]))

/-- `ld x10, 0(x2)` is rejected. -/
theorem illegal_encodings_rejected_ld :
    MustReject (.rv32 .none) 0x00013503 ∧
      (wordCore 0x00013503).Rejects (.rv32 .none) false 0x00013503 := by
  refine ⟨by decide +kernel, ?_⟩
  exact ((illegal_encodings_rejected (by decide +kernel)).1 (wordCore 0x00013503) false
    (by decide +kernel)).mpr (by decide +kernel)

/-- `amoadd.d x10, x2, (x2)` writes memory and `slli x10, x2, 32` a register. -/
theorem rv32_accepts_wide :
    (MustReject (.rv32 .none) 0x0021352f ∧
      (CoreSingle.step (.rv32 .none) false (wordCore 0x0021352f)).1.isOk = true ∧
      (wordCore 0x0021352f).core.mem.bytes 0xbfffff01 = 0 ∧
      (CoreSingle.step (.rv32 .none) false (wordCore 0x0021352f)).2.core.mem.bytes 0xbfffff01 =
        0xff) ∧
    MustReject (.rv32 .none) 0x02011513 ∧
      (CoreSingle.step (.rv32 .none) false (wordCore 0x02011513)).1.isOk = true ∧
      (wordCore 0x02011513).core.regs.gp 10 = 0 ∧
      (CoreSingle.step (.rv32 .none) false (wordCore 0x02011513)).2.core.regs.gp 10 =
        0xffffffffbfffff00 := by
  refine ⟨⟨?_, ?_, ?_, ?_⟩, ?_, ?_, ?_, ?_⟩ <;> decide +kernel

end QtRvSim
