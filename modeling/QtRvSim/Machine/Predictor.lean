import QtRvSim.Machine.Instruction

/-!
# Branch predictor

Branch history register, branch target buffer, branch history table and the six prediction schemes
(`predictor.cpp`).  The loops over the history table count in sixteen bits and do not end on a
table of 65536 rows; such a predictor cannot be constructed, and the bound on the table is part of
the type.
-/

namespace QtRvSim

inductive BranchType where
  | jump
  | branch
  | undefined
deriving DecidableEq, Repr

inductive BranchResult where
  | notTaken
  | taken
  | undefined
deriving DecidableEq, Repr

inductive PredictorType where
  | alwaysNotTaken
  | alwaysTaken
  | btfnt
  | smith1Bit
  | smith2Bit
  | smith2BitHysteresis
deriving DecidableEq, Repr

inductive PredictorState where
  | notTaken
  | taken
  | stronglyNotTaken
  | weaklyNotTaken
  | weaklyTaken
  | stronglyTaken
  | undefined
deriving DecidableEq, Repr

/-- Number of bits of a predictor table; the machine configuration admits at most eight. -/
abbrev TableBits := Fin 9

instance TableBits.neZero : NeZero 9 := ⟨by decide⟩

structure PredictionStatistics where
  total : BitVec 32 := 0
  correct : BitVec 32 := 0
  wrong : BitVec 32 := 0
deriving DecidableEq, Repr

def PredictionStatistics.count (stats : PredictionStatistics) (predictionWasCorrect : Bool) :
    PredictionStatistics :=
  { total := stats.total + 1
    correct := if predictionWasCorrect then stats.correct + 1 else stats.correct
    wrong := if predictionWasCorrect then stats.wrong else stats.wrong + 1 }

structure BranchHistoryRegister where
  numberOfBits : TableBits
  value : BitVec 16
deriving DecidableEq, Repr

namespace BranchHistoryRegister

/-- Mask of the used bits; a register of the maximal width is not masked at all. -/
def registerMask (bhr : BranchHistoryRegister) : BitVec 16 :=
  if 8 ≤ bhr.numberOfBits.val then BitVec.allOnes 16
  else BitVec.ofNat 16 (2 ^ bhr.numberOfBits.val - 1)

def update (bhr : BranchHistoryRegister) (result : BranchResult) : BranchHistoryRegister :=
  let value := bhr.value <<< 1
  let value := if result = .taken then value ||| 1 else value
  { bhr with value := value &&& bhr.registerMask }

def clear (bhr : BranchHistoryRegister) : BranchHistoryRegister :=
  { bhr with value := 0 }

end BranchHistoryRegister

structure BranchTargetBufferEntry where
  entryValid : Bool := false
  instructionAddress : Address := 0
  targetAddress : Address := 0
  branchType : BranchType := .undefined
deriving DecidableEq, Repr

/-- Targets of branches and jumps, indexed by instruction address. -/
structure BranchTargetBuffer where
  numberOfBits : TableBits
  btb : List BranchTargetBufferEntry
deriving DecidableEq, Repr

namespace BranchTargetBuffer

def new (numberOfBits : TableBits) : BranchTargetBuffer :=
  { numberOfBits := numberOfBits, btb := List.replicate (2 ^ numberOfBits.val) {} }

def calculateIndex (t : BranchTargetBuffer) (instructionAddress : Address) : Nat :=
  ((instructionAddress >>> 2).setWidth 16 &&& BitVec.ofNat 16 (2 ^ t.numberOfBits.val - 1)).toNat

def getEntry (t : BranchTargetBuffer) (instructionAddress : Address) : BranchTargetBufferEntry :=
  t.btb.getD (t.calculateIndex instructionAddress) {}

def update (t : BranchTargetBuffer) (instructionAddress targetAddress : Address)
    (branchType : BranchType) : BranchTargetBuffer :=
  { t with
    btb := t.btb.set (t.calculateIndex instructionAddress)
      { entryValid := true
        instructionAddress := instructionAddress
        targetAddress := targetAddress
        branchType := branchType } }

def clear (t : BranchTargetBuffer) : BranchTargetBuffer :=
  { t with btb := t.btb.map fun _ => {} }

end BranchTargetBuffer

structure BranchHistoryTableEntry where
  state : PredictorState
  stats : PredictionStatistics := {}
deriving DecidableEq, Repr

structure PredictionInput where
  bhrValue : BitVec 16
  instructionAddress : Address
  targetAddress : Address

structure PredictionFeedback where
  bhrValue : BitVec 16
  instructionAddress : Address
  targetAddress : Address
  result : BranchResult

structure Predictor where
  type : PredictorType
  numberOfBhtAddrBits : TableBits
  initialState : PredictorState
  bht : List BranchHistoryTableEntry
  stats : PredictionStatistics
  bhtBounded : bht.length < 65536

namespace Predictor

/-- A new predictor, unless the initialisation of its history table does not end. -/
def new (type : PredictorType) (numberOfBhtAddrBits : TableBits) (numberOfBhtBits : Nat)
    (initialState : PredictorState) : Option Predictor :=
  let bht := List.replicate (2 ^ numberOfBhtBits) { state := initialState }
  if hbounded : bht.length < 65536 then
    some
      { type := type
        numberOfBhtAddrBits := numberOfBhtAddrBits
        initialState := initialState
        bht := bht
        stats := {}
        bhtBounded := hbounded }
  else
    none

def convertStateToPrediction : PredictorState → BranchResult
  | .notTaken => .notTaken
  | .taken => .taken
  | .weaklyNotTaken => .notTaken
  | .stronglyNotTaken => .notTaken
  | .weaklyTaken => .taken
  | .stronglyTaken => .taken
  | .undefined => .notTaken

def calculateBhtIndex (p : Predictor) (bhrValue : BitVec 16) (instructionAddress : Address) :
    Nat :=
  let bhrPart := bhrValue <<< p.numberOfBhtAddrBits.val
  let addressMask := BitVec.ofNat 16 (2 ^ p.numberOfBhtAddrBits.val - 1)
  let addressPart := (instructionAddress >>> 2).setWidth 16 &&& addressMask
  (bhrPart ||| addressPart).toNat

/-- The next state of a history table row; an undefined state or result leaves the row alone. -/
def nextState (type : PredictorType) (state : PredictorState) (result : BranchResult) :
    PredictorState :=
  match type, result with
  | .smith1Bit, .notTaken => .notTaken
  | .smith1Bit, .taken => .taken
  | .smith2Bit, .notTaken =>
    match state with
    | .stronglyTaken => .weaklyTaken
    | .weaklyTaken => .weaklyNotTaken
    | .weaklyNotTaken => .stronglyNotTaken
    | .stronglyNotTaken => .stronglyNotTaken
    | other => other
  | .smith2Bit, .taken =>
    match state with
    | .stronglyTaken => .stronglyTaken
    | .weaklyTaken => .stronglyTaken
    | .weaklyNotTaken => .weaklyTaken
    | .stronglyNotTaken => .weaklyNotTaken
    | other => other
  | .smith2BitHysteresis, .notTaken =>
    match state with
    | .stronglyTaken => .weaklyTaken
    | .weaklyTaken => .stronglyNotTaken
    | .weaklyNotTaken => .stronglyNotTaken
    | .stronglyNotTaken => .stronglyNotTaken
    | other => other
  | .smith2BitHysteresis, .taken =>
    match state with
    | .stronglyTaken => .stronglyTaken
    | .weaklyTaken => .stronglyTaken
    | .weaklyNotTaken => .stronglyTaken
    | .stronglyNotTaken => .weaklyNotTaken
    | other => other
  | _, _ => state

def predictBht (p : Predictor) (input : PredictionInput) : BranchResult :=
  match p.bht[p.calculateBhtIndex input.bhrValue input.instructionAddress]? with
  | none => .notTaken
  | some row => convertStateToPrediction row.state

def predict (p : Predictor) (input : PredictionInput) : BranchResult :=
  match p.type with
  | .alwaysNotTaken => .notTaken
  | .alwaysTaken => .taken
  | .btfnt => if input.instructionAddress < input.targetAddress then .notTaken else .taken
  | .smith1Bit | .smith2Bit | .smith2BitHysteresis => p.predictBht input

def updateStats (p : Predictor) (predictionWasCorrect : Bool) : Predictor :=
  { p with stats := p.stats.count predictionWasCorrect }

def updateBht (p : Predictor) (feedback : PredictionFeedback) : Predictor :=
  let index := p.calculateBhtIndex feedback.bhrValue feedback.instructionAddress
  match p.bht[index]? with
  | none => p
  | some row =>
    let correct := feedback.result == convertStateToPrediction row.state
    { p.updateStats correct with
      bht := p.bht.set index
        { state := nextState p.type row.state feedback.result
          stats := row.stats.count correct }
      bhtBounded := by simpa [List.length_set] using p.bhtBounded }

def update (p : Predictor) (feedback : PredictionFeedback) : Predictor :=
  match p.type with
  | .alwaysNotTaken => p.updateStats (feedback.result == .notTaken)
  | .alwaysTaken => p.updateStats (feedback.result == .taken)
  | .btfnt =>
    if feedback.instructionAddress < feedback.targetAddress then
      p.updateStats (feedback.result == .notTaken)
    else
      p.updateStats (feedback.result == .taken)
  | .smith1Bit | .smith2Bit | .smith2BitHysteresis => p.updateBht feedback

def flush (p : Predictor) : Predictor :=
  { p with
    bht := p.bht.map fun row => { row with state := p.initialState }
    bhtBounded := by simpa using p.bhtBounded }

def clear (p : Predictor) : Predictor :=
  { p with
    bht := p.bht.map fun _ => { state := p.initialState }
    stats := {}
    bhtBounded := by simpa using p.bhtBounded }

end Predictor

structure BranchPredictor where
  enabled : Bool
  predictor : Predictor
  bhr : BranchHistoryRegister
  btb : BranchTargetBuffer
  totalStats : PredictionStatistics

namespace BranchPredictor

/-- A new branch predictor, unless the construction of its history table does not end. -/
def new (enabled : Bool) (predictorType : PredictorType) (initialState : PredictorState)
    (numberOfBtbBits numberOfBhrBits numberOfBhtAddrBits : TableBits) : Option BranchPredictor :=
  let predictor :=
    match predictorType with
    | .alwaysNotTaken | .alwaysTaken | .btfnt => Predictor.new predictorType 0 0 .undefined
    | .smith1Bit | .smith2Bit | .smith2BitHysteresis =>
      Predictor.new predictorType numberOfBhtAddrBits
        (numberOfBhrBits.val + numberOfBhtAddrBits.val) initialState
  predictor.map fun predictor =>
    { enabled := enabled
      predictor := predictor
      bhr := { numberOfBits := numberOfBhrBits, value := 0 }
      btb := .new numberOfBtbBits
      totalStats := {} }

def incrementJumps (bp : BranchPredictor) : BranchPredictor :=
  let total := bp.totalStats.total + 1
  { bp with
    totalStats := { bp.totalStats with total := total, correct := total - bp.totalStats.wrong } }

def incrementMispredictions (bp : BranchPredictor) : BranchPredictor :=
  let wrong := bp.totalStats.wrong + 1
  { bp with
    totalStats := { bp.totalStats with wrong := wrong, correct := bp.totalStats.total - wrong } }

def predictNextPcAddress (bp : BranchPredictor) (_instruction : Instruction)
    (instructionAddress : Address) : Address :=
  if !bp.enabled then instructionAddress + 4
  else
    let entry := bp.btb.getEntry instructionAddress
    if !entry.entryValid then instructionAddress + 4
    else if entry.instructionAddress ≠ instructionAddress then instructionAddress + 4
    else
      let predictedResult :=
        if entry.branchType = .branch then
          bp.predictor.predict
            { bhrValue := bp.bhr.value
              instructionAddress := instructionAddress
              targetAddress := entry.targetAddress }
        else .taken
      if predictedResult = .taken then entry.targetAddress else instructionAddress + 4

def update (bp : BranchPredictor) (_instruction : Instruction)
    (instructionAddress targetAddress : Address) (branchType : BranchType)
    (result : BranchResult) : BranchPredictor :=
  if !bp.enabled then bp
  else
    let feedback : PredictionFeedback :=
      { bhrValue := bp.bhr.value
        instructionAddress := instructionAddress
        targetAddress := targetAddress
        result := result }
    let bp := { bp with btb := bp.btb.update instructionAddress targetAddress branchType }
    let bp :=
      if branchType = .branch then { bp with predictor := bp.predictor.update feedback } else bp
    let bp := bp.incrementJumps
    { bp with bhr := bp.bhr.update result }

def clear (bp : BranchPredictor) : BranchPredictor :=
  { bp with bhr := bp.bhr.clear, btb := bp.btb.clear, predictor := bp.predictor.clear }

def flush (bp : BranchPredictor) : BranchPredictor :=
  { bp with bhr := bp.bhr.clear, btb := bp.btb.clear, predictor := bp.predictor.flush }

/-- A disabled predictor always continues with the next word. -/
theorem predictNextPcAddress_of_disabled {bp : BranchPredictor} (hdisabled : bp.enabled = false)
    (inst : Instruction) (instAddr : Address) :
    bp.predictNextPcAddress inst instAddr = instAddr + 4 := by
  simp [predictNextPcAddress, hdisabled]

@[simp]
theorem update_enabled (bp : BranchPredictor) (inst : Instruction) (instAddr target : Address)
    (type : BranchType) (result : BranchResult) :
    (bp.update inst instAddr target type result).enabled = bp.enabled := by
  unfold update incrementJumps
  split
  · rfl
  · dsimp only
    split <;> rfl

/-- What an enabled predictor has learnt about the instructions at addresses. -/
def LearntEntries (p : Address → Address → Prop) (bp : BranchPredictor) : Prop :=
  bp.enabled = true →
    ∀ entry ∈ bp.btb.btb, entry.entryValid = true → p entry.instructionAddress entry.targetAddress

/-- The targets that an enabled predictor has learnt have a property. -/
def LearntTargets (p : Address → Prop) (bp : BranchPredictor) : Prop :=
  bp.enabled = true →
    ∀ entry ∈ bp.btb.btb, entry.entryValid = true → p entry.targetAddress

def AlignedTargets (bp : BranchPredictor) : Prop :=
  bp.enabled = true →
    ∀ entry ∈ bp.btb.btb, entry.entryValid = true → entry.targetAddress.toNat % 4 = 0

theorem add_four_aligned {address : Address} (h : address.toNat % 4 = 0) :
    (address + 4).toNat % 4 = 0 := by
  have hfour : (4 : Address).toNat = 4 := rfl
  rw [BitVec.toNat_add, hfour]
  omega

namespace LearntEntries

variable {p : Address → Address → Prop} {bp : BranchPredictor}

/-- A prediction is the next word or what has been learnt about the address. -/
theorem predictNextPcAddress (h : bp.LearntEntries p) (inst : Instruction) (instAddr : Address) :
    bp.predictNextPcAddress inst instAddr = instAddr + 4 ∨
      p instAddr (bp.predictNextPcAddress inst instAddr) := by
  unfold BranchPredictor.predictNextPcAddress
  dsimp only
  split
  · exact .inl rfl
  next henabled =>
    split
    · exact .inl rfl
    next hvalid =>
      split
      · exact .inl rfl
      next haddress =>
        -- the branch kind decides whether the direction is predicted, not the target
        generalize (if (bp.btb.getEntry instAddr).branchType = .branch then _
          else BranchResult.taken) = result
        split
        · right
          rw [BranchTargetBuffer.getEntry, List.getD_eq_getElem?_getD] at hvalid haddress ⊢
          cases hentry : bp.btb.btb[bp.btb.calculateIndex instAddr]? with
          | none => simp [hentry] at hvalid
          | some entry =>
            rw [hentry, Option.getD_some] at hvalid haddress
            have hlearnt := h (by simpa using henabled) entry (List.mem_of_getElem? hentry)
              (by simpa using hvalid)
            rwa [not_not.mp haddress] at hlearnt
        · exact .inl rfl

theorem update (h : bp.LearntEntries p) (inst : Instruction) {instAddr target : Address}
    (htarget : bp.enabled = true → p instAddr target) (type : BranchType)
    (result : BranchResult) : (bp.update inst instAddr target type result).LearntEntries p := by
  have hbtb : (bp.update inst instAddr target type result).btb = bp.btb ∨
      (bp.update inst instAddr target type result).btb = bp.btb.update instAddr target type := by
    unfold BranchPredictor.update incrementJumps
    split
    · exact .inl rfl
    · dsimp only
      split <;> exact .inr rfl
  intro henabled entry hentry hvalid
  rw [update_enabled] at henabled
  rcases hbtb with hkeep | hupdate
  · exact h henabled entry (hkeep ▸ hentry) hvalid
  · rw [hupdate] at hentry
    rcases List.mem_or_eq_of_mem_set hentry with hold | rfl
    · exact h henabled entry hold hvalid
    · exact htarget henabled

theorem flush : bp.flush.LearntEntries p := by
  intro _ entry hentry hvalid
  obtain ⟨_, -, rfl⟩ := List.mem_map.mp hentry
  cases hvalid

/-- A new predictor has learnt nothing. -/
theorem new {enabled : Bool} {type : PredictorType} {state : PredictorState}
    {btbBits bhrBits bhtAddrBits : TableBits}
    (hnew : BranchPredictor.new enabled type state btbBits bhrBits bhtAddrBits = some bp) :
    bp.LearntEntries p := by
  simp only [BranchPredictor.new, Option.map_eq_some_iff] at hnew
  obtain ⟨predictor, -, rfl⟩ := hnew
  intro _ entry hentry hvalid
  rw [List.eq_of_mem_replicate hentry] at hvalid
  cases hvalid

end LearntEntries

namespace LearntTargets

variable {p : Address → Prop} {bp : BranchPredictor}

/-- The targets are what has been learnt about any address. -/
theorem iff_entries : bp.LearntTargets p ↔ bp.LearntEntries fun _ => p :=
  Iff.rfl

theorem predictNextPcAddress (h : bp.LearntTargets p) (inst : Instruction) {instAddr : Address}
    (hnext : p (instAddr + 4)) : p (bp.predictNextPcAddress inst instAddr) := by
  rcases LearntEntries.predictNextPcAddress (iff_entries.mp h) inst instAddr with hsame | hlearnt
  · rwa [hsame]
  · exact hlearnt

theorem flush : bp.flush.LearntTargets p :=
  iff_entries.mpr .flush

theorem of_disabled (hdisabled : bp.enabled = false) : bp.LearntTargets p := by
  intro henabled
  rw [hdisabled] at henabled
  cases henabled

theorem new {enabled : Bool} {type : PredictorType} {state : PredictorState}
    {btbBits bhrBits bhtAddrBits : TableBits}
    (hnew : BranchPredictor.new enabled type state btbBits bhrBits bhtAddrBits = some bp) :
    bp.LearntTargets p :=
  iff_entries.mpr (.new hnew)

end LearntTargets

end BranchPredictor

end QtRvSim
