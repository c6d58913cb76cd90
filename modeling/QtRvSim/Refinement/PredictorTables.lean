import QtRvSim.Library.CountedLoop
import QtRvSim.Machine.Predictor

/-!
# Tables of the branch predictor

The history register and the indices of the history table over whole runs of a predictor, and the
loops over the tables.  The history register of the maximal width keeps sixteen results instead of
eight, and the loops over the largest history table do not end.
-/

namespace QtRvSim

open CountedLoop Predictor BranchPredictor BitVec

inductive PredictorOp where
  | update (instruction : Instruction) (instructionAddress targetAddress : Address)
      (branchType : BranchType) (result : BranchResult)
  | incrementMispredictions
  | clear
  | flush

namespace BranchPredictor

def apply (bp : BranchPredictor) : PredictorOp → BranchPredictor
  | .update instruction instructionAddress targetAddress branchType result =>
    bp.update instruction instructionAddress targetAddress branchType result
  | .incrementMispredictions => bp.incrementMispredictions
  | .clear => bp.clear
  | .flush => bp.flush

def run (bp : BranchPredictor) (ops : List PredictorOp) : BranchPredictor :=
  ops.foldl apply bp

variable (bp : BranchPredictor)

theorem run_concat (ops : List PredictorOp) (op : PredictorOp) :
    bp.run (ops ++ [op]) = (bp.run ops).apply op := by
  simp [run]

/-- What the configuration of a predictor fixes. -/
def shape (bp : BranchPredictor) : Bool × TableBits × TableBits × Nat :=
  (bp.enabled, bp.bhr.numberOfBits, bp.predictor.numberOfBhtAddrBits, bp.btb.btb.length)

theorem numberOfBhtAddrBits_update (p : Predictor) (feedback : PredictionFeedback) :
    (p.update feedback).numberOfBhtAddrBits = p.numberOfBhtAddrBits := by
  have hbht : (p.updateBht feedback).numberOfBhtAddrBits = p.numberOfBhtAddrBits := by
    unfold Predictor.updateBht
    dsimp only
    split <;> rfl
  unfold Predictor.update
  cases p.type with
  | alwaysNotTaken | alwaysTaken => rfl
  | btfnt =>
    dsimp only
    split <;> rfl
  | smith1Bit | smith2Bit | smith2BitHysteresis => exact hbht

theorem shape_apply (op : PredictorOp) : (bp.apply op).shape = bp.shape := by
  cases op with
  | update instruction instructionAddress targetAddress branchType result =>
    rw [apply, update]
    split
    · rfl
    · dsimp only
      split
      · simp [shape, incrementJumps, BranchHistoryRegister.update, BranchTargetBuffer.update,
          numberOfBhtAddrBits_update]
      · simp [shape, incrementJumps, BranchHistoryRegister.update, BranchTargetBuffer.update]
  | incrementMispredictions => rfl
  | clear | flush =>
    simp [apply, clear, flush, shape, BranchHistoryRegister.clear,
      BranchTargetBuffer.clear, Predictor.clear, Predictor.flush]

theorem shape_run (ops : List PredictorOp) : (bp.run ops).shape = bp.shape := by
  induction ops using List.reverseRecOn with
  | nil => rfl
  | append_singleton ops op ih => rw [run_concat, shape_apply, ih]

end BranchPredictor

/-! ### The history register -/

namespace BranchHistoryRegister

def keptBits (bhr : BranchHistoryRegister) : Nat :=
  if 8 ≤ bhr.numberOfBits.val then 16 else bhr.numberOfBits.val

/-- The register holds the latest results, given with the latest first. -/
def Records (bhr : BranchHistoryRegister) (results : List BranchResult) : Prop :=
  ∀ i, bhr.value.getLsbD i = decide (i < bhr.keptBits ∧ results[i]? = some .taken)

variable (bhr : BranchHistoryRegister)

theorem keptBits_le : bhr.keptBits ≤ 16 := by
  unfold keptBits
  split <;> omega

theorem getLsbD_registerMask (i : Nat) :
    bhr.registerMask.getLsbD i = decide (i < bhr.keptBits) := by
  unfold registerMask keptBits
  split
  · exact getLsbD_allOnes
  next hsmall =>
    rw [getLsbD_ofNat, Nat.testBit_two_pow_sub_one]
    by_cases hi : i < bhr.numberOfBits.val
    · simp [hi, show i < 16 by omega]
    · simp [hi]

theorem Records.update {bhr : BranchHistoryRegister} {results : List BranchResult}
    (h : bhr.Records results) (result : BranchResult) :
    (bhr.update result).Records (result :: results) := by
  have hkept : (bhr.update result).keptBits = bhr.keptBits := rfl
  have hvalue : (bhr.update result).value =
      (bhr.value <<< 1 ||| if result = .taken then 1 else 0) &&& bhr.registerMask := by
    unfold BranchHistoryRegister.update
    split <;> simp_all
  intro i
  rw [hvalue, hkept, getLsbD_and, getLsbD_or, getLsbD_registerMask, getLsbD_shiftLeft]
  have hle := bhr.keptBits_le
  cases i with
  | zero => by_cases hresult : result = .taken <;> simp [hresult]
  | succ i =>
    have hlow : (if result = .taken then 1 else 0 : BitVec 16).getLsbD (i + 1) = false := by
      split
      · simp [getLsbD_one]
      · simp
    rw [hlow, Nat.add_sub_cancel, h i, List.getElem?_cons_succ]
    grind

theorem records_clear : bhr.clear.Records [] := by
  intro i
  simp [clear]

end BranchHistoryRegister

/-- The results of the branches since the register was last cleared, the latest first. -/
def PredictorOp.history (ops : List PredictorOp) : List BranchResult :=
  ops.foldl (fun results op =>
    match op with
    | .update _ _ _ _ result => result :: results
    | .incrementMispredictions => results
    | .clear | .flush => []) []

namespace BranchPredictor

theorem records_run {bp : BranchPredictor} (henabled : bp.enabled = true)
    (h : bp.bhr.Records []) (ops : List PredictorOp) :
    (bp.run ops).bhr.Records (PredictorOp.history ops) := by
  induction ops using List.reverseRecOn with
  | nil => exact h
  | append_singleton ops op ih =>
    have henabled' : (bp.run ops).enabled = true :=
      (congrArg Prod.fst (bp.shape_run ops)).trans henabled
    rw [run_concat, PredictorOp.history, List.foldl_append, ← PredictorOp.history]
    cases op with
    | update instruction instructionAddress targetAddress branchType result =>
      have hbhr : ((bp.run ops).update instruction instructionAddress targetAddress branchType
          result).bhr = (bp.run ops).bhr.update result := by
        unfold update
        simp only [henabled', Bool.not_true, Bool.false_eq_true, if_false]
        split <;> rfl
      rw [apply, hbhr]
      exact ih.update result
    | incrementMispredictions => exact ih
    | clear | flush => exact (bp.run ops).bhr.records_clear

/-- A disabled predictor has no history. -/
theorem value_run_of_disabled {bp : BranchPredictor} (hdisabled : bp.enabled = false)
    (h : bp.bhr.value = 0) (ops : List PredictorOp) : (bp.run ops).bhr.value = 0 := by
  induction ops using List.reverseRecOn with
  | nil => exact h
  | append_singleton ops op ih =>
    have hdisabled' : (bp.run ops).enabled = false :=
      (congrArg Prod.fst (bp.shape_run ops)).trans hdisabled
    rw [run_concat]
    cases op with
    | update instruction instructionAddress targetAddress branchType result =>
      rw [apply, update, if_pos (by simp [hdisabled'])]
      exact ih
    | incrementMispredictions => exact ih
    | clear | flush => rfl

end BranchPredictor

namespace BranchHistoryRegister

/-- Which results are too old for the register: only a register of the maximal width keeps them. -/
theorem Records.value_lt_iff {bhr : BranchHistoryRegister} {results : List BranchResult}
    (h : bhr.Records results) : bhr.value.toNat < 2 ^ bhr.numberOfBits.val ↔
      bhr.numberOfBits.val < 8 ∨ ∀ i, 8 ≤ i → i < 16 → results[i]? ≠ some .taken := by
  have hbits : bhr.numberOfBits.val < 9 := bhr.numberOfBits.isLt
  constructor
  · intro hlt
    refine or_iff_not_imp_left.mpr fun hfull i hlow hhigh htaken => ?_
    have hbit : bhr.value.getLsbD i = true := by
      rw [h i, keptBits, if_pos (by omega)]
      simp [hhigh, htaken]
    rw [getLsbD, Nat.testBit_lt_two_pow (hlt.trans_le
      (Nat.pow_le_pow_right (by decide) (by omega)))] at hbit
    cases hbit
  · intro hold
    refine Nat.lt_pow_two_of_testBit _ fun i hi => ?_
    rw [← getLsbD, h i, keptBits]
    rcases hold with hsmall | hold
    · rw [if_neg (by omega)]
      simp [Nat.not_lt.mpr hi]
    · split
      · by_cases hhigh : i < 16
        · simp [hold i (by omega) hhigh]
        · simp [hhigh]
      · simp [Nat.not_lt.mpr hi]

end BranchHistoryRegister

/-- An index is in the table if the history is. -/
theorem Predictor.calculateBhtIndex_lt (p : Predictor) {bhrValue : BitVec 16} {bits : Nat}
    (hvalue : bhrValue.toNat < 2 ^ bits) (instructionAddress : Address) :
    p.calculateBhtIndex bhrValue instructionAddress < 2 ^ (bits + p.numberOfBhtAddrBits.val) := by
  have hshift : (bhrValue <<< p.numberOfBhtAddrBits.val).toNat <
      2 ^ (bits + p.numberOfBhtAddrBits.val) := by
    rw [BitVec.toNat_shiftLeft, Nat.shiftLeft_eq, Nat.pow_add]
    exact (Nat.mod_le _ _).trans_lt (Nat.mul_lt_mul_of_pos_right hvalue (Nat.two_pow_pos _))
  have hmask : (BitVec.ofNat 16 (2 ^ p.numberOfBhtAddrBits.val - 1)).toNat <
      2 ^ (bits + p.numberOfBhtAddrBits.val) := by
    have hpos : 0 < 2 ^ p.numberOfBhtAddrBits.val := Nat.two_pow_pos _
    have hmono : 2 ^ p.numberOfBhtAddrBits.val ≤ 2 ^ (bits + p.numberOfBhtAddrBits.val) :=
      Nat.pow_le_pow_right (by decide) (Nat.le_add_left ..)
    have hle := Nat.mod_le (2 ^ p.numberOfBhtAddrBits.val - 1) (2 ^ 16)
    rw [BitVec.toNat_ofNat]
    omega
  rw [calculateBhtIndex, BitVec.toNat_or, BitVec.toNat_and]
  exact Nat.or_lt_two_pow hshift (Nat.and_le_right.trans_lt hmask)

/-- The initialisation of a table of sixteen index bits does not end. -/
theorem Predictor.new_eq_some_iff {type : PredictorType} {numberOfBhtAddrBits : TableBits}
    {numberOfBhtBits : Nat} {initialState : PredictorState} {p : Predictor} :
    new type numberOfBhtAddrBits numberOfBhtBits initialState = some p ↔
      numberOfBhtBits < 16 ∧ p.type = type ∧ p.numberOfBhtAddrBits = numberOfBhtAddrBits ∧
        p.initialState = initialState ∧
        p.bht = List.replicate (2 ^ numberOfBhtBits) { state := initialState } ∧ p.stats = {} := by
  have hbound : 2 ^ numberOfBhtBits < 65536 ↔ numberOfBhtBits < 16 :=
    Nat.pow_lt_pow_iff_right (show 1 < 2 by decide) (m := 16)
  simp only [new, List.length_replicate, hbound]
  split
  next h =>
    simp only [Option.some.injEq, h, true_and]
    cases p
    simp only [mk.injEq]
    grind
  next h => simp [h]

namespace BranchPredictor

variable {enabled : Bool} {predictorType : PredictorType} {initialState : PredictorState}
  {numberOfBtbBits numberOfBhrBits numberOfBhtAddrBits : TableBits} {bp : BranchPredictor}

theorem shape_new (hnew : new enabled predictorType initialState numberOfBtbBits
      numberOfBhrBits numberOfBhtAddrBits = some bp) :
    bp.enabled = enabled ∧ bp.bhr = { numberOfBits := numberOfBhrBits, value := 0 } ∧
      bp.predictor.numberOfBhtAddrBits.val ≤ numberOfBhtAddrBits.val ∧
      bp.btb.btb.length = 2 ^ numberOfBtbBits.val := by
  simp only [new, Option.map_eq_some_iff] at hnew
  obtain ⟨predictor, hpredictor, rfl⟩ := hnew
  refine ⟨rfl, rfl, ?_, by simp [BranchTargetBuffer.new]⟩
  cases predictorType with
  | alwaysNotTaken | alwaysTaken | btfnt | smith1Bit | smith2Bit | smith2BitHysteresis =>
    obtain ⟨-, -, haddr, -⟩ := new_eq_some_iff.mp hpredictor
    simp [haddr]

/-- The history register and the indices of the history table stay in range exactly if the register
is not the widest one, or none of the results that it should have dropped is a taken branch. -/
theorem indices_in_range_iff (hnew : BranchPredictor.new enabled predictorType initialState
      numberOfBtbBits numberOfBhrBits numberOfBhtAddrBits = some bp) (ops : List PredictorOp) :
    ((bp.run ops).bhr.value.toNat < 2 ^ numberOfBhrBits.val ∧
        ∀ instructionAddress,
          (bp.run ops).predictor.calculateBhtIndex (bp.run ops).bhr.value instructionAddress <
            2 ^ (numberOfBhrBits.val + numberOfBhtAddrBits.val)) ↔
      enabled = false ∨ numberOfBhrBits.val < 8 ∨
        ∀ i, 8 ≤ i → i < 16 → (PredictorOp.history ops)[i]? ≠ some .taken := by
  obtain ⟨henabled, hbhr, haddrBits, -⟩ := shape_new hnew
  have hshape := bp.shape_run ops
  simp only [shape, Prod.mk.injEq] at hshape
  have hindex (hvalue : (bp.run ops).bhr.value.toNat < 2 ^ numberOfBhrBits.val)
      (instructionAddress : Address) :
      (bp.run ops).predictor.calculateBhtIndex (bp.run ops).bhr.value instructionAddress <
        2 ^ (numberOfBhrBits.val + numberOfBhtAddrBits.val) := by
    refine (calculateBhtIndex_lt _ hvalue instructionAddress).trans_le ?_
    rw [hshape.2.2.1]
    exact Nat.pow_le_pow_right (by decide) (Nat.add_le_add_left haddrBits _)
  rw [and_iff_left_of_imp hindex]
  cases enabled with
  | false =>
    refine iff_of_true ?_ (.inl rfl)
    rw [value_run_of_disabled henabled (by rw [hbhr]) ops]
    exact Nat.two_pow_pos _
  | true =>
    have hstart : bp.bhr.Records [] := by
      rw [hbhr]
      exact BranchHistoryRegister.records_clear ⟨numberOfBhrBits, 0⟩
    have hrecords := records_run henabled hstart ops
    have hiff := hrecords.value_lt_iff
    rw [hshape.2.1, hbhr] at hiff
    rw [hiff]
    simp

theorem indices_in_range_small :
    ∃ bp, BranchPredictor.new true .smith1Bit .notTaken 2 1 1 = some bp ∧
      (bp.run [.update Inhabited.default 0 0 .jump .taken]).bhr.value.toNat < 2 ^ 1 :=
  ⟨_, rfl, ((@indices_in_range_iff true .smith1Bit .notTaken 2 1 1 _ rfl _).mpr
    (.inr (.inl (by decide)))).1⟩

/-- Nine taken branches in a history register of eight bits. -/
theorem history_out_of_range :
    (BranchPredictor.new true .smith1Bit .notTaken 2 8 0).map (fun bp =>
      let bp := bp.run (List.replicate 9 (.update Inhabited.default 0 0 .jump .taken))
      (bp.bhr.value.toNat, bp.predictor.calculateBhtIndex bp.bhr.value 0)) = some (511, 511) := by
  decide +kernel

end BranchPredictor

/-! ### Passes over the tables -/

def isPredictorTypeDynamic : PredictorType → Bool
  | .alwaysNotTaken | .alwaysTaken | .btfnt => false
  | .smith1Bit | .smith2Bit | .smith2BitHysteresis => true

def BranchTargetBuffer.clearPass (t : BranchTargetBuffer) (fuel : Nat) :
    Option (Pass BranchTargetBufferEntry) :=
  pass 16 fuel (fun _ => {}) t.btb

namespace Predictor

def clearBhtStats (fuel : Nat) (bht : List BranchHistoryTableEntry) :
    Option (Pass BranchHistoryTableEntry) :=
  pass 16 fuel (fun row => { row with stats := {} }) bht

def clearBhtState (fuel : Nat) (initialState : PredictorState)
    (bht : List BranchHistoryTableEntry) : Option (Pass BranchHistoryTableEntry) :=
  pass 16 fuel (fun row => { row with state := initialState }) bht

end Predictor

/-- The tables after a call and the rows that its passes have visited. -/
structure TablePasses where
  btb : List BranchTargetBufferEntry
  bht : List BranchHistoryTableEntry
  btbPasses : List (List Nat)
  bhtPasses : List (List Nat)

/-- Every pass has visited every row of its table once. -/
def TablePasses.EveryRowOnce (r : TablePasses) : Prop :=
  (∀ rows ∈ r.btbPasses, rows.Perm (List.range r.btb.length)) ∧
    ∀ rows ∈ r.bhtPasses, rows.Perm (List.range r.bht.length)

namespace BranchPredictor

/-- The passes of the constructor: the new history table is initialised row by row. -/
def newPasses (fuel : Nat) (predictorType : PredictorType) (initialState : PredictorState)
    (numberOfBtbBits numberOfBhrBits numberOfBhtAddrBits : TableBits) : Option TablePasses := do
  let numberOfBhtBits :=
    if isPredictorTypeDynamic predictorType then numberOfBhrBits.val + numberOfBhtAddrBits.val
    else 0
  let initialState := if isPredictorTypeDynamic predictorType then initialState else .undefined
  let bht := List.replicate (2 ^ numberOfBhtBits) { state := .undefined }
  let state ← Predictor.clearBhtState fuel initialState bht
  let stats ← Predictor.clearBhtStats fuel state.table
  some
    { btb := (BranchTargetBuffer.new numberOfBtbBits).btb
      bht := stats.table
      btbPasses := []
      bhtPasses := [state.visited, stats.visited] }

def clearPasses (bp : BranchPredictor) (fuel : Nat) : Option TablePasses := do
  let btb ← bp.btb.clearPass fuel
  let stats ← Predictor.clearBhtStats fuel bp.predictor.bht
  let state ← Predictor.clearBhtState fuel bp.predictor.initialState stats.table
  some
    { btb := btb.table
      bht := state.table
      btbPasses := [btb.visited]
      bhtPasses := [stats.visited, state.visited] }

def flushPasses (bp : BranchPredictor) (fuel : Nat) : Option TablePasses := do
  let btb ← bp.btb.clearPass fuel
  let state ← Predictor.clearBhtState fuel bp.predictor.initialState bp.predictor.bht
  some
    { btb := btb.table
      bht := state.table
      btbPasses := [btb.visited]
      bhtPasses := [state.visited] }

/-- The call ends, leaves the tables of a predictor and visits every row once per pass. -/
def Completes (passes : Nat → Option TablePasses) (result : BranchPredictor) : Prop :=
  ∃ fuel r, passes fuel = some r ∧ r.btb = result.btb.btb ∧ r.bht = result.predictor.bht ∧
    r.EveryRowOnce

theorem completes_clear {bp : BranchPredictor} (hbtb : bp.btb.btb.length < 2 ^ 16) :
    Completes bp.clearPasses bp.clear := by
  have hbht : bp.predictor.bht.length < 2 ^ 16 := bp.predictor.bhtBounded
  refine ⟨2 ^ 16,
    { btb := bp.clear.btb.btb
      bht := bp.clear.predictor.bht
      btbPasses := [List.range bp.btb.btb.length]
      bhtPasses := [List.range bp.predictor.bht.length, List.range bp.predictor.bht.length] },
    ?_, rfl, rfl, ?_⟩
  · rw [clearPasses, BranchTargetBuffer.clearPass, Predictor.clearBhtStats,
      pass_eq_some hbtb hbtb, pass_eq_some hbht hbht]
    simp only [Option.bind_eq_bind, Option.bind_some]
    rw [Predictor.clearBhtState, pass_eq_some (by simpa using hbht) (by simpa using hbht),
      Option.bind_some, List.map_map, List.length_map]
    rfl
  · simp [TablePasses.EveryRowOnce, clear, BranchTargetBuffer.clear, Predictor.clear]

theorem completes_flush {bp : BranchPredictor} (hbtb : bp.btb.btb.length < 2 ^ 16) :
    Completes bp.flushPasses bp.flush := by
  have hbht : bp.predictor.bht.length < 2 ^ 16 := bp.predictor.bhtBounded
  refine ⟨2 ^ 16,
    { btb := bp.flush.btb.btb
      bht := bp.flush.predictor.bht
      btbPasses := [List.range bp.btb.btb.length]
      bhtPasses := [List.range bp.predictor.bht.length] },
    ?_, rfl, rfl, ?_⟩
  · rw [flushPasses, BranchTargetBuffer.clearPass, Predictor.clearBhtState,
      pass_eq_some hbtb hbtb, pass_eq_some hbht hbht]
    rfl
  · simp [TablePasses.EveryRowOnce, flush, BranchTargetBuffer.clear, Predictor.flush]

theorem new_eq (enabled : Bool) (predictorType : PredictorType) (initialState : PredictorState)
    (numberOfBtbBits numberOfBhrBits numberOfBhtAddrBits : TableBits) :
    new enabled predictorType initialState numberOfBtbBits numberOfBhrBits
        numberOfBhtAddrBits =
      (Predictor.new predictorType
        (if isPredictorTypeDynamic predictorType then numberOfBhtAddrBits else 0)
        (if isPredictorTypeDynamic predictorType then
          numberOfBhrBits.val + numberOfBhtAddrBits.val else 0)
        (if isPredictorTypeDynamic predictorType then initialState else .undefined)).map
        fun predictor =>
          { enabled := enabled
            predictor := predictor
            bhr := { numberOfBits := numberOfBhrBits, value := 0 }
            btb := .new numberOfBtbBits
            totalStats := {} } := by
  cases predictorType with
  | alwaysNotTaken | alwaysTaken | btfnt | smith1Bit | smith2Bit | smith2BitHysteresis => rfl

/-- The constructor ends, with the tables of the new predictor, unless the history table has
sixteen index bits. -/
theorem completes_new_iff (enabled : Bool) (predictorType : PredictorType)
    (initialState : PredictorState)
    (numberOfBtbBits numberOfBhrBits numberOfBhtAddrBits : TableBits) :
    (∃ bp, new enabled predictorType initialState numberOfBtbBits numberOfBhrBits
        numberOfBhtAddrBits = some bp ∧
      Completes (fun fuel => newPasses fuel predictorType initialState numberOfBtbBits
        numberOfBhrBits numberOfBhtAddrBits) bp) ↔
      ¬(isPredictorTypeDynamic predictorType = true ∧
        numberOfBhrBits.val + numberOfBhtAddrBits.val = 16) := by
  have hbits : ¬(isPredictorTypeDynamic predictorType = true ∧
      numberOfBhrBits.val + numberOfBhtAddrBits.val = 16) ↔
      (if isPredictorTypeDynamic predictorType then numberOfBhrBits.val + numberOfBhtAddrBits.val
        else 0) < 16 := by
    split
    · simp_all
      omega
    · simp_all
  rw [hbits]
  simp only [new_eq, newPasses]
  generalize (if isPredictorTypeDynamic predictorType then
    numberOfBhrBits.val + numberOfBhtAddrBits.val else 0) = bits
  generalize (if isPredictorTypeDynamic predictorType then initialState
    else PredictorState.undefined) = state
  constructor
  · rintro ⟨bp, hnew, -⟩
    obtain ⟨predictor, hpredictor, -⟩ := Option.map_eq_some_iff.mp hnew
    exact (Predictor.new_eq_some_iff.mp hpredictor).1
  · intro hlt
    have hsize : 2 ^ bits < 2 ^ 16 := Nat.pow_lt_pow_right (by decide) hlt
    refine ⟨_, Option.map_eq_some_iff.mpr ⟨⟨_, _, _, _, _, by simpa using hsize⟩,
      Predictor.new_eq_some_iff.mpr ⟨hlt, rfl, rfl, rfl, rfl, rfl⟩, rfl⟩, 2 ^ 16,
      { btb := (BranchTargetBuffer.new numberOfBtbBits).btb
        bht := List.replicate (2 ^ bits) { state := state }
        btbPasses := []
        bhtPasses := [List.range (2 ^ bits), List.range (2 ^ bits)] }, ?_, rfl, rfl, ?_⟩
    · dsimp only
      rw [Predictor.clearBhtState, pass_eq_some (by simpa using hsize) (by simpa using hsize),
        Option.bind_eq_bind, Option.bind_some, Predictor.clearBhtStats,
        pass_eq_some (by simpa using hsize) (by simpa using hsize)]
      simp
    · simp [TablePasses.EveryRowOnce]

/-- Constructing, clearing and flushing a predictor end and visit every row of a table once per
pass, unless the predictor has a history table of sixteen index bits. -/
theorem passes_complete_iff (enabled : Bool) (predictorType : PredictorType)
    (initialState : PredictorState)
    (numberOfBtbBits numberOfBhrBits numberOfBhtAddrBits : TableBits) :
    (∃ bp, BranchPredictor.new enabled predictorType initialState numberOfBtbBits numberOfBhrBits
        numberOfBhtAddrBits = some bp ∧
      Completes (fun fuel => newPasses fuel predictorType initialState numberOfBtbBits
        numberOfBhrBits numberOfBhtAddrBits) bp ∧
      ∀ ops, Completes (bp.run ops).clearPasses (bp.run ops).clear ∧
        Completes (bp.run ops).flushPasses (bp.run ops).flush) ↔
      ¬(isPredictorTypeDynamic predictorType = true ∧
        numberOfBhrBits.val + numberOfBhtAddrBits.val = 16) := by
  rw [← completes_new_iff enabled predictorType initialState numberOfBtbBits]
  refine exists_congr fun bp => and_congr_right fun hnew => and_iff_left fun ops => ?_
  have hbtb : (bp.run ops).btb.btb.length < 2 ^ 16 := by
    have hshape := bp.shape_run ops
    simp only [shape, Prod.mk.injEq] at hshape
    rw [hshape.2.2.2, (shape_new hnew).2.2.2]
    exact Nat.pow_lt_pow_right (by decide) (by omega)
  exact ⟨completes_clear hbtb, completes_flush hbtb⟩

/-- The constructor of a predictor with eight history bits and eight address bits. -/
theorem new_does_not_end : ¬∃ fuel r, newPasses fuel .smith1Bit .notTaken 0 8 8 = some r := by
  rintro ⟨fuel, r, hr⟩
  rw [newPasses, clearBhtState, pass_eq_none] at hr
  · cases hr
  · rw [List.length_replicate]
    decide

end BranchPredictor

end QtRvSim
