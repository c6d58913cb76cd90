import QtRvSim.Core.StageEnd
import Mathlib.Logic.Relation

/-!
# Exception entries of a step, and runs

A step of either core runs its stages and then ends.  At its end it may call `handle_exception`,
with arguments taken from the stage registers.  Between two steps an interrupt line may change.
-/

namespace QtRvSim

open Core

variable {M : Type} [FrontendMemory M]

/-- A call of `handle_exception`: its arguments and the core at the call. -/
structure TrapCall (M : Type) where
  excause : ExceptionCause
  inst : Instruction
  instAddr : Address
  nextAddr : Address
  jumpBranchPc : Address
  memRefAddr : Address
  core : Core M

namespace TrapCall

def handle (cfg : CoreConfig) (t : TrapCall M) : Outcome (Core M) Bool :=
  handleException cfg t.excause t.inst t.instAddr t.nextAddr t.jumpBranchPc t.memRefAddr t.core

def IsInterrupt (t : TrapCall M) : Prop :=
  t.excause = .intM ∨ t.excause = .intS

def toS (t : TrapCall M) : Bool :=
  deliverToS t.excause t.core.currentPrivilege t.core.controlState

end TrapCall

namespace CoreSingle

def stages (cfg : CoreConfig) (skipBreak : Bool) (s : CoreSingle M) :
    Outcome (CoreSingle M) Unit :=
  let p := s.pipeline
  let (ifId, core) := fetch cfg p.pcIf skipBreak s.core
  let p := { p with ifId := ifId }
  match decode cfg ifId core with
  | .error e => (.error e, { s with core := core, pipeline := p })
  | .ok idEx =>
    let exMem := execute idEx
    let p := { p with idEx := idEx, exMem := exMem }
    match memory cfg exMem core with
    | (.error e, core) => (.error e, { s with core := core, pipeline := p })
    | (.ok (memWb, memInternal), core) =>
      (.ok (),
        { s with
          core := writeback memWb core
          pipeline := { p with memWb := memWb, memInternal := memInternal } })

/-- The call a step makes when its stages have left the given state. -/
def callOf (s : CoreSingle M) : Option (TrapCall M) :=
  let memWb := s.pipeline.memWb
  match s.core.writePc memWb.computedNextInstAddr with
  | (.error _, _) => none
  | (.ok (), core) =>
    if memWb.excause ≠ .none then
      some
        { excause := memWb.excause
          inst := memWb.inst
          instAddr := memWb.instAddr
          nextAddr := core.regs.pc
          jumpBranchPc := s.prevInstAddr
          memRefAddr := memWb.memAddr
          core := core }
    else none

def trapCall (cfg : CoreConfig) (skipBreak : Bool) (s : CoreSingle M) : Option (TrapCall M) :=
  match stages cfg skipBreak { s with core := s.core.nextCycle } with
  | (.error _, _) => none
  | (.ok (), s) => callOf s

/-- A step is its stages followed by its end. -/
theorem doStep_stages (cfg : CoreConfig) (skipBreak : Bool) (s : CoreSingle M) :
    doStep cfg skipBreak s =
      match stages cfg skipBreak s with
      | (.error e, s) => (.error e, s)
      | (.ok (), s) => finishStep cfg s := by
  unfold doStep stages
  dsimp only
  cases decode cfg (fetch cfg s.pipeline.pcIf skipBreak s.core).1
      (fetch cfg s.pipeline.pcIf skipBreak s.core).2 with
  | error e => rfl
  | ok idEx =>
    dsimp only
    rcases memory cfg (execute idEx) (fetch cfg s.pipeline.pcIf skipBreak s.core).2
      with ⟨result, core⟩
    cases result <;> rfl

variable {s : CoreSingle M} {cfg : CoreConfig}

variable {skipBreak : Bool}

/-- What stages that do not throw leave. -/
theorem stages_ok {s₁ : CoreSingle M} (h : stages cfg skipBreak s = (.ok (), s₁)) :
    ∃ idEx r c,
      decode cfg (fetch cfg s.pipeline.pcIf skipBreak s.core).1
        (fetch cfg s.pipeline.pcIf skipBreak s.core).2 = .ok idEx ∧
      memory cfg (execute idEx) (fetch cfg s.pipeline.pcIf skipBreak s.core).2 = (.ok r, c) ∧
      s₁ =
        { core := writeback r.1 c
          prevInstAddr := s.prevInstAddr
          pipeline :=
            { pcIf := s.pipeline.pcIf
              ifId := (fetch cfg s.pipeline.pcIf skipBreak s.core).1
              idEx := idEx
              exMem := execute idEx
              memInternal := r.2
              memWb := r.1 } } := by
  unfold stages at h
  dsimp only at h
  split at h
  next => cases h
  next idEx hdecode =>
    split at h
    next => cases h
    next memWb memInternal c hmemory =>
      cases h
      exact ⟨idEx, _, c, hdecode, hmemory, rfl⟩

/-- The end of a step leaves the stage registers. -/
theorem finishStep_pipeline (s : CoreSingle M) : (finishStep cfg s).2.pipeline = s.pipeline := by
  unfold finishStep
  dsimp only
  rcases s.core.writePc s.pipeline.memWb.computedNextInstAddr with ⟨_ | _, c⟩
  · rfl
  · dsimp only
    by_cases hexcause : s.pipeline.memWb.excause ≠ .none
    · rw [if_pos hexcause]
      rcases handleException cfg s.pipeline.memWb.excause s.pipeline.memWb.inst
        s.pipeline.memWb.instAddr c.regs.pc s.prevInstAddr s.pipeline.memWb.memAddr c
        with ⟨_ | _, c'⟩ <;> rfl
    · rw [if_neg hexcause]

variable {t : TrapCall M}

/-- A step with a call leaves the core the call leaves. -/
theorem finishStep_of_callOf_some (hcall : callOf s = some t) :
    finishStep cfg s =
      match t.handle cfg with
      | (.ok _, core) => (.ok (), { s with core := core })
      | (.error e, core) => (.error e, { s with core := core }) := by
  unfold callOf at hcall
  unfold finishStep
  dsimp only at hcall ⊢
  generalize s.core.writePc s.pipeline.memWb.computedNextInstAddr = written at hcall ⊢
  rcases written with ⟨result, core⟩
  cases result with
  | error => cases hcall
  | ok =>
    dsimp only at hcall ⊢
    by_cases hexcause : s.pipeline.memWb.excause ≠ .none
    · rw [if_pos hexcause] at hcall ⊢
      cases hcall
      rfl
    · rw [if_neg hexcause] at hcall
      cases hcall

omit [FrontendMemory M] in
/-- The call is made for the instruction in the memory stage. -/
theorem callOf_some (hcall : callOf s = some t) :
    s.pipeline.memWb.excause ≠ .none ∧ t.excause = s.pipeline.memWb.excause ∧
      t.instAddr = s.pipeline.memWb.instAddr ∧ t.memRefAddr = s.pipeline.memWb.memAddr ∧
      s.core.writePc s.pipeline.memWb.computedNextInstAddr = (.ok (), t.core) := by
  unfold callOf at hcall
  dsimp only at hcall
  split at hcall
  next => cases hcall
  next core hpc =>
    split at hcall
    next hexcause =>
      cases hcall
      exact ⟨hexcause, rfl, rfl, rfl, hpc⟩
    next => cases hcall

omit [FrontendMemory M] in
theorem callOf_inst (hcall : callOf s = some t) : t.inst = s.pipeline.memWb.inst := by
  unfold callOf at hcall
  dsimp only at hcall
  split at hcall
  · cases hcall
  · split at hcall
    · cases hcall
      rfl
    · cases hcall

variable (hcall : trapCall cfg skipBreak s = some t)
include hcall

theorem stages_of_trapCall :
    ∃ s₁, stages cfg skipBreak { s with core := s.core.nextCycle } = (.ok (), s₁) ∧
      callOf s₁ = some t := by
  unfold trapCall at hcall
  split at hcall
  next => cases hcall
  next s₁ hstages => exact ⟨s₁, hstages, hcall⟩

/-- A step with a call, from its stages to the state it leaves. -/
theorem step_of_trapCall {s' : CoreSingle M} (hstep : step cfg skipBreak s = (.ok (), s')) :
    ∃ s₁ stop, stages cfg skipBreak { s with core := s.core.nextCycle } = (.ok (), s₁) ∧
      callOf s₁ = some t ∧ t.handle cfg = (.ok stop, s'.core) ∧ s'.pipeline = s₁.pipeline := by
  obtain ⟨s₁, hstages, hcallOf⟩ := stages_of_trapCall hcall
  rw [step, doStep_stages, hstages] at hstep
  dsimp only at hstep
  rw [finishStep_of_callOf_some hcallOf] at hstep
  split at hstep
  next stop c hhandle =>
    cases hstep
    exact ⟨s₁, stop, hstages, hcallOf, hhandle, rfl⟩
  next => cases hstep

end CoreSingle

namespace CorePipelined

def stages (cfg : CoreConfig) (skipBreak : Bool) (s : CorePipelined M) :
    Outcome (CorePipelined M) Unit :=
  let p := s.pipeline
  let core := writeback p.memWb s.core
  match memory cfg p.exMem core with
  | (.error e, core) => (.error e, { s with core := core })
  | (.ok (memWb, memInternal), core) =>
    let exMem := execute p.idEx
    match decode cfg p.ifId core with
    | .error e =>
      (.error e,
        { core := core
          pipeline := { p with memWb := memWb, memInternal := memInternal, exMem := exMem } })
    | .ok idEx =>
      let (ifId, core) := fetch cfg p.pcIf skipBreak core
      (.ok (),
        { core := core
          pipeline :=
            { p with
              memWb := memWb
              memInternal := memInternal
              exMem := exMem
              idEx := idEx
              ifId := ifId } })

def callOf (jumpBranchPc : Address) (s : CorePipelined M) : Option (TrapCall M) :=
  let memWb := s.pipeline.memWb
  if memWb.excause ≠ .none then
    match s.core.writePc memWb.computedNextInstAddr with
    | (.error _, _) => none
    | (.ok (), core) =>
      some
        { excause := memWb.excause
          inst := memWb.inst
          instAddr := memWb.instAddr
          nextAddr := memWb.computedNextInstAddr
          jumpBranchPc := jumpBranchPc
          memRefAddr := memWb.memAddr
          core := core }
  else none

def trapCall (cfg : CoreConfig) (skipBreak : Bool) (s : CorePipelined M) : Option (TrapCall M) :=
  match stages cfg skipBreak { s with core := s.core.nextCycle } with
  | (.error _, _) => none
  | (.ok (), s') => callOf s.pipeline.memWb.instAddr s'

/-- A step is its stages followed by its end. -/
theorem doStep_stages (cfg : CoreConfig) (skipBreak : Bool) (s : CorePipelined M) :
    doStep cfg skipBreak s =
      match stages cfg skipBreak s with
      | (.error e, s) => (.error e, s)
      | (.ok (), s') => afterStages cfg s.pipeline.memWb.instAddr s.pipeline.ifId s' := by
  unfold doStep stages
  dsimp only
  rcases memory cfg s.pipeline.exMem (writeback s.pipeline.memWb s.core) with ⟨result, core⟩
  cases result with
  | error => rfl
  | ok =>
    dsimp only
    cases decode cfg s.pipeline.ifId core <;> rfl

variable {s : CorePipelined M} {cfg : CoreConfig}

variable {skipBreak : Bool}

/-- What stages that do not throw leave. -/
theorem stages_ok {s₁ : CorePipelined M} (h : stages cfg skipBreak s = (.ok (), s₁)) :
    ∃ r c idEx,
      memory cfg s.pipeline.exMem (writeback s.pipeline.memWb s.core) = (.ok r, c) ∧
      decode cfg s.pipeline.ifId c = .ok idEx ∧
      s₁ =
        { core := (fetch cfg s.pipeline.pcIf skipBreak c).2
          pipeline :=
            { pcIf := s.pipeline.pcIf
              ifId := (fetch cfg s.pipeline.pcIf skipBreak c).1
              idEx := idEx
              exMem := execute s.pipeline.idEx
              memInternal := r.2
              memWb := r.1 } } := by
  unfold stages at h
  dsimp only at h
  split at h
  next => cases h
  next memWb memInternal c hmemory =>
    split at h
    next => cases h
    next idEx hdecode =>
      cases h
      exact ⟨_, c, idEx, hmemory, hdecode, rfl⟩

variable {t : TrapCall M} {jumpBranchPc : Address}

omit [FrontendMemory M] in
/-- The call is made for the instruction in the memory stage. -/
theorem callOf_some (hcall : callOf jumpBranchPc s = some t) :
    s.pipeline.memWb.excause ≠ .none ∧ t.excause = s.pipeline.memWb.excause ∧
      t.instAddr = s.pipeline.memWb.instAddr ∧ t.memRefAddr = s.pipeline.memWb.memAddr ∧
      s.core.writePc s.pipeline.memWb.computedNextInstAddr = (.ok (), t.core) := by
  unfold callOf at hcall
  dsimp only at hcall
  split at hcall
  next hexcause =>
    split at hcall
    next => cases hcall
    next core hpc =>
      cases hcall
      exact ⟨hexcause, rfl, rfl, rfl, hpc⟩
  next => cases hcall

omit [FrontendMemory M] in
theorem callOf_inst (hcall : callOf jumpBranchPc s = some t) : t.inst = s.pipeline.memWb.inst := by
  unfold callOf at hcall
  dsimp only at hcall
  split at hcall
  · split at hcall
    · cases hcall
    · cases hcall
      rfl
  · cases hcall

/-- A step with a call flushes the pipeline and leaves the core the call leaves. -/
theorem afterStages_of_callOf_some {savedIfId : FetchInterstage}
    (hcall : callOf jumpBranchPc s = some t) :
    afterStages cfg jumpBranchPc savedIfId s =
      let p := { s.pipeline with pcIf := {}, exMem := {}, idEx := {}, ifId := {} }
      match t.handle cfg with
      | (.ok _, core) => (.ok (), { core := core, pipeline := p })
      | (.error e, core) => (.error e, { core := core, pipeline := p }) := by
  obtain ⟨hexcause, -, -, -, hpc⟩ := callOf_some hcall
  rw [afterStages_of_exception hexcause, takeException]
  unfold callOf at hcall
  rw [if_pos hexcause, hpc] at hcall
  rw [hpc]
  generalize t.core = core at hcall ⊢
  cases hcall
  rfl

variable (hcall : trapCall cfg skipBreak s = some t)
include hcall

theorem stages_of_trapCall :
    ∃ s₁, stages cfg skipBreak { s with core := s.core.nextCycle } = (.ok (), s₁) ∧
      callOf s.pipeline.memWb.instAddr s₁ = some t := by
  unfold trapCall at hcall
  split at hcall
  next => cases hcall
  next s₁ hstages => exact ⟨s₁, hstages, hcall⟩

/-- A step with a call, from its stages to the state it leaves. -/
theorem step_of_trapCall {s' : CorePipelined M} (hstep : step cfg skipBreak s = (.ok (), s')) :
    ∃ s₁ stop, stages cfg skipBreak { s with core := s.core.nextCycle } = (.ok (), s₁) ∧
      callOf s.pipeline.memWb.instAddr s₁ = some t ∧ t.handle cfg = (.ok stop, s'.core) ∧
      s'.pipeline = { s₁.pipeline with pcIf := {}, exMem := {}, idEx := {}, ifId := {} } := by
  obtain ⟨s₁, hstages, hcallOf⟩ := stages_of_trapCall hcall
  rw [step, doStep_stages, hstages] at hstep
  dsimp only at hstep
  rw [afterStages_of_callOf_some hcallOf] at hstep
  split at hstep
  next stop c hhandle =>
    cases hstep
    exact ⟨s₁, stop, hstages, hcallOf, hhandle, rfl⟩
  next => cases hstep

end CorePipelined

/-- What the two cores have in common: a core with its units, one step, and the exception entry
that the step makes. -/
class Hart (σ : Type) (M : outParam Type) where
  core : σ → Core M
  setCore : Core M → σ → σ
  start : Core M → σ
  step : CoreConfig → Bool → σ → Outcome σ Unit
  trapCall : CoreConfig → Bool → σ → Option (TrapCall M)

instance : Hart (CoreSingle M) M where
  core s := s.core
  setCore core s := { s with core := core }
  start := CoreSingle.start
  step := CoreSingle.step
  trapCall := CoreSingle.trapCall

instance : Hart (CorePipelined M) M where
  core s := s.core
  setCore core s := { s with core := core }
  start := CorePipelined.start
  step := CorePipelined.step
  trapCall := CorePipelined.trapCall

def Core.setInterruptSignal (irqNum : Nat) (active : Bool) (core : Core M) : Core M :=
  core.updateCsr (core.controlState.setInterruptSignal irqNum active)

/-- The instruction that the memory stage of a step is given, and the core that the stage sees. -/
class MemoryStage (σ : Type) (M : outParam Type) where
  entering : CoreConfig → Bool → σ → Option (ExecuteInterstage × Core M)

def CoreSingle.entering (cfg : CoreConfig) (skipBreak : Bool) (s : CoreSingle M) :
    Option (ExecuteInterstage × Core M) :=
  let (ifId, core) := fetch cfg s.pipeline.pcIf skipBreak s.core.nextCycle
  match decode cfg ifId core with
  | .ok idEx => some (execute idEx, core)
  | .error _ => none

theorem CoreSingle.entering_some {cfg : CoreConfig} {skipBreak : Bool} {s : CoreSingle M}
    {e : ExecuteInterstage} {c : Core M}
    (h : s.entering cfg skipBreak = some (e, c)) :
    ∃ d, decode cfg (fetch cfg s.pipeline.pcIf skipBreak s.core.nextCycle).1 c = .ok d ∧
      e = execute d ∧ c = (fetch cfg s.pipeline.pcIf skipBreak s.core.nextCycle).2 := by
  unfold CoreSingle.entering at h
  dsimp only at h
  split at h
  next d hdecode =>
    cases h
    exact ⟨d, hdecode, rfl, rfl⟩
  next => cases h

def CorePipelined.entering (s : CorePipelined M) : Option (ExecuteInterstage × Core M) :=
  some (s.pipeline.exMem, writeback s.pipeline.memWb s.core.nextCycle)

instance : MemoryStage (CoreSingle M) M where
  entering := CoreSingle.entering

instance : MemoryStage (CorePipelined M) M where
  entering _ _ := CorePipelined.entering

namespace Hart

variable {σ : Type} [Hart σ M]

/-- A run goes on by a step that does not throw or by a change of an interrupt line. -/
inductive Moves (cfg : CoreConfig) : σ → σ → Prop where
  | step {s s' : σ} (skipBreak : Bool) (hstep : Hart.step cfg skipBreak s = (.ok (), s')) :
      Moves cfg s s'
  | interrupt (s : σ) (irqNum : Nat) (active : Bool) :
      Moves cfg s (setCore ((core s).setInterruptSignal irqNum active) s)

variable {cfg : CoreConfig}

variable {s : σ}

omit [FrontendMemory M] in
theorem step_of_isOk {skipBreak : Bool} (hok : (Hart.step cfg skipBreak s).1.isOk = true) :
    Hart.step cfg skipBreak s = (.ok (), (Hart.step cfg skipBreak s).2) := by
  cases hresult : Hart.step cfg skipBreak s with
  | mk result s' =>
    cases result with
    | ok => rfl
    | error e =>
      rw [hresult] at hok
      cases hok

def after (cfg : CoreConfig) (skipBreak : Bool) : Nat → σ → Option σ
  | 0, s => some s
  | n + 1, s =>
    match Hart.step cfg skipBreak s with
    | (.ok (), s') => after cfg skipBreak n s'
    | (.error _, _) => none

theorem moves_of_after {skipBreak : Bool} {n : Nat} {s' : σ}
    (h : after cfg skipBreak n s = some s') : Relation.ReflTransGen (Moves cfg) s s' := by
  induction n generalizing s with
  | zero =>
    cases h
    exact .refl
  | succ n ih =>
    unfold after at h
    split at h
    next hstep => exact .head (.step skipBreak hstep) (ih h)
    next => cases h

def Reached (cfg : CoreConfig) (c : Core M) (s : σ) : Prop :=
  Relation.ReflTransGen (Moves cfg) (start c) s

/-- What holds at the start and is kept by every move holds in every state reached. -/
theorem Reached.invariant {c : Core M} (h : Reached cfg c s) {inv : σ → Prop}
    (hstart : inv (start c)) (hmove : ∀ {s s' : σ}, Moves cfg s s' → inv s → inv s') : inv s := by
  induction h with
  | refl => exact hstart
  | tail _ hstep ih => exact hmove hstep ih

/-- A run goes on by a step that does not throw and meets a condition, or by a change of an
interrupt line. -/
inductive MovesIf (cfg : CoreConfig) (cond : Bool → σ → Prop) : σ → σ → Prop where
  | step {s s' : σ} (skipBreak : Bool) (hcond : cond skipBreak s)
      (hstep : Hart.step cfg skipBreak s = (.ok (), s')) : MovesIf cfg cond s s'
  | interrupt (s : σ) (irqNum : Nat) (active : Bool) :
      MovesIf cfg cond s (setCore ((core s).setInterruptSignal irqNum active) s)

def ReachedIf (cfg : CoreConfig) (cond : Bool → σ → Prop) (c : Core M) (s : σ) : Prop :=
  Relation.ReflTransGen (MovesIf cfg cond) (start c) s

theorem ReachedIf.reached {cond : Bool → σ → Prop} {c : Core M} (h : ReachedIf cfg cond c s) :
    Reached cfg c s := by
  induction h with
  | refl => exact .refl
  | tail _ hmove ih =>
    cases hmove with
    | step skipBreak _ hstep => exact ih.tail (.step skipBreak hstep)
    | interrupt irqNum active => exact ih.tail (.interrupt _ irqNum active)

end Hart

end QtRvSim
