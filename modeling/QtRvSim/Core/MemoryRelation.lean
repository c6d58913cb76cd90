import QtRvSim.Core.TrapCall

/-!
# Cores over related memory systems

The core reaches memory through its ports only.  If two memory systems are related by a relation
that every operation keeps, giving the same answers, then a core behaves the same over both.  With
one memory system on both sides this gives invariants of the memory system over runs; with ghost
data on one side it shows that the data does not influence the run.
-/

namespace QtRvSim

open ByteMemory CorePipelined

/-- The same answer, with related states. -/
inductive Lifts {σ τ α : Type} (R : σ → τ → Prop) : α × σ → α × τ → Prop where
  | intro (answer : α) {s : σ} {t : τ} (hstate : R s t) : Lifts R (answer, s) (answer, t)

/-- What holds of related states with any answer holds of two results. -/
@[elab_as_elim]
theorem Lifts.elim {σ τ α : Type} {R : σ → τ → Prop} {motive : α × σ → α × τ → Prop}
    {x : α × σ} {y : α × τ} (h : Lifts R x y)
    (hstates : ∀ answer s t, R s t → motive (answer, s) (answer, t)) : motive x y := by
  obtain ⟨answer, hstate⟩ := h
  exact hstates answer _ _ hstate

/-- Every operation of the memory system keeps the relation and gives the same answer.  The core
writes through the data port only. -/
structure MemRelation {M N : Type} [FrontendMemory M] [FrontendMemory N] (R : M → N → Prop) :
    Prop where
  read : ∀ port address size {m : M} {n : N}, R m n →
    Lifts R (FrontendMemory.read port address size m) (FrontendMemory.read port address size n)
  write : ∀ address bytes {m : M} {n : N}, R m n →
    Lifts R (FrontendMemory.write .data address bytes m)
      (FrontendMemory.write .data address bytes n)
  sync : ∀ port {m : M} {n : N}, R m n →
    R (FrontendMemory.sync port m) (FrontendMemory.sync port n)
  sfenceVma : ∀ port vaddr asid {m : M} {n : N}, R m n →
    R (FrontendMemory.sfenceVma port vaddr asid m) (FrontendMemory.sfenceVma port vaddr asid n)
  onCsrWrite : ∀ signal {m : M} {n : N}, R m n →
    R (FrontendMemory.onCsrWrite signal m) (FrontendMemory.onCsrWrite signal n)

def Core.withMem {M N : Type} (core : Core M) (n : N) : Core N where
  regs := core.regs
  controlState := core.controlState
  predictor := core.predictor
  mem := n
  loadReservedRange := core.loadReservedRange
  currentPrivilege := core.currentPrivilege
  currentAsid := core.currentAsid
  stallCount := core.stallCount
  cycleCount := core.cycleCount

/-- The cores differ in their memory systems only, which are related. -/
inductive Core.Related {M N : Type} (R : M → N → Prop) : Core M → Core N → Prop where
  | intro (core : Core M) {n : N} (hmem : R core.mem n) : Core.Related R core (core.withMem n)

inductive CoreSingle.Related {M N : Type} (R : M → N → Prop) :
    CoreSingle M → CoreSingle N → Prop where
  | intro {core : Core M} {core' : Core N} (hcore : core.Related R core') (pipeline : Pipeline)
      (prevInstAddr : Address) :
      CoreSingle.Related R ⟨core, pipeline, prevInstAddr⟩ ⟨core', pipeline, prevInstAddr⟩

inductive CorePipelined.Related {M N : Type} (R : M → N → Prop) :
    CorePipelined M → CorePipelined N → Prop where
  | intro {core : Core M} {core' : Core N} (hcore : core.Related R core') (pipeline : Pipeline) :
      CorePipelined.Related R ⟨core, pipeline⟩ ⟨core', pipeline⟩

namespace MemRelation

variable {M N : Type} [FrontendMemory M] [FrontendMemory N] {R : M → N → Prop}
  (hR : MemRelation R) {cfg : CoreConfig}

include hR

/-! ### Accesses -/

variable (width : Nat)

theorem readGeneric (endian : Endian) (port : MemPort) (address : AddressWithMode) {m : M} {n : N}
    (h : R m n) :
    Lifts R (FrontendMemory.readGeneric width endian port address m)
      (FrontendMemory.readGeneric width endian port address n) := by
  unfold FrontendMemory.readGeneric
  refine (hR.read port address (width / 8) h).elim fun result m n hmem => ?_
  cases result with
  | ok | error => exact .intro _ hmem

/-- Along a script the relation holds. -/
theorem run (address : AddressWithMode) (script : AccessScript) {m : M} {n : N} (h : R m n) :
    Lifts R (script.run address m) (script.run address n) := by
  induction script generalizing m n with
  | answer value => exact .intro _ h
  | read size next ih =>
    unfold AccessScript.run
    refine (hR.read .data address size h).elim fun result m n hmem => ?_
    cases result with
    | ok bytes => exact ih bytes hmem
    | error fault => exact .intro _ hmem
  | write bytes next ih =>
    unfold AccessScript.run
    refine (hR.write address bytes h).elim fun result m n hmem => ?_
    cases result with
    | ok => exact ih hmem
    | error fault => exact .intro _ hmem
  | sync next ih => exact ih (hR.sync .program (hR.sync .data h))
  | sfenceVma vaddr asid next ih =>
    exact ih (hR.sfenceVma .program _ _ (hR.sfenceVma .data _ _ h))

theorem onCsrWrites (signals : List Csr.Signal) {m : M} {n : N} (h : R m n) :
    R (FrontendMemory.onCsrWrites signals m) (FrontendMemory.onCsrWrites signals n) := by
  induction signals generalizing m n with
  | nil => exact h
  | cons signal signals ih => exact ih (hR.onCsrWrite signal h)

variable {c : Core M} {d : Core N}

theorem updateCsr (u : CsrUpdate) (h : Core.Related R c d) :
    Core.Related R (c.updateCsr u) (d.updateCsr u) := by
  obtain ⟨hmem⟩ := h
  exact .intro (c.updateCsr u) (hR.onCsrWrites u.2 hmem)

/-! ### Stages -/

variable (dt : ExecuteInterstage)

theorem performAccess {c : Core M} {d : Core N} (h : Core.Related R c d) :
    Lifts (Core.Related R) (c.performAccess cfg dt) (d.performAccess cfg dt) := by
  obtain @⟨n, hmem⟩ := h
  have haccessed {x : Access M RegisterValue} {y : Access N RegisterValue} (hxy : Lifts R x y) :
      Lifts (Core.Related R) (c.accessed cfg dt x) ((c.withMem n).accessed cfg dt y) := by
    obtain @⟨answer, m', n', hmem'⟩ := hxy
    exact .intro _ (.intro (c.accessed cfg dt (answer, m')).2 hmem')
  rw [Core.performAccess_eq, Core.performAccess_eq]
  exact haccessed (hR.run (c.memAddress cfg dt) (c.accessScript cfg dt) hmem)

omit hR [FrontendMemory M] [FrontendMemory N] in
theorem memAddress (h : Core.Related R c d) : d.memAddress cfg dt = c.memAddress cfg dt := by
  obtain ⟨hmem⟩ := h
  rfl

theorem memoryAccess (dt : ExecuteInterstage) {c : Core M} {d : Core N} (h : Core.Related R c d) :
    Lifts (Core.Related R) (c.memoryAccess cfg dt) (d.memoryAccess cfg dt) := by
  unfold Core.memoryAccess
  split
  · exact .intro _ h
  · refine (hR.performAccess dt h).elim fun result c d hcore => ?_
    cases result with
    | ok | error => exact .intro _ hcore

theorem memoryCsrWrite (dt : ExecuteInterstage) {c : Core M} {d : Core N}
    (h : Core.Related R c d) :
    Lifts (Core.Related R) (c.memoryCsrWrite cfg dt) (d.memoryCsrWrite cfg dt) := by
  have hcontrol : d.controlState = c.controlState ∧ d.currentPrivilege = c.currentPrivilege := by
    obtain ⟨hmem⟩ := h
    exact ⟨rfl, rfl⟩
  unfold Core.memoryCsrWrite
  rw [hcontrol.1, hcontrol.2]
  cases dt.csrWrite with
  | false => exact .intro _ h
  | true =>
    rw [if_pos rfl, if_pos rfl]
    cases c.controlState.write cfg.xlen dt.csrAddress dt.aluVal c.currentPrivilege with
    | ok u => exact .intro _ (hR.updateCsr u h)
    | error e => exact .intro _ h

theorem memoryXret (dt : ExecuteInterstage) {c : Core M} {d : Core N} (h : Core.Related R c d) :
    Lifts (Core.Related R) (c.memoryXret cfg dt) (d.memoryXret cfg dt) := by
  obtain @⟨n, hmem⟩ := h
  exact .intro _ (.intro
    { (c.updateCsr (c.controlState.exceptionReturn cfg.xlen c.currentPrivilege
        dt.xretPrivlev).2).setCurrentPrivilege
        (c.controlState.exceptionReturn cfg.xlen c.currentPrivilege dt.xretPrivlev).1 with
      loadReservedRange := .empty } (hR.onCsrWrites _ hmem))

theorem memoryCsr (address : Address) (h : Core.Related R c d) :
    Lifts (Core.Related R) (c.memoryCsr cfg dt address) (d.memoryCsr cfg dt address) := by
  have hcount : Core.Related R
      (c.updateCsr (c.controlState.incrementInternal cfg.xlen .minstret 1))
      (d.updateCsr (d.controlState.incrementInternal cfg.xlen .minstret 1)) := by
    have hupdate := hR.updateCsr (c.controlState.incrementInternal cfg.xlen .minstret 1) h
    obtain ⟨hmem⟩ := h
    exact hupdate
  unfold Core.memoryCsr
  cases dt.isValid && decide (dt.excause = .none) with
  | false => exact .intro _ h
  | true =>
    dsimp only [if_true]
    refine (hR.memoryCsrWrite dt hcount).elim fun result c d hcore => ?_
    cases result with
    | error e => exact .intro _ hcore
    | ok csrWritten =>
      dsimp only
      cases dt.xret with
      | false => exact .intro _ hcore
      | true =>
        rw [if_pos rfl, if_pos rfl]
        exact (hR.memoryXret dt hcore).elim fun address c d hcore => .intro _ hcore

theorem memory (dt : ExecuteInterstage) {c : Core M} {d : Core N} (h : Core.Related R c d) :
    Lifts (Core.Related R) (c.memory cfg dt) (d.memory cfg dt) := by
  unfold Core.memory
  rw [memAddress dt h]
  refine (hR.memoryAccess dt h).elim fun access c d hcore => ?_
  have htrained : Core.Related R { c with predictor := Core.updatePredictor cfg dt c.predictor }
      { d with predictor := Core.updatePredictor cfg dt d.predictor } := by
    obtain ⟨hmem⟩ := hcore
    exact .intro { c with predictor := Core.updatePredictor cfg dt c.predictor } hmem
  dsimp only
  refine (hR.memoryCsr dt _ htrained).elim fun result c d hcore => ?_
  cases result with
  | error e => exact .intro _ hcore
  | ok csr =>
    refine .intro _ ?_
    obtain ⟨hmem⟩ := hcore
    unfold Core.countMisprediction
    split
    · exact .intro { c with predictor := _ } hmem
    · exact .intro c hmem

theorem fetch (pc : PCInterstage) (skipBreak : Bool) {c : Core M} {d : Core N}
    (h : Core.Related R c d) :
    Lifts (Core.Related R) (c.fetch cfg pc skipBreak) (d.fetch cfg pc skipBreak) := by
  unfold Core.fetch
  cases pc.stopIf with
  | true => exact .intro _ h
  | false =>
    obtain @⟨n, hmem⟩ := h
    dsimp only [Core.withMem, Core.makeAccessMode]
    rw [if_neg Bool.false_ne_true, if_neg Bool.false_ne_true]
    refine (hR.readGeneric 32 cfg.endian .program
      ⟨c.regs.pc, c.currentAsid, c.currentPrivilege, .fetch⟩ hmem).elim fun result m n hmem => ?_
    exact .intro _ (.intro (Core.countCycle cfg { c with mem := m }) (hR.onCsrWrites _ hmem))

omit hR [FrontendMemory M] [FrontendMemory N] in
theorem decode (dt : FetchInterstage) {c : Core M} {d : Core N} (h : Core.Related R c d) :
    d.decode cfg dt = c.decode cfg dt := by
  obtain ⟨hmem⟩ := h
  rfl

omit hR [FrontendMemory M] [FrontendMemory N] in
theorem writeback (dt : MemoryInterstage) (h : Core.Related R c d) :
    Core.Related R (c.writeback dt) (d.writeback dt) := by
  obtain ⟨hmem⟩ := h
  unfold Core.writeback
  cases dt.regwrite with
  | true => exact .intro { c with regs := _ } hmem
  | false => exact .intro c hmem

omit hR [FrontendMemory M] [FrontendMemory N] in
theorem writePc (address : Address) (h : Core.Related R c d) :
    Lifts (Core.Related R) (c.writePc address) (d.writePc address) := by
  obtain ⟨hmem⟩ := h
  unfold Core.writePc
  dsimp only [Core.withMem]
  cases c.regs.writePc address with
  | ok regs => exact .intro _ (.intro { c with regs := regs } hmem)
  | error e => exact .intro _ (.intro c hmem)

omit hR [FrontendMemory M] [FrontendMemory N] in
theorem setCurrentPrivilege (privilege : PrivilegeLevel) (h : Core.Related R c d) :
    Core.Related R (c.setCurrentPrivilege privilege) (d.setCurrentPrivilege privilege) := by
  obtain ⟨hmem⟩ := h
  exact .intro (c.setCurrentPrivilege privilege) hmem

theorem recordTrap (excause : ExceptionCause) (instAddr memRefAddr : Address) (toS : Bool)
    {c : Core M} {d : Core N} (h : Core.Related R c d) :
    Core.Related R (c.recordTrap cfg excause instAddr memRefAddr toS)
      (d.recordTrap cfg excause instAddr memRefAddr toS) := by
  obtain ⟨hmem⟩ := h
  exact hR.updateCsr _ (.intro c hmem)

theorem enterTrap (excause : ExceptionCause) (toS : Bool) {c : Core M} {d : Core N}
    (h : Core.Related R c d) :
    Lifts (Core.Related R) (c.enterTrap cfg excause toS) (d.enterTrap cfg excause toS) := by
  have hcontrol : d.controlState = c.controlState ∧ d.currentPrivilege = c.currentPrivilege := by
    obtain ⟨hmem⟩ := h
    exact ⟨rfl, rfl⟩
  unfold Core.enterTrap
  rw [hcontrol.1, hcontrol.2]
  by_cases henter : c.controlState.readInternal (if toS then .stvec else .mtvec) ≠ 0 ∧
      cfg.stepOverException excause = false
  · rw [if_pos henter, if_pos henter]
    exact writePc _ (setCurrentPrivilege _ (hR.updateCsr _ h))
  · rw [if_neg henter, if_neg henter]
    exact .intro _ h

theorem deliverException (excause : ExceptionCause) (instAddr memRefAddr : Address)
    (h : Core.Related R c d) :
    Lifts (Core.Related R) (c.deliverException cfg excause instAddr memRefAddr)
      (d.deliverException cfg excause instAddr memRefAddr) := by
  obtain @⟨n, hmem⟩ := h
  have hclear : Core.Related R { c with loadReservedRange := .empty }
      { c.withMem n with loadReservedRange := .empty } :=
    .intro { c with loadReservedRange := .empty } hmem
  unfold Core.deliverException
  dsimp only [Core.withMem]
  refine (hR.enterTrap excause _ (hR.recordTrap excause instAddr memRefAddr _ hclear)).elim
    fun result c d hcore => ?_
  rcases result with e | ⟨⟨⟩⟩ <;> exact .intro _ hcore

theorem handleException (excause : ExceptionCause) (inst : Instruction)
    (instAddr nextAddr jumpBranchPc memRefAddr : Address) {c : Core M} {d : Core N}
    (h : Core.Related R c d) :
    Lifts (Core.Related R)
      (c.handleException cfg excause inst instAddr nextAddr jumpBranchPc memRefAddr)
      (d.handleException cfg excause inst instAddr nextAddr jumpBranchPc memRefAddr) := by
  unfold Core.handleException
  split
  · exact .intro _ h
  · split
    · refine (writePc instAddr h).elim fun result c d hcore => ?_
      rcases result with e | ⟨⟨⟩⟩
      · exact .intro _ hcore
      · cases cfg.stopOnException excause with
        | true => exact .intro _ hcore
        | false => exact hR.deliverException _ _ _ hcore
    · exact hR.deliverException _ _ _ h

/-! ### Steps -/

theorem singleFinishStep {s : CoreSingle M} {t : CoreSingle N} (h : CoreSingle.Related R s t) :
    Lifts (CoreSingle.Related R) (s.finishStep cfg) (t.finishStep cfg) := by
  obtain @⟨c, d, hcore, p, prev⟩ := h
  unfold CoreSingle.finishStep
  dsimp only
  refine (writePc p.memWb.computedNextInstAddr hcore).elim fun result c d hcore => ?_
  rcases result with e | ⟨⟨⟩⟩
  · exact .intro _ (.intro hcore p prev)
  · dsimp only
    split
    · have hpc : d.regs.pc = c.regs.pc := by
        obtain ⟨hmem⟩ := hcore
        rfl
      rw [hpc]
      refine (hR.handleException _ _ _ _ _ _ hcore).elim fun result c d hcore => ?_
      cases result with
      | ok | error => exact .intro _ (.intro hcore p prev)
    · exact .intro _ (.intro hcore p _)

omit hR [FrontendMemory M] [FrontendMemory N] in
theorem nextCycle (h : Core.Related R c d) : Core.Related R c.nextCycle d.nextCycle := by
  obtain ⟨hmem⟩ := h
  exact .intro c.nextCycle hmem

theorem singleStep (skipBreak : Bool) {s : CoreSingle M} {t : CoreSingle N}
    (h : CoreSingle.Related R s t) :
    Lifts (CoreSingle.Related R) (s.step cfg skipBreak) (t.step cfg skipBreak) := by
  obtain @⟨c, d, hcore, p, prev⟩ := h
  unfold CoreSingle.step CoreSingle.doStep
  dsimp only
  refine (hR.fetch p.pcIf skipBreak (nextCycle hcore)).elim fun ifId c d hcore => ?_
  rw [decode ifId hcore]
  cases c.decode cfg ifId with
  | error e => exact .intro _ (.intro hcore _ prev)
  | ok idEx =>
    dsimp only
    refine (hR.memory (Core.execute idEx) hcore).elim fun result c d hcore => ?_
    cases result with
    | error e => exact .intro _ (.intro hcore _ prev)
    | ok memory => exact hR.singleFinishStep (.intro (writeback _ hcore) _ prev)

variable {s : CorePipelined M}

theorem takeException (jumpBranchPc : Address) {t : CorePipelined N}
    (h : CorePipelined.Related R s t) :
    Lifts (CorePipelined.Related R) (s.takeException cfg jumpBranchPc)
      (t.takeException cfg jumpBranchPc) := by
  obtain @⟨c, d, hcore, p⟩ := h
  unfold takeException
  dsimp only
  refine (writePc p.memWb.computedNextInstAddr hcore).elim fun result c d hcore => ?_
  rcases result with e | ⟨⟨⟩⟩
  · exact .intro _ (.intro hcore p)
  · dsimp only
    refine (hR.handleException _ _ _ _ _ _ hcore).elim fun result c d hcore => ?_
    cases result with
    | ok | error => exact .intro _ (.intro hcore p)

omit hR [FrontendMemory M] [FrontendMemory N] in
/-- A write of the program counter at the end of a step. -/
theorem pipelinedWritePc (address : Address) (p p' : Pipeline) (h : Core.Related R c d) :
    Lifts (CorePipelined.Related R)
      (match c.writePc address with
        | (.error e, core) => ((.error e, ⟨core, p⟩) : Outcome (CorePipelined M) Unit)
        | (.ok (), core) => (.ok (), ⟨core, p'⟩))
      (match d.writePc address with
        | (.error e, core) => ((.error e, ⟨core, p⟩) : Outcome (CorePipelined N) Unit)
        | (.ok (), core) => (.ok (), ⟨core, p'⟩)) := by
  refine (writePc address h).elim fun result c d hcore => ?_
  rcases result with e | ⟨⟨⟩⟩
  · exact .intro _ (.intro hcore p)
  · exact .intro _ (.intro hcore p')

theorem pcStage (jumpBranchPc : Address) (savedIfId : FetchInterstage)
    (exceptionInProgress stall : Bool) {t : CorePipelined N} (h : CorePipelined.Related R s t) :
    Lifts (CorePipelined.Related R)
      (s.pcStage cfg jumpBranchPc savedIfId exceptionInProgress stall)
      (t.pcStage cfg jumpBranchPc savedIfId exceptionInProgress stall) := by
  obtain @⟨c, d, hcore, p⟩ := h
  unfold pcStage
  dsimp only
  split
  · exact hR.takeException jumpBranchPc (.intro hcore _)
  · cases detectMispredictedJump { p with pcIf := {} } || p.memWb.csrWritten with
    | true => exact pipelinedWritePc _ _ _ hcore
    | false =>
      cases exceptionInProgress with
      | true => exact .intro _ (.intro hcore _)
      | false =>
        cases stall || isStallRequested { p with pcIf := {} } with
        | true =>
          obtain ⟨hmem⟩ := hcore
          exact .intro _ (.intro (.intro { c with stallCount := c.stallCount + 1 } hmem) _)
        | false => exact pipelinedWritePc _ _ _ hcore

theorem pipelinedStep (skipBreak : Bool) {s : CorePipelined M} {t : CorePipelined N}
    (h : CorePipelined.Related R s t) :
    Lifts (CorePipelined.Related R) (s.step cfg skipBreak) (t.step cfg skipBreak) := by
  obtain @⟨c, d, hcore, p⟩ := h
  unfold step doStep
  dsimp only
  refine (hR.memory p.exMem (writeback p.memWb (nextCycle hcore))).elim
    fun result c d hcore => ?_
  cases result with
  | error e => exact .intro _ (.intro hcore p)
  | ok memory =>
    dsimp only
    rw [decode p.ifId hcore]
    cases c.decode cfg p.ifId with
    | error e => exact .intro _ (.intro hcore _)
    | ok idEx =>
      refine (hR.fetch p.pcIf skipBreak hcore).elim fun ifId c d hcore => ?_
      exact hR.pcStage _ _ _ _ (.intro hcore _)

/-! ### Runs -/

theorem setInterruptSignal (irqNum : Nat) (active : Bool) (h : Core.Related R c d) :
    Core.Related R (c.setInterruptSignal irqNum active) (d.setInterruptSignal irqNum active) := by
  obtain ⟨hmem⟩ := h
  exact hR.updateCsr _ (.intro c hmem)

theorem reached_single (h : Core.Related R c d) {s : CoreSingle M} (hrun : Hart.Reached cfg c s) :
    ∃ t : CoreSingle N, Hart.Reached cfg d t ∧ CoreSingle.Related R s t := by
  induction hrun with
  | refl => exact ⟨_, .refl, .intro h _ _⟩
  | tail _ hmove ih =>
    obtain ⟨t, ht, hrelated⟩ := ih
    cases hmove with
    | interrupt irqNum active =>
      refine ⟨_, ht.tail (.interrupt t irqNum active), ?_⟩
      obtain ⟨hcore, p, prev⟩ := hrelated
      exact .intro (hR.setInterruptSignal irqNum active hcore) p prev
    | step skipBreak hstep =>
      have hlift := @singleStep M N _ _ R hR cfg skipBreak _ _ hrelated
      change CoreSingle.step cfg skipBreak _ = _ at hstep
      rw [hstep] at hlift
      generalize hother : t.step cfg skipBreak = y at hlift
      obtain @⟨_, _, t', hrelated'⟩ := hlift
      exact ⟨t', ht.tail (.step skipBreak hother), hrelated'⟩

theorem reached_pipelined (h : Core.Related R c d) (hrun : Hart.Reached cfg c s) :
    ∃ t : CorePipelined N, Hart.Reached cfg d t ∧ CorePipelined.Related R s t := by
  induction hrun with
  | refl => exact ⟨_, .refl, .intro h _⟩
  | tail _ hmove ih =>
    obtain ⟨t, ht, hrelated⟩ := ih
    cases hmove with
    | interrupt irqNum active =>
      refine ⟨_, ht.tail (.interrupt t irqNum active), ?_⟩
      obtain ⟨hcore, p⟩ := hrelated
      exact .intro (hR.setInterruptSignal irqNum active hcore) p
    | step skipBreak hstep =>
      have hlift := @pipelinedStep M N _ _ R hR cfg skipBreak _ _ hrelated
      change step cfg skipBreak _ = _ at hstep
      rw [hstep] at hlift
      generalize hother : t.step cfg skipBreak = y at hlift
      obtain @⟨_, _, t', hrelated'⟩ := hlift
      exact ⟨t', ht.tail (.step skipBreak hother), hrelated'⟩

end MemRelation

end QtRvSim
