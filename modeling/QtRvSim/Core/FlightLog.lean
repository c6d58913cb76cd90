import QtRvSim.Core.Bubbles
import QtRvSim.Core.ControlFlow
import QtRvSim.Core.Flight

/-!
# The log of a run

The log of the core with numbers tells what becomes of every fetched instruction
(`Reached.accounted`) and everything that happens to the core (`Reached.explained`).  The
instructions that pass the memory stage follow the program: each one is at the address where the
one before it continues (`Reached.continues`).
-/

namespace QtRvSim

open Core CorePipelined Slots
open List (mem_append_left mem_append append_assoc mem_append_right mem_cons_self)

variable {M : Type} [FrontendMemory M] {cfg : CoreConfig} {c : Core M}

namespace Flight

/-! ### Empty slots -/

structure Vacant (f : Flight M) : Prop where
  ifId : f.slots.ifId = none → f.machine.pipeline.ifId = {}
  idEx : f.slots.idEx = none → DecodeBubble f.machine.pipeline.idEx
  exMem : f.slots.exMem = none → ExecuteBubble f.machine.pipeline.exMem
  memWb : f.slots.memWb = none → ∀ reg,
    writesRegister f.machine.pipeline.memWb.regwrite f.machine.pipeline.memWb.numRd reg = false

omit [FrontendMemory M] in
theorem vacant_start (c : Core M) : Vacant (start c) where
  ifId _ := rfl
  idEx _ := decodeBubble_default
  exMem _ := executeBubble_default
  memWb _ _ := rfl

variable {f : Flight M} {skipBreak : Bool}

/-- A step without a new number fetches nothing. -/
theorem fetched_of_new (h : f.new = none) : f.fetched cfg skipBreak = ({}, f.accessed cfg) := by
  refine fetch_stopped cfg ?_ skipBreak _
  by_contra hstop
  rw [new, if_neg hstop] at h
  cases h

variable {s : CorePipelined M}

theorem Vacant.advance {memWb : MemoryInterstage} {idEx : DecodeInterstage} (h : Vacant f)
    (hdone : StepDone cfg skipBreak f s memWb idEx) : Vacant (f.advance cfg skipBreak s) := by
  have hdecode (hnone : f.slots.ifId = none) (valRs valRt : RegisterValue)
      (ffRs ffRt : ForwardFrom) : DecodeBubble (withOperands idEx valRs valRt ffRs ffRt) := by
    have hdecoded := hdone.decode
    rw [h.ifId hnone] at hdecoded
    obtain ⟨csrReadVal, -, rfl⟩ := decode_ok hdecoded
    exact (decodeBubble_nop cfg _ _ _ csrReadVal).withOperands valRs valRt ffRs ffRt
  have hmemory (hnone : f.slots.exMem = none) (reg : RegisterId) :
      writesRegister s.pipeline.memWb.regwrite s.pipeline.memWb.numRd reg = false := by
    obtain ⟨internal, hmem⟩ := hdone.memory
    obtain ⟨r, hr, -, -, -, -, hwrites⟩ := memory_bubble cfg (h.exMem hnone) f.written
    obtain rfl : r = (memWb, internal) := Except.ok.inj (congrArg Prod.fst (hr.symm.trans hmem))
    rw [hdone.memWb]
    exact hwrites reg
  have hlanded := hdone.landed
  unfold Flight.advance
  generalize f.ending cfg skipBreak = e at hlanded ⊢
  cases hlanded with
  | exception hifId hidEx hexMem | redirect hifId hidEx hexMem =>
    exact ⟨fun _ => hifId, fun _ => hidEx ▸ decodeBubble_default,
      fun _ => hexMem ▸ executeBubble_default, hmemory⟩
  | drainExecute hifId hidEx hexMem =>
    exact ⟨fun _ => hifId, fun _ => hidEx ▸ decodeBubble_default,
      fun hnone => hexMem ▸ h.idEx hnone, hmemory⟩
  | drainDecode hifId hidEx hexMem =>
    exact ⟨fun _ => hifId, fun hnone => hidEx ▸ hdecode hnone _ _ _ _,
      fun hnone => hexMem ▸ h.idEx hnone, hmemory⟩
  | stall hifId hidEx hexMem =>
    exact ⟨fun hnone => hifId ▸ h.ifId hnone, fun _ => hidEx ▸ decodeBubble_default,
      fun hnone => hexMem ▸ h.idEx hnone, hmemory⟩
  | goOn hifId hidEx hexMem =>
    refine ⟨fun hnone => ?_, fun hnone => hidEx ▸ hdecode hnone _ _ _ _,
      fun hnone => hexMem ▸ h.idEx hnone, hmemory⟩
    rw [hifId, fetched_of_new hnone]

theorem Reached.vacant (h : Reached cfg c f) : Vacant f := by
  induction h with
  | refl => exact vacant_start c
  | tail _ hmove ih =>
    cases hmove with
    | step skipBreak hstep =>
      obtain ⟨memWb, idEx, hdone⟩ := step_done hstep
      exact ih.advance hdone
    | interrupt irqNum active => exact ⟨ih.ifId, ih.idEx, ih.exMem, ih.memWb⟩

/-- The instruction in a slot with a number is valid. -/
theorem Reached.valid (h : Reached cfg c f) :
    Occupied (fun _ r => r.isValid = true) (fun _ r => r.isValid = true)
      (fun _ r => r.isValid = true) (fun _ _ => True) f := by
  induction h with
  | refl => exact ⟨fun _ h => (nomatch h), fun _ h => (nomatch h), fun _ h => (nomatch h),
      fun _ _ => trivial⟩
  | @tail f f' _ hmove ih =>
    cases hmove with
    | step skipBreak hstep =>
      obtain ⟨memWb, idEx, hdone⟩ := step_done hstep
      refine Occupied.advance hdone (fun n hnew => ?_) ih.ifId (fun n hn _ _ _ _ => ?_) ih.idEx
        fun _ _ => trivial
      · refine (fetch_running cfg ?_ skipBreak _).1
        by_contra hstop
        rw [new, if_pos (Bool.not_eq_false _ ▸ hstop)] at hnew
        cases hnew
      · obtain ⟨csrReadVal, -, rfl⟩ := decode_ok hdone.decode
        exact ih.ifId n hn
    | interrupt irqNum active => exact ⟨ih.ifId, ih.idEx, ih.exMem, fun _ _ => trivial⟩

/-! ### What becomes of the instructions -/

section Log

variable (log : List (StageEvent M)) (n : Nat)

def Fetches : Prop := ∃ before after dt, .fetch n before after dt ∈ log

def Accesses : Prop := ∃ dt before after, .memory n dt before after ∈ log

def WritesBack : Prop := ∃ dt before after, .writeback n dt before after ∈ log

/-- The instruction was given up before the memory stage. -/
def Drops : Prop := .drop n ∈ log

end Log

def stageEvents (cfg : CoreConfig) (skipBreak : Bool) (f : Flight M) : List (StageEvent M) :=
  f.slots.memWb.toList.map
      (fun n => .writeback n f.machine.pipeline.memWb f.machine.core.nextCycle f.written) ++
    f.slots.exMem.toList.map
      (fun n => .memory n f.machine.pipeline.exMem f.written (f.accessed cfg)) ++
    f.new.toList.map
      (fun n => .fetch n (f.accessed cfg) (f.fetched cfg skipBreak).2 (f.fetched cfg skipBreak).1)

theorem events_eq (f : Flight M) (skipBreak : Bool) (core : Core M) :
    f.events cfg skipBreak core = f.stageEvents cfg skipBreak ++
      (if f.ending cfg skipBreak = .exception then
        f.slots.exMem.toList.map fun n => .trap n (f.fetched cfg skipBreak).2 core else []) ++
      (f.slots.dropped f.new (f.ending cfg skipBreak)).map .drop := rfl

theorem mem_events_of_stageEvents {e : StageEvent M} (h : e ∈ f.stageEvents cfg skipBreak)
    (core : Core M) : e ∈ f.events cfg skipBreak core :=
  mem_append_left _ (mem_append_left _ h)

section Events

variable {skipBreak : Bool} {f : Flight M} {core : Core M} {n : Nat}

theorem fetches_events : Fetches (f.events cfg skipBreak core) n ↔ f.new = some n := by
  constructor
  · rintro ⟨before, after, dt, h⟩
    exact (fetch_mem_events h).1
  · intro h
    simp [Fetches, events, h]

theorem accesses_events : Accesses (f.events cfg skipBreak core) n ↔ f.slots.exMem = some n := by
  constructor
  · rintro ⟨dt, before, after, h⟩
    exact (memory_mem_events h).1
  · intro h
    simp [Accesses, events, h]

theorem writesBack_events :
    WritesBack (f.events cfg skipBreak core) n ↔ f.slots.memWb = some n := by
  constructor
  · rintro ⟨dt, before, after, h⟩
    exact (writeback_mem_events h).1
  · intro h
    simp [WritesBack, events, h]

theorem drops_events :
    Drops (f.events cfg skipBreak core) n ↔
      n ∈ f.slots.dropped f.new (f.ending cfg skipBreak) := by
  unfold Drops events
  split <;> simp

theorem accesses_stageEvents :
    Accesses (f.stageEvents cfg skipBreak) n ↔ f.slots.exMem = some n := by
  constructor
  · rintro ⟨dt, before, after, h⟩
    exact (memory_mem_events (mem_events_of_stageEvents h f.written)).1
  · intro h
    simp [Accesses, stageEvents, h]

theorem writesBack_stageEvents :
    WritesBack (f.stageEvents cfg skipBreak) n ↔ f.slots.memWb = some n := by
  constructor
  · rintro ⟨dt, before, after, h⟩
    exact (writeback_mem_events (mem_events_of_stageEvents h f.written)).1
  · intro h
    simp [WritesBack, stageEvents, h]

omit [FrontendMemory M] in
variable {log more : List (StageEvent M)} in
theorem fetches_append : Fetches (log ++ more) n ↔ Fetches log n ∨ Fetches more n := by
  simp only [Fetches, mem_append, exists_or]

omit [FrontendMemory M] in
variable {log more : List (StageEvent M)} in
theorem accesses_append : Accesses (log ++ more) n ↔ Accesses log n ∨ Accesses more n := by
  simp only [Accesses, mem_append, exists_or]

omit [FrontendMemory M] in
variable {log more : List (StageEvent M)} in
theorem writesBack_append :
    WritesBack (log ++ more) n ↔ WritesBack log n ∨ WritesBack more n := by
  simp only [WritesBack, mem_append, exists_or]

omit [FrontendMemory M] in
variable {log more : List (StageEvent M)} in
theorem drops_append : Drops (log ++ more) n ↔ Drops log n ∨ Drops more n := mem_append

end Events

/-- Every fetched instruction is on its way to the memory stage, was given up, or has passed the
memory stage.  One that was given up never does; one that has passed it is written back next. -/
structure Accounted (f : Flight M) : Prop where
  fetched : ∀ {n}, Fetches f.log n → n ∈ f.slots.behind ∨ Drops f.log n ∨ Accesses f.log n
  accessed : ∀ {n}, Accesses f.log n → f.slots.memWb = some n ∨ WritesBack f.log n
  dropped : ∀ {n}, Drops f.log n → n ∉ f.slots.inOrder ∧ n < f.next ∧ ¬Accesses f.log n ∧
    ¬WritesBack f.log n

omit [FrontendMemory M] in
theorem accounted_start (c : Core M) : Accounted (start c) where
  fetched h := by
    obtain ⟨_, _, _, hmem⟩ := h
    cases hmem
  accessed h := by
    obtain ⟨_, _, _, hmem⟩ := h
    cases hmem
  dropped h := nomatch h

section Advance

variable {skipBreak : Bool} {f : Flight M}

/-- What becomes of an instruction behind the execute stage, or of the fetched one. -/
theorem mem_move_or_drops {n : Nat} {s : CorePipelined M}
    (h : n ∈ f.slots.idEx.toList ++ f.slots.ifId.toList ++ f.new.toList) :
    n ∈ (f.advance cfg skipBreak s).slots.behind ∨ Drops (f.advance cfg skipBreak s).log n := by
  rw [← behind_move_append_dropped _ _ (f.ending cfg skipBreak)] at h
  exact (List.mem_append.mp h).imp_right fun hdrop =>
    drops_append.mpr (.inr (drops_events.mpr hdrop))

/-- An instruction that a step gives up has not reached the memory stage. -/
theorem Ordered.not_accesses (hordered : Ordered f) {n : Nat} (s : CorePipelined M)
    (h : n ∈ f.slots.dropped f.new (f.ending cfg skipBreak)) :
    n ∉ (f.advance cfg skipBreak s).slots.inOrder ∧ n < f.nextNumber ∧
      ¬Accesses (f.advance cfg skipBreak s).log n ∧
      ¬WritesBack (f.advance cfg skipBreak s).log n := by
  -- the instructions in flight, the ones given up and the next one
  have hall := hordered.behind_next
  rw [← append_assoc, ← inOrder_move_append_dropped _ _ (f.ending cfg skipBreak),
    append_assoc] at hall
  have hmem : n ∈ f.slots.behind ++ [f.next] := by
    have hbehind : n ∈ f.slots.behind ++ f.new.toList := by
      rw [← inOrder_move_append_dropped _ _ (f.ending cfg skipBreak)]
      exact mem_append_right _ h
    refine List.mem_append.mpr ((List.mem_append.mp hbehind).imp_right fun hnew => ?_)
    rw [Option.mem_toList, new] at hnew
    split at hnew
    · cases hnew
    · exact List.mem_singleton.mpr (Option.some.inj hnew).symm
  have hmoved : n ∉ (f.advance cfg skipBreak s).slots.inOrder := fun hn =>
    Nat.lt_irrefl n ((List.pairwise_append.mp hall).2.2 n hn n (mem_append_left _ h))
  refine ⟨hmoved, ?_, fun haccess => ?_, fun hwrite => ?_⟩
  · exact (List.pairwise_append.mp (List.pairwise_append.mp hall).2.1).2.2 n h _ mem_cons_self
  · rcases accesses_append.mp haccess with ⟨_, _, _, hlog⟩ | hevent
    · exact Nat.lt_irrefl n (hordered.memory hlog n hmem)
    · refine hmoved ?_
      rw [inOrder, show (f.advance cfg skipBreak s).slots.memWb = some n from
        (memWb_move _ _ _).trans (accesses_events.mp hevent)]
      exact mem_cons_self
  · rcases writesBack_append.mp hwrite with ⟨_, _, _, hlog⟩ | hevent
    · refine Nat.lt_irrefl n (hordered.writeback hlog n ?_)
      rw [inOrder, append_assoc]
      exact mem_append_right _ hmem
    · have hslots := hordered.slots
      rw [inOrder, writesBack_events.mp hevent, append_assoc] at hslots
      exact Nat.lt_irrefl n (List.rel_of_pairwise_cons hslots hmem)

theorem Accounted.advance (h : Accounted f) (hordered : Ordered f) (s : CorePipelined M) :
    Accounted (f.advance cfg skipBreak s) := by
  refine ⟨fun {n} hfetch => ?_, fun {n} haccess => ?_, fun {n} hdrop => ?_⟩
  · rcases fetches_append.mp hfetch with hlog | hevent
    · rcases h.fetched hlog with hbehind | hdrop | haccess
      · rw [behind, append_assoc] at hbehind
        rcases List.mem_append.mp hbehind with hexMem | hbehind
        · have hmemory := Option.mem_toList.mp hexMem
          exact .inr (.inr (accesses_append.mpr (.inr (accesses_events.mpr hmemory))))
        · refine (mem_move_or_drops ?_).imp_right .inl
          exact mem_append_left _ hbehind
      · exact .inr (.inl (drops_append.mpr (.inl hdrop)))
      · exact .inr (.inr (accesses_append.mpr (.inl haccess)))
    · refine (mem_move_or_drops ?_).imp_right .inl
      exact mem_append_right _ (Option.mem_toList.mpr (fetches_events.mp hevent))
  · rcases accesses_append.mp haccess with hlog | hevent
    · exact .inr (writesBack_append.mpr ((h.accessed hlog).symm.imp_right writesBack_events.mpr))
    · refine .inl ?_
      rw [← accesses_events.mp hevent]
      exact memWb_move _ _ _
  · rcases drops_append.mp hdrop with hlog | hevent
    · obtain ⟨hnot, hlt, haccess, hwrite⟩ := h.dropped hlog
      have hbehind : n ∉ f.slots.behind := fun hmem => hnot (mem_append_right _ hmem)
      refine ⟨fun hmem => ?_, Nat.lt_of_lt_of_le hlt ?_, fun hmem => ?_, fun hmem => ?_⟩
      · rcases List.mem_append.mp ((inOrder_move _ _ _).subset hmem) with hmem | hmem
        · exact hbehind hmem
        · have hle := (new_append f).2 n (mem_append_left _ hmem)
          exact absurd hlt (Nat.not_lt.mpr hle)
      · exact (new_append f).2 _ (mem_append_right _ mem_cons_self)
      · rcases accesses_append.mp hmem with hmem | hmem
        · exact haccess hmem
        · refine hbehind ?_
          rw [behind, accesses_events.mp hmem]
          exact mem_cons_self
      · rcases writesBack_append.mp hmem with hmem | hmem
        · exact hwrite hmem
        · refine hnot ?_
          rw [inOrder, writesBack_events.mp hmem]
          exact mem_cons_self
    · exact hordered.not_accesses s (drops_events.mp hevent)

end Advance

omit [FrontendMemory M] in
/-- The instruction in front of the memory stage is the oldest behind the write-back stage. -/
theorem Ordered.oldest (h : Ordered f) {n : Nat} (hslot : f.slots.exMem = some n) :
    n ∈ f.slots.behind ∧ (∀ m ∈ f.slots.behind, n ≤ m) ∧ ∀ m, f.slots.memWb = some m → m < n := by
  have hslots := h.slots
  rw [inOrder, append_assoc] at hslots
  have hbehind : f.slots.behind = n :: (f.slots.idEx.toList ++ f.slots.ifId.toList) := by
    rw [behind, hslot]
    rfl
  rw [hbehind] at hslots ⊢
  refine ⟨mem_cons_self, fun m hm => ?_, fun m hm => ?_⟩
  · rcases List.mem_cons.mp hm with rfl | hm
    · exact le_rfl
    · exact (List.rel_of_pairwise_cons (List.pairwise_append.mp hslots).2.1
        (mem_append_left _ hm)).le
  · exact (List.pairwise_append.mp hslots).2.2 m (Option.mem_toList.mpr hm) n mem_cons_self

theorem Reached.accounted (h : Reached cfg c f) : Accounted f := by
  induction h with
  | refl => exact accounted_start c
  | tail hrun hmove ih =>
    cases hmove with
    | step skipBreak hstep => exact ih.advance (Reached.ordered hrun) _
    | interrupt irqNum active => exact ⟨ih.fetched, ih.accessed, ih.dropped⟩

/-! ### What happens to the core -/

/-- The cores differ at most in the program counter and in the numbers of cycles and stalls. -/
structure SameApartPc (c c' : Core M) : Prop where
  gp : c'.regs.gp = c.regs.gp
  controlState : c'.controlState = c.controlState
  predictor : c'.predictor = c.predictor
  mem : c'.mem = c.mem
  loadReservedRange : c'.loadReservedRange = c.loadReservedRange
  currentPrivilege : c'.currentPrivilege = c.currentPrivilege
  currentAsid : c'.currentAsid = c.currentAsid

omit [FrontendMemory M] in
theorem SameApartPc.refl (c : Core M) : SameApartPc c c := ⟨rfl, rfl, rfl, rfl, rfl, rfl, rfl⟩

omit [FrontendMemory M] in
theorem SameApartPc.writePc {c c' : Core M} {address : Address}
    (h : c.writePc address = (.ok (), c')) : SameApartPc c c' := by
  obtain ⟨haligned, rfl⟩ := writePc_ok h
  exact ⟨rfl, rfl, rfl, rfl, rfl, rfl, rfl⟩

/-- Without an exception the end of a step leaves the core but for the program counter. -/
theorem SameApartPc.afterStages {jumpBranchPc : Address} {savedIfId : FetchInterstage}
    {s' : CorePipelined M} (hnone : s.pipeline.memWb.excause = .none)
    (hend : CorePipelined.afterStages cfg jumpBranchPc savedIfId s = (.ok (), s')) :
    SameApartPc s.core s'.core := by
  have hcases := afterStages_end cfg jumpBranchPc savedIfId s
  rw [hend] at hcases
  generalize houtcome : ((.ok (), s') : Outcome (CorePipelined M) Unit) = outcome at hcases
  cases hcases with
  | exception hexception => exact absurd hnone hexception
  | redirect =>
    unfold flushAndContinueFromAddress at houtcome
    split at houtcome
    next => cases houtcome
    next hpc =>
      cases houtcome
      exact .writePc hpc
  | drainExecute | drainDecode =>
    cases houtcome
    exact .refl _
  | stall =>
    cases houtcome
    exact ⟨rfl, rfl, rfl, rfl, rfl, rfl, rfl⟩
  | goOn =>
    unfold CorePipelined.goOn at houtcome
    dsimp only at houtcome
    split at houtcome
    next => cases houtcome
    next hpc =>
      cases houtcome
      exact .writePc hpc

def cores : StageEvent M → Option (Core M × Core M)
  | .writeback _ _ before after | .memory _ _ before after | .fetch _ before after _
  | .trap _ before after => some (before, after)
  | .drop _ => none

/-- The core is the start core after the events of the log.  Between events only the program counter
and the numbers of cycles and stalls change, and the interrupt lines. -/
inductive Explained (c : Core M) : List (StageEvent M) → Core M → Prop where
  | start : Explained c [] c
  | between {log : List (StageEvent M)} {core core' : Core M} (h : Explained c log core)
      (hsame : SameApartPc core core') : Explained c log core'
  | interrupt {log : List (StageEvent M)} {core : Core M} (h : Explained c log core) (irqNum : Nat)
      (active : Bool) : Explained c log (core.setInterruptSignal irqNum active)
  | event {log : List (StageEvent M)} {e : StageEvent M} {before after : Core M}
      (h : Explained c log before) (he : cores e = some (before, after)) :
      Explained c (log ++ [e]) after
  | drop {log : List (StageEvent M)} {core : Core M} (h : Explained c log core) (n : Nat) :
      Explained c (log ++ [.drop n]) core

namespace Explained

variable {log : List (StageEvent M)} {core before after : Core M}

/-- A stage with an instruction is an event; one without does nothing. -/
theorem optional (h : Explained c log before) {n : Option Nat} {e : Nat → StageEvent M}
    (he : ∀ n, cores (e n) = some (before, after)) (hnone : n = none → after = before) :
    Explained c (log ++ n.toList.map e) after := by
  cases n with
  | none =>
    rw [hnone rfl, Option.toList_none, List.map_nil, List.append_nil]
    exact h
  | some n => exact h.event (he n)

theorem drops (h : Explained c log core) (ns : List Nat) :
    Explained c (log ++ ns.map .drop) core := by
  induction ns generalizing log with
  | nil => simpa using h
  | cons n ns ih => simpa using ih (h.drop n)

end Explained

/-- The core that the stages of a step leave, behind their events. -/
theorem Explained.stages {skipBreak : Bool} {f : Flight M} (h : Explained c f.log f.machine.core)
    (hvacant : Vacant f) :
    Explained c (f.log ++ f.stageEvents cfg skipBreak) (f.fetched cfg skipBreak).2 := by
  have hcycle : Explained c f.log f.machine.core.nextCycle :=
    h.between ⟨rfl, rfl, rfl, rfl, rfl, rfl, rfl⟩
  rw [stageEvents, ← append_assoc, ← append_assoc]
  refine ((hcycle.optional (fun _ => rfl) fun hnone => ?_).optional (fun _ => rfl)
    fun hnone => ?_).optional (fun _ => rfl) fun hnone => ?_
  · exact writeback_of_not_writes (hvacant.memWb hnone) _
  · obtain ⟨r, hr, -⟩ := memory_bubble cfg (hvacant.exMem hnone) f.written
    rw [accessed, hr]
  · rw [fetched_of_new hnone]

/-- The stages of a step leave the memory stage's result and the core behind the fetch. -/
theorem stages_fetched {s₁ : CorePipelined M}
    (hstages : stages cfg skipBreak { f.machine with core := f.machine.core.nextCycle } = (.ok (),
      s₁)) :
    s₁.core = (f.fetched cfg skipBreak).2 ∧ f.ending cfg skipBreak = endKind cfg s₁.pipeline ∧
      ∃ internal, Core.memory cfg f.machine.pipeline.exMem f.written =
        (.ok (s₁.pipeline.memWb, internal), f.accessed cfg) := by
  have hending : f.ending cfg skipBreak = endKind cfg s₁.pipeline := by rw [ending, hstages]
  obtain ⟨⟨memWb, internal⟩, core, idEx, hmemory, -, rfl⟩ := stages_ok hstages
  obtain rfl : f.accessed cfg = core := congrArg Prod.snd hmemory
  exact ⟨rfl, hending, internal, hmemory⟩

/-- A step ends with an exception if the memory stage leaves one. -/
theorem endKind_eq_exception_iff {p : Pipeline} :
    endKind cfg p = .exception ↔ p.memWb.excause ≠ .none := by
  rw [endKind]
  split
  next h => simp [h]
  next h => split_ifs <;> simp [h]

/-- An exception belongs to an instruction. -/
theorem Vacant.raised (h : Vacant f) {s₁ : CorePipelined M}
    (hstages : stages cfg skipBreak { f.machine with core := f.machine.core.nextCycle } = (.ok (),
      s₁)) (hexcause : s₁.pipeline.memWb.excause ≠ .none) : ∃ n, f.slots.exMem = some n := by
  refine Option.ne_none_iff_exists'.mp fun hnone => hexcause ?_
  obtain ⟨-, -, internal, hmemory⟩ := stages_fetched hstages
  obtain ⟨r, hr, -, hraised, -⟩ := memory_bubble cfg (h.exMem hnone) f.written
  obtain rfl : r = (s₁.pipeline.memWb, internal) :=
    Except.ok.inj (congrArg Prod.fst (hr.symm.trans hmemory))
  exact hraised

theorem Explained.advance (h : Explained c f.log f.machine.core) (hvacant : Vacant f)
    (hstep : CorePipelined.step cfg skipBreak f.machine = (.ok (), s)) :
    Explained c (f.advance cfg skipBreak s).log s.core := by
  rw [CorePipelined.step, doStep_stages] at hstep
  split at hstep
  next => cases hstep
  next s₁ hstages =>
    obtain ⟨hcore, hending, -⟩ := stages_fetched hstages
    have hfetched := @Explained.stages M _ cfg c skipBreak f h hvacant
    show Explained c (f.log ++ f.events cfg skipBreak s.core) s.core
    rw [events_eq, ← append_assoc]
    refine Explained.drops ?_ _
    rw [← append_assoc]
    by_cases hexcause : s₁.pipeline.memWb.excause = .none
    · have hgoes : endKind cfg s₁.pipeline ≠ .exception :=
        mt endKind_eq_exception_iff.mp (not_not.mpr hexcause)
      rw [hending, if_neg hgoes, List.append_nil]
      rw [← hcore] at hfetched
      exact hfetched.between (.afterStages hexcause hstep)
    · rw [hending, if_pos (endKind_eq_exception_iff.mpr hexcause)]
      obtain ⟨n, hn⟩ := hvacant.raised hstages hexcause
      exact hfetched.optional (fun _ => rfl) fun hnone => absurd (hn.symm.trans hnone) (by simp)

theorem Reached.explained (h : Reached cfg c f) : Explained c f.log f.machine.core := by
  induction h with
  | refl => exact .start
  | tail hrun hmove ih =>
    cases hmove with
    | step skipBreak hstep => exact ih.advance (Reached.vacant hrun) hstep
    | interrupt irqNum active => exact ih.interrupt irqNum active

/-! ### The order of the program -/

/-- The address at which the program continues behind an event: the one the memory stage has
computed, or the one a trap has left. -/
def resume (cfg : CoreConfig) : StageEvent M → Option Address
  | .memory _ dt before _ => (Core.memory cfg dt before).1.toOption.map (·.1.computedNextInstAddr)
  | .trap _ _ after => some after.regs.pc
  | _ => none

/-- The address at which a program continues behind the events of a log. -/
def resumeAddress (cfg : CoreConfig) (pc : Address) (log : List (StageEvent M)) : Address :=
  log.foldl (fun pc e => (resume cfg e).getD pc) pc

/-- The instructions that pass the memory stage are those of the program: each one is at the address
where the one before it has continued. -/
def FollowsProgram (cfg : CoreConfig) : Address → List (StageEvent M) → Prop
  | _, [] => True
  | pc, e :: log =>
    (∀ n dt before after, e = .memory n dt before after → dt.instAddr = pc) ∧
      FollowsProgram cfg ((resume cfg e).getD pc) log

section Program

variable {pc : Address} {log more : List (StageEvent M)}

theorem resumeAddress_append :
    resumeAddress cfg pc (log ++ more) = resumeAddress cfg (resumeAddress cfg pc log) more :=
  List.foldl_append

theorem followsProgram_append :
    FollowsProgram cfg pc (log ++ more) ↔
      FollowsProgram cfg pc log ∧ FollowsProgram cfg (resumeAddress cfg pc log) more := by
  induction log generalizing pc with
  | nil => exact ⟨fun h => ⟨trivial, h⟩, fun h => h.2⟩
  | cons e log ih => simp only [List.cons_append, FollowsProgram, ih, and_assoc, resumeAddress,
      List.foldl_cons]

/-- Events that are not of the memory stage and no traps play no role for the program. -/
theorem resumeAddress_silent (e : Nat → StageEvent M) (he : ∀ n, resume cfg (e n) = none)
    (ns : List Nat) : resumeAddress cfg pc (ns.map e) = pc := by
  induction ns with
  | nil => rfl
  | cons n ns ih => rwa [List.map_cons, resumeAddress, List.foldl_cons, he n]

theorem followsProgram_silent {e : Nat → StageEvent M} (he : ∀ n, resume cfg (e n) = none)
    (hmemory : ∀ n m dt before after, e n ≠ .memory m dt before after) (ns : List Nat) :
    FollowsProgram cfg pc (ns.map e) := by
  induction ns with
  | nil => trivial
  | cons n ns ih =>
    refine ⟨fun m dt before after h => absurd h (hmemory n m dt before after), ?_⟩
    rwa [he n]

end Program

/-- Where the program continues behind a step: the memory stage says it, unless there is a trap. -/
theorem resumeAddress_events (f : Flight M) (skipBreak : Bool) (core : Core M) (pc : Address) :
    resumeAddress cfg pc (f.events cfg skipBreak core) =
      if f.slots.exMem = none then pc
      else if f.ending cfg skipBreak = .exception then core.regs.pc
      else ((Core.memory cfg f.machine.pipeline.exMem f.written).1.toOption.map
        (·.1.computedNextInstAddr)).getD pc := by
  rw [events, resumeAddress_append, resumeAddress_append, resumeAddress_append,
    resumeAddress_append, resumeAddress_silent (.writeback · _ _ _) fun _ => rfl,
    resumeAddress_silent (.fetch · _ _ _) fun _ => rfl, resumeAddress_silent .drop fun _ => rfl]
  cases f.slots.exMem with
  | none | some => split <;> rfl

/-- A step that does not throw ends with an exception if its memory stage leaves one. -/
theorem ending_eq_exception_iff {r : MemoryInterstage × MemoryInternalState} {core : Core M}
    (hstep : CorePipelined.step cfg skipBreak f.machine = (.ok (), s))
    (hmemory : Core.memory cfg f.machine.pipeline.exMem f.written = (.ok r, core)) :
    f.ending cfg skipBreak = .exception ↔ r.1.excause ≠ .none := by
  rw [CorePipelined.step, doStep_stages] at hstep
  split at hstep
  next => cases hstep
  next s₁ hstages =>
    obtain ⟨-, hending, internal, hmemory'⟩ := stages_fetched hstages
    obtain rfl : r = (s₁.pipeline.memWb, internal) :=
      Except.ok.inj (congrArg Prod.fst (hmemory.symm.trans hmemory'))
    rw [hending, endKind_eq_exception_iff]

variable (h : Reached cfg c f)
include h

/-- The next instruction for the memory stage is the one at which the program continues. -/
theorem Reached.continues : f.machine.behindMemory = resumeAddress cfg c.regs.pc f.log := by
  induction h with
  | refl => rfl
  | @tail f f' hrun hmove ih =>
    cases hmove with
    | interrupt irqNum active => exact ih
    | @step s skipBreak hstep =>
      have hchained := Chained.reached (Reached.machine hrun)
      obtain ⟨r, d, core, hdone⟩ := step_stepped hstep
      have hmemory : Core.memory cfg f.machine.pipeline.exMem f.written = (.ok r, core) :=
        hdone.memory
      show s.behindMemory = resumeAddress cfg c.regs.pc
        (f.log ++ f.events cfg skipBreak s.core)
      rw [resumeAddress_append, resumeAddress_events, hmemory, ← ih]
      cases hslot : f.slots.exMem with
      | none =>
        have hbubble := (Reached.vacant hrun).exMem hslot
        obtain ⟨r', hr, -, hexcause, hcsr, hcomputed, -⟩ :=
          memory_bubble cfg hbubble f.written
        obtain rfl : r' = r := Except.ok.inj (congrArg Prod.fst (hr.symm.trans hmemory))
        rw [if_pos rfl, behindMemory.eq_1 f.machine, hbubble.isValid, if_neg Bool.false_ne_true]
        rcases step_moves hchained hdone hexcause with ⟨hmoved, -⟩ | ⟨-, hne | hwritten⟩
        · exact hmoved
        · exact absurd hcomputed hne
        · rw [hcsr] at hwritten
          cases hwritten
      | some n =>
        rw [if_neg (Option.some_ne_none n)]
        by_cases hexcause : r.1.excause = .none
        · have hcontinues := step_continues hchained hstep
            ((Reached.valid hrun).exMem n hslot) (hdone.memWb ▸ hexcause)
          have hgoes := mt (ending_eq_exception_iff hstep hmemory).mp (not_not.mpr hexcause)
          rw [if_neg hgoes, hcontinues, hdone.memWb]
          rfl
        · rw [if_pos ((ending_eq_exception_iff hstep hmemory).mpr hexcause)]
          -- the trap has emptied the pipeline
          cases hdone.ended with
          | exception _ hifId hidEx hexMem _ =>
            rw [behindMemory, behindExecute, behindDecode, hifId, hidEx, hexMem]
            rfl
          | redirect hnone | drainExecute hnone | drainDecode hnone | stall hnone
          | goOn hnone => exact absurd hnone hexcause

/-- The instruction in front of the memory stage is the next one of the program. -/
theorem Reached.exMem_address {n : Nat} (hslot : f.slots.exMem = some n) :
    f.machine.pipeline.exMem.instAddr = resumeAddress cfg c.regs.pc f.log := by
  have hvalid : f.machine.pipeline.exMem.isValid = true := h.valid.exMem n hslot
  rw [← h.continues, behindMemory, if_pos hvalid]

/-- The stages of a step follow the program. -/
theorem Reached.followsProgram_stageEvents (skipBreak : Bool) :
    FollowsProgram cfg (resumeAddress cfg c.regs.pc f.log) (f.stageEvents cfg skipBreak) := by
  rw [stageEvents, followsProgram_append, followsProgram_append,
    resumeAddress_silent (.writeback · _ _ _) fun _ => rfl]
  refine ⟨⟨followsProgram_silent (fun _ => rfl) (fun _ _ _ _ _ => by simp) _, ?_⟩,
    followsProgram_silent (fun _ => rfl) (fun _ _ _ _ _ => by simp) _⟩
  cases hslot : f.slots.exMem with
  | none => trivial
  | some n =>
    refine ⟨fun m dt before after hevent => ?_, trivial⟩
    cases hevent
    exact h.exMem_address hslot

theorem Reached.followsProgram : FollowsProgram cfg c.regs.pc f.log := by
  induction h with
  | refl => trivial
  | @tail f f' hrun hmove ih =>
    cases hmove with
    | interrupt irqNum active => exact ih
    | @step s skipBreak hstep =>
      refine followsProgram_append.mpr ⟨ih, ?_⟩
      rw [events_eq, followsProgram_append, followsProgram_append]
      refine ⟨⟨Reached.followsProgram_stageEvents hrun skipBreak, ?_⟩,
        followsProgram_silent (fun _ => rfl) (fun _ _ _ _ _ => by simp) _⟩
      split
      · cases f.slots.exMem with
        | none => trivial
        | some n => exact ⟨fun _ _ _ _ hevent => (nomatch hevent), trivial⟩
      · trivial

end Flight

end QtRvSim
