import QtRvSim.Core.TrapCall

/-!
# Instructions in flight

The pipelined core with numbers for its instructions.  Every fetch gives the next number to the
instruction it fetches; the numbers move through the stage registers with the instructions, and a
log tells what the stages did for which instruction.  The numbers and the log do not influence the
run: every run of the core is one with numbers (`Flight.reached_of_reached`).
-/

namespace QtRvSim

open Core CorePipelined
open List (append_assoc mem_map)

variable {M : Type} [FrontendMemory M]

inductive EndKind where
  | exception | redirect | drainExecute | drainDecode | stall | goOn
deriving DecidableEq, Repr

def endKind (cfg : CoreConfig) (p : Pipeline) : EndKind :=
  if p.memWb.excause ≠ .none then .exception
  else if redirects p then .redirect
  else if p.exMem.excause ≠ .none then .drainExecute
  else if p.idEx.excause ≠ .none then .drainDecode
  else if stalls cfg p then .stall
  else .goOn

/-- Numbers of the instructions in the stage registers; a bubble has none. -/
structure Slots where
  ifId : Option Nat
  idEx : Option Nat
  exMem : Option Nat
  memWb : Option Nat
deriving DecidableEq, Repr

namespace Slots

/-- The numbers after a step that has fetched the instruction `new`. -/
def move (x : Slots) (new : Option Nat) : EndKind → Slots
  | .exception | .redirect => ⟨none, none, none, x.exMem⟩
  | .drainExecute => ⟨none, none, x.idEx, x.exMem⟩
  | .drainDecode => ⟨none, x.ifId, x.idEx, x.exMem⟩
  | .stall => ⟨x.ifId, none, x.idEx, x.exMem⟩
  | .goOn => ⟨new, x.ifId, x.idEx, x.exMem⟩

/-- The instructions behind the write-back stage, oldest first. -/
def behind (x : Slots) : List Nat :=
  x.exMem.toList ++ x.idEx.toList ++ x.ifId.toList

def inOrder (x : Slots) : List Nat :=
  x.memWb.toList ++ x.behind

def dropped (x : Slots) (new : Option Nat) : EndKind → List Nat
  | .exception | .redirect => x.idEx.toList ++ x.ifId.toList ++ new.toList
  | .drainExecute => x.ifId.toList ++ new.toList
  | .drainDecode | .stall => new.toList
  | .goOn => []

variable (x : Slots) (new : Option Nat) (e : EndKind)

theorem memWb_move : (x.move new e).memWb = x.exMem := by
  cases e <;> rfl

/-- An instruction behind the execute stage, or the fetched one, stays in flight or is given up. -/
theorem behind_move_append_dropped :
    (x.move new e).behind ++ x.dropped new e =
      x.idEx.toList ++ x.ifId.toList ++ new.toList := by
  cases e <;> simp [behind, move, dropped]

/-- A step brings no other instruction into flight than the fetched one. -/
theorem behind_move :
    ((x.move new e).behind).Sublist (x.idEx.toList ++ x.ifId.toList ++ new.toList) := by
  rw [← behind_move_append_dropped x new e]
  exact List.sublist_append_left _ _

theorem inOrder_move_append_dropped :
    (x.move new e).inOrder ++ x.dropped new e = x.behind ++ new.toList := by
  rw [inOrder, memWb_move, append_assoc, behind_move_append_dropped]
  simp only [behind, append_assoc]

theorem inOrder_move : ((x.move new e).inOrder).Sublist (x.behind ++ new.toList) := by
  rw [← inOrder_move_append_dropped x new e]
  exact List.sublist_append_left _ _

end Slots

/-- What a stage does for an instruction, with the core in front of it and behind it. -/
inductive StageEvent (M : Type) where
  | writeback (n : Nat) (dt : MemoryInterstage) (before after : Core M)
  | memory (n : Nat) (dt : ExecuteInterstage) (before after : Core M)
  | fetch (n : Nat) (before after : Core M) (dt : FetchInterstage)
  | trap (n : Nat) (before after : Core M)
  | drop (n : Nat)

/-- The pipelined core with numbers for its instructions and a log. -/
structure Flight (M : Type) where
  machine : CorePipelined M
  slots : Slots
  next : Nat
  log : List (StageEvent M)

namespace Flight

def start (core : Core M) : Flight M :=
  ⟨CorePipelined.start core, ⟨none, none, none, none⟩, 0, []⟩

def written (f : Flight M) : Core M :=
  Core.writeback f.machine.pipeline.memWb f.machine.core.nextCycle

def accessed (cfg : CoreConfig) (f : Flight M) : Core M :=
  (Core.memory cfg f.machine.pipeline.exMem f.written).2

def fetched (cfg : CoreConfig) (skipBreak : Bool) (f : Flight M) : FetchInterstage × Core M :=
  Core.fetch cfg f.machine.pipeline.pcIf skipBreak (f.accessed cfg)

def new (f : Flight M) : Option Nat :=
  if f.machine.pipeline.pcIf.stopIf then none else some f.next

def ending (cfg : CoreConfig) (skipBreak : Bool) (f : Flight M) : EndKind :=
  endKind cfg (stages cfg skipBreak
    { f.machine with core := f.machine.core.nextCycle }).2.pipeline

def events (cfg : CoreConfig) (skipBreak : Bool) (f : Flight M) (core : Core M) :
    List (StageEvent M) :=
  f.slots.memWb.toList.map
      (fun n => .writeback n f.machine.pipeline.memWb f.machine.core.nextCycle f.written) ++
    f.slots.exMem.toList.map
      (fun n => .memory n f.machine.pipeline.exMem f.written (f.accessed cfg)) ++
    f.new.toList.map
      (fun n => .fetch n (f.accessed cfg) (f.fetched cfg skipBreak).2
        (f.fetched cfg skipBreak).1) ++
    (if f.ending cfg skipBreak = .exception then
      f.slots.exMem.toList.map fun n => .trap n (f.fetched cfg skipBreak).2 core else []) ++
    (f.slots.dropped f.new (f.ending cfg skipBreak)).map .drop

/-- The numbers and the log after a step that leaves the given state. -/
def advance (cfg : CoreConfig) (skipBreak : Bool) (f : Flight M) (s : CorePipelined M) :
    Flight M where
  machine := s
  slots := f.slots.move f.new (f.ending cfg skipBreak)
  next := if f.machine.pipeline.pcIf.stopIf then f.next else f.next + 1
  log := f.log ++ f.events cfg skipBreak s.core

inductive Moves (cfg : CoreConfig) : Flight M → Flight M → Prop where
  | step {f : Flight M} {s : CorePipelined M} (skipBreak : Bool)
      (hstep : CorePipelined.step cfg skipBreak f.machine = (.ok (), s)) :
      Moves cfg f (f.advance cfg skipBreak s)
  | interrupt (f : Flight M) (irqNum : Nat) (active : Bool) :
      Moves cfg f { f with machine := { f.machine with
        core := f.machine.core.setInterruptSignal irqNum active } }

def Reached (cfg : CoreConfig) (c : Core M) (f : Flight M) : Prop :=
  Relation.ReflTransGen (Moves cfg) (start c) f

variable {cfg : CoreConfig} {c : Core M} {s : CorePipelined M}

/-- Every run of the core is one with numbers. -/
theorem reached_of_reached (h : Hart.Reached cfg c s) : ∃ f, Reached cfg c f ∧ f.machine = s := by
  induction h with
  | refl => exact ⟨start c, .refl, rfl⟩
  | tail _ hmove ih =>
    obtain ⟨f, hf, rfl⟩ := ih
    cases hmove with
    | step skipBreak hstep => exact ⟨_, hf.tail (.step skipBreak hstep), rfl⟩
    | interrupt irqNum active => exact ⟨_, hf.tail (.interrupt f irqNum active), rfl⟩

variable {f : Flight M}

/-- The states of a run with numbers are those of a run of the core. -/
theorem Reached.machine (h : Reached cfg c f) : Hart.Reached cfg c f.machine := by
  induction h with
  | refl => exact .refl
  | tail _ hmove ih =>
    cases hmove with
    | step skipBreak hstep => exact ih.tail (.step skipBreak hstep)
    | interrupt irqNum active => exact ih.tail (.interrupt _ irqNum active)

/-! ### The stage registers after a step -/

/-- The registers that a step leaves, by its end: the instructions of `p` have moved on, the one of
IF/ID as the decoded `idEx` with other operands, and `new` is the fetched one. -/
inductive Landed (p : Pipeline) (new : FetchInterstage) (idEx : DecodeInterstage) (p' : Pipeline) :
    EndKind → Prop where
  | exception (hifId : p'.ifId = {}) (hidEx : p'.idEx = {}) (hexMem : p'.exMem = {}) :
      Landed p new idEx p' .exception
  | redirect (hifId : p'.ifId = {}) (hidEx : p'.idEx = {}) (hexMem : p'.exMem = {}) :
      Landed p new idEx p' .redirect
  | drainExecute (hifId : p'.ifId = {}) (hidEx : p'.idEx = {})
      (hexMem : p'.exMem = execute p.idEx) : Landed p new idEx p' .drainExecute
  | drainDecode {valRs valRt : RegisterValue} {ffRs ffRt : ForwardFrom} (hifId : p'.ifId = {})
      (hidEx : p'.idEx = withOperands idEx valRs valRt ffRs ffRt)
      (hexMem : p'.exMem = execute p.idEx) : Landed p new idEx p' .drainDecode
  | stall (hifId : p'.ifId = p.ifId) (hidEx : p'.idEx = {}) (hexMem : p'.exMem = execute p.idEx) :
      Landed p new idEx p' .stall
  | goOn {valRs valRt : RegisterValue} {ffRs ffRt : ForwardFrom} (hifId : p'.ifId = new)
      (hidEx : p'.idEx = withOperands idEx valRs valRt ffRs ffRt)
      (hexMem : p'.exMem = execute p.idEx) : Landed p new idEx p' .goOn

structure StepDone (cfg : CoreConfig) (skipBreak : Bool) (f : Flight M) (s : CorePipelined M)
    (memWb : MemoryInterstage) (idEx : DecodeInterstage) : Prop where
  memory : ∃ internal, Core.memory cfg f.machine.pipeline.exMem f.written =
    (.ok (memWb, internal), f.accessed cfg)
  decode : Core.decode cfg f.machine.pipeline.ifId (f.accessed cfg) = .ok idEx
  memWb : s.pipeline.memWb = memWb
  landed : Landed f.machine.pipeline (f.fetched cfg skipBreak).1 idEx s.pipeline
    (f.ending cfg skipBreak)

theorem takeException_pipeline {jumpBranchPc : Address} {s' : CorePipelined M}
    (h : takeException cfg jumpBranchPc s = (.ok (), s')) : s'.pipeline = s.pipeline := by
  unfold takeException at h
  dsimp only at h
  split at h
  next => cases h
  next =>
    split at h
    · cases h
      rfl
    · cases h

/-- The end of a step leaves the registers as `Landed` says. -/
theorem afterStages_landed {jumpBranchPc : Address} {p : Pipeline} {s s' : CorePipelined M}
    (hexMem : s.pipeline.exMem = execute p.idEx)
    (hend : afterStages cfg jumpBranchPc p.ifId s = (.ok (), s')) :
    s'.pipeline.memWb = s.pipeline.memWb ∧
      Landed p s.pipeline.ifId s.pipeline.idEx s'.pipeline (endKind cfg s.pipeline) := by
  have hcases := afterStages_end cfg jumpBranchPc p.ifId s
  rw [hend] at hcases
  obtain ⟨valRs, valRt, ffRs, ffRt, hfields⟩ := resolveHazards_fields cfg s.pipeline
  generalize houtcome : ((.ok (), s') : Outcome (CorePipelined M) Unit) = outcome at hcases
  cases hcases with
  | exception hexception =>
    have hsame := takeException_pipeline houtcome.symm
    rw [endKind, if_pos hexception, hsame]
    exact ⟨rfl, .exception rfl rfl rfl⟩
  | redirect hexception hredirect =>
    rw [endKind, if_neg (not_not.mpr hexception), if_pos hredirect]
    unfold flushAndContinueFromAddress at houtcome
    split at houtcome
    · cases houtcome
    · cases houtcome
      exact ⟨rfl, .redirect rfl rfl rfl⟩
  | drainExecute hexception hredirect hexecute =>
    rw [endKind, if_neg (not_not.mpr hexception), hredirect, if_neg Bool.false_ne_true,
      if_pos hexecute]
    cases houtcome
    exact ⟨rfl, .drainExecute rfl rfl hexMem⟩
  | drainDecode hexception hredirect hexecute hdecode =>
    rw [endKind, if_neg (not_not.mpr hexception), hredirect, if_neg Bool.false_ne_true,
      if_neg (not_not.mpr hexecute), if_pos hdecode]
    cases houtcome
    exact ⟨rfl, .drainDecode rfl hfields hexMem⟩
  | stall hexception hredirect hexecute hdecode hstall =>
    rw [endKind, if_neg (not_not.mpr hexception), hredirect, if_neg Bool.false_ne_true,
      if_neg (not_not.mpr hexecute), if_neg (not_not.mpr hdecode), if_pos hstall]
    cases houtcome
    exact ⟨rfl, .stall rfl rfl hexMem⟩
  | goOn hexception hredirect hexecute hdecode hstall =>
    rw [endKind, if_neg (not_not.mpr hexception), hredirect, if_neg Bool.false_ne_true,
      if_neg (not_not.mpr hexecute), if_neg (not_not.mpr hdecode), hstall,
      if_neg Bool.false_ne_true]
    unfold CorePipelined.goOn at houtcome
    dsimp only at houtcome
    split at houtcome
    · cases houtcome
    · cases houtcome
      exact ⟨rfl, .goOn rfl hfields hexMem⟩

theorem step_done {skipBreak : Bool} {f : Flight M} {s : CorePipelined M}
    (hstep : CorePipelined.step cfg skipBreak f.machine = (.ok (), s)) :
    ∃ memWb idEx, StepDone cfg skipBreak f s memWb idEx := by
  rw [CorePipelined.step, doStep_stages] at hstep
  split at hstep
  next => cases hstep
  next s₁ hstages =>
    have hending : f.ending cfg skipBreak = endKind cfg s₁.pipeline := by
      rw [ending, hstages]
    obtain ⟨⟨memWb, internal⟩, c, idEx, hmemory, hdecode, rfl⟩ := stages_ok hstages
    have haccessed : f.accessed cfg = c := congrArg Prod.snd hmemory
    subst haccessed
    obtain ⟨hmemWb, hlanded⟩ := @afterStages_landed M _ cfg _ f.machine.pipeline _ s rfl hstep
    rw [← hending] at hlanded
    exact ⟨memWb, idEx, ⟨internal, hmemory⟩, hdecode, hmemWb, hlanded⟩

/-! ### Properties of the instructions in flight -/

/-- Every instruction in flight has a property of its stage. -/
structure Occupied (fetch : Nat → FetchInterstage → Prop) (decode : Nat → DecodeInterstage → Prop)
    (execute : Nat → ExecuteInterstage → Prop) (memory : Nat → MemoryInterstage → Prop)
    (f : Flight M) : Prop where
  ifId : ∀ n, f.slots.ifId = some n → fetch n f.machine.pipeline.ifId
  idEx : ∀ n, f.slots.idEx = some n → decode n f.machine.pipeline.idEx
  exMem : ∀ n, f.slots.exMem = some n → execute n f.machine.pipeline.exMem
  memWb : ∀ n, f.slots.memWb = some n → memory n f.machine.pipeline.memWb

/-- Properties that every stage hands on hold for the instructions in flight after a step. -/
theorem Occupied.advance {skipBreak : Bool} {memWb : MemoryInterstage} {idEx : DecodeInterstage}
    {F : Nat → FetchInterstage → Prop} {D : Nat → DecodeInterstage → Prop}
    {E : Nat → ExecuteInterstage → Prop} {W : Nat → MemoryInterstage → Prop}
    (hdone : StepDone cfg skipBreak f s memWb idEx)
    (hfetch : ∀ n, f.new = some n → F n (f.fetched cfg skipBreak).1)
    (hhold : ∀ n, f.slots.ifId = some n → F n f.machine.pipeline.ifId)
    (hdecode : ∀ n, f.slots.ifId = some n → ∀ valRs valRt ffRs ffRt, D n (withOperands idEx valRs
      valRt ffRs ffRt))
    (hexecute : ∀ n, f.slots.idEx = some n → E n (Core.execute f.machine.pipeline.idEx))
    (hmemory : ∀ n, f.slots.exMem = some n → W n memWb) :
    Occupied F D E W (f.advance cfg skipBreak s) := by
  have hlanded := hdone.landed
  unfold Flight.advance
  generalize f.ending cfg skipBreak = e at hlanded ⊢
  have hmemory' : ∀ n, f.slots.exMem = some n → W n s.pipeline.memWb := by
    rw [hdone.memWb]
    exact hmemory
  cases hlanded with
  | exception hifId hidEx hexMem | redirect hifId hidEx hexMem =>
    exact ⟨fun n h => (nomatch h), fun n h => (nomatch h), fun n h => (nomatch h), hmemory'⟩
  | drainExecute hifId hidEx hexMem =>
    exact ⟨fun n h => (nomatch h), fun n h => (nomatch h), fun n h => hexMem ▸ hexecute n h,
      hmemory'⟩
  | drainDecode hifId hidEx hexMem =>
    exact ⟨fun n h => (nomatch h), fun n h => hidEx ▸ hdecode n h _ _ _ _,
      fun n h => hexMem ▸ hexecute n h, hmemory'⟩
  | stall hifId hidEx hexMem =>
    exact ⟨fun n h => hifId ▸ hhold n h, fun n h => (nomatch h),
      fun n h => hexMem ▸ hexecute n h, hmemory'⟩
  | goOn hifId hidEx hexMem =>
    exact ⟨fun n h => hifId ▸ hfetch n h, fun n h => hidEx ▸ hdecode n h _ _ _ _,
      fun n h => hexMem ▸ hexecute n h, hmemory'⟩

/-! ### The order of the instructions -/

/-- The instructions in flight are in the order of their fetches, and the log is behind them. -/
structure Ordered (f : Flight M) : Prop where
  slots : (f.slots.inOrder ++ [f.next]).Pairwise (· < ·)
  fetch : ∀ {n before after dt}, .fetch n before after dt ∈ f.log → n < f.next
  memory : ∀ {n dt before after}, .memory n dt before after ∈ f.log →
    ∀ m ∈ f.slots.behind ++ [f.next], n < m
  writeback : ∀ {n dt before after}, .writeback n dt before after ∈ f.log →
    ∀ m ∈ f.slots.inOrder ++ [f.next], n < m

omit [FrontendMemory M] in
theorem ordered_start (c : Core M) : Ordered (start c) where
  slots := List.pairwise_singleton _ _
  fetch h := nomatch h
  memory h := nomatch h
  writeback h := nomatch h

omit [FrontendMemory M] in
/-- The number that is given next. -/
theorem new_append (f : Flight M) :
    (f.new.toList ++ [if f.machine.pipeline.pcIf.stopIf then f.next else f.next + 1]).Pairwise
      (· < ·) ∧
    ∀ m ∈ f.new.toList ++ [if f.machine.pipeline.pcIf.stopIf then f.next else f.next + 1],
      f.next ≤ m := by
  unfold new
  cases f.machine.pipeline.pcIf.stopIf <;> simp

section Events

variable {skipBreak : Bool} {f : Flight M} {core : Core M} {n : Nat} {before after : Core M}

theorem fetch_mem_events {dt : FetchInterstage}
    (h : .fetch n before after dt ∈ f.events cfg skipBreak core) :
    f.new = some n ∧ before = f.accessed cfg ∧ after = (f.fetched cfg skipBreak).2 ∧
      dt = (f.fetched cfg skipBreak).1 := by
  simp only [events, List.mem_append, mem_map, Option.mem_toList] at h
  split at h <;> simpa [and_assoc, eq_comm] using h

theorem memory_mem_events {dt : ExecuteInterstage}
    (h : .memory n dt before after ∈ f.events cfg skipBreak core) :
    f.slots.exMem = some n ∧ dt = f.machine.pipeline.exMem ∧ before = f.written ∧
      after = f.accessed cfg := by
  simp only [events, List.mem_append, mem_map, Option.mem_toList] at h
  split at h <;> simpa [and_assoc, eq_comm] using h

theorem writeback_mem_events {dt : MemoryInterstage}
    (h : .writeback n dt before after ∈ f.events cfg skipBreak core) :
    f.slots.memWb = some n ∧ dt = f.machine.pipeline.memWb ∧ before = f.machine.core.nextCycle ∧
      after = f.written := by
  simp only [events, List.mem_append, mem_map, Option.mem_toList] at h
  split at h <;> simpa [and_assoc, eq_comm] using h

end Events

def nextNumber (f : Flight M) : Nat :=
  if f.machine.pipeline.pcIf.stopIf then f.next else f.next + 1

omit [FrontendMemory M] in
/-- The instructions behind the write-back stage, the fetched one and the next one are in order. -/
theorem Ordered.behind_next (h : Ordered f) :
    (f.slots.behind ++ (f.new.toList ++ [f.nextNumber])).Pairwise (· < ·) := by
  obtain ⟨hnew, hnext⟩ := new_append f
  have hbehind : (f.slots.behind ++ [f.next]).Pairwise (· < ·) := by
    have hslots := h.slots
    rw [Slots.inOrder, append_assoc] at hslots
    exact (List.pairwise_append.mp hslots).2.1
  refine List.pairwise_append.mpr ⟨(List.pairwise_append.mp hbehind).1, hnew, fun a ha b hb => ?_⟩
  have hlt := (List.pairwise_append.mp hbehind).2.2 a ha f.next List.mem_cons_self
  exact Nat.lt_of_lt_of_le hlt (hnext b hb)

theorem Ordered.advance {skipBreak : Bool} (h : Ordered f) (s : CorePipelined M) :
    Ordered (f.advance cfg skipBreak s) := by
  obtain ⟨hnew, hnext⟩ := new_append f
  have hall : (f.slots.behind ++ (f.new.toList ++
      [(f.advance cfg skipBreak s).next])).Pairwise (· < ·) := h.behind_next
  have hinOrder : ((f.advance cfg skipBreak s).slots.inOrder ++
      [(f.advance cfg skipBreak s).next]).Sublist
      (f.slots.behind ++ (f.new.toList ++ [(f.advance cfg skipBreak s).next])) := by
    rw [← append_assoc]
    exact (Slots.inOrder_move _ _ _).append_right _
  have hsub : ((f.advance cfg skipBreak s).slots.behind ++
      [(f.advance cfg skipBreak s).next]).Sublist
      (f.slots.idEx.toList ++ f.slots.ifId.toList ++ (f.new.toList ++
        [(f.advance cfg skipBreak s).next])) := by
    rw [← append_assoc]
    exact (Slots.behind_move _ _ _).append_right _
  -- what lies behind all instructions and the next number stays there
  have hold {n : Nat} (hn : ∀ m ∈ f.slots.behind ++ [f.next], n < m) :
      ∀ m ∈ f.slots.behind ++ (f.new.toList ++ [(f.advance cfg skipBreak s).next]), n < m := by
    intro m hm
    rcases List.mem_append.mp hm with hm | hm
    · exact hn m (List.mem_append_left _ hm)
    · exact Nat.lt_of_lt_of_le (hn _ (List.mem_append_right _ List.mem_cons_self)) (hnext m hm)
  refine ⟨hall.sublist hinOrder, fun hmem => ?_, fun hmem m hm => ?_, fun hmem m hm => ?_⟩
  · rcases List.mem_append.mp hmem with hlog | hevent
    · exact Nat.lt_of_lt_of_le (h.fetch hlog) (hnext _ (List.mem_append_right _ List.mem_cons_self))
    · have hn := (fetch_mem_events hevent).1
      rw [hn] at hnew
      exact List.rel_of_pairwise_cons hnew List.mem_cons_self
  · rcases List.mem_append.mp hmem with hlog | hevent
    · refine hold (h.memory hlog) m ?_
      have hm := hsub.subset hm
      rw [append_assoc] at hm
      rw [Slots.behind, append_assoc, append_assoc]
      exact List.mem_append_right _ hm
    · have hn := (memory_mem_events hevent).1
      rw [Slots.behind, hn, append_assoc, append_assoc] at hall
      rw [append_assoc] at hsub
      exact List.rel_of_pairwise_cons hall (hsub.subset hm)
  · rcases List.mem_append.mp hmem with hlog | hevent
    · refine hold (fun m hm => h.writeback hlog m ?_) m (hinOrder.subset hm)
      rw [Slots.inOrder, append_assoc]
      exact List.mem_append_right _ hm
    · have hn := (writeback_mem_events hevent).1
      have hslots := h.slots
      rw [Slots.inOrder, hn, append_assoc] at hslots
      exact hold (fun m hm => List.rel_of_pairwise_cons hslots hm) m (hinOrder.subset hm)

/-- In every run the instructions are in order. -/
theorem Reached.ordered (h : Reached cfg c f) : Ordered f := by
  induction h with
  | refl => exact ordered_start c
  | tail _ hmove ih =>
    cases hmove with
    | step skipBreak hstep => exact ih.advance _
    | interrupt irqNum active => exact ⟨ih.slots, ih.fetch, ih.memory, ih.writeback⟩

end Flight

end QtRvSim
