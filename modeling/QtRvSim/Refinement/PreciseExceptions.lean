import QtRvSim.Core.FlightLog
import QtRvSim.Refinement.AccessKind
import QtRvSim.Refinement.FetchEffect

/-!
# Precise exceptions

When the pipelined core calls `handle_exception` for an instruction, the instructions of the program
before it have passed all stages, and the ones behind it have been fetched at most.  A fetch counts
a cycle and marks a page as accessed, and the trap empties the pipeline.
-/

namespace QtRvSim

open Core CorePipelined Flight

variable {vm : VmSetup} {P : Type} [PhysicalMemory P] {cfg : CoreConfig}
  {c : Core (VirtualMemory vm P)}

namespace Flight

variable {f : Flight (VirtualMemory vm P)}

/-- The memory stage keeps what the operations of the core keep. -/
theorem accessed_sized (h : f.machine.core.mem.tlbProgram.Sized vm.xlen.pagingMode.rawBytes) :
    (f.accessed cfg).mem.tlbProgram.Sized vm.xlen.pagingMode.rawBytes := by
  have hwritten : f.written.mem = f.machine.core.mem := writeback_mem ..
  have hmemory := @MemRelation.memory _ _ _ _ _ (VirtualMemory.sized_stable (P := P) vm).relation
    cfg f.machine.pipeline.exMem f.written _ (.intro f.written ⟨rfl, hwritten ▸ h⟩)
  rw [accessed]
  generalize Core.memory cfg f.machine.pipeline.exMem f.written = x at hmemory ⊢
  generalize Core.memory cfg f.machine.pipeline.exMem (f.written.withMem f.written.mem) = y
    at hmemory
  obtain ⟨_, ⟨hmem⟩⟩ := hmemory
  exact hmem.2

/-- Every fetch of a run has the effect of a fetch only. -/
theorem Reached.fetchEffect (h : Reached cfg c f)
    (hsized : c.mem.tlbProgram.Sized vm.xlen.pagingMode.rawBytes) (skipBreak : Bool) {n : Nat}
    {before after : Core (VirtualMemory vm P)} {dt : FetchInterstage}
    (hfetch : .fetch n before after dt ∈ f.log ++ f.stageEvents cfg skipBreak) :
    FetchEffect before after := by
  have hevents {f : Flight (VirtualMemory vm P)} (hrun : Reached cfg c f) {skipBreak : Bool}
      {core : Core (VirtualMemory vm P)}
      (hevent : .fetch n before after dt ∈ f.events cfg skipBreak core) :
      FetchEffect before after := by
    obtain ⟨-, rfl, rfl, -⟩ := fetch_mem_events hevent
    exact QtRvSim.fetchEffect cfg _ skipBreak
      (accessed_sized ((VirtualMemory.sized_stable vm).reached_pipelined hrun.machine hsized))
  rcases List.mem_append.mp hfetch with hlog | hevent
  · induction h with
    | refl => cases hlog
    | @tail f f' hrun hmove ih =>
      cases hmove with
      | interrupt irqNum active => exact ih (List.mem_append_left _ hlog) hlog
      | step skipBreak hstep =>
        rcases List.mem_append.mp hlog with hlog | hevent
        · exact ih (List.mem_append_left _ hlog) hlog
        · exact hevents hrun hevent
  · exact hevents h (mem_events_of_stageEvents hevent f.machine.core)

variable (cfg c) in
/-- The call `t` of `handle_exception` for the instruction with number `n` is precise. -/
structure Precise (skipBreak : Bool) (f : Flight (VirtualMemory vm P)) (n : Nat)
    (t : TrapCall (VirtualMemory vm P)) : Prop where
  -- the instruction is in the memory stage, and the call gets the core that the log explains
  slot : f.slots.exMem = some n
  address : t.instAddr = resumeAddress cfg c.regs.pc f.log
  explained : Explained c (f.log ++ f.stageEvents cfg skipBreak) t.core
  -- the instructions that have passed the memory stage are those of the program up to this one
  program : FollowsProgram cfg c.regs.pc (f.log ++ f.stageEvents cfg skipBreak)
  -- the ones before it are older and have passed the write-back stage too
  older : ∀ m, Accesses f.log m →
    m < n ∧ WritesBack (f.log ++ f.stageEvents cfg skipBreak) m
  -- what else was fetched before it was given up
  others : ∀ m < n, Fetches f.log m → Accesses f.log m ∨ Drops f.log m
  -- younger instructions have been fetched at most
  younger : ∀ m, n < m → ¬Accesses (f.log ++ f.stageEvents cfg skipBreak) m ∧
    ¬WritesBack (f.log ++ f.stageEvents cfg skipBreak) m
  fetches : ∀ m before after dt,
    .fetch m before after dt ∈ f.log ++ f.stageEvents cfg skipBreak → FetchEffect before after
  marks : ∀ [FlatPhysical P] m before after dt,
    .fetch m before after dt ∈ f.log ++ f.stageEvents cfg skipBreak → ∀ x,
      FlatPhysical.bytes after.mem.mem x = FlatPhysical.bytes before.mem.mem x ∨
        after.mem.tlbProgram.LeafAt x ∧ FlatPhysical.bytes after.mem.mem x =
          FlatPhysical.bytes before.mem.mem x ||| adMask .read
  -- none of them is left when the handler is fetched
  flushed : ∀ s, CorePipelined.step cfg skipBreak f.machine = (.ok (), s) →
    (f.advance cfg skipBreak s).slots.behind = [] ∧ s.pipeline.pcIf.stopIf = false

/-- The trap empties the pipeline. -/
theorem flushed_of_exception {skipBreak : Bool} {s : CorePipelined (VirtualMemory vm P)}
    (hending : f.ending cfg skipBreak = .exception)
    (hstep : CorePipelined.step cfg skipBreak f.machine = (.ok (), s)) :
    (f.advance cfg skipBreak s).slots.behind = [] ∧ s.pipeline.pcIf.stopIf = false := by
  refine ⟨?_, ?_⟩
  · show (f.slots.move f.new (f.ending cfg skipBreak)).behind = []
    rw [hending]
    rfl
  · obtain ⟨r, d, core, hdone⟩ := step_stepped hstep
    have hexcause : r.1.excause ≠ .none :=
      (ending_eq_exception_iff hstep hdone.memory).mp hending
    cases hdone.ended with
    | exception _ _ _ _ hpcIf => rw [hpcIf]
    | redirect hnone | drainExecute hnone | drainDecode hnone | stall hnone | goOn hnone =>
      exact absurd hnone hexcause

end Flight

/-- A core in front of `addi x5, x0, 1; ecall; addi x6, x0, 1`. -/
def ecallCore : Core (VirtualMemory smallVm FlatMemory) :=
  .reset (.rv64 .stallForward) (.default false)
    ⟨emptyTlb, emptyTlb, .ofWords 0x200 [0x00100293, 0x00000073, 0x00100313]⟩

end QtRvSim
