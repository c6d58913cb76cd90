import QtRvSim.Core.CsrInvariant
import QtRvSim.Core.Reset

/-!
# Registers of a trap

A trap is delivered to machine or to supervisor mode, and each mode has its own registers for the
address, the cause and the value of a trap.  The cause goes to the register of the mode the trap
comes from unless it is delegated, so only delegated traps and traps from machine mode are recorded
where their handler looks.
-/

namespace QtRvSim

open Csr ControlState Core ByteMemory RegisterValue
open List (mem_cons not_mem_nil)

namespace Core

def epcId (toS : Bool) : Csr.Id := if toS then .sepc else .mepc

def tvalId (toS : Bool) : Csr.Id := if toS then .stval else .mtval

def causeId (toS : Bool) : Csr.Id := if toS then .scause else .mcause

/-- The register for the cause that the exception entry writes. -/
def writtenCauseId (toS : Bool) (originPriv : PrivilegeLevel) : Csr.Id :=
  causeId (toS || originPriv != .machine)

end Core

namespace ControlState

def PendingFor (cs : ControlState) (toS : Bool) (irqNum : Nat) : Prop :=
  (cs.registerData (if toS then .sip else .mip)).getLsbD irqNum = true ∧
    (cs.registerData (if toS then .sie else .mie)).getLsbD irqNum = true

def interruptFlag : Xlen → Nat
  | ._32 => 31
  | ._64 => 63

def interruptNumber (xlen : Xlen) (value : RegisterValue) : Nat :=
  (value &&& ~~~(1#64 <<< interruptFlag xlen)).toNat

/-- A cause register names the exception, or an interrupt that is pending and enabled for the mode
if there is one. -/
def NamesCause (cs : ControlState) (xlen : Xlen) (toS : Bool) (excause : ExceptionCause)
    (value : RegisterValue) : Prop :=
  if excause = .intM ∨ excause = .intS then
    value.getLsbD (interruptFlag xlen) = true ∧
      ((∃ irqNum, cs.PendingFor toS irqNum) → cs.PendingFor toS (interruptNumber xlen value))
  else value = BitVec.ofNat 64 excause.toNat

/-- The interrupt enable registers only have bits that can be written. -/
def WithinMask (cs : ControlState) : Prop :=
  ∀ id ∈ [Id.mie, .sie], cs.registerData id &&& ~~~(registers id).writeMask = 0

/-- Writing never leaves the masks. -/
theorem withinMask_stable (xlen : Xlen) : StableCsr xlen WithinMask where
  write id value cs h other hother := by
    have hkeep : other ≠ .cycle ∧ other ≠ .mstatus ∧ other ≠ .sstatus ∧
        (registers other).writeHandler = .defaultWlrl := by
      simp only [mem_cons, not_mem_nil, or_false] at hother
      rcases hother with rfl | rfl <;> decide
    obtain ⟨hcycle, hmstatus, hsstatus, hhandler⟩ := hkeep
    by_cases hid : other = id
    · subst hid
      have hold := h other hother
      simp only [runWriteHandler, hhandler, set_registerData, if_true]
      ext i hi
      have hbit := congrArg (fun v : BitVec 64 => v.getLsbD i) hold
      cases xlen <;> simp [defaultWlrlValue, hi] at hbit ⊢ <;> grind
    · rw [runWriteHandler_frame value hid hcycle hmstatus hsstatus]
      exact h other hother
  cause toPrivlev value cs h other hother := by
    have hne : other ≠ (if toPrivlev = .machine then Id.mcause else .scause) := by
      simp only [mem_cons, not_mem_nil, or_false] at hother
      rcases hother with rfl | rfl <;> split <;> decide
    rw [set_registerData, if_neg hne]
    exact h other hother
  interrupt irqNum active cs h other hother := by
    have hne : other ≠ .mip ∧ other ≠ .sip := by
      simp only [mem_cons, not_mem_nil, or_false] at hother
      rcases hother with rfl | rfl <;> decide
    unfold setInterruptSignal
    split
    · exact h other hother
    · simp only [set_registerData, if_neg hne.1, if_neg hne.2]
      exact h other hother

theorem withinMask_new (xlen : Xlen) (isaWord : ConfigIsaWord) : WithinMask (new xlen isaWord) := by
  intro id hid
  have hzero : (new xlen isaWord).registerData id = 0 := by
    simp only [mem_cons, not_mem_nil, or_false] at hid
    rcases hid with rfl | rfl <;> cases xlen <;>
      simp [new, reset, writeFieldRaw, registers, Field.Mstatus.uxl, Field.Mstatus.sxl]
  rw [hzero]
  exact BitVec.zero_and

/-- A register that can be written whole takes the value on XLEN bits. -/
theorem defaultWlrlValue_full {desc : RegisterDesc} (hmask : desc.writeMask = BitVec.allOnes 64)
    (xlen : Xlen) (reg val : RegisterValue) :
    defaultWlrlValue xlen desc reg val = val.asXlen xlen := by
  cases xlen with
  | _32 =>
    simp only [defaultWlrlValue, hmask, BitVec.and_allOnes, BitVec.not_allOnes, BitVec.and_zero,
      BitVec.or_zero, asXlen, asU32]
    ext i hi
    simp only [BitVec.getElem_and, BitVec.getElem_setWidth, BitVec.getLsbD_setWidth]
    rw [show (0xffffffff : BitVec 64) = (BitVec.allOnes 32).setWidth 64 from rfl,
      BitVec.getElem_setWidth, BitVec.getLsbD_allOnes, BitVec.getLsbD_eq_getElem hi,
      Bool.and_comm]
  | _64 =>
    simp only [defaultWlrlValue, hmask, BitVec.and_allOnes, BitVec.not_allOnes, BitVec.and_zero,
      BitVec.or_zero, asXlen]

theorem lowestSetBit_spec {irqs : BitVec 64} (hirqs : irqs ≠ 0) :
    irqs.getLsbD (lowestSetBit irqs) = true := by
  unfold lowestSetBit
  split
  next i hfind => exact List.find?_some hfind
  next hfind =>
    -- a word without a set bit is zero
    refine absurd (BitVec.eq_of_getLsbD_eq fun i hi => ?_) hirqs
    have hbit := List.find?_eq_none.mp hfind i (List.mem_range.mpr hi)
    simpa using hbit

variable {cs : ControlState} {toS : Bool}

/-- An enabled interrupt has one of the low numbers. -/
theorem WithinMask.enabled_lt (hmask : cs.WithinMask) {i : Nat}
    (hi : (cs.registerData (if toS then .sie else .mie)).getLsbD i = true) : i < 24 := by
  have hmem : (if toS then Id.sie else .mie) ∈ [Id.mie, .sie] := by cases toS <;> decide
  have hbit := congrArg (fun v : BitVec 64 => v.getLsbD i) (hmask _ hmem)
  have hlt : i < 64 := BitVec.lt_of_getLsbD hi
  simp only [BitVec.getLsbD_and, BitVec.getLsbD_not, hi, hlt, decide_true, Bool.true_and,
    BitVec.ofNat_eq_ofNat, BitVec.getLsbD_zero, Bool.not_eq_false'] at hbit
  have hbound : ∀ j < 64, ∀ toS : Bool,
      (registers (if toS then .sie else .mie)).writeMask.getLsbD j = true → j < 24 := by decide
  exact hbound i hlt toS hbit

def pendingIrqs (cs : ControlState) (toS : Bool) : BitVec 64 :=
  cs.registerData (if toS then .sie else .mie) &&& cs.registerData (if toS then .sip else .mip) &&&
    0xffffffff

theorem exceptionCauseValue_interrupt (cs : ControlState) (xlen : Xlen) {excause : ExceptionCause}
    (hint : excause = .intM ∨ excause = .intS) {privilege : PrivilegeLevel}
    (hprivilege : privilege = .supervisor ↔ toS = true) :
    exceptionCauseValue xlen excause privilege cs =
      BitVec.ofNat 64 (if cs.pendingIrqs toS ≠ 0 then lowestSetBit (cs.pendingIrqs toS) else 0) |||
        1#64 <<< interruptFlag xlen := by
  have hnot : ¬(excause ≠ .intM ∧ excause ≠ .intS) := by tauto
  unfold exceptionCauseValue
  rw [if_neg hnot]
  cases toS with
  | true =>
    rw [if_pos (hprivilege.mpr rfl)]
    cases xlen <;> rfl
  | false =>
    rw [if_neg (fun h => by simpa using hprivilege.mp h)]
    cases xlen <;> rfl

theorem WithinMask.pending_iff (hmask : cs.WithinMask) (toS : Bool) (i : Nat) :
    (cs.pendingIrqs toS).getLsbD i = true ↔ cs.PendingFor toS i := by
  have hlow : ∀ k < 24, (0xffffffff : BitVec 64).getLsbD k = true := by decide
  unfold pendingIrqs PendingFor
  rw [BitVec.getLsbD_and, BitVec.getLsbD_and, Bool.and_eq_true, Bool.and_eq_true]
  constructor
  · intro h
    exact ⟨h.1.2, h.1.1⟩
  · intro h
    exact ⟨⟨h.2, h.1⟩, hlow i (hmask.enabled_lt h.2)⟩

/-- The cause value names the cause for the mode whose registers it is computed from. -/
theorem namesCause_exceptionCauseValue (hmask : cs.WithinMask) (xlen : Xlen)
    (excause : ExceptionCause) {privilege : PrivilegeLevel}
    (hprivilege : privilege = .supervisor ↔ toS = true) :
    cs.NamesCause xlen toS excause (exceptionCauseValue xlen excause privilege cs) := by
  unfold NamesCause
  by_cases hint : excause = .intM ∨ excause = .intS
  case neg =>
    rw [if_neg hint]
    exact if_pos (not_or.mp hint)
  rw [if_pos hint, exceptionCauseValue_interrupt cs xlen hint hprivilege]
  constructor
  · cases xlen <;> simp [interruptFlag]
  · rintro ⟨j, hj⟩
    -- the interrupt that is pending makes the word nonzero
    have hne : cs.pendingIrqs toS ≠ 0 := by
      intro hzero
      have hbit := (hmask.pending_iff toS j).mpr hj
      rw [hzero] at hbit
      simp at hbit
    have hset := (hmask.pending_iff toS _).mp (lowestSetBit_spec hne)
    have hnumber : ∀ k < 24,
        interruptNumber xlen (BitVec.ofNat 64 k ||| 1#64 <<< interruptFlag xlen) = k := by
      cases xlen <;> decide
    rw [if_pos hne, hnumber _ (hmask.enabled_lt hset.2)]
    exact hset

end ControlState

namespace Core

variable {cfg : CoreConfig} (excause : ExceptionCause) (instAddr memRefAddr : Address)

/-- The registers that the recording of a trap assigns, in order. -/
theorem trapCsrUpdate_written (originPriv : PrivilegeLevel) (toS : Bool) (cs : ControlState) :
    (trapCsrUpdate cfg excause instAddr memRefAddr originPriv toS cs).2.map Prod.fst =
      [epcId toS, tvalId toS, writtenCauseId toS originPriv] := by
  cases toS with
  | true => rfl
  | false => cases originPriv <;> rfl

/-- The six trap registers after a trap has been recorded. -/
theorem trapCsrUpdate_registerData (originPriv : PrivilegeLevel) (toS : Bool) (cs : ControlState)
    (id : Csr.Id) :
    (trapCsrUpdate cfg excause instAddr memRefAddr originPriv toS cs).1.registerData id =
      if id = writtenCauseId toS originPriv then
        exceptionCauseValue cfg.xlen excause (if toS then .supervisor else originPriv) cs
      else if id = tvalId toS then
        (if hasFaultAddress excause then memRefAddr else 0 : RegisterValue).asXlen cfg.xlen
      else if id = epcId toS then asXlen cfg.xlen instAddr
      else cs.registerData id := by
  have hepc : registers (epcId toS) =
      { address := (registers (epcId toS)).address } := by cases toS <;> rfl
  have htval : registers (tvalId toS) =
      { address := (registers (tvalId toS)).address } := by cases toS <;> rfl
  have hwrite (id other : Csr.Id) (value : RegisterValue) (cs : ControlState)
      (hid : registers id = { address := (registers id).address }) :
      (cs.writeInternal cfg.xlen id value).1.registerData other =
        if other = id then value.asXlen cfg.xlen else cs.registerData other := by
    rw [writeInternal_fst, runWriteHandler, hid]
    dsimp only
    rw [set_registerData, defaultWlrlValue_full rfl]
  have hcause (cs' : ControlState)
      (hkeep : ∀ other ∈ [Id.sie, .sip, .mie, .mip], cs'.registerData other = cs.registerData other)
      (privilege : PrivilegeLevel) :
      exceptionCauseValue cfg.xlen excause privilege cs' =
        exceptionCauseValue cfg.xlen excause privilege cs := by
    simp only [exceptionCauseValue, hkeep .sie (by decide), hkeep .sip (by decide),
      hkeep .mie (by decide), hkeep .mip (by decide)]
  have hid : (if (if toS then PrivilegeLevel.supervisor else originPriv) = .machine then Id.mcause
      else .scause) = writtenCauseId toS originPriv := by
    cases toS <;> cases originPriv <;> rfl
  have htwo : ∀ other, (andThen (cs.writeInternal cfg.xlen (epcId toS) instAddr)
      (writeInternal cfg.xlen (tvalId toS)
        (if hasFaultAddress excause then memRefAddr else 0))).1.registerData other =
      if other = tvalId toS then
        (if hasFaultAddress excause then memRefAddr else 0 : RegisterValue).asXlen cfg.xlen
      else if other = epcId toS then asXlen cfg.xlen instAddr
      else cs.registerData other := by
    intro other
    rw [andThen_fst, hwrite _ _ _ _ htval, hwrite _ _ _ _ hepc]
  unfold trapCsrUpdate
  dsimp only
  rw [andThen_fst, updateExceptionCause]
  dsimp only
  rw [set_registerData, hid]
  refine if_congr Iff.rfl (hcause _ ?_ _) (htwo id)
  intro other hother
  refine (htwo other).trans ?_
  have hne : other ≠ tvalId toS ∧ other ≠ epcId toS := by
    simp only [mem_cons, not_mem_nil, or_false] at hother
    rcases hother with rfl | rfl | rfl | rfl <;> cases toS <;> decide
  rw [if_neg hne.1, if_neg hne.2]

/-- Entering a trap leaves the registers that record it. -/
theorem trapped_registerData (privilege : PrivilegeLevel) (cs : ControlState) {id : Csr.Id}
    (hid : id ∉ [Id.cycle, .mstatus, .sstatus]) :
    (trapped cfg excause instAddr memRefAddr privilege cs).registerData id =
      (trapCsrUpdate cfg excause instAddr memRefAddr privilege
        (deliverToS excause privilege cs) cs).1.registerData id := by
  simp only [mem_cons, not_mem_nil, or_false, not_or] at hid
  unfold trapped
  dsimp only
  split
  · exact exceptionInitiate_frame _ _ hid.1 hid.2.1 hid.2.2
  · rfl

end Core

namespace TrapCall

variable {M : Type} [FrontendMemory M] {cfg : CoreConfig}

/-- The registers for which the exception entry signals a write when it records the trap. -/
def writtenRegisters (cfg : CoreConfig) (t : TrapCall M) : List Csr.Id :=
  (trapCsrUpdate cfg t.excause t.instAddr t.memRefAddr t.core.currentPrivilege t.toS
    t.core.controlState).2.map Prod.fst

/-- The trap is recorded in the registers of its target mode and in no register of the other
mode. -/
structure RecordsTrap (cfg : CoreConfig) (t : TrapCall M) : Prop where
  epcWritten : epcId t.toS ∈ t.writtenRegisters cfg
  causeWritten : causeId t.toS ∈ t.writtenRegisters cfg
  epc : (t.handle cfg).2.controlState.registerData (epcId t.toS) =
    RegisterValue.asXlen cfg.xlen t.instAddr
  cause : t.core.controlState.NamesCause cfg.xlen t.toS t.excause
    ((t.handle cfg).2.controlState.registerData (causeId t.toS))
  other : ∀ id ∈ [epcId (!t.toS), causeId (!t.toS), tvalId (!t.toS)],
    (t.handle cfg).2.controlState.registerData id = t.core.controlState.registerData id

/-- The trap registers after the exception entry. -/
theorem handle_registerData {t : TrapCall M} (hillegal : t.excause ≠ .insnIllegal)
    (hbreak : t.excause ≠ .hwbreak) {id : Csr.Id} (hid : id ∉ [Id.cycle, .mstatus, .sstatus]) :
    (t.handle cfg).2.controlState.registerData id =
      (trapCsrUpdate cfg t.excause t.instAddr t.memRefAddr t.core.currentPrivilege t.toS
        t.core.controlState).1.registerData id := by
  rw [(handle_deliver hillegal hbreak).1]
  exact trapped_registerData _ _ _ _ _ hid

omit [FrontendMemory M] in
/-- The cause register that is written is the one of the target mode. -/
theorem writtenCauseId_eq_iff (t : TrapCall M) :
    writtenCauseId t.toS t.core.currentPrivilege = causeId t.toS ↔
      (t.toS = true ∨ t.core.currentPrivilege = .machine) := by
  cases t.toS <;> cases t.core.currentPrivilege <;> decide

/-- Exactly the delegated traps and the traps from machine mode are recorded in the registers of
their target mode. -/
theorem recordsTrap_iff (cfg : CoreConfig) (t : TrapCall M) (hillegal : t.excause ≠ .insnIllegal)
    (hbreak : t.excause ≠ .hwbreak) (hmask : t.core.controlState.WithinMask) :
    t.RecordsTrap cfg ↔ (t.toS = true ∨ t.core.currentPrivilege = .machine) := by
  have hwritten : t.writtenRegisters cfg =
      [epcId t.toS, tvalId t.toS, writtenCauseId t.toS t.core.currentPrivilege] :=
    trapCsrUpdate_written _ _ _ _ _ _
  have hregister (id : Csr.Id) (hid : id ∉ [Id.cycle, .mstatus, .sstatus]) :=
    (@handle_registerData M _ cfg t hillegal hbreak id hid).trans
      (trapCsrUpdate_registerData _ _ _ _ _ _ _)
  rw [← writtenCauseId_eq_iff]
  constructor
  · intro h
    have hcause := h.causeWritten
    rw [hwritten] at hcause
    revert hcause
    cases t.toS <;> cases t.core.currentPrivilege <;> decide
  · intro hcause
    have hmode : (if t.toS then PrivilegeLevel.supervisor else t.core.currentPrivilege) =
        .supervisor ↔ t.toS = true := by
      revert hcause
      cases t.toS <;> cases t.core.currentPrivilege <;> decide
    refine ⟨?_, ?_, ?_, ?_, ?_⟩
    · rw [hwritten]
      exact List.mem_cons_self
    · rw [hwritten, hcause]
      simp
    · rw [hregister _ (by cases t.toS <;> decide), hcause]
      cases t.toS <;> rfl
    · rw [hregister _ (by cases t.toS <;> decide), hcause, if_pos rfl]
      exact namesCause_exceptionCauseValue hmask _ _ hmode
    · intro id hid
      rw [hregister id (by revert hid; cases t.toS <;> revert id <;> decide), hcause]
      revert hid
      cases t.toS <;> intro hid <;>
        simp only [mem_cons, not_mem_nil, or_false] at hid <;>
        rcases hid with rfl | rfl | rfl <;> rfl

end TrapCall

/-- In every run from reset the interrupt enable registers stay within their masks. -/
theorem withinMask_reached {M : Type} [FrontendMemory M] (cfg : CoreConfig)
    (predictor : BranchPredictor) (mem : M) :
    (∀ s : CoreSingle M, Hart.Reached cfg (.reset cfg predictor mem) s →
        s.core.controlState.WithinMask) ∧
      ∀ s : CorePipelined M, Hart.Reached cfg (.reset cfg predictor mem) s →
        s.core.controlState.WithinMask :=
  ⟨fun _ hrun => (withinMask_stable cfg.xlen).reached hrun (withinMask_new _ _),
    fun _ hrun => (withinMask_stable cfg.xlen).reached hrun (withinMask_new _ _)⟩

/-- A new core whose program returns to user mode at address 0 and makes a call there. -/
def userCallCore : Core FlatMemory :=
  .reset (.rv64 .none) (.default false)
    ((FlatMemory.ofWords 0x200 [0x30200073]).writeBytes 0 (bytesOfValue .little 4 0x73))

/-- The call from machine mode that the program would make without the return. -/
def machineCall : TrapCall FlatMemory where
  excause := .ecallM
  inst := 0x73
  instAddr := 0x200
  nextAddr := 0x204
  jumpBranchPc := 0
  memRefAddr := 0
  core := userCallCore

theorem recordsTrap_machineCall : machineCall.RecordsTrap (.rv64 .none) :=
  (TrapCall.recordsTrap_iff (.rv64 .none) machineCall (by decide) (by decide)
    (withinMask_new _ _)).mpr (.inr rfl)

def userCallState : CoreSingle FlatMemory :=
  (CoreSingle.step (.rv64 .none) false (.start userCallCore)).2

/-- A call from user mode is delivered to machine mode, but its cause goes to `scause`. -/
theorem userCall_not_recorded :
    Hart.Reached (.rv64 .none) userCallCore userCallState ∧
      ∃ t, CoreSingle.trapCall (.rv64 .none) false userCallState = some t ∧
        t.excause = .ecallU ∧ t.toS = false ∧ ¬t.RecordsTrap (.rv64 .none) := by
  constructor
  · have hok : (CoreSingle.step (.rv64 .none) false (.start userCallCore)).1.isOk = true := by
      decide +kernel
    exact .single (.step false (Hart.step_of_isOk hok))
  · have hcall : (CoreSingle.trapCall (.rv64 .none) false userCallState).map
        (fun t => (t.excause, t.toS, t.core.currentPrivilege)) =
        some (.ecallU, false, .unprivileged) := by decide +kernel
    obtain ⟨t, ht, hfields⟩ := Option.map_eq_some_iff.mp hcall
    simp only [Prod.mk.injEq] at hfields
    obtain ⟨hexcause, htoS, hprivilege⟩ := hfields
    refine ⟨t, ht, hexcause, htoS, ?_⟩
    intro hrecords
    have hcause := hrecords.causeWritten
    rw [TrapCall.writtenRegisters, trapCsrUpdate_written, htoS, hprivilege] at hcause
    revert hcause
    decide

end QtRvSim
