import QtRvSim.Core.ControlEffect
import QtRvSim.Core.Reset
import QtRvSim.Csr.Status

/-!
# Trap entry and return

A trap saves the privilege and the interrupt enable of its target mode in the status word and a
return brings them back.  A trap to supervisor mode is entered through `sstatus` and left through
`mstatus`; `StatusAgree` makes the two the same.
-/

namespace QtRvSim

open Csr ControlState Core Field.Mstatus

/-- Interrupt enable of a mode, in every register that has it. -/
def ieFields (toS : Bool) : List RegisterFieldDesc :=
  if toS then [Field.Mstatus.sie, Field.Sstatus.sie] else [Field.Mstatus.mie]

def pieFields (toS : Bool) : List RegisterFieldDesc :=
  if toS then [Field.Mstatus.spie, Field.Sstatus.spie] else [Field.Mstatus.mpie]

def ppFields (toS : Bool) : List RegisterFieldDesc :=
  if toS then [Field.Mstatus.spp, Field.Sstatus.spp] else [Field.Mstatus.mpp]

/-- What a trap to a mode and the return from it make of the status fields. -/
structure StatusRestored (toS : Bool) (before entered after : ControlState) : Prop where
  ie : ∀ f ∈ ieFields toS, after.readField f = before.readField f
  pie : ∀ f ∈ pieFields toS, after.readField f = 1
  pp : ∀ f ∈ ppFields toS, after.readField f = 0
  other : ∀ f ∈ ieFields (!toS) ++ pieFields (!toS) ++ ppFields (!toS),
    entered.readField f = before.readField f ∧ after.readField f = before.readField f

/-- The fields belong to the status registers. -/
theorem regId_of_mem_fields (toS : Bool) :
    ∀ f ∈ ieFields toS ++ pieFields toS ++ ppFields toS, f.regId ∈ [Csr.Id.mstatus, .sstatus] := by
  cases toS <;> simp [ieFields, pieFields, ppFields, sie, spie, spp, mie, mpie, mpp,
    Field.Sstatus.sie, Field.Sstatus.spie, Field.Sstatus.spp]

theorem StatusRestored.congr {toS : Bool} {before before' entered after : ControlState}
    (h : StatusRestored toS before entered after)
    (hbefore : ∀ id ∈ [Csr.Id.mstatus, .sstatus],
      before'.registerData id = before.registerData id) :
    StatusRestored toS before' entered after := by
  have hread (toS : Bool) (f : RegisterFieldDesc)
      (hf : f ∈ ieFields toS ++ pieFields toS ++ ppFields toS) :
      before'.readField f = before.readField f :=
    congrArg f.decode (hbefore f.regId (regId_of_mem_fields toS f hf))
  refine ⟨fun f hf => ?_, h.pie, h.pp, fun f hf => ?_⟩
  · rw [hread toS f (List.mem_append_left _ (List.mem_append_left _ hf))]
    exact h.ie f hf
  · rw [hread _ f hf]
    exact h.other f hf

namespace ControlState

variable {xlen : Xlen} {cs cs' : ControlState} {toS : Bool} {p : PrivilegeLevel}

/-- The privilege that a return restores. -/
theorem exceptionReturn_fst (h : StatusAgree xlen cs)
    (hp : toS = true → p = .supervisor ∨ p = .unprivileged)
    (hpp : ∀ i ∈ ppBits toS, cs.status i = (ppWord toS p).getLsbD i) (actPrivlev : PrivilegeLevel) :
    (cs.exceptionReturn xlen actPrivlev (targetPriv toS)).1 = p := by
  cases toS with
  | false =>
    have hbits : ∀ i < 32, mpp.mask.getLsbD i = true →
        mie.mask.getLsbD i = false ∧ mpie.mask.getLsbD i = false ∧
          i ∈ ppBits false := by decide
    have hread := writeFields_readField h mie mpie mpp
      (by cases xlen <;> decide) (by cases xlen <;> decide) (by cases xlen <;> decide)
      (cs.readField mpie) 1 fun i hi hbit =>
        ⟨(hbits i hi hbit).1, (hbits i hi hbit).2.1, hpp i (hbits i hi hbit).2.2⟩
    refine (congrArg (fun v : BitVec 64 => PrivilegeLevel.ofBits (v.setWidth 2)) hread).trans ?_
    cases p <;> rfl
  | true =>
    have hbits : ∀ i < 32, spp.mask.getLsbD i = true →
        sie.mask.getLsbD i = false ∧ spie.mask.getLsbD i = false ∧
          i ∈ ppBits true := by decide
    have hread := writeFields_readField h sie spie spp
      (by cases xlen <;> decide) (by cases xlen <;> decide) (by cases xlen <;> decide)
      (cs.readField spie) 1 fun i hi hbit =>
        ⟨(hbits i hi hbit).1, (hbits i hi hbit).2.1, hpp i (hbits i hi hbit).2.2⟩
    refine (congrArg (fun v : BitVec 64 =>
      if v &&& 1 = 1 then PrivilegeLevel.supervisor else .unprivileged) hread).trans ?_
    rcases hp rfl with rfl | rfl <;> decide

/-- A trap and the return from it restore the status word apart from the fields of the previous
state. -/
theorem returnStatus_trapStatus (bits : Nat → Bool) (i : Nat) :
    returnStatus toS (trapStatus toS p bits) i =
      if i ∈ ppBits toS then false else if i = pieBit toS then true else bits i := by
  have hpie : pieBit toS ∉ ppBits toS ∧ pieBit toS ≠ ieBit toS := by cases toS <;> decide
  refine ite_congr rfl (fun _ => rfl) fun hpp => ite_congr rfl (fun _ => rfl) fun hne => ?_
  by_cases hie : i = ieBit toS
  · rw [if_pos hie, trapStatus, if_neg hpie.1, if_neg hpie.2, if_pos rfl, hie]
  · rw [if_neg hie, trapStatus, if_neg hpp, if_neg hie, if_neg hne]

theorem isShownField_of_mem :
    ∀ f ∈ ieFields toS ++ pieFields toS ++ ppFields toS, IsShownField xlen f := by
  cases toS <;> cases xlen <;> decide

/-- A trap to a mode and the return from it. -/
theorem statusRestored (h : StatusAgree xlen cs)
    (hmstatus : cs'.registerData .mstatus =
      (cs.exceptionInitiate xlen p (targetPriv toS)).1.registerData .mstatus)
    (hagree : StatusAgree xlen cs') (actPrivlev : PrivilegeLevel) :
    StatusRestored toS cs (cs.exceptionInitiate xlen p (targetPriv toS)).1
      (cs'.exceptionReturn xlen actPrivlev (targetPriv toS)).2.1 := by
  have hinitiate : ∀ i < 32, (cs.exceptionInitiate xlen p (targetPriv toS)).1.status i =
    trapStatus toS p cs.status i := fun i hi => exceptionInitiate_status h p toS hi
  have hsame (i : Nat) : cs'.status i = (cs.exceptionInitiate xlen p (targetPriv toS)).1.status i :=
    congrArg (·.getLsbD i) hmstatus
  have hentered := h.exceptionInitiate p (targetPriv toS)
  obtain ⟨hafter, hreturn⟩ := exceptionReturn_status hagree actPrivlev toS
  change StatusAgree xlen (cs'.exceptionReturn xlen actPrivlev (targetPriv toS)).2.1 at hafter
  have hrestored : ∀ i < 32, i ≠ 17 →
      (cs'.exceptionReturn xlen actPrivlev (targetPriv toS)).2.1.status i =
        if i ∈ ppBits toS then false else if i = pieBit toS then true else cs.status i := by
    intro i hi hne
    have hpie : pieBit toS < 32 := by cases toS <;> decide
    rw [← @returnStatus_trapStatus toS p cs.status i]
    refine (hreturn i hi hne).trans ?_
    simp only [returnStatus, hsame, hinitiate _ hpie, hinitiate i hi]
  have hread {f : RegisterFieldDesc} (hf : f ∈ ieFields toS ++ pieFields toS ++ ppFields toS)
      {v : BitVec 64} := hafter.readField_eq (isShownField_of_mem f hf) (v := v)
  refine ⟨fun f hf => ?_, fun f hf => ?_, fun f hf => ?_, fun f hf => ?_⟩
  · have hbits : ∀ f ∈ ieFields toS, ∀ i < 32, f.mask.getLsbD i = true →
        i ≠ 17 ∧ i ∉ ppBits toS ∧ i ≠ pieBit toS := by cases toS <;> decide
    have hmem := List.mem_append_left (ppFields toS) (List.mem_append_left (pieFields toS) hf)
    rw [h.readField_eq (isShownField_of_mem f hmem) (v := cs.registerData .mstatus)
      fun _ _ _ => rfl]
    refine hread hmem fun i hi hbit => ?_
    obtain ⟨hne, hpp, hpie⟩ := hbits f hf i hi hbit
    rw [hrestored i hi hne, if_neg hpp, if_neg hpie]
    rfl
  · have hbits : ∀ f ∈ pieFields toS, f.decode (BitVec.allOnes 64) = 1 ∧ ∀ i < 32,
        f.mask.getLsbD i = true → i ≠ 17 ∧ i ∉ ppBits toS ∧ i = pieBit toS := by
      cases toS <;> decide
    rw [← (hbits f hf).1]
    refine hread (List.mem_append_left _ (List.mem_append_right _ hf)) fun i hi hbit => ?_
    obtain ⟨hne, hpp, hpie⟩ := (hbits f hf).2 i hi hbit
    rw [hrestored i hi hne, if_neg hpp, if_pos hpie, BitVec.getLsbD_allOnes,
      decide_eq_true (by omega)]
  · have hbits : ∀ f ∈ ppFields toS, f.decode 0 = 0 ∧ ∀ i < 32,
        f.mask.getLsbD i = true → i ≠ 17 ∧ i ∈ ppBits toS := by
      cases toS <;> decide
    rw [← (hbits f hf).1]
    refine hread (List.mem_append_right _ hf) fun i hi hbit => ?_
    obtain ⟨hne, hpp⟩ := (hbits f hf).2 i hi hbit
    rw [hrestored i hi hne, if_pos hpp]
    exact (BitVec.getLsbD_zero).symm
  · have hbits : ∀ f ∈ ieFields (!toS) ++ pieFields (!toS) ++ ppFields (!toS), ∀ i < 32,
        f.mask.getLsbD i = true →
          i ≠ 17 ∧ i ∉ ppBits toS ∧ i ≠ pieBit toS ∧ i ≠ ieBit toS := by
      cases toS <;> decide
    have hshown : IsShownField xlen f := isShownField_of_mem f hf
    rw [h.readField_eq hshown (v := cs.registerData .mstatus) fun _ _ _ => rfl]
    refine ⟨hentered.readField_eq hshown fun i hi hbit => ?_,
      hafter.readField_eq hshown fun i hi hbit => ?_⟩
    · obtain ⟨-, hpp, hpie, hie⟩ := hbits f hf i hi hbit
      rw [hinitiate i hi, trapStatus, if_neg hpp, if_neg hie, if_neg hpie]
      rfl
    · obtain ⟨hne, hpp, hpie, -⟩ := hbits f hf i hi hbit
      refine (hrestored i hi hne).trans ?_
      rw [if_neg hpp, if_neg hpie]
      rfl

end ControlState

variable {M : Type} [FrontendMemory M] {cfg : CoreConfig}

/-- An exception that is handed on and whose entry does not throw records a trap. -/
theorem TrapCall.handle_delivered {t : TrapCall M} (hdelivers : delivers cfg t.excause = true)
    (hok : (t.handle cfg).1.isOk = true) :
    (t.handle cfg).2.controlState = trapped cfg t.excause t.instAddr t.memRefAddr
        t.core.currentPrivilege t.core.controlState ∧
      (t.handle cfg).2.currentPrivilege =
        trappedPriv cfg t.excause t.core.currentPrivilege t.core.controlState := by
  have heffect := @handle_effect M _ cfg t
  generalize t.handle cfg = outcome at heffect hok ⊢
  cases heffect with
  | thrown => cases hok
  | stopped hstops =>
    rw [hdelivers] at hstops
    cases hstops
  | delivered => exact ⟨rfl, rfl⟩

structure ReturnsFrom (toS : Bool) (dt : ExecuteInterstage) : Prop where
  isValid : dt.isValid = true
  excause : dt.excause = .none
  xret : dt.xret = true
  xretPrivlev : dt.xretPrivlev = targetPriv toS
  csrWrite : dt.csrWrite = false

/-- A trap that is entered and the next return from its mode, with no write of a status register in
between, restore the privilege and the status fields. -/
theorem trap_return_restores {isaWord : ConfigIsaWord} {t : TrapCall M}
    (hwritten : t.core.controlState.Written cfg.xlen isaWord)
    (hdelivers : delivers cfg t.excause = true)
    (henters : entersTrap cfg t.excause t.toS t.core.controlState)
    (hok : (t.handle cfg).1.isOk = true)
    (horigin : t.core.currentPrivilege.toNat ≤ (targetPriv t.toS).toNat)
    (hhypervisor : t.core.currentPrivilege ≠ .hypervisor)
    {c c' : Core M} (hstatus : ∀ id ∈ [Csr.Id.mstatus, .sstatus],
      c.controlState.registerData id = (t.handle cfg).2.controlState.registerData id)
    {dt : ExecuteInterstage} (hdt : ReturnsFrom t.toS dt)
    {r : MemoryInterstage × MemoryInternalState} (hmemory : memory cfg dt c = (.ok r, c')) :
    (t.handle cfg).2.currentPrivilege = targetPriv t.toS ∧
      c'.currentPrivilege = t.core.currentPrivilege ∧
      StatusRestored t.toS t.core.controlState (t.handle cfg).2.controlState c'.controlState := by
  obtain ⟨hcontrol, hpriv⟩ := t.handle_delivered hdelivers hok
  have henters' : entersTrap cfg t.excause
      (deliverToS t.excause t.core.currentPrivilege t.core.controlState) t.core.controlState :=
    henters
  rw [trapped, if_pos henters'] at hcontrol
  rw [trappedPriv, if_pos henters'] at hpriv
  have htoS : deliverToS t.excause t.core.currentPrivilege t.core.controlState = t.toS := rfl
  rw [htoS] at hcontrol hpriv
  -- recording the trap leaves the status registers
  generalize hrecorded : (trapCsrUpdate cfg t.excause t.instAddr t.memRefAddr
    t.core.currentPrivilege t.toS t.core.controlState).1 = cs at hcontrol
  have hbefore : ∀ id ∈ [Csr.Id.mstatus, .sstatus],
      t.core.controlState.registerData id = cs.registerData id := by
    intro id hid
    rw [← hrecorded, trapCsrUpdate_frame]
    simp only [List.mem_cons, List.not_mem_nil, or_false] at hid
    rcases hid with rfl | rfl <;> decide
  have hagree : StatusAgree cfg.xlen cs := by
    have h := hwritten.statusAgree
    intro i hi hmask
    rw [status, ← hbefore .mstatus (by decide), ← hbefore .sstatus (by decide)]
    exact h i hi hmask
  -- the instruction is counted before it returns
  obtain ⟨cs₁, heffect, hcs₁⟩ : ∃ cs₁ : ControlState, (c'.controlState =
        (cs₁.exceptionReturn cfg.xlen c.currentPrivilege (targetPriv t.toS)).2.1 ∧
      c'.currentPrivilege =
        (cs₁.exceptionReturn cfg.xlen c.currentPrivilege (targetPriv t.toS)).1) ∧
      ∀ id ∈ [Csr.Id.mstatus, .sstatus], cs₁.registerData id =
        (cs.exceptionInitiate cfg.xlen t.core.currentPrivilege
          (targetPriv t.toS)).1.registerData id := by
    refine ⟨instructionCounted cfg c.controlState, ?_, fun id hid => ?_⟩
    · have heffect := memory_effect hmemory
      generalize r.1.csrWritten = written at heffect
      generalize c'.controlState = cs' at heffect ⊢
      generalize c'.currentPrivilege = p' at heffect ⊢
      cases heffect with
      | idle hidle => simp [hdt.isValid, hdt.excause] at hidle
      | count _ hxret => rw [hdt.xret] at hxret; cases hxret
      | xret _ _ hwrite =>
        cases hwrite with
        | skip => rw [← hdt.xretPrivlev]; exact ⟨rfl, rfl⟩
        | write hcsr => rw [hdt.csrWrite] at hcsr; cases hcsr
    · have hcounted := @runWriteHandler_other cfg.xlen c.controlState .minstret (by decide)
        (by decide) (c.controlState.registerData .minstret + 1)
      rw [← hcontrol, ← hstatus id hid]
      simp only [List.mem_cons, List.not_mem_nil, or_false] at hid
      rw [instructionCounted, incrementInternal, writeInternal_fst]
      rcases hid with rfl | rfl
      · exact hcounted.1
      · exact hcounted.2
  have hagree₁ : StatusAgree cfg.xlen cs₁ := by
    have h := hagree.exceptionInitiate t.core.currentPrivilege (targetPriv t.toS)
    intro i hi hmask
    rw [status, hcs₁ .mstatus (by decide), hcs₁ .sstatus (by decide)]
    exact h i hi hmask
  rw [heffect.1, heffect.2, hcontrol]
  refine ⟨hpriv, ?_⟩
  suffices h : (cs₁.exceptionReturn cfg.xlen c.currentPrivilege (targetPriv t.toS)).1 =
        t.core.currentPrivilege ∧
      StatusRestored t.toS cs
        (cs.exceptionInitiate cfg.xlen t.core.currentPrivilege (targetPriv t.toS)).1
        (cs₁.exceptionReturn cfg.xlen c.currentPrivilege (targetPriv t.toS)).2.1 from
    ⟨h.1, h.2.congr hbefore⟩
  have hmstatus := hcs₁ .mstatus (by decide)
  refine ⟨exceptionReturn_fst hagree₁ (fun htoS' => ?_) (fun i hi => ?_) _,
    statusRestored hagree hmstatus hagree₁ _⟩
  · rw [htoS'] at horigin
    cases hp : t.core.currentPrivilege with
    | unprivileged => exact .inr rfl
    | supervisor => exact .inl rfl
    | hypervisor => exact absurd hp hhypervisor
    | machine =>
      rw [hp] at horigin
      exact absurd horigin (by decide)
  · have hlow : ∀ toS, ∀ i ∈ ppBits toS, i < 32 := by decide
    refine (congrArg (·.getLsbD i) hmstatus).trans ?_
    refine (exceptionInitiate_status hagree t.core.currentPrivilege t.toS (hlow _ i hi)).trans ?_
    rw [trapStatus, if_pos hi]

/-- An interrupt in user mode, with a handler for machine mode at 0x100 and interrupts enabled. -/
def userInterrupt : TrapCall FlatMemory where
  excause := .intM
  inst := Instruction.nop
  instAddr := 0x200
  nextAddr := 0x204
  jumpBranchPc := 0
  memRefAddr := 0
  core :=
    { Core.reset (.rv32 .none) (.default false) (.ofWords 0x200 []) with
      controlState := (((ControlState.new ._32 ⟨0xffffffff⟩).runWriteHandler ._32 .mtvec
        0x100).1.runWriteHandler ._32 .mstatus 0x8).1
      currentPrivilege := .unprivileged }

/-- `mret` in front of the memory stage. -/
def mretInterstage : ExecuteInterstage :=
  { isValid := true, xret := true, xretPrivlev := .machine }

theorem trap_return_restores_interrupt :
    (userInterrupt.handle (.rv32 .none)).2.currentPrivilege = .machine ∧
      (memory (.rv32 .none) mretInterstage
        (userInterrupt.handle (.rv32 .none)).2).2.currentPrivilege = .unprivileged ∧
      StatusRestored false userInterrupt.core.controlState
        (userInterrupt.handle (.rv32 .none)).2.controlState
        (memory (.rv32 .none) mretInterstage
          (userInterrupt.handle (.rv32 .none)).2).2.controlState := by
  have hmemory : (memory (.rv32 .none) mretInterstage
      (userInterrupt.handle (.rv32 .none)).2).1.isOk = true := by decide +kernel
  generalize hresult : memory (.rv32 .none) mretInterstage
    (userInterrupt.handle (.rv32 .none)).2 = result at hmemory ⊢
  obtain ⟨result, core⟩ := result
  cases result with
  | error e => cases hmemory
  | ok r =>
    exact @trap_return_restores FlatMemory _ (.rv32 .none) ⟨0xffffffff⟩ userInterrupt
      (.write (.write .new .mtvec 0x100) .mstatus 0x8) (by decide) (by decide +kernel)
      (by decide +kernel) (by decide +kernel) (by decide) _ _ (fun _ _ => rfl) mretInterstage
      ⟨rfl, rfl, rfl, rfl, rfl⟩ _ hresult

end QtRvSim
