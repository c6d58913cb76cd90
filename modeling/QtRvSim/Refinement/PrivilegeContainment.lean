import QtRvSim.Core.CsrInvariant
import QtRvSim.Core.Reset
import QtRvSim.Core.StageOrigin
import QtRvSim.Refinement.Operands

/-!
# Containment of user and supervisor mode

The privilege rises only where a trap is entered.  A step in user or supervisor mode leaves every
CSR of a higher mode, apart from the counters and the bits of `mstatus` that `sstatus` shows, unless
it takes a trap.  A trap that is recorded but not entered is the one way around: it writes the
registers of its target mode and the program goes on without having left its own mode.
-/

namespace QtRvSim

open Csr ControlState Core ByteMemory BitVec PrivilegeLevel RegisterFieldDesc Field.Mstatus
  CoreConfig CoreSingle

/-- The lowest privilege that may access a CSR. -/
def requiredPriv (id : Csr.Id) : PrivilegeLevel :=
  (registers id).address.getPrivilegeLevel

/-- The bits of a CSR that belong to its own mode only. -/
def ownBits (xlen : Xlen) (id : Csr.Id) : BitVec 64 :=
  if id = .mstatus then ~~~sMask xlen else BitVec.allOnes 64

/-- Every CSR that the privilege may not access is the same in both files, apart from the counters
and the bits of `mstatus` that `sstatus` shows. -/
def Contained (xlen : Xlen) (privilege : PrivilegeLevel) (cs cs' : ControlState) : Prop :=
  ∀ id, privilege.toNat < (requiredPriv id).toNat → id ≠ .mcycle → id ≠ .minstret →
    cs'.registerData id &&& ownBits xlen id = cs.registerData id &&& ownBits xlen id

namespace Contained

variable {xlen : Xlen} {privilege : PrivilegeLevel} {cs cs' cs'' : ControlState}

theorem refl (cs : ControlState) : Contained xlen privilege cs cs := fun _ _ _ _ => rfl

theorem trans (h : Contained xlen privilege cs cs') (h' : Contained xlen privilege cs' cs'') :
    Contained xlen privilege cs cs'' :=
  fun id hid hm hi => (h' id hid hm hi).trans (h id hid hm hi)

/-- A register that the privilege may access is written through its handler. -/
theorem runWriteHandler {id : Csr.Id} (hid : (requiredPriv id).toNat ≤ privilege.toNat)
    (hprivilege : privilege.toNat ≤ supervisor.toNat) (value : RegisterValue)
    (cs : ControlState) :
    Contained xlen privilege cs (cs.runWriteHandler xlen id value).1 := by
  intro other hother hmcycle hminstret
  have hne : other ≠ id := by
    rintro rfl
    omega
  have hcycle : other ≠ .cycle := by
    rintro rfl
    exact absurd hother (Nat.not_lt_zero _)
  unfold ControlState.runWriteHandler
  dsimp only
  split
  · simp [hne]
  next hhandler =>
    -- `mstatus` itself is out of reach
    have hmachine : ∀ id, (registers id).writeHandler = .mstatusWlrl →
        (requiredPriv id).toNat = 3 := by
      intro id
      cases id <;> decide
    rw [hmachine id hhandler] at hid
    exact absurd (hid.trans hprivilege) (by decide)
  · simp [hne]
  · simp [hne, hcycle]
  next hhandler =>
    have hsstatus : ∀ id, (registers id).writeHandler = .sstatusWlrl → id = .sstatus := by
      intro id
      cases id <;> decide
    obtain rfl := hsstatus id hhandler
    by_cases hmstatus : other = .mstatus
    · subst hmstatus
      have hmerge (a w s : BitVec 64) : ((a &&& ~~~s) ||| (w &&& s)) &&& ~~~s = a &&& ~~~s := by
        ext i hi
        simp only [getElem_and, getElem_or, getElem_not]
        cases a[i] <;> cases w[i] <;> cases s[i] <;> rfl
      simp only [set_registerData, if_neg hne, if_true, ownBits]
      exact hmerge _ _ _
    · simp [hne, hmstatus]

theorem write {address : Csr.Address} {value : RegisterValue} {u : CsrUpdate}
    (hprivilege : privilege.toNat ≤ supervisor.toNat)
    (hwrite : cs.write xlen address value privilege = .ok u) :
    Contained xlen privilege cs u.1 := by
  obtain ⟨id, haddress, hallowed, rfl⟩ := write_ok hwrite
  rw [writeInternal_fst]
  refine runWriteHandler ?_ hprivilege value cs
  rw [requiredPriv, haddress]
  exact hallowed

theorem cycleCounted (cfg : CoreConfig) (cs : ControlState) :
    Contained xlen privilege cs (Core.cycleCounted cfg cs) := by
  intro id hid hmcycle hminstret
  have hcycle : id ≠ .cycle := by
    rintro rfl
    exact absurd hid (Nat.not_lt_zero _)
  simp [Core.cycleCounted, incrementInternal, ControlState.runWriteHandler, registers, hmcycle,
    hcycle]

theorem instructionCounted (cfg : CoreConfig) (cs : ControlState) :
    Contained xlen privilege cs (Core.instructionCounted cfg cs) := by
  intro id hid hmcycle hminstret
  simp [Core.instructionCounted, incrementInternal, ControlState.runWriteHandler, registers,
    hminstret]

end Contained

/-! ### Returns from traps -/

/-- On RV32 the status register has 32 bits. -/
def StatusWidth (xlen : Xlen) (cs : ControlState) : Prop :=
  xlen = ._32 → ∀ i, 32 ≤ i → (cs.registerData .mstatus).getLsbD i = false

theorem defaultWlrlValue_high {i : Nat} (hi : 32 ≤ i) (desc : RegisterDesc)
    (reg val : RegisterValue) :
    (defaultWlrlValue ._32 desc reg val).getLsbD i = false := by
  have hmask : (0xffffffff : BitVec 64) = (allOnes 32).setWidth 64 := rfl
  simp only [defaultWlrlValue]
  rw [getLsbD_and, hmask, getLsbD_setWidth, getLsbD_allOnes]
  simp [Nat.not_lt.mpr hi]

theorem sMask_high {i : Nat} (hi : 32 ≤ i) : (sMask ._32).getLsbD i = false := by
  have hmask : sMask ._32 = ((sMask ._32).setWidth 32).setWidth 64 := by decide
  rw [hmask, getLsbD_setWidth, getLsbD_of_ge _ _ hi, Bool.and_false]

variable {cs : ControlState} {xlen : Xlen}

/-- Only writes of the two status registers change `mstatus`. -/
theorem runWriteHandler_mstatus {id : Csr.Id} (value : RegisterValue) (hmstatus : id ≠ .mstatus)
    (hsstatus : id ≠ .sstatus) :
    (cs.runWriteHandler xlen id value).1.registerData .mstatus = cs.registerData .mstatus := by
  have hhandler : ∀ id, (registers id).writeHandler = .sstatusWlrl → id = .sstatus := by
    intro id
    cases id <;> decide
  unfold runWriteHandler
  dsimp only
  split
  · simp [hmstatus.symm]
  · simp [hmstatus.symm]
  · simp [hmstatus.symm]
  · simp [hmstatus.symm]
  next h => exact absurd (hhandler id h) hsstatus

theorem statusWidth_stable (xlen : Xlen) : StableCsr xlen (StatusWidth xlen) where
  write id value cs h := by
    rintro rfl i hi
    have hold := h rfl i hi
    by_cases hmstatus : id = .mstatus
    · subst hmstatus
      simp only [runWriteHandler, registers, set_registerData, reduceCtorEq, if_false, if_true]
      exact defaultWlrlValue_high hi _ _ _
    by_cases hsstatus : id = .sstatus
    · subst hsstatus
      simp only [runWriteHandler, registers, set_registerData, reduceCtorEq, if_false, if_true,
        getLsbD_or, getLsbD_and, hold, sMask_high hi, Bool.false_and, Bool.and_false, Bool.or_self]
    · rw [runWriteHandler_mstatus value hmstatus hsstatus]
      exact hold
  cause toPrivlev value cs h := by
    rintro rfl i hi
    have hne : Id.mstatus ≠ (if toPrivlev = .machine then Id.mcause else .scause) := by
      split <;> decide
    rw [set_registerData, if_neg hne]
    exact h rfl i hi
  interrupt irqNum active cs h := by
    rintro rfl i hi
    unfold ControlState.setInterruptSignal
    split
    · exact h rfl i hi
    · simpa using h rfl i hi

theorem statusWidth_new (xlen : Xlen) (isaWord : ConfigIsaWord) :
    StatusWidth xlen (ControlState.new xlen isaWord) := by
  rintro rfl i -
  simp [ControlState.new, ControlState.reset, registers]

/-- A field of `mstatus` that `sstatus` shows is written from supervisor mode. -/
theorem Contained.writeField {desc : RegisterFieldDesc} (hdesc : desc.regId = .mstatus)
    (hfield : desc.mask &&& ~~~sMask xlen = 0)
    (hencode : ∀ value, desc.encode value &&& ~~~desc.mask = 0) (hwidth : StatusWidth xlen cs)
    (value : BitVec 64) : Contained xlen .supervisor cs (cs.writeField xlen desc value).1 := by
  intro id hid hmcycle hminstret
  by_cases hmstatus : id = .mstatus
  case neg =>
    have hshadow : id ≠ .cycle ∧ id ≠ .sstatus := by
      constructor <;> (rintro rfl; exact absurd hid (by decide))
    rw [writeField_frame desc value (.inl hdesc) hshadow.1 hmstatus hshadow.2]
  subst hmstatus
  rw [ControlState.writeField, writeInternal_fst, hdesc]
  simp only [ControlState.runWriteHandler, registers, set_registerData, reduceCtorEq, if_false,
    if_true, ownBits, readInternal]
  ext i hi
  have hfieldBit := congrArg (fun v : BitVec 64 => v.getLsbD i) hfield
  have hencodeBit := congrArg (fun v : BitVec 64 => v.getLsbD i) (hencode value)
  simp only [getLsbD_and, getLsbD_not, hi, decide_true, Bool.true_and,
    ofNat_eq_ofNat, getLsbD_zero] at hfieldBit hencodeBit
  simp only [← getLsbD_eq_getElem, getLsbD_and, getLsbD_not, hi, decide_true, Bool.true_and]
  cases hshown : (sMask xlen).getLsbD i with
  | true => simp only [Bool.not_true, Bool.and_false]
  | false =>
    -- a bit outside the field keeps its value under the write mask
    have hmask : desc.mask.getLsbD i = false := by simpa [hshown] using hfieldBit
    have hupdate : (desc.update (cs.registerData .mstatus) value).getLsbD i =
        getLsbD (cs.registerData .mstatus) i := by
      have hvalue : (desc.encode value).getLsbD i = false := by simpa [hmask] using hencodeBit
      simp only [update, getLsbD_or, getLsbD_and, getLsbD_not, hvalue, hmask, hi, decide_true,
        Bool.not_false, Bool.and_true, Bool.false_or]
    have hmerge (a m : Bool) : (a && m || a && !m) = a := by cases a <;> cases m <;> rfl
    simp only [Bool.not_false, Bool.and_true]
    cases xlen with
    | _64 =>
      simp only [defaultWlrlValue, getLsbD_or, getLsbD_and, getLsbD_not,
        hupdate, hi, decide_true, Bool.true_and, hmerge]
    | _32 =>
      by_cases hlow : i < 32
      · have hones : ∀ i < 32, (0xffffffff : BitVec 64).getLsbD i = true := by decide
        simp only [defaultWlrlValue, getLsbD_or, getLsbD_and, getLsbD_not,
          hupdate, hi, decide_true, Bool.true_and, hmerge, hones i hlow, Bool.and_true]
      · rw [defaultWlrlValue_high (Nat.not_lt.mp hlow), hwidth rfl i (Nat.not_lt.mp hlow)]

/-- Writing a field sets no bit outside it. -/
theorem encode_bit_contained (id : Csr.Id) (offset : Nat) (value : BitVec 64) :
    encode ⟨id, ⟨1, offset⟩⟩ value &&&
      ~~~mask ⟨id, ⟨1, offset⟩⟩ = 0 := by
  ext i hi
  simp only [encode, mask, BitField.mask]
  by_cases hlow : i < offset <;> simp [hlow]

/-- A return that the privilege allows stays within the CSRs of the privilege. -/
theorem Contained.exceptionReturn {privilege xretPrivlev : PrivilegeLevel}
    (hprivilege : privilege.toNat ≤ supervisor.toNat)
    (hallowed : xretPrivlev.toNat ≤ privilege.toNat) (hwidth : StatusWidth xlen cs) :
    Contained xlen privilege cs (cs.exceptionReturn xlen privilege xretPrivlev).2.1 := by
  have hmachine : privilege ≠ .machine := by
    rintro rfl
    exact absurd hprivilege (by decide)
  simp only [ControlState.exceptionReturn, andThen_fst, hmachine, false_and, if_false]
  cases xretPrivlev with
  | unprivileged | hypervisor => exact refl cs
  | machine => exact absurd (hallowed.trans hprivilege) (by decide)
  | supervisor =>
    obtain rfl : privilege = .supervisor := by
      cases privilege with
      | supervisor => rfl
      | unprivileged => exact absurd hallowed (by decide)
      | hypervisor | machine => exact absurd hprivilege (by decide)
    have hfield (desc : RegisterFieldDesc) (hdesc : desc.regId = .mstatus)
        (hmask : desc.mask &&& ~~~sMask xlen = 0)
        (hencode : ∀ value, desc.encode value &&& ~~~desc.mask = 0) (value : BitVec 64)
        {cs : ControlState} (h : StatusWidth xlen cs) :
        Contained xlen .supervisor cs (cs.writeField xlen desc value).1 ∧
          StatusWidth xlen (cs.writeField xlen desc value).1 := by
      refine ⟨writeField hdesc hmask hencode h value, ?_⟩
      rw [ControlState.writeField, writeInternal_fst]
      exact (statusWidth_stable xlen).write _ _ h
    have hsie := hfield sie rfl (by cases xlen <;> decide)
      (encode_bit_contained _ _) (cs.readField spie) hwidth
    have hspie := hfield spie rfl (by cases xlen <;> decide)
      (encode_bit_contained _ _) 1 hsie.2
    have hspp := hfield spp rfl (by cases xlen <;> decide)
      (encode_bit_contained _ _) 0 hspie.2
    simp only [sretUpdate, andThen_fst]
    exact (hsie.1.trans hspie.1).trans hspp.1

/-- A return continues at most at the privilege it returns from. -/
theorem exceptionReturn_le (xlen : Xlen) (actPrivlev xretPrivlev : PrivilegeLevel)
    (cs : ControlState) :
    (cs.exceptionReturn xlen actPrivlev xretPrivlev).1.toNat ≤ xretPrivlev.toNat := by
  have hmax : ∀ p : PrivilegeLevel, p.toNat ≤ machine.toNat := by
    intro p
    cases p <;> decide
  cases xretPrivlev with
  | unprivileged | hypervisor => exact Nat.zero_le _
  | machine => exact hmax _
  | supervisor =>
    simp only [ControlState.exceptionReturn, sretUpdate]
    split <;> decide

/-! ### Legal instructions -/

/-- An instruction that returns from a trap was decoded at a privilege that allows it. -/
theorem Core.Decoded.xret_allowed {cfg : CoreConfig} {privilege : PrivilegeLevel}
    {d : DecodeInterstage} (h : Decoded cfg privilege d) (hexcause : d.excause = .none) :
    d.xretPrivlev.toNat ≤ privilege.toNat := by
  cases h with
  | empty => exact Nat.zero_le _
  | @inst f hfetched csrReadVal valRs valRt ffRs ffRt =>
    change decodeExcause cfg f.inst.flags f.excause privilege = .none at hexcause
    show (instXretPriv f.inst.flags).toNat ≤ privilege.toNat
    have hlegal : (f.inst.flags ^^^ checkInstFlagsVal) &&&
        cfg.checkInstFlagsMask privilege = 0 := by
      by_contra hillegal
      rw [decodeExcause_illegal hillegal] at hexcause
      cases hexcause
    have hforbidden (flag : InstructionFlags)
        (hmask : flag &&& disallowedPriv privilege = flag)
        (hval : checkInstFlagsVal &&& flag = 0) : f.inst.flags.has flag = false := by
      refine has_eq_false_of_legal hlegal ?_ hval
      rw [checkInstFlagsMask]
      nth_rewrite 2 [← hmask]
      ext i hi
      have hbit := congrArg (fun v : BitVec 32 => v.getLsbD i) hmask
      simp only [getLsbD_and] at hbit
      simp only [← getLsbD_eq_getElem, getLsbD_and, getLsbD_or]
      revert hbit
      cases getLsbD flag i <;>
        cases getLsbD (disallowedPriv privilege) i <;> simp
    unfold instXretPriv
    -- each flag is forbidden below its privilege
    split
    case isFalse => exact Nat.zero_le _
    split
    case isTrue hflag =>
      cases privilege with
      | machine => exact le_rfl
      | unprivileged | supervisor | hypervisor =>
        rw [hforbidden .privM (by decide) (by decide)] at hflag
        cases hflag
    split
    case isTrue hflag =>
      cases privilege with
      | machine | hypervisor => decide
      | unprivileged | supervisor =>
        rw [hforbidden .privH (by decide) (by decide)] at hflag
        cases hflag
    split
    case isTrue hflag =>
      cases privilege with
      | machine | hypervisor | supervisor => decide
      | unprivileged =>
        rw [hforbidden .privS (by decide) (by decide)] at hflag
        cases hflag
    case isFalse => exact Nat.zero_le _

/-! ### Steps -/

variable {M : Type} [FrontendMemory M]

/-- The privilege does not rise, and in user or supervisor mode the CSRs of higher modes stay. -/
structure Confined (xlen : Xlen) (c c' : Core M) : Prop where
  privilege : c'.currentPrivilege.toNat ≤ c.currentPrivilege.toNat
  contained : c.currentPrivilege.toNat ≤ PrivilegeLevel.supervisor.toNat →
    Contained xlen c.currentPrivilege c.controlState c'.controlState

namespace Confined

variable {cfg : CoreConfig} {c c' c'' : Core M}

omit [FrontendMemory M] in
theorem refl {xlen : Xlen} (c : Core M) : Confined xlen c c :=
  ⟨le_rfl, fun _ => .refl _⟩

variable {xlen : Xlen}

omit [FrontendMemory M] in
theorem of_nextCycle (h : Confined xlen c.nextCycle c') : Confined xlen c c' :=
  ⟨h.privilege, h.contained⟩

omit [FrontendMemory M] in
/-- What comes before leaves the privilege as it is. -/
theorem trans (h : Confined xlen c c') (hsame : c'.currentPrivilege = c.currentPrivilege)
    (h' : Confined xlen c' c'') : Confined xlen c c'' := by
  refine ⟨h'.privilege.trans (le_of_eq (by rw [hsame])), ?_⟩
  intro hlow
  have hafter := h'.contained (by rw [hsame]; exact hlow)
  rw [hsame] at hafter
  exact (h.contained hlow).trans hafter

omit [FrontendMemory M] in
/-- Fetching and writing back are confined whatever the privilege is by then. -/
theorem aside (h : Confined xlen c c') (haside : Aside cfg c' c'') : Confined xlen c c'' := by
  refine ⟨?_, ?_⟩
  · rw [haside.privilege]
    exact h.privilege
  · intro hlow
    rcases haside.control with hkeep | hcount
    · rw [hkeep]
      exact h.contained hlow
    · rw [hcount]
      exact (h.contained hlow).trans (.cycleCounted _ _)

/-- The memory stage is confined if the instruction was allowed at the privilege. -/
theorem memory {dt : ExecuteInterstage} (hwidth : StatusWidth cfg.xlen c.controlState)
    (hallowed : dt.excause = .none → dt.xretPrivlev.toNat ≤ c.currentPrivilege.toNat) :
    Confined cfg.xlen c (Core.memory cfg dt c).2 := by
  cases hmemory : Core.memory cfg dt c with
  | mk result c' =>
    cases result with
    | error e =>
      obtain ⟨hcontrol, hprivilege⟩ := memory_error_control hmemory
      refine ⟨le_of_eq (by rw [hprivilege]), fun _ => ?_⟩
      rw [hcontrol]
      exact .instructionCounted _ _
    | ok r =>
      have heffect := memory_effect hmemory
      have hcounted := (statusWidth_stable cfg.xlen).instructionCounted hwidth
      have hwritten {written : Bool} {cs₁ : ControlState}
          (hlow : c.currentPrivilege.toNat ≤ supervisor.toNat)
          (hwrite : WriteEffect cfg dt c.currentPrivilege
            (instructionCounted cfg c.controlState) written cs₁) :
          Contained cfg.xlen c.currentPrivilege c.controlState cs₁ := by
        cases hwrite with
        | skip => exact .instructionCounted _ _
        | write _ hwrite => exact (Contained.instructionCounted _ _).trans (.write hlow hwrite)
      dsimp only
      constructor
      · generalize r.1.csrWritten = written, c'.controlState = cs',
          c'.currentPrivilege = privilege' at heffect ⊢
        cases heffect with
        | idle | count => exact le_rfl
        | xret hexcause => exact (exceptionReturn_le _ _ _ _).trans (hallowed hexcause)
      · intro hlow
        generalize r.1.csrWritten = written, c'.controlState = cs',
          c'.currentPrivilege = privilege' at heffect ⊢
        cases heffect with
        | idle => exact .refl _
        | count _ _ hwrite => exact hwritten hlow hwrite
        | xret hexcause _ hwrite =>
          exact (hwritten hlow hwrite).trans (.exceptionReturn hlow (hallowed hexcause)
            ((statusWidth_stable cfg.xlen).writeEffect hwrite hcounted))

end Confined

variable {cfg : CoreConfig}

theorem CoreSingle.stages_confined (skipBreak : Bool) {s : CoreSingle M}
    (hwidth : StatusWidth cfg.xlen s.core.controlState) :
    Confined cfg.xlen s.core (stages cfg skipBreak s).2.core := by
  have haside := @aside_fetch M _ cfg s.pipeline.pcIf skipBreak s.core
  have hfetch := (@Confined.refl M cfg.xlen s.core).aside haside
  unfold stages
  dsimp only
  split
  next => exact hfetch
  next idEx hdecode =>
    have hdecoded := decode_decoded (fetch_fetched _ _ _) hdecode
    have hexecuted : Confined cfg.xlen (fetch cfg s.pipeline.pcIf skipBreak s.core).2
        (memory cfg (execute idEx) (fetch cfg s.pipeline.pcIf skipBreak s.core).2).2 :=
      .memory ((statusWidth_stable cfg.xlen).aside haside hwidth) hdecoded.xret_allowed
    have hmemory := hfetch.trans haside.privilege hexecuted
    split
    next hresult =>
      rwa [hresult] at hmemory
    next memWb memInternal c hresult =>
      rw [hresult] at hmemory
      exact hmemory.aside (@aside_writeback M cfg memWb c)

theorem CorePipelined.stages_confined (skipBreak : Bool) {s : CorePipelined M}
    (horigin : Executed cfg s.core.currentPrivilege s.pipeline.exMem)
    (hwidth : StatusWidth cfg.xlen s.core.controlState) :
    Confined cfg.xlen s.core (CorePipelined.stages cfg skipBreak s).2.core := by
  have hback := @aside_writeback M cfg s.pipeline.memWb s.core
  have hallowed : s.pipeline.exMem.excause = .none →
      s.pipeline.exMem.xretPrivlev.toNat ≤ s.core.currentPrivilege.toNat := by
    rcases horigin with hempty | ⟨d, hdecoded, hexMem⟩
    · rw [hempty]
      exact fun _ => Nat.zero_le _
    · rw [hexMem]
      exact hdecoded.xret_allowed
  have hmemory : Confined cfg.xlen s.core
      (memory cfg s.pipeline.exMem (writeback s.pipeline.memWb s.core)).2 :=
    .trans ((Confined.refl _).aside hback) hback.privilege
      (.memory ((statusWidth_stable cfg.xlen).aside hback hwidth)
        (by rw [hback.privilege]; exact hallowed))
  unfold stages
  dsimp only
  split
  next hresult =>
    rwa [hresult] at hmemory
  next hresult =>
    rw [hresult] at hmemory
    split
    · exact hmemory
    · exact hmemory.aside (aside_fetch _ _ _)

namespace TrapCall

def Enters (cfg : CoreConfig) (t : TrapCall M) : Prop :=
  delivers cfg t.excause = true ∧ entersTrap cfg t.excause t.toS t.core.controlState

/-- The call does not record a trap without entering it: there is a handler for what is delivered,
and it is not stepped over. -/
def Handled (cfg : CoreConfig) (t : TrapCall M) : Prop :=
  delivers cfg t.excause = true → entersTrap cfg t.excause t.toS t.core.controlState

/-- A call that does not enter a handler leaves the privilege. -/
theorem handle_privilege {t : TrapCall M} (henters : ¬t.Enters cfg) :
    (t.handle cfg).2.currentPrivilege = t.core.currentPrivilege := by
  have heffect := @handle_effect M _ cfg t
  generalize t.handle cfg = outcome at heffect ⊢
  cases heffect with
  | thrown | stopped => rfl
  | delivered hdelivers => exact if_neg fun henter => henters ⟨hdelivers, henter⟩

/-- A call that delivers nothing leaves the CSR file. -/
theorem handle_control {t : TrapCall M} (hhandled : t.Handled cfg) (henters : ¬t.Enters cfg) :
    (t.handle cfg).2.controlState = t.core.controlState := by
  have heffect := @handle_effect M _ cfg t
  generalize t.handle cfg = outcome at heffect ⊢
  cases heffect with
  | thrown | stopped => rfl
  | delivered hdelivers => exact absurd ⟨hdelivers, hhandled hdelivers⟩ henters

end TrapCall

/-- What a step may do to the privilege and to the CSRs of higher modes. -/
structure StepContained (cfg : CoreConfig) (call : Option (TrapCall M)) (c c' : Core M) : Prop where
  rises : c.currentPrivilege.toNat < c'.currentPrivilege.toNat →
    ∃ t, call = some t ∧ t.Enters cfg
  contained : c.currentPrivilege.toNat ≤ PrivilegeLevel.supervisor.toNat →
    (¬∃ t, call = some t ∧ t.Enters cfg) →
    Contained cfg.xlen c.currentPrivilege c.controlState c'.controlState

theorem StepContained.of_end {call : Option (TrapCall M)} {c c₁ c' : Core M}
    {raised : ExceptionCause} {result : Except SimulatorException Unit}
    (hhandled : c.currentPrivilege.toNat ≤ supervisor.toNat →
      ∀ t, call = some t → t.Handled cfg)
    (hstages : Confined cfg.xlen c c₁) (hend : StepEnd cfg call raised c₁ result c') :
    StepContained cfg call c c' := by
  cases hend with
  | plain =>
    exact ⟨fun hrises => absurd hstages.privilege (Nat.not_le.mpr hrises),
      fun hlow _ => hstages.contained hlow⟩
  | trap t hcall _ regs hcore hhandle =>
    refine ⟨?_, ?_⟩
    · intro hrises
      by_contra hnone
      have hkeep := @TrapCall.handle_privilege M _ cfg t fun h => hnone ⟨t, hcall, h⟩
      rw [hhandle, hcore] at hkeep
      exact absurd hstages.privilege (Nat.not_le.mpr (hkeep ▸ hrises))
    · intro hlow hnone
      have hkeep := TrapCall.handle_control (hhandled hlow t hcall) fun h => hnone ⟨t, hcall, h⟩
      rw [hhandle, hcore] at hkeep
      rw [show c'.controlState = _ from hkeep]
      exact hstages.contained hlow

omit [FrontendMemory M] in
theorem StepContained.of_confined {call : Option (TrapCall M)} {c c' : Core M}
    (h : Confined cfg.xlen c c') : StepContained cfg call c c' :=
  ⟨fun hrises => absurd h.privilege (Nat.not_le.mpr hrises), fun hlow _ => h.contained hlow⟩

/-- In every run of either core from reset, the privilege rises only where a trap is entered, and a
step in user or supervisor mode that enters no trap leaves the CSRs of higher modes, provided that a
trap that is delivered from such a mode is also entered. -/
theorem privilege_contained (cfg : CoreConfig) (predictor : BranchPredictor) (mem : M) :
    (∀ s : CoreSingle M, Hart.Reached cfg (.reset cfg predictor mem) s → ∀ skipBreak,
        (s.core.currentPrivilege.toNat ≤ PrivilegeLevel.supervisor.toNat →
          ∀ t, Hart.trapCall cfg skipBreak s = some t → t.Handled cfg) →
        StepContained cfg (Hart.trapCall cfg skipBreak s) s.core
          (Hart.step cfg skipBreak s).2.core) ∧
      ∀ s : CorePipelined M, Hart.Reached cfg (.reset cfg predictor mem) s → ∀ skipBreak,
        (s.core.currentPrivilege.toNat ≤ PrivilegeLevel.supervisor.toNat →
          ∀ t, Hart.trapCall cfg skipBreak s = some t → t.Handled cfg) →
        StepContained cfg (Hart.trapCall cfg skipBreak s) s.core
          (Hart.step cfg skipBreak s).2.core := by
  constructor
  · intro s hrun skipBreak hhandled
    have hwidth := (statusWidth_stable cfg.xlen).reached hrun (statusWidth_new _ _)
    have hstages := @stages_confined M _ cfg skipBreak
      { s with core := s.core.nextCycle } hwidth
    rcases step_outcome cfg skipBreak s with ⟨e, s₁, hthrown, hstep⟩ | ⟨s₁, hok, hend⟩
    · rw [hthrown] at hstages
      rw [show Hart.step cfg skipBreak s = _ from hstep]
      exact .of_confined hstages.of_nextCycle
    · rw [hok] at hstages
      exact .of_end hhandled hstages.of_nextCycle hend
  · intro s hrun skipBreak hhandled
    have hwidth := (statusWidth_stable cfg.xlen).reached hrun (statusWidth_new _ _)
    have horigin := ((origin_stageInvariant M cfg).reached hrun).exMem
    have hstages := @CorePipelined.stages_confined M _ cfg skipBreak
      { s with core := s.core.nextCycle } horigin hwidth
    rcases CorePipelined.step_outcome cfg skipBreak s with
      ⟨e, s₁, hthrown, hstep⟩ | ⟨s₁, hok, hend⟩
    · rw [hthrown] at hstages
      rw [show Hart.step cfg skipBreak s = _ from hstep]
      exact .of_confined hstages.of_nextCycle
    · rw [hok] at hstages
      exact .of_end hhandled hstages.of_nextCycle hend

/-- A program that returns to user mode and makes a call there. -/
def containmentCore : Core FlatMemory :=
  .reset (.rv64 .none) (.default false)
    ((FlatMemory.ofWords 0x200 [0x30200073]).writeBytes 0
      (bytesOfValue .little 8 0x0000007300000013))

def userState : CoreSingle FlatMemory :=
  (Hart.after (.rv64 .none) false 1 (CoreSingle.start containmentCore)).get (by decide +kernel)

theorem userState_reached : Hart.Reached (.rv64 .none) containmentCore userState := by
  have hsteps : Hart.after (.rv64 .none) false 1 (start containmentCore) =
      some userState := (Option.some_get _).symm
  exact Hart.moves_of_after hsteps

theorem privilege_contained_userState :
    userState.core.currentPrivilege = .unprivileged ∧
      StepContained (.rv64 .none) (Hart.trapCall (.rv64 .none) false userState) userState.core
        (Hart.step (.rv64 .none) false userState).2.core := by
  have hcall : (Hart.trapCall (.rv64 .none) false userState).isNone = true := by decide +kernel
  refine ⟨by decide +kernel, ?_⟩
  refine (privilege_contained (.rv64 .none) (.default false) containmentCore.mem).1 userState
    userState_reached false ?_
  intro _ t ht
  rw [ht] at hcall
  cases hcall

def callingState : CoreSingle FlatMemory :=
  (Hart.after (.rv64 .none) false 2 (CoreSingle.start containmentCore)).get (by decide +kernel)

/-- A call from user mode that is stepped over writes `mepc`, and the program goes on in user
mode. -/
theorem user_call_writes_mepc :
    Hart.Reached (.rv64 .none) containmentCore callingState ∧
      callingState.core.currentPrivilege = .unprivileged ∧
      (Hart.step (.rv64 .none) false callingState).1.isOk = true ∧
      (Hart.step (.rv64 .none) false callingState).2.core.currentPrivilege = .unprivileged ∧
      ¬StepContained (.rv64 .none) (Hart.trapCall (.rv64 .none) false callingState)
        callingState.core (Hart.step (.rv64 .none) false callingState).2.core := by
  have hsteps : Hart.after (.rv64 .none) false 2 (start containmentCore) =
      some callingState := (Option.some_get _).symm
  have huser : callingState.core.currentPrivilege = .unprivileged := by decide +kernel
  refine ⟨Hart.moves_of_after hsteps, huser, by decide +kernel, by decide +kernel, ?_⟩
  intro h
  have hcall : (Hart.trapCall (.rv64 .none) false callingState).all (fun t =>
      !decide (entersTrap (.rv64 .none) t.excause t.toS t.core.controlState)) = true := by
    decide +kernel
  have hnone : ¬∃ t, Hart.trapCall (.rv64 .none) false callingState = some t ∧
      t.Enters (.rv64 .none) := by
    rintro ⟨t, ht, -, henters⟩
    rw [ht] at hcall
    simp [henters] at hcall
  have hmepc := h.contained (by rw [huser]; decide) hnone .mepc (by rw [huser]; decide)
    (by decide) (by decide)
  revert hmepc
  decide +kernel

end QtRvSim
