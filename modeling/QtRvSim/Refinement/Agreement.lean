import QtRvSim.Core.AccessScript
import QtRvSim.Core.Retirement
import QtRvSim.Csr.Frame

/-!
# Architectural agreement of two cores

Two cores on flat memory agree if they have the same general registers, memory, reservation,
privilege and CSRs apart from the cycle counters.  They may differ in the program counter, the
predictor and the cycle and stall counters.  Every stage maps agreeing cores to agreeing cores.
-/

namespace QtRvSim

open FrontendMemory Core AccessScript

/-- Agreement on the architectural state apart from the program counter. -/
structure ArchAgree (c s : Core FlatMemory) : Prop where
  gp : c.regs.gp = s.regs.gp
  csr : c.controlState.AgreeOffCycle s.controlState
  mem : c.mem = s.mem
  reservation : c.loadReservedRange = s.loadReservedRange
  privilege : c.currentPrivilege = s.currentPrivilege
  asid : c.currentAsid = s.currentAsid

namespace ArchAgree

variable {cfg : CoreConfig} {c s : Core FlatMemory}

theorem refl (c : Core FlatMemory) : ArchAgree c c :=
  ⟨rfl, .refl _, rfl, rfl, rfl, rfl⟩

theorem symm (h : ArchAgree c s) : ArchAgree s c :=
  ⟨h.gp.symm, h.csr.symm, h.mem.symm, h.reservation.symm, h.privilege.symm, h.asid.symm⟩

theorem trans {t : Core FlatMemory} (h : ArchAgree c s) (h' : ArchAgree s t) : ArchAgree c t :=
  ⟨h.gp.trans h'.gp, h.csr.trans h'.csr, h.mem.trans h'.mem,
    h.reservation.trans h'.reservation, h.privilege.trans h'.privilege, h.asid.trans h'.asid⟩

theorem readGp (h : ArchAgree c s) (reg : RegisterId) : c.regs.readGp reg = s.regs.readGp reg := by
  simp only [Registers.readGp, h.gp]

theorem makeAccessMode (h : ArchAgree c s) (op : AccessOp) :
    c.makeAccessMode op = s.makeAccessMode op := by
  simp only [Core.makeAccessMode, h.asid, h.privilege]

/-- The parts that agreement does not look at can be exchanged. -/
theorem congr_left {c' : Core FlatMemory} (h : ArchAgree c s) (hgp : c'.regs.gp = c.regs.gp)
    (hcsr : c'.controlState = c.controlState) (hmem : c'.mem = c.mem)
    (hres : c'.loadReservedRange = c.loadReservedRange)
    (hpriv : c'.currentPrivilege = c.currentPrivilege)
    (hasid : c'.currentAsid = c.currentAsid) : ArchAgree c' s :=
  ⟨hgp.trans h.gp, hcsr ▸ h.csr, hmem.trans h.mem, hres.trans h.reservation,
    hpriv.trans h.privilege, hasid.trans h.asid⟩

theorem setPc (h : ArchAgree c s) {address : Address} (haligned : address.toNat % 4 = 0) :
    ArchAgree { c with regs := { c.regs with pc := address, pcAligned := haligned } } s :=
  h.congr_left rfl rfl rfl rfl rfl rfl

theorem updateCsr (h : ArchAgree c s) {u u' : CsrUpdate} (hu : u.1.AgreeOffCycle u'.1) :
    ArchAgree (c.updateCsr u) (s.updateCsr u') :=
  ⟨h.gp, hu, by simpa [Core.updateCsr] using h.mem, h.reservation, h.privilege, h.asid⟩

theorem setCurrentPrivilege (h : ArchAgree c s) (privilege : PrivilegeLevel) :
    ArchAgree (c.setCurrentPrivilege privilege) (s.setCurrentPrivilege privilege) :=
  ⟨h.gp, h.csr, h.mem, h.reservation, rfl, h.asid⟩

end ArchAgree

/-- The access looks at no more than XLEN bits of the stored operand. -/
def NarrowStore (cfg : CoreConfig) (e : ExecuteInterstage) : Prop :=
  isSpecialAccess e.memctl = false ∧ (cfg.xlen = ._64 ∨ ctlSize e.memctl ≠ 8)

/-- Two instructions in front of the memory stage that differ in the prediction only, and in bits
of the stored operand that no access looks at.  An instruction with an exception stores nothing. -/
structure ExecuteAgree (cfg : CoreConfig) (e e' : ExecuteInterstage) : Prop where
  fields : e = { e' with
    predictedNextInstAddr := e.predictedNextInstAddr
    valRt := e.valRt }
  operand : e'.excause = .none →
    e.valRt = e'.valRt ∨
      (e.valRt.asXlen cfg.xlen = e'.valRt.asXlen cfg.xlen ∧ NarrowStore cfg e')

/-- The first instruction is the second one with another prediction and operand. -/
theorem ExecuteAgree.exists_eq {cfg : CoreConfig} {e e' : ExecuteInterstage}
    (h : ExecuteAgree cfg e e') :
    ∃ predicted valRt, e = { e' with predictedNextInstAddr := predicted, valRt := valRt } :=
  ⟨_, _, h.fields⟩

/-- Values that agree on 32 bits agree on their low bits. -/
theorem setWidth_congr {v v' : RegisterValue} (hval : v.asXlen ._32 = v'.asXlen ._32) (w : Nat)
    (hw : w ≤ 32) : v.setWidth w = v'.setWidth w := by
  have hlow : v.setWidth 32 = v'.setWidth 32 := by
    have h := congrArg (BitVec.setWidth 32) hval
    simpa [RegisterValue.asXlen, RegisterValue.asU32] using h
  have h := congrArg (BitVec.setWidth w) hlow
  rwa [BitVec.setWidth_setWidth_of_le _ hw, BitVec.setWidth_setWidth_of_le _ hw] at h

/-- A store of at most 32 bits looks at the low word of its operand. -/
theorem store_congr {xlen : Xlen} {v v' : RegisterValue} (hval : v.asXlen xlen = v'.asXlen xlen)
    {ctl : AccessControl} (hnarrow : xlen = ._64 ∨ ctlSize ctl ≠ 8) (endian : Endian)
    (next : AccessScript) :
    store endian ctl v next = store endian ctl v' next := by
  cases xlen with
  | _64 =>
    obtain rfl : v = v' := hval
    rfl
  | _32 =>
    have hwide : ctlSize ctl ≠ 8 := hnarrow.resolve_left (by decide)
    cases ctl with
    | i64 | u64 => exact absurd rfl hwide
    | i8 | u8 => simp only [store, setWidth_congr hval 8 (by decide)]
    | i16 | u16 => simp only [store, setWidth_congr hval 16 (by decide)]
    | i32 | u32 => simp only [store, setWidth_congr hval 32 (by decide)]
    | _ => rfl

/-- The bytes of a narrow store do not depend on the operand's bits above XLEN. -/
theorem storedBytes_congr {xlen : Xlen} {i i' : MemoryInternalState}
    (hval : i.memWriteVal.asXlen xlen = i'.memWriteVal.asXlen xlen)
    (hi : i = { i' with memWriteVal := i.memWriteVal }) {ctl : AccessControl}
    (hspecial : isSpecialAccess ctl = false) (hnarrow : xlen = ._64 ∨ ctlSize ctl ≠ 8)
    (endian : Endian) : storedBytes endian ctl i = storedBytes endian ctl i' := by
  have hwrite : i.memwrite = i'.memwrite := by rw [hi]
  simp only [storedBytes, hwrite]
  split
  · rfl
  cases xlen with
  | _64 =>
    have hi' : i = i' := by
      rw [hi, show i.memWriteVal = i'.memWriteVal from hval]
    rw [hi']
  | _32 =>
    have hwide : ctlSize ctl ≠ 8 := hnarrow.resolve_left (by decide)
    cases ctl with
    | i64 | u64 => exact absurd rfl hwide
    | i8 | u8 => simp only [setWidth_congr hval 8 (by decide)]
    | i16 | u16 => simp only [setWidth_congr hval 16 (by decide)]
    | i32 | u32 => simp only [setWidth_congr hval 32 (by decide)]
    | none => rfl
    | _ => exact absurd hspecial (by decide)

namespace ArchAgree

variable {cfg : CoreConfig} {c s : Core FlatMemory} {e e' : ExecuteInterstage}

/-- Accesses whose stored operands are interchangeable have the same script. -/
theorem ofAccess_congr (hex : ExecuteAgree cfg e e') (hexcause : e'.excause = .none)
    (reserved : Bool) :
    ofAccess cfg.endian e reserved = ofAccess cfg.endian e' reserved := by
  have hoperand := hex.operand hexcause
  obtain ⟨predicted, valRt, rfl⟩ := hex.exists_eq
  unfold ofAccess
  dsimp only at hoperand ⊢
  rcases hoperand with rfl | ⟨hval, hspecial, hnarrow⟩
  · rfl
  · rw [store_congr hval hnarrow]
    cases hmemctl : e'.memctl with
    | none | i8 | u8 | i16 | u16 | i32 | u32 | i64 | u64 => rfl
    | _ => exact absurd (hmemctl ▸ hspecial) (by decide)

/-- Accesses whose stored operands are interchangeable agree. -/
theorem performAccess (h : ArchAgree c s) (hex : ExecuteAgree cfg e e')
    (hexcause : e'.excause = .none) :
    (performAccess cfg e c).1 = (performAccess cfg e' s).1 ∧
      ArchAgree (performAccess cfg e c).2 (performAccess cfg e' s).2 := by
  have hsame := ofAccess_congr hex hexcause
  obtain ⟨predicted, valRt, rfl⟩ := hex.exists_eq
  generalize he : { e' with predictedNextInstAddr := predicted, valRt := valRt } = e at *
  have haddr : memAddress cfg e c = memAddress cfg e' s := by
    simp only [← he, memAddress, h.makeAccessMode]
  have hrange : accessRange cfg e c = accessRange cfg e' s := by
    rw [accessRange, accessRange, haddr, ← he]
  have hscript : accessScript cfg e c = accessScript cfg e' s := by
    rw [accessScript, accessScript, h.reservation, hrange, hsame]
  have hafter (completed : Bool) :
      reservationAfter cfg e c completed = reservationAfter cfg e' s completed := by
    rw [reservationAfter, reservationAfter, h.reservation, hrange, ← he]
  rw [performAccess_eq, performAccess_eq, haddr, hscript, h.mem]
  exact ⟨rfl, h.gp, h.csr, rfl, hafter _, h.privilege, h.asid⟩

theorem memoryAccess (h : ArchAgree c s) (hex : ExecuteAgree cfg e e') :
    (Core.memoryAccess cfg e c).1 = (Core.memoryAccess cfg e' s).1 ∧
      ArchAgree (Core.memoryAccess cfg e c).2 (Core.memoryAccess cfg e' s).2 := by
  have haccess := h.performAccess hex
  obtain ⟨predicted, valRt, rfl⟩ := hex.exists_eq
  unfold Core.memoryAccess
  dsimp only
  by_cases hnone : e'.excause = .none
  · obtain ⟨hresult, hagree⟩ := haccess hnone
    rw [if_neg (not_not.mpr hnone), if_neg (not_not.mpr hnone)]
    generalize Core.performAccess cfg _ c = x at hresult hagree ⊢
    generalize Core.performAccess cfg e' s = y at hresult hagree
    obtain ⟨x₁, x₂⟩ := x
    obtain ⟨y₁, y₂⟩ := y
    simp only at hresult hagree
    subst hresult
    cases x₁ with
    | ok | error => exact ⟨rfl, hagree⟩
  · rw [if_pos hnone, if_pos hnone]
    exact ⟨rfl, h⟩

/-- Returns from a trap continue at the same address. -/
theorem memoryXret (h : ArchAgree c s) (cfg : CoreConfig) (hpriv : e.xretPrivlev = e'.xretPrivlev) :
    (Core.memoryXret cfg e c).1 = (Core.memoryXret cfg e' s).1 ∧
      ArchAgree (Core.memoryXret cfg e c).2 (Core.memoryXret cfg e' s).2 := by
  obtain ⟨hrestored, hagree⟩ :=
    h.csr.exceptionReturn cfg.xlen s.currentPrivilege e'.xretPrivlev
  simp only [Core.memoryXret, hpriv, h.privilege, hrestored]
  have hcore := (h.updateCsr hagree).setCurrentPrivilege
    (s.controlState.exceptionReturn cfg.xlen s.currentPrivilege e'.xretPrivlev).1
  refine ⟨?_, hcore.gp, hcore.csr, hcore.mem, rfl, hcore.privilege, hcore.asid⟩
  split
  · exact congrArg _ (hagree .mepc (by decide) (by decide))
  · exact congrArg _ (hagree .sepc (by decide) (by decide))

/-- Without CSR writes the CSR part of the memory stage does not fail, and it keeps agreement. -/
theorem memoryCsr (h : ArchAgree c s) (hex : ExecuteAgree cfg e e') (hcsr : e'.csrWrite = false)
    (next : Address) :
    ∃ r c' s', memoryCsr cfg e next c = (.ok r, c') ∧
      memoryCsr cfg e' next s = (.ok r, s') ∧ ArchAgree c' s' := by
  obtain ⟨predicted, valRt, rfl⟩ := hex.exists_eq
  have hcount := h.updateCsr
    (h.csr.incrementInternal cfg.xlen (by decide : Csr.Id.minstret ≠ .mcycle) (by decide) 1)
  simp only [memoryCsr, memoryCsrWrite, hcsr]
  split
  · obtain ⟨haddr, hagree⟩ := hcount.memoryXret cfg rfl
    cases hret : e'.xret with
    | false => exact ⟨_, _, _, rfl, rfl, hcount⟩
    | true => exact ⟨_, _, _, rfl, by simp only [haddr]; rfl, hagree⟩
  · exact ⟨_, _, _, rfl, rfl, h⟩

theorem writeback (h : ArchAgree c s) (w : MemoryInterstage) :
    ArchAgree (Core.writeback w c) (Core.writeback w s) := by
  simp only [Core.writeback]
  split
  · refine ⟨?_, h.csr, h.mem, h.reservation, h.privilege, h.asid⟩
    simp only [Registers.writeGp]
    split
    · exact h.gp
    · simp only [h.gp]
  · exact h

theorem memoryAccessed (h : ArchAgree c s) (hex : ExecuteAgree cfg e e') :
    ArchAgree (memoryAccessed cfg e c) (memoryAccessed cfg e' s) := by
  obtain ⟨-, h'⟩ := h.memoryAccess hex
  exact ⟨h'.gp, h'.csr, h'.mem, h'.reservation, h'.privilege, h'.asid⟩

theorem countMisprediction (h : ArchAgree c s) (a b a' b' : Address) :
    ArchAgree (Core.countMisprediction a b c) (Core.countMisprediction a' b' s) := by
  have hleft (c : Core FlatMemory) : ArchAgree (Core.countMisprediction a b c) c := by
    unfold Core.countMisprediction
    split
    · exact ⟨rfl, .refl _, rfl, rfl, rfl, rfl⟩
    · exact refl c
  have hright (s : Core FlatMemory) : ArchAgree s (Core.countMisprediction a' b' s) := by
    unfold Core.countMisprediction
    split
    · exact ⟨rfl, .refl _, rfl, rfl, rfl, rfl⟩
    · exact refl s
  exact ((hleft c).trans h).trans (hright s)

end ArchAgree

/-- Two results of the memory stage that differ in the prediction only and retire alike. -/
structure MemoryAgree (cfg : CoreConfig) (predicted : Address)
    (r r' : MemoryInterstage × MemoryInternalState) : Prop where
  interstage : r.1 = r'.1.withPrediction predicted
  retired : retiredInstruction cfg r.1 r.2 = retiredInstruction cfg r'.1 r'.2

theorem MemoryAgree.of_execute {cfg : CoreConfig} {e e' : ExecuteInterstage}
    (hex : ExecuteAgree cfg e e') (hctl : e'.memctl = e'.inst.memCtl) (memAddr : Address)
    {access : Core.AccessResult} (haccess : access.excause = .none → e'.excause = .none)
    (csr : Core.CsrResult) :
    MemoryAgree cfg e.predictedNextInstAddr (memoryInterstage e memAddr access csr)
      (memoryInterstage e' memAddr access csr) := by
  obtain ⟨hfields, hoperand⟩ := hex
  have hinterstage : (memoryInterstage e memAddr access csr).1 =
      (memoryInterstage e' memAddr access csr).1.withPrediction
        e.predictedNextInstAddr := by
    rw [hfields]
    rfl
  refine ⟨hinterstage, ?_⟩
  have hinternal : (memoryInterstage e memAddr access csr).2 =
      { (memoryInterstage e' memAddr access csr).2 with memWriteVal := e.valRt } := by
    rw [hfields]
    rfl
  rw [hinterstage, retiredInstruction_withPrediction, retiredInstruction, retiredInstruction]
  by_cases hretired : (memoryInterstage e' memAddr access csr).1.isValid = true ∧
      (memoryInterstage e' memAddr access csr).1.excause = .none
  · have hexcause : e'.excause = .none := haccess hretired.2
    have hstored : storedBytes cfg.endian
          (memoryInterstage e' memAddr access csr).1.inst.memCtl
          (memoryInterstage e memAddr access csr).2 =
        storedBytes cfg.endian (memoryInterstage e' memAddr access csr).1.inst.memCtl
          (memoryInterstage e' memAddr access csr).2 := by
      rcases hoperand hexcause with hval | ⟨hval, hspecial, hsize⟩
      · rw [hinternal, hval]
        rfl
      · rw [hctl] at hspecial hsize
        exact storedBytes_congr hval hinternal hspecial hsize cfg.endian
    simp only [if_pos hretired, hstored]
  · rw [if_neg hretired, if_neg hretired]

/-- The memory stage maps agreeing instructions and cores to agreeing ones. -/
theorem ArchAgree.memory {cfg : CoreConfig} {c s : Core FlatMemory} {e e' : ExecuteInterstage}
    (h : ArchAgree c s) (hex : ExecuteAgree cfg e e') (hcsr : e'.csrWrite = false)
    (hctl : e'.memctl = e'.inst.memCtl) :
    ∃ r r' c' s', memory cfg e c = (.ok r, c') ∧ memory cfg e' s = (.ok r', s') ∧
      MemoryAgree cfg e.predictedNextInstAddr r r' ∧ ArchAgree c' s' := by
  obtain ⟨haccess, -⟩ := h.memoryAccess hex
  have hnext : computeNextInstAddr cfg e (branchBxxTaken e) =
      computeNextInstAddr cfg e' (branchBxxTaken e') := by
    rw [hex.fields]
    rfl
  have haddr : (memAddress cfg e c).address = (memAddress cfg e' s).address := by
    rw [hex.fields]
    rfl
  obtain ⟨csr, c', s', hc, hs, hagree⟩ := (h.memoryAccessed hex).memoryCsr hex hcsr
    (computeNextInstAddr cfg e' (branchBxxTaken e'))
  refine ⟨_, _, _, _, memory_of_csr (hnext ▸ hc), memory_of_csr hs, ?_,
    hagree.countMisprediction _ _ _ _⟩
  rw [haddr, haccess]
  exact .of_execute hex hctl _ memoryAccess_excause csr

structure CoreAgree (c s : Core FlatMemory) : Prop extends ArchAgree c s where
  pc : c.regs.pc = s.regs.pc

/-- Two computations throw alike and otherwise return the same and leave agreeing cores. -/
def OutcomeAgree {α : Type} (x y : Outcome (Core FlatMemory) α) : Prop :=
  x.1 = y.1 ∧ ∀ v, y.1 = .ok v → CoreAgree x.2 y.2

/-- Agreeing computations return the same or throw the same. -/
theorem OutcomeAgree.cases {α : Type} {x y : Outcome (Core FlatMemory) α} (h : OutcomeAgree x y) :
    (∃ v c s, x = (.ok v, c) ∧ y = (.ok v, s) ∧ CoreAgree c s) ∨
      ∃ e c s, x = (.error e, c) ∧ y = (.error e, s) := by
  obtain ⟨x₁, c⟩ := x
  obtain ⟨y₁, s⟩ := y
  obtain ⟨hresult, hcore⟩ := h
  simp only at hresult hcore
  subst hresult
  cases x₁ with
  | ok v => exact .inl ⟨v, c, s, rfl, rfl, hcore v rfl⟩
  | error e => exact .inr ⟨e, c, s, rfl, rfl⟩

section

variable {c s : Core FlatMemory}

theorem ArchAgree.writePc (h : ArchAgree c s) (address : Address) :
    OutcomeAgree (c.writePc address) (s.writePc address) := by
  by_cases haligned : address.toNat % 4 = 0
  · simp only [Core.writePc, Registers.writePc_of_aligned _ haligned]
    exact ⟨rfl, fun _ _ => ⟨⟨h.gp, h.csr, h.mem, h.reservation, h.privilege, h.asid⟩, rfl⟩⟩
  · simp only [Core.writePc, Registers.writePc_of_unaligned _ haligned]
    exact ⟨rfl, fun v hv => by simp at hv⟩

theorem ArchAgree.exceptionPcAddress (h : ArchAgree c s) :
    c.controlState.exceptionPcAddress c.currentPrivilege =
      s.controlState.exceptionPcAddress s.currentPrivilege := by
  simp only [ControlState.exceptionPcAddress, h.privilege]
  split
  · exact h.csr .stvec (by decide) (by decide)
  · exact h.csr .mtvec (by decide) (by decide)

theorem CoreAgree.enterTrap (h : CoreAgree c s) (cfg : CoreConfig) (excause : ExceptionCause)
    (toS : Bool) :
    OutcomeAgree (Core.enterTrap cfg excause toS c) (Core.enterTrap cfg excause toS s) := by
  have htvec : c.controlState.readInternal (if toS then .stvec else .mtvec) =
      s.controlState.readInternal (if toS then .stvec else .mtvec) := by
    cases toS
    · exact h.csr .mtvec (by decide) (by decide)
    · exact h.csr .stvec (by decide) (by decide)
  unfold Core.enterTrap
  dsimp only
  rw [htvec, h.privilege]
  by_cases henter : s.controlState.readInternal (if toS then .stvec else .mtvec) ≠ 0 ∧
      cfg.stepOverException excause = false
  · rw [if_pos henter, if_pos henter]
    have hinit := h.csr.exceptionInitiate cfg.xlen s.currentPrivilege
      (if toS then .supervisor else .machine)
    have hcore := (h.toArchAgree.updateCsr hinit).setCurrentPrivilege
      (if toS then .supervisor else .machine)
    rw [hcore.exceptionPcAddress]
    exact hcore.writePc _
  · rw [if_neg henter, if_neg henter]
    exact ⟨rfl, fun _ _ => h⟩

theorem ArchAgree.recordTrap (h : ArchAgree c s) (cfg : CoreConfig) (excause : ExceptionCause)
    (instAddr memRefAddr : Address) (toS : Bool) :
    ArchAgree (recordTrap cfg excause instAddr memRefAddr toS c)
      (recordTrap cfg excause instAddr memRefAddr toS s) := by
  refine h.updateCsr ?_
  simp only [trapCsrUpdate, ControlState.andThen_fst, h.privilege]
  exact ((h.csr.writeInternal cfg.xlen _ _).writeInternal cfg.xlen _ _).updateExceptionCause
    cfg.xlen excause _

theorem ArchAgree.deliverToS (h : ArchAgree c s) (excause : ExceptionCause) :
    Core.deliverToS excause c.currentPrivilege c.controlState =
      Core.deliverToS excause s.currentPrivilege s.controlState := by
  simp only [Core.deliverToS, h.privilege, ControlState.readInternal,
    h.csr .medeleg (by decide) (by decide)]

theorem CoreAgree.deliverException (h : CoreAgree c s) (cfg : CoreConfig)
    (excause : ExceptionCause) (instAddr memRefAddr : Address) :
    OutcomeAgree (Core.deliverException cfg excause instAddr memRefAddr c)
      (Core.deliverException cfg excause instAddr memRefAddr s) := by
  have hreset : ArchAgree { c with loadReservedRange := .empty }
      { s with loadReservedRange := .empty } :=
    ⟨h.gp, h.csr, h.mem, rfl, h.privilege, h.asid⟩
  have htrap : CoreAgree _ _ := ⟨hreset.recordTrap cfg excause instAddr memRefAddr
    (Core.deliverToS excause s.currentPrivilege s.controlState), h.pc⟩
  simp only [Core.deliverException, h.deliverToS]
  rcases (htrap.enterTrap cfg excause _).cases with
    ⟨v, c', s', hc, hs, hagree⟩ | ⟨e, c', s', hc, hs⟩
  · rw [hc, hs]
    exact ⟨rfl, fun _ _ => hagree⟩
  · rw [hc, hs]
    exact ⟨rfl, nofun⟩

/-- Exceptions are handled alike; the addresses for the exception handler play no role. -/
theorem CoreAgree.handleException (h : CoreAgree c s) (cfg : CoreConfig)
    (excause : ExceptionCause) (inst : Instruction)
    (instAddr memRefAddr next next' jump jump' : Address) :
    OutcomeAgree (Core.handleException cfg excause inst instAddr next jump memRefAddr c)
      (Core.handleException cfg excause inst instAddr next' jump' memRefAddr s) := by
  unfold Core.handleException
  split
  · exact ⟨rfl, nofun⟩
  · split
    · rcases (h.toArchAgree.writePc instAddr).cases with
        ⟨v, c', s', hc, hs, hagree⟩ | ⟨e, c', s', hc, hs⟩
      · simp only [hc, hs]
        split
        · exact ⟨rfl, fun _ _ => hagree⟩
        · exact hagree.deliverException cfg excause instAddr memRefAddr
      · rw [hc, hs]
        exact ⟨rfl, nofun⟩
    · exact h.deliverException cfg excause instAddr memRefAddr

theorem CoreAgree.nextCycle (h : CoreAgree c s) : CoreAgree c.nextCycle s :=
  ⟨⟨h.gp, h.csr, h.mem, h.reservation, h.privilege, h.asid⟩, h.pc⟩

/-- Counting a cycle keeps agreement. -/
theorem CoreAgree.countCycle (h : CoreAgree c s) (cfg : CoreConfig) :
    CoreAgree (c.countCycle cfg) s := by
  refine ⟨⟨h.gp, ?_, ?_, h.reservation, h.privilege, h.asid⟩, h.pc⟩
  · exact (ControlState.AgreeOffCycle.increment_mcycle cfg.xlen 1 c.controlState).trans h.csr
  · simpa [Core.countCycle, Core.updateCsr] using h.mem

end

end QtRvSim
