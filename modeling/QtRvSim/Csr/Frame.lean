import QtRvSim.Csr.ControlState

/-!
# Frame and agreement of CSR updates

Which registers an update leaves alone, and that updates of two CSR files which agree apart from
the cycle counters leave files that agree in the same way.  The cycle counters are the only
registers on which a fetch acts, so agreement off them is what a pipeline can keep.
-/

namespace QtRvSim

namespace ControlState

open Csr

variable {xlen : Xlen} {cs cs' : ControlState}

@[simp]
theorem andThen_fst (first : CsrUpdate) (second : ControlState → CsrUpdate) :
    (andThen first second).1 = (second first.1).1 := by
  simp [andThen]

@[simp]
theorem writeInternal_fst (xlen : Xlen) (id : Csr.Id) (value : RegisterValue)
    (cs : ControlState) :
    (writeInternal xlen id value cs).1 = (runWriteHandler xlen id value cs).1 := by
  simp [writeInternal]

/-- What a write of a CSR instruction that is accepted does. -/
theorem write_ok {address : Csr.Address} {value : RegisterValue} {privilege : PrivilegeLevel}
    {cs : ControlState} {u : CsrUpdate} (h : cs.write xlen address value privilege = .ok u) :
    ∃ id, (registers id).address = address ∧
      address.getPrivilegeLevel.toNat ≤ privilege.toNat ∧ u = cs.writeInternal xlen id value := by
  unfold ControlState.write at h
  split at h
  · cases h
  split at h
  · cases h
  next hallowed =>
    split at h
    · cases h
    next id hid =>
      cases h
      refine ⟨id, ?_, Nat.le_of_not_lt hallowed, rfl⟩
      unfold getRegisterInternalId at hid
      split at hid
      next hfound =>
        cases hid
        simpa using List.find?_some hfound
      next => cases hid

variable {other : Csr.Id}

/-- A write changes the register itself, and besides it only the shadows `cycle`, `mstatus` and
`sstatus`. -/
theorem runWriteHandler_frame (value : RegisterValue) {id : Csr.Id} (hid : other ≠ id)
    (hcycle : other ≠ .cycle) (hmstatus : other ≠ .mstatus) (hsstatus : other ≠ .sstatus) :
    (runWriteHandler xlen id value cs).1.registerData other = cs.registerData other := by
  unfold runWriteHandler
  dsimp only
  split <;> simp [hid, hcycle, hmstatus, hsstatus]

theorem writeInternal_frame (value : RegisterValue) {id : Csr.Id} (hid : other ≠ id)
    (hcycle : other ≠ .cycle) (hmstatus : other ≠ .mstatus) (hsstatus : other ≠ .sstatus) :
    (writeInternal xlen id value cs).1.registerData other = cs.registerData other := by
  rw [writeInternal_fst, runWriteHandler_frame value hid hcycle hmstatus hsstatus]

/-- A field of a status register changes no other register. -/
theorem writeField_frame (desc : RegisterFieldDesc) (value : BitVec 64) {other : Csr.Id}
    (hdesc : desc.regId = .mstatus ∨ desc.regId = .sstatus) (hcycle : other ≠ .cycle)
    (hmstatus : other ≠ .mstatus) (hsstatus : other ≠ .sstatus) :
    (writeField xlen desc value cs).1.registerData other = cs.registerData other := by
  refine writeInternal_frame _ ?_ hcycle hmstatus hsstatus
  rcases hdesc with hdesc | hdesc <;> rw [hdesc] <;> assumption

theorem updateExceptionCause_frame (excause : ExceptionCause) (toPrivlev : PrivilegeLevel)
    (hmcause : other ≠ .mcause) (hscause : other ≠ .scause) :
    (updateExceptionCause xlen excause toPrivlev cs).1.registerData other =
      cs.registerData other := by
  unfold updateExceptionCause
  split <;> simp [hmcause, hscause]

/-- The status update of a trap changes status registers only. -/
theorem exceptionInitiate_frame (actPrivlev toPrivlev : PrivilegeLevel) (hcycle : other ≠ .cycle)
    (hmstatus : other ≠ .mstatus) (hsstatus : other ≠ .sstatus) :
    (exceptionInitiate xlen actPrivlev toPrivlev cs).1.registerData other =
      cs.registerData other := by
  have hwrite (desc : RegisterFieldDesc) (value : BitVec 64) (cs : ControlState)
      (hdesc : desc.regId = .mstatus ∨ desc.regId = .sstatus) :=
    @writeField_frame xlen cs desc value other hdesc hcycle hmstatus hsstatus
  by_cases hto : toPrivlev = .machine
  · simp only [exceptionInitiate, if_pos hto, andThen_fst]
    rw [hwrite _ _ _ (.inl rfl), hwrite _ _ _ (.inl rfl), hwrite _ _ _ (.inl rfl)]
  · simp only [exceptionInitiate, if_neg hto, andThen_fst]
    rw [hwrite _ _ _ (.inr rfl), hwrite _ _ _ (.inr rfl), hwrite _ _ _ (.inr rfl)]

/-- The status update of a return changes status registers only. -/
theorem exceptionReturn_frame (actPrivlev xretPrivlev : PrivilegeLevel) (hcycle : other ≠ .cycle)
    (hmstatus : other ≠ .mstatus) (hsstatus : other ≠ .sstatus) :
    (exceptionReturn xlen actPrivlev xretPrivlev cs).2.1.registerData other =
      cs.registerData other := by
  have hwrite (desc : RegisterFieldDesc) (value : BitVec 64) (cs : ControlState)
      (hdesc : desc.regId = .mstatus ∨ desc.regId = .sstatus) :=
    @writeField_frame xlen cs desc value other hdesc hcycle hmstatus hsstatus
  have hclear {r : PrivilegeLevel × CsrUpdate}
      (hr : r.2.1.registerData other = cs.registerData other) :
      (if actPrivlev = .machine ∧ r.1 ≠ .machine then
          andThen r.2 (writeField xlen Field.Mstatus.mprv 0) else r.2).1.registerData other =
        cs.registerData other := by
    split
    · rw [andThen_fst, hwrite _ _ _ (.inl rfl), hr]
    · exact hr
  apply hclear
  cases xretPrivlev with
  | unprivileged | hypervisor => rfl
  | supervisor =>
    simp only [sretUpdate, andThen_fst]
    rw [hwrite _ _ _ (.inl rfl), hwrite _ _ _ (.inl rfl), hwrite _ _ _ (.inl rfl)]
  | machine =>
    simp only [mretUpdate, andThen_fst]
    rw [hwrite _ _ _ (.inl rfl), hwrite _ _ _ (.inl rfl), hwrite _ _ _ (.inl rfl)]

/-- The two files agree on every register but the cycle counters. -/
def AgreeOffCycle (cs cs' : ControlState) : Prop :=
  ∀ id, id ≠ .mcycle → id ≠ .cycle → cs.registerData id = cs'.registerData id

namespace AgreeOffCycle

@[refl]
theorem refl (cs : ControlState) : AgreeOffCycle cs cs := fun _ _ _ => rfl

theorem symm (h : AgreeOffCycle cs cs') : AgreeOffCycle cs' cs :=
  fun id hm hc => (h id hm hc).symm

theorem trans {cs'' : ControlState} (h : AgreeOffCycle cs cs') (h' : AgreeOffCycle cs' cs'') :
    AgreeOffCycle cs cs'' :=
  fun id hm hc => (h id hm hc).trans (h' id hm hc)

theorem set (h : AgreeOffCycle cs cs') (id : Csr.Id) (value : RegisterValue) :
    AgreeOffCycle (cs.set id value) (cs'.set id value) := by
  intro other hm hc
  simp only [set_registerData, h other hm hc]

theorem runWriteHandler (h : AgreeOffCycle cs cs') (xlen : Xlen) (id : Csr.Id)
    (value : RegisterValue) :
    AgreeOffCycle (runWriteHandler xlen id value cs).1 (runWriteHandler xlen id value cs').1 := by
  by_cases hcycle : id = .cycle
  · -- the register that may differ is the one that is written
    subst hcycle
    intro other hm hc
    simp [ControlState.runWriteHandler, registers, hc, h other hm hc]
  by_cases hmcycle : id = .mcycle
  · subst hmcycle
    intro other hm hc
    simp [ControlState.runWriteHandler, registers, hm, hc, h other hm hc]
  have hid := h id hmcycle hcycle
  have hmstatus := h .mstatus (by decide) (by decide)
  simp only [ControlState.runWriteHandler, hid, hmstatus]
  split
  · exact h.set _ _
  · exact (h.set _ _).set _ _
  · exact h.set _ _
  · exact (h.set _ _).set _ _
  · exact (h.set _ _).set _ _

theorem writeInternal (h : AgreeOffCycle cs cs') (xlen : Xlen) (id : Csr.Id)
    (value : RegisterValue) :
    AgreeOffCycle (writeInternal xlen id value cs).1 (writeInternal xlen id value cs').1 :=
  h.runWriteHandler xlen id value

theorem readField (h : AgreeOffCycle cs cs') (desc : RegisterFieldDesc)
    (hm : desc.regId ≠ .mcycle) (hc : desc.regId ≠ .cycle) :
    cs.readField desc = cs'.readField desc := by
  simp only [ControlState.readField, readInternal, h _ hm hc]

theorem writeField (h : AgreeOffCycle cs cs') (xlen : Xlen) (desc : RegisterFieldDesc)
    (hm : desc.regId ≠ .mcycle) (hc : desc.regId ≠ .cycle) (value : BitVec 64) :
    AgreeOffCycle (writeField xlen desc value cs).1 (writeField xlen desc value cs').1 := by
  simp only [ControlState.writeField, readInternal, h _ hm hc]
  exact h.writeInternal xlen desc.regId _

theorem incrementInternal (h : AgreeOffCycle cs cs') (xlen : Xlen) {id : Csr.Id}
    (hm : id ≠ .mcycle) (hc : id ≠ .cycle) (amount : BitVec 64) :
    AgreeOffCycle (incrementInternal xlen id amount cs).1
      (incrementInternal xlen id amount cs').1 := by
  simp only [ControlState.incrementInternal, h id hm hc]
  exact h.writeInternal xlen id _

/-- Counting a cycle keeps agreement. -/
theorem increment_mcycle (xlen : Xlen) (amount : BitVec 64) (cs : ControlState) :
    AgreeOffCycle (ControlState.incrementInternal xlen .mcycle amount cs).1 cs := by
  intro other hm hc
  simp [ControlState.incrementInternal, ControlState.runWriteHandler, registers, hm, hc]

theorem exceptionCauseValue (h : AgreeOffCycle cs cs') (xlen : Xlen) (excause : ExceptionCause)
    (toPrivlev : PrivilegeLevel) :
    exceptionCauseValue xlen excause toPrivlev cs =
      exceptionCauseValue xlen excause toPrivlev cs' := by
  simp only [ControlState.exceptionCauseValue, h .sie (by decide) (by decide),
    h .sip (by decide) (by decide), h .mie (by decide) (by decide),
    h .mip (by decide) (by decide)]

theorem updateExceptionCause (h : AgreeOffCycle cs cs') (xlen : Xlen) (excause : ExceptionCause)
    (toPrivlev : PrivilegeLevel) :
    AgreeOffCycle (updateExceptionCause xlen excause toPrivlev cs).1
      (updateExceptionCause xlen excause toPrivlev cs').1 := by
  simp only [ControlState.updateExceptionCause, h.exceptionCauseValue xlen excause toPrivlev]
  exact h.set _ _

theorem coreInterruptRequest (h : AgreeOffCycle cs cs') (priv : PrivilegeLevel) :
    cs.coreInterruptRequest priv = cs'.coreInterruptRequest priv := by
  simp only [ControlState.coreInterruptRequest, h .sie (by decide) (by decide),
    h .sip (by decide) (by decide), h .mie (by decide) (by decide),
    h .mip (by decide) (by decide),
    h.readField Field.Mstatus.mie (by decide) (by decide),
    h.readField Field.Mstatus.sie (by decide) (by decide)]

theorem exceptionInitiate (h : AgreeOffCycle cs cs') (xlen : Xlen)
    (actPrivlev toPrivlev : PrivilegeLevel) :
    AgreeOffCycle (exceptionInitiate xlen actPrivlev toPrivlev cs).1
      (exceptionInitiate xlen actPrivlev toPrivlev cs').1 := by
  by_cases hto : toPrivlev = .machine
  · have h₁ := h.writeField xlen Field.Mstatus.mpie (by decide) (by decide)
      (cs.readField Field.Mstatus.mie)
    have h₂ := h₁.writeField xlen Field.Mstatus.mie (by decide) (by decide) 0
    simp only [ControlState.exceptionInitiate, if_pos hto, andThen_fst,
      ← h.readField Field.Mstatus.mie (by decide) (by decide)]
    exact h₂.writeField xlen Field.Mstatus.mpp (by decide) (by decide) _
  · have h₁ := h.writeField xlen Field.Sstatus.spie (by decide) (by decide)
      (cs.readField Field.Sstatus.sie)
    have h₂ := h₁.writeField xlen Field.Sstatus.sie (by decide) (by decide) 0
    simp only [ControlState.exceptionInitiate, if_neg hto, andThen_fst,
      ← h.readField Field.Sstatus.sie (by decide) (by decide)]
    exact h₂.writeField xlen Field.Sstatus.spp (by decide) (by decide) _

theorem mretUpdate (h : AgreeOffCycle cs cs') (xlen : Xlen) :
    (mretUpdate xlen cs).1 = (mretUpdate xlen cs').1 ∧
      AgreeOffCycle (mretUpdate xlen cs).2.1 (mretUpdate xlen cs').2.1 := by
  have h₁ := h.writeField xlen Field.Mstatus.mie (by decide) (by decide)
    (cs.readField Field.Mstatus.mpie)
  have h₂ := h₁.writeField xlen Field.Mstatus.mpie (by decide) (by decide) 1
  simp only [ControlState.mretUpdate, andThen_fst,
    ← h.readField Field.Mstatus.mpie (by decide) (by decide),
    h₂.readField Field.Mstatus.mpp (by decide) (by decide), true_and]
  exact h₂.writeField xlen Field.Mstatus.mpp (by decide) (by decide) 0

theorem sretUpdate (h : AgreeOffCycle cs cs') (xlen : Xlen) :
    (sretUpdate xlen cs).1 = (sretUpdate xlen cs').1 ∧
      AgreeOffCycle (sretUpdate xlen cs).2.1 (sretUpdate xlen cs').2.1 := by
  have h₁ := h.writeField xlen Field.Mstatus.sie (by decide) (by decide)
    (cs.readField Field.Mstatus.spie)
  have h₂ := h₁.writeField xlen Field.Mstatus.spie (by decide) (by decide) 1
  simp only [ControlState.sretUpdate, andThen_fst,
    ← h.readField Field.Mstatus.spie (by decide) (by decide),
    h₂.readField Field.Mstatus.spp (by decide) (by decide), true_and]
  exact h₂.writeField xlen Field.Mstatus.spp (by decide) (by decide) 0

/-- A return from a trap restores the same privilege and keeps agreement. -/
theorem exceptionReturn (h : AgreeOffCycle cs cs') (xlen : Xlen)
    (actPrivlev xretPrivlev : PrivilegeLevel) :
    (exceptionReturn xlen actPrivlev xretPrivlev cs).1 =
        (exceptionReturn xlen actPrivlev xretPrivlev cs').1 ∧
      AgreeOffCycle (exceptionReturn xlen actPrivlev xretPrivlev cs).2.1
        (exceptionReturn xlen actPrivlev xretPrivlev cs').2.1 := by
  -- clearing MPRV afterwards depends on the restored privilege only
  have hclear {r r' : PrivilegeLevel × CsrUpdate} (hpriv : r.1 = r'.1)
      (hagree : AgreeOffCycle r.2.1 r'.2.1) :
      AgreeOffCycle
        (if actPrivlev = .machine ∧ r.1 ≠ .machine then
          andThen r.2 (ControlState.writeField xlen Field.Mstatus.mprv 0) else r.2).1
        (if actPrivlev = .machine ∧ r'.1 ≠ .machine then
          andThen r'.2 (ControlState.writeField xlen Field.Mstatus.mprv 0) else r'.2).1 := by
    rw [hpriv]
    split
    · exact hagree.writeField xlen Field.Mstatus.mprv (by decide) (by decide) 0
    · exact hagree
  cases xretPrivlev with
  | unprivileged | hypervisor =>
    exact ⟨rfl, @hclear (.unprivileged, (cs, [])) (.unprivileged, (cs', [])) rfl h⟩
  | supervisor =>
    obtain ⟨hpriv, hagree⟩ := h.sretUpdate xlen
    exact ⟨hpriv, hclear hpriv hagree⟩
  | machine =>
    obtain ⟨hpriv, hagree⟩ := h.mretUpdate xlen
    exact ⟨hpriv, hclear hpriv hagree⟩

end AgreeOffCycle

end ControlState

end QtRvSim
