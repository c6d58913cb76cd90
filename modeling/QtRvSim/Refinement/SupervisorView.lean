import QtRvSim.Csr.Status
import QtRvSim.Library.BitFields
import Mathlib.Logic.Relation

/-!
# The supervisor view of the CSR file

`sstatus` and `sip` show parts of `mstatus` and of `mip`, but they are registers of their own.  The
status view is refreshed by every write of a status register and by nothing else, so it is missing
after a reset of a 64-bit machine; a write of `sstatus` also clears the XLEN fields.  The interrupt
view is refreshed only when an interrupt line changes.
-/

namespace QtRvSim

open Csr ControlState

namespace Csr

/-- The register that a CSR instruction writes, if the write is allowed. -/
def writtenId (address : Csr.Address) (currentPriv : PrivilegeLevel) : Option Id :=
  if !address.isWritable then none
  else if currentPriv.toNat < address.getPrivilegeLevel.toNat then none
  else Id.all.find? fun id => (registers id).address == address

end Csr

/-- A change of the CSR file: a write of an instruction, a write that the core makes on its own, a
part of a trap entry, a trap return, a change of an interrupt line or a reset. -/
inductive CsrOp where
  | write (address : Csr.Address) (value : RegisterValue) (currentPriv : PrivilegeLevel)
  | writeInternal (id : Csr.Id) (value : RegisterValue)
  | updateExceptionCause (excause : ExceptionCause) (toPrivlev : PrivilegeLevel)
  | exceptionInitiate (actPrivlev toPrivlev : PrivilegeLevel)
  | exceptionReturn (actPrivlev xretPrivlev : PrivilegeLevel)
  | setInterruptSignal (irqNum : Nat) (active : Bool)
  | reset

namespace CsrOp

/-- The CSR file after an operation; a write that is not allowed raises an exception and changes
nothing. -/
def apply (xlen : Xlen) (cs : ControlState) : CsrOp → ControlState
  | .write address value currentPriv =>
    match cs.write xlen address value currentPriv with
    | .ok u => u.1
    | .error _ => cs
  | .writeInternal id value => (cs.writeInternal xlen id value).1
  | .updateExceptionCause excause toPrivlev => (cs.updateExceptionCause xlen excause toPrivlev).1
  | .exceptionInitiate actPrivlev toPrivlev => (cs.exceptionInitiate xlen actPrivlev toPrivlev).1
  | .exceptionReturn actPrivlev xretPrivlev =>
    (cs.exceptionReturn xlen actPrivlev xretPrivlev).2.1
  | .setInterruptSignal irqNum active => (cs.setInterruptSignal irqNum active).1
  | .reset => .reset xlen

def run (xlen : Xlen) (isaWord : ConfigIsaWord) (ops : List CsrOp) : ControlState :=
  ops.foldl (apply xlen) (.new xlen isaWord)

theorem run_concat (xlen : Xlen) (isaWord : ConfigIsaWord) (ops : List CsrOp) (op : CsrOp) :
    run xlen isaWord (ops ++ [op]) = op.apply xlen (run xlen isaWord ops) := by
  simp only [run, List.foldl_append, List.foldl_cons, List.foldl_nil]

theorem apply_write (xlen : Xlen) (cs : ControlState) (address : Csr.Address)
    (value : RegisterValue) (currentPriv : PrivilegeLevel) :
    (CsrOp.write address value currentPriv).apply xlen cs =
      match writtenId address currentPriv with
      | some id => (cs.runWriteHandler xlen id value).1
      | none => cs := by
  simp only [apply, ControlState.write, writtenId, getRegisterInternalId]
  by_cases hwritable : !address.isWritable
  · simp only [if_pos hwritable]
  by_cases hpriv : currentPriv.toNat < address.getPrivilegeLevel.toNat
  · simp only [if_neg hwritable, if_pos hpriv]
  simp only [if_neg hwritable, if_neg hpriv]
  cases Id.all.find? fun id => (registers id).address == address with
  | none => rfl
  | some id => exact writeInternal_fst xlen id value cs

/-- The register whose write handler the operation runs. -/
def handled : CsrOp → Option Csr.Id
  | .write address _ currentPriv => writtenId address currentPriv
  | .writeInternal id _ => some id
  | .exceptionInitiate _ toPrivlev => some (if toPrivlev = .machine then .mstatus else .sstatus)
  | .exceptionReturn actPrivlev xretPrivlev =>
    if actPrivlev = .machine ∨ xretPrivlev = .machine ∨ xretPrivlev = .supervisor then
      some .mstatus
    else none
  | _ => none

/-- One of the registers has been written since the last reset. -/
def WrittenSinceReset (ids : List Csr.Id) (ops : List CsrOp) : Prop :=
  ∃ before op after, ops = before ++ op :: after ∧ (∃ id ∈ ids, op.handled = some id) ∧
    .reset ∉ after

theorem not_writtenSinceReset_nil (ids : List Csr.Id) : ¬WrittenSinceReset ids [] := by
  rintro ⟨before, op, after, hops, -⟩
  simp at hops

theorem writtenSinceReset_concat (ids : List Csr.Id) (ops : List CsrOp) (op : CsrOp) :
    WrittenSinceReset ids (ops ++ [op]) ↔
      (∃ id ∈ ids, op.handled = some id) ∨ op ≠ .reset ∧ WrittenSinceReset ids ops := by
  constructor
  · rintro ⟨before, written, after, hops, hwrites, hreset⟩
    rcases List.eq_nil_or_concat after with rfl | ⟨rest, last, rfl⟩
    · obtain ⟨-, hlast⟩ := List.append_inj' hops rfl
      obtain rfl : op = written := by simpa using hlast
      exact .inl hwrites
    · rw [List.concat_eq_append, ← List.cons_append, ← List.append_assoc] at hops
      obtain ⟨hinit, hlast⟩ := List.append_inj' hops rfl
      obtain rfl : op = last := by simpa using hlast
      rw [List.concat_eq_append] at hreset
      simp only [List.mem_append, List.mem_singleton, not_or] at hreset
      exact .inr ⟨Ne.symm hreset.2, before, written, rest, hinit, hwrites, hreset.1⟩
  · rintro (hwrites | ⟨hne, before, written, after, rfl, hwrites, hreset⟩)
    · exact ⟨ops, op, [], rfl, hwrites, List.not_mem_nil⟩
    · refine ⟨before, written, after ++ [op], by simp, hwrites, ?_⟩
      simp only [List.mem_append, List.mem_singleton, not_or]
      exact ⟨hreset, Ne.symm hne⟩

end CsrOp

namespace ControlState

variable {xlen : Xlen} {cs cs' : ControlState}

/-- One CSR file comes from another by writes of a register. -/
def Rewritten (xlen : Xlen) (id : Csr.Id) : ControlState → ControlState → Prop :=
  Relation.TransGen fun cs cs' => ∃ value, cs' = (cs.runWriteHandler xlen id value).1

theorem rewritten_runWriteHandler (id : Csr.Id) (value : RegisterValue) :
    Rewritten xlen id cs (cs.runWriteHandler xlen id value).1 :=
  .single ⟨value, rfl⟩

variable {id : Csr.Id}

theorem rewritten_writeField {desc : RegisterFieldDesc} (hdesc : desc.regId = id)
    (value : BitVec 64) : Rewritten xlen id cs (cs.writeField xlen desc value).1 := by
  subst hdesc
  exact .single ⟨_, writeInternal_fst ..⟩

/-- Three field writes, one after the other. -/
theorem rewritten_writeFields {d₁ d₂ d₃ : RegisterFieldDesc} (hd₁ : d₁.regId = id)
    (hd₂ : d₂.regId = id) (hd₃ : d₃.regId = id) (v₁ v₂ v₃ : BitVec 64) :
    Rewritten xlen id cs
      (((cs.writeField xlen d₁ v₁).1.writeField xlen d₂ v₂).1.writeField xlen d₃ v₃).1 :=
  ((rewritten_writeField hd₁ v₁).trans (rewritten_writeField hd₂ v₂)).trans
    (rewritten_writeField hd₃ v₃)

/-- A property that every write of a register establishes. -/
theorem Rewritten.establish (h : Rewritten xlen id cs cs') (p : ControlState → Prop)
    (hp : ∀ cs value, p (runWriteHandler xlen id value cs).1) : p cs' := by
  cases h with
  | single hwrite =>
    obtain ⟨value, rfl⟩ := hwrite
    exact hp cs value
  | tail _ hwrite =>
    obtain ⟨value, rfl⟩ := hwrite
    exact hp _ value

/-- What every write of a register leaves alone. -/
theorem Rewritten.keep {α : Type} (h : Rewritten xlen id cs cs') (f : ControlState → α)
    (hf : ∀ cs value, f (runWriteHandler xlen id value cs).1 = f cs) : f cs' = f cs := by
  induction h with
  | single hwrite =>
    obtain ⟨value, rfl⟩ := hwrite
    exact hf cs value
  | tail _ hwrite ih =>
    obtain ⟨value, rfl⟩ := hwrite
    rw [hf, ih]

end ControlState

namespace CsrOp

variable {xlen : Xlen} {cs : ControlState} {op : CsrOp}

/-- An operation that runs a write handler does nothing else. -/
theorem apply_of_handled {id : Csr.Id} (hop : op.handled = some id) :
    Rewritten xlen id cs (op.apply xlen cs) := by
  cases op with
  | write address value currentPriv =>
    rw [apply_write, show writtenId address currentPriv = some id from hop]
    exact rewritten_runWriteHandler id value
  | writeInternal other value =>
    obtain rfl : other = id := Option.some.inj hop
    rw [apply, writeInternal_fst]
    exact rewritten_runWriteHandler other value
  | exceptionInitiate actPrivlev toPrivlev =>
    obtain rfl := Option.some.inj hop
    simp only [apply, ControlState.exceptionInitiate]
    split
    · simp only [andThen_fst]
      refine rewritten_writeFields ?_ ?_ ?_ _ _ _ <;> rfl
    · simp only [andThen_fst]
      refine rewritten_writeFields ?_ ?_ ?_ _ _ _ <;> rfl
  | exceptionReturn actPrivlev xretPrivlev =>
    simp only [handled] at hop
    split at hop
    next hwrites =>
      obtain rfl := Option.some.inj hop
      have hmret : Rewritten xlen .mstatus cs (cs.mretUpdate xlen).2.1 := by
        simp only [mretUpdate, andThen_fst]
        refine rewritten_writeFields ?_ ?_ ?_ _ _ _ <;> rfl
      have hsret : Rewritten xlen .mstatus cs (cs.sretUpdate xlen).2.1 := by
        simp only [sretUpdate, andThen_fst]
        refine rewritten_writeFields ?_ ?_ ?_ _ _ _ <;> rfl
      have hclear {r : PrivilegeLevel × CsrUpdate} (hr : Rewritten xlen .mstatus cs r.2.1) :
          Rewritten xlen .mstatus cs (if actPrivlev = .machine ∧ r.1 ≠ .machine then
            andThen r.2 (ControlState.writeField xlen Field.Mstatus.mprv 0) else r.2).1 := by
        split
        · rw [andThen_fst]
          exact hr.trans (rewritten_writeField (by rfl) 0)
        · exact hr
      simp only [apply, ControlState.exceptionReturn, andThen_fst]
      cases xretPrivlev with
      | machine => exact hclear hmret
      | supervisor => exact hclear hsret
      | unprivileged | hypervisor =>
        obtain rfl : actPrivlev = .machine := by simpa using hwrites
        rw [if_pos ⟨rfl, by simp⟩, andThen_fst]
        exact rewritten_writeField (by rfl) 0
    next => cases hop
  | updateExceptionCause _ _ | setInterruptSignal _ _ | reset => cases hop

theorem exceptionReturn_of_not_handled {actPrivlev xretPrivlev : PrivilegeLevel}
    (hop : (CsrOp.exceptionReturn actPrivlev xretPrivlev).handled = none) :
    (cs.exceptionReturn xlen actPrivlev xretPrivlev).2.1 = cs := by
  simp only [handled, ite_eq_right_iff, reduceCtorEq, imp_false, not_or] at hop
  simp only [ControlState.exceptionReturn, andThen_fst, hop.1, false_and, if_false]
  cases xretPrivlev with
  | machine => exact absurd rfl hop.2.1
  | supervisor => exact absurd rfl hop.2.2
  | unprivileged | hypervisor => rfl

/-- Every other operation leaves the status registers, a reset apart. -/
theorem apply_of_not_handled (hop : op.handled = none) (hreset : op ≠ .reset) :
    (op.apply xlen cs).registerData .mstatus = cs.registerData .mstatus ∧
      (op.apply xlen cs).registerData .sstatus = cs.registerData .sstatus := by
  cases op with
  | write address value currentPriv =>
    rw [apply_write, show writtenId address currentPriv = none from hop]
    exact ⟨rfl, rfl⟩
  | writeInternal id value => cases hop
  | updateExceptionCause excause toPrivlev =>
    exact ⟨updateExceptionCause_frame excause toPrivlev (by decide) (by decide),
      updateExceptionCause_frame excause toPrivlev (by decide) (by decide)⟩
  | exceptionInitiate actPrivlev toPrivlev => cases hop
  | exceptionReturn actPrivlev xretPrivlev =>
    rw [apply, exceptionReturn_of_not_handled hop]
    exact ⟨rfl, rfl⟩
  | setInterruptSignal irqNum active =>
    simp only [apply, ControlState.setInterruptSignal]
    split <;> exact ⟨rfl, rfl⟩
  | reset => exact absurd rfl hreset

/-- An operation leaves what only the status registers decide, unless it writes one of them. -/
theorem apply_status (hop : op.handled ≠ some .mstatus) (hop' : op.handled ≠ some .sstatus)
    (hreset : op ≠ .reset) :
    (op.apply xlen cs).registerData .mstatus = cs.registerData .mstatus ∧
      (op.apply xlen cs).registerData .sstatus = cs.registerData .sstatus := by
  cases hid : op.handled with
  | none => exact apply_of_not_handled hid hreset
  | some id =>
    have hm : id ≠ .mstatus := fun h => hop (h ▸ hid)
    have hs : id ≠ .sstatus := fun h => hop' (h ▸ hid)
    have hwritten := @apply_of_handled xlen cs op id hid
    exact ⟨hwritten.keep (registerData · .mstatus) fun _ v => (runWriteHandler_other hm hs v).1,
      hwritten.keep (registerData · .sstatus) fun _ v => (runWriteHandler_other hm hs v).2⟩

end CsrOp

/-! ### The status registers -/

namespace ControlState

variable {xlen : Xlen} {cs : ControlState}

/-- `sstatus` is what the supervisor may see of `mstatus`. -/
def ShowsStatus (xlen : Xlen) (cs : ControlState) : Prop :=
  cs.registerData .sstatus = cs.registerData .mstatus &&& sMask xlen

instance (xlen : Xlen) (cs : ControlState) : Decidable (ShowsStatus xlen cs) :=
  inferInstanceAs (Decidable (_ = _))

theorem sstatusView_eq (xlen : Xlen) (mstatus : RegisterValue) :
    sstatusView xlen mstatus = mstatus &&& sMask xlen := by
  cases xlen with
  | _32 => exact BitVec.and_assoc mstatus (sMask ._32) 0xffffffff
  | _64 => rfl

/-- A write of a status register refreshes the view. -/
theorem showsStatus_runWriteHandler {id : Csr.Id} (hid : id ∈ [Id.mstatus, .sstatus])
    (value : RegisterValue) : ShowsStatus xlen (cs.runWriteHandler xlen id value).1 := by
  simp only [List.mem_cons, List.not_mem_nil, or_false] at hid
  rcases hid with rfl | rfl <;>
    simp [ShowsStatus, runWriteHandler, registers, sstatusView_eq]

/-- After a reset `sstatus` does not show the XLEN fields of a 64-bit machine. -/
theorem showsStatus_reset_iff (xlen : Xlen) : ShowsStatus xlen (.reset xlen) ↔ xlen = ._32 := by
  cases xlen with
  | _32 => exact ⟨fun _ => rfl, fun _ => by decide⟩
  | _64 => exact ⟨fun h => absurd h (by decide), fun h => nomatch h⟩

end ControlState

namespace CsrOp

/-- `sstatus` is the view of `mstatus` exactly on a 32-bit machine and after a status register has
been written since the last reset. -/
theorem sstatus_view_iff (xlen : Xlen) (isaWord : ConfigIsaWord) (ops : List CsrOp) :
    ShowsStatus xlen (run xlen isaWord ops) ↔
      xlen = ._32 ∨ WrittenSinceReset [.mstatus, .sstatus] ops := by
  induction ops using List.reverseRecOn with
  | nil =>
    have hsame : ShowsStatus xlen (run xlen isaWord []) ↔ ShowsStatus xlen (.reset xlen) := by
      cases xlen <;> rfl
    rw [hsame, showsStatus_reset_iff, or_iff_left (not_writtenSinceReset_nil _)]
  | append_singleton ops op ih =>
    rw [run_concat, writtenSinceReset_concat]
    by_cases hop : ∃ id ∈ [Id.mstatus, .sstatus], op.handled = some id
    · obtain ⟨id, hid, hhandled⟩ := hop
      refine iff_of_true ?_ (.inr (.inl ⟨id, hid, hhandled⟩))
      exact (apply_of_handled hhandled).establish _ fun _ => showsStatus_runWriteHandler hid
    by_cases hreset : op = .reset
    · subst hreset
      rw [apply, showsStatus_reset_iff, or_iff_right hop]
      simp
    · obtain ⟨hm, hs⟩ := @apply_status xlen (run xlen isaWord ops) op
        (fun h => hop ⟨_, by simp, h⟩) (fun h => hop ⟨_, by simp, h⟩) hreset
      rw [ShowsStatus, hm, hs, ← ShowsStatus, ih, or_iff_right hop]
      simp [hreset]

/-- A new 64-bit machine. -/
theorem sstatus_misses_xlen_fields : ¬ShowsStatus ._64 (run ._64 ⟨0⟩ []) := by
  decide

end CsrOp

/-! ### The XLEN fields -/

namespace ControlState

variable {cs : ControlState}

/-- The fields UXL and SXL say that the lower modes have 64 bits. -/
def XlenFixed (cs : ControlState) : Prop :=
  cs.readField Field.Mstatus.uxl = 2 ∧ cs.readField Field.Mstatus.sxl = 2

def xlenBits (cs : ControlState) : BitVec 4 :=
  (cs.registerData .mstatus).extractLsb' 32 4

theorem xlenFixed_iff : cs.XlenFixed ↔ cs.xlenBits = 0b1010 := by
  have hfield (k : Nat) : (BitField.mk 2 k).decode (cs.registerData .mstatus) = 2 ↔
      (cs.registerData .mstatus).toNat / 2 ^ k % 2 ^ 2 = 2 := by
    rw [← BitVec.toNat_inj]
    exact Eq.congr_left (BitFields.toNat_field (k := 2) _ k (Nat.le_of_ble_eq_true rfl))
  have hbits : cs.xlenBits = 0b1010 ↔ (cs.registerData .mstatus).toNat / 2 ^ 32 % 2 ^ 4 = 10 := by
    rw [← BitVec.toNat_inj, xlenBits, BitVec.extractLsb'_toNat, Nat.shiftRight_eq_div_pow]
    rfl
  rw [hbits, XlenFixed]
  refine (and_congr (hfield 32) (hfield 34)).trans ?_
  omega

theorem xlenBits_reset : (reset ._64).xlenBits = 0b1010 := by decide

/-- A write of `mstatus` does not reach the XLEN fields. -/
theorem xlenBits_mstatus (value : RegisterValue) :
    (cs.runWriteHandler ._64 .mstatus value).1.xlenBits = cs.xlenBits := by
  have hmask : (0x007FFFEA : BitVec 64).extractLsb' 32 4 = 0#4 := by decide
  have hkeep : (~~~(0x007FFFEA : BitVec 64)).extractLsb' 32 4 = BitVec.allOnes 4 := by decide
  have hne : Id.mstatus ≠ .sstatus := by decide
  simp only [xlenBits, runWriteHandler, registers, set_registerData, if_neg hne, if_true,
    defaultWlrlValue, BitVec.extractLsb'_or, BitVec.extractLsb'_and]
  rw [hmask, hkeep, BitVec.and_zero, BitVec.and_allOnes, BitVec.zero_or]

/-- A write of `sstatus` clears the XLEN fields. -/
theorem xlenBits_sstatus (value : RegisterValue) :
    (cs.runWriteHandler ._64 .sstatus value).1.xlenBits = 0 := by
  have hmask : (0xffffffff : BitVec 64).extractLsb' 32 4 = 0#4 := by decide
  have hkeep : (~~~sMask ._64).extractLsb' 32 4 = 0#4 := by decide
  have hne : Id.mstatus ≠ .sstatus := by decide
  simp only [xlenBits, runWriteHandler, registers, set_registerData, if_neg hne, if_true,
    BitVec.extractLsb'_or, BitVec.extractLsb'_and]
  rw [hmask, hkeep, BitVec.and_zero, BitVec.and_zero, BitVec.zero_and, BitVec.or_zero]
  rfl

end ControlState

namespace CsrOp

/-- The XLEN fields of a 64-bit machine keep the value of the reset exactly until `sstatus` is
written, by software or by a trap to supervisor mode. -/
theorem xlen_fields_fixed_iff (isaWord : ConfigIsaWord) (ops : List CsrOp) :
    (run ._64 isaWord ops).XlenFixed ↔ ¬WrittenSinceReset [.sstatus] ops := by
  -- cleared fields stay cleared, so the history tells the two values apart
  have hbits : (run ._64 isaWord ops).xlenBits = 0b1010 ∧ ¬WrittenSinceReset [.sstatus] ops ∨
      (run ._64 isaWord ops).xlenBits = 0 ∧ WrittenSinceReset [.sstatus] ops := by
    induction ops using List.reverseRecOn with
    | nil => exact .inl ⟨xlenBits_reset, not_writtenSinceReset_nil _⟩
    | append_singleton ops op ih =>
      simp only [run_concat, writtenSinceReset_concat, List.mem_singleton, exists_eq_left]
      by_cases hs : op.handled = some .sstatus
      · refine .inr ⟨?_, .inl hs⟩
        exact (apply_of_handled hs).establish (xlenBits · = 0) fun _ => xlenBits_sstatus
      by_cases hreset : op = .reset
      · subst hreset
        exact .inl ⟨xlenBits_reset, by simp [hs]⟩
      have hkept : (op.apply ._64 (run ._64 isaWord ops)).xlenBits =
          (run ._64 isaWord ops).xlenBits := by
        by_cases hm : op.handled = some .mstatus
        · exact (apply_of_handled hm).keep xlenBits fun _ => xlenBits_mstatus
        · rw [xlenBits, (apply_status hm hs hreset).1, ← xlenBits]
      rw [hkept]
      simpa [hs, hreset] using ih
  rw [xlenFixed_iff]
  rcases hbits with ⟨hvalue, hwritten⟩ | ⟨hvalue, hwritten⟩
  · exact iff_of_true hvalue hwritten
  · refine iff_of_false ?_ (not_not_intro hwritten)
    rw [hvalue]
    decide

/-- Software in machine mode writes zero to `sstatus`. -/
theorem xlen_fields_cleared : ¬(run ._64 ⟨0⟩ [.write 0x100 0 .machine]).XlenFixed := by
  rw [xlenFixed_iff]
  decide

end CsrOp

/-! ### Interrupts -/

namespace ControlState

variable {xlen : Xlen} {cs : ControlState}

/-- `sip` shows the pending interrupts that are delegated. -/
def ShowsPending (cs : ControlState) : Prop :=
  cs.registerData .sip = cs.registerData .mip &&& cs.registerData .mideleg

instance (cs : ControlState) : Decidable cs.ShowsPending :=
  inferInstanceAs (Decidable (_ = _))

/-- The registers of the interrupts only use 32 bits. -/
def LowInterrupts (cs : ControlState) : Prop :=
  ∀ id ∈ [Id.mip, .mideleg, .sip], cs.registerData id &&& 0xffffffff = cs.registerData id

/-- A write of a register leaves the view as it is: it changes no delegated bit of `mip`, delegates
no pending interrupt, takes none back, and leaves `sip`. -/
def KeepsPending (cs : ControlState) (id : Csr.Id) (value : RegisterValue) : Prop :=
  match id with
  | .mip => (value ^^^ cs.registerData .mip) &&& 0x222 &&& cs.registerData .mideleg = 0
  | .mideleg => (value ^^^ cs.registerData .mideleg) &&& 0xffffffff &&& cs.registerData .mip = 0
  | .sip => (value ^^^ cs.registerData .sip) &&& 0x10222 = 0
  | _ => True

/-- A write through a mask leaves a part of a register exactly if it leaves all bits of the part
that are in the mask. -/
theorem merge_and_eq_iff (v r m d : BitVec 64) :
    (v &&& m ||| r &&& ~~~m) &&& d = r &&& d ↔ (v ^^^ r) &&& m &&& d = 0 := by
  have hbit (v r m d : Bool) : ((v && m || r && !m) && d) = (r && d) ↔
      ((v ^^ r) && m && d) = false := by
    revert v r m d
    decide
  constructor
  · intro h
    ext i hi
    have hi' := congrArg (·[i]) h
    simpa [hbit] using hi'
  · intro h
    ext i hi
    have hi' := congrArg (·[i]) h
    simpa [hbit] using hi'

/-- A write through a mask of 32 bits into a register that uses 32 bits. -/
theorem defaultWlrlValue_low {desc : RegisterDesc} {reg : RegisterValue}
    (hmask : desc.writeMask &&& 0xffffffff = desc.writeMask) (hreg : reg &&& 0xffffffff = reg)
    (val : RegisterValue) :
    defaultWlrlValue xlen desc reg val = (val &&& desc.writeMask) ||| (reg &&& ~~~desc.writeMask) ∧
      defaultWlrlValue xlen desc reg val &&& 0xffffffff = defaultWlrlValue xlen desc reg val := by
  have hlow : (val &&& desc.writeMask ||| reg &&& ~~~desc.writeMask) &&& 0xffffffff =
      val &&& desc.writeMask ||| reg &&& ~~~desc.writeMask := by
    rw [BitVec.and_or_distrib_right, BitVec.and_assoc, hmask, BitVec.and_assoc,
      BitVec.and_comm (~~~_), ← BitVec.and_assoc, hreg]
  cases xlen with
  | _32 =>
    simp only [defaultWlrlValue]
    rw [hlow]
    exact ⟨rfl, hlow⟩
  | _64 => exact ⟨rfl, hlow⟩

/-- The registers of the interrupts have the default handler and masks of 32 bits. -/
theorem interrupt_registers {id : Csr.Id} (hid : id ∈ [Id.mip, .mideleg, .sip]) :
    (registers id).writeHandler = .defaultWlrl ∧
      (registers id).writeMask &&& 0xffffffff = (registers id).writeMask ∧
      id ≠ .cycle ∧ id ≠ .mstatus ∧ id ≠ .sstatus ∧ id ≠ .mcause ∧ id ≠ .scause := by
  revert id
  decide

section

variable (h : ∀ id ∈ [Id.mip, .mideleg, .sip], cs.registerData id = 0)
include h

theorem lowInterrupts_of_zero : cs.LowInterrupts := by
  intro id hid
  rw [h id hid]
  rfl

theorem showsPending_of_zero : cs.ShowsPending := by
  rw [ShowsPending, h _ (by simp), h _ (by simp), h _ (by simp)]
  rfl

end

/-- A reset clears the registers of the interrupts. -/
theorem reset_interrupts (xlen : Xlen) :
    ∀ id ∈ [Id.mip, .mideleg, .sip], (reset xlen).registerData id = 0 := by
  cases xlen with
  | _32 | _64 => decide

theorem new_interrupts (xlen : Xlen) (isaWord : ConfigIsaWord) :
    ∀ id ∈ [Id.mip, .mideleg, .sip], (new xlen isaWord).registerData id = 0 := by
  intro id hid
  have hmisa : id ≠ .misa := by
    revert id
    decide
  rw [← reset_interrupts xlen id hid]
  simp [new, hmisa]

/-- What a write does to the registers of the interrupts. -/
theorem runWriteHandler_interrupt (h : cs.LowInterrupts) (id : Csr.Id) (value : RegisterValue)
    {other : Csr.Id} (hother : other ∈ [Id.mip, .mideleg, .sip]) :
    (cs.runWriteHandler xlen id value).1.registerData other =
      if other = id then (value &&& (registers id).writeMask) |||
        (cs.registerData id &&& ~~~(registers id).writeMask) else cs.registerData other := by
  obtain ⟨hhandler, hmask, hcycle, hmstatus, hsstatus, -⟩ := interrupt_registers hother
  by_cases hid : other = id
  · subst hid
    simp only [runWriteHandler, hhandler, set_registerData, if_true]
    exact (defaultWlrlValue_low hmask (h other hother) value).1
  · rw [if_neg hid, runWriteHandler_frame value hid hcycle hmstatus hsstatus]

theorem LowInterrupts.runWriteHandler (h : cs.LowInterrupts) (id : Csr.Id)
    (value : RegisterValue) : (cs.runWriteHandler xlen id value).1.LowInterrupts := by
  intro other hother
  obtain ⟨hhandler, hmask, hcycle, hmstatus, hsstatus, -⟩ := interrupt_registers hother
  by_cases hid : other = id
  · subst hid
    simp only [ControlState.runWriteHandler, hhandler, set_registerData, if_true]
    exact (defaultWlrlValue_low hmask (h other hother) value).2
  · rw [runWriteHandler_frame value hid hcycle hmstatus hsstatus]
    exact h other hother

theorem LowInterrupts.setInterruptSignal (h : cs.LowInterrupts) (irqNum : Nat) (active : Bool) :
    (cs.setInterruptSignal irqNum active).1.LowInterrupts := by
  simp only [ControlState.setInterruptSignal]
  split
  next => exact h
  next hirq =>
    have hline : (1#64 <<< irqNum) &&& 0xffffffff = 1#64 <<< irqNum := by
      have hall : ∀ n : Fin 32, (1#64 <<< n.val) &&& 0xffffffff = 1#64 <<< n.val := by decide
      exact hall ⟨irqNum, by omega⟩
    have hmip : (if active then cs.registerData .mip ||| 1#64 <<< irqNum
        else cs.registerData .mip &&& ~~~(1#64 <<< irqNum)) &&& 0xffffffff =
        if active then cs.registerData .mip ||| 1#64 <<< irqNum
        else cs.registerData .mip &&& ~~~(1#64 <<< irqNum) := by
      split
      · rw [BitVec.and_or_distrib_right, hline, h .mip (by simp)]
      · rw [BitVec.and_assoc, BitVec.and_comm (~~~_), ← BitVec.and_assoc, h .mip (by simp)]
    intro id hid
    simp only [List.mem_cons, List.not_mem_nil, or_false] at hid
    rcases hid with rfl | rfl | rfl
    · simpa using hmip
    · simpa using h .mideleg (by simp)
    · simp only [set_registerData, if_true]
      rw [BitVec.and_assoc, h .mideleg (by simp)]

/-- Which writes leave the view of the pending interrupts. -/
theorem showsPending_runWriteHandler_iff (hlow : cs.LowInterrupts) (h : cs.ShowsPending)
    (id : Csr.Id) (value : RegisterValue) :
    (cs.runWriteHandler xlen id value).1.ShowsPending ↔ cs.KeepsPending id value := by
  have hwrite := @runWriteHandler_interrupt xlen cs hlow id value
  rw [ShowsPending, hwrite (by simp), hwrite (by simp), hwrite (by simp)]
  by_cases hid : id ∈ [Id.mip, .mideleg, .sip]
  · simp only [List.mem_cons, List.not_mem_nil, or_false] at hid
    rw [ShowsPending] at h
    rcases hid with rfl | rfl | rfl
    · simp only [reduceCtorEq, if_false, if_true, KeepsPending, ← merge_and_eq_iff, registers]
      rw [h, eq_comm]
    · simp only [reduceCtorEq, if_false, if_true, KeepsPending, ← merge_and_eq_iff, registers]
      rw [h, eq_comm, BitVec.and_comm (cs.registerData .mip),
        BitVec.and_comm (cs.registerData .mip)]
    · have hall := merge_and_eq_iff value (cs.registerData .sip) 0x10222 (BitVec.allOnes 64)
      simp only [BitVec.and_allOnes] at hall
      simp only [reduceCtorEq, if_false, if_true, KeepsPending, ← hall, registers]
      rw [← h]
  · have hne : ∀ other ∈ [Id.mip, .mideleg, .sip], other ≠ id :=
      fun other hother heq => hid (heq ▸ hother)
    rw [if_neg (hne _ (by simp)), if_neg (hne _ (by simp)), if_neg (hne _ (by simp))]
    refine iff_of_true h ?_
    cases id with
    | mip | mideleg | sip => exact absurd (by simp) hid
    | _ => trivial

end ControlState

namespace CsrOp

variable {xlen : Xlen} {cs : ControlState} {op : CsrOp}

/-- The operation leaves the view of the pending interrupts or refreshes it. -/
def KeepsPending (cs : ControlState) : CsrOp → Prop
  | .write address value currentPriv =>
    ∀ id, writtenId address currentPriv = some id → cs.KeepsPending id value
  | .writeInternal id value => cs.KeepsPending id value
  | _ => True

/-- Traps leave the registers of the interrupts. -/
theorem apply_trap {id : Csr.Id} (hid : id ∈ [Id.mip, .mideleg, .sip])
    (hop : op.handled = some .mstatus ∨ op.handled = some .sstatus) :
    (op.apply xlen cs).registerData id = cs.registerData id := by
  obtain ⟨-, -, hcycle, hmstatus, hsstatus, -⟩ := interrupt_registers hid
  rcases hop with hop | hop
  · exact (apply_of_handled hop).keep (registerData · id) fun _ v =>
      runWriteHandler_frame v hmstatus hcycle hmstatus hsstatus
  · exact (apply_of_handled hop).keep (registerData · id) fun _ v =>
      runWriteHandler_frame v hsstatus hcycle hmstatus hsstatus

/-- What every operation keeps that every write and every change of an interrupt line keeps. -/
theorem apply_induction (p : ControlState → Prop) (h : p cs) (op : CsrOp)
    (hwrite : ∀ cs id value, p cs → p (cs.runWriteHandler xlen id value).1)
    (hcause : ∀ excause toPrivlev, p (cs.updateExceptionCause xlen excause toPrivlev).1)
    (hsignal : ∀ irqNum active, p (cs.setInterruptSignal irqNum active).1)
    (hreset : p (.reset xlen)) : p (op.apply xlen cs) := by
  have hrewritten {id : Csr.Id} {cs' : ControlState} (hr : Rewritten xlen id cs cs') : p cs' := by
    induction hr with
    | single hstep =>
      obtain ⟨value, rfl⟩ := hstep
      exact hwrite cs id value h
    | tail _ hstep ih =>
      obtain ⟨value, rfl⟩ := hstep
      exact hwrite _ id value ih
  cases hop : op.handled with
  | some id => exact hrewritten (apply_of_handled hop)
  | none =>
    cases op with
    | write address value currentPriv =>
      rw [apply_write, show writtenId address currentPriv = none from hop]
      exact h
    | writeInternal id value => cases hop
    | updateExceptionCause excause toPrivlev => exact hcause excause toPrivlev
    | exceptionInitiate actPrivlev toPrivlev => cases hop
    | exceptionReturn actPrivlev xretPrivlev =>
      rw [apply, exceptionReturn_of_not_handled hop]
      exact h
    | setInterruptSignal irqNum active => exact hsignal irqNum active
    | reset => exact hreset

theorem lowInterrupts_apply (h : cs.LowInterrupts) (op : CsrOp) :
    (op.apply xlen cs).LowInterrupts := by
  refine apply_induction _ h op (fun _ id value h => h.runWriteHandler id value) ?_ ?_ ?_
  · intro excause toPrivlev id hid
    obtain ⟨-, -, -, -, -, hmcause, hscause⟩ := interrupt_registers hid
    rw [updateExceptionCause_frame excause toPrivlev hmcause hscause]
    exact h id hid
  · exact h.setInterruptSignal
  · exact lowInterrupts_of_zero (reset_interrupts xlen)

/-- Which operations leave the view of the pending interrupts. -/
theorem showsPending_apply_iff (hlow : cs.LowInterrupts) (h : cs.ShowsPending) (op : CsrOp) :
    (op.apply xlen cs).ShowsPending ↔ op.KeepsPending cs := by
  have hkept (hop : ∀ id ∈ [Id.mip, .mideleg, .sip],
      (op.apply xlen cs).registerData id = cs.registerData id) :
      (op.apply xlen cs).ShowsPending := by
    rw [ShowsPending, hop _ (by simp), hop _ (by simp), hop _ (by simp)]
    exact h
  cases op with
  | write address value currentPriv =>
    rw [apply_write, KeepsPending]
    cases writtenId address currentPriv with
    | none => exact iff_of_true h fun _ hid => nomatch hid
    | some id =>
      simp only [Option.some.injEq, forall_eq']
      exact showsPending_runWriteHandler_iff hlow h id value
  | writeInternal id value =>
    rw [apply, writeInternal_fst]
    exact showsPending_runWriteHandler_iff hlow h id value
  | updateExceptionCause excause toPrivlev =>
    refine iff_of_true (hkept fun id hid => ?_) trivial
    obtain ⟨-, -, -, -, -, hmcause, hscause⟩ := interrupt_registers hid
    exact updateExceptionCause_frame excause toPrivlev hmcause hscause
  | exceptionInitiate actPrivlev toPrivlev =>
    refine iff_of_true (hkept fun id hid => apply_trap hid ?_) trivial
    by_cases hto : toPrivlev = .machine
    · exact .inl (by rw [handled, if_pos hto])
    · exact .inr (by rw [handled, if_neg hto])
  | exceptionReturn actPrivlev xretPrivlev =>
    refine iff_of_true (hkept fun id hid => ?_) trivial
    by_cases hop : (CsrOp.exceptionReturn actPrivlev xretPrivlev).handled = none
    · rw [apply, exceptionReturn_of_not_handled hop]
    · refine apply_trap hid (.inl ?_)
      simp only [handled] at hop ⊢
      split at hop
      next hwrites => exact if_pos hwrites
      next => exact absurd rfl hop
  | setInterruptSignal irqNum active =>
    refine iff_of_true ?_ trivial
    simp only [apply, ControlState.setInterruptSignal]
    split
    · exact h
    · simp [ShowsPending]
  | reset => exact iff_of_true (showsPending_of_zero (reset_interrupts xlen)) trivial

theorem lowInterrupts_run (xlen : Xlen) (isaWord : ConfigIsaWord) (ops : List CsrOp) :
    (run xlen isaWord ops).LowInterrupts := by
  induction ops using List.reverseRecOn with
  | nil => exact lowInterrupts_of_zero (new_interrupts xlen isaWord)
  | append_singleton ops op ih =>
    rw [run_concat]
    exact lowInterrupts_apply ih op

/-- `sip` is the view of `mip` throughout a run exactly if every write of the run keeps it. -/
theorem sip_view_iff (xlen : Xlen) (isaWord : ConfigIsaWord) (ops : List CsrOp) :
    (∀ done, done <+: ops → (run xlen isaWord done).ShowsPending) ↔
      ∀ done op, done ++ [op] <+: ops → op.KeepsPending (run xlen isaWord done) := by
  have hstep (done : List CsrOp) (op : CsrOp) (h : (run xlen isaWord done).ShowsPending) :
      (run xlen isaWord (done ++ [op])).ShowsPending ↔ op.KeepsPending (run xlen isaWord done) := by
    rw [run_concat]
    exact showsPending_apply_iff (lowInterrupts_run xlen isaWord done) h op
  constructor
  · intro h done op hdone
    exact (hstep done op (h done ((List.prefix_append ..).trans hdone))).mp (h _ hdone)
  · intro h done hdone
    induction done using List.reverseRecOn with
    | nil => exact showsPending_of_zero (new_interrupts xlen isaWord)
    | append_singleton done op ih =>
      exact (hstep done op (ih ((List.prefix_append ..).trans hdone))).mpr (h done op hdone)

/-- Software delegates the supervisor software interrupt and then raises it in `mip`. -/
theorem sip_misses_software_interrupt :
    ¬(run ._32 ⟨0⟩ [.write 0x303 2 .machine, .write 0x344 2 .machine]).ShowsPending := by
  decide

end CsrOp

/-! ### Delegation -/

namespace ControlState

/-- An interrupt that the machine has to take itself is pending and enabled. -/
def UndelegatedPending (cs : ControlState) : Prop :=
  cs.registerData .mip &&& cs.registerData .mie &&& ~~~cs.registerData .mideleg ≠ 0

instance (cs : ControlState) : Decidable cs.UndelegatedPending :=
  inferInstanceAs (Decidable (_ ≠ _))

/-- The core takes interrupts of machine mode. -/
def MachineEnabled (cs : ControlState) (currentPriv : PrivilegeLevel) : Prop :=
  currentPriv ≠ .machine ∨ cs.readField Field.Mstatus.mie ≠ 0

/-- The request ignores the delegation: a machine interrupt is requested for nothing but delegated
interrupts exactly if one of them is pending and enabled where machine interrupts are taken. -/
theorem interrupt_delegation_iff (cs : ControlState) (currentPriv : PrivilegeLevel) :
    ((cs.coreInterruptRequest currentPriv = .intM → cs.UndelegatedPending) ∧
        (currentPriv = .machine → cs.coreInterruptRequest currentPriv ≠ .intS)) ↔
      ¬(cs.registerData .mip &&& cs.registerData .mie ≠ 0 ∧ ¬cs.UndelegatedPending ∧
        cs.MachineEnabled currentPriv) := by
  have hsupervisor (hpriv : currentPriv = .machine) :
      cs.coreInterruptRequest currentPriv ≠ .intS := by
    subst hpriv
    simp only [coreInterruptRequest]
    split
    · simp
    · simp [PrivilegeLevel.toNat]
  have hmachine : cs.coreInterruptRequest currentPriv = .intM ↔
      cs.registerData .mip &&& cs.registerData .mie ≠ 0 ∧ cs.MachineEnabled currentPriv := by
    have henabled : (decide (currentPriv.toNat < PrivilegeLevel.machine.toNat) ||
        (currentPriv == .machine && cs.readField Field.Mstatus.mie != 0)) = true ↔
        cs.MachineEnabled currentPriv := by
      cases currentPriv <;> simp [MachineEnabled, PrivilegeLevel.toNat]
    rw [← henabled, coreInterruptRequest]
    split
    next h => exact iff_of_true rfl h
    next h =>
      refine iff_of_false ?_ h
      split <;> simp
  rw [and_iff_left hsupervisor, hmachine]
  tauto

/-- The supervisor software interrupt is delegated, pending and enabled; the supervisor is told to
go to machine mode. -/
theorem delegated_interrupt_requested :
    let cs := (((ControlState.reset ._32).set .mip 2).set .mie 2).set .mideleg 2
    cs.coreInterruptRequest .supervisor = .intM ∧ ¬cs.UndelegatedPending := by
  intro cs
  decide

end ControlState

end QtRvSim
