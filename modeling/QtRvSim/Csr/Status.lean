import QtRvSim.Csr.Frame

/-!
# The status registers

`mstatus` and `sstatus` are two stored registers; a write of one updates the other.  The fields that
both have are equal in every state (`StatusAgree`), so a write of a field through either register is
a write of the bits of one status word (`writeField_status`), and the status updates of a trap and
of a return are a few such writes.
-/

namespace QtRvSim

open BitVec ControlState

namespace ControlState

open Csr

variable {xlen : Xlen} {cs : ControlState}

def status (cs : ControlState) (i : Nat) : Bool :=
  (cs.registerData .mstatus).getLsbD i

/-- The low word of `sstatus` is what it shows of `mstatus`. -/
def StatusAgree (xlen : Xlen) (cs : ControlState) : Prop :=
  ∀ i < 32, (sMask xlen).getLsbD i = true →
    (cs.registerData .sstatus).getLsbD i = cs.status i

variable {i : Nat}

theorem lowWord_getLsbD (hi : i < 32) : (0xffffffff : BitVec 64).getLsbD i = true := by
  revert i
  decide

theorem lowWord_lt (hbit : (0xffffffff : BitVec 64).getLsbD i = true) : i < 32 := by
  have hpow : (0xffffffff : BitVec 64) = BitVec.ofNat 64 (2 ^ 32 - 1) := rfl
  rw [hpow, BitVec.getLsbD_ofNat, Nat.testBit_two_pow_sub_one, Bool.and_eq_true] at hbit
  exact of_decide_eq_true hbit.2

theorem defaultWlrlValue_getLsbD (hi : i < 32) (desc : RegisterDesc) (reg val : RegisterValue) :
    (defaultWlrlValue xlen desc reg val).getLsbD i =
      if desc.writeMask.getLsbD i then val.getLsbD i else reg.getLsbD i := by
  have hlow := lowWord_getLsbD hi
  have hlt : i < 64 := by omega
  have hmerge (v r m : Bool) : (v && m || r && !m) = if m then v else r := by
    cases m <;> simp
  cases xlen <;> simp only [defaultWlrlValue, getLsbD_and, getLsbD_or,
    getLsbD_not, hlow, hlt, decide_true, Bool.true_and, Bool.and_true, hmerge]

theorem sstatusView_getLsbD (hi : i < 32) (hmask : (sMask xlen).getLsbD i = true)
    (mstatus : RegisterValue) : (sstatusView xlen mstatus).getLsbD i = mstatus.getLsbD i := by
  have hlow := lowWord_getLsbD hi
  cases xlen <;> simp only [sstatusView, getLsbD_and, hmask, hlow, Bool.and_true]

/-- The status word after a write of `mstatus`. -/
theorem runWriteHandler_mstatus_status (hi : i < 32) (value : RegisterValue) :
    (cs.runWriteHandler xlen .mstatus value).1.status i =
      if (registers .mstatus).writeMask.getLsbD i then value.getLsbD i else cs.status i := by
  have hne : Id.mstatus ≠ .sstatus := by decide
  simp only [status, runWriteHandler, registers, set_registerData, if_neg hne, if_true]
  exact defaultWlrlValue_getLsbD hi _ _ _

/-- The status word after a write of `sstatus`. -/
theorem runWriteHandler_sstatus_status (hi : i < 32) (value : RegisterValue) :
    (cs.runWriteHandler xlen .sstatus value).1.status i =
      if (sMask xlen).getLsbD i then value.getLsbD i else cs.status i := by
  have hlow := lowWord_getLsbD hi
  have hne : Id.mstatus ≠ .sstatus := by decide
  have hlt : i < 64 := by omega
  simp only [status, runWriteHandler, registers, set_registerData, if_neg hne, if_true]
  cases hmask : (sMask xlen).getLsbD i <;> simp only [getLsbD_and, getLsbD_or,
    getLsbD_not, hmask, hlow, hlt, decide_true, Bool.not_true, Bool.not_false, Bool.and_true,
    Bool.and_false, Bool.or_false, Bool.false_or, Bool.false_eq_true, if_false, if_true]

/-- Only writes of the status registers change them. -/
theorem runWriteHandler_other {id : Csr.Id} (hmstatus : id ≠ .mstatus) (hsstatus : id ≠ .sstatus)
    (value : RegisterValue) :
    (cs.runWriteHandler xlen id value).1.registerData .mstatus = cs.registerData .mstatus ∧
      (cs.runWriteHandler xlen id value).1.registerData .sstatus = cs.registerData .sstatus := by
  have hhandler : (registers id).writeHandler ≠ .mstatusWlrl ∧
      (registers id).writeHandler ≠ .sstatusWlrl := by
    cases id <;> simp_all [registers]
  have hm : Id.mstatus ≠ id := hmstatus.symm
  have hs : Id.sstatus ≠ id := hsstatus.symm
  unfold runWriteHandler
  dsimp only
  split
  · simp [hm, hs]
  next h => exact absurd h hhandler.1
  · simp [hm, hs]
  · simp [hm, hs]
  next h => exact absurd h hhandler.2

theorem StatusAgree.runWriteHandler (h : StatusAgree xlen cs) (id : Csr.Id)
    (value : RegisterValue) : StatusAgree xlen (cs.runWriteHandler xlen id value).1 := by
  intro i hi hmask
  by_cases hstatus : id = .mstatus ∨ id = .sstatus
  · have hne : Id.mstatus ≠ .sstatus := by decide
    rcases hstatus with rfl | rfl <;>
      simp only [status, ControlState.runWriteHandler, registers, set_registerData, if_neg hne,
        if_true]
    all_goals exact sstatusView_getLsbD hi hmask _
  · obtain ⟨hmstatus, hsstatus⟩ := not_or.mp hstatus
    obtain ⟨hm, hs⟩ := @runWriteHandler_other xlen cs id hmstatus hsstatus value
    rw [status, hm, hs]
    exact h i hi hmask

/-- The CSR files that writes lead to: every write of a CSR, by an instruction or by the core,
runs the write handler of its register. -/
inductive Written (xlen : Xlen) (isaWord : ConfigIsaWord) : ControlState → Prop where
  | new : Written xlen isaWord (.new xlen isaWord)
  | write {cs : ControlState} (h : Written xlen isaWord cs) (id : Csr.Id) (value : RegisterValue) :
      Written xlen isaWord (cs.runWriteHandler xlen id value).1

theorem statusAgree_new (xlen : Xlen) (isaWord : ConfigIsaWord) :
    StatusAgree xlen (.new xlen isaWord) := by
  have hsstatus : (new xlen isaWord).registerData .sstatus = 0 := by
    cases xlen <;> simp [new, reset, writeFieldRaw, registers, Field.Mstatus.uxl, Field.Mstatus.sxl]
  have hmstatus : (new xlen isaWord).registerData .mstatus =
      if xlen = ._32 then 0 else 0xa00000000 := by
    cases xlen with
    | _32 => simp [new, reset, registers]
    | _64 =>
      simp only [new, reset, writeFieldRaw, set_registerData, Field.Mstatus.uxl,
        Field.Mstatus.sxl, reduceCtorEq, if_false, if_true]
      rfl
  intro i hi hmask
  rw [status, hsstatus, hmstatus]
  cases xlen with
  | _32 => rfl
  | _64 =>
    have hlow : ∀ i < 32, (0 : BitVec 64).getLsbD i = (0xa00000000 : BitVec 64).getLsbD i := by
      decide
    exact hlow i hi

theorem Written.statusAgree {isaWord : ConfigIsaWord} (h : Written xlen isaWord cs) :
    StatusAgree xlen cs := by
  induction h with
  | new => exact statusAgree_new xlen isaWord
  | write _ id value ih => exact ih.runWriteHandler id value

/-- A field write replaces the bits of the field. -/
theorem update_getLsbD (desc : RegisterFieldDesc) (orig val : BitVec 64) (hi : i < 64) :
    (desc.update orig val).getLsbD i =
      if desc.mask.getLsbD i then val.getLsbD (i - desc.field.offset) else orig.getLsbD i := by
  have hencode : (desc.encode val).getLsbD i =
      (desc.mask.getLsbD i && val.getLsbD (i - desc.field.offset)) := by
    simp only [RegisterFieldDesc.encode, RegisterFieldDesc.mask, BitField.mask,
      getLsbD_shiftLeft, getLsbD_and]
    ac_rfl
  simp only [RegisterFieldDesc.update, getLsbD_or, getLsbD_and, getLsbD_not,
    hencode, hi, decide_true, Bool.true_and]
  cases desc.mask.getLsbD i <;> simp

/-- The field belongs to a status register and can be written. -/
def IsStatusField (xlen : Xlen) (desc : RegisterFieldDesc) : Prop :=
  (desc.regId = .mstatus ∧ desc.mask &&& ~~~(registers .mstatus).writeMask = 0) ∨
    (desc.regId = .sstatus ∧ desc.mask &&& ~~~sMask xlen = 0)

instance (xlen : Xlen) (desc : RegisterFieldDesc) : Decidable (IsStatusField xlen desc) :=
  inferInstanceAs (Decidable (_ ∨ _))

theorem getLsbD_of_and_not_eq_zero {x m : BitVec 64} (h : x &&& ~~~m = 0) (hx : x.getLsbD i = true)
    : m.getLsbD i = true := by
  have hi : i < 64 := lt_of_getLsbD hx
  have hbit := congrArg (fun v : BitVec 64 => v.getLsbD i) h
  simpa [hx, hi] using hbit

/-- A field write through either status register writes the bits of the status word. -/
theorem writeField_status (h : StatusAgree xlen cs) {desc : RegisterFieldDesc}
    (hdesc : IsStatusField xlen desc) (value : BitVec 64) (hi : i < 32) :
    (cs.writeField xlen desc value).1.status i =
      if desc.mask.getLsbD i then value.getLsbD (i - desc.field.offset) else cs.status i := by
  have hlt : i < 64 := by omega
  rw [writeField, writeInternal_fst, readInternal]
  rcases hdesc with ⟨hreg, hmask⟩ | ⟨hreg, hmask⟩
  · rw [hreg, runWriteHandler_mstatus_status hi, update_getLsbD desc _ _ hlt]
    cases hfield : desc.mask.getLsbD i with
    | true =>
      rw [if_pos (getLsbD_of_and_not_eq_zero hmask hfield)]
      rfl
    | false =>
      simp only [Bool.false_eq_true, if_false]
      exact ite_id _
  · rw [hreg, runWriteHandler_sstatus_status hi, update_getLsbD desc _ _ hlt]
    cases hfield : desc.mask.getLsbD i with
    | true =>
      rw [if_pos (getLsbD_of_and_not_eq_zero hmask hfield)]
      rfl
    | false =>
      simp only [Bool.false_eq_true, if_false]
      split
      next hshown => exact h i hi hshown
      next => rfl

theorem StatusAgree.writeField (h : StatusAgree xlen cs) (desc : RegisterFieldDesc)
    (value : BitVec 64) : StatusAgree xlen (cs.writeField xlen desc value).1 := by
  rw [ControlState.writeField, writeInternal_fst]
  exact h.runWriteHandler _ _

/-- The field is one of `mstatus`, or one that `sstatus` shows, in the low word. -/
def IsShownField (xlen : Xlen) (desc : RegisterFieldDesc) : Prop :=
  (desc.regId = .mstatus ∧ desc.mask &&& ~~~0xffffffff = 0) ∨
    (desc.regId = .sstatus ∧ desc.mask &&& ~~~(sMask xlen &&& 0xffffffff) = 0)

instance (xlen : Xlen) (desc : RegisterFieldDesc) : Decidable (IsShownField xlen desc) :=
  inferInstanceAs (Decidable (_ ∨ _))

/-- Such a field reads as its bits of the status word. -/
theorem StatusAgree.readField_eq (h : StatusAgree xlen cs) {desc : RegisterFieldDesc}
    (hdesc : IsShownField xlen desc) {v : BitVec 64}
    (hv : ∀ i < 32, desc.mask.getLsbD i = true → cs.status i = v.getLsbD i) :
    cs.readField desc = desc.decode v := by
  refine BitField.decode_eq_of_mask desc.field (and_self ..) ?_
  apply eq_of_getLsbD_eq
  intro i _
  rw [getLsbD_and, getLsbD_xor, getLsbD_zero]
  cases hbit : desc.mask.getLsbD i with
  | false => exact (congrArg _ hbit).trans (Bool.and_false _)
  | true =>
    have hsame : (cs.readInternal desc.regId).getLsbD i = v.getLsbD i := by
      rw [readInternal]
      rcases hdesc with ⟨hreg, hmask⟩ | ⟨hreg, hmask⟩
      · rw [hreg]
        exact hv i (lowWord_lt (getLsbD_of_and_not_eq_zero hmask hbit)) hbit
      · have hshown := getLsbD_of_and_not_eq_zero hmask hbit
        rw [getLsbD_and, Bool.and_eq_true] at hshown
        rw [hreg, h i (lowWord_lt hshown.2) hshown.1]
        exact hv i (lowWord_lt hshown.2) hbit
    rw [hsame, Bool.xor_self, Bool.false_and]

/-! ### Traps and returns -/

def ieBit (toS : Bool) : Nat := if toS then 1 else 3

def pieBit (toS : Bool) : Nat := if toS then 5 else 7

def ppBits (toS : Bool) : List Nat := if toS then [8] else [11, 12]

/-- The field has one bit of the status word. -/
theorem StatusAgree.readField_bit (h : StatusAgree xlen cs) {id : Csr.Id} {k : Nat}
    (hdesc : IsShownField xlen ⟨id, ⟨1, k⟩⟩) :
    (cs.readField ⟨id, ⟨1, k⟩⟩).getLsbD 0 = cs.status k := by
  rw [h.readField_eq hdesc (v := cs.registerData .mstatus) fun _ _ _ => rfl]
  rw [RegisterFieldDesc.decode, BitField.decode_bit, status]
  cases (cs.registerData .mstatus).getLsbD k <;> rfl

/-- Three field writes, one after the other. -/
theorem writeFields_status (h : StatusAgree xlen cs) {d₁ d₂ d₃ : RegisterFieldDesc}
    (hd : ∀ d ∈ [d₁, d₂, d₃], IsStatusField xlen d) (v₁ v₂ v₃ : BitVec 64) (hi : i < 32)
    {p₁ p₂ p₃ : Prop} [Decidable p₁] [Decidable p₂] [Decidable p₃]
    (hmask : d₁.mask.getLsbD i = decide p₁ ∧ d₂.mask.getLsbD i = decide p₂ ∧
      d₃.mask.getLsbD i = decide p₃) :
    (((cs.writeField xlen d₁ v₁).1.writeField xlen d₂ v₂).1.writeField xlen d₃ v₃).1.status i =
      if p₃ then v₃.getLsbD (i - d₃.field.offset)
      else if p₂ then v₂.getLsbD (i - d₂.field.offset)
      else if p₁ then v₁.getLsbD (i - d₁.field.offset)
      else cs.status i := by
  simp only [List.forall_mem_cons] at hd
  rw [writeField_status ((h.writeField d₁ v₁).writeField d₂ v₂) hd.2.2.1 v₃ hi,
    writeField_status (h.writeField d₁ v₁) hd.2.1 v₂ hi, writeField_status h hd.1 v₁ hi,
    hmask.1, hmask.2.1, hmask.2.2]
  simp only [decide_eq_true_eq]

/-- What a trap to a mode keeps of the previous privilege, in the place of its bits. -/
def ppWord (toS : Bool) (p : PrivilegeLevel) : BitVec 64 :=
  if toS then (if p = .supervisor then 1 else 0) <<< 8 else BitVec.ofNat 64 p.toNat <<< 11

theorem StatusAgree.exceptionInitiate (h : StatusAgree xlen cs) (p toPrivlev : PrivilegeLevel) :
    StatusAgree xlen (cs.exceptionInitiate xlen p toPrivlev).1 := by
  unfold ControlState.exceptionInitiate
  split
  · simp only [andThen_fst]
    exact ((h.writeField _ _).writeField _ _).writeField _ _
  · simp only [andThen_fst]
    exact ((h.writeField _ _).writeField _ _).writeField _ _

def trapStatus (toS : Bool) (p : PrivilegeLevel) (bits : Nat → Bool) (i : Nat) : Bool :=
  if i ∈ ppBits toS then (ppWord toS p).getLsbD i
  else if i = ieBit toS then false
  else if i = pieBit toS then bits (ieBit toS)
  else bits i

def returnStatus (toS : Bool) (bits : Nat → Bool) (i : Nat) : Bool :=
  if i ∈ ppBits toS then false
  else if i = pieBit toS then true
  else if i = ieBit toS then bits (pieBit toS)
  else bits i

theorem exceptionInitiate_status (h : StatusAgree xlen cs) (p : PrivilegeLevel) (toS : Bool)
    (hi : i < 32) :
    (cs.exceptionInitiate xlen p (if toS then .supervisor else .machine)).1.status i =
      trapStatus toS p cs.status i := by
  have hwrites {dpie die dpp : RegisterFieldDesc}
      (hd : ∀ d ∈ [dpie, die, dpp], IsStatusField xlen d)
      (hmask : ∀ i < 32, dpie.mask.getLsbD i = decide (i = pieBit toS) ∧
        die.mask.getLsbD i = decide (i = ieBit toS) ∧ dpp.mask.getLsbD i = decide (i ∈ ppBits toS))
      {vpie vpp : BitVec 64}
      (hpie : vpie.getLsbD (pieBit toS - dpie.field.offset) = cs.status (ieBit toS))
      (hpp : ∀ i ∈ ppBits toS, vpp.getLsbD (i - dpp.field.offset) = (ppWord toS p).getLsbD i) :
      (((cs.writeField xlen dpie vpie).1.writeField xlen die 0).1.writeField xlen dpp
        vpp).1.status i = trapStatus toS p cs.status i := by
    rw [writeFields_status h hd _ _ _ hi (hmask i hi)]
    exact ite_congr rfl (hpp i) fun _ => ite_congr rfl (fun _ => getLsbD_zero) fun _ =>
      ite_congr rfl (fun heq => heq ▸ hpie) fun _ => rfl
  cases toS with
  | false =>
    simp only [exceptionInitiate, Bool.false_eq_true, if_false, if_true, andThen_fst]
    exact hwrites (by cases xlen <;> decide) (by decide)
      (h.readField_bit (by cases xlen <;> decide)) (by cases p <;> decide)
  | true =>
    have hne : PrivilegeLevel.supervisor ≠ .machine := by decide
    simp only [exceptionInitiate, if_true, if_neg hne, andThen_fst]
    exact hwrites (by cases xlen <;> decide) (by decide)
      (h.readField_bit (by cases xlen <;> decide)) (by cases p <;> decide)

/-- A return that leaves machine mode also clears MPRV. -/
theorem clearMprv_status (actPrivlev : PrivilegeLevel) (r : PrivilegeLevel × CsrUpdate)
    (h : StatusAgree xlen r.2.1) :
    let u := if actPrivlev = .machine ∧ r.1 ≠ .machine then
      andThen r.2 (writeField xlen Field.Mstatus.mprv 0) else r.2
    StatusAgree xlen u.1 ∧ ∀ i < 32, i ≠ 17 → u.1.status i = r.2.1.status i := by
  have hmprv : ∀ i < 32, Field.Mstatus.mprv.mask.getLsbD i = decide (i = 17) := by decide
  intro u
  by_cases hclear : actPrivlev = .machine ∧ r.1 ≠ .machine
  · simp only [u, if_pos hclear, andThen_fst]
    refine ⟨h.writeField _ _, fun i hi hne => ?_⟩
    rw [writeField_status h (by cases xlen <;> decide) _ hi, hmprv i hi, decide_eq_false hne]
    rfl
  · have hu : u = r.2 := if_neg hclear
    rw [hu]
    exact ⟨h, fun _ _ _ => rfl⟩

/-- The read of a field that two field writes leave alone. -/
theorem writeFields_readField (h : StatusAgree xlen cs) (d₁ d₂ d : RegisterFieldDesc)
    (hd₁ : IsStatusField xlen d₁) (hd₂ : IsStatusField xlen d₂) (hd : IsShownField xlen d)
    (v₁ v₂ : BitVec 64) {v : BitVec 64}
    (hbits : ∀ i < 32, d.mask.getLsbD i = true →
      d₁.mask.getLsbD i = false ∧ d₂.mask.getLsbD i = false ∧ cs.status i = v.getLsbD i) :
    ((cs.writeField xlen d₁ v₁).1.writeField xlen d₂ v₂).1.readField d = d.decode v := by
  refine ((h.writeField d₁ v₁).writeField d₂ v₂).readField_eq hd fun i hi hbit => ?_
  obtain ⟨hout₁, hout₂, hsame⟩ := hbits i hi hbit
  rw [writeField_status (h.writeField d₁ v₁) hd₂ v₂ hi, writeField_status h hd₁ v₁ hi, hout₁, hout₂]
  exact hsame

theorem exceptionReturn_status (h : StatusAgree xlen cs) (actPrivlev : PrivilegeLevel)
    (toS : Bool) :
    let u := (cs.exceptionReturn xlen actPrivlev (if toS then .supervisor else .machine)).2
    StatusAgree xlen u.1 ∧
      ∀ i < 32, i ≠ 17 → u.1.status i = returnStatus toS cs.status i := by
  have hwrites {die dpie dpp : RegisterFieldDesc}
      (hd : ∀ d ∈ [die, dpie, dpp], IsStatusField xlen d)
      (hmask : ∀ i < 32, die.mask.getLsbD i = decide (i = ieBit toS) ∧
        dpie.mask.getLsbD i = decide (i = pieBit toS) ∧
        dpp.mask.getLsbD i = decide (i ∈ ppBits toS))
      {vie : BitVec 64} (hie : vie.getLsbD (ieBit toS - die.field.offset) = cs.status (pieBit toS))
      (hpie : pieBit toS = dpie.field.offset) {i : Nat} (hi : i < 32) :
      (((cs.writeField xlen die vie).1.writeField xlen dpie 1).1.writeField xlen dpp
        0).1.status i = returnStatus toS cs.status i := by
    rw [writeFields_status h hd _ _ _ hi (hmask i hi)]
    refine ite_congr rfl (fun _ => getLsbD_zero) fun _ => ite_congr rfl (fun heq => ?_)
      fun _ => ite_congr rfl (fun heq => heq ▸ hie) fun _ => rfl
    rw [heq, hpie, Nat.sub_self]
    rfl
  cases toS with
  | false =>
    obtain ⟨hagree, hstatus⟩ := clearMprv_status actPrivlev (cs.mretUpdate xlen)
      (((h.writeField _ _).writeField _ _).writeField _ _)
    refine ⟨hagree, fun i hi hne => (hstatus i hi hne).trans ?_⟩
    simp only [mretUpdate, andThen_fst]
    exact hwrites (by cases xlen <;> decide) (by decide)
      (h.readField_bit (by cases xlen <;> decide)) rfl hi
  | true =>
    obtain ⟨hagree, hstatus⟩ := clearMprv_status actPrivlev (cs.sretUpdate xlen)
      (((h.writeField _ _).writeField _ _).writeField _ _)
    refine ⟨hagree, fun i hi hne => (hstatus i hi hne).trans ?_⟩
    simp only [sretUpdate, andThen_fst]
    exact hwrites (by cases xlen <;> decide) (by decide)
      (h.readField_bit (by cases xlen <;> decide)) rfl hi

end ControlState

end QtRvSim
