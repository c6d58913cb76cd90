import QtRvSim.Memory.PageTable

/-!
# Specification of page-table walks

What the privileged architecture says about Sv32 and Sv39, in terms of numbers: a chain of
pointers leads to a leaf, the leaf has to be aligned and to permit the access, and the physical
address is the page number of the leaf with its low part taken from the virtual address.  The
walker is compared with it over every content of the page tables.
-/

namespace QtRvSim

open ByteMemory BitFields PagingMode

/-- Physical memory whose ports all behave as one flat byte memory. -/
class FlatPhysical (P : Type) [PhysicalMemory P] where
  bytes : P → Address → Byte
  read_fst (port : MemPort) (a : Address) (n : Nat) (m : P) :
    (PhysicalMemory.read port a n m).1 = readBytes (bytes m) a n
  read_snd (port : MemPort) (a : Address) (n : Nat) (m : P) :
    bytes (PhysicalMemory.read port a n m).2 = bytes m
  write (port : MemPort) (a : Address) (bs : List Byte) (m : P) :
    bytes (PhysicalMemory.write port a bs m) = writeBytes (bytes m) a bs

instance : FlatPhysical FlatMemory where
  bytes := FlatMemory.bytes
  read_fst _ _ _ _ := rfl
  read_snd _ _ _ _ := rfl
  write _ _ _ _ := rfl

/-! ### The specification -/

/-- What the mode field of satp selects. -/
inductive Scheme where
  | bare | paged | reserved
deriving DecidableEq, Repr

def satpScheme (xlen : Xlen) (satp : BitVec 64) : Scheme :=
  match xlen with
  | ._32 => if satp.getLsbD 31 then .paged else .bare
  | ._64 =>
    if satp.toNat / 2 ^ 60 = 0 then .bare
    else if satp.toNat / 2 ^ 60 = 8 then .paged
    else .reserved

/-- Virtual addresses of Sv32 have 32 bits; those of Sv39 are sign extended from bit 38. -/
def LegalAddress (xlen : Xlen) (va : BitVec 64) : Prop :=
  match xlen with
  | ._32 => va.toNat < 2 ^ 32
  | ._64 => ∀ i < 64, 39 ≤ i → va.getLsbD i = va.getLsbD 38

instance : (xlen : Xlen) → (va : BitVec 64) → Decidable (LegalAddress xlen va)
  | ._32, va => inferInstanceAs (Decidable (va.toNat < 2 ^ 32))
  | ._64, va => inferInstanceAs (Decidable (∀ i < 64, 39 ≤ i → va.getLsbD i = va.getLsbD 38))

def Permits (pte : PteFlags) (sstatus : BitVec 64) (priv : PrivilegeLevel) (op : AccessOp) : Prop :=
  (match op with
    | .fetch => pte.x = true
    | .read => pte.r = true ∨ sstatus.getLsbD 19 = true ∧ pte.x = true
    | .write => pte.w = true) ∧
  (priv = .unprivileged → pte.u = true) ∧
  (priv = .supervisor → pte.u = true → op ≠ .fetch ∧ sstatus.getLsbD 18 = true)

namespace PagingMode

variable (mode : PagingMode)

def ppnOf (pte : Pte) : Nat := pte.toNat / 2 ^ 10 % 2 ^ mode.ppnBits

/-- Entry of a table that belongs to a virtual address. -/
def entryAddress (va : BitVec 64) (lvl table : Nat) : Address :=
  BitVec.ofNat 64
    (table * 2 ^ 12 + va.toNat / 2 ^ (12 + lvl * mode.vpnBits) % 2 ^ mode.vpnBits * mode.rawBytes)

def pteAt (bytes : Address → Byte) (a : Address) : Pte :=
  BitVec.ofNat 64 (valueOfBytes .little (readBytes bytes a mode.rawBytes))

/-- From a table of level `lvl`, a chain of valid pointers leads to a valid leaf: its level and the
address of its entry. -/
inductive LeadsTo (bytes : Address → Byte) (va : BitVec 64) : Nat → Nat → Nat → Address → Prop
  | leaf {lvl table : Nat}
      (hvalid : (mode.pteAt bytes (mode.entryAddress va lvl table)).isValid)
      (hleaf : (mode.pteAt bytes (mode.entryAddress va lvl table)).isLeaf) :
      LeadsTo bytes va lvl table lvl (mode.entryAddress va lvl table)
  | pointer {lvl table level : Nat} {addr : Address}
      (hvalid : (mode.pteAt bytes (mode.entryAddress va (lvl + 1) table)).isValid)
      (hpointer : ¬(mode.pteAt bytes (mode.entryAddress va (lvl + 1) table)).isLeaf)
      (hrest : LeadsTo bytes va lvl
        (mode.ppnOf (mode.pteAt bytes (mode.entryAddress va (lvl + 1) table))) level addr) :
      LeadsTo bytes va (lvl + 1) table level addr

/-- A superpage starts at a multiple of its size. -/
def Aligned (level : Nat) (pte : Pte) : Prop :=
  mode.ppnOf pte % 2 ^ (level * mode.vpnBits) = 0

/-- The page number of the leaf with its low bits taken from the virtual address, followed by the
offset in the page. -/
def physOf (va : BitVec 64) (level : Nat) (pte : Pte) : Nat :=
  let low := 2 ^ (level * mode.vpnBits)
  (mode.ppnOf pte / low * low + va.toNat / 2 ^ 12 % low) * 2 ^ 12 + va.toNat % 2 ^ 12

def rootOf (satp : BitVec 64) : Nat := satp.toNat % 2 ^ mode.ppnBits

end PagingMode

def Translates (xlen : Xlen) (bytes : Address → Byte) (satp sstatus va : BitVec 64)
    (access : AccessMode) (pa : Address) : Prop :=
  match satpScheme xlen satp with
  | .bare => pa = va
  | .reserved => False
  | .paged =>
    LegalAddress xlen va ∧
    ∃ level addr, xlen.pagingMode.LeadsTo bytes va xlen.pagingMode.maxLevelIdx
        (xlen.pagingMode.rootOf satp) level addr ∧
      xlen.pagingMode.Aligned level (xlen.pagingMode.pteAt bytes addr) ∧
      Permits (xlen.pagingMode.pteAt bytes addr).flags sstatus access.priv access.opkind ∧
      pa.toNat = xlen.pagingMode.physOf va level (xlen.pagingMode.pteAt bytes addr)

/-- The result of a walk is the one the specification prescribes. -/
def WalkCorrect (xlen : Xlen) (bytes : Address → Byte) (satp sstatus va : BitVec 64)
    (access : AccessMode) : Except PageFault WalkResult → Prop
  | .ok res => Translates xlen bytes satp sstatus va access res.phys
  | .error fault => fault.cause = getCurrentCause access.opkind ∧
      ∀ pa, ¬Translates xlen bytes satp sstatus va access pa

/-! ### The permission check -/

theorem decode_bit_eq_zero (id : Csr.Id) {bit : Nat} (hbit : bit < 64) (val : BitVec 64) :
    (⟨id, ⟨1, bit⟩⟩ : Csr.RegisterFieldDesc).decode val = 0#64 ↔ val[bit] = false := by
  have hdecode : (⟨id, ⟨1, bit⟩⟩ : Csr.RegisterFieldDesc).decode val =
      (val >>> bit) &&& lowMask 64 1 := rfl
  rw [hdecode, and_lowMask_eq_zero _ (by decide), BitVec.toNat_ushiftRight,
    ← BitVec.getLsbD_eq_getElem hbit, BitVec.getLsbD, Nat.testBit, Nat.and_comm, Nat.and_one_is_mod]
  simp

/-- The check of the source is the one of the specification, but for fetches of the supervisor. -/
theorem checkPermissions_iff (pte : PteFlags) (sstatus : BitVec 64) (priv : PrivilegeLevel)
    (op : AccessOp) :
    checkPermissions pte sstatus priv op = true ↔
      Permits pte sstatus priv op ∨
        (priv = .supervisor ∧ op = .fetch ∧ pte.u = true ∧ pte.x = true) := by
  have hsum : Csr.Field.Sstatus.sum.decode sstatus = 0#64 ↔ sstatus[18] = false :=
    decode_bit_eq_zero .sstatus (by decide) sstatus
  have hmxr : Csr.Field.Sstatus.mxr.decode sstatus = 0#64 ↔ sstatus[19] = false :=
    decode_bit_eq_zero .sstatus (by decide) sstatus
  cases op with
  | fetch => cases priv <;> cases hu : pte.u <;> simp [checkPermissions, Permits, hu]
  | read =>
    cases priv <;> cases hu : pte.u <;>
      simp [checkPermissions, Permits, hu, hmxr, hsum, and_comm]
  | write =>
    cases priv <;> cases hu : pte.u <;> simp [checkPermissions, Permits, hu, hsum, and_comm]

/-! ### Address arithmetic -/

theorem Sv39Pte.vpnCombined_toNat (va : BitVec 64) (level : Nat) (hlevel : 9 * level ≤ 52) :
    (Sv39Pte.vpnCombined va level).toNat = va.toNat / 2 ^ 12 % 2 ^ (9 * level) := by
  induction level with
  | zero => simp [Sv39Pte.vpnCombined, Nat.mod_one]
  | succ level ih =>
    have hprev := ih (by omega)
    have hfield := toNat_field va (pageShift + 9 * level) (k := 9) (by decide)
    have hfieldLt : va.toNat / 2 ^ (pageShift + 9 * level) % 2 ^ 9 < 2 ^ 9 :=
      Nat.mod_lt _ (by decide)
    have hfits : 2 ^ 9 * 2 ^ (9 * level) ≤ 2 ^ 64 := by
      rw [← Nat.pow_add]
      exact Nat.pow_le_pow_right (by decide) (by omega)
    have hstep : Sv39Pte.vpnCombined va (level + 1) =
        ((va >>> (pageShift + 9 * level) &&& lowMask 64 9) <<< (9 * level)) |||
          Sv39Pte.vpnCombined va level := by
      rw [Sv39Pte.vpnCombined, List.range_succ, List.foldl_append, BitVec.or_comm]
      rfl
    have hsplit : va.toNat / 2 ^ 12 % 2 ^ (9 * (level + 1)) =
        va.toNat / 2 ^ (pageShift + 9 * level) % 2 ^ 9 * 2 ^ (9 * level) +
          va.toNat / 2 ^ 12 % 2 ^ (9 * level) := by
      rw [Nat.mul_succ, Nat.pow_add, Nat.mod_mul, Nat.div_div_eq_div_mul, ← Nat.pow_add,
        Nat.add_comm, Nat.mul_comm]
      rfl
    rw [hstep, hsplit, toNat_shiftLeft_or, hfield, hprev]
    · rw [hfield]
      exact Nat.lt_of_lt_of_le (Nat.mul_lt_mul_of_pos_right hfieldLt (Nat.two_pow_pos _)) hfits
    · rw [hprev]
      exact Nat.mod_lt _ (Nat.two_pow_pos _)

namespace PagingMode

variable (mode : PagingMode)

theorem ppn_toNat (pte : Pte) : (pte.ppn mode.ppnBits).toNat = mode.ppnOf pte :=
  toNat_field pte 10 mode.ppnBits_le

theorem pteAddr_eq (va : BitVec 64) (lvl : Nat) (ppn : BitVec 64) :
    mode.pteAddr va lvl ppn = mode.entryAddress va lvl ppn.toNat := by
  apply BitVec.eq_of_toNat_eq
  simp only [pteAddr, entryAddress, BitVec.toNat_add, BitVec.toNat_mul, BitVec.toNat_shiftLeft,
    toNat_field _ _ mode.vpnBits_le, BitVec.toNat_ofNat, Nat.shiftLeft_eq, pageShift]
  simp [Nat.add_mod, Nat.mul_mod]

/-- An aligned page number has no low bits. -/
theorem aligned_iff {level : Nat} (pte : Pte) (hlevel : level ≤ mode.maxLevelIdx) :
    mode.Aligned level pte ↔
      ¬(0 < level ∧ pte.ppn mode.ppnBits &&& lowMask 64 (level * mode.vpnBits) ≠ 0) := by
  have hbits : level * mode.vpnBits ≤ 64 :=
    Nat.le_trans (Nat.mul_le_mul_right _ hlevel) mode.levels_le
  rw [Aligned, ← mode.ppn_toNat pte, ← and_lowMask_eq_zero _ hbits]
  cases level with
  | zero => simp [and_lowMask_eq_zero, Nat.mod_one]
  | succ level => simp

/-- A page number and an offset make a physical address. -/
theorem composed_toNat (physPpn va : BitVec 64) (hppn : physPpn.toNat < 2 ^ 52) :
    (physPpn <<< pageShift ||| va &&& lowMask 64 pageShift).toNat =
      physPpn.toNat * 2 ^ 12 + va.toNat % 2 ^ 12 := by
  have hoffset : (va &&& lowMask 64 pageShift).toNat = va.toNat % 2 ^ 12 :=
    toNat_and_lowMask va (by decide)
  rw [toNat_shiftLeft_or, hoffset]
  · rfl
  · rw [pageShift]
    omega
  · rw [hoffset]
    exact Nat.mod_lt _ (by decide)

end PagingMode

/-- Replacing the low bits of a short number keeps it short. -/
theorem replaced_lt {p v k n : Nat} (hp : p < 2 ^ n) (hk : k ≤ n) :
    p / 2 ^ k * 2 ^ k + v % 2 ^ k < 2 ^ n := by
  have hpow : 2 ^ n = 2 ^ (n - k) * 2 ^ k := by rw [← Nat.pow_add, Nat.sub_add_cancel hk]
  have hdiv : p / 2 ^ k < 2 ^ (n - k) := by
    rw [Nat.div_lt_iff_lt_mul (Nat.two_pow_pos k), ← hpow]
    exact hp
  calc p / 2 ^ k * 2 ^ k + v % 2 ^ k
      < p / 2 ^ k * 2 ^ k + 2 ^ k := Nat.add_lt_add_left (Nat.mod_lt _ (Nat.two_pow_pos k)) _
    _ = (p / 2 ^ k + 1) * 2 ^ k := by rw [Nat.add_mul, Nat.one_mul]
    _ ≤ 2 ^ (n - k) * 2 ^ k := Nat.mul_le_mul_right _ hdiv
    _ = 2 ^ n := hpow.symm

theorem Sv32Pte.makePhys_toNat (pte : Pte) (va : BitVec 64) {level : Nat} (hlevel : level ≤ 1) :
    (Sv32Pte.makePhys pte va level).toNat = sv32Pte.physOf va level pte := by
  have hppn : (pte.ppn 22).toNat = sv32Pte.ppnOf pte := sv32Pte.ppn_toNat pte
  have hlt : sv32Pte.ppnOf pte < 2 ^ 22 := Nat.mod_lt _ (by decide)
  have hcases : level = 0 ∨ level = 1 := by omega
  rcases hcases with rfl | rfl
  · rw [Sv32Pte.makePhys, if_neg (by decide), composed_toNat _ _ (by omega), hppn]
    simp [physOf, Nat.mod_one]
  · have hvpn0 : ((va >>> pageShift) &&& lowMask 64 10).toNat = va.toNat / 2 ^ 12 % 2 ^ 10 :=
      toNat_field va 12 (by decide)
    have hreplace := toNat_replaceLow (pte.ppn 22) ((va >>> pageShift) &&& lowMask 64 10)
      (k := 10) (by decide)
    rw [hppn, hvpn0, Nat.mod_mod] at hreplace
    rw [Sv32Pte.makePhys, if_pos rfl, composed_toNat, hreplace]
    · rfl
    · rw [hreplace]
      exact Nat.lt_trans (replaced_lt hlt (by decide)) (by decide)

theorem Sv39Pte.makePhys_toNat (pte : Pte) (va : BitVec 64) {level : Nat} (hlevel : level ≤ 2) :
    (Sv39Pte.makePhys pte va level).toNat = sv39Pte.physOf va level pte := by
  have hppn : (pte.ppn 44).toNat = sv39Pte.ppnOf pte := sv39Pte.ppn_toNat pte
  have hlt : sv39Pte.ppnOf pte < 2 ^ 44 := Nat.mod_lt _ (by decide)
  cases level with
  | zero =>
    rw [Sv39Pte.makePhys, if_neg (by decide), composed_toNat _ _ (by omega), hppn]
    simp [physOf, Nat.mod_one]
  | succ level =>
    have hreplace := toNat_replaceLow (pte.ppn 44) (Sv39Pte.vpnCombined va (level + 1))
      (k := 9 * (level + 1)) (by omega)
    rw [hppn, Sv39Pte.vpnCombined_toNat va _ (by omega), Nat.mod_mod] at hreplace
    rw [Sv39Pte.makePhys, if_pos (by omega), composed_toNat, hreplace,
      Nat.mul_comm 9]
    · rfl
    · rw [hreplace]
      exact Nat.lt_trans (replaced_lt hlt (by omega)) (by decide)

/-- Both modes compose physical addresses as specified. -/
theorem makePhys_toNat (xlen : Xlen) (pte : Pte) (va : BitVec 64) {level : Nat}
    (hlevel : level ≤ xlen.pagingMode.maxLevelIdx) :
    (xlen.pagingMode.makePhys pte va level).toNat = xlen.pagingMode.physOf va level pte := by
  cases xlen with
  | _32 => exact Sv32Pte.makePhys_toNat pte va hlevel
  | _64 => exact Sv39Pte.makePhys_toNat pte va hlevel

/-! ### The walk -/

/-- A valid entry that is not a leaf grants nothing. -/
theorem Pte.pointer_flags {pte : Pte} (hvalid : pte.isValid) (hpointer : ¬pte.isLeaf) :
    (pte.flags.r || pte.flags.w || pte.flags.x) = false := by
  unfold Pte.isValid at hvalid
  unfold Pte.isLeaf at hpointer
  cases hr : pte.flags.r <;> cases hw : pte.flags.w <;> cases hx : pte.flags.x <;> simp_all

namespace PagingMode

variable (mode : PagingMode)

/-- The walker accepts a leaf that is aligned and passes the permission check. -/
def Accepts (sstatus : BitVec 64) (access : AccessMode) (level : Nat) (pte : Pte) : Prop :=
  mode.Aligned level pte ∧ checkPermissions pte.flags sstatus access.priv access.opkind = true

section Entry

variable {mode} {va sstatus : BitVec 64} {access : AccessMode} {lvl : Nat} {addr : Address}
  {pte : Pte}

theorem walkEntry_invalid (hvalid : ¬pte.isValid) :
    ∃ fault, mode.walkEntry va sstatus access lvl addr pte = .error fault ∧
      fault.opkind = access.opkind := by
  rw [walkEntry, if_pos (by simpa using hvalid)]
  exact ⟨_, rfl, rfl⟩

theorem walkEntry_pointer (hvalid : pte.isValid) (hpointer : ¬pte.isLeaf) :
    mode.walkEntry va sstatus access lvl addr pte = .ok (.inr (pte.ppn mode.ppnBits)) := by
  rw [walkEntry, if_neg (by simpa using hvalid), if_neg hpointer,
    if_neg (by simpa using Pte.pointer_flags hvalid hpointer)]

theorem walkEntry_accepted (hlvl : lvl ≤ mode.maxLevelIdx) (hvalid : pte.isValid)
    (hleaf : pte.isLeaf) (haccepts : mode.Accepts sstatus access lvl pte) :
    mode.walkEntry va sstatus access lvl addr pte =
      .ok (.inl ⟨mode.makePhys pte va lvl, addr, some pte⟩) := by
  rw [walkEntry, if_neg (by simpa using hvalid), if_pos hleaf,
    if_neg ((mode.aligned_iff pte hlvl).mp haccepts.1), if_neg (by simp [haccepts.2])]

theorem walkEntry_refused (hlvl : lvl ≤ mode.maxLevelIdx) (hvalid : pte.isValid)
    (hleaf : pte.isLeaf) (hrefused : ¬mode.Accepts sstatus access lvl pte) :
    ∃ fault, mode.walkEntry va sstatus access lvl addr pte = .error fault ∧
      fault.opkind = access.opkind := by
  rw [walkEntry, if_neg (by simpa using hvalid), if_pos hleaf]
  by_cases haligned : mode.Aligned lvl pte
  · have hdenied : checkPermissions pte.flags sstatus access.priv access.opkind = false := by
      simpa [Accepts, haligned] using hrefused
    rw [if_neg ((mode.aligned_iff pte hlvl).mp haligned), if_pos (by simp [hdenied])]
    exact ⟨_, rfl, rfl⟩
  · rw [if_pos (not_not.mp (mt (mode.aligned_iff pte hlvl).mpr haligned))]
    exact ⟨_, rfl, rfl⟩

end Entry

theorem LeadsTo.unique {bytes : Address → Byte} {va : BitVec 64} {lvl table level level' : Nat}
    {addr addr' : Address} (h : mode.LeadsTo bytes va lvl table level addr)
    (h' : mode.LeadsTo bytes va lvl table level' addr') : level' = level ∧ addr' = addr := by
  induction h with
  | leaf hvalid hleaf =>
    cases h' with
    | leaf _ _ => exact ⟨rfl, rfl⟩
    | pointer _ hpointer _ => exact absurd hleaf hpointer
  | pointer hvalid hpointer _ ih =>
    cases h' with
    | leaf _ hleaf => exact absurd hleaf hpointer
    | pointer _ _ hrest => exact ih hrest

theorem LeadsTo.level_le {bytes : Address → Byte} {va : BitVec 64} {lvl table level : Nat}
    {addr : Address} (h : mode.LeadsTo bytes va lvl table level addr) : level ≤ lvl := by
  induction h with
  | leaf => exact Nat.le_refl _
  | pointer _ _ _ ih => exact Nat.le_succ_of_le ih

section Walk

variable {P : Type} [PhysicalMemory P] [FlatPhysical P]

open FlatPhysical

variable (port : MemPort)

theorem readPte_fst (a : Address) (m : P) : (mode.readPte port a m).1 = mode.pteAt (bytes m) a := by
  rw [readPte, pteAt, ← read_fst port]

theorem readPte_bytes (a : Address) (m : P) : bytes (mode.readPte port a m).2 = bytes m :=
  read_snd port a mode.rawBytes m

/-- How a walk from a table of level `lvl` ends. -/
inductive WalkEnds (m : P) (va sstatus : BitVec 64) (access : AccessMode) (lvl table : Nat) :
    Access P WalkResult → Prop
  | found {level : Nat} {addr : Address} {m' : P}
      (hleads : mode.LeadsTo (bytes m) va lvl table level addr)
      (haccepts : mode.Accepts sstatus access level (mode.pteAt (bytes m) addr))
      (hbytes : bytes m' = bytes m) :
      WalkEnds m va sstatus access lvl table
        (.ok ⟨mode.makePhys (mode.pteAt (bytes m) addr) va level, addr,
          some (mode.pteAt (bytes m) addr)⟩, m')
  | fault {fault : PageFault} {m' : P}
      (hfault : fault.opkind = access.opkind)
      (hnone : ∀ level addr, mode.LeadsTo (bytes m) va lvl table level addr →
        ¬mode.Accepts sstatus access level (mode.pteAt (bytes m) addr))
      (hbytes : bytes m' = bytes m) :
      WalkEnds m va sstatus access lvl table (.error fault, m')

variable {mode} in
theorem WalkEnds.congr {m m₁ : P} {va sstatus : BitVec 64} {access : AccessMode} {lvl table : Nat}
    {r : Access P WalkResult} (hbytes : bytes m₁ = bytes m)
    (h : mode.WalkEnds m₁ va sstatus access lvl table r) :
    mode.WalkEnds m va sstatus access lvl table r := by
  cases h with
  | found hleads haccepts hsame =>
    rw [hbytes] at *
    exact .found hleads haccepts hsame
  | fault hfault hnone hsame =>
    rw [hbytes] at *
    exact .fault hfault hnone hsame

variable (va sstatus : BitVec 64)

variable (access : AccessMode)

/-- One level of the walk, on the bytes of memory. -/
theorem walkLevels_succ (lvl : Nat) (ppn : BitVec 64) (m : P) :
    ∃ m₁ : P, bytes m₁ = bytes m ∧
      mode.walkLevels port va sstatus access (lvl + 1) ppn m =
        match mode.walkEntry va sstatus access lvl (mode.entryAddress va lvl ppn.toNat)
          (mode.pteAt (bytes m) (mode.entryAddress va lvl ppn.toNat)) with
        | .error fault => (.error fault, m₁)
        | .ok (.inl res) => (.ok res, m₁)
        | .ok (.inr ppn) => mode.walkLevels port va sstatus access lvl ppn m₁ := by
  refine ⟨(mode.readPte port (mode.pteAddr va lvl ppn) m).2, mode.readPte_bytes _ _ _, ?_⟩
  rw [← mode.pteAddr_eq, ← mode.readPte_fst port]
  rfl

/-- A walk ends at an entry that is invalid or a leaf; what it does from a pointer on is given. -/
theorem walkLevels_ends_of_pointer {lvl : Nat} (hlvl : lvl ≤ mode.maxLevelIdx) (ppn : BitVec 64)
    (m : P) (hpointer : ∀ pte, pte = mode.pteAt (bytes m) (mode.entryAddress va lvl ppn.toNat) →
      pte.isValid → ¬pte.isLeaf → ∀ m₁ : P, bytes m₁ = bytes m → mode.WalkEnds m va sstatus access
      lvl ppn.toNat (mode.walkLevels port va sstatus access lvl (pte.ppn mode.ppnBits) m₁)) :
    mode.WalkEnds m va sstatus access lvl ppn.toNat
      (mode.walkLevels port va sstatus access (lvl + 1) ppn m) := by
  obtain ⟨m₁, hbytes, hwalk⟩ := mode.walkLevels_succ port va sstatus access lvl ppn m
  rw [hwalk]
  by_cases hvalid : (mode.pteAt (bytes m) (mode.entryAddress va lvl ppn.toNat)).isValid
  · by_cases hleaf : (mode.pteAt (bytes m) (mode.entryAddress va lvl ppn.toNat)).isLeaf
    · have hleads := LeadsTo.leaf hvalid hleaf
      by_cases haccepts : mode.Accepts sstatus access lvl
          (mode.pteAt (bytes m) (mode.entryAddress va lvl ppn.toNat))
      · rw [walkEntry_accepted hlvl hvalid hleaf haccepts]
        exact .found hleads haccepts hbytes
      · obtain ⟨fault, hentry, hop⟩ := walkEntry_refused hlvl hvalid hleaf haccepts
        rw [hentry]
        refine .fault hop (fun level addr hleads' => ?_) hbytes
        obtain ⟨rfl, rfl⟩ := hleads.unique mode hleads'
        exact haccepts
    · rw [walkEntry_pointer hvalid hleaf]
      exact hpointer _ rfl hvalid hleaf m₁ hbytes
  · obtain ⟨fault, hentry, hop⟩ := walkEntry_invalid hvalid
    rw [hentry]
    refine .fault hop (fun level addr hleads => ?_) hbytes
    cases hleads with
    | leaf hvalid' _ => exact absurd hvalid' hvalid
    | pointer hvalid' _ _ => exact absurd hvalid' hvalid

theorem walkLevels_ends {lvl : Nat} (hlvl : lvl ≤ mode.maxLevelIdx) (ppn : BitVec 64) (m : P) :
    mode.WalkEnds m va sstatus access lvl ppn.toNat
      (mode.walkLevels port va sstatus access (lvl + 1) ppn m) := by
  -- Induction on the level; only the pointer case recurses.
  induction lvl generalizing ppn m with
  | zero =>
    apply mode.walkLevels_ends_of_pointer port va sstatus access hlvl
    rintro pte rfl _ hpointer m₁ hbytes
    refine .fault rfl (fun level addr hleads => ?_) hbytes
    cases hleads with
    | leaf _ hleaf => exact absurd hleaf hpointer
  | succ lvl ih =>
    apply mode.walkLevels_ends_of_pointer port va sstatus access hlvl
    rintro pte rfl hvalid hpointer m₁ hbytes
    have hends := (ih (Nat.le_of_succ_le hlvl)
      ((mode.pteAt (bytes m) (mode.entryAddress va (lvl + 1) ppn.toNat)).ppn mode.ppnBits)
      m₁).congr hbytes
    rw [mode.ppn_toNat] at hends
    generalize mode.walkLevels port va sstatus access (lvl + 1) _ m₁ = r at hends
    cases hends with
    | found hleads haccepts hsame =>
      exact .found (.pointer hvalid hpointer hleads) haccepts hsame
    | fault hfault hnone hsame =>
      refine .fault hfault (fun level addr hleads => ?_) hsame
      cases hleads with
      | leaf _ hleaf => exact absurd hleaf hpointer
      | pointer _ _ hrest => exact hnone level addr hrest

end Walk

end PagingMode

/-! ### The comparison -/

/-- Translation is off exactly when the mode field is zero. -/
theorem satp_off_iff (xlen : Xlen) (satp : BitVec 64) :
    satp &&& xlen.pagingMode.satpModeMask = 0 ↔ satpScheme xlen satp = .bare := by
  cases xlen with
  | _32 =>
    have hmask : Xlen._32.pagingMode.satpModeMask = BitVec.twoPow 64 31 := by decide
    rw [hmask, BitVec.and_twoPow, satpScheme]
    cases satp.getLsbD 31 <;> decide
  | _64 =>
    have hmask : Xlen._64.pagingMode.satpModeMask = ~~~lowMask 64 60 := by decide
    rw [hmask, satpScheme]
    refine (and_not_lowMask_eq_zero satp 60).trans ?_
    generalize satp.toNat / 2 ^ 60 = field
    by_cases hzero : field = 0
    · simp [hzero]
    · rw [if_neg hzero]
      split <;> simp [hzero]

/-- Root table of a walk. -/
theorem root_toNat (xlen : Xlen) (satp : BitVec 64) :
    (satp &&& xlen.pagingMode.satpPpnMask).toNat = xlen.pagingMode.rootOf satp := by
  cases xlen with
  | _32 => exact toNat_and_lowMask satp (by decide)
  | _64 => exact toNat_and_lowMask satp (by decide)

/-- How a walk with translation on ends. -/
theorem walk_ends {P : Type} [PhysicalMemory P] [FlatPhysical P] (xlen : Xlen) (port : MemPort)
    {satp : BitVec 64} (hon : satpScheme xlen satp ≠ .bare) (va sstatus : BitVec 64)
    (access : AccessMode) (m : P) :
    xlen.pagingMode.WalkEnds m va sstatus access xlen.pagingMode.maxLevelIdx
      (xlen.pagingMode.rootOf satp) (xlen.pagingMode.walk port va satp sstatus access m) := by
  rw [walk, if_neg (mt (satp_off_iff xlen satp).mp hon), ← root_toNat]
  exact xlen.pagingMode.walkLevels_ends port va sstatus access (Nat.le_refl _) _ m

/-- The walks the walker gets right: with translation off, and those in which a leaf it accepts
belongs to a legal address of the selected scheme and is not fetched by the supervisor from a user
page. -/
def WalkSafe (xlen : Xlen) (bytes : Address → Byte) (satp sstatus va : BitVec 64)
    (access : AccessMode) : Prop :=
  satpScheme xlen satp = .bare ∨
  ∀ level addr, xlen.pagingMode.LeadsTo bytes va xlen.pagingMode.maxLevelIdx
      (xlen.pagingMode.rootOf satp) level addr →
    xlen.pagingMode.Accepts sstatus access level (xlen.pagingMode.pteAt bytes addr) →
    satpScheme xlen satp = .paged ∧ LegalAddress xlen va ∧
      ¬(access.priv = .supervisor ∧ access.opkind = .fetch ∧
        (xlen.pagingMode.pteAt bytes addr).flags.u = true)

theorem translates_paged {xlen : Xlen} {bytes : Address → Byte} {satp sstatus va : BitVec 64}
    {access : AccessMode} {pa : Address} (hon : satpScheme xlen satp ≠ .bare) :
    Translates xlen bytes satp sstatus va access pa ↔
      satpScheme xlen satp = .paged ∧ LegalAddress xlen va ∧
      ∃ level addr, xlen.pagingMode.LeadsTo bytes va xlen.pagingMode.maxLevelIdx
          (xlen.pagingMode.rootOf satp) level addr ∧
        xlen.pagingMode.Aligned level (xlen.pagingMode.pteAt bytes addr) ∧
        Permits (xlen.pagingMode.pteAt bytes addr).flags sstatus access.priv access.opkind ∧
        pa.toNat = xlen.pagingMode.physOf va level (xlen.pagingMode.pteAt bytes addr) := by
  rw [Translates]
  cases hscheme : satpScheme xlen satp with
  | bare => exact absurd hscheme hon
  | paged | reserved => simp

/-- The walk returns what the specification prescribes exactly when it is safe. -/
theorem walk_correct_iff (xlen : Xlen) (port : MemPort) (m : FlatMemory)
    (satp sstatus va : BitVec 64) (access : AccessMode) :
    WalkCorrect xlen m.bytes satp sstatus va access
        (xlen.pagingMode.walk port va satp sstatus access m).1 ↔
      WalkSafe xlen m.bytes satp sstatus va access := by
  by_cases hbare : satpScheme xlen satp = .bare
  · have hoff := (satp_off_iff xlen satp).mpr hbare
    simp [walk, hoff, WalkCorrect, WalkSafe, Translates, hbare]
  have hends := walk_ends xlen port hbare va sstatus access m
  generalize xlen.pagingMode.walk port va satp sstatus access m = r at hends
  cases hends with
  | @found level addr _ hleads haccepts _ =>
    rw [WalkCorrect, translates_paged hbare]
    constructor
    · rintro ⟨hpaged, hlegal, level', addr', hleads', -, hpermits, -⟩
      refine .inr fun l a hl _ => ⟨hpaged, hlegal, ?_⟩
      obtain ⟨rfl, rfl⟩ := hleads'.unique _ hl
      exact fun huser => (hpermits.2.2 huser.1 huser.2.2).1 huser.2.1
    · intro hsafe
      obtain ⟨hpaged, hlegal, huser⟩ := hsafe.resolve_left hbare level addr hleads haccepts
      refine ⟨hpaged, hlegal, level, addr, hleads, haccepts.1, ?_,
        makePhys_toNat xlen _ va (hleads.level_le _)⟩
      refine ((checkPermissions_iff _ _ _ _).mp haccepts.2).resolve_right fun hfetch => ?_
      exact huser ⟨hfetch.1, hfetch.2.1, hfetch.2.2.1⟩
  | fault hfault hnone _ =>
    constructor
    · exact fun _ => .inr fun level addr hleads haccepts =>
        absurd haccepts (hnone level addr hleads)
    · intro _
      refine ⟨by rw [PageFault.cause, hfault], fun pa htranslates => ?_⟩
      obtain ⟨-, -, level, addr, hleads, haligned, hpermits, -⟩ :=
        (translates_paged hbare).mp htranslates
      exact hnone level addr hleads
        ⟨haligned, (checkPermissions_iff _ _ _ _).mpr (.inl hpermits)⟩

/-- Physical memory with a single page-table entry, a leaf that maps a gigabyte from address 0 on
with every permission of the supervisor. -/
def oneGigapage : FlatMemory := ⟨fun a => if a = 0x1000 then 0xcf else 0⟩

/-- An address that is not sign extended from bit 38 is translated all the same. -/
theorem walk_accepts_illegal_address :
    (Xlen._64.pagingMode.walk .data (1#64 <<< 63) 0x8000000000000001 0
      ⟨0, .supervisor, .read⟩ oneGigapage).1 = .ok ⟨0, 0x1000, some 0xcf⟩ ∧
    ∀ pa, ¬Translates ._64 oneGigapage.bytes 0x8000000000000001 0 (1#64 <<< 63)
      ⟨0, .supervisor, .read⟩ pa := by
  refine ⟨by decide +kernel, fun pa htranslates => ?_⟩
  have hlegal := ((translates_paged (by decide)).mp htranslates).2.1
  exact absurd hlegal (by decide)

end QtRvSim
