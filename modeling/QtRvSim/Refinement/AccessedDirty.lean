import QtRvSim.Refinement.WalkSpec

/-!
# Accessed and dirty bits

Page tables may change in their accessed and dirty bits without changing any walk, and setting
these bits in one entry leaves every other entry alone.
-/

namespace QtRvSim

open ByteMemory BitFields

/-- The permission check looks at four flags. -/
theorem checkPermissions_congr {p q : PteFlags} (hr : p.r = q.r) (hw : p.w = q.w) (hx : p.x = q.x)
    (hu : p.u = q.u) (sstatus : BitVec 64) (priv : PrivilegeLevel) (op : AccessOp) :
    checkPermissions p sstatus priv op = checkPermissions q sstatus priv op := by
  cases p
  cases q
  cases hr
  cases hw
  cases hx
  cases hu
  rfl

/-- Entries that differ at most in the accessed and dirty bits. -/
def Pte.SameApartAd (p q : Pte) : Prop :=
  ∀ i, i ≠ 6 → i ≠ 7 → p.getLsbD i = q.getLsbD i

namespace Pte.SameApartAd

variable {p q : Pte}

variable (h : p.SameApartAd q)
include h

theorem isValid_eq : p.isValid = q.isValid := by
  simp only [Pte.isValid, Pte.v, Pte.flags, h 0 (by decide) (by decide),
    h 1 (by decide) (by decide), h 2 (by decide) (by decide)]

theorem isLeaf_eq : p.isLeaf = q.isLeaf := by
  simp only [Pte.isLeaf, Pte.flags, h 1 (by decide) (by decide), h 3 (by decide) (by decide)]

theorem checkPermissions_eq (sstatus : BitVec 64) (priv : PrivilegeLevel) (op : AccessOp) :
    checkPermissions p.flags sstatus priv op = checkPermissions q.flags sstatus priv op := by
  apply checkPermissions_congr
  · exact h 1 (by decide) (by decide)
  · exact h 2 (by decide) (by decide)
  · exact h 3 (by decide) (by decide)
  · exact h 4 (by decide) (by decide)

theorem ppn_eq (ppnBits : Nat) : p.ppn ppnBits = q.ppn ppnBits := by
  apply BitVec.eq_of_getLsbD_eq
  intro i hi
  simp only [Pte.ppn, BitVec.getLsbD_and, BitVec.getLsbD_ushiftRight]
  rw [h (10 + i) (by omega) (by omega)]

theorem ppnOf_eq (mode : PagingMode) : mode.ppnOf p = mode.ppnOf q := by
  rw [← mode.ppn_toNat, ← mode.ppn_toNat, h.ppn_eq]

end Pte.SameApartAd

namespace PagingMode

variable (mode : PagingMode)

/-- The entries that a walk from a table reads. -/
inductive Visits (bytes : Address → Byte) (va : BitVec 64) : Nat → Nat → Address → Prop
  | entry {lvl table : Nat} : Visits bytes va lvl table (mode.entryAddress va lvl table)
  | pointer {lvl table : Nat} {addr : Address}
      (hvalid : (mode.pteAt bytes (mode.entryAddress va (lvl + 1) table)).isValid)
      (hpointer : ¬(mode.pteAt bytes (mode.entryAddress va (lvl + 1) table)).isLeaf)
      (hrest : Visits bytes va lvl
        (mode.ppnOf (mode.pteAt bytes (mode.entryAddress va (lvl + 1) table))) addr) :
      Visits bytes va (lvl + 1) table addr

/-- An entry of the page table: some walk from the root reads it. -/
def IsEntry (root : Nat) (bytes : Address → Byte) (a : Address) : Prop :=
  ∃ va, mode.Visits bytes va mode.maxLevelIdx root a

/-- The page table is the one of `bytes`, apart from accessed and dirty bits. -/
def SameTables (root : Nat) (bytes bytes' : Address → Byte) : Prop :=
  ∀ a, mode.IsEntry root bytes a → (mode.pteAt bytes' a).SameApartAd (mode.pteAt bytes a)

variable {mode}

theorem sameTables_refl (root : Nat) (bytes : Address → Byte) : mode.SameTables root bytes bytes :=
  fun _ _ _ _ _ => rfl

variable {bytes : Address → Byte} {va : BitVec 64} {addr : Address} {table : Nat}

theorem LeadsTo.visits {lvl level : Nat} (h : mode.LeadsTo bytes va lvl table level addr) :
    mode.Visits bytes va lvl table addr := by
  induction h with
  | leaf => exact .entry
  | pointer hvalid hpointer _ ih => exact .pointer hvalid hpointer ih

/-- A chain is a leaf, or a pointer and a chain from the next table. -/
theorem leadsTo_iff {bytes : Address → Byte} {va : BitVec 64} {lvl table level : Nat}
    {addr : Address} :
    mode.LeadsTo bytes va lvl table level addr ↔
      (mode.pteAt bytes (mode.entryAddress va lvl table)).isValid ∧
      ((mode.pteAt bytes (mode.entryAddress va lvl table)).isLeaf ∧ level = lvl ∧
          addr = mode.entryAddress va lvl table ∨
        ¬(mode.pteAt bytes (mode.entryAddress va lvl table)).isLeaf ∧
          ∃ l, lvl = l + 1 ∧ mode.LeadsTo bytes va l
            (mode.ppnOf (mode.pteAt bytes (mode.entryAddress va lvl table))) level addr) := by
  constructor
  · intro h
    cases h with
    | leaf hvalid hleaf => exact ⟨hvalid, .inl ⟨hleaf, rfl, rfl⟩⟩
    | pointer hvalid hpointer hrest => exact ⟨hvalid, .inr ⟨hpointer, _, rfl, hrest⟩⟩
  · rintro ⟨hvalid, ⟨hleaf, rfl, rfl⟩ | ⟨hpointer, l, rfl, hrest⟩⟩
    · exact .leaf hvalid hleaf
    · exact .pointer hvalid hpointer hrest

variable {bytes' : Address → Byte}

/-- Chains do not depend on the accessed and dirty bits of the entries they visit. -/
theorem leadsTo_congr {lvl level : Nat}
    (hsame : ∀ a, mode.Visits bytes va lvl table a → (mode.pteAt bytes' a).SameApartAd (mode.pteAt
      bytes a)) :
    mode.LeadsTo bytes' va lvl table level addr ↔ mode.LeadsTo bytes va lvl table level addr := by
  induction lvl generalizing table with
  | zero =>
    have hentry := hsame _ .entry
    rw [leadsTo_iff, @leadsTo_iff mode bytes, hentry.isValid_eq, hentry.isLeaf_eq]
    simp
  | succ lvl ih =>
    have hentry := hsame _ .entry
    rw [leadsTo_iff, @leadsTo_iff mode bytes, hentry.isValid_eq, hentry.isLeaf_eq, hentry.ppnOf_eq]
    apply and_congr_right
    intro hvalid
    apply or_congr_right
    apply and_congr_right
    intro hpointer
    have hrest := ih fun a hvisits => hsame a (.pointer hvalid hpointer hvisits)
    simpa using hrest

/-- Walks visit the same entries. -/
theorem visits_congr {lvl : Nat}
    (hsame : ∀ a, mode.Visits bytes va lvl table a → (mode.pteAt bytes' a).SameApartAd (mode.pteAt
      bytes a)) (h : mode.Visits bytes' va lvl table addr) :
    mode.Visits bytes va lvl table addr := by
  induction h with
  | entry => exact .entry
  | pointer hvalid hpointer _ ih =>
    have hentry := hsame _ .entry
    rw [hentry.isValid_eq] at hvalid
    rw [hentry.isLeaf_eq] at hpointer
    rw [hentry.ppnOf_eq] at ih
    exact .pointer hvalid hpointer
      (ih fun a hvisits => hsame a (.pointer hvalid hpointer hvisits))

theorem SameTables.isEntry {root : Nat} (hsame : mode.SameTables root bytes bytes') {a : Address}
    (h : mode.IsEntry root bytes' a) : mode.IsEntry root bytes a := by
  obtain ⟨va, hvisits⟩ := h
  exact ⟨va, visits_congr (fun a hvisits => hsame a ⟨va, hvisits⟩) hvisits⟩

theorem SameTables.leadsTo_iff {root : Nat} {bytes bytes' : Address → Byte}
    (hsame : mode.SameTables root bytes bytes') {va : BitVec 64} {level : Nat} {addr : Address} :
    mode.LeadsTo bytes' va mode.maxLevelIdx root level addr ↔
      mode.LeadsTo bytes va mode.maxLevelIdx root level addr :=
  leadsTo_congr fun a hvisits => hsame a ⟨va, hvisits⟩

/-! ### Setting the bits of an entry -/

variable (mode)

/-- Entries lie at multiples of their size. -/
theorem rawBytes_dvd_entryAddress (va : BitVec 64) (lvl table : Nat) :
    mode.rawBytes ∣ (mode.entryAddress va lvl table).toNat := by
  rw [entryAddress, BitVec.toNat_ofNat]
  apply (Nat.dvd_mod_iff (mode.rawBytes_dvd.trans (by decide))).mpr
  apply Nat.dvd_add
  · exact (mode.rawBytes_dvd.trans (by decide)).mul_left table
  · exact Nat.dvd_mul_left _ _

variable {mode} in
theorem Visits.rawBytes_dvd {lvl : Nat} (h : mode.Visits bytes va lvl table addr) :
    mode.rawBytes ∣ addr.toNat := by
  induction h with
  | entry => exact mode.rawBytes_dvd_entryAddress va _ _
  | pointer _ _ _ ih => exact ih

section

variable (bytes : Address → Byte)

theorem pteAt_toNat_lt (a : Address) : (mode.pteAt bytes a).toNat < 256 ^ mode.rawBytes := by
  have hvalue := littleValue_lt (readBytes bytes a mode.rawBytes)
  rw [readBytes_length] at hvalue
  exact Nat.lt_of_le_of_lt (Nat.mod_le _ _) hvalue

/-- The entry that was written is read back. -/
theorem pteAt_write_self (a : Address) {pte : Pte} (hpte : pte.toNat < 256 ^ mode.rawBytes) :
    mode.pteAt (writeBytes bytes a (bytesOfValue .little mode.rawBytes pte.toNat)) a = pte := by
  have hfits : (bytesOfValue .little mode.rawBytes pte.toNat).length ≤ 2 ^ 64 := by
    rw [bytesOfValue_length]
    exact Nat.le_trans (Nat.le_of_dvd (by decide) mode.rawBytes_dvd) (by decide)
  have hread := readBytes_writeBytes bytes a hfits
  rw [bytesOfValue_length] at hread
  rw [pteAt, hread, bytesOfValue, valueOfBytes, littleValue_littleBytes, Nat.mod_eq_of_lt hpte,
    BitVec.ofNat_toNat, BitVec.setWidth_eq]

/-- Writing an entry leaves the others alone. -/
theorem pteAt_write_of_ne {a x : Address} (v : Nat) (ha : mode.rawBytes ∣ a.toNat)
    (hx : mode.rawBytes ∣ x.toNat) (hne : x ≠ a) :
    mode.pteAt (writeBytes bytes a (bytesOfValue .little mode.rawBytes v)) x =
      mode.pteAt bytes x := by
  rw [pteAt, pteAt, readBytes_writeBytes_of_outside]
  intro i hi
  rw [bytesOfValue_length]
  exact le_offset_of_dvd (mode.rawBytes_dvd.trans (by decide)) ha hx hne hi

end

variable {mode} in
/-- Setting accessed and dirty bits of an entry keeps the page table. -/
theorem SameTables.write {root : Nat} {bytes bytes' : Address → Byte}
    (hsame : mode.SameTables root bytes bytes') {a : Address} (ha : mode.IsEntry root bytes a)
    {pte : Pte} (hpte : pte.toNat < 256 ^ mode.rawBytes)
    (had : pte.SameApartAd (mode.pteAt bytes' a)) :
    mode.SameTables root bytes
      (writeBytes bytes' a (bytesOfValue .little mode.rawBytes pte.toNat)) := by
  intro x hx
  by_cases hxa : x = a
  · subst hxa
    rw [mode.pteAt_write_self bytes' x hpte]
    intro i h6 h7
    exact (had i h6 h7).trans (hsame x hx i h6 h7)
  · obtain ⟨va, hvisits⟩ := ha
    obtain ⟨va', hvisits'⟩ := hx
    rw [mode.pteAt_write_of_ne bytes' _ hvisits.rawBytes_dvd hvisits'.rawBytes_dvd hxa]
    exact hsame x ⟨va', hvisits'⟩

end PagingMode

end QtRvSim
