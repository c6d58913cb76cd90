import QtRvSim.Memory.Tlb
import QtRvSim.Refinement.AccessedDirty

/-!
# Transparency of the TLB

Between two full flushes the TLB translates as a fresh page-table walk does: every valid entry,
also one for a slice of a superpage, agrees with the leaf that a walk for its page finds.  The
page tables may change in their accessed and dirty bits only; sstatus may change at any time.
-/

namespace QtRvSim

open ByteMemory BitFields FlatPhysical PagingMode

namespace PagingMode

variable {mode : PagingMode}

/-- Walks for addresses of one page read the same entries. -/
theorem entryAddress_congr {va va' : BitVec 64} (hpage : va.toNat / 2 ^ 12 = va'.toNat / 2 ^ 12)
    (lvl table : Nat) : mode.entryAddress va lvl table = mode.entryAddress va' lvl table := by
  rw [entryAddress, entryAddress, Nat.pow_add, ← Nat.div_div_eq_div_mul, hpage,
    Nat.div_div_eq_div_mul]

theorem LeadsTo.of_page {bytes : Address → Byte} {va va' : BitVec 64}
    (hpage : va.toNat / 2 ^ 12 = va'.toNat / 2 ^ 12) {lvl table level : Nat} {addr : Address}
    (h : mode.LeadsTo bytes va lvl table level addr) :
    mode.LeadsTo bytes va' lvl table level addr := by
  induction h with
  | leaf hvalid hleaf =>
    rw [entryAddress_congr hpage] at *
    exact .leaf hvalid hleaf
  | pointer hvalid hpointer _ ih =>
    rw [entryAddress_congr hpage] at *
    exact .pointer hvalid hpointer ih

end PagingMode

/-- First address of a page. -/
theorem pageAddress_toNat (va : BitVec 64) :
    ((va >>> pageShift) <<< pageShift).toNat / 2 ^ 12 = va.toNat / 2 ^ 12 := by
  rw [BitVec.toNat_shiftLeft, BitVec.toNat_ushiftRight, pageShift]
  omega

/-- An address is the start of its page and the offset in it. -/
theorem pageBase_add_offset (pa : Address) {va : BitVec 64}
    (hoffset : pa.toNat % 2 ^ 12 = va.toNat % 2 ^ 12) :
    (pa &&& ~~~lowMask 64 pageShift) + (va &&& lowMask 64 pageShift) = pa := by
  apply BitVec.eq_of_toNat_eq
  rw [BitVec.toNat_add, toNat_and_not_lowMask, toNat_and_lowMask _ (by decide), pageShift]
  omega

namespace TlbSetup

variable {P : Type} [PhysicalMemory P] (su : TlbSetup)

abbrev paging : PagingMode := su.xlen.pagingMode

/-- An entry holds what the page tables in `bytes` say about its page. -/
structure Agrees (root : Nat) (bytes : Address → Byte) (e : TlbEntry) : Prop where
  leaf : ∃ level, su.paging.LeadsTo bytes (e.vpn <<< pageShift) su.paging.maxLevelIdx root level
      e.pteAddr ∧
    su.paging.Aligned level (su.paging.pteAt bytes e.pteAddr) ∧
    e.phys = su.paging.makePhys (su.paging.pteAt bytes e.pteAddr) (e.vpn <<< pageShift) level &&&
      ~~~lowMask 64 pageShift
  pteBytes : e.pteBytes = su.paging.rawBytes
  r : e.flags.r = (su.paging.pteAt bytes e.pteAddr).flags.r
  w : e.flags.w = (su.paging.pteAt bytes e.pteAddr).flags.w
  x : e.flags.x = (su.paging.pteAt bytes e.pteAddr).flags.x
  u : e.flags.u = (su.paging.pteAt bytes e.pteAddr).flags.u

/-- No two valid entries of a set are for the same page and ASID. -/
def UniquePages (t : Tlb) : Prop :=
  ∀ s w w', w < su.config.associativity → w' < su.config.associativity →
    (t.table s w).valid → (t.table s w').valid → (t.table s w).vpn = (t.table s w').vpn →
    (t.table s w).asid = (t.table s w').asid → w = w'

/-- Every valid entry agrees with the page tables, and there is one for a page at most. -/
structure Sound (root : Nat) (bytes : Address → Byte) (t : Tlb) : Prop where
  agrees : ∀ s w, (t.table s w).valid → su.Agrees root bytes (t.table s w)
  unique : su.UniquePages t

/-- A translation without TLB: a page-table walk, if virtual memory is enabled. -/
def freshTranslation (satp sstatus : BitVec 64) (vaddr : AddressWithMode) (m : P) :
    Except PageFault Address :=
  if su.vmEnabled then
    (su.paging.walk su.ptWalkMem vaddr.address satp sstatus vaddr.mode m).1.map WalkResult.phys
  else .ok vaddr.address

end TlbSetup

/-- The same physical address, or page faults with the same cause. -/
def SameTranslation : Except PageFault TranslationResult → Except PageFault Address → Prop
  | .ok tr, .ok pa => tr.phys = pa
  | .error fault, .error fault' => fault.cause = fault'.cause
  | _, _ => False

namespace TlbSetup

variable {P : Type} [PhysicalMemory P] (su : TlbSetup)

theorem isModeEnabledInSatp_iff (satp : BitVec 64) :
    su.isModeEnabledInSatp satp = true ↔ satpScheme su.xlen satp ≠ .bare := by
  rw [Ne, ← satp_off_iff]
  cases hxlen : su.xlen with
  | _32 => simp [isModeEnabledInSatp, hxlen, Xlen.pagingMode, sv32Pte]
  | _64 =>
    have hmask : Xlen._64.pagingMode.satpModeMask = ~~~lowMask 64 60 := by decide
    have hfield : (satp >>> 60) &&& 0xf#64 = 0#64 ↔ satp.toNat / 2 ^ 60 = 0 := by
      rw [show (0xf#64) = lowMask 64 4 from rfl, and_lowMask_eq_zero _ (by decide),
        BitVec.toNat_ushiftRight, Nat.shiftRight_eq_div_pow]
      omega
    have hhigh := and_not_lowMask_eq_zero satp 60
    rw [hmask, isModeEnabledInSatp, hxlen]
    simpa using not_congr (hfield.trans hhigh.symm)

variable {su} {b₀ : Address → Byte} {e : TlbEntry} {root : Nat}

theorem Agrees.checkPermissions_eq {b : Address → Byte} (hagrees : su.Agrees root b₀ e)
    (hsame : su.paging.SameTables root b₀ b) (sstatus : BitVec 64) (priv : PrivilegeLevel)
    (op : AccessOp) :
    checkPermissions e.flags sstatus priv op =
      checkPermissions (su.paging.pteAt b e.pteAddr).flags sstatus priv op := by
  obtain ⟨level, hleads, -⟩ := hagrees.leaf
  rw [(hsame _ ⟨_, hleads.visits⟩).checkPermissions_eq]
  exact checkPermissions_congr hagrees.r hagrees.w hagrees.x hagrees.u sstatus priv op

/-- The leaf of a cached page is the one a walk finds now. -/
theorem Agrees.leadsTo {b : Address → Byte} (hagrees : su.Agrees root b₀ e)
    (hsame : su.paging.SameTables root b₀ b) {va : BitVec 64} (hvpn : e.vpn = va >>> pageShift) :
    ∃ level, su.paging.LeadsTo b va su.paging.maxLevelIdx root level e.pteAddr ∧
      su.paging.Aligned level (su.paging.pteAt b e.pteAddr) ∧
      (e.phys &&& ~~~lowMask 64 pageShift) + (va &&& lowMask 64 pageShift) =
        su.paging.makePhys (su.paging.pteAt b e.pteAddr) va level := by
  obtain ⟨level, hleads, haligned, hphys⟩ := hagrees.leaf
  have hentry := hsame _ ⟨_, hleads.visits⟩
  have hpage : (e.vpn <<< pageShift).toNat / 2 ^ 12 = va.toNat / 2 ^ 12 := by
    rw [hvpn, pageAddress_toNat]
  have hlevel := hleads.level_le
  refine ⟨level, hsame.leadsTo_iff.mpr (hleads.of_page hpage), ?_, ?_⟩
  · rw [PagingMode.Aligned, hentry.ppnOf_eq]
    exact haligned
  · have hva : (su.paging.makePhys (su.paging.pteAt b e.pteAddr) va level).toNat = _ :=
      makePhys_toNat su.xlen _ va hlevel
    have hva' : (su.paging.makePhys (su.paging.pteAt b₀ e.pteAddr) (e.vpn <<< pageShift)
        level).toNat = _ := makePhys_toNat su.xlen _ (e.vpn <<< pageShift) hlevel
    have hlt := (su.paging.makePhys (su.paging.pteAt b e.pteAddr) va level).isLt
    rw [physOf, hentry.ppnOf_eq] at hva
    rw [physOf, hpage] at hva'
    rw [hva] at hlt
    apply BitVec.eq_of_toNat_eq
    rw [hphys, BitVec.toNat_add, toNat_and_not_lowMask, toNat_and_not_lowMask,
      toNat_and_lowMask _ (by decide), hva, hva', pageShift]
    omega

/-! ### Translating -/

variable {t : Tlb}

theorem hitWay_some {vpn : BitVec 64} {asid : BitVec 16} {w : Nat}
    (hhit : su.hitWay t vpn asid = some w) :
    (t.table (su.setIndex vpn) w).valid = true ∧ (t.table (su.setIndex vpn) w).vpn = vpn ∧
      (t.table (su.setIndex vpn) w).asid = asid ∧ w < su.config.associativity := by
  have hfound := List.find?_some hhit
  have hw := List.mem_range.mp (List.mem_of_find?_eq_some hhit)
  simp only [Bool.and_eq_true, beq_iff_eq] at hfound
  exact ⟨hfound.1.1, hfound.1.2, hfound.2, hw⟩

theorem hitWay_none {vpn : BitVec 64} {asid : BitVec 16} (hmiss : su.hitWay t vpn asid = none)
    {w : Nat} (hw : w < su.config.associativity)
    (hvalid : (t.table (su.setIndex vpn) w).valid = true)
    (hvpn : (t.table (su.setIndex vpn) w).vpn = vpn) :
    (t.table (su.setIndex vpn) w).asid ≠ asid := by
  have hnone := List.find?_eq_none.mp hmiss w (List.mem_range.mpr hw)
  simpa [hvalid, hvpn] using hnone

/-- Untranslated accesses. -/
theorem translate_off {vaddr : AddressWithMode}
    (hoff : su.shouldTranslate t vaddr.mode.priv = false) (m : P) :
    su.translateVirtualToPhysical vaddr t m = (.ok ⟨vaddr.address, 2 ^ 64 - 1, none⟩, t, m) := by
  rw [translateVirtualToPhysical, if_pos (by simp [hoff])]

theorem shouldTranslate_eq_true {priv : PrivilegeLevel} (hon : su.shouldTranslate t priv = true) :
    su.vmEnabled = true ∧ satpScheme su.xlen t.currentSatpRaw ≠ .bare := by
  simp only [shouldTranslate, Bool.and_eq_true] at hon
  exact ⟨hon.1.1, (su.isModeEnabledInSatp_iff _).mp hon.1.2⟩

theorem translate_hit {vaddr : AddressWithMode} {t : Tlb} {w : Nat}
    (hon : su.shouldTranslate t vaddr.mode.priv = true)
    (hhit : su.hitWay t (vaddr.address >>> pageShift) vaddr.mode.asid = some w) (m : P) :
    su.translateVirtualToPhysical vaddr t m =
      let s := su.setIndex (vaddr.address >>> pageShift)
      if checkPermissions (t.table s w).flags t.currentSstatusRaw vaddr.mode.priv
          vaddr.mode.opkind = true then
        (.ok ⟨((t.table s w).phys &&& ~~~lowMask 64 pageShift) +
            (vaddr.address &&& lowMask 64 pageShift),
          pageBytes - (vaddr.address &&& lowMask 64 pageShift).toNat, some (s, w)⟩,
          { t with replPolicy := t.replPolicy.notifyAccess s w true }, m)
      else (.error ⟨"TLB: access fault on TLB hit", "", vaddr.mode.opkind⟩, t, m) := by
  rw [translateVirtualToPhysical, if_neg (by simp [hon])]
  simp only [hhit]
  by_cases hperm : checkPermissions (t.table (su.setIndex (vaddr.address >>> pageShift)) w).flags
      t.currentSstatusRaw vaddr.mode.priv vaddr.mode.opkind = true
  · simp [hperm]
  · simp [hperm]

theorem translate_miss {vaddr : AddressWithMode} {t : Tlb}
    (hon : su.shouldTranslate t vaddr.mode.priv = true)
    (hmiss : su.hitWay t (vaddr.address >>> pageShift) vaddr.mode.asid = none) (m : P) :
    su.translateVirtualToPhysical vaddr t m =
      match su.paging.walk su.ptWalkMem vaddr.address t.currentSatpRaw t.currentSstatusRaw
        vaddr.mode m with
      | (.error fault, m) => (.error fault, t, m)
      | (.ok res, m) =>
        (.ok ⟨(res.phys &&& ~~~lowMask 64 pageShift) + (vaddr.address &&& lowMask 64 pageShift),
          pageBytes - (vaddr.address &&& lowMask 64 pageShift).toNat,
          some (su.setIndex (vaddr.address >>> pageShift),
            (su.cacheMapping t (vaddr.address >>> pageShift) vaddr.mode.asid res).1)⟩,
          (su.cacheMapping t (vaddr.address >>> pageShift) vaddr.mode.asid res).2, m) := by
  rw [translateVirtualToPhysical, if_neg (by simp [hon])]
  dsimp only
  rw [hmiss] <;> rfl

/-- The physical address of a leaf has the offset of the virtual address. -/
theorem makePhys_offset (pte : Pte) (va : BitVec 64) {level : Nat}
    (hlevel : level ≤ su.paging.maxLevelIdx) :
    (su.paging.makePhys pte va level).toNat % 2 ^ 12 = va.toNat % 2 ^ 12 := by
  have hphys : (su.paging.makePhys pte va level).toNat = _ := makePhys_toNat su.xlen pte va hlevel
  rw [hphys, physOf]
  omega

section Flat

variable [FlatPhysical P]

/-- A translation from an entry that agrees with the page tables. -/
theorem Agrees.sameTranslation {root : Nat} {b₀ : Address → Byte} {e : TlbEntry} {m : P}
    (hagrees : su.Agrees root b₀ e) (hsame : su.paging.SameTables root b₀ (bytes m))
    {va sstatus : BitVec 64} {access : AccessMode} (hvpn : e.vpn = va >>> pageShift)
    {r : Access P WalkResult}
    (hends : su.paging.WalkEnds m va sstatus access su.paging.maxLevelIdx root r) :
    if checkPermissions e.flags sstatus access.priv access.opkind = true then
      r.1.map WalkResult.phys =
        .ok ((e.phys &&& ~~~lowMask 64 pageShift) + (va &&& lowMask 64 pageShift))
    else ∃ fault, r.1 = .error fault ∧ fault.opkind = access.opkind := by
  obtain ⟨level, hleads, haligned, hphys⟩ := hagrees.leadsTo hsame hvpn
  rw [hagrees.checkPermissions_eq hsame]
  cases hends with
  | found hleads' haccepts _ =>
    obtain ⟨rfl, rfl⟩ := hleads.unique su.paging hleads'
    rw [if_pos haccepts.2, hphys]
    rfl
  | fault hfault hnone _ =>
    rw [if_neg fun hcheck => hnone level e.pteAddr hleads ⟨haligned, hcheck⟩]
    exact ⟨_, rfl, hfault⟩

/-- Each translation gives the result of a fresh walk. -/
theorem Sound.translation {root : Nat} {b₀ : Address → Byte} {t : Tlb} {m : P}
    (hsound : su.Sound root b₀ t) (hroot : root = su.paging.rootOf t.currentSatpRaw)
    (hsame : su.paging.SameTables root b₀ (bytes m)) {vaddr : AddressWithMode}
    (hpriv : vaddr.mode.priv ≠ .machine) :
    SameTranslation (su.translateVirtualToPhysical vaddr t m).1
      (su.freshTranslation t.currentSatpRaw t.currentSstatusRaw vaddr m) := by
  cases hon : su.shouldTranslate t vaddr.mode.priv with
  | false =>
    rw [translate_off hon, freshTranslation]
    cases henabled : su.vmEnabled with
    | false => exact rfl
    | true =>
      have hbare : satpScheme su.xlen t.currentSatpRaw = .bare := by
        have hmode : su.isModeEnabledInSatp t.currentSatpRaw ≠ true := by
          intro hmode
          simp [shouldTranslate, henabled, hmode, hpriv] at hon
        exact not_not.mp (mt (su.isModeEnabledInSatp_iff _).mpr hmode)
      rw [if_pos rfl, walk, if_pos ((satp_off_iff _ _).mpr hbare)]
      exact rfl
  | true =>
    obtain ⟨henabled, hpaged⟩ := shouldTranslate_eq_true hon
    have hends := walk_ends su.xlen su.ptWalkMem hpaged vaddr.address t.currentSstatusRaw
      vaddr.mode m
    rw [freshTranslation, if_pos henabled]
    cases hhit : su.hitWay t (vaddr.address >>> pageShift) vaddr.mode.asid with
    | none =>
      rw [translate_miss hon hhit]
      generalize su.paging.walk su.ptWalkMem vaddr.address t.currentSatpRaw
        t.currentSstatusRaw vaddr.mode m = r at hends
      cases hends with
      | found hleads haccepts hbytes =>
        exact pageBase_add_offset _ (makePhys_offset _ _ hleads.level_le)
      | fault hfault hnone hbytes => exact rfl
    | some w =>
      rw [translate_hit hon hhit]
      obtain ⟨hvalid, hvpn, -⟩ := hitWay_some hhit
      rw [← hroot] at hends
      have hentry := (hsound.agrees _ _ hvalid).sameTranslation hsame hvpn hends
      dsimp only
      split at hentry
      next hperm =>
        rw [if_pos hperm, hentry]
        exact rfl
      next hperm =>
        obtain ⟨fault, hwalk, hop⟩ := hentry
        rw [if_neg hperm, hwalk]
        exact congrArg getCurrentCause hop.symm

end Flat

/-! ### The invariant is kept -/

section

variable (hsound : su.Sound root b₀ t)
include hsound

theorem Sound.of_table {t' : Tlb} (htable : t'.table = t.table) : su.Sound root b₀ t' := by
  constructor
  · rw [htable]
    exact hsound.agrees
  · rw [UniquePages, htable]
    exact hsound.unique

theorem Sound.invalidate (p : Nat → TlbEntry → Bool) : su.Sound root b₀ (t.invalidate p) := by
  have hentry : ∀ s w, ((t.invalidate p).table s w).valid →
      (t.invalidate p).table s w = t.table s w := by
    intro s w hvalid
    rw [Tlb.invalidate] at hvalid ⊢
    dsimp only at hvalid ⊢
    split at hvalid
    next hp => exact absurd hvalid (by simp)
    next hp => rw [if_neg hp]
  constructor
  · intro s w hvalid
    have hsame := hentry s w hvalid
    rw [hsame] at hvalid ⊢
    exact hsound.agrees s w hvalid
  · intro s w w' hw hw' hvalid hvalid' hvpn hasid
    have hsame := hentry s w hvalid
    have hsame' := hentry s w' hvalid'
    rw [hsame] at hvalid hvpn hasid
    rw [hsame'] at hvalid' hvpn hasid
    exact hsound.unique s w w' hw hw' hvalid hvalid' hvpn hasid

/-- An entry may be replaced by one that agrees, if no other way of the set has its page. -/
theorem Sound.setEntry {set way : Nat} (hagrees : su.Agrees root b₀ e) (halone : ∀ w, w <
      su.config.associativity → w ≠ way → (t.table set w).valid → (t.table set w).vpn = e.vpn →
      (t.table set w).asid ≠ e.asid) : su.Sound root b₀ (t.setEntry set way e) := by
  constructor
  · intro s w hvalid
    rw [Tlb.setEntry] at hvalid ⊢
    dsimp only at hvalid ⊢
    split
    next => exact hagrees
    next hother =>
      rw [if_neg hother] at hvalid
      exact hsound.agrees s w hvalid
  · intro s w w' hw hw' hvalid hvalid' hvpn hasid
    simp only [Tlb.setEntry] at hvalid hvalid' hvpn hasid
    by_cases hset : s = set
    · subst hset
      by_cases hway : w = way <;> by_cases hway' : w' = way
      · rw [hway, hway']
      · simp only [hway, hway', and_self, and_false, if_true, if_false] at hvalid' hvpn hasid
        exact absurd hasid.symm (halone w' hw' hway' hvalid' hvpn.symm)
      · simp only [hway, hway', and_self, and_false, if_true, if_false] at hvalid hvpn hasid
        exact absurd hasid (halone w hw hway hvalid hvpn)
      · simp only [hway, hway', and_false, if_false] at hvalid hvalid' hvpn hasid
        exact hsound.unique s w w' hw hw' hvalid hvalid' hvpn hasid
    · simp only [hset, false_and, if_false] at hvalid hvalid' hvpn hasid
      exact hsound.unique s w w' hw hw' hvalid hvalid' hvpn hasid

/-- An entry may be changed in what its key does not tell, if it still agrees. -/
theorem Sound.updateEntry {set way : Nat} (hagrees : su.Agrees root b₀ e)
    (hvalid : e.valid = (t.table set way).valid) (hvpn : e.vpn = (t.table set way).vpn)
    (hasid : e.asid = (t.table set way).asid) : su.Sound root b₀ (t.setEntry set way e) := by
  have hkey : ∀ s w, ((t.setEntry set way e).table s w).valid = (t.table s w).valid ∧
      ((t.setEntry set way e).table s w).vpn = (t.table s w).vpn ∧
      ((t.setEntry set way e).table s w).asid = (t.table s w).asid := by
    intro s w
    rw [Tlb.setEntry]
    dsimp only
    split
    next hplace =>
      rw [hplace.1, hplace.2]
      exact ⟨hvalid, hvpn, hasid⟩
    next => exact ⟨rfl, rfl, rfl⟩
  constructor
  · intro s w hv
    rw [(hkey s w).1] at hv
    rw [Tlb.setEntry]
    dsimp only
    split
    next => exact hagrees
    next => exact hsound.agrees s w hv
  · intro s w w' hw hw' hv hv' hp ha
    rw [(hkey s w).1] at hv
    rw [(hkey s w').1] at hv'
    rw [(hkey s w).2.1, (hkey s w').2.1] at hp
    rw [(hkey s w).2.2, (hkey s w').2.2] at ha
    exact hsound.unique s w w' hw hw' hv hv' hp ha

end

section Kept

variable [FlatPhysical P]

variable (su) in
/-- What holds of a TLB and its memory between two full flushes. -/
structure Running (root : Nat) (b₀ : Address → Byte) (t : Tlb) (m : P) : Prop where
  sound : su.Sound root b₀ t
  root_eq : root = su.paging.rootOf t.currentSatpRaw
  tables : su.paging.SameTables root b₀ (bytes m)

/-- The start of the page a leaf maps an address to. -/
theorem makePhys_page {p q : Pte} (hpte : p.SameApartAd q) {va va' : BitVec 64}
    (hpage : va.toNat / 2 ^ 12 = va'.toNat / 2 ^ 12) {level : Nat}
    (hlevel : level ≤ su.paging.maxLevelIdx) :
    su.paging.makePhys p va level &&& ~~~lowMask 64 pageShift =
      su.paging.makePhys q va' level &&& ~~~lowMask 64 pageShift := by
  have hva : (su.paging.makePhys p va level).toNat = _ := makePhys_toNat su.xlen p va hlevel
  have hva' : (su.paging.makePhys q va' level).toNat = _ := makePhys_toNat su.xlen q va' hlevel
  apply BitVec.eq_of_toNat_eq
  rw [toNat_and_not_lowMask, toNat_and_not_lowMask, hva, hva', physOf,
    physOf, hpte.ppnOf_eq, hpage, pageShift]
  omega

variable {b₀ : Address → Byte} {root : Nat}

/-- What a walk found agrees with the page tables. -/
theorem agrees_of_leadsTo {b : Address → Byte} (hsame : su.paging.SameTables root b₀ b)
    (asid : BitVec 16) {va : BitVec 64} {level : Nat} {addr : Address}
    (hleads : su.paging.LeadsTo b va su.paging.maxLevelIdx root level addr)
    (haligned : su.paging.Aligned level (su.paging.pteAt b addr)) :
    su.Agrees root b₀
      { valid := true
        asid := asid
        vpn := va >>> pageShift
        phys := su.paging.makePhys (su.paging.pteAt b addr) va level &&& ~~~lowMask 64 pageShift
        pteAddr := addr
        pteBytes := su.paging.rawBytes
        flags := (su.paging.pteAt b addr).flags } := by
  have hleads₀ := hsame.leadsTo_iff.mp hleads
  have hentry := hsame addr ⟨va, hleads₀.visits⟩
  constructor
  · refine ⟨level, hleads₀.of_page (pageAddress_toNat va).symm, ?_, ?_⟩
    · rw [PagingMode.Aligned, ← hentry.ppnOf_eq]
      exact haligned
    · exact makePhys_page hentry (pageAddress_toNat va).symm hleads.level_le
  · rfl
  · exact hentry 1 (by decide) (by decide)
  · exact hentry 2 (by decide) (by decide)
  · exact hentry 3 (by decide) (by decide)
  · exact hentry 4 (by decide) (by decide)

/-- A translation keeps the invariant and the memory; the entry it names is valid. -/
theorem Running.translate {t : Tlb} {m : P} (hrun : su.Running root b₀ t m)
    (vaddr : AddressWithMode) :
    su.Running root b₀ (su.translateVirtualToPhysical vaddr t m).2.1
        (su.translateVirtualToPhysical vaddr t m).2.2 ∧
      ∀ tr place, (su.translateVirtualToPhysical vaddr t m).1 = .ok tr → tr.entry = some place →
        ((su.translateVirtualToPhysical vaddr t m).2.1.table place.1 place.2).valid = true := by
  cases hon : su.shouldTranslate t vaddr.mode.priv with
  | false =>
    rw [translate_off hon]
    refine ⟨hrun, fun tr place hok hplace => ?_⟩
    cases hok
    cases hplace
  | true =>
    cases hhit : su.hitWay t (vaddr.address >>> pageShift) vaddr.mode.asid with
    | some w =>
      rw [translate_hit hon hhit]
      dsimp only
      split
      next =>
        refine ⟨⟨hrun.sound.of_table rfl, hrun.root_eq, hrun.tables⟩, ?_⟩
        intro tr place hok hplace
        cases hok
        cases hplace
        exact (hitWay_some hhit).1
      next => exact ⟨hrun, fun tr place hok => by cases hok⟩
    | none =>
      have hends := walk_ends su.xlen su.ptWalkMem (shouldTranslate_eq_true hon).2
        vaddr.address t.currentSstatusRaw vaddr.mode m
      rw [translate_miss hon hhit]
      generalize su.paging.walk su.ptWalkMem vaddr.address t.currentSatpRaw
        t.currentSstatusRaw vaddr.mode m = r at hends
      cases hends with
      | found hleads haccepts hbytes =>
        rw [← hrun.root_eq] at hleads
        have hagrees := agrees_of_leadsTo hrun.tables vaddr.mode.asid hleads haccepts.1
        refine ⟨⟨?_, hrun.root_eq, by rw [hbytes]; exact hrun.tables⟩, ?_⟩
        · exact (hrun.sound.setEntry hagrees fun w hw _ => hitWay_none hhit hw).of_table rfl
        · intro tr place hok hplace
          cases hok
          cases hplace
          simp [cacheMapping, Tlb.setEntry]
      | fault hfault hnone hbytes =>
        refine ⟨⟨hrun.sound, hrun.root_eq, by rw [hbytes]; exact hrun.tables⟩, ?_⟩
        intro tr place hok
        cases hok

/-- The update of an entry sets its accessed and dirty bits only. -/
theorem withAd_sameApartAd (raw : Pte) (op : AccessOp) : (raw.withAd op).SameApartAd raw := by
  intro i h6 h7
  have ha : (1#64 <<< 6).getLsbD i = false := by
    rw [show 1#64 <<< 6 = BitVec.twoPow 64 6 by decide, BitVec.getLsbD_twoPow]
    simp [Ne.symm h6]
  have hd : (1#64 <<< 7).getLsbD i = false := by
    rw [show 1#64 <<< 7 = BitVec.twoPow 64 7 by decide, BitVec.getLsbD_twoPow]
    simp [Ne.symm h7]
  rw [Pte.withAd, BitVec.getLsbD_or, BitVec.getLsbD_or, ha]
  split
  · rw [hd, Bool.or_false, Bool.or_false]
  · simp

theorem withAd_toNat_lt {n : Nat} (hn : 0 < n) {raw : Pte} (hraw : raw.toNat < 256 ^ n)
    (op : AccessOp) : (raw.withAd op).toNat < 256 ^ n := by
  have hpow : 256 ^ n = 2 ^ (8 * n) := by rw [Nat.pow_mul]
  have h256 : 256 ≤ 2 ^ (8 * n) := by
    rw [← hpow]
    exact Nat.le_self_pow hn.ne' 256
  rw [hpow] at hraw ⊢
  rw [Pte.withAd, BitVec.toNat_or, BitVec.toNat_or]
  apply Nat.or_lt_two_pow
  · apply Nat.or_lt_two_pow hraw
    exact Nat.lt_of_lt_of_le (by decide) h256
  · split
    · exact Nat.lt_of_lt_of_le (by decide) h256
    · exact Nat.lt_of_lt_of_le (by decide) h256

/-- Marking a page as accessed keeps the page tables. -/
theorem ensureAdBits_tables {t : Tlb} {m : P} {place : Nat × Nat}
    (hsame : su.paging.SameTables root b₀ (bytes m))
    (hentry : su.paging.IsEntry root b₀ (t.table place.1 place.2).pteAddr)
    (hsize : (t.table place.1 place.2).pteBytes = su.paging.rawBytes) (op : AccessOp) :
    su.paging.SameTables root b₀ (bytes (su.ensureAdBits place op t m).2) := by
  have hread : BitVec.ofNat 64 (valueOfBytes .little (PhysicalMemory.read su.ptWalkMem
      (t.table place.1 place.2).pteAddr (t.table place.1 place.2).pteBytes m).1) =
      su.paging.pteAt (bytes m) (t.table place.1 place.2).pteAddr := by
    rw [read_fst, hsize]
    rfl
  have hbytes := read_snd su.ptWalkMem (t.table place.1 place.2).pteAddr
    (t.table place.1 place.2).pteBytes m
  rw [TlbSetup.ensureAdBits]
  dsimp only
  rw [hread]
  split
  · rw [write, hbytes, hsize]
    exact hsame.write hentry
      (withAd_toNat_lt (Nat.pos_of_dvd_of_pos su.paging.rawBytes_dvd (by decide))
        (su.paging.pteAt_toNat_lt _ _) op)
      (withAd_sameApartAd _ op)
  · rw [hbytes]
    exact hsame

/-- Marking the page of a valid entry as accessed keeps the invariant. -/
theorem Running.ensureAdBits {t : Tlb} {m : P} (hrun : su.Running root b₀ t m) {place : Nat × Nat}
    (hvalid : (t.table place.1 place.2).valid = true) (op : AccessOp) :
    su.Running root b₀ (su.ensureAdBits place op t m).1 (su.ensureAdBits place op t m).2 := by
  have hagrees := hrun.sound.agrees _ _ hvalid
  obtain ⟨level, hleads, -⟩ := hagrees.leaf
  constructor
  · exact hrun.sound.updateEntry ⟨hagrees.leaf, hagrees.pteBytes, hagrees.r, hagrees.w,
      hagrees.x, hagrees.u⟩ rfl rfl rfl
  · exact hrun.root_eq
  · exact ensureAdBits_tables hrun.tables ⟨_, hleads.visits⟩ hagrees.pteBytes op

theorem Running.translateAndMark {t : Tlb} {m : P} (hrun : su.Running root b₀ t m)
    (vaddr : AddressWithMode) (op : AccessOp) :
    su.Running root b₀ (su.translateAndMark vaddr op t m).2.1
      (su.translateAndMark vaddr op t m).2.2 := by
  obtain ⟨hnext, hplace⟩ := hrun.translate vaddr
  rw [TlbSetup.translateAndMark]
  generalize su.translateVirtualToPhysical vaddr t m = r at hnext hplace
  obtain ⟨result, t', m'⟩ := r
  cases result with
  | error fault => exact hnext
  | ok tr =>
    dsimp only
    split
    next => exact hnext
    next place hentry => exact hnext.ensureAdBits (hplace tr place rfl hentry) op

end Kept

end TlbSetup

/-! ### Runs between two full flushes -/

/-- What may happen between two full flushes: accesses, changes of sstatus, fences, and other
changes of the memory. -/
inductive TlbEvent (P : Type) where
  | access (vaddr : AddressWithMode) (op : AccessOp)
  | sstatus (val : RegisterValue)
  | fence (vaddr asid : BitVec 64)
  | memory (m : P)

namespace TlbSetup

variable {P : Type} [PhysicalMemory P] (su : TlbSetup)

def event (s : Tlb × P) : TlbEvent P → Tlb × P
  | .access vaddr op => (su.translateAndMark vaddr op s.1 s.2).2
  | .sstatus val => (su.onCsrWrite s.1 (.sstatus, val), s.2)
  | .fence vaddr asid => (su.sfenceVma s.1 vaddr asid, s.2)
  | .memory m => (s.1, m)

def afterEvents (events : List (TlbEvent P)) (s : Tlb × P) : Tlb × P :=
  events.foldl su.event s

/-- The event keeps the page table of `bytes`, apart from accessed and dirty bits. -/
def KeepsTables [FlatPhysical P] (root : Nat) (bytes₀ : Address → Byte) : TlbEvent P → Prop
  | .memory m => su.paging.SameTables root bytes₀ (bytes m)
  | _ => True

end TlbSetup

def lastSstatus {P : Type} (initial : BitVec 64) (events : List (TlbEvent P)) : BitVec 64 :=
  events.foldl (fun val event => match event with | .sstatus val => val | _ => val) initial

namespace TlbSetup

variable {P : Type} [PhysicalMemory P] {su : TlbSetup}

def registers (t : Tlb) : BitVec 64 × BitVec 64 := (t.currentSatpRaw, t.currentSstatusRaw)

theorem registers_translateAndMark (vaddr : AddressWithMode) (op : AccessOp) (t : Tlb) (m : P) :
    registers (su.translateAndMark vaddr op t m).2.1 = registers t := by
  have htranslate : registers (su.translateVirtualToPhysical vaddr t m).2.1 = registers t := by
    rw [translateVirtualToPhysical]
    split
    · rfl
    · dsimp only
      split
      · split <;> rfl
      · split <;> rfl
  rw [translateAndMark]
  generalize su.translateVirtualToPhysical vaddr t m = r at htranslate
  obtain ⟨result, t', m'⟩ := r
  cases result with
  | error fault => exact htranslate
  | ok tr =>
    dsimp only
    split <;> exact htranslate

theorem sfenceVma_cases (t : Tlb) (vaddr asid : BitVec 64) :
    ∃ p, su.sfenceVma t vaddr asid = t.invalidate p := by
  unfold sfenceVma
  split
  · exact ⟨_, rfl⟩
  split
  · exact ⟨_, rfl⟩
  split
  · exact ⟨_, rfl⟩
  · exact ⟨_, rfl⟩

variable [FlatPhysical P]

theorem Running.event {root : Nat} {b₀ : Address → Byte} {s : Tlb × P}
    (hrun : su.Running root b₀ s.1 s.2) {e : TlbEvent P} (hkeeps : su.KeepsTables root b₀ e) :
    su.Running root b₀ (su.event s e).1 (su.event s e).2 ∧
      registers (su.event s e).1 =
        (s.1.currentSatpRaw, lastSstatus s.1.currentSstatusRaw [e]) := by
  cases e with
  | access vaddr op => exact ⟨hrun.translateAndMark vaddr op, registers_translateAndMark ..⟩
  | sstatus val => exact ⟨⟨hrun.sound.of_table rfl, hrun.root_eq, hrun.tables⟩, rfl⟩
  | fence vaddr asid =>
    obtain ⟨p, hfence⟩ := @sfenceVma_cases su s.1 vaddr asid
    rw [TlbSetup.event, hfence]
    exact ⟨⟨hrun.sound.invalidate p, hrun.root_eq, hrun.tables⟩, rfl⟩
  | memory m => exact ⟨⟨hrun.sound, hrun.root_eq, hkeeps⟩, rfl⟩

theorem Running.afterEvents {root : Nat} {b₀ : Address → Byte} {s : Tlb × P}
    (hrun : su.Running root b₀ s.1 s.2) {events : List (TlbEvent P)}
    (hkeeps : ∀ e ∈ events, su.KeepsTables root b₀ e) :
    su.Running root b₀ (su.afterEvents events s).1 (su.afterEvents events s).2 ∧
      registers (su.afterEvents events s).1 =
        (s.1.currentSatpRaw, lastSstatus s.1.currentSstatusRaw events) := by
  induction events generalizing s with
  | nil => exact ⟨hrun, rfl⟩
  | cons e events ih =>
    obtain ⟨hnext, hregisters⟩ := hrun.event (hkeeps e List.mem_cons_self)
    obtain ⟨hlast, hlastRegisters⟩ := ih hnext fun e' he' => hkeeps e' (List.mem_cons_of_mem _ he')
    refine ⟨hlast, hlastRegisters.trans ?_⟩
    obtain ⟨hsatp, hsstatus⟩ := Prod.mk.inj hregisters
    rw [hsatp, hsstatus]
    rfl

/-- A TLB without valid entries satisfies the invariant. -/
theorem running_flushAllEntries (t : Tlb) (m : P) :
    su.Running (su.paging.rootOf t.currentSatpRaw) (bytes m) t.flushAllEntries m := by
  constructor
  · constructor
    · intro s w hvalid
      exact absurd hvalid (by simp [Tlb.flushAllEntries, Tlb.invalidate])
    · intro s w w' _ _ hvalid
      exact absurd hvalid (by simp [Tlb.flushAllEntries, Tlb.invalidate])
  · rfl
  · exact sameTables_refl _ _

end TlbSetup

/-- In every run after a full flush, translations of user and supervisor accesses give the result
of a fresh walk with the current sstatus, and no page is held twice. -/
theorem tlb_transparent {P : Type} [PhysicalMemory P] [FlatPhysical P] (su : TlbSetup) (t₀ : Tlb)
    (m₀ : P) (events : List (TlbEvent P))
    (hkeeps : ∀ e ∈ events,
      su.KeepsTables (su.paging.rootOf t₀.currentSatpRaw) (bytes m₀) e) :
    su.UniquePages (su.afterEvents events (t₀.flushAllEntries, m₀)).1 ∧
    ∀ vaddr : AddressWithMode, vaddr.mode.priv ≠ .machine →
      SameTranslation
        (su.translateVirtualToPhysical vaddr (su.afterEvents events (t₀.flushAllEntries, m₀)).1
          (su.afterEvents events (t₀.flushAllEntries, m₀)).2).1
        (su.freshTranslation t₀.currentSatpRaw (lastSstatus t₀.currentSstatusRaw events) vaddr
          (su.afterEvents events (t₀.flushAllEntries, m₀)).2) := by
  have hstart : su.Running (su.paging.rootOf t₀.currentSatpRaw) (bytes m₀)
      (t₀.flushAllEntries, m₀).1 (t₀.flushAllEntries, m₀).2 :=
    TlbSetup.running_flushAllEntries t₀ m₀
  obtain ⟨hrun, hregisters⟩ := hstart.afterEvents hkeeps
  obtain ⟨hsatp, hsstatus⟩ := Prod.mk.inj hregisters
  refine ⟨hrun.sound.unique, fun vaddr hpriv => ?_⟩
  have htranslation := hrun.sound.translation hrun.root_eq hrun.tables hpriv
  rw [hsatp, hsstatus] at htranslation
  exact htranslation

/-- A TLB of one set with two ways, over virtual memory of a 64-bit machine. -/
def smallTlb : TlbSetup :=
  ⟨⟨1, 2, .lru, Nat.one_pos, Nat.two_pos⟩, ._64, true, .data, .program⟩

/-- The empty TLB with the root table of `oneGigapage`. -/
def emptyTlb : Tlb where
  table _ _ := ⟨false, 0, 0, 0, 0, 0, Pte.flags 0⟩
  replPolicy := .lru fun _ => [0, 1]
  currentSatpRaw := 0x8000000000000001
  currentSstatusRaw := 0

/-- Accesses of the supervisor that fill both ways. -/
def twoAccesses : List (TlbEvent FlatMemory) :=
  [.access ⟨0x1000, ⟨0, .supervisor, .read⟩⟩ .read, .sstatus 0x40000, .memory oneGigapage,
    .access ⟨0x2000, ⟨0, .supervisor, .fetch⟩⟩ .read]

theorem tlb_transparent_smallTlb :
    SameTranslation
      (smallTlb.translateVirtualToPhysical ⟨0x1234, ⟨0, .supervisor, .write⟩⟩
        (smallTlb.afterEvents twoAccesses (emptyTlb.flushAllEntries, oneGigapage)).1
        (smallTlb.afterEvents twoAccesses (emptyTlb.flushAllEntries, oneGigapage)).2).1
      (.ok 0x1234) := by
  have hkeeps : ∀ e ∈ twoAccesses, smallTlb.KeepsTables
      (smallTlb.paging.rootOf emptyTlb.currentSatpRaw) (bytes oneGigapage) e := by
    intro e he
    simp only [twoAccesses, List.mem_cons, List.not_mem_nil, or_false] at he
    rcases he with rfl | rfl | rfl | rfl
    · trivial
    · trivial
    · exact sameTables_refl _ _
    · trivial
  have htranslation := (tlb_transparent smallTlb emptyTlb oneGigapage twoAccesses hkeeps).2
    ⟨0x1234, ⟨0, .supervisor, .write⟩⟩ (by decide)
  have hfresh : smallTlb.freshTranslation emptyTlb.currentSatpRaw
      (lastSstatus emptyTlb.currentSstatusRaw twoAccesses) ⟨0x1234, ⟨0, .supervisor, .write⟩⟩
      (smallTlb.afterEvents twoAccesses (emptyTlb.flushAllEntries, oneGigapage)).2 =
      .ok 0x1234 := by decide +kernel
  rw [hfresh] at htranslation
  exact htranslation

end QtRvSim
