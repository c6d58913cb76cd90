import QtRvSim.Refinement.TlbTransparency

/-!
# Supervisor fetches from user pages

The architecture forbids the supervisor to execute user pages.  The permission check of the
simulator lets such a fetch pass whenever the page is executable, from a walk as from the TLB.
-/

namespace QtRvSim

open BitFields FlatPhysical

namespace TlbSetup

variable {P : Type} [PhysicalMemory P] [FlatPhysical P] (su : TlbSetup)

/-- The page of an address is a user page: its leaf, in the TLB or in memory, has the U flag. -/
def IsUserPage (t : Tlb) (m : P) (va : BitVec 64) (asid : BitVec 16) : Prop :=
  match su.hitWay t (va >>> pageShift) asid with
  | some w => (t.table (su.setIndex (va >>> pageShift)) w).flags.u = true
  | none => ∃ level addr, su.paging.LeadsTo (bytes m) va su.paging.maxLevelIdx
      (su.paging.rootOf t.currentSatpRaw) level addr ∧
      (su.paging.pteAt (bytes m) addr).flags.u = true

/-- The page of an address cannot be executed: its leaf is not executable, or is a superpage that
is not aligned. -/
def Inexecutable (t : Tlb) (m : P) (va : BitVec 64) (asid : BitVec 16) : Prop :=
  match su.hitWay t (va >>> pageShift) asid with
  | some w => (t.table (su.setIndex (va >>> pageShift)) w).flags.x = false
  | none => ∃ level addr, su.paging.LeadsTo (bytes m) va su.paging.maxLevelIdx
      (su.paging.rootOf t.currentSatpRaw) level addr ∧
      ((su.paging.pteAt (bytes m) addr).flags.x = false ∨
        ¬su.paging.Aligned level (su.paging.pteAt (bytes m) addr))

end TlbSetup

/-- For fetches of the supervisor the check looks at the X flag alone. -/
theorem checkPermissions_supervisor_fetch (pte : PteFlags) (sstatus : BitVec 64) :
    checkPermissions pte sstatus .supervisor .fetch = pte.x := by
  simp [checkPermissions]

/-- A fetch of the supervisor from a user page ends in an instruction page fault exactly when the
page cannot be executed at all. -/
theorem supervisor_fetch_faults_iff {P : Type} [PhysicalMemory P] [FlatPhysical P] (su : TlbSetup)
    (t : Tlb) (m : P) (vaddr : AddressWithMode)
    (hon : su.shouldTranslate t .supervisor = true) (hpriv : vaddr.mode.priv = .supervisor)
    (hfetch : vaddr.mode.opkind = .fetch)
    (huser : su.IsUserPage t m vaddr.address vaddr.mode.asid) :
    (∃ fault, (su.translateVirtualToPhysical vaddr t m).1 = .error fault ∧
        fault.cause = .insnPageFault) ↔
      su.Inexecutable t m vaddr.address vaddr.mode.asid := by
  rw [TlbSetup.Inexecutable]
  rw [TlbSetup.IsUserPage] at huser
  rw [← hpriv] at hon
  cases hhit : su.hitWay t (vaddr.address >>> pageShift) vaddr.mode.asid with
  | some w =>
    rw [TlbSetup.translate_hit hon hhit]
    dsimp only
    rw [hpriv, hfetch, checkPermissions_supervisor_fetch]
    cases hx : (t.table (su.setIndex (vaddr.address >>> pageShift)) w).flags.x with
    | true => simp
    | false => simp [PageFault.cause, getCurrentCause]
  | none =>
    rw [hhit] at huser
    obtain ⟨level, addr, hleads, -⟩ := huser
    have hends := walk_ends su.xlen su.ptWalkMem (TlbSetup.shouldTranslate_eq_true hon).2
      vaddr.address t.currentSstatusRaw vaddr.mode m
    rw [TlbSetup.translate_miss hon hhit]
    generalize su.paging.walk su.ptWalkMem vaddr.address t.currentSatpRaw t.currentSstatusRaw
      vaddr.mode m = r at hends
    cases hends with
    | found hleads' haccepts _ =>
      rw [PagingMode.Accepts, hpriv, hfetch, checkPermissions_supervisor_fetch] at haccepts
      constructor
      · rintro ⟨fault, hfault, -⟩
        cases hfault
      · rintro ⟨level', addr', hleads'', hbad⟩
        obtain ⟨rfl, rfl⟩ := hleads'.unique su.paging hleads''
        rcases hbad with hx | hmisaligned
        · exact absurd haccepts.2 (by rw [hx]; decide)
        · exact absurd haccepts.1 hmisaligned
    | fault hop hnone _ =>
      have hrefused := hnone level addr hleads
      rw [PagingMode.Accepts, hpriv, hfetch, checkPermissions_supervisor_fetch] at hrefused
      constructor
      · intro _
        refine ⟨level, addr, hleads, ?_⟩
        cases hx : (su.paging.pteAt (bytes m) addr).flags.x with
        | false => exact .inl rfl
        | true => exact .inr fun haligned => hrefused ⟨haligned, hx⟩
      · intro _
        refine ⟨_, rfl, ?_⟩
        rw [PageFault.cause, hop, hfetch]
        rfl

/-- Physical memory that maps a gigabyte from address 0 on to the user, with the given
permissions in bits 1 to 3. -/
def userGigapage (permissions : Byte) : FlatMemory :=
  ⟨fun a => if a = 0x1000 then 0xd1 ||| permissions else 0⟩

/-- The only entry is a leaf for every address below a gigabyte. -/
theorem userGigapage_leadsTo (permissions : Byte)
    (hvalid : (smallTlb.paging.pteAt (userGigapage permissions).bytes 0x1000).isValid)
    (hleaf : (smallTlb.paging.pteAt (userGigapage permissions).bytes 0x1000).isLeaf) :
    smallTlb.paging.LeadsTo (userGigapage permissions).bytes 0x1234 smallTlb.paging.maxLevelIdx
      (smallTlb.paging.rootOf emptyTlb.currentSatpRaw) 2 0x1000 :=
  .leaf hvalid hleaf

theorem supervisor_fetch_faults_readOnly :
    ∃ fault, (smallTlb.translateVirtualToPhysical ⟨0x1234, ⟨0, .supervisor, .fetch⟩⟩ emptyTlb
      (userGigapage 0x2)).1 = .error fault ∧ fault.cause = .insnPageFault := by
  have hleads := userGigapage_leadsTo 0x2 (by decide +kernel) (by decide +kernel)
  refine (supervisor_fetch_faults_iff smallTlb emptyTlb (userGigapage 0x2) _ (by decide) rfl rfl
    ?_).mpr ?_
  · exact ⟨2, 0x1000, hleads, by decide +kernel⟩
  · exact ⟨2, 0x1000, hleads, .inl (by decide +kernel)⟩

/-- The supervisor fetches from an executable user page, by a walk and by a hit after it. -/
theorem supervisor_executes_user_page :
    smallTlb.IsUserPage emptyTlb (userGigapage 0xa) 0x1234 0 ∧
      (smallTlb.translateVirtualToPhysical ⟨0x1234, ⟨0, .supervisor, .fetch⟩⟩ emptyTlb
        (userGigapage 0xa)).1 = .ok ⟨0x1234, 0xdcc, some (0, 0)⟩ ∧
      (smallTlb.translateVirtualToPhysical ⟨0x1234, ⟨0, .supervisor, .fetch⟩⟩
        (smallTlb.translateVirtualToPhysical ⟨0x1234, ⟨0, .supervisor, .fetch⟩⟩ emptyTlb
          (userGigapage 0xa)).2.1 (userGigapage 0xa)).1 = .ok ⟨0x1234, 0xdcc, some (0, 0)⟩ := by
  have hleads := userGigapage_leadsTo 0xa (by decide +kernel) (by decide +kernel)
  refine ⟨⟨2, 0x1000, hleads, by decide +kernel⟩, ?_, ?_⟩ <;> decide +kernel

end QtRvSim
