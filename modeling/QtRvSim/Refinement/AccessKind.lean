import QtRvSim.Core.AccessScript
import QtRvSim.Core.Reset
import QtRvSim.Refinement.UserPages

/-!
# Access kinds of memory instructions

A load or a load-reserved instruction reads, a store, a store-conditional and an atomic memory
operation write.  The kind of the access decides which permission its page has to grant and which
page fault a refused access raises.  The memory stage gets all of them right but load-reserved,
which it treats as a write.
-/

namespace QtRvSim

open BitFields ByteMemory FlatPhysical FrontendMemory QtRvSim.Core AccessScript InstructionMap

/-! ### Memory instructions -/

inductive MemInstruction where
  | load | loadReserved | store | storeConditional | amo
deriving DecidableEq, Repr

/-- The memory instruction a word encodes: opcodes LOAD, STORE and AMO, the latter with the funct5
values of LR and SC. -/
def Instruction.memInstruction (inst : Instruction) : Option MemInstruction :=
  let opcode := (BitField.mk 7 0).decode inst
  let funct5 := (BitField.mk 5 27).decode inst
  if opcode = 0x03 then some .load
  else if opcode = 0x23 then some .store
  else if opcode = 0x2f then
    if funct5 = 2 then some .loadReserved
    else if funct5 = 3 then some .storeConditional
    else some .amo
  else none

def MemInstruction.op : MemInstruction → AccessOp
  | .load | .loadReserved => .read
  | .store | .storeConditional | .amo => .write

/-- The control signals of the memory stage that belong to a memory instruction. -/
def MemInstruction.Signals (k : MemInstruction) (memctl : AccessControl)
    (memread memwrite amo : Bool) : Prop :=
  match k with
  | .load => isRegularAccess memctl ∧ memread ∧ ¬memwrite ∧ ¬amo
  | .store => isRegularAccess memctl ∧ ¬memread ∧ memwrite ∧ ¬amo
  | .loadReserved => (memctl = .lr32 ∨ memctl = .lr64) ∧ memread ∧ amo
  | .storeConditional => (memctl = .sc32 ∨ memctl = .sc64) ∧ memwrite
  | .amo => isSpecialAccess memctl ∧ memctl ≠ .lr32 ∧ memctl ≠ .lr64 ∧ memctl ≠ .sc32 ∧
      memctl ≠ .sc64 ∧ memctl ≠ .sfenceVma ∧ memctl ≠ .cacheOp ∧ memread ∧ memwrite

instance (memctl : AccessControl) (memread memwrite amo : Bool) :
    (k : MemInstruction) → Decidable (k.Signals memctl memread memwrite amo)
  | .load | .store | .loadReserved | .storeConditional | .amo =>
    inferInstanceAs (Decidable (_ ∧ _))

namespace InstructionMap

open InstructionFlags

/-- A row gives its words the signals of the memory instruction they encode. -/
def RowSignals (e : InstructionEntry) : Prop :=
  e.flags.has supported = true →
    (BitField.mk 7 0).mask 32 &&& e.mask = (BitField.mk 7 0).mask 32 ∧
    ((BitField.mk 7 0).decode e.code = 0x2f →
      (BitField.mk 5 27).mask 32 &&& e.mask = (BitField.mk 5 27).mask 32) ∧
    ∀ k ∈ Instruction.memInstruction e.code,
      k.Signals e.memCtl (e.flags.has memread) (e.flags.has memwrite) (e.flags.has amo)

instance (e : InstructionEntry) : Decidable (RowSignals e) :=
  inferInstanceAs (Decidable (_ → _))

theorem rowSignals : ∀ e ∈ root.entries, RowSignals e := by
  decide +kernel

/-- A supported word matches its row. -/
theorem find_matches {code : BitVec 32} (hsupported : (find code).flags.has supported = true) :
    (code ^^^ (find code).code) &&& (find code).mask = 0 := by
  rw [find] at hsupported ⊢
  split
  next hmismatch =>
    rw [if_pos hmismatch] at hsupported
    exact absurd hsupported (by decide)
  next hmatch => exact not_not.mp hmatch

end InstructionMap

/-- Words of memory instructions get the signals of their instruction. -/
theorem Instruction.memInstruction_signals {inst : Instruction} {k : MemInstruction}
    (hsupported : inst.flags.has .supported = true) (hk : inst.memInstruction = some k) :
    k.Signals inst.memCtl (inst.flags.has .memread) (inst.flags.has .memwrite)
      (inst.flags.has .amo) := by
  have hmatch := find_matches hsupported
  obtain ⟨hopcode, hfunct5, hsignals⟩ := find_of_entries rowSignals
    (fun h => absurd h (by decide)) inst hsupported
  have hdecode := (BitField.mk 7 0).decode_eq_of_mask hopcode hmatch
  apply hsignals
  rw [Option.mem_def, ← hk, memInstruction, memInstruction, hdecode]
  -- The funct5 field is fixed by the row only for the AMO opcode, where alone it is read.
  by_cases hamo : (BitField.mk 7 0).decode (find inst).code = 0x2f
  · rw [(BitField.mk 5 27).decode_eq_of_mask (hfunct5 hamo) hmatch]
  · simp only [if_neg hamo]

/-! ### Accesses to one page -/

structure SamePermissions (p q : PteFlags) : Prop where
  r : p.r = q.r
  w : p.w = q.w
  x : p.x = q.x
  u : p.u = q.u

theorem SamePermissions.checkPermissions_eq {p q : PteFlags} (h : SamePermissions p q)
    (sstatus : BitVec 64) (priv : PrivilegeLevel) (op : AccessOp) :
    checkPermissions p sstatus priv op = checkPermissions q sstatus priv op :=
  checkPermissions_congr h.r h.w h.x h.u sstatus priv op

theorem SamePermissions.trans {p q r : PteFlags} (h : SamePermissions p q)
    (h' : SamePermissions q r) : SamePermissions p r :=
  ⟨h.r.trans h'.r, h.w.trans h'.w, h.x.trans h'.x, h.u.trans h'.u⟩

theorem Pte.SameApartAd.samePermissions {p q : Pte} (h : p.SameApartAd q) :
    SamePermissions p.flags q.flags where
  r := h 1 (by decide) (by decide)
  w := h 2 (by decide) (by decide)
  x := h 3 (by decide) (by decide)
  u := h 4 (by decide) (by decide)

/-- An access succeeds if it is granted and otherwise raises a page fault of its kind. -/
def Ends {α : Type} (granted : Bool) (op : AccessOp) : Except PageFault α → Prop
  | .ok _ => granted = true
  | .error fault => granted = false ∧ fault.opkind = op

namespace TlbSetup

variable {P : Type} [PhysicalMemory P] [FlatPhysical P] (su : TlbSetup)

/-- The permissions of the page of an address: those of the entry that is hit, or of the aligned
leaf that a walk finds. -/
def PageFlags (t : Tlb) (m : P) (va : BitVec 64) (asid : BitVec 16) (flags : PteFlags) : Prop :=
  match su.hitWay t (va >>> pageShift) asid with
  | some w => SamePermissions (t.table (su.setIndex (va >>> pageShift)) w).flags flags
  | none => ∃ level addr, su.paging.LeadsTo (bytes m) va su.paging.maxLevelIdx
      (su.paging.rootOf t.currentSatpRaw) level addr ∧
      su.paging.Aligned level (su.paging.pteAt (bytes m) addr) ∧
      SamePermissions (su.paging.pteAt (bytes m) addr).flags flags

variable {su} {t : Tlb} {m : P} {vaddr : AddressWithMode} {flags : PteFlags}

/-- A translation succeeds if the page grants the access. -/
theorem translate_ends (hon : su.shouldTranslate t vaddr.mode.priv = true)
    (hflags : su.PageFlags t m vaddr.address vaddr.mode.asid flags) :
    Ends (checkPermissions flags t.currentSstatusRaw vaddr.mode.priv vaddr.mode.opkind)
      vaddr.mode.opkind (su.translateVirtualToPhysical vaddr t m).1 := by
  rw [PageFlags] at hflags
  cases hhit : su.hitWay t (vaddr.address >>> pageShift) vaddr.mode.asid with
  | some w =>
    rw [hhit] at hflags
    rw [translate_hit hon hhit, ← hflags.checkPermissions_eq]
    dsimp only
    split
    next hgranted => exact hgranted
    next hrefused => exact ⟨by simpa using hrefused, rfl⟩
  | none =>
    rw [hhit] at hflags
    obtain ⟨level, addr, hleads, haligned, hsame⟩ := hflags
    have hends := walk_ends su.xlen su.ptWalkMem (shouldTranslate_eq_true hon).2 vaddr.address
      t.currentSstatusRaw vaddr.mode m
    rw [translate_miss hon hhit, ← hsame.checkPermissions_eq]
    generalize su.paging.walk su.ptWalkMem vaddr.address t.currentSatpRaw t.currentSstatusRaw
      vaddr.mode m = r at hends
    cases hends with
    | found hleads' haccepts _ =>
      obtain ⟨rfl, rfl⟩ := hleads.unique su.paging hleads'
      exact haccepts.2
    | fault hop hnone _ =>
      refine ⟨?_, hop⟩
      cases hcheck : checkPermissions (su.paging.pteAt (bytes m) addr).flags
        t.currentSstatusRaw vaddr.mode.priv vaddr.mode.opkind with
      | false => rfl
      | true => exact absurd ⟨haligned, hcheck⟩ (hnone level addr hleads)

omit [FlatPhysical P] in
/-- Marking an entry changes neither the pages of the table nor their permissions. -/
theorem ensureAdBits_entry (place : Nat × Nat) (op : AccessOp) (t : Tlb) (m : P) (s w : Nat) :
    ((su.ensureAdBits place op t m).1.table s w).valid = (t.table s w).valid ∧
      ((su.ensureAdBits place op t m).1.table s w).vpn = (t.table s w).vpn ∧
      ((su.ensureAdBits place op t m).1.table s w).asid = (t.table s w).asid ∧
      SamePermissions ((su.ensureAdBits place op t m).1.table s w).flags (t.table s w).flags := by
  rw [ensureAdBits]
  dsimp only [Tlb.setEntry]
  split
  next hplace =>
    rw [hplace.1, hplace.2]
    exact ⟨rfl, rfl, rfl, rfl, rfl, rfl, rfl⟩
  next => exact ⟨rfl, rfl, rfl, rfl, rfl, rfl, rfl⟩

omit [FlatPhysical P] in
theorem hitWay_ensureAdBits (place : Nat × Nat) (op : AccessOp) (t : Tlb) (m : P)
    (vpn : BitVec 64) (asid : BitVec 16) :
    su.hitWay (su.ensureAdBits place op t m).1 vpn asid = su.hitWay t vpn asid := by
  rw [hitWay, hitWay]
  congr 1
  funext w
  obtain ⟨hvalid, hvpn, hasid, -⟩ := su.ensureAdBits_entry place op t m (su.setIndex vpn) w
  dsimp only
  rw [hvalid, hvpn, hasid]

/-- A mapping that was just cached and marked has the permissions of its leaf. -/
theorem pageFlags_cacheMapping {va : BitVec 64} {asid : BitVec 16} {level : Nat} {addr : Address}
    (hmiss : su.hitWay t (va >>> pageShift) asid = none)
    (hleads : su.paging.LeadsTo (bytes m) va su.paging.maxLevelIdx
      (su.paging.rootOf t.currentSatpRaw) level addr)
    (haligned : su.paging.Aligned level (su.paging.pteAt (bytes m) addr))
    (hsame : SamePermissions (su.paging.pteAt (bytes m) addr).flags flags) (op : AccessOp)
    {m' : P} (hbytes : bytes m' = bytes m) (phys : Address) :
    let mapping := su.cacheMapping t (va >>> pageShift) asid
      ⟨phys, addr, some (su.paging.pteAt (bytes m) addr)⟩
    let place := (su.setIndex (va >>> pageShift), mapping.1)
    su.PageFlags (su.ensureAdBits place op mapping.2 m').1
      (su.ensureAdBits place op mapping.2 m').2 va asid flags := by
  intro mapping place
  have hcached : mapping.2.table place.1 place.2 =
      ⟨true, asid, va >>> pageShift, phys &&& ~~~lowMask 64 pageShift, addr, su.paging.rawBytes,
        (su.paging.pteAt (bytes m) addr).flags⟩ := by
    simp [mapping, place, cacheMapping, Tlb.setEntry]
  rw [PageFlags, hitWay_ensureAdBits]
  cases hhit : su.hitWay mapping.2 (va >>> pageShift) asid with
  | some w =>
    obtain ⟨hvalid, hvpn, hasid, hw⟩ := hitWay_some hhit
    have hway : w = mapping.1 := by
      by_contra hother
      have hold : mapping.2.table (su.setIndex (va >>> pageShift)) w =
          t.table (su.setIndex (va >>> pageShift)) w := by
        have hne : ¬w = (t.replPolicy.selectWay su.config.associativity
            (su.setIndex (va >>> pageShift))).1 := hother
        simp [mapping, cacheMapping, Tlb.setEntry, hne]
      rw [hold] at hvalid hvpn hasid
      exact hitWay_none hmiss hw hvalid hvpn hasid
    have hentry := (su.ensureAdBits_entry place op mapping.2 m'
      (su.setIndex (va >>> pageShift)) w).2.2.2
    refine hentry.trans ?_
    rw [hway]
    have hflags : (mapping.2.table (su.setIndex (va >>> pageShift)) mapping.1).flags =
        (su.paging.pteAt (bytes m) addr).flags := by rw [hcached]
    rw [hflags]
    exact hsame
  | none =>
    have hvisits := hleads.visits
    have htables : su.paging.SameTables (su.paging.rootOf t.currentSatpRaw) (bytes m)
        (bytes (su.ensureAdBits place op mapping.2 m').2) := by
      apply ensureAdBits_tables
      · rw [hbytes]
        exact PagingMode.sameTables_refl _ _
      · rw [hcached]
        exact ⟨va, hvisits⟩
      · rw [hcached]
    have hpte := htables addr ⟨va, hvisits⟩
    refine ⟨level, addr, htables.leadsTo_iff.mpr hleads, ?_, ?_⟩
    · rw [PagingMode.Aligned, hpte.ppnOf_eq]
      exact haligned
    · exact hpte.samePermissions.trans hsame

/-- The permissions of the page are still there after it was accessed. -/
theorem PageFlags.translateAndMark (hon : su.shouldTranslate t vaddr.mode.priv = true)
    (hflags : su.PageFlags t m vaddr.address vaddr.mode.asid flags) (op : AccessOp) :
    su.PageFlags (su.translateAndMark vaddr op t m).2.1 (su.translateAndMark vaddr op t m).2.2
      vaddr.address vaddr.mode.asid flags := by
  rw [TlbSetup.translateAndMark]
  cases hhit : su.hitWay t (vaddr.address >>> pageShift) vaddr.mode.asid with
  | some w =>
    rw [translate_hit hon hhit]
    dsimp only
    by_cases hgranted : checkPermissions
        (t.table (su.setIndex (vaddr.address >>> pageShift)) w).flags t.currentSstatusRaw
        vaddr.mode.priv vaddr.mode.opkind = true
    · rw [if_pos hgranted]
      rw [PageFlags, hhit] at hflags
      rw [PageFlags, hitWay_ensureAdBits]
      have hhit' : ∀ policy, su.hitWay { t with replPolicy := policy }
          (vaddr.address >>> pageShift) vaddr.mode.asid = some w := fun _ => hhit
      rw [hhit']
      exact (su.ensureAdBits_entry _ op _ m _ w).2.2.2.trans hflags
    · rw [if_neg hgranted]
      exact hflags
  | none =>
    have hleaf := hflags
    rw [PageFlags, hhit] at hleaf
    obtain ⟨level, addr, hleads, haligned, hsame⟩ := hleaf
    have hends := walk_ends su.xlen su.ptWalkMem (shouldTranslate_eq_true hon).2 vaddr.address
      t.currentSstatusRaw vaddr.mode m
    rw [translate_miss hon hhit]
    generalize su.paging.walk su.ptWalkMem vaddr.address t.currentSatpRaw t.currentSstatusRaw
      vaddr.mode m = r at hends
    cases hends with
    | found hleads' haccepts hbytes =>
      obtain ⟨rfl, rfl⟩ := hleads.unique su.paging hleads'
      exact pageFlags_cacheMapping hhit hleads haligned hsame op hbytes _
    | fault hop hnone hbytes =>
      rw [PageFlags, hhit, hbytes]
      exact ⟨level, addr, hleads, haligned, hsame⟩

theorem PageFlags.of_bytes {m' : P} {va : BitVec 64} {asid : BitVec 16}
    (hflags : su.PageFlags t m va asid flags) (hbytes : bytes m' = bytes m) :
    su.PageFlags t m' va asid flags := by
  rw [PageFlags, hbytes]
  exact hflags

theorem translateAndMark_ends (hon : su.shouldTranslate t vaddr.mode.priv = true)
    (hflags : su.PageFlags t m vaddr.address vaddr.mode.asid flags) (op : AccessOp) :
    Ends (checkPermissions flags t.currentSstatusRaw vaddr.mode.priv vaddr.mode.opkind)
      vaddr.mode.opkind (su.translateAndMark vaddr op t m).1 := by
  have hends := translate_ends hon hflags
  rw [translateAndMark]
  generalize su.translateVirtualToPhysical vaddr t m = r at hends
  obtain ⟨result, t', m'⟩ := r
  cases result with
  | error fault => exact hends
  | ok tr =>
    dsimp only
    split <;> exact hends

omit [FlatPhysical P] in
/-- A translated access may go on to the end of the page. -/
theorem translateAndMark_bytes (hon : su.shouldTranslate t vaddr.mode.priv = true) {op : AccessOp}
    {tr : TranslationResult} (hok : (su.translateAndMark vaddr op t m).1 = .ok tr) :
    tr.bytesUntilPageEnd = pageBytes - (vaddr.address &&& lowMask 64 pageShift).toNat := by
  have htranslate : (su.translateVirtualToPhysical vaddr t m).1 = .ok tr := by
    rw [translateAndMark] at hok
    generalize su.translateVirtualToPhysical vaddr t m = r at hok ⊢
    obtain ⟨result, t', m'⟩ := r
    cases result with
    | error fault => exact hok
    | ok tr' =>
      dsimp only at hok
      split at hok <;> exact hok
  cases hhit : su.hitWay t (vaddr.address >>> pageShift) vaddr.mode.asid with
  | some w =>
    rw [translate_hit hon hhit] at htranslate
    dsimp only at htranslate
    split at htranslate
    · cases htranslate
      rfl
    · cases htranslate
  | none =>
    rw [translate_miss hon hhit] at htranslate
    split at htranslate
    · cases htranslate
    · cases htranslate
      rfl

variable (hon : su.shouldTranslate t vaddr.mode.priv = true)
include hon

variable (hflags : su.PageFlags t m vaddr.address vaddr.mode.asid flags)
include hflags

/-- A read within a page. -/
theorem translateAndRead_ends {n : Nat} (hn : 0 < n)
    (hfit : (vaddr.address &&& lowMask 64 pageShift).toNat + n ≤ pageBytes) :
    Ends (checkPermissions flags t.currentSstatusRaw vaddr.mode.priv vaddr.mode.opkind)
        vaddr.mode.opkind (su.translateAndRead vaddr n t m).1 ∧
      su.PageFlags (su.translateAndRead vaddr n t m).2.1 (su.translateAndRead vaddr n t m).2.2
        vaddr.address vaddr.mode.asid flags ∧
      registers (su.translateAndRead vaddr n t m).2.1 = registers t := by
  obtain ⟨n, rfl⟩ := Nat.exists_eq_succ_of_ne_zero hn.ne'
  have hends := translateAndMark_ends hon hflags .read
  have hkept := hflags.translateAndMark hon .read
  have hregisters := @registers_translateAndMark P _ su vaddr .read t m
  have hbytes := fun tr => @translateAndMark_bytes P _ su t m vaddr hon .read tr
  rw [translateAndRead, translateAndReadLoop, if_neg (Nat.succ_ne_zero n)]
  generalize su.translateAndMark vaddr .read t m = r at hends hkept hregisters hbytes
  obtain ⟨result, t', m'⟩ := r
  cases result with
  | error fault => exact ⟨hends, hkept, hregisters⟩
  | ok tr =>
    have hall : min (n + 1) tr.bytesUntilPageEnd = n + 1 := by
      rw [hbytes tr rfl]
      omega
    dsimp only
    rw [hall, Nat.sub_self, translateAndReadLoop_zero]
    exact ⟨hends, hkept.of_bytes (read_snd _ _ _ _), hregisters⟩

/-- A write within a page. -/
theorem translateAndWrite_ends {src : List Byte} (hsrc : 0 < src.length)
    (hfit : (vaddr.address &&& lowMask 64 pageShift).toNat + src.length ≤ pageBytes) :
    Ends (checkPermissions flags t.currentSstatusRaw vaddr.mode.priv vaddr.mode.opkind)
        vaddr.mode.opkind (su.translateAndWrite vaddr src t m).1 := by
  obtain ⟨n, hlength⟩ := Nat.exists_eq_succ_of_ne_zero hsrc.ne'
  have hends := translateAndMark_ends hon hflags .write
  have hbytes := fun tr => @translateAndMark_bytes P _ su t m vaddr hon .write tr
  rw [translateAndWrite, hlength, Nat.succ_eq_add_one, translateAndWriteLoop, if_neg hsrc.ne']
  generalize su.translateAndMark vaddr .write t m = r at hends hbytes
  obtain ⟨result, t', m'⟩ := r
  cases result with
  | error fault => exact hends
  | ok tr =>
    have hall : min src.length tr.bytesUntilPageEnd = src.length := by
      rw [hbytes tr rfl]
      omega
    dsimp only
    rw [hall, List.drop_length, translateAndWriteLoop_nil]
    exact hends

end TlbSetup

/-! ### The memory stage -/

/-- The data accesses of `size` bytes at an address in a mode lie in one page with the given
permissions, and are translated. -/
structure OnPage {vm : VmSetup} {P : Type} [PhysicalMemory P] [FlatPhysical P]
    (s : VirtualMemory vm P) (address : AddressWithMode) (size : Nat) (flags : PteFlags) :
    Prop where
  on : vm.data.shouldTranslate s.tlbData address.mode.priv = true
  fits : (address.address &&& lowMask 64 pageShift).toNat + size ≤ pageBytes
  flags : vm.data.PageFlags s.tlbData s.mem address.address address.mode.asid flags

section Stage

variable {vm : VmSetup} {P : Type} [PhysicalMemory P] [FlatPhysical P]

def granted (s : VirtualMemory vm P) (mode : AccessMode) (flags : PteFlags) : Bool :=
  checkPermissions flags s.tlbData.currentSstatusRaw mode.priv mode.opkind

variable {s : VirtualMemory vm P} {address : AddressWithMode} {flags : PteFlags}

variable {size : Nat}

section

variable (hpage : OnPage s address size flags) (hsize : 0 < size)
include hpage hsize

theorem read_ends :
    Ends (granted s address.mode flags) address.mode.opkind
        (FrontendMemory.read .data address size s).1 ∧
      OnPage (FrontendMemory.read .data address size s).2 address size flags ∧
      granted (FrontendMemory.read .data address size s).2 address.mode flags =
        granted s address.mode flags := by
  obtain ⟨hends, hflags, hregisters⟩ :=
    TlbSetup.translateAndRead_ends hpage.on hpage.flags hsize hpage.fits
  obtain ⟨hsatp, hsstatus⟩ := Prod.mk.inj hregisters
  refine ⟨hends, ⟨?_, hpage.fits, hflags⟩, ?_⟩
  · rw [← hpage.on, TlbSetup.shouldTranslate, TlbSetup.shouldTranslate, ← hsatp]
    rfl
  · rw [granted, granted, ← hsstatus]
    rfl

theorem write_ends {bytes : List Byte} (hlength : bytes.length = size) :
    Ends (granted s address.mode flags) address.mode.opkind
      (FrontendMemory.write .data address bytes s).1 := by
  subst hlength
  exact TlbSetup.translateAndWrite_ends hpage.on hpage.flags hsize hpage.fits

/-- A script that ends with a write. -/
theorem run_write_ends {bytes : List Byte} (hlength : bytes.length = size) (value : RegisterValue) :
    Ends (granted s address.mode flags) address.mode.opkind
      ((write bytes (.answer value)).run address s).1 := by
  have hwrite := write_ends hpage hsize hlength
  rw [run]
  generalize FrontendMemory.write .data address bytes s = r at hwrite
  obtain ⟨result, s'⟩ := r
  cases result with
  | ok | error => exact hwrite

/-- A script that goes on behind a read, to a memory in which the page still has its
permissions. -/
theorem run_read_ends {next : List Byte → AccessScript} (hnext : ∀ {s' : VirtualMemory vm P}
      bytes, OnPage s' address size flags → granted s' address.mode flags = true → Ends (granted
      s' address.mode flags) address.mode.opkind ((next bytes).run address s').1) :
    Ends (granted s address.mode flags) address.mode.opkind
      ((read size next).run address s).1 := by
  obtain ⟨hread, hpage', hgranted⟩ := read_ends hpage hsize
  rw [run]
  generalize FrontendMemory.read .data address size s = r at hread hpage' hgranted
  obtain ⟨result, s'⟩ := r
  cases result with
  | error fault => exact hread
  | ok bytes =>
    rw [← hgranted]
    exact hnext bytes hpage' (hgranted.trans hread)

end

variable {core : Core (VirtualMemory vm P)} {cfg : CoreConfig} {dt : ExecuteInterstage}
  {k : MemInstruction}

/-- A store-conditional performs its write: the reservation covers the bytes of the access. -/
def HoldsReservation (cfg : CoreConfig) (dt : ExecuteInterstage)
    (core : Core (VirtualMemory vm P)) : Prop :=
  core.loadReservedRange.contains
    ⟨(memAddress cfg dt core).address,
      (memAddress cfg dt core).address + BitVec.ofNat 64 (accessSize dt.memctl - 1)⟩ = true

/-- The bytes that an atomic memory operation writes back for those it has read. -/
def amoBytes (endian : Endian) (dt : ExecuteInterstage) (bytes : List Byte) : List Byte :=
  let fetched := valueOfBytes endian bytes
  if accessSize dt.memctl = 4 then
    bytesOfValue endian 4 (amo32Operations dt.memctl (.ofNat 32 fetched)
      (dt.valRt.setWidth 32)).toNat
  else
    bytesOfValue endian 8 (amo64Operations dt.memctl (.ofNat 64 fetched) dt.valRt).toNat

def MemInstruction.Performs (k : MemInstruction) (endian : Endian) (dt : ExecuteInterstage)
    (script : AccessScript) : Prop :=
  let size := accessSize dt.memctl
  match k with
  | .load | .loadReserved =>
    ∃ value : List Byte → RegisterValue, script = .read size fun bytes => .answer (value bytes)
  | .store | .storeConditional =>
    ∃ value, script =
      .write (bytesOfValue endian size (dt.valRt.setWidth (8 * size)).toNat) (.answer value)
  | .amo =>
    ∃ value : List Byte → RegisterValue, script =
      .read size fun bytes => .write (amoBytes endian dt bytes) (.answer (value bytes))

omit [PhysicalMemory P] [FlatPhysical P] in
theorem accessScript_performs (hsignals : k.Signals dt.memctl dt.memread dt.memwrite dt.amo)
    (hreserved : k = .storeConditional → HoldsReservation cfg dt core) :
    0 < accessSize dt.memctl ∧ k.Performs cfg.endian dt (accessScript cfg dt core) := by
  unfold MemInstruction.Performs accessScript ofAccess amoBytes
  cases k with
  | load =>
    obtain ⟨hctl, hread, hwrite, -⟩ := hsignals
    rw [hread, Bool.eq_false_of_not_eq_true hwrite]
    cases hmemctl : dt.memctl with
    | i8 | u8 | i16 | u16 | i32 | u32 | i64 | u64 => exact ⟨by decide, _, rfl⟩
    | _ => exact absurd (hmemctl ▸ hctl) (by decide)
  | store =>
    obtain ⟨hctl, hread, hwrite, -⟩ := hsignals
    have hwide : dt.valRt.setWidth (8 * 8) = dt.valRt := BitVec.setWidth_eq _
    rw [hwrite, Bool.eq_false_of_not_eq_true hread]
    cases hmemctl : dt.memctl with
    | i8 | u8 | i16 | u16 | i32 | u32 => exact ⟨by decide, _, rfl⟩
    | i64 | u64 =>
      refine ⟨by decide, dt.aluVal, ?_⟩
      dsimp only [accessSize, ctlSize]
      rw [hwide]
      rfl
    | _ => exact absurd (hmemctl ▸ hctl) (by decide)
  | loadReserved =>
    obtain ⟨hctl, hread, -⟩ := hsignals
    rw [hread]
    rcases hctl with hctl | hctl
    · rw [hctl]
      exact ⟨by decide, _, rfl⟩
    · rw [hctl]
      exact ⟨by decide, _, rfl⟩
  | storeConditional =>
    obtain ⟨hctl, hwrite⟩ := hsignals
    have hholds : core.loadReservedRange.contains (accessRange cfg dt core) = true := hreserved rfl
    rw [hwrite, hholds]
    rcases hctl with hctl | hctl
    · rw [hctl]
      exact ⟨by decide, _, rfl⟩
    · rw [hctl]
      exact ⟨by decide, _, rfl⟩
  | amo =>
    obtain ⟨hspecial, hlr32, hlr64, hsc32, hsc64, hsfence, hcache, hread, hwrite⟩ := hsignals
    have hwide : dt.valRt.setWidth 64 = dt.valRt := BitVec.setWidth_eq _
    rw [hread, hwrite, hwide]
    cases hmemctl : dt.memctl with
    | none | i8 | u8 | i16 | u16 | i32 | u32 | i64 | u64 =>
      exact absurd (hmemctl ▸ hspecial) (by decide)
    | lr32 | lr64 | sc32 | sc64 | sfenceVma | cacheOp => contradiction
    | _ => exact ⟨by decide, _, rfl⟩

section

variable (hsignals : MemInstruction.amo.Signals dt.memctl dt.memread dt.memwrite dt.amo)
include hsignals

theorem amoSize_of_signals : accessSize dt.memctl = 4 ∨ accessSize dt.memctl = 8 := by
  obtain ⟨hspecial, -, -, -, -, hsfence, hcache, -⟩ := hsignals
  revert hspecial hsfence hcache
  cases dt.memctl <;> decide

theorem amoBytes_length (endian : Endian) (bytes : List Byte) :
    (amoBytes endian dt bytes).length = accessSize dt.memctl := by
  unfold amoBytes
  rcases amoSize_of_signals hsignals with hsize | hsize
  · rw [hsize]
    exact bytesOfValue_length _ _ _
  · rw [hsize]
    exact bytesOfValue_length _ _ _

end

/-- An access of the memory stage passes the permission check, or raises a page fault of the kind
the stage gave it. -/
theorem performAccess_ends (hsignals : k.Signals dt.memctl dt.memread dt.memwrite dt.amo)
    (hreserved : k = .storeConditional → HoldsReservation cfg dt core)
    (hpage : OnPage core.mem (memAddress cfg dt core) (accessSize dt.memctl) flags) :
    Ends (granted core.mem (memAddress cfg dt core).mode flags)
      (memAddress cfg dt core).mode.opkind (performAccess cfg dt core).1 := by
  obtain ⟨hsize, hscript⟩ := accessScript_performs hsignals hreserved
  rw [performAccess_eq]
  show Ends _ _ ((accessScript cfg dt core).run (memAddress cfg dt core) core.mem).1
  generalize accessScript cfg dt core = script at hscript ⊢
  cases k with
  | load | loadReserved =>
    obtain ⟨value, rfl⟩ := hscript
    exact run_read_ends hpage hsize fun _ _ hgranted => hgranted
  | store | storeConditional =>
    obtain ⟨value, rfl⟩ := hscript
    exact run_write_ends hpage hsize (bytesOfValue_length _ _ _) value
  | amo =>
    obtain ⟨value, rfl⟩ := hscript
    -- The write goes to the page that was just read, which still has its permissions.
    refine run_read_ends hpage hsize fun bytes hpage' _ => run_write_ends hpage' hsize ?_ _
    exact amoBytes_length hsignals _ _

/-- The memory stage raises the page fault of a refused access. -/
theorem memoryAccess_excause_eq (hexcause : dt.excause = .none)
    (hsignals : k.Signals dt.memctl dt.memread dt.memwrite dt.amo)
    (hreserved : k = .storeConditional → HoldsReservation cfg dt core)
    (hpage : OnPage core.mem (memAddress cfg dt core) (accessSize dt.memctl) flags) :
    (memoryAccess cfg dt core).1.excause =
      if granted core.mem (memAddress cfg dt core).mode flags = true then .none
      else getCurrentCause (memAddress cfg dt core).mode.opkind := by
  have hends := @performAccess_ends vm P _ _ flags core cfg dt k hsignals hreserved hpage
  rw [memoryAccess, if_neg (not_not.mpr hexcause)]
  generalize performAccess cfg dt core = r at hends
  obtain ⟨result, core'⟩ := r
  cases result with
  | ok value =>
    have hgranted : granted core.mem (memAddress cfg dt core).mode flags = true := hends
    rw [if_pos hgranted]
  | error fault =>
    rw [if_neg (by rw [hends.1]; decide), ← hends.2]
    rfl

end Stage

/-- The kind of access the memory stage performs: it takes a load-reserved for a write. -/
def MemInstruction.stageOp : MemInstruction → AccessOp
  | .load => .read
  | .loadReserved | .store | .storeConditional | .amo => .write

/-- The stage register holds the memory signals of an instruction. -/
structure Carries (dt : ExecuteInterstage) (inst : Instruction) : Prop where
  memctl : dt.memctl = inst.memCtl
  memread : dt.memread = inst.flags.has .memread
  memwrite : dt.memwrite = inst.flags.has .memwrite
  amo : dt.amo = inst.flags.has .amo

/-- A decoded instruction keeps its signals, whatever its operands. -/
theorem carries_execute (cfg : CoreConfig) (dt : FetchInterstage) (privilege : PrivilegeLevel)
    (valRs valRt csrReadVal : RegisterValue) :
    Carries (execute (decodeInterstage cfg dt privilege valRs valRt csrReadVal)) dt.inst :=
  ⟨rfl, rfl, rfl, rfl⟩

theorem memAddress_opkind {M : Type} {cfg : CoreConfig} {dt : ExecuteInterstage} {core : Core M}
    {k : MemInstruction} (hsignals : k.Signals dt.memctl dt.memread dt.memwrite dt.amo) :
    (memAddress cfg dt core).mode.opkind = k.stageOp := by
  cases k with
  | load =>
    obtain ⟨-, -, hwrite, hamo⟩ := hsignals
    simp [memAddress, makeAccessMode, hwrite, hamo, MemInstruction.stageOp]
  | loadReserved =>
    obtain ⟨-, -, hamo⟩ := hsignals
    simp [memAddress, makeAccessMode, hamo, MemInstruction.stageOp]
  | store =>
    obtain ⟨-, -, hwrite, -⟩ := hsignals
    simp [memAddress, makeAccessMode, hwrite, MemInstruction.stageOp]
  | storeConditional =>
    obtain ⟨-, hwrite⟩ := hsignals
    simp [memAddress, makeAccessMode, hwrite, MemInstruction.stageOp]
  | amo =>
    obtain ⟨-, -, -, -, -, -, -, -, hwrite⟩ := hsignals
    simp [memAddress, makeAccessMode, hwrite, MemInstruction.stageOp]

/-- For data accesses the permission check is the one of the architecture. -/
theorem checkPermissions_data (pte : PteFlags) (sstatus : BitVec 64) (priv : PrivilegeLevel)
    (k : MemInstruction) :
    checkPermissions pte sstatus priv k.stageOp = true ↔ Permits pte sstatus priv k.stageOp := by
  rw [checkPermissions_iff, or_iff_left]
  rintro ⟨-, hfetch, -⟩
  cases k <;> cases hfetch

/-- The instruction succeeds exactly when the page permits its kind of access, and otherwise raises
the page fault of that kind. -/
def AccessRight (k : MemInstruction) (flags : PteFlags) (sstatus : BitVec 64)
    (priv : PrivilegeLevel) (excause : ExceptionCause) : Prop :=
  (Permits flags sstatus priv k.op → excause = .none) ∧
  (¬Permits flags sstatus priv k.op → excause = getCurrentCause k.op)

/-- Every memory instruction is treated right, but a load-reserved only where the page permits
reading and writing. -/
theorem access_kind_iff {vm : VmSetup} {P : Type} [PhysicalMemory P] [FlatPhysical P]
    (cfg : CoreConfig) (core : Core (VirtualMemory vm P)) (dt : ExecuteInterstage)
    (inst : Instruction) (k : MemInstruction) (flags : PteFlags) (hcarries : Carries dt inst)
    (hexcause : dt.excause = .none) (hsupported : inst.flags.has .supported = true)
    (hk : inst.memInstruction = some k)
    (hreserved : k = .storeConditional → HoldsReservation cfg dt core)
    (hpage : OnPage core.mem (memAddress cfg dt core) (accessSize dt.memctl) flags) :
    AccessRight k flags core.mem.tlbData.currentSstatusRaw core.currentPrivilege
        (memoryAccess cfg dt core).1.excause ↔
      (k = .loadReserved →
        Permits flags core.mem.tlbData.currentSstatusRaw core.currentPrivilege .read ∧
        Permits flags core.mem.tlbData.currentSstatusRaw core.currentPrivilege .write) := by
  have hsignals := Instruction.memInstruction_signals hsupported hk
  rw [← hcarries.memctl, ← hcarries.memread, ← hcarries.memwrite, ← hcarries.amo] at hsignals
  have hstage := @memoryAccess_excause_eq vm P _ _ flags core cfg dt k hexcause hsignals hreserved
    hpage
  have hop := @memAddress_opkind _ cfg dt core k hsignals
  have hgranted : granted core.mem (memAddress cfg dt core).mode flags = true ↔
      Permits flags core.mem.tlbData.currentSstatusRaw core.currentPrivilege k.stageOp := by
    rw [granted, hop]
    exact checkPermissions_data _ _ _ k
  rw [hop] at hstage
  rw [AccessRight, hstage]
  by_cases hlr : k = .loadReserved
  · subst hlr
    by_cases hwrite : Permits flags core.mem.tlbData.currentSstatusRaw core.currentPrivilege .write
    · rw [if_pos (hgranted.mpr hwrite)]
      constructor
      · intro hright _
        refine ⟨?_, hwrite⟩
        by_contra hread
        exact absurd (hright.2 hread) (by decide)
      · intro hpermits
        exact ⟨fun _ => rfl, fun hread => absurd (hpermits rfl).1 hread⟩
    · -- The fault raised is the one of a store.
      rw [if_neg (mt hgranted.mp hwrite)]
      constructor
      · intro hright _
        by_cases hread : Permits flags core.mem.tlbData.currentSstatusRaw core.currentPrivilege
            .read
        · exact absurd (hright.1 hread) (by decide)
        · exact absurd (hright.2 hread) (by decide)
      · intro hpermits
        exact absurd (hpermits rfl).2 hwrite
  · have hsame : k.op = k.stageOp := by
      cases k with
      | loadReserved => exact absurd rfl hlr
      | load | store | storeConditional | amo => rfl
    rw [hsame]
    refine iff_of_true ⟨fun hpermits => ?_, fun hrefused => ?_⟩ fun h => absurd h hlr
    · rw [if_pos (hgranted.mpr hpermits)]
    · rw [if_neg (mt hgranted.mp hrefused)]

def smallVm : VmSetup :=
  ⟨._64, true, smallTlb.config, smallTlb.config⟩

/-- A core in user mode whose memory maps a gigabyte from address 0 on to the user. -/
def userCore (permissions : Byte) : Core (VirtualMemory smallVm FlatMemory) :=
  { Core.reset (.rv64 .none) (.default false) ⟨emptyTlb, emptyTlb, userGigapage permissions⟩ with
    currentPrivilege := .unprivileged }

/-- The stage register of an instruction of user mode that accesses address 0x1234. -/
def accessing (inst : Instruction) : ExecuteInterstage :=
  execute
    (decodeInterstage (.rv64 .none) { inst := inst, isValid := true } .unprivileged 0x1234 5 0)

def readOnly : PteFlags := Pte.flags 0xd3

theorem userCore_onPage {dt : ExecuteInterstage}
    (haddress : (memAddress (.rv64 .none) dt (userCore 0x2)).address = 0x1234)
    (hsize : accessSize dt.memctl ≤ 8) :
    OnPage (userCore 0x2).mem (memAddress (.rv64 .none) dt (userCore 0x2)) (accessSize dt.memctl)
      readOnly := by
  have hfits : (0x1234#64 &&& lowMask 64 pageShift).toNat + 8 ≤ pageBytes := by decide
  refine ⟨rfl, ?_, ?_⟩
  · rw [haddress]
    exact Nat.le_trans (Nat.add_le_add_left hsize _) hfits
  · rw [haddress]
    refine ⟨2, 0x1000, userGigapage_leadsTo 0x2 (by decide +kernel) (by decide +kernel), ?_, ?_⟩
    · unfold PagingMode.Aligned
      decide +kernel
    · exact ⟨by decide +kernel, by decide +kernel, by decide +kernel, by decide +kernel⟩

/-- `sw x5, 0(x2)` to a page that may only be read. -/
theorem access_kind_store :
    AccessRight .store readOnly 0 .unprivileged
      (memoryAccess (.rv64 .none) (accessing 0x00512023) (userCore 0x2)).1.excause :=
  (access_kind_iff (.rv64 .none) (userCore 0x2) (accessing 0x00512023) 0x00512023 .store readOnly
    (carries_execute ..) (by decide +kernel) (by decide +kernel) (by decide +kernel)
    (fun h => absurd h (by decide))
    (userCore_onPage (by decide +kernel) (by decide +kernel))).mpr fun h => absurd h (by decide)

/-- `lr.w x5, (x2)` from a page that may be read raises a store page fault. -/
theorem load_reserved_needs_write_permission :
    Instruction.memInstruction 0x100122af = some .loadReserved ∧
    Permits readOnly 0 .unprivileged .read ∧
    (memoryAccess (.rv64 .none) (accessing 0x100122af) (userCore 0x2)).1.excause =
      .storePageFault := by
  refine ⟨by decide, ⟨.inl (by decide), fun _ => by decide, ?_⟩, by decide +kernel⟩
  intro h
  cases h

end QtRvSim
