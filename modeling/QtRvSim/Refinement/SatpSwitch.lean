import QtRvSim.Core.MemoryCalls
import QtRvSim.Core.Reset
import QtRvSim.Refinement.TlbTransparency

/-!
# Switches of the address space

The core never tells its access modes the ASID of `satp`: every access carries ASID 0, so an entry
of a TLB hits under every address space.  A write of `satp` that leaves translation on is followed
by translations with the new root if no entry disagrees with the page table there.
-/

namespace QtRvSim

open ByteMemory FlatPhysical FrontendMemory MemCall VirtualMemory

/-- A translation about to be made: the TLB, the address and the memory in front of it. -/
structure Translation (P : Type) where
  setup : TlbSetup
  vaddr : AddressWithMode
  tlb : Tlb
  mem : P

/-- A user or supervisor address is translated as by a fresh walk from the root of `satp`. -/
def Translation.Follows {P : Type} [PhysicalMemory P] (satp : BitVec 64) (x : Translation P) :
    Prop :=
  x.vaddr.mode.priv ≠ .machine →
    SameTranslation (x.setup.translateVirtualToPhysical x.vaddr x.tlb x.mem).1
      (x.setup.freshTranslation satp x.tlb.currentSstatusRaw x.vaddr x.mem)

/-- The same translation gives the same physical address. -/
theorem SameTranslation.toOption {r : Except PageFault TranslationResult}
    {fresh : Except PageFault Address} (h : SameTranslation r fresh) :
    r.toOption.map (·.phys) = fresh.toOption := by
  cases r with
  | ok tr =>
    cases fresh with
    | ok pa => exact congrArg some h
    | error fault => exact absurd h id
  | error fault =>
    cases fresh with
    | ok pa => exact absurd h id
    | error fault' => rfl

namespace TlbSetup

variable {P : Type} [PhysicalMemory P] (su : TlbSetup)

/-- The translations of a read, page by page as in `translateAndReadLoop`. -/
def readTranslations (mode : AccessMode) : Nat → BitVec 64 → Nat → Tlb → P → List (Translation P)
  | 0, _, _, _, _ => []
  | fuel + 1, curVirt, remaining, t, m =>
    if remaining = 0 then []
    else
      ⟨su, ⟨curVirt, mode⟩, t, m⟩ ::
        match su.translateAndMark ⟨curVirt, mode⟩ .read t m with
        | (.error _, _, _) => []
        | (.ok tr, t, m) =>
          let bytesToRead := min remaining tr.bytesUntilPageEnd
          readTranslations mode fuel (curVirt + BitVec.ofNat 64 bytesToRead)
            (remaining - bytesToRead) t (PhysicalMemory.read su.mem tr.phys bytesToRead m).2

/-- The translations of a write, page by page as in `translateAndWriteLoop`. -/
def writeTranslations (mode : AccessMode) :
    Nat → BitVec 64 → List Byte → Tlb → P → List (Translation P)
  | 0, _, _, _, _ => []
  | fuel + 1, curVirt, src, t, m =>
    if src.length = 0 then []
    else
      ⟨su, ⟨curVirt, mode⟩, t, m⟩ ::
        match su.translateAndMark ⟨curVirt, mode⟩ .write t m with
        | (.error _, _, _) => []
        | (.ok tr, t, m) =>
          let bytesToWrite := min src.length tr.bytesUntilPageEnd
          writeTranslations mode fuel (curVirt + BitVec.ofNat 64 bytesToWrite)
            (src.drop bytesToWrite) t
            (PhysicalMemory.write su.mem tr.phys (src.take bytesToWrite) m)

variable [FlatPhysical P]

/-- The TLB agrees with the page table that `satp` selects, as it was in `b₀`. -/
structure Follows (satp : BitVec 64) (b₀ : Address → Byte) (t : Tlb) (m : P) : Prop
    extends su.Running (su.paging.rootOf satp) b₀ t m where
  satp_eq : t.currentSatpRaw = satp

namespace Follows

variable {su} {satp : BitVec 64} {b₀ : Address → Byte} {t : Tlb} {m : P}

theorem translation (h : su.Follows satp b₀ t m) (vaddr : AddressWithMode) :
    Translation.Follows satp ⟨su, vaddr, t, m⟩ := by
  intro hpriv
  have htranslation := h.sound.translation h.root_eq h.tables hpriv
  rwa [h.satp_eq] at htranslation

theorem of_tables (h : su.Follows satp b₀ t m) {m' : P}
    (htables : su.paging.SameTables (su.paging.rootOf satp) b₀ (bytes m')) :
    su.Follows satp b₀ t m' :=
  ⟨⟨h.sound, h.root_eq, htables⟩, h.satp_eq⟩

theorem of_bytes (h : su.Follows satp b₀ t m) {m' : P} (hbytes : bytes m' = bytes m) :
    su.Follows satp b₀ t m' :=
  h.of_tables (hbytes ▸ h.tables)

theorem translateAndMark (h : su.Follows satp b₀ t m) (vaddr : AddressWithMode) (op : AccessOp) :
    su.Follows satp b₀ (su.translateAndMark vaddr op t m).2.1
      (su.translateAndMark vaddr op t m).2.2 := by
  refine ⟨h.toRunning.translateAndMark vaddr op, ?_⟩
  have hregisters := @registers_translateAndMark P _ su vaddr op t m
  exact (Prod.mk.inj hregisters).1.trans h.satp_eq

/-- All translations of a read follow, and so does the TLB after it. -/
theorem readLoop (h : su.Follows satp b₀ t m) (mode : AccessMode) {fuel : Nat} {virt : BitVec 64}
    {remaining : Nat} :
    (∀ x ∈ su.readTranslations mode fuel virt remaining t m, x.Follows satp) ∧
      su.Follows satp b₀ (su.translateAndReadLoop mode fuel virt remaining t m).2.1
        (su.translateAndReadLoop mode fuel virt remaining t m).2.2 := by
  refine ⟨?_, su.translateAndReadLoop_inv (su.Follows satp b₀)
    (fun virt _ _ h => h.translateAndMark ⟨virt, mode⟩ .read)
    (fun _ _ _ _ h => h.of_bytes (FlatPhysical.read_snd ..)) fuel virt remaining h⟩
  fun_induction su.readTranslations mode fuel virt remaining t m with
  | case1 | case2 => exact fun x hx => absurd hx List.not_mem_nil
  | case3 _ virt _ t m _ ih =>
    rw [List.forall_mem_cons]
    have hnext := h.translateAndMark ⟨virt, mode⟩ .read
    refine ⟨h.translation ⟨virt, mode⟩, ?_⟩
    split
    next => exact fun x hx => absurd hx List.not_mem_nil
    next hok =>
      rw [hok] at hnext
      exact ih _ _ _ (hnext.of_bytes (FlatPhysical.read_snd ..))

/-- All translations of a write follow, and so does the TLB after it, if the bytes written keep the
page table. -/
theorem writeLoop (hsound : su.Sound (su.paging.rootOf satp) b₀ t)
    (hsatp : t.currentSatpRaw = satp) (mode : AccessMode) {fuel : Nat} {virt : BitVec 64}
    {src : List Byte}
    (hpieces : ∀ x ∈ su.writeTranslations mode fuel virt src t m,
      su.paging.SameTables (su.paging.rootOf satp) b₀ (bytes x.mem))
    (hwritten : su.paging.SameTables (su.paging.rootOf satp) b₀
      (bytes (su.translateAndWriteLoop mode fuel virt src t m).2.2)) :
    (∀ x ∈ su.writeTranslations mode fuel virt src t m, x.Follows satp) ∧
      su.Follows satp b₀ (su.translateAndWriteLoop mode fuel virt src t m).2.1
        (su.translateAndWriteLoop mode fuel virt src t m).2.2 := by
  have hroot : su.paging.rootOf satp = su.paging.rootOf t.currentSatpRaw := by rw [hsatp]
  fun_induction su.translateAndWriteLoop mode fuel virt src t m with
  | case1 => exact ⟨fun x hx => absurd hx List.not_mem_nil, ⟨hsound, hroot, hwritten⟩, hsatp⟩
  | case2 _ _ _ _ _ hdone =>
    rw [writeTranslations, if_pos hdone]
    exact ⟨fun x hx => absurd hx List.not_mem_nil, ⟨hsound, hroot, hwritten⟩, hsatp⟩
  | case3 _ virt src t m hmore _ _ _ hmark =>
    rw [writeTranslations, if_neg hmore, hmark, List.forall_mem_cons] at hpieces ⊢
    have hstart : su.Follows satp b₀ t m := ⟨⟨hsound, hroot, hpieces.1⟩, hsatp⟩
    have hnext := hstart.translateAndMark ⟨virt, mode⟩ .write
    rw [hmark] at hnext
    exact ⟨⟨hstart.translation ⟨virt, mode⟩, fun x hx => absurd hx List.not_mem_nil⟩, hnext⟩
  | case4 _ virt src t m hmore _ _ _ hmark _ _ ih =>
    rw [writeTranslations, if_neg hmore, hmark, List.forall_mem_cons] at hpieces ⊢
    have hstart : su.Follows satp b₀ t m := ⟨⟨hsound, hroot, hpieces.1⟩, hsatp⟩
    have hnext := hstart.translateAndMark ⟨virt, mode⟩ .write
    rw [hmark] at hnext
    obtain ⟨hrest, hlast⟩ := ih hnext.sound hnext.satp_eq hpieces.2 hwritten hnext.root_eq
    exact ⟨⟨hstart.translation ⟨virt, mode⟩, hrest⟩, hlast⟩

/-- A write of `satp` is followed if no entry disagrees with the new page table. -/
theorem switch (hsound : su.Sound (su.paging.rootOf satp) (bytes m) t) :
    su.Follows satp (bytes m) (su.onCsrWrite t (.satp, satp)) m := by
  have hwrite : su.onCsrWrite t (.satp, satp) =
      if su.isModeEnabledInSatp t.currentSatpRaw ≠ su.isModeEnabledInSatp satp then
        { t with currentSatpRaw := satp }.flushAllEntries
      else { t with currentSatpRaw := satp } := rfl
  rw [hwrite]
  have hkept : su.Sound (su.paging.rootOf satp) (bytes m) { t with currentSatpRaw := satp } :=
    hsound.of_table rfl
  split
  · exact ⟨⟨hkept.invalidate _, rfl, PagingMode.sameTables_refl _ _⟩, rfl⟩
  · exact ⟨⟨hkept, rfl, PagingMode.sameTables_refl _ _⟩, rfl⟩

/-- Writes of other registers leave the page table selected. -/
theorem otherCsr (h : su.Follows satp b₀ t m) {signal : Csr.Signal} (hother : signal.1 ≠ .satp) :
    su.Follows satp b₀ (su.onCsrWrite t signal) m := by
  rw [onCsrWrite]
  by_cases hsstatus : signal.1 = .sstatus
  · rw [if_pos hsstatus]
    exact ⟨⟨h.sound.of_table rfl, h.root_eq, h.tables⟩, h.satp_eq⟩
  · rw [if_neg hsstatus, if_pos hother]
    exact h

theorem sfenceVma (h : su.Follows satp b₀ t m) (vaddr asid : BitVec 64) :
    su.Follows satp b₀ (su.sfenceVma t vaddr asid) m := by
  obtain ⟨p, hfence⟩ := @sfenceVma_cases su t vaddr asid
  rw [hfence]
  exact ⟨⟨h.sound.invalidate p, h.root_eq, h.tables⟩, h.satp_eq⟩

end Follows

end TlbSetup

/-! ### Calls of the core -/

namespace VirtualMemory

variable {vm : VmSetup} {P : Type} [PhysicalMemory P]

def translations (s : VirtualMemory vm P) : MemCall → List (Translation P)
  | .read port address size =>
    (setup vm port).readTranslations address.mode size address.address size (s.tlb port) s.mem
  | .write port address bytes =>
    (setup vm port).writeTranslations address.mode bytes.length address.address bytes (s.tlb port)
      s.mem
  | _ => []

variable [FlatPhysical P]

/-- A store or a synchronisation of the caches keeps the page table with root `root` as it was in
`b₀`, apart from accessed and dirty bits. -/
def KeepsTables (root : Nat) (b₀ : Address → Byte) (s : VirtualMemory vm P) (call : MemCall) :
    Prop :=
  match call with
  | .write .data .. | .sync .. =>
    (∀ x ∈ s.translations call, vm.xlen.pagingMode.SameTables root b₀ (bytes x.mem)) ∧
      vm.xlen.pagingMode.SameTables root b₀ (bytes (call.on s).mem)
  | _ => True

variable {s : VirtualMemory vm P}

theorem keepsTables_of_quiet {root : Nat} {b₀ : Address → Byte} {call : MemCall}
    (hquiet : call.quiet = true) : s.KeepsTables root b₀ call := by
  cases call with
  | read | csrWrite => trivial
  | write | sync | sfenceVma => cases hquiet

structure Follows (satp : BitVec 64) (b₀ : Address → Byte) (s : VirtualMemory vm P) : Prop where
  program : vm.program.Follows satp b₀ s.tlbProgram s.mem
  data : vm.data.Follows satp b₀ s.tlbData s.mem

/-- Every valid entry of both TLBs agrees with the page table that `satp` selects. -/
structure NoneStale (satp : BitVec 64) (s : VirtualMemory vm P) : Prop where
  program : vm.program.Sound (vm.program.paging.rootOf satp) (bytes s.mem) s.tlbProgram
  data : vm.data.Sound (vm.data.paging.rootOf satp) (bytes s.mem) s.tlbData

namespace Follows

variable {satp : BitVec 64} {b₀ : Address → Byte} {s : VirtualMemory vm P}

theorem tlb (h : s.Follows satp b₀) (port : MemPort) :
    (setup vm port).Follows satp b₀ (s.tlb port) s.mem := by
  cases port with
  | program => exact h.program
  | data => exact h.data

/-- An access through one port leaves the TLB of the other one. -/
theorem put (h : s.Follows satp b₀) {port : MemPort} {t : Tlb} {m : P}
    (hport : (setup vm port).Follows satp b₀ t m) : (s.put port t m).Follows satp b₀ := by
  cases port with
  | program => exact ⟨hport, h.data.of_tables hport.tables⟩
  | data => exact ⟨h.program.of_tables hport.tables, hport⟩

/-- A call that is no write of `satp` is translated by the page table it selects. -/
theorem call (h : s.Follows satp b₀) {call : MemCall} (hmade : call.Made)
    (hsatp : call.satpValue = none)
    (hkeeps : s.KeepsTables (vm.xlen.pagingMode.rootOf satp) b₀ call) :
    (∀ x ∈ s.translations call, x.Follows satp) ∧ (call.on s).Follows satp b₀ := by
  cases call with
  | read port address size =>
    obtain ⟨htranslations, hlast⟩ := (h.tlb port).readLoop address.mode
    exact ⟨htranslations, h.put hlast⟩
  | write port address bytes =>
    obtain rfl : port = .data := hmade
    obtain ⟨htranslations, hlast⟩ := TlbSetup.Follows.writeLoop h.data.sound h.data.satp_eq
      address.mode hkeeps.1 hkeeps.2
    exact ⟨htranslations, h.program.of_tables hlast.tables, hlast⟩
  | sync port =>
    exact ⟨fun x hx => absurd hx List.not_mem_nil,
      h.program.of_tables hkeeps.2, h.data.of_tables hkeeps.2⟩
  | sfenceVma port vaddr asid =>
    exact ⟨fun x hx => absurd hx List.not_mem_nil, h.put ((h.tlb port).sfenceVma vaddr asid)⟩
  | csrWrite signal =>
    have hother : signal.1 ≠ .satp := by
      obtain ⟨id, value⟩ := signal
      rintro rfl
      cases hsatp
    exact ⟨fun x hx => absurd hx List.not_mem_nil,
      h.program.otherCsr hother, h.data.otherCsr hother⟩

/-- After calls that keep the page table and do not write `satp`, it is still followed. -/
theorem after {later : List MemCall} (h : s.Follows satp b₀) (hmade : ∀ call ∈ later, call.Made)
    (hsatp : ∀ call ∈ later, call.satpValue = none)
    (hkeeps : ∀ done call rest, later = done ++ call :: rest →
      (after s done).KeepsTables (vm.xlen.pagingMode.rootOf satp) b₀ call) :
    (after s later).Follows satp b₀ := by
  induction later generalizing s with
  | nil => exact h
  | cons call later ih =>
    have hnext := (h.call (hmade call List.mem_cons_self) (hsatp call List.mem_cons_self)
      (hkeeps [] call later rfl)).2
    refine ih hnext (fun c hc => hmade c (List.mem_cons_of_mem _ hc))
      (fun c hc => hsatp c (List.mem_cons_of_mem _ hc)) ?_
    intro done c rest hsplit
    exact hkeeps (call :: done) c rest (by rw [hsplit, List.cons_append])

end Follows

/-- Empty TLBs have no stale entries. -/
theorem noneStale_of_empty {satp : BitVec 64}
    (h : ∀ port set way, ((s.tlb port).table set way).valid = false) : s.NoneStale satp := by
  have hempty (port : MemPort) (set way : Nat) : ¬((s.tlb port).table set way).valid = true := by
    rw [h port set way]
    exact Bool.false_ne_true
  constructor
  · exact ⟨fun set way hvalid => absurd hvalid (hempty .program set way),
      fun set way _ _ _ hvalid => absurd hvalid (hempty .program set way)⟩
  · exact ⟨fun set way hvalid => absurd hvalid (hempty .data set way),
      fun set way _ _ _ hvalid => absurd hvalid (hempty .data set way)⟩

/-- A write of `satp` is followed if no entry of a TLB is stale. -/
theorem NoneStale.switch {satp : BitVec 64} (h : s.NoneStale satp) :
    (on s (.csrWrite (.satp, satp))).Follows satp (bytes s.mem) :=
  ⟨TlbSetup.Follows.switch h.program, TlbSetup.Follows.switch h.data⟩

end VirtualMemory

def switchVm : VmSetup :=
  ⟨._32, true, ⟨1, 2, .lru, Nat.one_pos, Nat.two_pos⟩, ⟨1, 2, .lru, Nat.one_pos, Nat.two_pos⟩⟩

/-- Two page tables, at 0x1000 and 0x2000, that map the four megabytes from 0x400000 on to 0x400000
and to 0x800000, and a program that loads from 0x400000 in supervisor mode, first with the page
table at 0x1000 and ASID 1, then with the one at 0x2000 and ASID 2. -/
def switchMemory : FlatMemory :=
  ((FlatMemory.ofWords 0x200 [0x804002b7, 0x00128293, 0x80800437, 0x00240413, 0x00400337,
      0x18029073, 0x40000513, 0x00151513, 0x30051073, 0x23000593, 0x34159073, 0x30200073,
      0x00032383, 0x18041073, 0x00032483]).writeBytes 0x1000
    (bytesOfValue .little 8 0x001000cf000000cf)).writeBytes 0x2000
    (bytesOfValue .little 8 0x002000cf000000cf)

def switchCore : Core (VirtualMemory switchVm FlatMemory) :=
  .reset (.rv32 .none) (.default false)
    ⟨{ emptyTlb with currentSatpRaw := 0 }, { emptyTlb with currentSatpRaw := 0 }, switchMemory⟩

def switchCalls : List MemCall :=
  ((Hart.after (.rv32 .none) false 15
    (CoreSingle.start (switchCore.withMem (Recorded.start switchCore.mem)))).map
      (·.core.mem.calls)).getD []

theorem switchCalls_made : CoreSingle.Makes (.rv32 .none) switchCore switchCalls := by
  have hrun : (CoreSingle.callsAfter (.rv32 .none) switchCore 15).isSome = true := by
    decide +kernel
  exact CoreSingle.makes_callsAfter hrun

def switchLoad : MemCall :=
  .read .data ⟨0x400000, ⟨0, .supervisor, .read⟩⟩ 4

theorem switchCalls_first :
    switchCalls = switchCalls.take 24 ++ .csrWrite (.satp, 0x80400001) ::
      ((switchCalls.drop 25).take 39 ++ switchLoad :: switchCalls.drop 65) := by
  decide +kernel

theorem switchCalls_second :
    switchCalls = switchCalls.take 70 ++ .csrWrite (.satp, 0x80800002) ::
      ((switchCalls.drop 71).take 3 ++ switchLoad :: switchCalls.drop 75) := by
  decide +kernel

/-- No call of the program stores, synchronises or fences. -/
theorem switchCalls_quiet : ∀ call ∈ switchCalls, call.quiet = true := by
  decide +kernel

/-- Without translation a read leaves the TLB. -/
theorem TlbSetup.readLoop_off {P : Type} [PhysicalMemory P] {su : TlbSetup} {t : Tlb}
    {mode : AccessMode} (hoff : su.shouldTranslate t mode.priv = false) {fuel : Nat}
    {virt : BitVec 64} {remaining : Nat} {m : P} :
    (su.translateAndReadLoop mode fuel virt remaining t m).2.1 = t := by
  refine su.translateAndReadLoop_inv (fun t' _ => t' = t) ?_ (fun _ _ _ _ h => h) _ _ _ rfl
  rintro virt _ m rfl
  rw [translateAndMark, translate_off hoff]

/-- Both TLBs are empty and translation is off. -/
def SwitchedOff (s : VirtualMemory switchVm FlatMemory) : Prop :=
  ∀ port, (s.tlb port).table = emptyTlb.table ∧ (s.tlb port).currentSatpRaw = 0

theorem SwitchedOff.on {s : VirtualMemory switchVm FlatMemory} (h : SwitchedOff s)
    {call : MemCall} (hquiet : call.quiet = true) (hsatp : call.satpValue = none) :
    SwitchedOff (call.on s) := by
  cases call with
  | write | sync | sfenceVma => cases hquiet
  | read port address size =>
    have hoff : (setup switchVm port).shouldTranslate (s.tlb port)
        address.mode.priv = false := by
      rw [TlbSetup.shouldTranslate, (h port).2]
      cases port <;> rfl
    have hkept : ((setup switchVm port).translateAndRead address size (s.tlb port)
        s.mem).2.1 = s.tlb port :=
      TlbSetup.readLoop_off hoff
    intro port'
    have hsame : (MemCall.on s (.read port address size)).tlb port' = s.tlb port' := by
      cases port <;> cases port' <;> first | exact hkept | rfl
    rw [hsame]
    exact h port'
  | csrWrite signal =>
    have hother : signal.1 ≠ .satp := by
      obtain ⟨id, value⟩ := signal
      rintro rfl
      cases hsatp
    have hkept (su : TlbSetup) (t : Tlb) : (su.onCsrWrite t signal).table = t.table ∧
        (su.onCsrWrite t signal).currentSatpRaw = t.currentSatpRaw := by
      rw [TlbSetup.onCsrWrite]
      by_cases hsstatus : signal.1 = .sstatus
      · rw [if_pos hsstatus]
        exact ⟨rfl, rfl⟩
      · rw [if_neg hsstatus, if_pos hother]
        exact ⟨rfl, rfl⟩
    intro port
    cases port with
    | program =>
      exact ⟨(hkept _ _).1.trans (h .program).1, (hkept _ _).2.trans (h .program).2⟩
    | data => exact ⟨(hkept _ _).1.trans (h .data).1, (hkept _ _).2.trans (h .data).2⟩

theorem SwitchedOff.noneStale {s : VirtualMemory switchVm FlatMemory} (h : SwitchedOff s)
    {satp : BitVec 64} : s.NoneStale satp :=
  noneStale_of_empty fun port set way => by
    rw [(h port).1]
    rfl

end QtRvSim
