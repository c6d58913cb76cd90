import QtRvSim.Core.MemoryCalls
import QtRvSim.Core.ControlEffect
import QtRvSim.Refinement.PageMarks

/-!
# What a fetch changes

The fetch stage reads memory through the program TLB.  It asks physical memory for reads and, to
mark the page as accessed, for one update of a page-table entry; it counts a cycle, and it leaves
the registers and the other CSRs alone.
-/

namespace QtRvSim

open ByteMemory BitFields

section Physical

variable {P : Type} [PhysicalMemory P] {mode : PagingMode} {T : Address → Prop}

/-- A read of physical memory, or an update that sets the accessed bit of an entry in `T`. -/
inductive AccessedStep (mode : PagingMode) (T : Address → Prop) : P → P → Prop where
  | read (port : MemPort) (a : Address) (n : Nat) (m : P) :
      AccessedStep mode T m (PhysicalMemory.read port a n m).2
  | mark (port : MemPort) {a : Address} (ha : T a) (m : P) :
      AccessedStep mode T m
        (PhysicalMemory.write port a
          (bytesOfValue .little mode.rawBytes ((mode.readPte port a m).1.withAd .read).toNat)
          (mode.readPte port a m).2)

/-- Physical memory is read, and accessed bits of the entries in `T` are set. -/
def AccessedOnly (mode : PagingMode) (T : Address → Prop) : P → P → Prop :=
  Relation.ReflTransGen (AccessedStep mode T)

namespace AccessedOnly

theorem read (port : MemPort) (a : Address) (n : Nat) (m : P) :
    AccessedOnly mode T m (PhysicalMemory.read port a n m).2 :=
  .single (.read port a n m)

/-- The levels of a walk read entries. -/
theorem walkLevels (walked : PagingMode) (port : MemPort) (va rawSstatus : BitVec 64)
    (access : AccessMode) (lvl : Nat) (ppn : BitVec 64) (m : P) :
    AccessedOnly mode T m (walked.walkLevels port va rawSstatus access lvl ppn m).2 := by
  induction lvl generalizing ppn m with
  | zero => exact .refl
  | succ lvl ih =>
    have hread : AccessedOnly mode T m
        (walked.readPte port (walked.pteAddr va lvl ppn) m).2 := read port _ _ m
    rw [PagingMode.walkLevels]
    dsimp only
    split
    · exact hread
    · exact hread
    · exact hread.trans (ih _ _)

theorem walk (walked : PagingMode) (port : MemPort) (va rawSatp rawSstatus : BitVec 64)
    (access : AccessMode) (m : P) :
    AccessedOnly mode T m (walked.walk port va rawSatp rawSstatus access m).2 := by
  rw [PagingMode.walk]
  split
  · exact .refl
  · exact walkLevels ..

/-- In flat memory only the accessed bits of the entries change. -/
theorem bytes [FlatPhysical P] {m m' : P} (h : AccessedOnly mode T m m') (x : Address) :
    FlatPhysical.bytes m' x = FlatPhysical.bytes m x ∨
      T x ∧ FlatPhysical.bytes m' x = FlatPhysical.bytes m x ||| adMask .read := by
  induction h with
  | refl => exact .inl rfl
  | @tail m₁ m₂ _ hstep ih =>
    cases hstep with
    | read port a n => rwa [FlatPhysical.read_snd]
    | @mark port a ha =>
      have hpte : (mode.readPte port a m₁).1 = mode.pteAt (FlatPhysical.bytes m₁) a := by
        show BitVec.ofNat 64 (valueOfBytes .little
          (PhysicalMemory.read port a mode.rawBytes m₁).1) = _
        rw [FlatPhysical.read_fst]
        rfl
      have hbytes : FlatPhysical.bytes (mode.readPte port a m₁).2 = FlatPhysical.bytes m₁ :=
        FlatPhysical.read_snd port a mode.rawBytes m₁
      rw [FlatPhysical.write, hbytes, hpte, mode.write_withAd]
      by_cases hx : x = a
      · subst hx
        rw [adMark, Function.update_self]
        rcases ih with hsame | ⟨-, hmarked⟩
        · exact .inr ⟨ha, by rw [hsame]⟩
        · exact .inr ⟨ha, by rw [hmarked, BitVec.or_assoc, BitVec.or_self]⟩
      · rw [adMark, Function.update_of_ne hx]
        exact ih

end AccessedOnly

end Physical

namespace Tlb

/-- The page-table entry at the address is the one behind an entry of the TLB. -/
def LeafAt (t : Tlb) (a : Address) : Prop :=
  ∃ set way, (t.table set way).valid = true ∧ (t.table set way).pteAddr = a

/-- The entries of the TLB stand for page-table entries of one size. -/
def Sized (t : Tlb) (n : Nat) : Prop :=
  ∀ set way, (t.table set way).valid = true → (t.table set way).pteBytes = n

variable {t : Tlb} {n : Nat}

theorem Sized.invalidate (h : t.Sized n) (p : Nat → TlbEntry → Bool) :
    (t.invalidate p).Sized n := by
  intro set way hvalid
  simp only [Tlb.invalidate] at hvalid ⊢
  split at hvalid
  · cases hvalid
  · rw [if_neg ‹_›]
    exact h set way hvalid

theorem Sized.setEntry (h : t.Sized n) (set way : Nat) {e : TlbEntry} (he : e.pteBytes = n) :
    (t.setEntry set way e).Sized n := by
  intro set' way' hvalid
  simp only [Tlb.setEntry] at hvalid ⊢
  split at hvalid
  · rw [if_pos ‹_›]
    exact he
  · rw [if_neg ‹_›]
    exact h set' way' hvalid

end Tlb

namespace TlbSetup

variable {P : Type} [PhysicalMemory P] {su : TlbSetup} {t : Tlb}

/-- What a translation leaves: reads of physical memory, and the entry it was found in. -/
structure Translated (su : TlbSetup) (vaddr : AddressWithMode) (m : P)
    (out : Except PageFault TranslationResult × Tlb × P) : Prop where
  reads : ∀ T, AccessedOnly su.paging T m out.2.2
  sized : out.2.1.Sized su.paging.rawBytes
  valid : ∀ {tr place}, out.1 = .ok tr → tr.entry = some place →
    (out.2.1.table place.1 place.2).valid = true
  page : ∀ {tr}, out.1 = .ok tr →
    pageBytes - (vaddr.address &&& lowMask 64 pageShift).toNat ≤ tr.bytesUntilPageEnd

theorem translated (hsized : t.Sized su.paging.rawBytes) (vaddr : AddressWithMode) (m : P) :
    su.Translated vaddr m (su.translateVirtualToPhysical vaddr t m) := by
  rw [translateVirtualToPhysical]
  dsimp only
  split
  next =>
    refine ⟨fun _ => .refl, hsized, fun htr hentry => ?_, fun htr => ?_⟩
    · cases htr
      cases hentry
    · cases htr
      have hpage : pageBytes ≤ 2 ^ 64 - 1 := by decide
      exact (Nat.sub_le _ _).trans hpage
  next =>
    split
    next w hhit =>
      split
      next => exact ⟨fun _ => .refl, hsized, fun htr => (by cases htr), fun htr => (by cases htr)⟩
      next =>
        refine ⟨fun _ => .refl, hsized, fun htr hentry => ?_, fun htr => ?_⟩
        · cases htr
          cases hentry
          exact (hitWay_some hhit).1
        · cases htr
          exact le_rfl
    next =>
      have hwalk (T : Address → Prop) : AccessedOnly su.paging T m (su.xlen.pagingMode.walk
          su.ptWalkMem vaddr.address t.currentSatpRaw t.currentSstatusRaw vaddr.mode m).2 :=
        .walk ..
      split
      next hfault =>
        rw [hfault] at hwalk
        exact ⟨hwalk, hsized, fun htr => (by cases htr), fun htr => (by cases htr)⟩
      next hres =>
        rw [hres] at hwalk
        refine ⟨hwalk, Tlb.Sized.setEntry hsized _ _ rfl, fun htr hentry => ?_, fun htr => ?_⟩
        · cases htr
          cases hentry
          simp [cacheMapping, Tlb.setEntry]
        · cases htr
          exact le_rfl

/-- The update of an entry is one of its accessed bit. -/
theorem ensureAdBits_accessed {place : Nat × Nat} (hsized : t.Sized su.paging.rawBytes)
    (hvalid : (t.table place.1 place.2).valid = true) (m : P) :
    AccessedOnly su.paging (su.ensureAdBits place .read t m).1.LeafAt m
        (su.ensureAdBits place .read t m).2 ∧
      (su.ensureAdBits place .read t m).1.Sized su.paging.rawBytes := by
  have hsize := hsized place.1 place.2 hvalid
  have hleaf : (su.ensureAdBits place .read t m).1.LeafAt (t.table place.1 place.2).pteAddr := by
    refine ⟨place.1, place.2, ?_, ?_⟩ <;> simp [ensureAdBits, Tlb.setEntry, hvalid]
  refine ⟨?_, hsized.setEntry _ _ hsize⟩
  show AccessedOnly su.paging _ m (if _ then _ else _)
  split
  next =>
    rw [hsize]
    exact .single (.mark su.ptWalkMem hleaf m)
  next => exact .read _ _ _ m

/-- What a step of a read leaves in front of the access itself: the page is marked as accessed. -/
structure Marked (su : TlbSetup) (vaddr : AddressWithMode) (m : P)
    (out : Except PageFault TranslationResult × Tlb × P) : Prop where
  accessed : AccessedOnly su.paging out.2.1.LeafAt m out.2.2
  sized : out.2.1.Sized su.paging.rawBytes
  page : ∀ {tr}, out.1 = .ok tr →
    pageBytes - (vaddr.address &&& lowMask 64 pageShift).toNat ≤ tr.bytesUntilPageEnd

theorem marked (hsized : t.Sized su.paging.rawBytes) (vaddr : AddressWithMode) (m : P) :
    su.Marked vaddr m (su.translateAndMark vaddr .read t m) := by
  have htranslated := translated hsized vaddr m
  rw [translateAndMark]
  split
  next htranslate =>
    rw [htranslate] at htranslated
    exact ⟨htranslated.reads _, htranslated.sized, fun htr => (by cases htr)⟩
  next tr t' m' htranslate =>
    rw [htranslate] at htranslated
    split
    next => exact ⟨htranslated.reads _, htranslated.sized, fun htr => htranslated.page htr⟩
    next place hentry =>
      obtain ⟨hmark, hsized'⟩ :=
        ensureAdBits_accessed htranslated.sized (htranslated.valid rfl hentry) m'
      exact ⟨(htranslated.reads _).trans hmark, hsized', fun htr => htranslated.page htr⟩

variable (su) in
/-- Reads of any size keep the size of the entries. -/
theorem translateAndReadLoop_sized (mode : AccessMode) (fuel : Nat) (virt : BitVec 64)
    (remaining : Nat) (t : Tlb) (m : P) (hsized : t.Sized su.paging.rawBytes) :
    (su.translateAndReadLoop mode fuel virt remaining t m).2.1.Sized su.paging.rawBytes := by
  refine su.translateAndReadLoop_inv (fun t _ => t.Sized su.paging.rawBytes) ?_ ?_ _ _ _ hsized
  · exact fun virt t m hsized => (marked hsized ⟨virt, mode⟩ m).sized
  · exact fun _ _ _ _ hsized => hsized

variable (su) in
/-- A read within a page reads physical memory and marks the page as accessed. -/
theorem translateAndRead_accessed (hsized : t.Sized su.paging.rawBytes) (src : AddressWithMode)
    {size : Nat} (hpage : (src.address &&& lowMask 64 pageShift).toNat + size ≤ pageBytes) (m : P) :
    AccessedOnly su.paging (su.translateAndRead src size t m).2.1.LeafAt m
      (su.translateAndRead src size t m).2.2 := by
  rw [translateAndRead]
  cases size with
  | zero => exact .refl
  | succ n =>
    have hmarked := marked hsized src m
    rw [translateAndReadLoop, if_neg (Nat.succ_ne_zero n)]
    split
    next hmark =>
      rw [show su.translateAndMark src .read t m = _ from hmark] at hmarked
      exact hmarked.accessed
    next tr t' m' hmark =>
      rw [show su.translateAndMark src .read t m = _ from hmark] at hmarked
      have hall : min (n + 1) tr.bytesUntilPageEnd = n + 1 :=
        Nat.min_eq_left ((Nat.le_sub_of_add_le' hpage).trans (hmarked.page rfl))
      dsimp only
      rw [hall, Nat.sub_self, translateAndReadLoop_zero]
      exact hmarked.accessed.trans (AccessedOnly.read _ _ _ _)

variable (su) in
theorem sfenceVma_sized (hsized : t.Sized su.paging.rawBytes) (vaddr asid : BitVec 64) :
    (su.sfenceVma t vaddr asid).Sized su.paging.rawBytes := by
  rw [sfenceVma]
  split_ifs <;> exact hsized.invalidate _

variable (su) in
theorem onCsrWrite_sized (hsized : t.Sized su.paging.rawBytes) (signal : Csr.Signal) :
    (su.onCsrWrite t signal).Sized su.paging.rawBytes := by
  rw [onCsrWrite]
  split_ifs
  · exact hsized
  · exact hsized
  · exact Tlb.Sized.invalidate (t := { t with currentSatpRaw := signal.2 }) hsized _
  · exact hsized

end TlbSetup

variable {vm : VmSetup} {P : Type} [PhysicalMemory P]

/-- The operations of the core keep the size of the entries in the program TLB. -/
theorem VirtualMemory.sized_stable (vm : VmSetup) :
    StableMem fun s : VirtualMemory vm P => s.tlbProgram.Sized vm.xlen.pagingMode.rawBytes where
  read port address size s h := by
    cases port with
    | program => exact vm.program.translateAndReadLoop_sized _ _ _ _ _ _ h
    | data => exact h
  write address bytes s h := h
  sync port s h := h
  sfenceVma port vaddr asid s h := by
    cases port with
    | program => exact vm.program.sfenceVma_sized h vaddr asid
    | data => exact h
  onCsrWrite signal s h := vm.program.onCsrWrite_sized h signal

/-- What a fetch may change: the cycle counters and accessed bits of page-table entries. -/
structure FetchEffect (c c' : Core (VirtualMemory vm P)) : Prop where
  regs : c'.regs = c.regs
  csr : c'.controlState.AgreeOffCycle c.controlState
  privilege : c'.currentPrivilege = c.currentPrivilege
  reservation : c'.loadReservedRange = c.loadReservedRange
  memory : AccessedOnly vm.xlen.pagingMode c'.mem.tlbProgram.LeafAt c.mem.mem c'.mem.mem

/-- The cycle counter is of no interest to the TLBs. -/
theorem countCycle_mem (cfg : CoreConfig) (c : Core (VirtualMemory vm P)) :
    (c.countCycle cfg).mem = c.mem := by
  rfl

/-- An aligned word lies in one page. -/
theorem word_in_page {a : Address} (haligned : a.toNat % 4 = 0) :
    (a &&& lowMask 64 pageShift).toNat + 4 ≤ pageBytes := by
  have hoffset : (a &&& lowMask 64 pageShift).toNat = a.toNat % 2 ^ 12 := TlbSetup.offset_toNat a
  rw [hoffset]
  have hpage : pageBytes = 2 ^ 12 := rfl
  omega

theorem fetchEffect (cfg : CoreConfig) (pc : PCInterstage) (skipBreak : Bool)
    {c : Core (VirtualMemory vm P)}
    (hsized : c.mem.tlbProgram.Sized vm.xlen.pagingMode.rawBytes) :
    FetchEffect c (Core.fetch cfg pc skipBreak c).2 := by
  by_cases hstop : pc.stopIf = true
  · rw [Core.fetch_stopped cfg hstop]
    exact ⟨rfl, fun _ _ _ => rfl, rfl, rfl, .refl⟩
  · obtain ⟨hcontrol, hprivilege⟩ := Core.fetch_control cfg pc skipBreak c
    rw [if_neg hstop] at hcontrol
    refine ⟨Core.fetch_regs .., ?_, hprivilege, ?_, ?_⟩
    · rw [hcontrol]
      exact .increment_mcycle cfg.xlen 1 c.controlState
    · rw [Core.fetch, if_neg hstop]
      rfl
    · have hmem : (Core.fetch cfg pc skipBreak c).2.mem = (FrontendMemory.read .program
          ⟨c.regs.pc, c.makeAccessMode .fetch⟩ 4 c.mem).2 := by
        rw [Core.fetch, if_neg hstop]
        dsimp only
        rw [countCycle_mem]
        dsimp only [FrontendMemory.readGeneric]
        split <;> simp_all
      have hread := vm.program.translateAndRead_accessed hsized
        ⟨c.regs.pc, c.makeAccessMode .fetch⟩ (word_in_page c.regs.pcAligned) c.mem.mem
      rw [hmem]
      exact hread

end QtRvSim
