import QtRvSim.Memory.Tlb
import QtRvSim.Refinement.AccessKind
import QtRvSim.Refinement.InterruptResume

/-!
# The address a page fault reports

A page fault is reported with the address that the memory stage computes.  For a load or a store
that is the effective address of the access.  An instruction that could not be fetched has no such
address; its arithmetic is suppressed, so that address zero is reported instead of its own.
-/

namespace QtRvSim

open Csr ControlState Core FrontendMemory RegisterValue CoreSingle AccessScript

/-! ### Faults name their access -/

def FaultOf {α : Type} (op : AccessOp) : Except PageFault α → Prop
  | .ok _ => True
  | .error fault => fault.opkind = op

namespace PagingMode

variable {P : Type} [PhysicalMemory P] (mode : PagingMode)

theorem walkEntry_faultOf (va rawSstatus : BitVec 64) (access : AccessMode) (lvl : Nat)
    (pteAddr : Address) (pte : Pte) :
    FaultOf access.opkind (mode.walkEntry va rawSstatus access lvl pteAddr pte) := by
  unfold walkEntry
  split
  · rfl
  split
  · split
    · rfl
    split
    · rfl
    · trivial
  split
  · rfl
  · trivial

theorem walkLevels_faultOf (memory : MemPort) (va rawSstatus : BitVec 64) (access : AccessMode)
    (n : Nat) (ppn : BitVec 64) (m : P) :
    FaultOf access.opkind (mode.walkLevels memory va rawSstatus access n ppn m).1 := by
  fun_induction walkLevels mode memory va rawSstatus access n ppn m with
  | case1 => rfl
  | case2 lvl ppn m pteAddr pte m' hread fault hentry =>
    have hfault := mode.walkEntry_faultOf va rawSstatus access lvl pteAddr pte
    rwa [hentry] at hfault
  | case3 => trivial
  | case4 lvl ppn m pteAddr pte m' hread next hentry ih => exact ih

theorem walk_faultOf (memory : MemPort) (va rawSatp rawSstatus : BitVec 64) (access : AccessMode)
    (m : P) : FaultOf access.opkind (mode.walk memory va rawSatp rawSstatus access m).1 := by
  unfold walk
  split
  · trivial
  · exact mode.walkLevels_faultOf _ _ _ _ _ _ _

end PagingMode

namespace TlbSetup

variable {P : Type} [PhysicalMemory P] (su : TlbSetup)

theorem translate_faultOf (vaddr : AddressWithMode) (t : Tlb) (m : P) :
    FaultOf vaddr.mode.opkind (su.translateVirtualToPhysical vaddr t m).1 := by
  have hwalk := su.xlen.pagingMode.walk_faultOf su.ptWalkMem vaddr.address t.currentSatpRaw
    t.currentSstatusRaw vaddr.mode m
  fun_cases translateVirtualToPhysical su vaddr t m with
  | case1 | case3 | case5 => trivial
  | case2 => rfl
  | case4 =>
    rename_i hresult
    rwa [hresult] at hwalk

theorem translateAndMark_faultOf (vaddr : AddressWithMode) (op : AccessOp) (t : Tlb) (m : P) :
    FaultOf vaddr.mode.opkind (su.translateAndMark vaddr op t m).1 := by
  have htranslate := su.translate_faultOf vaddr t m
  fun_cases translateAndMark su vaddr op t m with
  | case1 fault t' m' hresult => rwa [hresult] at htranslate
  | case2 | case3 => trivial

theorem translateAndReadLoop_faultOf (mode : AccessMode) (fuel : Nat) (curVirt : BitVec 64)
    (remaining : Nat) (t : Tlb) (m : P) :
    FaultOf mode.opkind (su.translateAndReadLoop mode fuel curVirt remaining t m).1 := by
  fun_induction translateAndReadLoop su mode fuel curVirt remaining t m with
  | case1 | case2 | case4 => trivial
  | case3 fuel virt remaining t m hmore fault t' m' hmark =>
    have hpage := su.translateAndMark_faultOf ⟨virt, mode⟩ .read t m
    rwa [hmark] at hpage
  | case5 =>
    rename_i hrest ih
    rwa [hrest] at ih

theorem translateAndWriteLoop_faultOf (mode : AccessMode) (fuel : Nat) (curVirt : BitVec 64)
    (src : List Byte) (t : Tlb) (m : P) :
    FaultOf mode.opkind (su.translateAndWriteLoop mode fuel curVirt src t m).1 := by
  fun_induction translateAndWriteLoop su mode fuel curVirt src t m with
  | case1 | case2 => trivial
  | case3 fuel virt src t m hmore fault t' m' hmark =>
    have hpage := su.translateAndMark_faultOf ⟨virt, mode⟩ .write t m
    rwa [hmark] at hpage
  | case4 _ _ _ _ _ _ _ _ _ _ _ _ ih => exact ih

end TlbSetup

section Stage

variable {vm : VmSetup} {P : Type} [PhysicalMemory P] {cfg : CoreConfig}
  {address : AddressWithMode}

theorem read_faultOf (port : MemPort) (size : Nat) (s : VirtualMemory vm P) :
    FaultOf address.mode.opkind (FrontendMemory.read port address size s).1 :=
  TlbSetup.translateAndReadLoop_faultOf _ _ _ _ _ _ _

theorem write_faultOf (port : MemPort) (bytes : List Byte) (s : VirtualMemory vm P) :
    FaultOf address.mode.opkind (FrontendMemory.write port address bytes s).1 :=
  TlbSetup.translateAndWriteLoop_faultOf _ _ _ _ _ _ _

theorem run_faultOf (script : AccessScript) (s : VirtualMemory vm P) :
    FaultOf address.mode.opkind (script.run address s).1 := by
  induction script generalizing s with
  | answer => trivial
  | read size next ih =>
    have hread : FaultOf address.mode.opkind (FrontendMemory.read .data address size s).1 :=
      read_faultOf _ _ _
    unfold run
    split
    · exact ih _ _
    next hresult =>
      rwa [hresult] at hread
  | write bytes next ih =>
    have hwrite : FaultOf address.mode.opkind (FrontendMemory.write .data address bytes s).1 :=
      write_faultOf _ _ _
    unfold run
    split
    · exact ih _
    next hresult =>
      rwa [hresult] at hwrite
  | sync next ih => exact ih _
  | sfenceVma vaddr asid next ih => exact ih _

/-- The access is one that the memory stage makes for an instruction that reads or writes. -/
def StageFault {α : Type} (op : AccessOp) (memread memwrite : Bool) :
    Except PageFault α → Prop
  | .ok _ => True
  | .error fault => fault.opkind = op ∧ (memread || memwrite) = true

/-- An instruction that neither reads nor writes raises no page fault. -/
theorem run_ofAccess_inactive {dt : ExecuteInterstage} (hread : dt.memread = false)
    (hwrite : dt.memwrite = false) (endian : Endian) (reserved : Bool) (s : VirtualMemory vm P) :
    ∃ value s', (ofAccess endian dt reserved).run address s = (.ok value, s') := by
  unfold ofAccess
  rw [hread, hwrite]
  cases dt.memctl <;> exact ⟨_, _, rfl⟩

variable {core : Core (VirtualMemory vm P)}

/-- A fault of the memory stage carries the kind of its access, and the instruction reads or
writes memory. -/
theorem performAccess_stageFault (dt : ExecuteInterstage) :
    StageFault (memAddress cfg dt core).mode.opkind dt.memread dt.memwrite
      (performAccess cfg dt core).1 := by
  have hfault : FaultOf (memAddress cfg dt core).mode.opkind
      ((accessScript cfg dt core).run (memAddress cfg dt core) core.mem).1 := run_faultOf _ _
  rw [performAccess_eq]
  show StageFault _ _ _ ((accessScript cfg dt core).run (memAddress cfg dt core) core.mem).1
  cases hresult : ((accessScript cfg dt core).run (memAddress cfg dt core) core.mem).1 with
  | ok => trivial
  | error fault =>
    rw [hresult] at hfault
    refine ⟨hfault, ?_⟩
    by_contra hinactive
    rw [Bool.not_eq_true, Bool.or_eq_false_iff] at hinactive
    obtain ⟨value, s', hok⟩ := run_ofAccess_inactive hinactive.1 hinactive.2 cfg.endian
      (core.loadReservedRange.contains (accessRange cfg dt core)) core.mem
    rw [accessScript, hok] at hresult
    cases hresult

end Stage

/-! ### Effective addresses -/

/-- The effective address of a memory instruction: the base register plus the offset, and the base
register alone for the opcode AMO. -/
def effectiveAddress (d : DecodeInterstage) : BitVec 64 :=
  if (BitField.mk 7 0).decode d.inst = 0x2f then d.valRs else d.valRs + d.immediateVal

namespace InstructionMap

open InstructionFlags

/-- A row for memory instructions makes the arithmetic unit compute the effective address. -/
def RowAddress (e : InstructionEntry) : Prop :=
  e.flags.has (memread ||| memwrite) = true →
    e.flags.has supported = true ∧
    (BitField.mk 7 0).mask 32 &&& e.mask = (BitField.mk 7 0).mask 32 ∧
    e.flags.has pcToAlu = false ∧
    if (BitField.mk 7 0).decode e.code = 0x2f then e.flags.has amo = true
    else
      e.flags.has amo = false ∧ e.flags.has mul = false ∧ e.flags.has alusrc = true ∧
        e.flags.has csrToAlu = false ∧ e.flags.has aluMod = false ∧
        e.flags.has forceWOp = false ∧ e.alu = AluOp.add.combined

instance (e : InstructionEntry) : Decidable (RowAddress e) :=
  inferInstanceAs (Decidable (_ → _))

theorem rowAddress : ∀ e ∈ root.entries, RowAddress e := by
  decide +kernel

end InstructionMap

/-- The address that the memory stage uses is the effective address. -/
theorem executeAluVal_effectiveAddress {cfg : CoreConfig} {privilege : PrivilegeLevel}
    {d : DecodeInterstage} (h : Decoded cfg privilege d) (hexcause : d.excause = .none)
    (hactive : (d.memread || d.memwrite) = true) :
    (executeAluVal d).asXlen cfg.xlen = asXlen cfg.xlen (effectiveAddress d) := by
  cases h with
  | empty => cases hactive
  | @inst f hfetched csrReadVal valRs valRt ffRs ffRt =>
    change (f.inst.flags.has .memread || f.inst.flags.has .memwrite) = true at hactive
    rw [← InstructionFlags.has_or] at hactive
    obtain ⟨hsupported, hopcode, hpc, hkind⟩ := InstructionMap.find_of_entries
      InstructionMap.rowAddress (fun h => absurd h (by decide)) f.inst hactive
    have hmatch := InstructionMap.find_matches hsupported
    have hdecode := (BitField.mk 7 0).decode_eq_of_mask hopcode hmatch
    rw [← hdecode] at hkind
    change f.inst.flags.has .pcToAlu = false at hpc
    have hresult : executeAluVal (CorePipelined.withOperands
        (decodeInterstage cfg f privilege valRs valRt csrReadVal) valRs valRt ffRs ffRt) =
        aluCombinedOperate f.inst.aluOp
          (if f.inst.flags.has .amo then .pass else if f.inst.flags.has .mul then .mul else .alu)
          (cfg.xlen != ._64 || f.inst.flags.has .forceWOp) (f.inst.flags.has .aluMod) valRs
          (if f.inst.flags.has .csrToAlu then csrReadVal
            else if f.inst.flags.has .alusrc then .ofI32 f.inst.immediate else valRt) := by
      change decodeExcause cfg f.inst.flags f.excause privilege = .none at hexcause
      simp only [executeAluVal, aluResult, CorePipelined.withOperands, decodeInterstage, hexcause,
        ne_eq, not_true_eq_false, if_false, hpc, Bool.false_eq_true]
    rw [hresult]
    show _ = asXlen cfg.xlen (if (BitField.mk 7 0).decode f.inst = 0x2f then valRs
      else valRs + ofI32 f.inst.immediate)
    split at hkind
    next hamo =>
      change f.inst.flags.has .amo = true at hkind
      rw [if_pos hamo, if_pos hkind]
      rfl
    next hplain =>
      obtain ⟨hamo, hmul, hsrc, hcsr, hmod, hforce, hop⟩ := hkind
      change f.inst.flags.has .amo = false at hamo
      change f.inst.flags.has .mul = false at hmul
      change f.inst.flags.has .alusrc = true at hsrc
      change f.inst.flags.has .csrToAlu = false at hcsr
      change f.inst.flags.has .aluMod = false at hmod
      change f.inst.flags.has .forceWOp = false at hforce
      change f.inst.aluOp = AluOp.add.combined at hop
      rw [if_neg hplain, hamo, hmul, hsrc, hcsr, hmod, hforce, hop, Bool.or_false]
      exact aluAdd_asXlen cfg.xlen _ _

/-! ### The trap value -/

def pageFaults : List ExceptionCause := [.insnPageFault, .loadPageFault, .storePageFault]

/-- The virtual address of a fault: the address of the instruction if it could not be fetched, and
otherwise the effective address of its access. -/
def faultAddress (d : DecodeInterstage) (excause : ExceptionCause) : Address :=
  if excause = .insnPageFault then d.instAddr else effectiveAddress d

section Trap

variable {vm : VmSetup} {P : Type} [PhysicalMemory P] {cfg : CoreConfig}

/-- An instruction in front of the memory stage carries no exception of that stage. -/
theorem Core.Decoded.excause_notMem {privilege : PrivilegeLevel} {d : DecodeInterstage}
    (h : Decoded cfg privilege d) :
    d.excause ∉ [ExceptionCause.loadPageFault, .storePageFault] := by
  cases h with
  | empty =>
    change ExceptionCause.none ∉ _
    decide
  | @inst f hfetched csrReadVal valRs valRt ffRs ffRt =>
    have hf : f.excause ∉ [ExceptionCause.loadPageFault, .storePageFault] := by
      rcases hfetched with rfl | ⟨-, hf⟩
      · decide
      · exact hf
    have hown : ∀ e ∈ [ExceptionCause.insnIllegal, .break, .ecallU, .ecallS, .ecallM],
        e ∉ [ExceptionCause.loadPageFault, .storePageFault] := by decide
    change decodeExcause cfg f.inst.flags f.excause privilege ∉ _
    rcases decodeExcause_cases cfg f.inst.flags f.excause privilege with hkept | hdecode
    · rw [hkept]
      exact hf
    · exact hown _ hdecode

omit [PhysicalMemory P] in
theorem memory_instAddr [FrontendMemory P] {dt : ExecuteInterstage} {c c' : Core P}
    {r : MemoryInterstage × MemoryInternalState} (h : memory cfg dt c = (.ok r, c')) :
    r.1.instAddr = dt.instAddr := by
  obtain ⟨csr, c₁, -, rfl, -⟩ := memory_ok h
  rfl

/-- The address behind a page fault is the effective address of the access, and zero if the
instruction could not be fetched. -/
theorem memory_faultAddress {privilege : PrivilegeLevel} {d : DecodeInterstage}
    (hdecoded : Decoded cfg privilege d) {c c' : Core (VirtualMemory vm P)}
    {r : MemoryInterstage × MemoryInternalState} (h : memory cfg (execute d) c = (.ok r, c'))
    (hfault : r.1.excause ∈ pageFaults) :
    asXlen cfg.xlen r.1.memAddr =
      if r.1.excause = .insnPageFault then 0
      else asXlen cfg.xlen (effectiveAddress d) := by
  obtain ⟨csr, c₁, -, rfl, -⟩ := memory_ok h
  change (memoryAccess cfg (execute d) c).1.excause ∈ pageFaults at hfault
  change asXlen cfg.xlen ((executeAluVal d).asXlen cfg.xlen) =
    if (memoryAccess cfg (execute d) c).1.excause = .insnPageFault then 0 else _
  rw [asXlen_asXlen]
  by_cases hraised : (execute d).excause ≠ .none
  · -- the fault was attached to the fetched instruction
    rw [memoryAccess, if_pos hraised] at hfault ⊢
    have hfetch : d.excause = .insnPageFault := by
      have hnot := hdecoded.excause_notMem
      change d.excause ∈ pageFaults at hfault
      simp only [pageFaults, List.mem_cons, List.not_mem_nil, or_false] at hfault hnot
      tauto
    refine Eq.trans ?_ (if_pos hfetch).symm
    rw [show executeAluVal d = 0 from if_pos hraised]
    cases cfg.xlen <;> rfl
  · -- the fault is one of the access
    rw [memoryAccess, if_neg hraised] at hfault ⊢
    have hstage := @performAccess_stageFault vm P _ cfg c (execute d)
    split at hfault
    · change ExceptionCause.none ∈ pageFaults at hfault
      exact absurd hfault (by decide)
    next fault _ haccess =>
      rw [haccess] at hstage
      obtain ⟨hop, hactive⟩ := hstage
      have hcause : getCurrentCause fault.opkind ≠ .insnPageFault := by
        rw [hop]
        change getCurrentCause (if (execute d).memwrite || (execute d).amo then .write else .read)
          ≠ _
        split <;> decide
      refine Eq.trans ?_ (if_neg hcause).symm
      exact executeAluVal_effectiveAddress hdecoded (not_not.mp hraised) hactive

namespace TrapCall

/-- The trap value register of the target mode receives the address of the fault. -/
def ReportsFault (cfg : CoreConfig) (t : TrapCall (VirtualMemory vm P)) (d : DecodeInterstage) :
    Prop :=
  (t.handle cfg).2.controlState.registerData (tvalId t.toS) =
    RegisterValue.asXlen cfg.xlen (faultAddress d t.excause)

theorem reportsFault_iff {t : TrapCall (VirtualMemory vm P)} {d : DecodeInterstage}
    (hfault : t.excause ∈ pageFaults) (hinstAddr : t.instAddr = d.instAddr)
    (hmemRefAddr : asXlen cfg.xlen t.memRefAddr =
      if t.excause = .insnPageFault then 0
      else asXlen cfg.xlen (effectiveAddress d)) :
    t.ReportsFault cfg d ↔
      (t.excause ≠ .insnPageFault ∨ asXlen cfg.xlen t.instAddr = 0) := by
  have hkinds : ∀ e ∈ pageFaults, e ≠ .insnIllegal ∧ e ≠ .hwbreak ∧ hasFaultAddress e = true := by
    decide
  obtain ⟨hillegal, hbreak, haddress⟩ := hkinds t.excause hfault
  have htval : (t.handle cfg).2.controlState.registerData (tvalId t.toS) =
      asXlen cfg.xlen t.memRefAddr := by
    rw [handle_registerData hillegal hbreak (by cases t.toS <;> decide),
      trapCsrUpdate_registerData, haddress, if_pos rfl, if_neg, if_pos rfl]
    cases t.toS <;> cases t.core.currentPrivilege <;> decide
  rw [ReportsFault, htval, hmemRefAddr, faultAddress, hinstAddr]
  by_cases hfetch : t.excause = .insnPageFault
  · simp only [hfetch, if_true, ne_eq, not_true_eq_false, false_or]
    exact eq_comm
  · simp only [hfetch, if_false, ne_eq, not_false_eq_true, true_or]

end TrapCall

def CoreSingle.Executes {M : Type} [FrontendMemory M] (cfg : CoreConfig) (skipBreak : Bool)
    (s : CoreSingle M) (d : DecodeInterstage) : Prop :=
  let (ifId, core) := fetch cfg s.pipeline.pcIf skipBreak s.core.nextCycle
  decode cfg ifId core = .ok d

/-- The instruction that enters the memory stage in the next step. -/
def CorePipelined.Executes {M : Type} (cfg : CoreConfig) (s : CorePipelined M)
    (d : DecodeInterstage) : Prop :=
  Decoded cfg s.core.currentPrivilege d ∧ s.pipeline.exMem = execute d

/-- The trap value of a page fault is the virtual address whose translation failed, in every run of
either core, exactly if an access failed or the instruction that could not be fetched is at address
zero. -/
theorem fault_address_iff (cfg : CoreConfig) (c : Core (VirtualMemory vm P)) :
    (∀ s : CoreSingle (VirtualMemory vm P), Hart.Reached cfg c s → ∀ skipBreak t,
        Hart.trapCall cfg skipBreak s = some t → t.excause ∈ pageFaults →
        (∃ d, s.Executes cfg skipBreak d) ∧ ∀ d, s.Executes cfg skipBreak d →
          (t.ReportsFault cfg d ↔
            (t.excause ≠ .insnPageFault ∨ RegisterValue.asXlen cfg.xlen t.instAddr = 0))) ∧
      ∀ s : CorePipelined (VirtualMemory vm P), Hart.Reached cfg c s → ∀ skipBreak t,
        Hart.trapCall cfg skipBreak s = some t → t.excause ∈ pageFaults →
        (∃ d, s.Executes cfg d) ∧ ∀ d, s.Executes cfg d →
          (t.ReportsFault cfg d ↔
            (t.excause ≠ .insnPageFault ∨ RegisterValue.asXlen cfg.xlen t.instAddr = 0)) := by
  constructor
  · intro s _ skipBreak t hcall hfault
    obtain ⟨s₁, hstages, hcallOf⟩ := stages_of_trapCall hcall
    obtain ⟨idEx, r, c', hdecode, hmemory, rfl⟩ := stages_ok hstages
    obtain ⟨-, hexcause, hinstAddr, hmemRefAddr, -⟩ := callOf_some hcallOf
    refine ⟨⟨idEx, hdecode⟩, fun d hd => ?_⟩
    obtain rfl : idEx = d := Except.ok.inj (hdecode.symm.trans hd)
    have hdecoded := decode_decoded (fetch_fetched _ _ _) hdecode
    apply TrapCall.reportsFault_iff hfault (hinstAddr.trans (memory_instAddr hmemory))
    rw [hexcause] at hfault ⊢
    rw [hmemRefAddr]
    exact memory_faultAddress hdecoded hmemory hfault
  · intro s hrun skipBreak t hcall hfault
    obtain ⟨s₁, hstages, hcallOf⟩ := CorePipelined.stages_of_trapCall hcall
    obtain ⟨r, c', idEx, hmemory, -, rfl⟩ := CorePipelined.stages_ok hstages
    obtain ⟨-, hexcause, hinstAddr, hmemRefAddr, -⟩ := CorePipelined.callOf_some hcallOf
    constructor
    · rcases ((origin_stageInvariant _ cfg).reached hrun).exMem with hempty | hexecuted
      · -- an empty stage raises nothing
        rw [show s.pipeline.exMem = {} from hempty] at hmemory
        obtain ⟨csr, c₁, -, hr, -⟩ := memory_ok hmemory
        have hquiet : r.1.excause = .none := by
          rw [hr]
          rfl
        rw [hexcause, show _ = ExceptionCause.none from hquiet] at hfault
        exact absurd hfault (by decide)
      · exact hexecuted
    · rintro d ⟨hdecoded, hexMem⟩
      rw [show s.pipeline.exMem = execute d from hexMem] at hmemory
      apply TrapCall.reportsFault_iff hfault (hinstAddr.trans (memory_instAddr hmemory))
      rw [hexcause] at hfault ⊢
      rw [hmemRefAddr]
      exact memory_faultAddress hdecoded hmemory hfault

end Trap

/-- User mode with `sw x5, 0(x2)` in a page that may be read and executed, where `x2` points behind
the mapped gigabyte. -/
def storingCore : Core (VirtualMemory smallVm FlatMemory) :=
  { userCore 0xa with
    mem := ⟨emptyTlb, emptyTlb, ⟨fun a =>
      (userGigapage 0xa).bytes a ||| (FlatMemory.ofWords 0x200 [0x00512023]).bytes a⟩⟩ }

theorem fault_address_storingCore :
    ∃ t d, Hart.trapCall (.rv64 .none) false (CoreSingle.start storingCore) = some t ∧
      t.excause = .storePageFault ∧
      (CoreSingle.start storingCore).Executes (.rv64 .none) false d ∧
      t.ReportsFault (.rv64 .none) d := by
  have hcall : (Hart.trapCall (.rv64 .none) false (start storingCore)).map
      (·.excause) = some .storePageFault := by decide +kernel
  obtain ⟨t, ht, hexcause⟩ := Option.map_eq_some_iff.mp hcall
  obtain ⟨⟨d, hd⟩, hreports⟩ := (fault_address_iff (.rv64 .none) storingCore).1
    (start storingCore) .refl false t ht (by rw [hexcause]; decide)
  exact ⟨t, d, ht, hexcause, hd, (hreports d hd).mpr (.inl (by rw [hexcause]; decide))⟩

/-- A fetch from address 0x200 that is not permitted reports address zero. -/
theorem fetch_fault_reports_zero :
    ∃ t d, Hart.trapCall (.rv64 .none) false (CoreSingle.start (userCore 0x2)) = some t ∧
      t.excause = .insnPageFault ∧ t.instAddr = 0x200 ∧
      (CoreSingle.start (userCore 0x2)).Executes (.rv64 .none) false d ∧
      (t.handle (.rv64 .none)).2.controlState.registerData (tvalId t.toS) = 0 ∧
      ¬t.ReportsFault (.rv64 .none) d := by
  have hcall : (Hart.trapCall (.rv64 .none) false (start (userCore 0x2))).map
      (fun t => (t.excause, t.instAddr,
        (t.handle (.rv64 .none)).2.controlState.registerData (tvalId t.toS))) =
      some (.insnPageFault, 0x200, 0) := by decide +kernel
  obtain ⟨t, ht, hfields⟩ := Option.map_eq_some_iff.mp hcall
  simp only [Prod.mk.injEq] at hfields
  obtain ⟨hexcause, hinstAddr, htval⟩ := hfields
  have hdecode : ∃ d, (start (userCore 0x2)).Executes (.rv64 .none) false d ∧
      d.instAddr = 0x200 := by
    have hok : (decode (.rv64 .none) (fetch (.rv64 .none) {} false (userCore 0x2).nextCycle).1
        (fetch (.rv64 .none) {} false (userCore 0x2).nextCycle).2).toOption.map (·.instAddr) =
        some 0x200 := by decide +kernel
    obtain ⟨d, hd, haddr⟩ := Option.map_eq_some_iff.mp hok
    have hresult {e : Except SimulatorException DecodeInterstage} (h : e.toOption = some d) :
        e = .ok d := by
      cases e with
      | error => cases h
      | ok value => exact congrArg Except.ok (Option.some.inj h)
    exact ⟨d, hresult hd, haddr⟩
  obtain ⟨d, hd, haddr⟩ := hdecode
  refine ⟨t, d, ht, hexcause, hinstAddr, hd, htval, ?_⟩
  rw [TrapCall.ReportsFault, htval, faultAddress, if_pos hexcause, haddr]
  decide

end QtRvSim
