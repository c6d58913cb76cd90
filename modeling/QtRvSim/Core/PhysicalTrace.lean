import QtRvSim.Core.MemoryCalls
import QtRvSim.Memory.Tlb

/-!
# Operations on the physical memory

The TLBs reach physical memory through its ports only, for accesses, page-table walks and updates of
accessed and dirty bits.  If two physical memories are related by a relation that every operation
keeps, giving the same answers, then the memory systems over them are related in the same way.  A
physical memory that records the operations on it gives the operations of a run.
-/

namespace QtRvSim

open ByteMemory VirtualMemory TlbSetup

/-- Every operation of the physical memory keeps the relation and gives the same answer. -/
structure PhysicalRelation {P Q : Type} [PhysicalMemory P] [PhysicalMemory Q] (R : P → Q → Prop) :
    Prop where
  read : ∀ port address size {m : P} {n : Q}, R m n →
    Lifts R (PhysicalMemory.read port address size m) (PhysicalMemory.read port address size n)
  write : ∀ port address bytes {m : P} {n : Q}, R m n →
    R (PhysicalMemory.write port address bytes m) (PhysicalMemory.write port address bytes n)
  sync : ∀ port {m : P} {n : Q}, R m n → R (PhysicalMemory.sync port m) (PhysicalMemory.sync port n)

inductive OverTlb {P Q : Type} (R : P → Q → Prop) : Tlb × P → Tlb × Q → Prop where
  | intro (t : Tlb) {m : P} {n : Q} (hmem : R m n) : OverTlb R (t, m) (t, n)

inductive VirtualMemory.Over {vm : VmSetup} {P Q : Type} (R : P → Q → Prop) :
    VirtualMemory vm P → VirtualMemory vm Q → Prop where
  | intro (tlbProgram tlbData : Tlb) {m : P} {n : Q} (hmem : R m n) :
      VirtualMemory.Over R ⟨tlbProgram, tlbData, m⟩ ⟨tlbProgram, tlbData, n⟩

namespace PhysicalRelation

variable {P Q : Type} [PhysicalMemory P] [PhysicalMemory Q] {R : P → Q → Prop}
  (hR : PhysicalRelation R) {m : P} {n : Q}

include hR

/-! ### Walks -/

theorem readPte (mode : PagingMode) (port : MemPort) (address : Address) (h : R m n) :
    Lifts R (mode.readPte port address m) (mode.readPte port address n) := by
  have hread := hR.read port address mode.rawBytes h
  unfold PagingMode.readPte
  generalize PhysicalMemory.read port address mode.rawBytes m = x at hread ⊢
  generalize PhysicalMemory.read port address mode.rawBytes n = y at hread ⊢
  obtain ⟨bytes, hmem⟩ := hread
  exact .intro _ hmem

theorem walkLevels (mode : PagingMode) (port : MemPort) (va rawSstatus : BitVec 64)
    (access : AccessMode) (lvl : Nat) (ppn : BitVec 64) (h : R m n) :
    Lifts R (mode.walkLevels port va rawSstatus access lvl ppn m)
      (mode.walkLevels port va rawSstatus access lvl ppn n) := by
  induction lvl generalizing ppn m n with
  | zero => exact .intro _ h
  | succ lvl ih =>
    rw [PagingMode.walkLevels, PagingMode.walkLevels]
    refine (hR.readPte mode port (mode.pteAddr va lvl ppn) h).elim fun pte m n hmem => ?_
    dsimp only
    cases mode.walkEntry va rawSstatus access lvl (mode.pteAddr va lvl ppn) pte with
    | error fault => exact .intro _ hmem
    | ok next =>
      cases next with
      | inl res => exact .intro _ hmem
      | inr ppn => exact ih ppn hmem

theorem walk (mode : PagingMode) (port : MemPort) (va rawSatp rawSstatus : BitVec 64)
    (access : AccessMode) (h : R m n) :
    Lifts R (mode.walk port va rawSatp rawSstatus access m)
      (mode.walk port va rawSatp rawSstatus access n) := by
  rw [PagingMode.walk, PagingMode.walk]
  split
  · exact .intro _ h
  · exact hR.walkLevels mode port va rawSstatus access _ _ h

/-! ### Translations -/

variable (su : TlbSetup)

theorem translateVirtualToPhysical (vaddr : AddressWithMode) (t : Tlb) (h : R m n) :
    Lifts (OverTlb R) (su.translateVirtualToPhysical vaddr t m)
      (su.translateVirtualToPhysical vaddr t n) := by
  unfold TlbSetup.translateVirtualToPhysical
  cases hon : su.shouldTranslate t vaddr.mode.priv with
  | false => exact .intro _ (.intro t h)
  | true =>
    simp only [Bool.not_true, Bool.false_eq_true, if_false]
    cases su.hitWay t (vaddr.address >>> pageShift) vaddr.mode.asid with
    | some w =>
      dsimp only
      generalize checkPermissions _ t.currentSstatusRaw vaddr.mode.priv vaddr.mode.opkind = allowed
      cases allowed with
      | false | true => exact .intro _ (.intro _ h)
    | none =>
      refine (hR.walk su.xlen.pagingMode su.ptWalkMem vaddr.address t.currentSatpRaw
        t.currentSstatusRaw vaddr.mode h).elim fun result m n hmem => ?_
      cases result with
      | error | ok => exact .intro _ (.intro _ hmem)

theorem ensureAdBits (place : Nat × Nat) (op : AccessOp) (t : Tlb) (h : R m n) :
    OverTlb R (su.ensureAdBits place op t m) (su.ensureAdBits place op t n) := by
  unfold TlbSetup.ensureAdBits
  dsimp only
  refine (hR.read su.ptWalkMem (t.table place.1 place.2).pteAddr
    (t.table place.1 place.2).pteBytes h).elim fun bytes m n hmem => ?_
  split
  · exact .intro _ (hR.write _ _ _ hmem)
  · exact .intro _ hmem

theorem translateAndMark (vaddr : AddressWithMode) (op : AccessOp) (t : Tlb) (h : R m n) :
    Lifts (OverTlb R) (su.translateAndMark vaddr op t m) (su.translateAndMark vaddr op t n) := by
  unfold TlbSetup.translateAndMark
  refine (hR.translateVirtualToPhysical su vaddr t h).elim ?_
  rintro result _ _ ⟨t, hmem⟩
  cases result with
  | error fault => exact .intro _ (.intro _ hmem)
  | ok tr =>
    dsimp only
    cases tr.entry with
    | none => exact .intro _ (.intro _ hmem)
    | some place => exact .intro _ (hR.ensureAdBits su place op t hmem)

theorem readLoop (mode : AccessMode) (fuel : Nat) (virt : BitVec 64) (remaining : Nat) (t : Tlb)
    (h : R m n) :
    Lifts (OverTlb R) (su.translateAndReadLoop mode fuel virt remaining t m)
      (su.translateAndReadLoop mode fuel virt remaining t n) := by
  induction fuel generalizing virt remaining t m n with
  | zero => exact .intro _ (.intro t h)
  | succ fuel ih =>
    rw [translateAndReadLoop, translateAndReadLoop]
    split
    · exact .intro _ (.intro t h)
    · refine (hR.translateAndMark su ⟨virt, mode⟩ .read t h).elim ?_
      rintro result _ _ ⟨t, hmem⟩
      cases result with
      | error fault => exact .intro _ (.intro t hmem)
      | ok tr =>
        dsimp only
        refine (hR.read su.mem tr.phys (min remaining tr.bytesUntilPageEnd) hmem).elim
          fun bytes m n hmem => ?_
        refine (ih _ _ t hmem).elim ?_
        rintro result _ _ ⟨t, hmem⟩
        cases result with
        | error | ok => exact .intro _ (.intro t hmem)

theorem writeLoop (mode : AccessMode) (fuel : Nat) (virt : BitVec 64) (src : List Byte) (t : Tlb)
    (h : R m n) :
    Lifts (OverTlb R) (su.translateAndWriteLoop mode fuel virt src t m)
      (su.translateAndWriteLoop mode fuel virt src t n) := by
  induction fuel generalizing virt src t m n with
  | zero => exact .intro _ (.intro t h)
  | succ fuel ih =>
    rw [translateAndWriteLoop, translateAndWriteLoop]
    split
    · exact .intro _ (.intro t h)
    · refine (hR.translateAndMark su ⟨virt, mode⟩ .write t h).elim ?_
      rintro result _ _ ⟨t, hmem⟩
      cases result with
      | error fault => exact .intro _ (.intro t hmem)
      | ok tr => exact ih _ _ t (hR.write su.mem tr.phys _ hmem)

/-- Memory systems over related physical memories are related. -/
theorem virtual (vm : VmSetup) : MemRelation (@VirtualMemory.Over vm P Q R) where
  read port address size s t h := by
    obtain ⟨tlbProgram, tlbData, hmem⟩ := h
    simp only [FrontendMemory.read, translateAndRead]
    cases port with
    | program =>
      refine (hR.readLoop vm.program _ _ _ _ tlbProgram hmem).elim ?_
      rintro result _ _ ⟨t, hmem⟩
      exact .intro _ (.intro t tlbData hmem)
    | data =>
      refine (hR.readLoop vm.data _ _ _ _ tlbData hmem).elim ?_
      rintro result _ _ ⟨t, hmem⟩
      exact .intro _ (.intro tlbProgram t hmem)
  write address bytes s t h := by
    obtain ⟨tlbProgram, tlbData, hmem⟩ := h
    simp only [FrontendMemory.write, translateAndWrite, setup, tlb]
    refine (hR.writeLoop vm.data _ _ _ _ tlbData hmem).elim ?_
    rintro result _ _ ⟨t, hmem⟩
    exact .intro _ (.intro tlbProgram t hmem)
  sync port s t h := by
    obtain ⟨tlbProgram, tlbData, hmem⟩ := h
    exact .intro tlbProgram tlbData (hR.sync _ hmem)
  sfenceVma port vaddr asid s t h := by
    obtain ⟨tlbProgram, tlbData, hmem⟩ := h
    cases port with
    | program => exact .intro _ tlbData hmem
    | data => exact .intro tlbProgram _ hmem
  onCsrWrite signal s t h := by
    obtain ⟨tlbProgram, tlbData, hmem⟩ := h
    exact .intro _ _ hmem

end PhysicalRelation

/-- An operation on the physical memory, with the bytes that were read or written. -/
inductive PhysicalOp where
  | read (port : MemPort) (address : Address) (size : Nat) (bytes : List Byte)
  | write (port : MemPort) (address : Address) (bytes : List Byte)
  | sync (port : MemPort)
deriving DecidableEq

namespace PhysicalOp

variable {P : Type} [PhysicalMemory P]

def on (m : P) : PhysicalOp → P
  | .read port address size _ => (PhysicalMemory.read port address size m).2
  | .write port address bytes => PhysicalMemory.write port address bytes m
  | .sync port => PhysicalMemory.sync port m

def after (m : P) (ops : List PhysicalOp) : P :=
  ops.foldl on m

theorem after_append (m : P) (ops ops' : List PhysicalOp) :
    after m (ops ++ ops') = after (after m ops) ops' :=
  List.foldl_append

def Answered (m : P) : PhysicalOp → Prop
  | .read port address size bytes => bytes = (PhysicalMemory.read port address size m).1
  | _ => True

end PhysicalOp

structure Traced (P : Type) where
  mem : P
  ops : List PhysicalOp

structure StablePhysical {P : Type} [PhysicalMemory P] (inv : P → Prop) : Prop where
  read : ∀ port address size {m : P}, inv m → inv (PhysicalMemory.read port address size m).2
  write : ∀ port address bytes {m : P}, inv m → inv (PhysicalMemory.write port address bytes m)
  sync : ∀ port {m : P}, inv m → inv (PhysicalMemory.sync port m)

namespace StablePhysical

variable {P : Type} [PhysicalMemory P] {inv : P → Prop} (hinv : StablePhysical inv)

include hinv

theorem relation : PhysicalRelation fun (m n : P) => n = m ∧ inv m where
  read port address size m n h := by
    obtain ⟨rfl, hm⟩ := h
    exact .intro _ ⟨rfl, hinv.read port address size hm⟩
  write port address bytes m n h := by
    obtain ⟨rfl, hm⟩ := h
    exact ⟨rfl, hinv.write port address bytes hm⟩
  sync port m n h := by
    obtain ⟨rfl, hm⟩ := h
    exact ⟨rfl, hinv.sync port hm⟩

/-- The memory system keeps a property that the operations on the physical memory keep. -/
theorem stableMem (vm : VmSetup) : StableMem fun s : VirtualMemory vm P => inv s.mem := by
  have hrelation := hinv.relation.virtual vm
  have hself {s : VirtualMemory vm P} (h : inv s.mem) :
      VirtualMemory.Over (fun (m n : P) => n = m ∧ inv m) s s :=
    .intro s.tlbProgram s.tlbData ⟨rfl, h⟩
  have hkept {s t : VirtualMemory vm P}
      (h : VirtualMemory.Over (fun (m n : P) => n = m ∧ inv m) s t) : inv s.mem := by
    obtain ⟨_, _, hmem⟩ := h
    exact hmem.2
  have hlifted {α : Type} {x y : α × VirtualMemory vm P}
      (h : Lifts (VirtualMemory.Over fun (m n : P) => n = m ∧ inv m) x y) : inv x.2.mem := by
    obtain ⟨_, hstate⟩ := h
    exact hkept hstate
  exact ⟨fun port address size _ h => hlifted (hrelation.read port address size (hself h)),
    fun address bytes _ h => hlifted (hrelation.write address bytes (hself h)),
    fun port _ h => hkept (hrelation.sync port (hself h)),
    fun port vaddr asid _ h => hkept (hrelation.sfenceVma port vaddr asid (hself h)),
    fun signal _ h => hkept (hrelation.onCsrWrite signal (hself h))⟩

end StablePhysical

namespace Traced

variable {P : Type} [PhysicalMemory P]

omit [PhysicalMemory P] in
def start (m : P) : Traced P := ⟨m, []⟩

instance : PhysicalMemory (Traced P) where
  read port address size r :=
    let (bytes, m) := PhysicalMemory.read port address size r.mem
    (bytes, ⟨m, r.ops ++ [.read port address size bytes]⟩)
  write port address bytes r :=
    ⟨PhysicalMemory.write port address bytes r.mem, r.ops ++ [.write port address bytes]⟩
  sync port r := ⟨PhysicalMemory.sync port r.mem, r.ops ++ [.sync port]⟩

/-- Recording changes no answer. -/
theorem relation : PhysicalRelation fun (m : P) (r : Traced P) => r.mem = m where
  read port address size m r h := by
    subst h
    exact .intro _ rfl
  write port address bytes m r h := by
    subst h
    rfl
  sync port m r h := by
    subst h
    rfl

/-- The memory below the record is the start memory after the recorded operations, which were
answered by the memory in front of them. -/
def Faithful (m : P) (r : Traced P) : Prop :=
  r.mem = PhysicalOp.after m r.ops ∧
    ∀ done op rest, r.ops = done ++ op :: rest → op.Answered (PhysicalOp.after m done)

theorem faithful_start (m : P) : Faithful m (start m) :=
  ⟨rfl, fun _ _ _ hsplit => absurd hsplit (by simp [start])⟩

theorem Faithful.record {m m' : P} {r : Traced P} {op : PhysicalOp} (h : Faithful m r)
    (hmem : m' = op.on r.mem) (hanswered : op.Answered r.mem) :
    Faithful m ⟨m', r.ops ++ [op]⟩ := by
  refine ⟨?_, fun done op' rest hsplit => ?_⟩
  · rw [hmem, h.1, PhysicalOp.after_append]
    rfl
  · rcases List.eq_nil_or_concat rest with rfl | ⟨rest', last, rfl⟩
    · obtain ⟨rfl, hop⟩ := List.append_inj' hsplit rfl
      obtain rfl : op = op' := List.head_eq_of_cons_eq hop
      rwa [h.1] at hanswered
    · rw [List.concat_eq_append, ← List.cons_append, ← List.append_assoc] at hsplit
      exact h.2 done op' rest' (List.append_inj' hsplit rfl).1

/-- A run over the recording memory records what is done to the memory below. -/
theorem stable_faithful (m : P) : StablePhysical (Faithful m) where
  read port address size r h := by
    have hrecord := @Faithful.record P _ m _ r (.read port address size
      (PhysicalMemory.read port address size r.mem).1) h rfl rfl
    exact hrecord
  write port address bytes r h :=
    @Faithful.record P _ m _ r (.write port address bytes) h rfl trivial
  sync port r h := @Faithful.record P _ m _ r (.sync port) h rfl trivial

section Runs

variable {vm : VmSetup} {cfg : CoreConfig} {c : Core (VirtualMemory vm P)}

omit [PhysicalMemory P] in
def under (s : VirtualMemory vm P) : VirtualMemory vm (Traced P) :=
  ⟨s.tlbProgram, s.tlbData, start s.mem⟩

omit [PhysicalMemory P] in
theorem related_under (c : Core (VirtualMemory vm P)) :
    Core.Related (VirtualMemory.Over fun (m : P) (r : Traced P) => r.mem = m) c
      (c.withMem (under c.mem)) :=
  .intro c (.intro c.mem.tlbProgram c.mem.tlbData rfl)

/-- Every run of the single-cycle core is one over the recording memory. -/
theorem reached_single {s : CoreSingle (VirtualMemory vm P)} (hrun : Hart.Reached cfg c s) :
    ∃ t : CoreSingle (VirtualMemory vm (Traced P)), Hart.Reached cfg (c.withMem (under c.mem)) t ∧
      CoreSingle.Related (VirtualMemory.Over fun (m : P) (r : Traced P) => r.mem = m) s t :=
  (relation.virtual vm).reached_single (related_under c) hrun

/-- Every run of the pipelined core is one over the recording memory. -/
theorem reached_pipelined {s : CorePipelined (VirtualMemory vm P)} (hrun : Hart.Reached cfg c s) :
    ∃ t : CorePipelined (VirtualMemory vm (Traced P)),
      Hart.Reached cfg (c.withMem (under c.mem)) t ∧
      CorePipelined.Related (VirtualMemory.Over fun (m : P) (r : Traced P) => r.mem = m) s t :=
  (relation.virtual vm).reached_pipelined (related_under c) hrun

end Runs

end Traced

end QtRvSim
