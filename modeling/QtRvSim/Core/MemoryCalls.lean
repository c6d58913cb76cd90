import QtRvSim.Core.MemoryRelation

/-!
# Calls on the memory system

What the core asks of its memory system in a run, as a list of calls.  The calls are recorded by a
memory system that answers like the one below it, so that a run over it is a run of the core, and
the memory of a run is the start memory after the calls.
-/

namespace QtRvSim

inductive MemCall where
  | read (port : MemPort) (address : AddressWithMode) (size : Nat)
  | write (port : MemPort) (address : AddressWithMode) (bytes : List Byte)
  | sync (port : MemPort)
  | sfenceVma (port : MemPort) (vaddr asid : BitVec 64)
  | csrWrite (signal : Csr.Signal)
deriving DecidableEq

namespace MemCall

variable {M : Type} [FrontendMemory M]

def on (m : M) : MemCall → M
  | .read port address size => (FrontendMemory.read port address size m).2
  | .write port address bytes => (FrontendMemory.write port address bytes m).2
  | .sync port => FrontendMemory.sync port m
  | .sfenceVma port vaddr asid => FrontendMemory.sfenceVma port vaddr asid m
  | .csrWrite signal => FrontendMemory.onCsrWrite signal m

def after (m : M) (calls : List MemCall) : M :=
  calls.foldl on m

theorem after_append (m : M) (calls calls' : List MemCall) :
    after m (calls ++ calls') = after (after m calls) calls' :=
  List.foldl_append

theorem after_concat (m : M) (calls : List MemCall) (call : MemCall) :
    after m (calls ++ [call]) = call.on (after m calls) :=
  after_append m calls [call]

def satpValue : MemCall → Option (BitVec 64)
  | .csrWrite (.satp, value) => some value
  | _ => none

/-- The call only reads or hands on the value of a CSR. -/
def quiet : MemCall → Bool
  | .read .. | .csrWrite .. => true
  | _ => false

/-- What holds at first and is kept by every call holds after the calls. -/
theorem after_invariant {inv : M → Prop} {m : M} {calls : List MemCall} (h : inv m)
    (hstep : ∀ call ∈ calls, ∀ m, inv m → inv (call.on m)) : inv (after m calls) := by
  induction calls generalizing m with
  | nil => exact h
  | cons call calls ih =>
    exact ih (hstep call List.mem_cons_self m h) fun c hc =>
      hstep c (List.mem_cons_of_mem _ hc)

end MemCall

structure Recorded (M : Type) where
  mem : M
  calls : List MemCall

namespace Recorded

variable {M : Type} [FrontendMemory M]

omit [FrontendMemory M] in
def start (m : M) : Recorded M := ⟨m, []⟩

instance : FrontendMemory (Recorded M) where
  read port address size r :=
    let (answer, m) := FrontendMemory.read port address size r.mem
    (answer, ⟨m, r.calls ++ [.read port address size]⟩)
  write port address bytes r :=
    let (answer, m) := FrontendMemory.write port address bytes r.mem
    (answer, ⟨m, r.calls ++ [.write port address bytes]⟩)
  sync port r := ⟨FrontendMemory.sync port r.mem, r.calls ++ [.sync port]⟩
  sfenceVma port vaddr asid r :=
    ⟨FrontendMemory.sfenceVma port vaddr asid r.mem, r.calls ++ [.sfenceVma port vaddr asid]⟩
  onCsrWrite signal r := ⟨FrontendMemory.onCsrWrite signal r.mem, r.calls ++ [.csrWrite signal]⟩

/-- Recording changes no answer. -/
theorem relation : MemRelation fun (m : M) (r : Recorded M) => r.mem = m where
  read port address size m r h := by
    subst h
    exact .intro _ rfl
  write address bytes m r h := by
    subst h
    exact .intro _ rfl
  sync port m r h := by
    subst h
    rfl
  sfenceVma port vaddr asid m r h := by
    subst h
    rfl
  onCsrWrite signal m r h := by
    subst h
    rfl

end Recorded

structure StableMem {M : Type} [FrontendMemory M] (inv : M → Prop) : Prop where
  read : ∀ port address size {m : M}, inv m → inv (FrontendMemory.read port address size m).2
  write : ∀ address bytes {m : M}, inv m → inv (FrontendMemory.write .data address bytes m).2
  sync : ∀ port {m : M}, inv m → inv (FrontendMemory.sync port m)
  sfenceVma : ∀ port vaddr asid {m : M}, inv m → inv (FrontendMemory.sfenceVma port vaddr asid m)
  onCsrWrite : ∀ signal {m : M}, inv m → inv (FrontendMemory.onCsrWrite signal m)

namespace StableMem

variable {M : Type} [FrontendMemory M] {inv : M → Prop} (hinv : StableMem inv) {cfg : CoreConfig}

include hinv

theorem relation : MemRelation fun (m n : M) => n = m ∧ inv m where
  read port address size m n h := by
    obtain ⟨rfl, hm⟩ := h
    exact .intro _ ⟨rfl, hinv.read port address size hm⟩
  write address bytes m n h := by
    obtain ⟨rfl, hm⟩ := h
    exact .intro _ ⟨rfl, hinv.write address bytes hm⟩
  sync port m n h := by
    obtain ⟨rfl, hm⟩ := h
    exact ⟨rfl, hinv.sync port hm⟩
  sfenceVma port vaddr asid m n h := by
    obtain ⟨rfl, hm⟩ := h
    exact ⟨rfl, hinv.sfenceVma port vaddr asid hm⟩
  onCsrWrite signal m n h := by
    obtain ⟨rfl, hm⟩ := h
    exact ⟨rfl, hinv.onCsrWrite signal hm⟩

/-- A run of the single-cycle core keeps the property. -/
theorem reached_single {c : Core M} {s : CoreSingle M} (hrun : Hart.Reached cfg c s)
    (h : inv c.mem) : inv s.core.mem := by
  obtain ⟨t, -, hrelated⟩ := hinv.relation.reached_single (.intro c ⟨rfl, h⟩) hrun
  obtain ⟨⟨hmem⟩, -, -⟩ := hrelated
  exact hmem.2

/-- A run of the pipelined core keeps the property. -/
theorem reached_pipelined {c : Core M} {s : CorePipelined M} (hrun : Hart.Reached cfg c s)
    (h : inv c.mem) : inv s.core.mem := by
  obtain ⟨t, -, hrelated⟩ := hinv.relation.reached_pipelined (.intro c ⟨rfl, h⟩) hrun
  obtain ⟨⟨hmem⟩, -⟩ := hrelated
  exact hmem.2

end StableMem

/-- A call as the core makes it: stores go through the data port. -/
def MemCall.Made : MemCall → Prop
  | .write port _ _ => port = .data
  | _ => True

/-- The calls of the core keep the property. -/
theorem StableMem.after {M : Type} [FrontendMemory M] {inv : M → Prop} (hinv : StableMem inv)
    {m : M} {calls : List MemCall} (h : inv m) (hmade : ∀ call ∈ calls, call.Made) :
    inv (MemCall.after m calls) := by
  refine MemCall.after_invariant h fun call hcall m hm => ?_
  have hcall := hmade call hcall
  cases call with
  | read port address size => exact hinv.read port address size hm
  | write port address bytes =>
    obtain rfl : port = .data := hcall
    exact hinv.write address bytes hm
  | sync port => exact hinv.sync port hm
  | sfenceVma port vaddr asid => exact hinv.sfenceVma port vaddr asid hm
  | csrWrite signal => exact hinv.onCsrWrite signal hm

def CoreSingle.Makes {M : Type} [FrontendMemory M] (cfg : CoreConfig) (c : Core M)
    (calls : List MemCall) : Prop :=
  ∃ s : CoreSingle (Recorded M), Hart.Reached cfg (c.withMem (Recorded.start c.mem)) s ∧
    s.core.mem.calls = calls

def CorePipelined.Makes {M : Type} [FrontendMemory M] (cfg : CoreConfig) (c : Core M)
    (calls : List MemCall) : Prop :=
  ∃ s : CorePipelined (Recorded M), Hart.Reached cfg (c.withMem (Recorded.start c.mem)) s ∧
    s.core.mem.calls = calls

namespace Recorded

variable {M : Type} [FrontendMemory M] {cfg : CoreConfig} {c : Core M}

/-- The memory below the record is the start memory after the recorded calls. -/
def Faithful (m : M) (r : Recorded M) : Prop :=
  r.mem = MemCall.after m r.calls ∧ ∀ call ∈ r.calls, call.Made

theorem Faithful.record {m m' : M} {r : Recorded M} {call : MemCall} (h : Faithful m r)
    (hmade : call.Made) (hmem : m' = call.on r.mem) : Faithful m ⟨m', r.calls ++ [call]⟩ := by
  refine ⟨?_, fun call' hcall => ?_⟩
  · rw [hmem, h.1]
    exact (MemCall.after_concat m r.calls call).symm
  · rcases List.mem_append.mp hcall with hold | hnew
    · exact h.2 call' hold
    · rw [List.mem_singleton.mp hnew]
      exact hmade

theorem stable_faithful (m : M) : StableMem (Faithful m) where
  read port address size r h := @Faithful.record M _ m _ r (.read port address size) h trivial rfl
  write address bytes r h := @Faithful.record M _ m _ r (.write .data address bytes) h rfl rfl
  sync port r h := @Faithful.record M _ m _ r (.sync port) h trivial rfl
  sfenceVma port vaddr asid r h :=
    @Faithful.record M _ m _ r (.sfenceVma port vaddr asid) h trivial rfl
  onCsrWrite signal r h := @Faithful.record M _ m _ r (.csrWrite signal) h trivial rfl

theorem faithful_start (m : M) : Faithful m (start m) :=
  ⟨rfl, fun _ hcall => absurd hcall List.not_mem_nil⟩

end Recorded

section Runs

variable {M : Type} [FrontendMemory M] {cfg : CoreConfig} {c : Core M} {calls : List MemCall}

theorem CoreSingle.Makes.made (h : CoreSingle.Makes cfg c calls) : ∀ call ∈ calls, call.Made := by
  obtain ⟨s, hrun, rfl⟩ := h
  exact ((Recorded.stable_faithful c.mem).reached_single hrun (Recorded.faithful_start c.mem)).2

theorem CorePipelined.Makes.made (h : CorePipelined.Makes cfg c calls) :
    ∀ call ∈ calls, call.Made := by
  obtain ⟨s, hrun, rfl⟩ := h
  exact ((Recorded.stable_faithful c.mem).reached_pipelined hrun (Recorded.faithful_start c.mem)).2

def CoreSingle.callsAfter (cfg : CoreConfig) (c : Core M) (n : Nat) : Option (List MemCall) :=
  (Hart.after cfg false n (CoreSingle.start (c.withMem (Recorded.start c.mem)))).map
    (·.core.mem.calls)

theorem CoreSingle.makes_callsAfter {n : Nat}
    (h : (CoreSingle.callsAfter cfg c n).isSome = true) :
    CoreSingle.Makes cfg c ((CoreSingle.callsAfter cfg c n).getD []) := by
  obtain ⟨calls, hcalls⟩ := Option.isSome_iff_exists.mp h
  obtain ⟨s, hs, rfl⟩ := Option.map_eq_some_iff.mp hcalls
  rw [hcalls]
  exact ⟨s, Hart.moves_of_after hs, rfl⟩

/-- Every state of a run has the memory of the calls that the run makes. -/
theorem CoreSingle.makes_of_reached {s : CoreSingle M} (hrun : Hart.Reached cfg c s) :
    ∃ calls, CoreSingle.Makes cfg c calls ∧ s.core.mem = MemCall.after c.mem calls := by
  obtain ⟨t, ht, hrelated⟩ := Recorded.relation.reached_single
    (.intro c (show (Recorded.start c.mem).mem = c.mem from rfl)) hrun
  have hfaithful := (Recorded.stable_faithful c.mem).reached_single ht
    (Recorded.faithful_start c.mem)
  refine ⟨t.core.mem.calls, ⟨t, ht, rfl⟩, ?_⟩
  rw [← hfaithful.1]
  obtain ⟨⟨hmem⟩, -, -⟩ := hrelated
  exact hmem.symm

/-- Every state of a run has the memory of the calls that the run makes. -/
theorem CorePipelined.makes_of_reached {s : CorePipelined M} (hrun : Hart.Reached cfg c s) :
    ∃ calls, CorePipelined.Makes cfg c calls ∧ s.core.mem = MemCall.after c.mem calls := by
  obtain ⟨t, ht, hrelated⟩ := Recorded.relation.reached_pipelined
    (.intro c (show (Recorded.start c.mem).mem = c.mem from rfl)) hrun
  have hfaithful := (Recorded.stable_faithful c.mem).reached_pipelined ht
    (Recorded.faithful_start c.mem)
  refine ⟨t.core.mem.calls, ⟨t, ht, rfl⟩, ?_⟩
  rw [← hfaithful.1]
  obtain ⟨⟨hmem⟩, -⟩ := hrelated
  exact hmem.symm

end Runs

end QtRvSim
