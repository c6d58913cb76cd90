import QtRvSim.Core.Reset
import QtRvSim.Core.StageOrigin

/-!
# The reservation of load-reserved and store-conditional

The reservation is what the last load-reserved has set, unless a store-conditional, a trap, a return
from a trap, `sfence.vma` or a reset came after it.  A store-conditional compares its bytes with the
two ends of the reservation, which misses a reservation that wraps around the address space.
-/

namespace QtRvSim

open Csr ControlState Core FrontendMemory AddressRange
open BitVec (ofNat toNat le_def)

variable {M : Type} [FrontendMemory M] {cfg : CoreConfig} {skipBreak : Bool}

/-! ### Events -/

inductive AmoSize where
  | word
  | double
deriving DecidableEq, Repr

def AmoSize.bytes : AmoSize → Nat
  | .word => 4
  | .double => 8

inductive ReservationEvent where
  | loadReserved (address : Address) (size : AmoSize)
  | storeConditional
  | trap
  | xret
  | sfenceVma
  | reset
deriving DecidableEq, Repr

/-- The reservation behind a history of events, the last one first. -/
def reservationOf : List ReservationEvent → AddressRange
  | .loadReserved address size :: _ => ⟨address, address + BitVec.ofNat 64 (size.bytes - 1)⟩
  | _ => .empty

def specialEvent (memctl : AccessControl) (memread memwrite : Bool) (address : Address) :
    List ReservationEvent :=
  match memctl with
  | .lr32 => if memread then [.loadReserved address .word] else []
  | .lr64 => if memread then [.loadReserved address .double] else []
  | .sc32 | .sc64 => if memwrite then [.storeConditional] else []
  | .sfenceVma => [.sfenceVma]
  | _ => []

/-- The event of an instruction's access; an instruction with an exception makes none. -/
def accessEvent (cfg : CoreConfig) (e : ExecuteInterstage) : List ReservationEvent :=
  if e.excause ≠ .none then []
  else specialEvent e.memctl e.memread e.memwrite (cfg.getXlenFromReg e.aluVal)

def xretEvent (e : ExecuteInterstage) : List ReservationEvent :=
  if e.isValid && e.excause = .none && e.xret then [.xret] else []

/-- A trap is handled if it is delivered to a mode; a break point that stops the machine is none. -/
def trapEvent (cfg : CoreConfig) (call : Option (TrapCall M)) : List ReservationEvent :=
  if call.any (fun t => delivers cfg t.excause) then [.trap] else []

def stepEvents (cfg : CoreConfig) (e : ExecuteInterstage) (call : Option (TrapCall M)) :
    List ReservationEvent :=
  trapEvent cfg call ++ xretEvent e ++ accessEvent cfg e

/-! ### The stages -/

theorem PageFault.delivers_cause (fault : PageFault) (cfg : CoreConfig) :
    delivers cfg fault.cause = true := by
  obtain ⟨_, _, op⟩ := fault
  cases op <;> rfl

variable {events : List ReservationEvent}

theorem performAccess_reservation {e : ExecuteInterstage} {c c' : Core M} {value : RegisterValue}
    (h : performAccess cfg e c = (.ok value, c'))
    (hc : c.loadReservedRange = reservationOf events) :
    c'.loadReservedRange = reservationOf
      (specialEvent e.memctl e.memread e.memwrite (cfg.getXlenFromReg e.aluVal) ++ events) := by
  rw [performAccess_eq] at h
  obtain ⟨hok, rfl⟩ := Prod.mk.inj h
  show reservationAfter cfg e c (Except.isOk _) = _
  rw [hok]
  unfold reservationAfter specialEvent accessRange
  cases e.memctl with
  | lr32 | lr64 =>
    cases e.memread with
    | false => exact hc
    | true => rfl
  | sc32 | sc64 =>
    cases e.memwrite with
    | false => exact hc
    | true => rfl
  | sfenceVma => rfl
  | _ => exact hc

/-- The reservation behind the access of an instruction, unless the access raises a page fault. -/
theorem memoryAccess_reservation {events : List ReservationEvent} (e : ExecuteInterstage)
    {c : Core M} (hc : c.loadReservedRange = reservationOf events) :
    (memoryAccess cfg e c).2.loadReservedRange = reservationOf (accessEvent cfg e ++ events) ∨
      (memoryAccess cfg e c).1.excause ≠ .none ∧
        delivers cfg (memoryAccess cfg e c).1.excause = true := by
  unfold memoryAccess accessEvent
  split
  · exact .inl hc
  · cases haccess : performAccess cfg e c with
    | mk result c' =>
      cases result with
      | error fault => exact .inr ⟨getCurrentCause_ne_none _, fault.delivers_cause cfg⟩
      | ok value => exact .inl (performAccess_reservation haccess hc)

variable {e : ExecuteInterstage} {c c' : Core M}

theorem memoryCsrWrite_reservation {written : Bool} (h : memoryCsrWrite cfg e c = (.ok written, c'))
    : c'.loadReservedRange = c.loadReservedRange := by
  unfold memoryCsrWrite at h
  split at h
  · split at h
    · cases h
      rfl
    · cases h
  · cases h
    rfl

theorem memoryCsr_reservation {computed : Address} {csr : CsrResult}
    (h : memoryCsr cfg e computed c = (.ok csr, c'))
    (hc : c.loadReservedRange = reservationOf events) :
    c'.loadReservedRange = reservationOf (xretEvent e ++ events) := by
  unfold memoryCsr at h
  unfold xretEvent
  dsimp only at h
  split at h
  next hactive =>
    rw [hactive, Bool.true_and]
    split at h
    next => cases h
    next written c₁ hwrite =>
      have hkeep := memoryCsrWrite_reservation hwrite
      split at h
      next hxret =>
        cases h
        rw [if_pos hxret]
        rfl
      next hxret =>
        cases h
        rw [if_neg hxret]
        exact hkeep.trans hc
  next hidle =>
    cases h
    rw [Bool.eq_false_iff.mpr hidle]
    exact hc

omit [FrontendMemory M] in
theorem countMisprediction_reservation (computed predicted : Address) (c : Core M) :
    (countMisprediction computed predicted c).loadReservedRange = c.loadReservedRange := by
  unfold countMisprediction
  split <;> rfl

/-- The reservation behind the memory stage, unless the access raises a page fault. -/
theorem memory_reservation {r : MemoryInterstage × MemoryInternalState}
    (h : memory cfg e c = (.ok r, c')) (hc : c.loadReservedRange = reservationOf events) :
    c'.loadReservedRange = reservationOf (xretEvent e ++ accessEvent cfg e ++ events) ∨
      r.1.excause ≠ .none ∧ delivers cfg r.1.excause = true := by
  obtain ⟨csr, c₁, hcsr, rfl, rfl⟩ := memory_ok h
  rcases @memoryAccess_reservation M _ cfg events e c hc with haccess | hfault
  · left
    rw [countMisprediction_reservation, List.append_assoc]
    exact memoryCsr_reservation hcsr haccess
  · exact .inr hfault

/-! ### Runs -/

/-- The exception entry clears the reservation exactly if it delivers the trap. -/
theorem StepEnd.reservation {call : Option (TrapCall M)} {raised : ExceptionCause}
    (hend : StepEnd cfg call raised c (.ok ()) c') :
    (raised ≠ .none → call.map (·.excause) = some raised) ∧
      c'.loadReservedRange =
        if call.any (fun t => delivers cfg t.excause) then .empty else c.loadReservedRange := by
  cases hend with
  | plain hcall hraised =>
    rw [hcall]
    exact ⟨fun h => absurd (hraised rfl) h, rfl⟩
  | trap t hcall hexcause regs hcore hhandle hresult =>
    have hkeep : t.core.loadReservedRange = c.loadReservedRange := by rw [hcore]
    have heffect := @TrapCall.handle_effect M _ cfg t
    rw [hhandle] at heffect
    rw [hcall, Option.map_some, Option.any_some]
    refine ⟨fun _ => congrArg some hexcause, ?_⟩
    cases heffect with
    | thrown => cases hresult
    | stopped hstops =>
      rw [hstops]
      exact hkeep
    | delivered hdelivers => rw [if_pos hdelivers]

/-- The instruction that a core hands to the memory stage has been executed. -/
class ExecutedEntering (σ : Type) {M : outParam Type} [FrontendMemory M] [Hart σ M]
    [MemoryStage σ M] : Prop where
  origin {cfg : CoreConfig} {skipBreak : Bool} {c₀ : Core M} {s : σ} {e : ExecuteInterstage}
    {c : Core M} (hrun : Hart.Reached cfg c₀ s)
    (hentering : MemoryStage.entering cfg skipBreak s = some (e, c)) :
    ∃ privilege, Executed cfg privilege e

instance : ExecutedEntering (CoreSingle M) where
  origin _ hentering := by
    obtain ⟨d, hdecode, rfl, -⟩ := CoreSingle.entering_some hentering
    exact ⟨_, .inr ⟨d, decode_decoded (fetch_fetched _ _ _) hdecode, rfl⟩⟩

instance : ExecutedEntering (CorePipelined M) where
  origin hrun hentering := by
    obtain ⟨rfl, rfl⟩ := Prod.mk.inj (Option.some.inj hentering)
    exact ⟨_, ((origin_stageInvariant _ _).reached hrun).exMem⟩

omit [FrontendMemory M] in
/-- `Core::reset` without the pipeline. -/
def Core.resetState (c : Core M) : Core M :=
  { c with
    cycleCount := 0
    stallCount := 0
    currentPrivilege := .machine
    loadReservedRange := .empty }

section Runs

variable {σ : Type} [Hart σ M] [MemoryStage σ M]

/-- A run from a reset with the events of its steps, the last one first. -/
inductive EventRun (cfg : CoreConfig) (c : Core M) : List ReservationEvent → σ → Prop where
  | start : EventRun cfg c [.reset] (Hart.start c.resetState)
  | step {events : List ReservationEvent} {s s' : σ} {e : ExecuteInterstage} {cₑ : Core M}
      (skipBreak : Bool) (hrun : EventRun cfg c events s)
      (hstep : Hart.step cfg skipBreak s = (.ok (), s'))
      (hentering : MemoryStage.entering cfg skipBreak s = some (e, cₑ)) :
      EventRun cfg c (stepEvents cfg e (Hart.trapCall cfg skipBreak s) ++ events) s'
  | interrupt {events : List ReservationEvent} {s : σ} (irqNum : Nat) (active : Bool)
      (hrun : EventRun cfg c events s) :
      EventRun cfg c events (Hart.setCore ((Hart.core s).setInterruptSignal irqNum active) s)
  | reset {events : List ReservationEvent} {s : σ} (hrun : EventRun cfg c events s) :
      EventRun cfg c (.reset :: events) (Hart.start (Hart.core s).resetState)

/-- Since its last reset, the run is a run from that reset. -/
theorem EventRun.reached {c : Core M} {events : List ReservationEvent} {s : σ}
    (hrun : EventRun cfg c events s) : ∃ c₀, Hart.Reached cfg c₀ s := by
  induction hrun with
  | start => exact ⟨_, .refl⟩
  | step skipBreak _ hstep _ ih =>
    obtain ⟨c₀, hreached⟩ := ih
    exact ⟨c₀, hreached.tail (.step skipBreak hstep)⟩
  | interrupt irqNum active _ ih =>
    obtain ⟨c₀, hreached⟩ := ih
    exact ⟨c₀, hreached.tail (.interrupt _ irqNum active)⟩
  | reset => exact ⟨_, .refl⟩

/-- The reservation is the one of the last event. -/
theorem EventRun.reservation [StagedHart σ] {c : Core M} {events : List ReservationEvent}
    {s : σ} (hrun : EventRun cfg c events s) :
    (Hart.core s).loadReservedRange = reservationOf events := by
  induction hrun with
  | start =>
    rw [StagedHart.start]
    rfl
  | interrupt irqNum active _ ih =>
    rw [StagedHart.setCore]
    exact ih
  | reset =>
    rw [StagedHart.start]
    rfl
  | @step events s s' e cₑ skipBreak _ hstep hentering ih =>
    obtain ⟨e', c, r, c₁, c₂, hentering', hmemory, haside, hend⟩ := StagedHart.step hstep
    cases hentering.symm.trans hentering'
    obtain ⟨hraised, hreservation⟩ := hend.reservation
    rw [hreservation, haside.reservation, stepEvents, trapEvent]
    cases hcall : (Hart.trapCall cfg skipBreak s).any (fun t => delivers cfg t.excause) with
    | true => rfl
    | false =>
      -- a page fault would have been delivered
      rcases memory_reservation hmemory ((StagedHart.entering hentering).reservation.trans ih) with
        hkeep | ⟨hexcause, hfault⟩
      · exact hkeep
      · obtain ⟨t, ht, hcause⟩ := Option.map_eq_some_iff.mp (hraised hexcause)
        rw [ht, Option.any_some, hcause, hfault] at hcall
        cases hcall

end Runs

/-! ### The bytes of an access -/

/-- Every byte of the `n` from `x` on is one of the `m` from `a` on. -/
def Covers (a : Address) (m : Nat) (x : Address) (n : Nat) : Prop :=
  ∀ j < n, ∃ i < m, x + BitVec.ofNat 64 j = a + BitVec.ofNat 64 i

variable {a : Address}

theorem toNat_add_offset {i : Nat} (h : a.toNat + i < 2 ^ 64) :
    (a + ofNat 64 i).toNat = a.toNat + i := by
  rw [BitVec.toNat_add, BitVec.toNat_ofNat]
  omega

variable {x : Address}

theorem covers_iff {m n : Nat} (hn : 0 < n) (ha : a.toNat + m ≤ 2 ^ 64)
    (hx : x.toNat + n ≤ 2 ^ 64) :
    Covers a m x n ↔ a.toNat ≤ x.toNat ∧ x.toNat + n ≤ a.toNat + m := by
  constructor
  · intro h
    obtain ⟨i, hi, hfirst⟩ := h 0 hn
    obtain ⟨k, hk, hlast⟩ := h (n - 1) (by omega)
    have hfirst' := congrArg toNat hfirst
    have hlast' := congrArg toNat hlast
    rw [toNat_add_offset (by omega), toNat_add_offset (by omega)] at hfirst' hlast'
    omega
  · rintro ⟨hfirst, hlast⟩ j hj
    refine ⟨x.toNat + j - a.toNat, by omega, ?_⟩
    rw [← BitVec.toNat_inj, toNat_add_offset (by omega), toNat_add_offset (by omega)]
    omega

/-- The two ends of a reservation enclose an access that does not wrap around exactly if the
reservation does not wrap around and covers the bytes of the access. -/
theorem AddressRange.contains_iff {m n : Nat} (hm : 0 < m) (hm' : m ≤ 2 ^ 64) (hn : 0 < n)
    (hx : x.toNat + n ≤ 2 ^ 64) :
    contains ⟨a, a + ofNat 64 (m - 1)⟩ ⟨x, x + ofNat 64 (n - 1)⟩ =
        true ↔
      a.toNat + m ≤ 2 ^ 64 ∧ Covers a m x n := by
  have hlast : (x + ofNat 64 (n - 1)).toNat = x.toNat + (n - 1) :=
    toNat_add_offset (by omega)
  have hend : (a + ofNat 64 (m - 1)).toNat = (a.toNat + (m - 1)) % 2 ^ 64 := by
    rw [BitVec.toNat_add, BitVec.toNat_ofNat, Nat.add_mod_mod]
  have ha := a.isLt
  rw [contains, Bool.and_eq_true, decide_eq_true_iff, decide_eq_true_iff]
  dsimp only
  rw [le_def, le_def, hlast, hend]
  by_cases hwrap : a.toNat + m ≤ 2 ^ 64
  · rw [covers_iff hn hwrap hx]
    omega
  · constructor
    · rintro ⟨hfirst, hle⟩
      omega
    · exact fun h => absurd h.1 hwrap

/-! ### Store-conditional -/

def AmoSize.width : AmoSize → Nat
  | .word => 32
  | .double => 64

def scSize : AccessControl → Option AmoSize
  | .sc32 => some .word
  | .sc64 => some .double
  | _ => none

/-- The last event is a load-reserved whose bytes cover those of the access. -/
def Reserves : List ReservationEvent → Address → AmoSize → Prop
  | .loadReserved a size :: _, x, n => Covers a size.bytes x n.bytes
  | _, _, _ => False

/-- The last event is a load-reserved that wraps around the address space. -/
def Wraps : List ReservationEvent → Prop
  | .loadReserved a size :: _ => 2 ^ 64 < a.toNat + size.bytes
  | _ => False

theorem add_le_of_aligned (size : AmoSize) (h : x.toNat % size.bytes = 0) :
    x.toNat + size.bytes ≤ 2 ^ 64 := by
  have hx := x.isLt
  cases size with
  | word =>
    change x.toNat % 4 = 0 at h
    change x.toNat + 4 ≤ 2 ^ 64
    omega
  | double =>
    change x.toNat % 8 = 0 at h
    change x.toNat + 8 ≤ 2 ^ 64
    omega

theorem reservationOf_contains_iff (events : List ReservationEvent) (size : AmoSize)
    (haligned : x.toNat % size.bytes = 0) :
    (reservationOf events).contains ⟨x, x + ofNat 64 (size.bytes - 1)⟩ = true ↔
      Reserves events x size ∧ ¬Wraps events := by
  have hx := add_le_of_aligned size haligned
  have hbytes (n : AmoSize) : 1 < n.bytes ∧ n.bytes ≤ 2 ^ 64 := by cases n <;> decide
  have hempty : ¬empty.contains ⟨x, x + ofNat 64 (size.bytes - 1)⟩ = true := by
    rw [contains, Bool.and_eq_true, decide_eq_true_iff, decide_eq_true_iff]
    dsimp only
    have hsize := (hbytes size).1
    rw [le_def, le_def, toNat_add_offset (by omega)]
    rintro ⟨-, hlast⟩
    change x.toNat + (size.bytes - 1) ≤ 0 at hlast
    omega
  cases events with
  | nil => exact iff_of_false hempty fun h => h.1
  | cons event _ =>
    cases event with
    | loadReserved a n =>
      rw [reservationOf, Reserves, Wraps,
        contains_iff (Nat.zero_lt_of_lt (hbytes n).1) (hbytes n).2
          (Nat.zero_lt_of_lt (hbytes size).1) hx, Nat.not_lt, and_comm]
    | storeConditional | trap | xret | sfenceVma | reset =>
      exact iff_of_false hempty fun h => h.1

/-- The instruction writes its bytes and returns zero. -/
def ScSucceeds (cfg : CoreConfig) (size : AmoSize) (e : ExecuteInterstage) (c : Core M)
    (w : MemoryInterstage) : Prop :=
  w.towriteVal = 0 ∧
    writeGeneric cfg.endian .data (memAddress cfg e c) (e.valRt.setWidth size.width) c.mem =
      (.ok (), (memoryAccess cfg e c).2.mem)

/-- The instruction leaves the memory and returns one. -/
def ScFails (cfg : CoreConfig) (e : ExecuteInterstage) (c : Core M) (w : MemoryInterstage) : Prop :=
  w.towriteVal = 1 ∧ (memoryAccess cfg e c).2.mem = c.mem

section Table

open InstructionFlags InstructionMap

theorem Instruction.sc_flags {inst : Instruction} {size : AmoSize}
    (hsize : scSize inst.memCtl = some size) :
    inst.flags.has .memwrite = true ∧ inst.flags.has .csr = false ∧
      inst.flags.has .branchJalr = false ∧ inst.flags.has .jump = false := by
  have h : ∀ a ∈ root.entries, (scSize a.memCtl).isSome = true →
      a.flags.has memwrite = true ∧ a.flags.has csr = false ∧ a.flags.has branchJalr = false ∧
        a.flags.has jump = false := by
    decide +kernel
  exact find_of_entries h (by decide) inst (Option.isSome_of_eq_some hsize)

end Table

/-- A store-conditional of the table writes memory and returns the value of the access. -/
theorem Core.Executed.sc {privilege : PrivilegeLevel} (h : Executed cfg privilege e)
    {size : AmoSize} (hsize : scSize e.memctl = some size) :
    e.memwrite = true ∧ ∀ value, selectTowriteVal e value = value := by
  rcases h with rfl | ⟨d, hdecoded, rfl⟩
  · cases hsize
  · cases hdecoded with
    | empty => cases hsize
    | @inst f _ csrReadVal valRs valRt =>
      obtain ⟨hwrite, hcsr, hjalr, hjal⟩ := Instruction.sc_flags hsize
      refine ⟨hwrite, fun value => ?_⟩
      show (if f.inst.flags.has .csr then _
        else if f.inst.flags.has .branchJalr || f.inst.flags.has .jump then _ else value) = value
      rw [hcsr, hjalr, hjal]
      rfl

theorem performAccess_sc {size : AmoSize} {e : ExecuteInterstage}
    (hsize : scSize e.memctl = some size) (hwrite : e.memwrite = true) (c : Core M) :
    performAccess cfg e c =
      storeConditional cfg size.width e.valRt (memAddress cfg e c) c := by
  revert hsize
  unfold performAccess memorySpecial
  rw [hwrite]
  cases e.memctl <;> intro hsize <;> cases hsize <;> rfl

theorem storeConditional_of_reserved {width : Nat} {rtValue value : RegisterValue}
    {memAddr : AddressWithMode}
    (hreserved : c.loadReservedRange.contains ⟨memAddr.address, memAddr.address + ofNat 64
      (width / 8 - 1)⟩ = true) (h : storeConditional cfg width rtValue memAddr c = (.ok value, c'))
    :
    value = 0 ∧
      writeGeneric cfg.endian .data memAddr (rtValue.setWidth width) c.mem = (.ok (), c'.mem) := by
  rw [storeConditional, if_pos hreserved] at h
  split at h
  next mem hwrite =>
    cases h
    exact ⟨rfl, hwrite⟩
  next => cases h

theorem storeConditional_of_not_reserved {width : Nat} {rtValue : RegisterValue}
    {memAddr : AddressWithMode}
    (hreserved : ¬c.loadReservedRange.contains ⟨memAddr.address, memAddr.address + ofNat 64
      (width / 8 - 1)⟩ = true) :
    storeConditional cfg width rtValue memAddr c =
      (.ok 1, { c with loadReservedRange := .empty }) := by
  rw [storeConditional, if_neg hreserved]

/-- The memory stage with a store-conditional that raises no exception. -/
theorem memory_sc {privilege : PrivilegeLevel} (hexecuted : Executed cfg privilege e)
    {size : AmoSize} (hsize : scSize e.memctl = some size)
    {r : MemoryInterstage × MemoryInternalState} (hmemory : memory cfg e c = (.ok r, c'))
    (hok : r.1.excause = .none) :
    if c.loadReservedRange.contains
        ⟨cfg.getXlenFromReg e.aluVal,
          cfg.getXlenFromReg e.aluVal + ofNat 64 (size.bytes - 1)⟩ = true then
      ScSucceeds cfg size e c r.1
    else ScFails cfg e c r.1 := by
  obtain ⟨hwrite, hselect⟩ := hexecuted.sc hsize
  obtain ⟨csr, c₁, -, rfl, -⟩ := memory_ok hmemory
  have hnone : e.excause = .none := memoryAccess_excause hok
  have hbytes : size.width / 8 = size.bytes := by cases size <;> rfl
  have hvalue : (memoryInterstage e (memAddress cfg e c).address (memoryAccess cfg e c).1
      csr).1.towriteVal = (memoryAccess cfg e c).1.towriteVal := hselect _
  rw [ScSucceeds, ScFails, hvalue]
  change (memoryAccess cfg e c).1.excause = .none at hok
  rw [memoryAccess, if_neg (not_not.mpr hnone)] at hok ⊢
  have haccess := @performAccess_sc M _ cfg size e hsize hwrite c
  rw [← hbytes]
  generalize performAccess cfg e c = access at hok haccess ⊢
  obtain ⟨result, c₂⟩ := access
  cases result with
  | error fault => exact absurd hok (getCurrentCause_ne_none _)
  | ok value =>
    split
    next hreserved => exact storeConditional_of_reserved hreserved haccess.symm
    next hreserved =>
      rw [storeConditional_of_not_reserved hreserved] at haccess
      cases haccess
      exact ⟨rfl, rfl⟩

/-- A store-conditional behind a history of events writes and returns zero if the last event is a
load-reserved that covers its bytes, and otherwise it does nothing and returns one. -/
def ScFollows (cfg : CoreConfig) (size : AmoSize) (events : List ReservationEvent)
    (e : ExecuteInterstage) (c : Core M) (w : MemoryInterstage) : Prop :=
  (Reserves events (cfg.getXlenFromReg e.aluVal) size → ScSucceeds cfg size e c w) ∧
    (¬Reserves events (cfg.getXlenFromReg e.aluVal) size → ScFails cfg e c w)

section Runs

variable {σ : Type} [Hart σ M] [MemoryStage σ M] [StagedHart σ] [ExecutedEntering σ]

theorem EventRun.scFollows_iff {c cₑ c' : Core M} {events : List ReservationEvent} {s : σ}
    {e : ExecuteInterstage} {r : MemoryInterstage × MemoryInternalState} {size : AmoSize}
    (hrun : EventRun cfg c events s)
    (hentering : MemoryStage.entering cfg skipBreak s = some (e, cₑ))
    (hmemory : memory cfg e cₑ = (.ok r, c')) (hsize : scSize e.memctl = some size)
    (hok : r.1.excause = .none)
    (haligned : (cfg.getXlenFromReg e.aluVal).toNat % size.bytes = 0) :
    ScFollows cfg size events e cₑ r.1 ↔
      ¬(Reserves events (cfg.getXlenFromReg e.aluVal) size ∧ Wraps events) := by
  obtain ⟨c₀, hreached⟩ := hrun.reached
  obtain ⟨privilege, hexecuted⟩ := ExecutedEntering.origin hreached hentering
  have hresult := memory_sc hexecuted hsize hmemory hok
  rw [(StagedHart.entering hentering).reservation] at hresult
  change if (Hart.core s).loadReservedRange.contains _ = true then _ else _ at hresult
  rw [hrun.reservation] at hresult
  have hcontains := reservationOf_contains_iff events size haligned
  by_cases hreserves : Reserves events (cfg.getXlenFromReg e.aluVal) size
  · by_cases hwraps : Wraps events
    · rw [if_neg (mt hcontains.mp fun h => h.2 hwraps)] at hresult
      refine iff_of_false (fun h => ?_) (not_not.mpr ⟨hreserves, hwraps⟩)
      exact absurd (hresult.1.symm.trans (h.1 hreserves).1) (by decide)
    · rw [if_pos (hcontains.mpr ⟨hreserves, hwraps⟩)] at hresult
      exact iff_of_true ⟨fun _ => hresult, fun h => absurd hreserves h⟩ fun h => hwraps h.2
  · rw [if_neg (mt hcontains.mp fun h => hreserves h.1)] at hresult
    exact iff_of_true ⟨fun h => absurd h hreserves, fun _ => hresult⟩ fun h => hreserves h.1

omit [StagedHart σ] [ExecutedEntering σ] in
/-- A run goes on by one step. -/
theorem EventRun.next {c : Core M} {events : List ReservationEvent} {s : σ}
    (hrun : EventRun cfg c events s) (new : List ReservationEvent)
    (hok : (Hart.step cfg false s).1.isOk = true)
    (hentering : (MemoryStage.entering cfg false s).map
      (fun x => stepEvents cfg x.1 (Hart.trapCall cfg false s)) = some new) :
    EventRun cfg c (new ++ events) (Hart.step cfg false s).2 := by
  obtain ⟨⟨e, cₑ⟩, hgiven, rfl⟩ := Option.map_eq_some_iff.mp hentering
  exact hrun.step false (Hart.step_of_isOk hok) hgiven

omit [Hart σ M] [StagedHart σ] [ExecutedEntering σ] in
/-- The store-conditional of the next step, from the values it has. -/
theorem entering_sc {s : σ} {size : AmoSize} {address : Address} {value : RegisterValue}
    (h : (MemoryStage.entering cfg false s).map (fun x =>
      (scSize x.1.memctl, cfg.getXlenFromReg x.1.aluVal,
        (memory cfg x.1 x.2).1.map fun r => (r.1.excause, r.1.towriteVal))) =
      some (some size, address, .ok (.none, value))) :
    ∃ e cₑ r c', MemoryStage.entering cfg false s = some (e, cₑ) ∧
      memory cfg e cₑ = (.ok r, c') ∧ scSize e.memctl = some size ∧ r.1.excause = .none ∧
      cfg.getXlenFromReg e.aluVal = address ∧ r.1.towriteVal = value := by
  obtain ⟨⟨e, cₑ⟩, hentering, hfields⟩ := Option.map_eq_some_iff.mp h
  simp only [Prod.mk.injEq] at hfields
  obtain ⟨hsize, haddress, hresult⟩ := hfields
  cases hmemory : memory cfg e cₑ with
  | mk result c' =>
    rw [hmemory] at hresult
    cases result with
    | error => cases hresult
    | ok r =>
      obtain ⟨hexcause, hvalue⟩ := Prod.mk.inj (Except.ok.inj hresult)
      exact ⟨e, cₑ, r, c', hentering, hmemory, hsize, hexcause, haddress, hvalue⟩

end Runs

/-- In every run of either core, a store-conditional at an aligned address that raises no exception
does what the last event asks for, exactly if that is no load-reserved that wraps around the address
space and covers its bytes. -/
theorem store_conditional_iff (cfg : CoreConfig) (c : Core M) :
    (∀ (s : CoreSingle M) events skipBreak e cₑ r c' size, EventRun cfg c events s →
        MemoryStage.entering cfg skipBreak s = some (e, cₑ) →
        memory cfg e cₑ = (.ok r, c') → scSize e.memctl = some size → r.1.excause = .none →
        (cfg.getXlenFromReg e.aluVal).toNat % size.bytes = 0 →
        (ScFollows cfg size events e cₑ r.1 ↔
          ¬(Reserves events (cfg.getXlenFromReg e.aluVal) size ∧ Wraps events))) ∧
      ∀ (s : CorePipelined M) events skipBreak e cₑ r c' size, EventRun cfg c events s →
        MemoryStage.entering cfg skipBreak s = some (e, cₑ) →
        memory cfg e cₑ = (.ok r, c') → scSize e.memctl = some size → r.1.excause = .none →
        (cfg.getXlenFromReg e.aluVal).toNat % size.bytes = 0 →
        (ScFollows cfg size events e cₑ r.1 ↔
          ¬(Reserves events (cfg.getXlenFromReg e.aluVal) size ∧ Wraps events)) :=
  ⟨fun _ _ _ _ _ _ _ _ hrun hentering hmemory hsize hok haligned =>
      hrun.scFollows_iff hentering hmemory hsize hok haligned,
    fun _ _ _ _ _ _ _ _ hrun hentering hmemory hsize hok haligned =>
      hrun.scFollows_iff hentering hmemory hsize hok haligned⟩

/-- A 64-bit core in front of instructions; `x2` is 0xbfffff00. -/
def amoCore (words : List Instruction) : Core FlatMemory :=
  .reset (.rv64 .none) (.default false) (.ofWords 0x200 words)

def amoState (words : List Instruction) : Nat → CoreSingle FlatMemory
  | 0 => Hart.start (amoCore words).resetState
  | n + 1 => (Hart.step (.rv64 .none) false (amoState words n)).2

/-- `lr.w x6, (x2)` and `sc.w x7, x8, (x2)`. -/
theorem store_conditional_iff_pair :
    ∃ e cₑ r c', MemoryStage.entering (.rv64 .none) false (amoState [0x1001232f, 0x188123af] 1) =
        some (e, cₑ) ∧
      memory (.rv64 .none) e cₑ = (.ok r, c') ∧ ScSucceeds (.rv64 .none) .word e cₑ r.1 := by
  have hrun : EventRun (.rv64 .none) (amoCore [0x1001232f, 0x188123af])
      [.loadReserved 0xbfffff00 .word, .reset] (amoState [0x1001232f, 0x188123af] 1) :=
    EventRun.next .start [.loadReserved 0xbfffff00 .word] (by decide +kernel) (by decide +kernel)
  obtain ⟨e, cₑ, r, c', hentering, hmemory, hsize, hok, haddress, -⟩ :=
    @entering_sc FlatMemory _ (.rv64 .none) (CoreSingle FlatMemory) _
      (amoState [0x1001232f, 0x188123af] 1) .word 0xbfffff00 0 (by decide +kernel)
  have hfollows := ((store_conditional_iff (.rv64 .none) _).1 _ _ _ _ _ _ _ _ hrun hentering
    hmemory hsize hok (by rw [haddress]; decide)).mpr fun h =>
      absurd (show 2 ^ 64 < (0xbfffff00 : Address).toNat + 4 from h.2) (by decide)
  refine ⟨e, cₑ, r, c', hentering, hmemory, hfollows.1 ?_⟩
  rw [haddress]
  exact fun j hj => ⟨j, hj, rfl⟩

/-- `addi x5, x0, -4`, `lr.d x6, (x5)` and `sc.w x7, x8, (x5)`: the load-reserved covers the bytes
of the store-conditional, which returns one. -/
theorem wrapping_reservation_missed :
    ∃ events e cₑ r c', EventRun (.rv64 .none) (amoCore [0xffc00293, 0x1002b32f, 0x1882a3af])
        events (amoState [0xffc00293, 0x1002b32f, 0x1882a3af] 2) ∧
      MemoryStage.entering (.rv64 .none) false
        (amoState [0xffc00293, 0x1002b32f, 0x1882a3af] 2) = some (e, cₑ) ∧
      memory (.rv64 .none) e cₑ = (.ok r, c') ∧ scSize e.memctl = some .word ∧
      r.1.excause = .none ∧ CoreConfig.getXlenFromReg (.rv64 .none) e.aluVal = 0xfffffffffffffffc ∧
      Reserves events 0xfffffffffffffffc .word ∧ r.1.towriteVal = 1 ∧
      ¬ScFollows (.rv64 .none) .word events e cₑ r.1 := by
  have hfirst : EventRun (.rv64 .none) (amoCore [0xffc00293, 0x1002b32f, 0x1882a3af])
      [.reset] (amoState [0xffc00293, 0x1002b32f, 0x1882a3af] 1) :=
    EventRun.next .start [] (by decide +kernel) (by decide +kernel)
  have hrun : EventRun (.rv64 .none) (amoCore [0xffc00293, 0x1002b32f, 0x1882a3af])
      [.loadReserved 0xfffffffffffffffc .double, .reset]
      (amoState [0xffc00293, 0x1002b32f, 0x1882a3af] 2) :=
    hfirst.next [.loadReserved 0xfffffffffffffffc .double] (by decide +kernel) (by decide +kernel)
  obtain ⟨e, cₑ, r, c', hentering, hmemory, hsize, hok, haddress, hvalue⟩ :=
    @entering_sc FlatMemory _ (.rv64 .none) (CoreSingle FlatMemory) _
      (amoState [0xffc00293, 0x1002b32f, 0x1882a3af] 2) .word 0xfffffffffffffffc 1
      (by decide +kernel)
  have hreserves : Reserves [.loadReserved 0xfffffffffffffffc .double, .reset]
      0xfffffffffffffffc .word := fun j hj => ⟨j, Nat.lt_trans hj (by decide), rfl⟩
  refine ⟨_, e, cₑ, r, c', hrun, hentering, hmemory, hsize, hok, haddress, hreserves, hvalue,
    fun hfollows => ?_⟩
  have hzero := (hfollows.1 (by rw [haddress]; exact hreserves)).1
  rw [hvalue] at hzero
  exact absurd hzero (by decide)

end QtRvSim
