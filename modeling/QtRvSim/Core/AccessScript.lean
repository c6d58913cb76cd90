import QtRvSim.Core.Stages

/-!
# The memory stage as a script of accesses

Every access of the memory stage is a short script of reads, writes and fences at one address, ended
by the first page fault.  Around the script the stage touches the reservation and the predictor
only.  What holds of a memory system along any script then holds of every memory instruction.
-/

namespace QtRvSim

open FrontendMemory ByteMemory Core

/-- Accesses at one address, up to the value the memory stage goes on with. -/
inductive AccessScript where
  | answer (value : RegisterValue)
  | read (size : Nat) (next : List Byte → AccessScript)
  | write (bytes : List Byte) (next : AccessScript)
  | sync (next : AccessScript)
  | sfenceVma (vaddr asid : BitVec 64) (next : AccessScript)

def accessSize : AccessControl → Nat
  | .lr32 | .sc32 | .amoswap32 | .amoadd32 | .amoxor32 | .amoand32 | .amoor32 | .amomin32
  | .amomax32 | .amominu32 | .amomaxu32 => 4
  | .lr64 | .sc64 | .amoswap64 | .amoadd64 | .amoxor64 | .amoand64 | .amoor64 | .amomin64
  | .amomax64 | .amominu64 | .amomaxu64 => 8
  | ctl => ctlSize ctl

namespace AccessScript

def readNumber (endian : Endian) (width : Nat) (next : BitVec width → AccessScript) :
    AccessScript :=
  .read (width / 8) fun bytes => next (BitVec.ofNat width (valueOfBytes endian bytes))

def writeNumber (endian : Endian) {width : Nat} (value : BitVec width) (next : AccessScript) :
    AccessScript :=
  .write (bytesOfValue endian (width / 8) value.toNat) next

def store (endian : Endian) (ctl : AccessControl) (value : RegisterValue) (next : AccessScript) :
    AccessScript :=
  match ctl with
  | .i8 | .u8 => writeNumber endian (value.setWidth 8) next
  | .i16 | .u16 => writeNumber endian (value.setWidth 16) next
  | .i32 | .u32 => writeNumber endian (value.setWidth 32) next
  | .i64 | .u64 => writeNumber endian value next
  | _ => next

def load (endian : Endian) : AccessControl → AccessScript
  | .i8 => readNumber endian 8 fun value => .answer (value.signExtend 64)
  | .u8 => readNumber endian 8 fun value => .answer (value.setWidth 64)
  | .i16 => readNumber endian 16 fun value => .answer (value.signExtend 64)
  | .u16 => readNumber endian 16 fun value => .answer (value.setWidth 64)
  | .i32 => readNumber endian 32 fun value => .answer (value.signExtend 64)
  | .u32 => readNumber endian 32 fun value => .answer (value.setWidth 64)
  | .i64 | .u64 => readNumber endian 64 .answer
  | _ => .answer 0

def modify (endian : Endian) (width : Nat) (extend : BitVec width → RegisterValue)
    (operation : BitVec width → BitVec width) : AccessScript :=
  readNumber endian width fun fetched =>
    writeNumber endian (operation fetched) (.answer (extend fetched))

/-- The script of an instruction's access; a store-conditional is told whether the reservation
covers its bytes. -/
def ofAccess (endian : Endian) (dt : ExecuteInterstage) (reserved : Bool) : AccessScript :=
  match dt.memctl with
  | .none => .answer dt.aluVal
  | .i8 | .u8 | .i16 | .u16 | .i32 | .u32 | .i64 | .u64 =>
    let loaded := if dt.memread then load endian dt.memctl else .answer dt.aluVal
    if dt.memwrite then store endian dt.memctl dt.valRt loaded else loaded
  | .cacheOp => .sync (.answer dt.aluVal)
  | .sfenceVma => .sfenceVma dt.aluVal dt.valRt (.answer dt.aluVal)
  | .lr32 =>
    if dt.memread then readNumber endian 32 fun value => .answer (value.signExtend 64)
    else .answer dt.aluVal
  | .lr64 => if dt.memread then readNumber endian 64 .answer else .answer dt.aluVal
  | .sc32 =>
    if !dt.memwrite then .answer dt.aluVal
    else if reserved then writeNumber endian (dt.valRt.setWidth 32) (.answer 0)
    else .answer 1
  | .sc64 =>
    if !dt.memwrite then .answer dt.aluVal
    else if reserved then writeNumber endian (dt.valRt.setWidth 64) (.answer 0)
    else .answer 1
  | .amoswap32 | .amoadd32 | .amoxor32 | .amoand32 | .amoor32 | .amomin32 | .amomax32
  | .amominu32 | .amomaxu32 =>
    if dt.memread && dt.memwrite then
      modify endian 32 (·.signExtend 64) (amo32Operations dt.memctl · (dt.valRt.setWidth 32))
    else .answer dt.aluVal
  | .amoswap64 | .amoadd64 | .amoxor64 | .amoand64 | .amoor64 | .amomin64 | .amomax64
  | .amominu64 | .amomaxu64 =>
    if dt.memread && dt.memwrite then
      modify endian 64 id (amo64Operations dt.memctl · (dt.valRt.setWidth 64))
    else .answer dt.aluVal

variable {M : Type} [FrontendMemory M]

/-- Runs a script at an address through the data port; the fences reach both ports. -/
def run (address : AddressWithMode) : AccessScript → M → Access M RegisterValue
  | .answer value, m => (.ok value, m)
  | .read size next, m =>
    match FrontendMemory.read .data address size m with
    | (.ok bytes, m) => (next bytes).run address m
    | (.error e, m) => (.error e, m)
  | .write bytes next, m =>
    match FrontendMemory.write .data address bytes m with
    | (.ok (), m) => next.run address m
    | (.error e, m) => (.error e, m)
  | .sync next, m => next.run address (FrontendMemory.sync .program (FrontendMemory.sync .data m))
  | .sfenceVma vaddr asid next, m =>
    next.run address
      (FrontendMemory.sfenceVma .program vaddr asid (FrontendMemory.sfenceVma .data vaddr asid m))

variable (endian : Endian) (address : AddressWithMode)

theorem run_load (ctl : AccessControl) (m : M) :
    (load endian ctl).run address m = readCtl endian ctl address m := by
  have hread {width : Nat} (extend : BitVec width → RegisterValue) :
      (readNumber endian width fun value => .answer (extend value)).run address m =
        mapAccess extend (readGeneric width endian .data address m) := by
    rw [readNumber, run, readGeneric]
    generalize FrontendMemory.read .data address (width / 8) m = r
    obtain ⟨result, m'⟩ := r
    cases result <;> rfl
  have hid {α : Type} (r : Access M α) : mapAccess id r = r := by
    obtain ⟨result, m'⟩ := r
    cases result <;> rfl
  cases ctl with
  | i64 | u64 => exact (hread id).trans (hid _)
  | i8 | u8 | i16 | u16 | i32 | u32 => exact hread _
  | _ => rfl

theorem run_store (ctl : AccessControl) (value : RegisterValue) (next : AccessScript) (m : M) :
    (store endian ctl value next).run address m =
      match writeCtl endian ctl address value m with
      | (.ok (), m) => next.run address m
      | (.error e, m) => (.error e, m) := by
  cases ctl <;> rfl

end AccessScript

namespace Core

variable {M : Type} (cfg : CoreConfig) (dt : ExecuteInterstage) (core : Core M)

def accessRange : AddressRange :=
  ⟨(memAddress cfg dt core).address,
    (memAddress cfg dt core).address + BitVec.ofNat 64 (accessSize dt.memctl - 1)⟩

def accessScript : AccessScript :=
  .ofAccess cfg.endian dt (core.loadReservedRange.contains (accessRange cfg dt core))

def reservationAfter (completed : Bool) : AddressRange :=
  match dt.memctl with
  | .lr32 | .lr64 => if dt.memread then accessRange cfg dt core else core.loadReservedRange
  | .sc32 | .sc64 => if dt.memwrite && completed then .empty else core.loadReservedRange
  | .sfenceVma => .empty
  | _ => core.loadReservedRange

/-- The predictor behind an access: the fences flush it. -/
def predictorAfter : BranchPredictor :=
  match dt.memctl with
  | .cacheOp | .sfenceVma => core.predictor.flush
  | _ => core.predictor

/-- The core behind an access that answered and left a memory system. -/
def accessed (r : Access M RegisterValue) : Access (Core M) RegisterValue :=
  (r.1, { core with
    mem := r.2
    predictor := predictorAfter dt core
    loadReservedRange := reservationAfter cfg dt core r.1.isOk })

variable [FrontendMemory M] {cfg dt core}

section Parts

variable {memAddr : AddressWithMode} {width : Nat}

theorem loadReserved_eq {extend : BitVec width → RegisterValue} :
    loadReserved cfg width extend memAddr core =
      let r := (AccessScript.readNumber cfg.endian width fun value =>
        .answer (extend value)).run memAddr core.mem
      (r.1, { core with
        mem := r.2
        loadReservedRange :=
          ⟨memAddr.address, memAddr.address + BitVec.ofNat 64 (width / 8 - 1)⟩ }) := by
  rw [AccessScript.readNumber, AccessScript.run, loadReserved, readGeneric]
  generalize FrontendMemory.read .data memAddr (width / 8) core.mem = r
  obtain ⟨result, m⟩ := r
  cases result <;> rfl

theorem storeConditional_eq {rtValue : RegisterValue} :
    storeConditional cfg width rtValue memAddr core =
      let reserved := core.loadReservedRange.contains
        ⟨memAddr.address, memAddr.address + BitVec.ofNat 64 (width / 8 - 1)⟩
      let r := (if reserved then
          AccessScript.writeNumber cfg.endian (rtValue.setWidth width) (.answer 0)
        else .answer 1).run memAddr core.mem
      (r.1, { core with
        mem := r.2
        loadReservedRange := if r.1.isOk then .empty else core.loadReservedRange }) := by
  rw [storeConditional]
  dsimp only
  split
  · rw [AccessScript.writeNumber, AccessScript.run, writeGeneric]
    generalize FrontendMemory.write .data memAddr _ core.mem = r
    obtain ⟨result, m⟩ := r
    cases result <;> rfl
  · rfl

theorem amoModify_eq {extend : BitVec width → RegisterValue}
    {operation : BitVec width → BitVec width → BitVec width} {rtValue : RegisterValue} :
    amoModify cfg width extend operation rtValue memAddr core =
      let r := (AccessScript.modify cfg.endian width extend
        (operation · (rtValue.setWidth width))).run memAddr core.mem
      (r.1, { core with mem := r.2 }) := by
  rw [AccessScript.modify, AccessScript.readNumber, AccessScript.run, amoModify, readGeneric]
  generalize FrontendMemory.read .data memAddr (width / 8) core.mem = r
  obtain ⟨result, m⟩ := r
  cases result with
  | error fault => rfl
  | ok bytes =>
    dsimp only
    rw [AccessScript.writeNumber, AccessScript.run, writeGeneric]
    generalize FrontendMemory.write .data memAddr _ m = r
    obtain ⟨result, m'⟩ := r
    cases result <;> rfl

theorem regularAccess_eq :
    regularAccess cfg dt memAddr core =
      let loaded := if dt.memread then .load cfg.endian dt.memctl else .answer dt.aluVal
      let r := (if dt.memwrite then
          AccessScript.store cfg.endian dt.memctl dt.valRt loaded else loaded).run memAddr core.mem
      (r.1, { core with mem := r.2 }) := by
  have hloaded (m : M) :
      (if dt.memread then AccessScript.load cfg.endian dt.memctl
          else .answer dt.aluVal).run memAddr m =
        if dt.memread then readCtl cfg.endian dt.memctl memAddr m else (.ok dt.aluVal, m) := by
    split
    · exact AccessScript.run_load _ _ _ _
    · rfl
  rw [regularAccess]
  cases dt.memwrite with
  | false => exact congrArg (fun r => (r.1, { core with mem := r.2 })) (hloaded core.mem).symm
  | true =>
    dsimp only
    rw [if_pos rfl, if_pos rfl, AccessScript.run_store]
    generalize writeCtl cfg.endian dt.memctl memAddr dt.valRt core.mem = r
    obtain ⟨result, m⟩ := r
    cases result with
    | error fault => rfl
    | ok =>
      dsimp only
      rw [hloaded]

end Parts

/-- The memory stage runs its script. -/
theorem performAccess_eq : performAccess cfg dt core =
    accessed cfg dt core ((accessScript cfg dt core).run (memAddress cfg dt core) core.mem) := by
  unfold performAccess accessed accessScript AccessScript.ofAccess reservationAfter predictorAfter
    accessRange
  cases hctl : dt.memctl with
  | none => rfl
  | i8 | u8 | i16 | u16 | i32 | u32 | i64 | u64 =>
    have hregular := @regularAccess_eq M cfg dt core _ (memAddress cfg dt core)
    rwa [hctl] at hregular
  | cacheOp | sfenceVma => rfl
  | lr32 | lr64 =>
    cases hread : dt.memread with
    | false => rfl
    | true => exact loadReserved_eq
  | sc32 | sc64 =>
    cases hwrite : dt.memwrite with
    | false => rfl
    | true => exact storeConditional_eq
  | _ =>
    cases hread : dt.memread with
    | false => rfl
    | true =>
      cases hwrite : dt.memwrite with
      | false => rfl
      | true => exact amoModify_eq

end Core

end QtRvSim
