import QtRvSim.Core.Step
import QtRvSim.Library.RankedSimulation

/-!
# Retired instructions

An instruction retires when it passes the write-back stage without an exception.  What it shows
to the outside is its address, the register it writes and the memory bytes it has written.  Both
cores are machines that emit retired instructions and fail with simulator exceptions.
-/

namespace QtRvSim

open ByteMemory FrontendMemory RankedSimulation

/-- What a retired instruction shows to the outside; values are taken on XLEN bits. -/
structure RetiredInstruction where
  instAddr : Address
  destination : Option (RegisterId × BitVec 64)
  stored : List (Address × Byte)
deriving DecidableEq, Repr

/-- The bytes an access has written, told from its kind and the memory stage's view of it.  The
value read tells whether a store conditional took place, and the old value for an AMO. -/
def storedBytes (endian : Endian) (memctl : AccessControl) (i : MemoryInternalState) : List Byte :=
  if !i.memwrite then []
  else
    match memctl with
    | .i8 | .u8 => bytesOfValue endian 1 (i.memWriteVal.setWidth 8).toNat
    | .i16 | .u16 => bytesOfValue endian 2 (i.memWriteVal.setWidth 16).toNat
    | .i32 | .u32 => bytesOfValue endian 4 (i.memWriteVal.setWidth 32).toNat
    | .i64 | .u64 => bytesOfValue endian 8 i.memWriteVal.toNat
    | .sc32 =>
      if i.memReadVal = 0 then bytesOfValue endian 4 (i.memWriteVal.setWidth 32).toNat else []
    | .sc64 => if i.memReadVal = 0 then bytesOfValue endian 8 i.memWriteVal.toNat else []
    | .amoswap32 | .amoadd32 | .amoxor32 | .amoand32 | .amoor32 | .amomin32 | .amomax32
    | .amominu32 | .amomaxu32 =>
      if i.memread then
        bytesOfValue endian 4 (Core.amo32Operations memctl (i.memReadVal.setWidth 32)
          (i.memWriteVal.setWidth 32)).toNat
      else []
    | .amoswap64 | .amoadd64 | .amoxor64 | .amoand64 | .amoor64 | .amomin64 | .amomax64
    | .amominu64 | .amomaxu64 =>
      if i.memread then
        bytesOfValue endian 8 (Core.amo64Operations memctl i.memReadVal i.memWriteVal).toNat
      else []
    | _ => []

/-- The instruction that leaves the memory stage, as it will retire. -/
def retiredInstruction (cfg : CoreConfig) (w : MemoryInterstage) (i : MemoryInternalState) :
    Option RetiredInstruction :=
  if w.isValid ∧ w.excause = .none then
    some
      { instAddr := w.instAddr
        destination :=
          if w.regwrite ∧ w.numRd ≠ 0 then some (w.numRd, w.towriteVal.asXlen cfg.xlen) else none
        stored := (storedBytes cfg.endian w.inst.memCtl i).mapIdx fun k b =>
          (w.memAddr + BitVec.ofNat 64 k, b) }
  else none

theorem retiredInstruction_withPrediction (cfg : CoreConfig) (w : MemoryInterstage)
    (i : MemoryInternalState) (predicted : Address) :
    retiredInstruction cfg (w.withPrediction predicted) i = retiredInstruction cfg w i := rfl

section FlatMemory

variable {cfg : CoreConfig} {c c' : Core FlatMemory}

end FlatMemory

variable {M : Type} [FrontendMemory M]

namespace CoreSingle

def machine (cfg : CoreConfig) (skipBreak : Bool) :
    Machine (CoreSingle M) RetiredInstruction SimulatorException where
  step s :=
    match step cfg skipBreak s with
    | (.ok (), s') => .ok (retiredInstruction cfg s'.pipeline.memWb s'.pipeline.memInternal, s')
    | (.error e, _) => .error e

def retired (cfg : CoreConfig) (skipBreak : Bool) (n : Nat) (s : CoreSingle M) :
    List RetiredInstruction :=
  (machine cfg skipBreak).outputs n s

end CoreSingle

namespace CorePipelined

def machine (cfg : CoreConfig) (skipBreak : Bool) :
    Machine (CorePipelined M) RetiredInstruction SimulatorException where
  step s :=
    match step cfg skipBreak s with
    | (.ok (), s') => .ok (retiredInstruction cfg s'.pipeline.memWb s'.pipeline.memInternal, s')
    | (.error e, _) => .error e

/-- Instructions retired in the first `n` steps.  A step begins with the write-back of the
instruction in the last stage register, also if one of the other stages then throws. -/
def retired (cfg : CoreConfig) (skipBreak : Bool) : Nat → CorePipelined M → List RetiredInstruction
  | 0, _ => []
  | n + 1, s =>
    (retiredInstruction cfg s.pipeline.memWb s.pipeline.memInternal).toList ++
      match step cfg skipBreak s with
      | (.ok (), s') => retired cfg skipBreak n s'
      | (.error _, _) => []

/-- Retirement runs one step behind the memory stage. -/
theorem retired_succ (cfg : CoreConfig) (skipBreak : Bool) (n : Nat) (s : CorePipelined M) :
    retired cfg skipBreak (n + 1) s =
      (retiredInstruction cfg s.pipeline.memWb s.pipeline.memInternal).toList ++
        (machine cfg skipBreak).outputs n s := by
  induction n generalizing s with
  | zero =>
    simp only [retired, Machine.outputs]
    split <;> rfl
  | succ n ih =>
    rw [retired, Machine.outputs]
    simp only [machine]
    cases hstep : step cfg skipBreak s with
    | mk result s' =>
      cases result with
      | ok u => exact congrArg _ (ih s')
      | error e => rfl

end CorePipelined

end QtRvSim
