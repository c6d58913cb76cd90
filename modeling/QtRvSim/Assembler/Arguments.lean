import QtRvSim.Library.SplitBitField
import QtRvSim.Machine.Instruction

/-!
# Operands of instructions

The descriptions of the operand letters (`arg_desc_list` of `instruction.cpp`), the relocations the
assembler leaves behind for operands it cannot evaluate yet, and the update of an instruction word
when the value of a relocation is known (`Instruction::update`).
-/

namespace QtRvSim

/-- Texts of the assembler.  Only ASCII letters, digits and white space are told apart. -/
abbrev Text := List Char

abbrev BitArg := SplitBitField

/-! ### Bit extraction of `bit_ops.h` -/

def getBit (val : BitVec 64) (bitIndex : Nat) : BitVec 64 :=
  (val >>> bitIndex) &&& 1

def getBitmask (start stop : Nat) : BitVec 64 :=
  BitVec.ofNat 64 (2 ^ (start - stop + 1) - 1) <<< stop

def maskBits (val : BitVec 64) (start stop : Nat) : BitVec 64 :=
  val &&& getBitmask start stop

def getBits (val : BitVec 64) (start stop : Nat) : BitVec 64 :=
  maskBits (val >>> stop) (start - stop) 0

def signExtendBits (val : BitVec 64) (size : Nat) : BitVec 64 :=
  (val <<< (64 - size)).sshiftRight (64 - size)

/-! ### Argument descriptions -/

/-- Kinds of operands, by the letters of the source: a general register, a number, the target of a
jump, the target of a branch, an offset and the number of a CSR. -/
inductive ArgumentKind where
  | g | n | a | p | o | e
deriving DecidableEq, Repr

/-- Description of an operand letter: its kind, the values it takes and its place in the word. -/
structure ArgumentDesc where
  name : Char
  kind : ArgumentKind
  min : Int
  max : Int
  arg : BitArg
deriving DecidableEq, Repr

namespace ArgumentDesc

/-- A value lies in the operand's range; the sign of the lower bound chooses the comparison. -/
def isValueInFieldRange (desc : ArgumentDesc) (val : RegisterValue) : Bool :=
  if desc.min < 0 then val.toInt ≤ desc.max && desc.min ≤ val.toInt
  else val.toNat ≤ desc.max.toNat && desc.min.toNat ≤ val.toNat

def isImm (desc : ArgumentDesc) : Bool :=
  desc.kind != .g

end ArgumentDesc

def argDescList : List ArgumentDesc := [
  ⟨'d', .g, 0, 0x1f, ⟨[⟨5, 7⟩], 0⟩⟩,
  ⟨'s', .g, 0, 0x1f, ⟨[⟨5, 15⟩], 0⟩⟩,
  ⟨'t', .g, 0, 0x1f, ⟨[⟨5, 20⟩], 0⟩⟩,
  ⟨'j', .n, -0x800, 0x7ff, ⟨[⟨12, 20⟩], 0⟩⟩,
  ⟨'>', .n, 0, 0x1f, ⟨[⟨5, 20⟩], 0⟩⟩,
  ⟨'a', .a, -0x80000, 0x7ffff, ⟨[⟨10, 21⟩, ⟨1, 20⟩, ⟨8, 12⟩, ⟨1, 31⟩], 1⟩⟩,
  ⟨'u', .n, 0, 0xfffff000, ⟨[⟨20, 12⟩], 0⟩⟩,
  ⟨'p', .p, -0x1000, 0x0fff, ⟨[⟨4, 8⟩, ⟨6, 25⟩, ⟨1, 7⟩, ⟨1, 31⟩], 1⟩⟩,
  ⟨'o', .o, -0x800, 0x7ff, ⟨[⟨12, 20⟩], 0⟩⟩,
  ⟨'q', .o, -0x800, 0x7ff, ⟨[⟨5, 7⟩, ⟨7, 25⟩], 0⟩⟩,
  ⟨'Z', .n, 0, 0x1f, ⟨[⟨5, 15⟩], 0⟩⟩,
  ⟨'E', .e, 0, 0xfff, ⟨[⟨12, 20⟩], 0⟩⟩]

/-- Description of a template character; characters without one stand for themselves. -/
def argDescByCode (code : Char) : Option ArgumentDesc :=
  argDescList.find? (·.name == code)

/-- Every operand fits into the word. -/
theorem argDesc_wellFormed : ∀ desc ∈ argDescList, desc.arg.WellFormed 32 := by
  decide

/-- Zero is a value of every operand, and no bits of the word. -/
theorem argDesc_zero : ∀ desc ∈ argDescList,
    desc.isValueInFieldRange 0 = true ∧ desc.arg.encode 0#32 = 0#32 := by
  decide

/-! ### Relocations -/

inductive Modifier where
  | none
  | composedImmUpper
  | composedImmLower
deriving DecidableEq, Repr

/-- The part of a value that one of two instructions of a pseudo instruction holds.  Bit 11 is added
to the upper part because the lower part is sign extended. -/
def modifyPseudoinstImm (mod : Modifier) (value : BitVec 64) : BitVec 64 :=
  match mod with
  | .none => value
  | .composedImmUpper => getBits value 31 12 + getBit value 11
  | .composedImmLower => getBits value 11 0

structure RelocExpression where
  location : Address
  expression : Text
  offset : BitVec 64
  min : Int
  max : Int
  arg : BitArg
  filename : Text
  line : Nat
  pseudoMod : Modifier
deriving DecidableEq, Repr

/-- A value is accepted for a relocation; a signed operand also takes the values of an unsigned
32-bit number. -/
def RelocExpression.accepts (relocexp : RelocExpression) (val : BitVec 64) : Bool :=
  if val &&& (1#64 <<< relocexp.arg.shift - 1) ≠ 0 then false
  else if relocexp.min < 0 then
    (relocexp.min ≤ val.toInt && val.toInt ≤ relocexp.max) ||
      (relocexp.min ≤ (val - 0x100000000).toInt && (val - 0x100000000).toInt ≤ relocexp.max)
  else relocexp.min.toNat ≤ val.toNat && val.toNat ≤ relocexp.max.toNat

/-- An operand of whole numbers takes what lies in its range. -/
theorem RelocExpression.accepts_of_mem {relocexp : RelocExpression} {val : BitVec 64}
    (hshift : relocexp.arg.shift = 0)
    (hrange : if relocexp.min < 0 then relocexp.min ≤ val.toInt ∧ val.toInt ≤ relocexp.max
      else relocexp.min.toNat ≤ val.toNat ∧ val.toNat ≤ relocexp.max.toNat) :
    relocexp.accepts val = true := by
  have hlow : val &&& (1#64 <<< relocexp.arg.shift - 1) = 0 := by
    rw [hshift]
    exact BitVec.and_zero
  rw [accepts, hlow, if_neg (not_not.mpr rfl)]
  split at hrange
  · rename_i hsigned
    rw [if_pos hsigned, decide_eq_true hrange.1, decide_eq_true hrange.2]
    rfl
  · rename_i hsigned
    rw [if_neg hsigned, decide_eq_true hrange.1, decide_eq_true hrange.2]
    rfl

/-- Fills in the operand of a relocation.  A rejected value leaves the operand zero. -/
def Instruction.update (dt : Instruction) (val : BitVec 64) (relocexp : RelocExpression) :
    Bool × Instruction :=
  let dt := dt &&& ~~~relocexp.arg.encode (BitVec.allOnes 32)
  let val := val + relocexp.offset
  if relocexp.pseudoMod ≠ .none then
    (true,
      dt ||| relocexp.arg.encode ((modifyPseudoinstImm relocexp.pseudoMod val).setWidth 32))
  else if relocexp.accepts val then (true, dt ||| relocexp.arg.encode (val.setWidth 32))
  else (false, dt)

end QtRvSim
