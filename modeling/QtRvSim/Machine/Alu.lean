import QtRvSim.Machine.Machinedefs

/-!
# Arithmetic units

The ALU and the multiplier of the execute stage (`execute/alu.cpp`, `polyfills/mulh64.h`).
-/

namespace QtRvSim

/-- Operations of the ALU, numbered by `funct3`. -/
inductive AluOp where
  | add | sll | slt | sltu | xor | sr | or | and
deriving DecidableEq, Repr

/-- Operations of the multiplier, numbered by `funct3`. -/
inductive MulOp where
  | mul | mulh | mulhsu | mulhu | div | divu | rem | remu
deriving DecidableEq, Repr

/-- The union of the two operation enumerations; both members are the same three bits. -/
structure AluCombinedOp where
  code : BitVec 3
deriving DecidableEq, Repr

def AluOp.combined : AluOp → AluCombinedOp
  | .add => ⟨0⟩
  | .sll => ⟨1⟩
  | .slt => ⟨2⟩
  | .sltu => ⟨3⟩
  | .xor => ⟨4⟩
  | .sr => ⟨5⟩
  | .or => ⟨6⟩
  | .and => ⟨7⟩

def MulOp.combined : MulOp → AluCombinedOp
  | .mul => ⟨0⟩
  | .mulh => ⟨1⟩
  | .mulhsu => ⟨2⟩
  | .mulhu => ⟨3⟩
  | .div => ⟨4⟩
  | .divu => ⟨5⟩
  | .rem => ⟨6⟩
  | .remu => ⟨7⟩

def AluCombinedOp.aluOp (op : AluCombinedOp) : AluOp :=
  match op.code.toNat with
  | 0 => .add
  | 1 => .sll
  | 2 => .slt
  | 3 => .sltu
  | 4 => .xor
  | 5 => .sr
  | 6 => .or
  | _ => .and

def AluCombinedOp.mulOp (op : AluCombinedOp) : MulOp :=
  match op.code.toNat with
  | 0 => .mul
  | 1 => .mulh
  | 2 => .mulhsu
  | 3 => .mulhu
  | 4 => .div
  | 5 => .divu
  | 6 => .rem
  | _ => .remu

@[simp]
theorem AluOp.aluOp_combined (op : AluOp) : op.combined.aluOp = op := by
  cases op <;> rfl

inductive AluComponent where
  | alu
  | mul
  | pass
deriving DecidableEq, Repr

/-- Shift amounts keep the low five bits of the operand. -/
def shiftMask32 : BitVec 32 := 0b011111

def shiftMask64 : BitVec 64 := 0b111111

def alu64Operate (op : AluOp) (modified : Bool) (a b : RegisterValue) : RegisterValue :=
  match op with
  | .add => a + (if modified then -b else b)
  | .sll => a <<< (b &&& shiftMask64)
  | .slt => .ofBool (a.slt b)
  | .sltu => .ofBool (a.ult b)
  | .xor => a ^^^ b
  | .sr =>
    if modified then a.sshiftRight (b &&& shiftMask64).toNat else a >>> (b &&& shiftMask64)
  | .or => a ||| b
  | .and => (if modified then ~~~a else a) &&& b

/-- The 32-bit ALU; its `int32_t` result is sign extended into the register. -/
def alu32Operate (op : AluOp) (modified : Bool) (a b : RegisterValue) : RegisterValue :=
  let _a := a.asU32
  let _b := b.asU32
  .ofI32 <| match op with
    | .add => _a + (if modified then -_b else _b)
    | .sll => _a <<< (_b &&& shiftMask32)
    | .slt => if _a.slt _b then 1 else 0
    | .sltu => if _a.ult _b then 1 else 0
    | .xor => _a ^^^ _b
    | .sr =>
      if modified then _a.sshiftRight (_b &&& shiftMask32).toNat else _a >>> (_b &&& shiftMask32)
    | .or => _a ||| _b
    | .and => (if modified then ~~~_a else _a) &&& _b

def mulh64 (a b : BitVec 64) : BitVec 64 :=
  ((a.signExtend 128 * b.signExtend 128) >>> 64).setWidth 64

def mulhu64 (a b : BitVec 64) : BitVec 64 :=
  ((a.setWidth 128 * b.setWidth 128) >>> 64).setWidth 64

def mulhsu64 (a b : BitVec 64) : BitVec 64 :=
  ((a.signExtend 128 * b.setWidth 128) >>> 64).setWidth 64

def mul64Operate (op : MulOp) (a b : RegisterValue) : RegisterValue :=
  match op with
  | .mul => a * b
  | .mulh => mulh64 a b
  | .mulhsu => mulhsu64 a b
  | .mulhu => mulhu64 a b
  | .div =>
    if b = 0 then -1
    else if a = BitVec.intMin 64 ∧ b = -1 then BitVec.intMin 64
    else a.sdiv b
  | .divu => if b = 0 then BitVec.allOnes 64 else a.udiv b
  | .rem =>
    if b = 0 then a
    else if a = BitVec.intMin 64 ∧ b = -1 then 0
    else a.srem b
  | .remu => if b = 0 then a else a.umod b

/-- The 32-bit multiplier; its `int32_t` result is sign extended into the register. -/
def mul32Operate (op : MulOp) (a b : RegisterValue) : RegisterValue :=
  let _a := a.asU32
  let _b := b.asU32
  .ofI32 <| match op with
    | .mul => _a * _b
    | .mulh => ((_a.signExtend 64 * _b.signExtend 64) >>> 32).setWidth 32
    | .mulhsu => ((_a.signExtend 64 * _b.setWidth 64) >>> 32).setWidth 32
    | .mulhu => ((_a.setWidth 64 * _b.setWidth 64) >>> 32).setWidth 32
    | .div =>
      if _b = 0 then -1
      else if _a = BitVec.intMin 32 ∧ _b = -1 then BitVec.intMin 32
      else _a.sdiv _b
    | .divu => if _b = 0 then BitVec.allOnes 32 else _a.udiv _b
    | .rem =>
      if _b = 0 then _a
      else if _a = BitVec.intMin 32 ∧ _b = -1 then 0
      else _a.srem _b
    | .remu => if _b = 0 then _a else _a.umod _b

def aluCombinedOperate (op : AluCombinedOp) (component : AluComponent) (wOperation modified : Bool)
    (a b : RegisterValue) : RegisterValue :=
  match component with
  | .alu =>
    if wOperation then alu32Operate op.aluOp modified a b
    else alu64Operate op.aluOp modified a b
  | .mul =>
    if wOperation then mul32Operate op.mulOp a b else mul64Operate op.mulOp a b
  | .pass => a

/-- On XLEN bits the adder of the core's width adds. -/
theorem aluAdd_asXlen (xlen : Xlen) (a b : RegisterValue) :
    (aluCombinedOperate AluOp.add.combined .alu (xlen != ._64) false a b).asXlen xlen =
      (a + b).asXlen xlen := by
  cases xlen with
  | _64 => simp [aluCombinedOperate, alu64Operate, RegisterValue.asXlen]
  | _32 => simp [aluCombinedOperate, alu32Operate, RegisterValue.asXlen, RegisterValue.asU32_add]

end QtRvSim
