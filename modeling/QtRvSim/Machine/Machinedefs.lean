import Mathlib.Data.BitVec

/-!
# Machine-wide definitions

Values, addresses, access kinds, exception causes and simulator exceptions shared by every part of
the simulator (`machinedefs.h`, `register_value.h`, `memory/address.h`, `memory/address_range.h`,
`memory/address_with_mode.h`, `csr/address.h`, `config_isa.h`, `simulator_exception.h`).
-/

namespace QtRvSim

inductive Xlen where
  | _32
  | _64
deriving DecidableEq, Repr

def Xlen.bits : Xlen → Nat
  | ._32 => 32
  | ._64 => 64

/-- Content of a register.  The storage has 64 bits on both widths. -/
abbrev RegisterValue := BitVec 64

namespace RegisterValue

/-- The low 32 bits (`as_u32` and `as_i32`; signedness is chosen by the operation applied). -/
def asU32 (v : RegisterValue) : BitVec 32 :=
  v.setWidth 32

def asXlen (xlen : Xlen) (v : RegisterValue) : BitVec 64 :=
  match xlen with
  | ._32 => v.asU32.setWidth 64
  | ._64 => v

/-- The sign-extending constructor from a 32-bit integer. -/
def ofI32 (v : BitVec 32) : RegisterValue :=
  v.signExtend 64

/-- The zero-extending constructor from a 32-bit integer. -/
def ofU32 (v : BitVec 32) : RegisterValue :=
  v.setWidth 64

def ofBool (b : Bool) : RegisterValue :=
  if b then 1 else 0

@[simp]
theorem asXlen_asXlen (xlen : Xlen) (v : RegisterValue) :
    asXlen xlen (asXlen xlen v) = asXlen xlen v := by
  cases xlen <;> simp [asXlen, asU32]

theorem toNat_asXlen (xlen : Xlen) (v : RegisterValue) :
    (asXlen xlen v).toNat = v.toNat % 2 ^ xlen.bits := by
  cases xlen with
  | _32 =>
    rw [asXlen, asU32, BitVec.toNat_setWidth_of_le (by decide), BitVec.toNat_setWidth]
    rfl
  | _64 => exact (Nat.mod_eq_of_lt v.isLt).symm

theorem asXlen_eq_iff (xlen : Xlen) (v w : RegisterValue) :
    asXlen xlen v = asXlen xlen w ↔ v.toNat % 2 ^ xlen.bits = w.toNat % 2 ^ xlen.bits := by
  rw [← toNat_asXlen, ← toNat_asXlen, BitVec.toNat_inj]

theorem asU32_add (v w : RegisterValue) : asU32 (v + w) = asU32 v + asU32 w :=
  BitVec.setWidth_add v w (by decide)

/-- A sign-extended word is its low word. -/
@[simp]
theorem asU32_ofI32 (v : BitVec 32) : (ofI32 v).asU32 = v := by
  ext i hi
  have hi64 : i < 64 := by omega
  simp [asU32, ofI32, BitVec.getElem_signExtend, hi, hi64]

end RegisterValue

abbrev Address := BitVec 64

def stageAddrNone : Address := 0xffffffff

abbrev Byte := BitVec 8

inductive AccessControl where
  | none
  | i8 | u8 | i16 | u16 | i32 | u32 | i64 | u64
  | lr32 | sc32
  | amoswap32 | amoadd32 | amoxor32 | amoand32 | amoor32
  | amomin32 | amomax32 | amominu32 | amomaxu32
  | lr64 | sc64
  | amoswap64 | amoadd64 | amoxor64 | amoand64 | amoor64
  | amomin64 | amomax64 | amominu64 | amomaxu64
  | sfenceVma
  | cacheOp
deriving DecidableEq, Repr

/-- Plain loads and stores, the range `AC_I8 … AC_U64`. -/
def isRegularAccess : AccessControl → Bool
  | .i8 | .u8 | .i16 | .u16 | .i32 | .u32 | .i64 | .u64 => true
  | _ => false

/-- Atomics, fences and cache operations, the range `AC_LR32 … AC_CACHE_OP`. -/
def isSpecialAccess (type : AccessControl) : Bool :=
  type != .none && !isRegularAccess type

inductive ExceptionCause where
  | none
  | insnFault | insnIllegal | break | loadMisaligned | loadFault | storeMisaligned | storeFault
  | ecallU | ecallS | reserved10 | ecallM
  | insnPageFault | loadPageFault | reserved14 | storePageFault
  | hwbreak | ecallAny | intM | intS
deriving DecidableEq, Repr

/-- Number of a cause, as the enumeration of the source numbers it. -/
def ExceptionCause.toNat : ExceptionCause → Nat
  | .none => 0
  | .insnFault => 1
  | .insnIllegal => 2
  | .break => 3
  | .loadMisaligned => 4
  | .loadFault => 5
  | .storeMisaligned => 6
  | .storeFault => 7
  | .ecallU => 8
  | .ecallS => 9
  | .reserved10 => 10
  | .ecallM => 11
  | .insnPageFault => 12
  | .loadPageFault => 13
  | .reserved14 => 14
  | .storePageFault => 15
  | .hwbreak => 16
  | .ecallAny => 17
  | .intM => 18
  | .intS => 19

inductive PrivilegeLevel where
  | unprivileged
  | supervisor
  | hypervisor
  | machine
deriving DecidableEq, Repr

def PrivilegeLevel.toNat : PrivilegeLevel → Nat
  | .unprivileged => 0
  | .supervisor => 1
  | .hypervisor => 2
  | .machine => 3

def PrivilegeLevel.ofBits (bits : BitVec 2) : PrivilegeLevel :=
  match bits.toNat with
  | 0 => .unprivileged
  | 1 => .supervisor
  | 2 => .hypervisor
  | _ => .machine

inductive AccessOp where
  | fetch
  | read
  | write
deriving DecidableEq, Repr

structure AccessMode where
  asid : BitVec 16
  priv : PrivilegeLevel
  opkind : AccessOp
deriving DecidableEq, Repr

/-- Mode of an access made by the simulator itself, with the all-zero token. -/
def AccessMode.raw : AccessMode :=
  { asid := 0, priv := .unprivileged, opkind := .fetch }

structure AddressWithMode where
  address : Address
  mode : AccessMode
deriving DecidableEq, Repr

/-- A range of bytes, empty if `last` is smaller than `first`. -/
structure AddressRange where
  first : Address
  last : Address
deriving DecidableEq, Repr

namespace AddressRange

/-- The range the default constructor and `reset` give. -/
def empty : AddressRange := { first := 1, last := 0 }

def isEmpty (r : AddressRange) : Bool :=
  r.last < r.first

def contains (r other : AddressRange) : Bool :=
  r.first ≤ other.first && other.last ≤ r.last

def overlaps (r other : AddressRange) : Bool :=
  r.first ≤ other.last && other.first ≤ r.last && !r.isEmpty && !other.isEmpty

end AddressRange

/-- Set of ISA extensions, one bit a letter. -/
structure ConfigIsaWord where
  bits : BitVec 64
deriving DecidableEq, Repr

namespace ConfigIsaWord

def byChar (ch : Char) : ConfigIsaWord :=
  let index :=
    if 'A' ≤ ch ∧ ch ≤ 'Z' then ch.toNat - 'A'.toNat
    else if 'a' ≤ ch ∧ ch ≤ 'z' then ch.toNat - 'a'.toNat
    else 0
  { bits := 1#64 <<< index }

def contains (word : ConfigIsaWord) (ch : Char) : Bool :=
  word.bits &&& (byChar ch).bits != 0

end ConfigIsaWord

/-- Classes of simulator exceptions that the modelled code throws. -/
inductive SimulatorExceptionKind where
  | unsupportedInstruction
  | unalignedJump
  | unknownMemoryControl
  | outOfMemoryAccess
  | pageFault
  | sanity
deriving DecidableEq, Repr

/-- A thrown simulator exception: its class, the two texts it shows and the cause it carries. -/
structure SimulatorException where
  kind : SimulatorExceptionKind
  reason : String
  ext : String
  cause : ExceptionCause
deriving DecidableEq, Repr

/-- Result of an operation that may throw.  The state survives the exception, as it does for the
objects of the source. -/
abbrev Outcome (σ α : Type) := Except SimulatorException α × σ

/-- Lowercase hexadecimal digits of a number, as `QString::number(value, 16)` prints it. -/
def hexString (n : Nat) : String :=
  String.ofList (Nat.toDigits 16 n)

end QtRvSim
