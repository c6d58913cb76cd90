import QtRvSim.Csr.ControlState
import QtRvSim.Library.ByteMemory

/-!
# Memory interface of the core

The core reaches memory through a program and a data port (`memory/frontend_memory.cpp`).  The
interface is a class over the state of the whole memory system, so that the core is verified
against every memory system at once.  A port may answer with a page fault; whatever the failed
access changed stays changed.  Flat memory is the memory system without translation and caches.
-/

namespace QtRvSim

open ByteMemory

inductive MemPort where
  | program
  | data
deriving DecidableEq, Repr

def getCurrentCause : AccessOp → ExceptionCause
  | .fetch => .insnPageFault
  | .write => .storePageFault
  | .read => .loadPageFault

theorem getCurrentCause_ne_none (op : AccessOp) : getCurrentCause op ≠ .none := by
  cases op <;> decide

/-- A page fault: the texts of the simulator exception and the kind of access that raised it. -/
structure PageFault where
  reason : String
  ext : String
  opkind : AccessOp
deriving DecidableEq, Repr

def PageFault.cause (fault : PageFault) : ExceptionCause :=
  getCurrentCause fault.opkind

abbrev Access (M α : Type) := Except PageFault α × M

/-- A memory system as the core sees it. -/
class FrontendMemory (M : Type) where
  read : MemPort → AddressWithMode → Nat → M → Access M (List Byte)
  write : MemPort → AddressWithMode → List Byte → M → Access M Unit
  sync : MemPort → M → M
  sfenceVma : MemPort → BitVec 64 → BitVec 64 → M → M
  onCsrWrite : Csr.Signal → M → M

namespace FrontendMemory

variable {M : Type} [FrontendMemory M]

def readGeneric (width : Nat) (endian : Endian) (port : MemPort) (address : AddressWithMode)
    (m : M) : Access M (BitVec width) :=
  match read port address (width / 8) m with
  | (.ok bytes, m) => (.ok (BitVec.ofNat width (valueOfBytes endian bytes)), m)
  | (.error e, m) => (.error e, m)

def writeGeneric {width : Nat} (endian : Endian) (port : MemPort) (address : AddressWithMode)
    (value : BitVec width) (m : M) : Access M Unit :=
  write port address (bytesOfValue endian (width / 8) value.toNat) m

def ctlSize : AccessControl → Nat
  | .i8 | .u8 => 1
  | .i16 | .u16 => 2
  | .i32 | .u32 => 4
  | .i64 | .u64 => 8
  | _ => 0

/-- A plain store.  The core calls it for regular accesses only, so the exception that the source
raises for the other kinds is left out. -/
def writeCtl (endian : Endian) (ctl : AccessControl) (address : AddressWithMode)
    (value : RegisterValue) (m : M) : Access M Unit :=
  match ctl with
  | .i8 | .u8 => writeGeneric endian .data address (value.setWidth 8) m
  | .i16 | .u16 => writeGeneric endian .data address (value.setWidth 16) m
  | .i32 | .u32 => writeGeneric endian .data address (value.setWidth 32) m
  | .i64 | .u64 => writeGeneric endian .data address value m
  | _ => (.ok (), m)

def mapAccess {α β : Type} (f : α → β) : Access M α → Access M β
  | (.ok a, m) => (.ok (f a), m)
  | (.error e, m) => (.error e, m)

def readCtl (endian : Endian) (ctl : AccessControl) (address : AddressWithMode) (m : M) :
    Access M RegisterValue :=
  match ctl with
  | .i8 => mapAccess (·.signExtend 64) (readGeneric 8 endian .data address m)
  | .u8 => mapAccess (·.setWidth 64) (readGeneric 8 endian .data address m)
  | .i16 => mapAccess (·.signExtend 64) (readGeneric 16 endian .data address m)
  | .u16 => mapAccess (·.setWidth 64) (readGeneric 16 endian .data address m)
  | .i32 => mapAccess (·.signExtend 64) (readGeneric 32 endian .data address m)
  | .u32 => mapAccess (·.setWidth 64) (readGeneric 32 endian .data address m)
  | .i64 | .u64 => readGeneric 64 endian .data address m
  | _ => (.ok 0, m)

def onCsrWrites (signals : List Csr.Signal) (m : M) : M :=
  signals.foldl (fun m signal => onCsrWrite signal m) m

end FrontendMemory

structure FlatMemory where
  bytes : Address → Byte

namespace FlatMemory

def readBytes (m : FlatMemory) (address : Address) (size : Nat) : List Byte :=
  ByteMemory.readBytes m.bytes address size

def writeBytes (m : FlatMemory) (address : Address) (bytes : List Byte) : FlatMemory :=
  { bytes := ByteMemory.writeBytes m.bytes address bytes }

instance : FrontendMemory FlatMemory where
  read _ address size m := (.ok (m.readBytes address.address size), m)
  write _ address bytes m := (.ok (), m.writeBytes address.address bytes)
  sync _ m := m
  sfenceVma _ _ _ m := m
  onCsrWrite _ m := m

def readU32 (m : FlatMemory) (endian : Endian) (address : Address) : BitVec 32 :=
  BitVec.ofNat 32 (valueOfBytes endian (m.readBytes address 4))

@[simp]
theorem onCsrWrites_eq (signals : List Csr.Signal) (m : FlatMemory) :
    FrontendMemory.onCsrWrites signals m = m := by
  induction signals with
  | nil => rfl
  | cons signal signals ih => exact ih

end FlatMemory

end QtRvSim
