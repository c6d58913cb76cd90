import QtRvSim.Library.DecodeTree
import QtRvSim.Machine.Machinedefs
import Mathlib.Logic.Function.Basic

/-!
# Control and status registers

The CSR file with its write handlers, the interrupt request logic and the status updates of traps
and returns (`csr/controlstate.cpp`).  Every assignment of a register is announced by a write
signal, on which the memory system listens; the operations return the signals they emit in order.
-/

namespace QtRvSim

namespace Csr

inductive Id where
  | cycle | time | stimecmp
  | mvendorid | marchid | mimpid | mhartid
  | mstatus | misa | medeleg | mideleg | mie | mtvec | mcountern
  | mscratch | mepc | mcause | mtval | mip | mtinst | mtval2
  | menvcfg | menvcfgh
  | pmpcfg0 | pmpaddr0
  | mcycle | minstret
  | sstatus | sie | stvec
  | sscratch | sepc | scause | stval | sip
  | satp
deriving DecidableEq, Repr

abbrev Address := BitVec 12

namespace Address

/-- The top two bits of the number tell whether the register may be written. -/
def isWritable (address : Address) : Bool :=
  address.extractLsb' 10 2 != 0b11

def getPrivilegeLevel (address : Address) : PrivilegeLevel :=
  .ofBits (address.extractLsb' 8 2)

end Address

structure RegisterFieldDesc where
  regId : Id
  field : BitField

namespace RegisterFieldDesc

def decode (desc : RegisterFieldDesc) (val : BitVec 64) : BitVec 64 :=
  desc.field.decode val

def mask (desc : RegisterFieldDesc) : BitVec 64 :=
  desc.field.mask 64

def encode (desc : RegisterFieldDesc) (val : BitVec 64) : BitVec 64 :=
  (val &&& BitVec.ofNat 64 (2 ^ desc.field.count - 1)) <<< desc.field.offset

def update (desc : RegisterFieldDesc) (orig val : BitVec 64) : BitVec 64 :=
  desc.encode val ||| (orig &&& ~~~desc.mask)

end RegisterFieldDesc

namespace Field.Mstatus

def sie : RegisterFieldDesc := ⟨.mstatus, ⟨1, 1⟩⟩
def mie : RegisterFieldDesc := ⟨.mstatus, ⟨1, 3⟩⟩
def spie : RegisterFieldDesc := ⟨.mstatus, ⟨1, 5⟩⟩
def mpie : RegisterFieldDesc := ⟨.mstatus, ⟨1, 7⟩⟩
def spp : RegisterFieldDesc := ⟨.mstatus, ⟨1, 8⟩⟩
def mpp : RegisterFieldDesc := ⟨.mstatus, ⟨2, 11⟩⟩
def mprv : RegisterFieldDesc := ⟨.mstatus, ⟨1, 17⟩⟩
def sum : RegisterFieldDesc := ⟨.mstatus, ⟨1, 18⟩⟩
def mxr : RegisterFieldDesc := ⟨.mstatus, ⟨1, 19⟩⟩
def uxl : RegisterFieldDesc := ⟨.mstatus, ⟨2, 32⟩⟩
def sxl : RegisterFieldDesc := ⟨.mstatus, ⟨2, 34⟩⟩

end Field.Mstatus

namespace Field.Sstatus

def sie : RegisterFieldDesc := ⟨.sstatus, ⟨1, 1⟩⟩
def spie : RegisterFieldDesc := ⟨.sstatus, ⟨1, 5⟩⟩
def spp : RegisterFieldDesc := ⟨.sstatus, ⟨1, 8⟩⟩

end Field.Sstatus

inductive WriteHandler where
  | defaultWlrl
  | mstatusWlrl
  | satpWlrl
  | mcycleWlrl
  | sstatusWlrl
deriving DecidableEq, Repr

structure RegisterDesc where
  address : Address
  initialValue : RegisterValue := 0
  writeMask : RegisterValue := 0xffffffffffffffff
  writeHandler : WriteHandler := .defaultWlrl

def registers : Id → RegisterDesc
  | .cycle => { address := 0xC00, writeMask := 0 }
  | .time => { address := 0xC01, writeMask := 0 }
  | .stimecmp => { address := 0x14D, writeMask := 0xffffffff }
  | .mvendorid => { address := 0xF11, writeMask := 0 }
  | .marchid => { address := 0xF12, writeMask := 0 }
  | .mimpid => { address := 0xF13, writeMask := 0 }
  | .mhartid => { address := 0xF14 }
  | .mstatus => { address := 0x300, writeMask := 0x007FFFEA, writeHandler := .mstatusWlrl }
  | .misa => { address := 0x301, writeMask := 0 }
  | .medeleg => { address := 0x302, writeMask := 0xfffef7ff }
  | .mideleg => { address := 0x303, writeMask := 0xffffffff }
  | .mie => { address := 0x304, writeMask := 0x00ff0AAA }
  | .mtvec => { address := 0x305 }
  | .mcountern => { address := 0x306, writeMask := 0xffffffff }
  | .mscratch => { address := 0x340 }
  | .mepc => { address := 0x341 }
  | .mcause => { address := 0x342 }
  | .mtval => { address := 0x343 }
  | .mip => { address := 0x344, writeMask := 0x00000222 }
  | .mtinst => { address := 0x34A }
  | .mtval2 => { address := 0x34B }
  | .menvcfg => { address := 0x30A, writeMask := 0xffffffff }
  | .menvcfgh => { address := 0x31A, writeMask := 0xffffffff }
  | .pmpcfg0 => { address := 0x3A0, writeMask := 0xFFFFFFFF }
  | .pmpaddr0 => { address := 0x3B0, writeMask := 0xFFFFFFFC }
  | .mcycle => { address := 0xB00, writeHandler := .mcycleWlrl }
  | .minstret => { address := 0xB02 }
  | .sstatus => { address := 0x100, writeMask := 0xffffffff, writeHandler := .sstatusWlrl }
  | .sie => { address := 0x104, writeMask := 0x00010222 }
  | .stvec => { address := 0x105 }
  | .sscratch => { address := 0x140 }
  | .sepc => { address := 0x141 }
  | .scause => { address := 0x142 }
  | .stval => { address := 0x143 }
  | .sip => { address := 0x144, writeMask := 0x00010222 }
  | .satp => { address := 0x180, writeMask := 0xffffffff, writeHandler := .satpWlrl }

def Id.all : List Id :=
  [.cycle, .time, .stimecmp, .mvendorid, .marchid, .mimpid, .mhartid, .mstatus, .misa, .medeleg,
    .mideleg, .mie, .mtvec, .mcountern, .mscratch, .mepc, .mcause, .mtval, .mip, .mtinst, .mtval2,
    .menvcfg, .menvcfgh, .pmpcfg0, .pmpaddr0, .mcycle, .minstret, .sstatus, .sie, .stvec,
    .sscratch, .sepc, .scause, .stval, .sip, .satp]

/-- A write signal: the register and the value it now has. -/
abbrev Signal := Id × RegisterValue

end Csr

open Csr

structure ControlState where
  registerData : Csr.Id → RegisterValue

/-- Result of an operation on the CSR file, with the write signals it emits. -/
abbrev CsrUpdate := ControlState × List Csr.Signal

namespace ControlState

def set (cs : ControlState) (id : Csr.Id) (value : RegisterValue) : ControlState :=
  { registerData := Function.update cs.registerData id value }

@[simp]
theorem set_registerData (cs : ControlState) (id other : Csr.Id) (value : RegisterValue) :
    (cs.set id value).registerData other =
      if other = id then value else cs.registerData other := by
  simp [set, Function.update_apply]

/-- Runs a second operation after a first one and collects the signals of both. -/
def andThen (first : CsrUpdate) (second : ControlState → CsrUpdate) : CsrUpdate :=
  ((second first.1).1, first.2 ++ (second first.1).2)

def readInternal (cs : ControlState) (id : Csr.Id) : RegisterValue :=
  cs.registerData id

def getRegisterInternalId (address : Csr.Address) : Except SimulatorException Csr.Id :=
  match Csr.Id.all.find? (fun id => (registers id).address == address) with
  | some id => .ok id
  | none => .error
      { kind := .unsupportedInstruction
        reason := "Accessed nonexistent CSR register " ++ toString address.toNat
        ext := ""
        cause := .none }

def read (cs : ControlState) (address : Csr.Address) (currentPriv : PrivilegeLevel) :
    Except SimulatorException RegisterValue :=
  match getRegisterInternalId address with
  | .error e => .error e
  | .ok id =>
    if currentPriv.toNat < address.getPrivilegeLevel.toNat then
      .error
        { kind := .unsupportedInstruction
          reason := "CSR address " ++ toString address.toNat ++
            " not accessible at current privilege level."
          ext := ""
          cause := .none }
    else
      .ok (cs.registerData id)

def defaultWlrlValue (xlen : Xlen) (desc : RegisterDesc) (reg val : RegisterValue) :
    RegisterValue :=
  let u := (val &&& desc.writeMask) ||| (reg &&& ~~~desc.writeMask)
  match xlen with
  | ._32 => u &&& 0xffffffff
  | ._64 => u

def sMask (xlen : Xlen) : BitVec 64 :=
  let base := Field.Mstatus.sie.mask ||| Field.Mstatus.spie.mask ||| Field.Mstatus.spp.mask
    ||| Field.Mstatus.sum.mask ||| Field.Mstatus.mxr.mask
  match xlen with
  | ._32 => base
  | ._64 => base ||| Field.Mstatus.uxl.mask ||| Field.Mstatus.sxl.mask

def sstatusView (xlen : Xlen) (mstatus : RegisterValue) : RegisterValue :=
  match xlen with
  | ._32 => mstatus &&& sMask xlen &&& 0xffffffff
  | ._64 => mstatus &&& sMask xlen

def satpWlrlValue (xlen : Xlen) (val : RegisterValue) : RegisterValue :=
  match xlen with
  | ._32 => val &&& 0xFFFFFFFF
  | ._64 =>
    let mode := (val >>> 60) &&& 0xF
    if mode ≠ 0 ∧ mode ≠ 8 ∧ mode ≠ 9 then val &&& ~~~(0xF000000000000000 : BitVec 64) else val

def runWriteHandler (xlen : Xlen) (id : Csr.Id) (value : RegisterValue) (cs : ControlState) :
    CsrUpdate :=
  let desc := registers id
  match desc.writeHandler with
  | .defaultWlrl => (cs.set id (defaultWlrlValue xlen desc (cs.registerData id) value), [])
  | .mstatusWlrl =>
    let reg := defaultWlrlValue xlen desc (cs.registerData id) value
    let newSstatus := sstatusView xlen reg
    ((cs.set id reg).set .sstatus newSstatus, [(.sstatus, newSstatus)])
  | .satpWlrl => (cs.set id (satpWlrlValue xlen value), [])
  | .mcycleWlrl => ((cs.set id value).set .cycle value, [(.cycle, value)])
  | .sstatusWlrl =>
    let writeVal := value &&& desc.writeMask
    let mstatusVal :=
      (cs.registerData .mstatus &&& ~~~sMask xlen) ||| (writeVal &&& sMask xlen)
    ((cs.set .mstatus mstatusVal).set id (sstatusView xlen mstatusVal),
      [(.mstatus, mstatusVal)])

/-- Writes a register as a side effect of the core. -/
def writeInternal (xlen : Xlen) (id : Csr.Id) (value : RegisterValue) (cs : ControlState) :
    CsrUpdate :=
  andThen (runWriteHandler xlen id value cs) fun cs => (cs, [(id, cs.registerData id)])

def write (xlen : Xlen) (address : Csr.Address) (value : RegisterValue)
    (currentPriv : PrivilegeLevel) (cs : ControlState) : Except SimulatorException CsrUpdate :=
  if !address.isWritable then
    .error
      { kind := .unsupportedInstruction
        reason := "CSR address " ++ toString address.toNat ++ " is not writable."
        ext := ""
        cause := .none }
  else if currentPriv.toNat < address.getPrivilegeLevel.toNat then
    .error
      { kind := .unsupportedInstruction
        reason := "CSR address " ++ toString address.toNat ++
          " not writable at current privilege level."
        ext := ""
        cause := .none }
  else
    match getRegisterInternalId address with
    | .error e => .error e
    | .ok id => .ok (writeInternal xlen id value cs)

def incrementInternal (xlen : Xlen) (id : Csr.Id) (amount : BitVec 64) (cs : ControlState) :
    CsrUpdate :=
  writeInternal xlen id (cs.registerData id + amount) cs

def readField (cs : ControlState) (desc : RegisterFieldDesc) : RegisterValue :=
  desc.decode (cs.readInternal desc.regId)

def writeField (xlen : Xlen) (desc : RegisterFieldDesc) (value : BitVec 64) (cs : ControlState) :
    CsrUpdate :=
  writeInternal xlen desc.regId (desc.update (cs.readInternal desc.regId) value) cs

/-- Writes a field without handler and signal. -/
def writeFieldRaw (desc : RegisterFieldDesc) (value : BitVec 64) (cs : ControlState) :
    ControlState :=
  cs.set desc.regId (desc.update (cs.registerData desc.regId) value)

def reset (xlen : Xlen) : ControlState :=
  let cs : ControlState := { registerData := fun id => (registers id).initialValue }
  let misa := cs.readInternal .misa &&& 0x3fffffff
  match xlen with
  | ._32 => cs.set .misa (misa ||| 1#64 <<< 30)
  | ._64 =>
    writeFieldRaw Field.Mstatus.sxl 2
      (writeFieldRaw Field.Mstatus.uxl 2 (cs.set .misa (misa ||| 2#64 <<< 62)))

def new (xlen : Xlen) (isaWord : ConfigIsaWord) : ControlState :=
  let cs := reset xlen
  cs.set .misa (cs.readInternal .misa ||| isaWord.bits)

/-- Number of the least significant set bit of a nonzero word, else zero. -/
def lowestSetBit (irqs : BitVec 64) : Nat :=
  match (List.range 64).find? (fun i => irqs.getLsbD i) with
  | some i => i
  | none => 0

def exceptionCauseValue (xlen : Xlen) (excause : ExceptionCause) (toPrivlev : PrivilegeLevel)
    (cs : ControlState) : RegisterValue :=
  if excause ≠ .intM ∧ excause ≠ .intS then
    BitVec.ofNat 64 excause.toNat
  else
    let (mie, mip) :=
      if toPrivlev = .supervisor then (cs.registerData .sie, cs.registerData .sip)
      else (cs.registerData .mie, cs.registerData .mip)
    let irqs := mie &&& mip &&& 0xffffffff
    let irqToSignal := if irqs ≠ 0 then lowestSetBit irqs else 0
    BitVec.ofNat 64 irqToSignal ||| 1#64 <<< (match xlen with | ._32 => 31 | ._64 => 63)

def updateExceptionCause (xlen : Xlen) (excause : ExceptionCause) (toPrivlev : PrivilegeLevel)
    (cs : ControlState) : CsrUpdate :=
  let causeRegId : Csr.Id := if toPrivlev = .machine then .mcause else .scause
  let value := exceptionCauseValue xlen excause toPrivlev cs
  (cs.set causeRegId value, [(causeRegId, value)])

def setInterruptSignal (irqNum : Nat) (active : Bool) (cs : ControlState) : CsrUpdate :=
  if 32 ≤ irqNum then (cs, [])
  else
    let mask := 1#64 <<< irqNum
    let mip := cs.registerData .mip
    let mip := if active then mip ||| mask else mip &&& ~~~mask
    let sip := mip &&& cs.registerData .mideleg
    ((cs.set .mip mip).set .sip sip, [(.mip, mip), (.sip, sip)])

def coreInterruptRequest (cs : ControlState) (currentPriv : PrivilegeLevel) : ExceptionCause :=
  let mPending := cs.registerData .mip &&& cs.registerData .mie
  let sPending := cs.registerData .sip &&& cs.registerData .sie
  let mEnabled := decide (currentPriv.toNat < PrivilegeLevel.machine.toNat) ||
    (currentPriv == .machine && cs.readField Field.Mstatus.mie != 0)
  let sEnabled := decide (currentPriv.toNat < PrivilegeLevel.supervisor.toNat) ||
    (currentPriv == .supervisor && cs.readField Field.Mstatus.sie != 0)
  if mPending ≠ 0 ∧ mEnabled then .intM
  else if sPending ≠ 0 ∧ sEnabled then .intS
  else .none

def exceptionInitiate (xlen : Xlen) (actPrivlev toPrivlev : PrivilegeLevel) (cs : ControlState) :
    CsrUpdate :=
  if toPrivlev = .machine then
    let u := writeField xlen Field.Mstatus.mpie (cs.readField Field.Mstatus.mie) cs
    let u := andThen u (writeField xlen Field.Mstatus.mie 0)
    let u := andThen u
      (writeField xlen Field.Mstatus.mpp (BitVec.ofNat 64 actPrivlev.toNat))
    andThen u fun cs => (cs, [(.mstatus, cs.registerData .mstatus)])
  else
    let u := writeField xlen Field.Sstatus.spie (cs.readField Field.Sstatus.sie) cs
    let u := andThen u (writeField xlen Field.Sstatus.sie 0)
    let u := andThen u
      (writeField xlen Field.Sstatus.spp (if actPrivlev = .supervisor then 1 else 0))
    andThen u fun cs => (cs, [(.sstatus, cs.registerData .sstatus)])

/-- Status update of MRET, with the privilege level in MPP. -/
def mretUpdate (xlen : Xlen) (cs : ControlState) : PrivilegeLevel × CsrUpdate :=
  let u := writeField xlen Field.Mstatus.mie (cs.readField Field.Mstatus.mpie) cs
  let u := andThen u (writeField xlen Field.Mstatus.mpie 1)
  (PrivilegeLevel.ofBits ((u.1.readField Field.Mstatus.mpp).setWidth 2),
    andThen u (writeField xlen Field.Mstatus.mpp 0))

/-- Status update of SRET, with the privilege level in SPP. -/
def sretUpdate (xlen : Xlen) (cs : ControlState) : PrivilegeLevel × CsrUpdate :=
  let u := writeField xlen Field.Mstatus.sie (cs.readField Field.Mstatus.spie) cs
  let u := andThen u (writeField xlen Field.Mstatus.spie 1)
  (if u.1.readField Field.Mstatus.spp &&& 1 = 1 then .supervisor else .unprivileged,
    andThen u (writeField xlen Field.Mstatus.spp 0))

def exceptionReturn (xlen : Xlen) (actPrivlev xretPrivlev : PrivilegeLevel) (cs : ControlState) :
    PrivilegeLevel × CsrUpdate :=
  let r :=
    match xretPrivlev with
    | .machine => mretUpdate xlen cs
    | .supervisor => sretUpdate xlen cs
    | _ => (.unprivileged, (cs, []))
  let u :=
    if actPrivlev = .machine ∧ r.1 ≠ .machine then
      andThen r.2 (writeField xlen Field.Mstatus.mprv 0)
    else r.2
  (r.1, andThen u fun cs => (cs, [(.mstatus, cs.registerData .mstatus)]))

def exceptionPcAddress (cs : ControlState) (toPrivlev : PrivilegeLevel) : QtRvSim.Address :=
  if toPrivlev = .supervisor then cs.registerData .stvec else cs.registerData .mtvec

end ControlState

end QtRvSim
