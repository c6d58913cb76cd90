import QtRvSim.Memory.Frontend
import QtRvSim.Library.BitFields

/-!
# Page tables

The page-table walker (`memory/virtual/page_table_walker.cpp`) with the Sv32 and Sv39 entries
(`sv32.h`, `sv39.h`) and the permission check it shares with the TLB (`memory_utils.h`).  A walk
reads entries through one port of the physical memory and ends in a leaf or in a page fault.
-/

namespace QtRvSim

open ByteMemory BitFields

/-- Physical memory below the TLBs; an access may change the state of caches on its way. -/
class PhysicalMemory (P : Type) where
  read : MemPort → Address → Nat → P → List Byte × P
  write : MemPort → Address → List Byte → P → P
  sync : MemPort → P → P

instance : PhysicalMemory FlatMemory where
  read _ address size m := (m.readBytes address size, m)
  write _ address bytes m := m.writeBytes address bytes
  sync _ m := m

/-- The flags of a leaf entry, as the page table and the TLB hold them. -/
structure PteFlags where
  r : Bool
  w : Bool
  x : Bool
  u : Bool
  g : Bool
  a : Bool
  d : Bool
deriving DecidableEq, Repr

namespace Csr.Field.Sstatus

def sum : RegisterFieldDesc := ⟨.sstatus, ⟨1, 18⟩⟩
def mxr : RegisterFieldDesc := ⟨.sstatus, ⟨1, 19⟩⟩

end Csr.Field.Sstatus

def checkPermissions (pte : PteFlags) (rawSstatus : BitVec 64) (priv : PrivilegeLevel)
    (op : AccessOp) : Bool :=
  let sum := Csr.Field.Sstatus.sum.decode rawSstatus ≠ 0
  let mxr := Csr.Field.Sstatus.mxr.decode rawSstatus ≠ 0
  -- User-mode accesses always require U==1
  if priv = .unprivileged ∧ ¬pte.u then false
  -- Supervisor-mode: for user pages (U==1), loads/stores allowed only if SUM=1
  else if priv = .supervisor ∧ pte.u ∧ (op = .read ∨ op = .write) ∧ ¬sum then false
  else
    match op with
    | .read => pte.r || (decide mxr && pte.x)
    | .write => pte.w
    | .fetch => pte.x

abbrev Pte := BitVec 64

namespace Pte

def v (raw : Pte) : Bool := raw.getLsbD 0

def flags (raw : Pte) : PteFlags :=
  { r := raw.getLsbD 1
    w := raw.getLsbD 2
    x := raw.getLsbD 3
    u := raw.getLsbD 4
    g := raw.getLsbD 5
    a := raw.getLsbD 6
    d := raw.getLsbD 7 }

def ppn (ppnBits : Nat) (raw : Pte) : BitVec 64 :=
  (raw >>> 10) &&& lowMask 64 ppnBits

def isLeaf (raw : Pte) : Bool := raw.flags.r || raw.flags.x

def isValid (raw : Pte) : Bool := raw.v && (!raw.flags.w || raw.flags.r)

end Pte

def pageShift : Nat := 12

/-- Constants of a paging mode and the composition of its physical addresses. -/
structure PagingMode where
  /-- Level of the root table. -/
  maxLevelIdx : Nat
  vpnBits : Nat
  ppnBits : Nat
  satpModeMask : BitVec 64
  satpPpnMask : BitVec 64
  /-- Size of an entry in bytes. -/
  rawBytes : Nat
  makePhys : Pte → BitVec 64 → Nat → Address
  vpnBits_le : vpnBits ≤ 64
  ppnBits_le : ppnBits ≤ 64
  levels_le : maxLevelIdx * vpnBits ≤ 64
  rawBytes_dvd : rawBytes ∣ 8

def Sv32Pte.makePhys (raw : Pte) (vaRaw : BitVec 64) (level : Nat) : Address :=
  let offset := vaRaw &&& lowMask 64 pageShift
  let vpn0 := (vaRaw >>> pageShift) &&& lowMask 64 10
  let physPpn :=
    if level = 1 then (raw.ppn 22 &&& ~~~lowMask 64 10) ||| (vpn0 &&& lowMask 64 10)
    else raw.ppn 22
  (physPpn <<< pageShift) ||| offset

/-- The page number of the virtual address below a level, field by field. -/
def Sv39Pte.vpnCombined (vaRaw : BitVec 64) (level : Nat) : BitVec 64 :=
  (List.range level).foldl (fun vpnCombined i =>
    vpnCombined ||| ((vaRaw >>> (pageShift + 9 * i) &&& lowMask 64 9) <<< (9 * i))) 0

def Sv39Pte.makePhys (raw : Pte) (vaRaw : BitVec 64) (level : Nat) : Address :=
  let offset := vaRaw &&& lowMask 64 pageShift
  let lowBitsMask := lowMask 64 (9 * level)
  let physPpn :=
    if 0 < level then
      (raw.ppn 44 &&& ~~~lowBitsMask) ||| (Sv39Pte.vpnCombined vaRaw level &&& lowBitsMask)
    else raw.ppn 44
  (physPpn <<< pageShift) ||| offset

def sv32Pte : PagingMode where
  maxLevelIdx := 1
  vpnBits := 10
  ppnBits := 22
  satpModeMask := 1#64 <<< 31
  satpPpnMask := lowMask 64 22
  rawBytes := 4
  makePhys := Sv32Pte.makePhys
  vpnBits_le := by decide
  ppnBits_le := by decide
  levels_le := by decide
  rawBytes_dvd := by decide

def sv39Pte : PagingMode where
  maxLevelIdx := 2
  vpnBits := 9
  ppnBits := 44
  satpModeMask := 0xf#64 <<< 60
  satpPpnMask := lowMask 64 44
  rawBytes := 8
  makePhys := Sv39Pte.makePhys
  vpnBits_le := by decide
  ppnBits_le := by decide
  levels_le := by decide
  rawBytes_dvd := by decide

def Xlen.pagingMode : Xlen → PagingMode
  | ._32 => sv32Pte
  | ._64 => sv39Pte

/-- Result of a walk; there is no leaf if the walk was made with translation off. -/
structure WalkResult where
  phys : Address
  pteAddr : Address
  leafPte : Option Pte
deriving DecidableEq, Repr

def hexNumber (n : BitVec 64) : String :=
  String.ofList (Nat.toDigits 16 n.toNat)

namespace PagingMode

variable {P : Type} [PhysicalMemory P] (mode : PagingMode)

def pteAddr (va : BitVec 64) (lvl : Nat) (ppn : BitVec 64) : Address :=
  let vpnIdx := (va >>> (pageShift + lvl * mode.vpnBits)) &&& lowMask 64 mode.vpnBits
  (ppn <<< pageShift) + vpnIdx * BitVec.ofNat 64 mode.rawBytes

/-- Reads an entry; the host is little endian. -/
def readPte (memory : MemPort) (address : Address) (m : P) : Pte × P :=
  let (bytes, m) := PhysicalMemory.read memory address mode.rawBytes m
  (BitVec.ofNat 64 (valueOfBytes .little bytes), m)

/-- What the walk makes of one entry: a page fault, a result, or the next table. -/
def walkEntry (va rawSstatus : BitVec 64) (access : AccessMode) (lvl : Nat) (pteAddr : Address)
    (pte : Pte) : Except PageFault (WalkResult ⊕ BitVec 64) :=
  if !pte.isValid then
    .error ⟨"PTW: page fault, leaf PTE invalid", hexNumber pteAddr, access.opkind⟩
  else if pte.isLeaf then
    if 0 < lvl ∧ pte.ppn mode.ppnBits &&& lowMask 64 (lvl * mode.vpnBits) ≠ 0 then
      .error ⟨"PTW: misaligned superpage", "", access.opkind⟩
    else if !checkPermissions pte.flags rawSstatus access.priv access.opkind then
      .error ⟨"PTW: access fault (permission check failed)", "", access.opkind⟩
    else .ok (.inl ⟨mode.makePhys pte va lvl, pteAddr, some pte⟩)
  else if pte.flags.r || pte.flags.w || pte.flags.x then
    .error ⟨"PTW: invalid non-leaf", hexNumber pte, access.opkind⟩
  else .ok (.inr (pte.ppn mode.ppnBits))

/-- The levels of a walk below level `n`, from the table with page number `ppn` on. -/
def walkLevels (memory : MemPort) (va rawSstatus : BitVec 64) (access : AccessMode) :
    Nat → BitVec 64 → P → Access P WalkResult
  | 0, _, m => (.error ⟨"PTW: no leaf found", "", access.opkind⟩, m)
  | lvl + 1, ppn, m =>
    let pteAddr := mode.pteAddr va lvl ppn
    let (pte, m) := mode.readPte memory pteAddr m
    match mode.walkEntry va rawSstatus access lvl pteAddr pte with
    | .error fault => (.error fault, m)
    | .ok (.inl res) => (.ok res, m)
    | .ok (.inr ppn) => walkLevels memory va rawSstatus access lvl ppn m

def walk (memory : MemPort) (va rawSatp rawSstatus : BitVec 64) (access : AccessMode) (m : P) :
    Access P WalkResult :=
  if rawSatp &&& mode.satpModeMask = 0 then (.ok ⟨va, 0, none⟩, m)
  else
    mode.walkLevels memory va rawSstatus access (mode.maxLevelIdx + 1)
      (rawSatp &&& mode.satpPpnMask) m

end PagingMode

end QtRvSim
