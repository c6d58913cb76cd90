import QtRvSim.Library.OrderedMap
import QtRvSim.Memory.Backend

/-!
# Memory bus

The bus of `memory/memory_bus.cpp` maps ranges of addresses to devices.  Ranges are kept twice: by
their last address, for the lookup, and by device, for the removal.  The devices themselves are left
open; a bus access repeats accesses to single devices until nothing remains.
-/

namespace QtRvSim

variable {D σ : Type}

structure RangeDesc (D : Type) where
  device : D
  startAddr : Nat
  lastAddr : Nat
  ownsDevice : Bool
deriving DecidableEq, Repr

namespace RangeDesc

def contains (range : RangeDesc D) (address : Nat) : Bool :=
  range.startAddr ≤ address ∧ address ≤ range.lastAddr

/-- Only the ends of the supplied range are looked at. -/
def overlaps (range : RangeDesc D) (start last : Nat) : Bool :=
  range.contains start || range.contains last

end RangeDesc

/-- The devices behind a bus, with the states of all of them in one. -/
structure BackendDevices (D σ : Type) where
  read : D → Nat → Nat → σ → Outcome σ (List Byte)
  write : D → Nat → List Byte → σ → Outcome σ WriteResult

/-- The bus.  The ranges of one device are kept with the one inserted last first; `deleted` are the
devices that the bus has destroyed. -/
structure MemoryDataBus (D : Type) where
  rangesByDevice : List (RangeDesc D)
  rangesByAddr : OrderedMap Nat (RangeDesc D)
  changeCounter : BitVec 32
  deleted : List D

namespace MemoryDataBus

def new : MemoryDataBus D :=
  ⟨[], .empty, 0, []⟩

/-- The range of an address: the first one that ends at the address or later, if it has started
there. -/
def findRange (address : Nat) (bus : MemoryDataBus D) : Option (RangeDesc D) :=
  match bus.rangesByAddr.lowerBound address with
  | none => none
  | some (_, range) => if range.contains address then some range else none

def addRange (range : RangeDesc D) (bus : MemoryDataBus D) : MemoryDataBus D :=
  { bus with
    rangesByAddr := bus.rangesByAddr.insert range.lastAddr range
    rangesByDevice := range :: bus.rangesByDevice }

/-- Whether the range was free, and the bus with the device in it. -/
def insertDeviceToRange (device : D) (startAddr lastAddr : Nat) (moveOwnership : Bool)
    (bus : MemoryDataBus D) : Bool × MemoryDataBus D :=
  let range : RangeDesc D := ⟨device, startAddr, lastAddr, moveOwnership⟩
  match bus.rangesByAddr.lowerBound startAddr with
  | none => (true, bus.addRange range)
  | some (_, next) =>
    if next.overlaps startAddr lastAddr then (false, bus) else (true, bus.addRange range)

variable [DecidableEq D]

/-- Takes the range of a device that was inserted last. -/
def removeDevice (device : D) (bus : MemoryDataBus D) : Bool × MemoryDataBus D :=
  match bus.rangesByDevice.find? (·.device = device) with
  | none => (false, bus)
  | some range =>
    (true, { bus with
      rangesByDevice := bus.rangesByDevice.eraseP (·.device = device)
      rangesByAddr := bus.rangesByAddr.erase range.lastAddr
      deleted := if range.ownsDevice then range.device :: bus.deleted else bus.deleted })

/-- The loop of a cleaning over the entries it may visit; those that are gone by then are not
visited.  There is no result when the entry of the iterator itself is erased, which leaves the
iterator undefined. -/
def cleanEntries (lastAddr : Nat) :
    List (Nat × RangeDesc D) → MemoryDataBus D → Option (MemoryDataBus D)
  | [], bus => some bus
  | (key, range) :: rest, bus =>
    if bus.rangesByAddr.contains key then
      if range.startAddr ≤ lastAddr then
        let cleaned := (bus.removeDevice range.device).2
        if cleaned.rangesByAddr.contains key then cleanEntries lastAddr rest cleaned else none
      else
        some bus
    else
      cleanEntries lastAddr rest bus

def cleanRange (startAddr lastAddr : Nat) (bus : MemoryDataBus D) : Option (MemoryDataBus D) :=
  cleanEntries lastAddr (bus.rangesByAddr.tailFrom startAddr) bus

omit [DecidableEq D]

/-- A read from the device of an address.  Without a device the whole size is cleared. -/
def readSingle (devices : BackendDevices D σ) (bus : MemoryDataBus D) (source size : Nat)
    (s : σ) : Outcome σ (List Byte) :=
  match bus.findRange source with
  | none => (.ok (List.replicate size 0), s)
  | some range => devices.read range.device (source - range.startAddr) size s

def read (devices : BackendDevices D σ) (bus : MemoryDataBus D) (source size : Nat) (s : σ) :
    Outcome σ (List Byte) :=
  repeatAccessUntilCompleted List.length (· ++ ·)
    (fun current remaining => bus.readSingle devices (current % 2 ^ 64) remaining) (size + 1) source
    size [] s

/-- A write to the device of an address.  Without a device nothing is written. -/
def writeSingle (devices : BackendDevices D σ) (destination : Nat) (source : List Byte) :
    MemoryDataBus D × σ → Outcome (MemoryDataBus D × σ) WriteResult
  | (bus, s) =>
    match bus.findRange destination with
    | none => (.ok ⟨0, false⟩, bus, s)
    | some range =>
      match devices.write range.device (destination - range.startAddr) source s with
      | (.error e, s) => (.error e, bus, s)
      | (.ok result, s) =>
        (.ok result,
          if result.changed then { bus with changeCounter := bus.changeCounter + 1 } else bus,
          s)

def write (devices : BackendDevices D σ) (destination : Nat) (source : List Byte)
    (s : MemoryDataBus D × σ) : Outcome (MemoryDataBus D × σ) WriteResult :=
  repeatAccessUntilCompleted WriteResult.nBytes
    (fun a b => ⟨a.nBytes + b.nBytes, a.changed || b.changed⟩)
    (fun current remaining => writeSingle devices (current % 2 ^ 64)
      (source.drop (source.length - remaining)))
    (source.length + 1) destination source.length ⟨0, false⟩ s

end MemoryDataBus

end QtRvSim
