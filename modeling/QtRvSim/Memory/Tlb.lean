import QtRvSim.Memory.CachePolicy
import QtRvSim.Memory.PageTable

/-!
# Translation lookaside buffers

The TLB of `memory/tlb/tlb.cpp` with its replacement policies (`tlb_policy.cpp`), and the memory
system in which a program and a data TLB stand between the core and physical memory.  Both TLBs
walk page tables through the program port.  The counters of hits, misses and memory accesses are
statistics and left out.
-/

namespace QtRvSim

open ByteMemory BitFields

inductive TlbPolicyKind where
  | rand | lru | lfu | plru
deriving DecidableEq, Repr

/-- Configuration of a TLB; the setters of the source keep the sizes positive. -/
structure TlbConfig where
  numSets : Nat
  associativity : Nat
  replacementPolicy : TlbPolicyKind
  numSets_pos : 0 < numSets
  associativity_pos : 0 < associativity

/-- State of a replacement policy; the tables are indexed by the set. -/
inductive TlbPolicy where
  | rand (random : Nat → Nat)
  | lru (stats : Nat → List Nat)
  | lfu (stats : Nat → List (BitVec 32))
  | plru (cLog2 : Nat) (tree : Nat → List Nat)

namespace TlbPolicy

/-- Search for the least used way; an unused way from `i` on ends it. -/
def selectLeast : Nat → Nat → BitVec 32 → List (BitVec 32) → Nat
  | _, idx, _, [] => idx
  | i, idx, minv, stat :: stats =>
    if stat = 0 then i
    else if stat < minv then selectLeast (i + 1) i stat stats
    else selectLeast (i + 1) idx minv stats

/-- Turns the bits of the tree away from the accessed way, in `n` levels from level `lvl` on.  The
next node is found from the last direction alone. -/
def turnBits (cLog2 way : Nat) : Nat → Nat → Nat → List Nat → List Nat
  | 0, _, _, bits => bits
  | n + 1, lvl, node, bits =>
    let dir := (way >>> (cLog2 - lvl - 1)) % 2
    turnBits cLog2 way n (lvl + 1) (2 ^ (lvl + 1) - 1 + dir)
      (bits.set node (if dir = 1 then 0 else 1))

def makeTlbPolicy (lib : CLibrary) (kind : TlbPolicyKind) (associativity : Nat) : TlbPolicy :=
  match kind with
  | .rand => .rand lib.rand
  | .lru => .lru fun _ => List.range associativity
  | .lfu => .lfu fun _ => List.replicate associativity 0
  | .plru => .plru (lib.ceilLog2 associativity) fun _ =>
    List.replicate (2 ^ lib.ceilLog2 associativity - 1) 0

/-- The way to replace, and the policy with the rest of its random numbers. -/
def selectWay (associativity set : Nat) : TlbPolicy → Nat × TlbPolicy
  | .rand random => (random 0 % associativity, .rand fun n => random (n + 1))
  | .lru stats => ((stats set).headD 0, .lru stats)
  | .lfu stats => (selectLeast 1 0 ((stats set).headD 0) (stats set).tail, .lfu stats)
  | .plru cLog2 tree =>
    (min (followPointers (tree set) cLog2 0 0 0) (associativity - 1), .plru cLog2 tree)

def notifyAccess (set way : Nat) (valid : Bool) : TlbPolicy → TlbPolicy
  | .rand random => .rand random
  | .lru stats => .lru (CachePolicy.setRow stats set
      (if valid then (bubble way way (stats set).reverse).1.reverse
        else (bubble way way (stats set)).1))
  | .lfu stats => .lfu (CachePolicy.setRow stats set
      ((stats set).set way (if valid then (stats set).getD way 0 + 1 else 0)))
  | .plru cLog2 tree => .plru cLog2 (CachePolicy.setRow tree set
      (turnBits cLog2 way cLog2 0 0 (tree set)))

end TlbPolicy

structure TlbEntry where
  valid : Bool
  asid : BitVec 16
  vpn : BitVec 64
  phys : Address
  pteAddr : Address
  pteBytes : Nat
  flags : PteFlags
deriving DecidableEq, Repr

/-- State of a TLB; entries are indexed by set and way. -/
structure Tlb where
  table : Nat → Nat → TlbEntry
  replPolicy : TlbPolicy
  currentSatpRaw : BitVec 64
  currentSstatusRaw : BitVec 64

/-- What is fixed when a TLB is constructed: its configuration and the ports for the accesses
themselves and for page-table walks. -/
structure TlbSetup where
  config : TlbConfig
  xlen : Xlen
  vmEnabled : Bool
  mem : MemPort
  ptWalkMem : MemPort

/-- Result of a translation; the entry is the place of the mapping in the table. -/
structure TranslationResult where
  phys : Address
  bytesUntilPageEnd : Nat
  entry : Option (Nat × Nat)
deriving DecidableEq, Repr

/-- A page-table entry with the accessed bit, and for a write the dirty bit, set. -/
def Pte.withAd (raw : Pte) (op : AccessOp) : Pte :=
  raw ||| 1#64 <<< 6 ||| (if op = .write then 1#64 <<< 7 else 0)

def pageBytes : Nat := 2 ^ pageShift

namespace TlbSetup

variable {P : Type} [PhysicalMemory P] (su : TlbSetup)

def setIndex (vpn : BitVec 64) : Nat :=
  vpn.toNat &&& (su.config.numSets - 1)

def isModeEnabledInSatp (satpRaw : BitVec 64) : Bool :=
  match su.xlen with
  | ._32 => satpRaw &&& 1#64 <<< 31 != 0
  | ._64 => (satpRaw >>> 60) &&& 0xf != 0

def shouldTranslate (t : Tlb) (priv : PrivilegeLevel) : Bool :=
  su.vmEnabled && su.isModeEnabledInSatp t.currentSatpRaw && priv != .machine

def hitWay (t : Tlb) (vpn : BitVec 64) (asid : BitVec 16) : Option Nat :=
  (List.range su.config.associativity).find? fun w =>
    let e := t.table (su.setIndex vpn) w
    e.valid && e.vpn == vpn && e.asid == asid

end TlbSetup

namespace Tlb

/-- A TLB after its construction.  The flags of an unused entry have no value in the source. -/
def new (lib : CLibrary) (config : TlbConfig) (flags : PteFlags) : Tlb where
  table _ _ := ⟨false, 0, 0, 0, 0, 0, flags⟩
  replPolicy := .makeTlbPolicy lib config.replacementPolicy config.associativity
  currentSatpRaw := 0
  currentSstatusRaw := 0

def setEntry (t : Tlb) (set way : Nat) (e : TlbEntry) : Tlb :=
  { t with table := fun s w => if s = set ∧ w = way then e else t.table s w }

/-- Makes the entries that meet a condition invalid. -/
def invalidate (t : Tlb) (p : Nat → TlbEntry → Bool) : Tlb :=
  { t with
    table := fun s w =>
      if p s (t.table s w) then { t.table s w with valid := false } else t.table s w }

def flushAllEntries (t : Tlb) : Tlb := t.invalidate fun _ _ => true

def flushByAsid (t : Tlb) (asid : BitVec 16) : Tlb := t.invalidate fun _ e => e.asid == asid

def flushByVpn (t : Tlb) (vpn : BitVec 64) : Tlb := t.invalidate fun _ e => e.vpn == vpn

end Tlb

namespace TlbSetup

variable {P : Type} [PhysicalMemory P] (su : TlbSetup)

/-- Only the set of the page is searched; ASID 0 stands for every ASID. -/
def flushSingle (t : Tlb) (va : BitVec 64) (asid : BitVec 16) : Tlb :=
  t.invalidate fun s e =>
    s == su.setIndex (va >>> pageShift) && e.vpn == va >>> pageShift &&
      (e.asid == asid || asid == 0)

def sfenceVma (t : Tlb) (vaddr asid : BitVec 64) : Tlb :=
  if vaddr = 0 ∧ asid = 0 then t.flushAllEntries
  else if vaddr ≠ 0 ∧ asid ≠ 0 then su.flushSingle t vaddr (asid.setWidth 16)
  else if vaddr = 0 ∧ asid ≠ 0 then t.flushByAsid (asid.setWidth 16)
  else t.flushByVpn (vaddr >>> pageShift)

def onCsrWrite (t : Tlb) (signal : Csr.Signal) : Tlb :=
  if signal.1 = .sstatus then { t with currentSstatusRaw := signal.2 }
  else if signal.1 ≠ .satp then t
  else
    let t' := { t with currentSatpRaw := signal.2 }
    if su.isModeEnabledInSatp t.currentSatpRaw ≠ su.isModeEnabledInSatp signal.2 then
      t'.flushAllEntries
    else t'

/-- Keeps the mapping a walk found in the way the policy selects. -/
def cacheMapping (t : Tlb) (vpn : BitVec 64) (asid : BitVec 16) (res : WalkResult) : Nat × Tlb :=
  let s := su.setIndex vpn
  let (victim, policy) := t.replPolicy.selectWay su.config.associativity s
  let ent : TlbEntry :=
    { valid := true
      asid := asid
      vpn := vpn
      phys := res.phys &&& ~~~lowMask 64 pageShift
      pteAddr := res.pteAddr
      pteBytes := su.xlen.pagingMode.rawBytes
      flags := (res.leafPte.getD 0).flags }
  (victim, { t.setEntry s victim ent with replPolicy := policy.notifyAccess s victim true })

def translateVirtualToPhysical (vaddr : AddressWithMode) (t : Tlb) (m : P) :
    Except PageFault TranslationResult × Tlb × P :=
  let virt := vaddr.address
  if !su.shouldTranslate t vaddr.mode.priv then (.ok ⟨virt, 2 ^ 64 - 1, none⟩, t, m)
  else
    let off := virt &&& lowMask 64 pageShift
    let vpn := virt >>> pageShift
    let s := su.setIndex vpn
    match su.hitWay t vpn vaddr.mode.asid with
    | some w =>
      let e := t.table s w
      if !checkPermissions e.flags t.currentSstatusRaw vaddr.mode.priv vaddr.mode.opkind then
        (.error ⟨"TLB: access fault on TLB hit", "", vaddr.mode.opkind⟩, t, m)
      else
        (.ok ⟨(e.phys &&& ~~~lowMask 64 pageShift) + off, pageBytes - off.toNat, some (s, w)⟩,
          { t with replPolicy := t.replPolicy.notifyAccess s w true }, m)
    | none =>
      match su.xlen.pagingMode.walk su.ptWalkMem virt t.currentSatpRaw t.currentSstatusRaw
        vaddr.mode m with
      | (.error fault, m) => (.error fault, t, m)
      | (.ok res, m) =>
        let (victim, t) := su.cacheMapping t vpn vaddr.mode.asid res
        (.ok ⟨(res.phys &&& ~~~lowMask 64 pageShift) + off, pageBytes - off.toNat,
          some (s, victim)⟩, t, m)

/-- Sets the accessed bit, and for a write the dirty bit, of an entry and of its page-table entry.
The memory is written only if a bit changes. -/
def ensureAdBits (place : Nat × Nat) (op : AccessOp) (t : Tlb) (m : P) : Tlb × P :=
  let e := t.table place.1 place.2
  let (bytes, m) := PhysicalMemory.read su.ptWalkMem e.pteAddr e.pteBytes m
  let raw : Pte := BitVec.ofNat 64 (valueOfBytes .little bytes)
  let updated := raw.withAd op
  let flags := { e.flags with a := true, d := e.flags.d || op == .write }
  (t.setEntry place.1 place.2 { e with flags := flags },
    if updated ≠ raw then
      PhysicalMemory.write su.ptWalkMem e.pteAddr (bytesOfValue .little e.pteBytes updated.toNat) m
    else m)

/-- Translates an address and marks the page as accessed by `op`, as each step of a read or a
write does. -/
def translateAndMark (vaddr : AddressWithMode) (op : AccessOp) (t : Tlb) (m : P) :
    Except PageFault TranslationResult × Tlb × P :=
  match su.translateVirtualToPhysical vaddr t m with
  | (.error fault, t, m) => (.error fault, t, m)
  | (.ok tr, t, m) =>
    match tr.entry with
    | none => (.ok tr, t, m)
    | some place => (.ok tr, su.ensureAdBits place op t m)

/-- Reads page by page.  Each step moves at least one byte, so `fuel` steps move `fuel` bytes. -/
def translateAndReadLoop (mode : AccessMode) : Nat → BitVec 64 → Nat → Tlb → P →
    Except PageFault (List Byte) × Tlb × P
  | 0, _, _, t, m => (.ok [], t, m)
  | fuel + 1, curVirt, remaining, t, m =>
    if remaining = 0 then (.ok [], t, m)
    else
      match su.translateAndMark ⟨curVirt, mode⟩ .read t m with
      | (.error fault, t, m) => (.error fault, t, m)
      | (.ok tr, t, m) =>
        let bytesToRead := min remaining tr.bytesUntilPageEnd
        let (bytes, m) := PhysicalMemory.read su.mem tr.phys bytesToRead m
        match translateAndReadLoop mode fuel (curVirt + BitVec.ofNat 64 bytesToRead)
          (remaining - bytesToRead) t m with
        | (.ok rest, t, m) => (.ok (bytes ++ rest), t, m)
        | (.error fault, t, m) => (.error fault, t, m)

def translateAndRead (src : AddressWithMode) (size : Nat) (t : Tlb) (m : P) :
    Except PageFault (List Byte) × Tlb × P :=
  su.translateAndReadLoop src.mode size src.address size t m

/-- Writes page by page, with the fuel of `translateAndReadLoop`. -/
def translateAndWriteLoop (mode : AccessMode) : Nat → BitVec 64 → List Byte → Tlb → P →
    Except PageFault Unit × Tlb × P
  | 0, _, _, t, m => (.ok (), t, m)
  | fuel + 1, curVirt, src, t, m =>
    if src.length = 0 then (.ok (), t, m)
    else
      match su.translateAndMark ⟨curVirt, mode⟩ .write t m with
      | (.error fault, t, m) => (.error fault, t, m)
      | (.ok tr, t, m) =>
        let bytesToWrite := min src.length tr.bytesUntilPageEnd
        let m := PhysicalMemory.write su.mem tr.phys (src.take bytesToWrite) m
        translateAndWriteLoop mode fuel (curVirt + BitVec.ofNat 64 bytesToWrite)
          (src.drop bytesToWrite) t m

def translateAndWrite (dst : AddressWithMode) (src : List Byte) (t : Tlb) (m : P) :
    Except PageFault Unit × Tlb × P :=
  su.translateAndWriteLoop dst.mode src.length dst.address src t m

theorem translateAndReadLoop_zero (mode : AccessMode) (fuel : Nat) (curVirt : BitVec 64) (t : Tlb)
    (m : P) : su.translateAndReadLoop mode fuel curVirt 0 t m = (.ok [], t, m) := by
  cases fuel <;> rfl

theorem translateAndWriteLoop_nil (mode : AccessMode) (fuel : Nat) (curVirt : BitVec 64) (t : Tlb)
    (m : P) : su.translateAndWriteLoop mode fuel curVirt [] t m = (.ok (), t, m) := by
  cases fuel <;> rfl

/-- An invariant of translations and reads is one of reads of any size. -/
theorem translateAndReadLoop_inv {mode : AccessMode} (inv : Tlb → P → Prop)
    (hmark : ∀ virt t m, inv t m → inv (su.translateAndMark ⟨virt, mode⟩ .read t m).2.1
      (su.translateAndMark ⟨virt, mode⟩ .read t m).2.2)
    (hread : ∀ phys n t m, inv t m → inv t (PhysicalMemory.read su.mem phys n m).2) (fuel : Nat)
    (virt : BitVec 64) (n : Nat) {t : Tlb} {m : P} (h : inv t m) :
    inv (su.translateAndReadLoop mode fuel virt n t m).2.1
      (su.translateAndReadLoop mode fuel virt n t m).2.2 := by
  fun_induction su.translateAndReadLoop mode fuel virt n t m with
  | case1 | case2 => exact h
  | case3 _ virt _ t m _ _ _ _ hfault =>
    have hnext := hmark virt t m h
    rwa [hfault] at hnext
  | case4 _ virt _ t m _ tr _ m' hok k _ _ hpiece _ _ _ hloop ih
  | case5 _ virt _ t m _ tr _ m' hok k _ _ hpiece _ _ _ hloop ih =>
    have hnext := hread tr.phys k _ _ (hmark virt t m h)
    rw [hok, hpiece] at hnext
    have hrest := ih hnext
    rwa [hloop] at hrest

end TlbSetup

structure VmSetup where
  xlen : Xlen
  vmEnabled : Bool
  tlbcProgram : TlbConfig
  tlbcData : TlbConfig

def VmSetup.program (vm : VmSetup) : TlbSetup :=
  ⟨vm.tlbcProgram, vm.xlen, vm.vmEnabled, .program, .program⟩

/-- The data TLB walks through the program port. -/
def VmSetup.data (vm : VmSetup) : TlbSetup :=
  ⟨vm.tlbcData, vm.xlen, vm.vmEnabled, .data, .program⟩

/-- A memory system with two TLBs over physical memory. -/
structure VirtualMemory (vm : VmSetup) (P : Type) where
  tlbProgram : Tlb
  tlbData : Tlb
  mem : P

namespace VirtualMemory

variable {vm : VmSetup} {P : Type} [PhysicalMemory P]

def tlb (s : VirtualMemory vm P) : MemPort → Tlb
  | .program => s.tlbProgram
  | .data => s.tlbData

def setup (vm : VmSetup) : MemPort → TlbSetup
  | .program => vm.program
  | .data => vm.data

def put (s : VirtualMemory vm P) (port : MemPort) (t : Tlb) (m : P) : VirtualMemory vm P :=
  match port with
  | .program => { s with tlbProgram := t, mem := m }
  | .data => { s with tlbData := t, mem := m }

instance : FrontendMemory (VirtualMemory vm P) where
  read port address size s :=
    let (result, t, m) := (setup vm port).translateAndRead address size (s.tlb port) s.mem
    (result, s.put port t m)
  write port address bytes s :=
    let (result, t, m) := (setup vm port).translateAndWrite address bytes (s.tlb port) s.mem
    (result, s.put port t m)
  sync port s := { s with mem := PhysicalMemory.sync (setup vm port).mem s.mem }
  sfenceVma port vaddr asid s :=
    s.put port ((setup vm port).sfenceVma (s.tlb port) vaddr asid) s.mem
  onCsrWrite signal s :=
    { s with
      tlbProgram := vm.program.onCsrWrite s.tlbProgram signal
      tlbData := vm.data.onCsrWrite s.tlbData signal }

end VirtualMemory

end QtRvSim
