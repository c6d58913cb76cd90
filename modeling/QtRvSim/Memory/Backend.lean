import QtRvSim.Machine.Machinedefs
import QtRvSim.Library.AddressMap
import QtRvSim.Library.RadixTree
import Mathlib.Tactic.IntervalCases

/-!
# Sparse memory

The backing memory (`memory/backend/memory.cpp`) keeps sections of 256 bytes under a tree of
rows with 16 pointers; a section is allocated by the first write to it.  An access is cut at
section boundaries and repeated until it is complete.  The memory is compared with a flat map
from addresses to bytes.
-/

namespace QtRvSim

structure MemorySection (length : Nat) where
  dt : Nat → Byte

structure WriteResult where
  nBytes : Nat
  changed : Bool
deriving DecidableEq, Repr

namespace MemorySection

variable {length : Nat}

def new : MemorySection length :=
  ⟨fun _ => 0⟩

def write (s : MemorySection length) (destination : Nat) (source : List Byte) :
    Outcome (MemorySection length) WriteResult :=
  if length ≤ destination then
    (.error ⟨.outOfMemoryAccess, "Trying to write outside of the memory section",
      "Accessing using offset: " ++ toString destination, .none⟩, s)
  else
    let availableSize := min (destination + source.length) length - destination
    let changed := source.take availableSize != AddressMap.read s.dt destination availableSize
    (.ok ⟨availableSize, changed⟩,
      if changed then ⟨AddressMap.write s.dt destination (source.take availableSize)⟩ else s)

def read (s : MemorySection length) (source size : Nat) : Except SimulatorException (List Byte) :=
  if length ≤ source then
    .error ⟨.outOfMemoryAccess, "Trying to read outside of the memory section",
      "Accessing using offset: " ++ toString source, .none⟩
  else
    .ok (AddressMap.read s.dt source (min (source + size) length - source))

theorem write_of_lt (s : MemorySection length) {destination : Nat} (source : List Byte)
    (hlt : destination < length) : ∃ changed,
      s.write destination source =
        (.ok ⟨min (destination + source.length) length - destination, changed⟩,
          ⟨AddressMap.write s.dt destination
            (source.take (min (destination + source.length) length - destination))⟩) := by
  rw [write, if_neg (Nat.not_le.mpr hlt)]
  generalize min (destination + source.length) length - destination = availableSize
  by_cases hsame : source.take availableSize = AddressMap.read s.dt destination availableSize
  · refine ⟨false, ?_⟩
    simp only [hsame, bne_self_eq_false, AddressMap.write_read, Bool.false_eq_true, if_false]
  · refine ⟨true, ?_⟩
    simp only [bne_iff_ne.mpr hsame, if_true]

theorem read_of_lt (s : MemorySection length) {source : Nat} (size : Nat)
    (hlt : source < length) :
    s.read source size =
      .ok (AddressMap.read s.dt source (min (source + size) length - source)) := by
  rw [read, if_neg (Nat.not_le.mpr hlt)]

end MemorySection

/-- Repeats an access at the current address and with the remaining size until nothing remains
or an access makes no progress.  The fuel bounds the number of repetitions. -/
def repeatAccessUntilCompleted {σ ρ : Type} (nBytes : ρ → Nat) (add : ρ → ρ → ρ)
    (function : Nat → Nat → σ → Outcome σ ρ) : Nat → Nat → Nat → ρ → σ → Outcome σ ρ
  | 0, _, _, totalResult, s => (.ok totalResult, s)
  | fuel + 1, current, remainingSize, totalResult, s =>
    match function current remainingSize s with
    | (.error e, s') => (.error e, s')
    | (.ok result, s') =>
      if nBytes result = 0 then
        (.ok totalResult, s')
      else if 0 < remainingSize - nBytes result then
        repeatAccessUntilCompleted nBytes add function fuel (current + nBytes result)
          (remainingSize - nBytes result) (add totalResult result) s'
      else
        (.ok (add totalResult result), s')

/-- Index of the pointer of row `i` on the way to the section of an address. -/
def getTreeRow (offset i : Nat) : Fin 16 :=
  ⟨offset / 2 ^ (28 - 4 * i) % 16, Nat.mod_lt _ (by decide)⟩

def getSectionOffsetMask (offset : Nat) : Nat :=
  offset % 256

structure Memory where
  mtRoot : RadixTree (MemorySection 256) (Fin 16)

namespace Memory

def new : Memory :=
  ⟨.row fun _ => .null⟩

def section? (m : Memory) (offset : Nat) : Option (MemorySection 256) :=
  m.mtRoot.lookup (getTreeRow offset) 6 0

def setSection (m : Memory) (offset : Nat) (sec : MemorySection 256) : Memory :=
  ⟨m.mtRoot.store (getTreeRow offset) sec 6 0⟩

/-- The section of an address for a write, allocated on demand. -/
def getSection (m : Memory) (offset : Nat) : MemorySection 256 :=
  (m.section? offset).getD .new

/-- One access of a write: the end of the source goes to the section of the current address. -/
def writeSection (source : List Byte) (destination size : Nat) (m : Memory) :
    Outcome Memory WriteResult :=
  match (m.getSection destination).write (getSectionOffsetMask destination)
      (source.drop (source.length - size)) with
  | (result, sec) => (result, m.setSection destination sec)

def write (m : Memory) (destination : Nat) (source : List Byte) : Outcome Memory WriteResult :=
  repeatAccessUntilCompleted WriteResult.nBytes
    (fun a b => ⟨a.nBytes + b.nBytes, a.changed || b.changed⟩) (writeSection source)
    (source.length + 1) destination source.length ⟨0, false⟩ m

/-- One access of a read.  Without a section the whole remaining size is cleared. -/
def readSection (source size : Nat) (m : Memory) : Outcome Memory (List Byte) :=
  match m.section? source with
  | none => (.ok (List.replicate size 0), m)
  | some sec => (sec.read (getSectionOffsetMask source) size, m)

def read (m : Memory) (source size : Nat) : Outcome Memory (List Byte) :=
  repeatAccessUntilCompleted List.length (· ++ ·) readSection (size + 1) source size [] m

/-- The byte at an address; the memory without a section is zero. -/
def byteAt (m : Memory) (address : Nat) : Byte :=
  match m.section? address with
  | none => 0
  | some sec => sec.dt (getSectionOffsetMask address)

/-! ### Sections and addresses -/

/-- Two addresses lie in the same section; the tree looks at 32 bits of an address. -/
def SameSection (x y : Nat) : Prop :=
  x / 256 % 2 ^ 24 = y / 256 % 2 ^ 24

variable {x y : Nat}

/-- Two addresses have the same way through the tree exactly if they are in the same section. -/
theorem sameKey_getTreeRow :
    RadixTree.SameKey (getTreeRow x) (getTreeRow y) 6 0 ↔ SameSection x y := by
  constructor
  · intro hsame
    have hdigit (j : Nat) (hj : j < 6) : x / 2 ^ (28 - 4 * j) % 16 = y / 2 ^ (28 - 4 * j) % 16 :=
      Fin.mk.inj (hsame j (Nat.zero_le j) (by omega))
    have h0 := hdigit 0 (by decide)
    have h1 := hdigit 1 (by decide)
    have h2 := hdigit 2 (by decide)
    have h3 := hdigit 3 (by decide)
    have h4 := hdigit 4 (by decide)
    have h5 := hdigit 5 (by decide)
    simp only [Nat.reduceMul, Nat.reduceSub, Nat.reducePow] at h0 h1 h2 h3 h4 h5
    show x / 256 % 2 ^ 24 = y / 256 % 2 ^ 24
    omega
  · intro hsec j _ hj
    have hsec : x / 256 % 2 ^ 24 = y / 256 % 2 ^ 24 := hsec
    refine Fin.ext ?_
    show x / 2 ^ (28 - 4 * j) % 16 = y / 2 ^ (28 - 4 * j) % 16
    interval_cases j <;> simp only [Nat.reduceMul, Nat.reduceSub, Nat.reducePow] <;> omega

variable (m : Memory)

theorem section?_setSection_same (sec : MemorySection 256) (hsec : SameSection x y) :
    (m.setSection x sec).section? y = some sec :=
  RadixTree.lookup_store_same sec (sameKey_getTreeRow.mpr hsec) m.mtRoot

theorem section?_setSection_other (sec : MemorySection 256) (hsec : ¬ SameSection x y) :
    (m.setSection x sec).section? y = m.section? y :=
  RadixTree.lookup_store_other sec (mt sameKey_getTreeRow.mp hsec) m.mtRoot

theorem section?_congr (hsec : SameSection x y) : m.section? x = m.section? y :=
  RadixTree.lookup_congr (sameKey_getTreeRow.mpr hsec) m.mtRoot

theorem byteAt_eq_getSection (hsec : SameSection x y) :
    m.byteAt y = (m.getSection x).dt (getSectionOffsetMask y) := by
  rw [byteAt, getSection, section?_congr m hsec]
  cases m.section? y <;> rfl

/-- Allocating a section does not change the flat view. -/
theorem byteAt_setSection_getSection (destination x : Nat) :
    (m.setSection destination (m.getSection destination)).byteAt x = m.byteAt x := by
  by_cases hsec : SameSection destination x
  · rw [byteAt_eq_getSection m hsec, byteAt, section?_setSection_same m _ hsec]
  · rw [byteAt, section?_setSection_other m _ hsec]
    rfl

variable {destination : Nat}

/-- Storing bytes into one section stores them into the flat view. -/
theorem byteAt_setSection {bs : List Byte}
    (hfits : getSectionOffsetMask destination + bs.length ≤ 256) (hdst : destination < 2 ^ 32)
    (hx : x < 2 ^ 32) :
    (m.setSection destination ⟨AddressMap.write (m.getSection destination).dt
      (getSectionOffsetMask destination) bs⟩).byteAt x =
        AddressMap.write m.byteAt destination bs x := by
  simp only [getSectionOffsetMask] at hfits
  have hdst' : destination / 256 % 2 ^ 24 = destination / 256 := by omega
  have hx' : x / 256 % 2 ^ 24 = x / 256 := by omega
  by_cases hsec : SameSection destination x
  · have hcell : (m.getSection destination).dt (x % 256) = m.byteAt (x % 256 + x / 256 * 256) := by
      rw [Nat.mod_add_div', byteAt_eq_getSection m hsec, getSectionOffsetMask]
    rw [byteAt, section?_setSection_same m _ hsec]
    rw [SameSection, hdst', hx'] at hsec
    show AddressMap.write _ (destination % 256) bs (x % 256) = _
    rw [AddressMap.write_shift (x / 256 * 256) bs hcell, Nat.mod_add_div', ← hsec, Nat.mod_add_div']
  · rw [byteAt, section?_setSection_other m _ hsec]
    rw [SameSection, hdst', hx'] at hsec
    rcases Nat.lt_or_ge x destination with hlt | hge
    · exact (AddressMap.write_of_lt m.byteAt bs hlt).symm
    · exact (AddressMap.write_of_ge m.byteAt (by omega)).symm

/-! ### Writes -/

variable {size : Nat}

/-- One access of a write stores the part of the source that fits into the section. -/
theorem writeSection_ok {source : List Byte} (hsize : size ≤ source.length)
    (hdst : destination + size ≤ 2 ^ 32) :
    ∃ r m', writeSection source destination size m = (.ok r, m') ∧
      r.nBytes = min (destination % 256 + size) 256 - destination % 256 ∧
      ∀ x, x < 2 ^ 32 → m'.byteAt x = AddressMap.write m.byteAt destination
        ((source.drop (source.length - size)).take r.nBytes) x := by
  have hrest : (source.drop (source.length - size)).length = size := by
    rw [List.length_drop]
    omega
  have hmask : getSectionOffsetMask destination < 256 := Nat.mod_lt _ (by decide)
  obtain ⟨changed, hwrite⟩ := (m.getSection destination).write_of_lt
    (source.drop (source.length - size)) hmask
  refine ⟨_, _, by rw [writeSection, hwrite], ?_, ?_⟩
  · rw [hrest]
    rfl
  intro x hx
  cases size with
  | zero =>
    -- an empty write still allocates, possibly at the address `2 ^ 32`
    rw [List.eq_nil_of_length_eq_zero hrest]
    simp only [List.take_nil, AddressMap.write_nil]
    exact byteAt_setSection_getSection m destination x
  | succ n =>
    refine byteAt_setSection m ?_ (by omega) hx
    rw [List.length_take]
    omega

/-- The loop of a write, from any of its iterations on, stores what remains of the source. -/
theorem repeat_writeSection (source : List Byte) (add : WriteResult → WriteResult → WriteResult)
    {fuel : Nat} (total : WriteResult) (m : Memory) (hfuel : size < fuel)
    (hsize : size ≤ source.length) (hdst : destination + size ≤ 2 ^ 32) :
    ∃ r m', repeatAccessUntilCompleted WriteResult.nBytes add (writeSection source) fuel
        destination size total m = (.ok r, m') ∧
      ∀ x, x < 2 ^ 32 → m'.byteAt x =
        AddressMap.write m.byteAt destination (source.drop (source.length - size)) x := by
  induction fuel generalizing destination size total m with
  | zero => exact absurd hfuel (by omega)
  | succ fuel ih =>
    obtain ⟨r, m₁, hstep, hbytes, hview⟩ := writeSection_ok m hsize hdst
    have hrest : (source.drop (source.length - size)).length = size := by
      rw [List.length_drop]
      omega
    simp only [repeatAccessUntilCompleted, hstep]
    by_cases hlast : size ≤ r.nBytes
    · rw [List.take_of_length_le (by omega)] at hview
      by_cases hzero : r.nBytes = 0
      · exact ⟨total, m₁, by rw [if_pos hzero], hview⟩
      · exact ⟨add total r, m₁, by rw [if_neg hzero, if_neg (by omega)], hview⟩
    · have hfirst : r.nBytes ≠ 0 := by omega
      obtain ⟨r', m₂, hloop, hview₂⟩ := @ih (destination + r.nBytes) (size - r.nBytes)
        (add total r) m₁ (by omega) (by omega) (by omega)
      refine ⟨r', m₂, by rw [if_neg hfirst, if_pos (by omega), hloop], ?_⟩
      intro x hx
      have hpieces : source.drop (source.length - size) =
          (source.drop (source.length - size)).take r.nBytes ++
            source.drop (source.length - (size - r.nBytes)) := by
        conv_lhs => rw [← List.take_append_drop r.nBytes (source.drop (source.length - size))]
        rw [List.drop_drop, show source.length - size + r.nBytes =
          source.length - (size - r.nBytes) by omega]
      have hfirst : ((source.drop (source.length - size)).take r.nBytes).length = r.nBytes := by
        rw [List.length_take, hrest]
        omega
      calc m₂.byteAt x
          = AddressMap.write m₁.byteAt (destination + r.nBytes)
              (source.drop (source.length - (size - r.nBytes))) x := hview₂ x hx
        _ = AddressMap.write (AddressMap.write m.byteAt destination
              ((source.drop (source.length - size)).take r.nBytes)) (destination + r.nBytes)
              (source.drop (source.length - (size - r.nBytes))) x :=
            AddressMap.write_shift 0 _ (hview x hx)
        _ = AddressMap.write m.byteAt destination (source.drop (source.length - size)) x := by
            conv_rhs => rw [hpieces, AddressMap.write_append, hfirst]

/-- A write below `2 ^ 32` never throws and stores its bytes into the flat view. -/
theorem write_ok (m : Memory) {destination : Nat} {source : List Byte}
    (hrange : destination + source.length ≤ 2 ^ 32) :
    ∃ r m', m.write destination source = (.ok r, m') ∧
      ∀ x, x < 2 ^ 32 → m'.byteAt x = AddressMap.write m.byteAt destination source x := by
  obtain ⟨r, m', hwrite, hview⟩ := repeat_writeSection source
    (fun a b => ⟨a.nBytes + b.nBytes, a.changed || b.changed⟩) ⟨0, false⟩ m
    (Nat.lt_succ_self source.length) (Nat.le_refl source.length) hrange
  refine ⟨r, m', hwrite, ?_⟩
  rwa [Nat.sub_self, List.drop_zero] at hview

/-! ### Reads -/

/-- Some address from `start` up to `address` has no section. -/
def Gap (m : Memory) (start address : Nat) : Prop :=
  ∃ x, start ≤ x ∧ x ≤ address ∧ m.section? x = none

open Classical in
/-- What a read that starts at `start` finds at an address: after a gap nothing but zeros. -/
noncomputable def readView (m : Memory) (start address : Nat) : Byte :=
  if m.Gap start address then 0 else m.byteAt address

theorem sameSection_of_lt (hle : x ≤ y) (hlt : y < x + (256 - x % 256)) : SameSection x y := by
  have hdiv : x / 256 = y / 256 := by omega
  rw [SameSection, hdiv]

theorem readView_of_gap {m : Memory} {start address : Nat} (hgap : m.Gap start address) :
    m.readView start address = 0 :=
  if_pos hgap

theorem readView_of_not_gap {m : Memory} {start address : Nat} (hgap : ¬ m.Gap start address) :
    m.readView start address = m.byteAt address :=
  if_neg hgap

variable {source : Nat}

/-- Without a section the read view is zero. -/
theorem read_readView_of_none {m : Memory} (size : Nat) (hsec : m.section? source = none) :
    AddressMap.read (m.readView source) source size = List.replicate size 0 := by
  apply AddressMap.read_eq_replicate
  intro x hx _
  exact readView_of_gap ⟨source, Nat.le_refl source, hx, hsec⟩

/-- A section that is allocated holds the read view up to its end. -/
theorem read_readView_of_some {m : Memory} {sec : MemorySection 256}
    (hsec : m.section? source = some sec) (hsize : size ≤ 256 - source % 256) :
    AddressMap.read sec.dt (source % 256) size =
      AddressMap.read (m.readView source) source size := by
  have hcells (x : Nat) (hx : source % 256 ≤ x) (hx' : x < source % 256 + size) :
      sec.dt x = m.readView source (x + source / 256 * 256) := by
    have hgap : ¬ m.Gap source (x + source / 256 * 256) := by
      rintro ⟨y, hy, hy', hnone⟩
      rw [← section?_congr m (sameSection_of_lt hy (by omega)), hsec] at hnone
      exact absurd hnone (by simp)
    have hsame : SameSection source (x + source / 256 * 256) :=
      sameSection_of_lt (by omega) (by omega)
    rw [readView_of_not_gap hgap, byteAt_eq_getSection m hsame, getSection, hsec,
      Option.getD_some, getSectionOffsetMask]
    congr 1
    omega
  rw [AddressMap.read_shift (source / 256 * 256) hcells, Nat.mod_add_div']

/-- One access of a read: from some section, up to its end. -/
theorem readSection_of_some {m : Memory} {source size : Nat} {sec : MemorySection 256}
    (hsec : m.section? source = some sec) :
    ∃ n, n = min size (256 - source % 256) ∧
      readSection source size m = (.ok (AddressMap.read (m.readView source) source n), m) := by
  have hmask : getSectionOffsetMask source < 256 := Nat.mod_lt _ (by decide)
  refine ⟨_, rfl, ?_⟩
  simp only [readSection, hsec, sec.read_of_lt size hmask]
  rw [← read_readView_of_some hsec (Nat.min_le_right _ _), getSectionOffsetMask]
  congr 3
  omega

/-- Behind an allocated part of the range the read view stays the same. -/
theorem readView_of_allocated {m : Memory} {start next : Nat}
    (hall : ∀ y, start ≤ y → y < next → m.section? y ≠ none) (hle : start ≤ next) :
    m.readView start x = m.readView next x := by
  have hgap : m.Gap start x ↔ m.Gap next x := by
    constructor
    · rintro ⟨y, hy, hyx, hnone⟩
      exact ⟨y, Nat.le_of_not_lt fun hlt => hall y hy hlt hnone, hyx, hnone⟩
    · rintro ⟨y, hy, hyx, hnone⟩
      exact ⟨y, by omega, hyx, hnone⟩
  by_cases hnext : m.Gap next x
  · rw [readView_of_gap hnext, readView_of_gap (hgap.mpr hnext)]
  · rw [readView_of_not_gap hnext, readView_of_not_gap (mt hgap.mp hnext)]

/-- The loop of a read, from any of its iterations on, appends what remains of the read view. -/
theorem repeat_readSection {fuel : Nat} (total : List Byte) (m : Memory) (hfuel : size < fuel) :
    repeatAccessUntilCompleted List.length (· ++ ·) readSection fuel source size total m =
      (.ok (total ++ AddressMap.read (m.readView source) source size), m) := by
  induction fuel generalizing source size total with
  | zero => exact absurd hfuel (by omega)
  | succ fuel ih =>
    simp only [repeatAccessUntilCompleted]
    rcases hsec : m.section? source with _ | sec
    · simp only [readSection, hsec, List.length_replicate, read_readView_of_none size hsec]
      split
      next hzero =>
        rw [hzero, List.replicate_zero, List.append_nil]
      · rw [if_neg (by omega)]
    · obtain ⟨n, hn, hstep⟩ := @readSection_of_some m source size sec hsec
      simp only [hstep, AddressMap.read_length]
      by_cases hlast : size ≤ n
      · obtain rfl : n = size := by omega
        split
        next hzero =>
          rw [hzero, AddressMap.read_zero, List.append_nil]
        · rw [if_neg (by omega)]
      · have hall (y : Nat) (hy : source ≤ y) (hy' : y < source + n) : m.section? y ≠ none := by
          rw [← section?_congr m (sameSection_of_lt hy (by omega)), hsec]
          exact Option.some_ne_none sec
        have hview : m.readView (source + n) = m.readView source := by
          funext x
          exact (readView_of_allocated hall (by omega)).symm
        rw [if_neg (by omega), if_pos (by omega), ih _ (by omega), hview, List.append_assoc,
          ← AddressMap.read_add, Nat.add_sub_cancel' (by omega)]

theorem read_eq (source size : Nat) :
    m.read source size = (.ok (AddressMap.read (m.readView source) source size), m) := by
  rw [read, repeat_readSection [] m (Nat.lt_succ_self size), List.nil_append]

end Memory

/-! ### Runs -/

inductive MemoryOp where
  | write (destination : Nat) (source : List Byte)
  | read (source size : Nat)

namespace MemoryOp

def InRange : MemoryOp → Prop
  | .write destination source => destination + source.length ≤ 2 ^ 32
  | .read source size => source + size ≤ 2 ^ 32

def onMemory (m : Memory) : MemoryOp → Outcome Memory (List Byte)
  | .write destination source =>
    match m.write destination source with
    | (.ok _, m') => (.ok [], m')
    | (.error e, m') => (.error e, m')
  | .read source size => m.read source size

def onFlat (f : Nat → Byte) : MemoryOp → List Byte × (Nat → Byte)
  | .write destination source => ([], AddressMap.write f destination source)
  | .read source size => (AddressMap.read f source size, f)

/-- The operation reads no byte other than zero after a gap. -/
def ZeroAfterGap (m : Memory) : MemoryOp → Prop
  | .write _ _ => True
  | .read source size =>
    ∀ y, source ≤ y → y < source + size → m.Gap source y → m.byteAt y = 0

end MemoryOp

namespace Memory

def run (m : Memory) : List MemoryOp → List (Except SimulatorException (List Byte))
  | [] => []
  | op :: ops => (op.onMemory m).1 :: run (op.onMemory m).2 ops

def RunsZeroAfterGap (m : Memory) : List MemoryOp → Prop
  | [] => True
  | op :: ops => op.ZeroAfterGap m ∧ RunsZeroAfterGap (op.onMemory m).2 ops

end Memory

def flatRun (f : Nat → Byte) : List MemoryOp → List (Except SimulatorException (List Byte))
  | [] => []
  | op :: ops => .ok (op.onFlat f).1 :: flatRun (op.onFlat f).2 ops

namespace MemoryOp

/-- An operation answers as on the flat map exactly if it reads only zeros after gaps. -/
theorem onMemory_eq_onFlat_iff {op : MemoryOp} (hop : op.InRange) {m : Memory}
    {f : Nat → Byte} (hview : ∀ x, x < 2 ^ 32 → m.byteAt x = f x) :
    (op.onMemory m).1 = .ok (op.onFlat f).1 ↔ op.ZeroAfterGap m := by
  cases op with
  | write destination source =>
    obtain ⟨r, m', hwrite, -⟩ := m.write_ok hop
    simp only [onMemory, hwrite, onFlat, ZeroAfterGap]
  | read source size =>
    have hread (y : Nat) (hy : y < source + size) :
        m.readView source y = f y ↔ (m.Gap source y → m.byteAt y = 0) := by
      rw [← hview y (Nat.lt_of_lt_of_le hy hop)]
      by_cases hgap : m.Gap source y
      · rw [Memory.readView_of_gap hgap, eq_comm]
        exact ⟨fun h _ => h, fun h => h hgap⟩
      · rw [Memory.readView_of_not_gap hgap]
        exact ⟨fun _ h => absurd h hgap, fun _ => rfl⟩
    simp only [onMemory, Memory.read_eq, onFlat, ZeroAfterGap, Except.ok.injEq, AddressMap.read_inj]
    constructor
    · intro hsame y hy hy'
      exact (hread y hy').mp (hsame y hy hy')
    · intro hzero y hy hy'
      exact (hread y hy').mpr (hzero y hy hy')

/-- An operation keeps the flat view. -/
theorem onMemory_view {op : MemoryOp} (hop : op.InRange) {m : Memory} {f : Nat → Byte}
    (hview : ∀ x, x < 2 ^ 32 → m.byteAt x = f x) :
    ∀ x, x < 2 ^ 32 → (op.onMemory m).2.byteAt x = (op.onFlat f).2 x := by
  intro x hx
  cases op with
  | write destination source =>
    obtain ⟨r, m', hwrite, hbytes⟩ := m.write_ok hop
    simp only [onMemory, hwrite, onFlat]
    rw [hbytes x hx]
    exact AddressMap.write_shift 0 source (hview x hx)
  | read source size =>
    rw [onMemory, Memory.read_eq]
    exact hview x hx

end MemoryOp

namespace Memory

theorem run_eq_flatRun_iff {ops : List MemoryOp} (hops : ∀ op ∈ ops, op.InRange) {m : Memory}
    {f : Nat → Byte} (hview : ∀ x, x < 2 ^ 32 → m.byteAt x = f x) :
    m.run ops = flatRun f ops ↔ m.RunsZeroAfterGap ops := by
  induction ops generalizing m f with
  | nil => exact ⟨fun _ => trivial, fun _ => rfl⟩
  | cons op ops ih =>
    have hop : op.InRange := hops op List.mem_cons_self
    have hrest := ih (fun op' h => hops op' (List.mem_cons_of_mem _ h))
      (MemoryOp.onMemory_view hop hview)
    simp only [run, flatRun, RunsZeroAfterGap, List.cons.injEq, hrest,
      MemoryOp.onMemory_eq_onFlat_iff hop hview]

theorem byteAt_new (x : Nat) : new.byteAt x = 0 := by
  have hnone : new.section? x = none := RadixTree.lookup_null (getTreeRow x) 5 1
  rw [byteAt, hnone]

/-- On an initially empty memory a sequence of reads and writes returns what a flat map of
bytes returns exactly if no read finds a byte other than zero after a gap. -/
theorem sparse_refines_flat (ops : List MemoryOp) (hops : ∀ op ∈ ops, op.InRange) :
    new.run ops = flatRun (fun _ => 0) ops ↔ new.RunsZeroAfterGap ops :=
  run_eq_flatRun_iff hops fun x _ => byteAt_new x

theorem sparse_refines_flat_two_sections :
    new.RunsZeroAfterGap [.write 0xff [1, 2], .read 0xfe 3] :=
  (sparse_refines_flat [.write 0xff [1, 2], .read 0xfe 3] (by
    simp [MemoryOp.InRange])).mp (by decide +kernel)

/-- The second byte of the read was written, but the section of the first byte is not
allocated and the read clears both. -/
theorem sparse_loses_byte_after_gap :
    new.run [.write 0x100 [1], .read 0xff 2] = [.ok [], .ok [0, 0]] ∧
      flatRun (fun _ => 0) [.write 0x100 [1], .read 0xff 2] = [.ok [], .ok [0, 1]] := by
  decide +kernel

end Memory

end QtRvSim
