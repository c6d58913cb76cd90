import QtRvSim.Memory.Backend
import QtRvSim.Memory.CachePolicy

/-!
# Set-associative cache

The cache of `memory/cache/cache.cpp` over any lower memory, which may be another cache.  An
access is made block by block: the block is searched in its row, brought in on a miss (evicting
the way the policy selects) and then read or written.
-/

namespace QtRvSim

namespace Outcome

variable {σ τ α β : Type}

/-- Goes on with the result of an operation; an exception ends the sequence. -/
def andThen (x : Outcome σ α) (f : α → σ → Outcome σ β) : Outcome σ β :=
  match x with
  | (.ok a, s) => f a s
  | (.error e, s) => (.error e, s)

/-- The outcome of an operation on a part of the state. -/
def within (x : Outcome τ α) (put : τ → σ) : Outcome σ α :=
  (x.1, put x.2)

@[simp]
theorem andThen_ok (a : α) (s : σ) (f : α → σ → Outcome σ β) :
    andThen (.ok a, s) f = f a s := rfl

/-- Passing a result on changes nothing. -/
theorem andThen_pure (x : Outcome σ α) : andThen x (fun a s => (.ok a, s)) = x := by
  obtain ⟨r, s⟩ := x
  cases r <;> rfl

end Outcome

inductive AccessEffects where
  | regular | internal | externalAsync
deriving DecidableEq, Repr

structure LocationStatus where
  cached : Bool
  dirty : Bool
deriving DecidableEq, Repr

class LowerMemory (B : Type) where
  read : AccessEffects → Nat → Nat → B → Outcome B (List Byte)
  write : AccessEffects → Nat → List Byte → B → Outcome B WriteResult
  sync : B → Outcome B Unit
  locationStatus : Nat → B → LocationStatus

instance : LowerMemory (Nat → Byte) where
  read _ source size m := (.ok (AddressMap.read m source size), m)
  write _ destination source m :=
    (.ok ⟨source.length, source != AddressMap.read m destination source.length⟩,
      AddressMap.write m destination source)
  sync m := (.ok (), m)
  locationStatus _ _ := ⟨false, false⟩

def blockItemSize : Nat := 4

structure CacheLocation where
  row : Nat
  col : Nat
  tag : Nat
  byte : Nat
deriving DecidableEq, Repr

structure CacheLine where
  valid : Bool
  dirty : Bool
  tag : Nat
  data : List Byte
deriving DecidableEq, Repr

inductive AccessType where
  | read | write
deriving DecidableEq, Repr

structure CacheCounters where
  hitRead : BitVec 32
  missRead : BitVec 32
  hitWrite : BitVec 32
  missWrite : BitVec 32
  memReads : BitVec 32
  memWrites : BitVec 32
  burstReads : BitVec 32
  burstWrites : BitVec 32
  changeCounter : BitVec 32
deriving DecidableEq, Repr

/-- A cache over the lower memory `B`; lines are indexed by way and row. -/
structure Cache (B : Type) where
  mem : B
  replacementPolicy : CachePolicy
  dt : Nat → Nat → CacheLine
  counters : CacheCounters

namespace CacheConfig

def blockBytes (cfg : CacheConfig) : Nat :=
  cfg.blockSize * blockItemSize

/-- The multiplication of the two sizes is done on 32 bits. -/
def computeLocation (cfg : CacheConfig) (address : Nat) : CacheLocation :=
  let wordIndex := address / blockItemSize
  let waySizeWords := cfg.setCount * cfg.blockSize % 2 ^ 32
  let indexInWay := wordIndex % waySizeWords
  { row := indexInWay / cfg.blockSize
    col := indexInWay % cfg.blockSize
    tag := wordIndex / waySizeWords
    byte := address % blockItemSize }

def calcBaseAddress (cfg : CacheConfig) (tag row : Nat) : Nat :=
  (tag * cfg.setCount + row) * cfg.blockSize * blockItemSize % 2 ^ 64

/-- Part of an access that belongs to the following blocks. -/
def calculateOverflowToNextBlocks (cfg : CacheConfig) (accessSize : Nat) (loc : CacheLocation) :
    Nat :=
  loc.col * blockItemSize + loc.byte + accessSize - cfg.blockBytes

end CacheConfig

def CacheLocation.offset (loc : CacheLocation) : Nat :=
  loc.col * blockItemSize + loc.byte

def CacheLine.new (cfg : CacheConfig) : CacheLine :=
  ⟨false, false, 0, List.replicate cfg.blockBytes 0⟩

def CacheLine.store (line : CacheLine) (offset : Nat) (bytes : List Byte) : CacheLine :=
  { line with data := line.data.take offset ++ bytes ++ line.data.drop (offset + bytes.length) }

namespace Cache

variable {B : Type} [LowerMemory B]

omit [LowerMemory B] in
def new (lib : CLibrary) (cfg : CacheConfig) (mem : B) : Cache B where
  mem := mem
  replacementPolicy := .getPolicyInstance lib cfg
  dt := fun _ _ => .new cfg
  counters := ⟨0, 0, 0, 0, 0, 0, 0, 0, 0⟩

def setLine (c : Cache B) (way row : Nat) (line : CacheLine) : Cache B :=
  { c with dt := fun w r => if w = way ∧ r = row then line else c.dt w r }

variable (c : Cache B)

omit [LowerMemory B] in
@[simp]
theorem setLine_dt_self (way row : Nat) (line : CacheLine) :
    (c.setLine way row line).dt way row = line :=
  if_pos ⟨rfl, rfl⟩

omit [LowerMemory B] in
theorem setLine_dt_of_ne {way row w r : Nat} (line : CacheLine) (hne : ¬ (w = way ∧ r = row)) :
    (c.setLine way row line).dt w r = c.dt w r :=
  if_neg hne

omit [LowerMemory B] in
/-- What holds of the new line and of the other lines holds of every line. -/
theorem forall_setLine {c : Cache B} {way row : Nat} {line : CacheLine}
    {P : Nat → Nat → CacheLine → Prop} (hself : P way row line)
    (hother : ∀ w r, ¬(w = way ∧ r = row) → P w r (c.dt w r)) (w r : Nat) :
    P w r ((c.setLine way row line).dt w r) := by
  by_cases heq : w = way ∧ r = row
  · obtain ⟨rfl, rfl⟩ := heq
    rwa [setLine_dt_self]
  · rw [setLine_dt_of_ne _ _ heq]
    exact hother w r heq

omit [LowerMemory B] in
@[simp]
theorem setLine_setLine (way row : Nat) (line line' : CacheLine) :
    (c.setLine way row line).setLine way row line' = c.setLine way row line' := by
  simp only [setLine, Cache.mk.injEq, true_and, and_true]
  funext w r
  split <;> rfl

def count (c : Cache B) (f : CacheCounters → CacheCounters) : Cache B :=
  { c with counters := f c.counters }

omit [LowerMemory B] in
def getHitCount (c : Cache B) : BitVec 32 :=
  c.counters.hitRead + c.counters.hitWrite

omit [LowerMemory B] in
def getMissCount (c : Cache B) : BitVec 32 :=
  c.counters.missRead + c.counters.missWrite

def holdsLocation (c : Cache B) (loc : CacheLocation) (index : Nat) : Bool :=
  (c.dt index loc.row).valid && (c.dt index loc.row).tag == loc.tag

/-- Index of the first way that holds the location, or the associativity. -/
def findBlockIndex (cfg : CacheConfig) (loc : CacheLocation) (c : Cache B) : Nat :=
  ((List.range cfg.associativity).find? (c.holdsLocation loc)).getD cfg.associativity

def updateStats (way row : Nat) (isValid : Bool) (c : Cache B) : Outcome (Cache B) Unit :=
  Outcome.within (c.replacementPolicy.updateStats way row isValid)
    fun p => { c with replacementPolicy := p }

/-- Writes a dirty line back and empties it. -/
def kick (cfg : CacheConfig) (way row : Nat) (c : Cache B) : Outcome (Cache B) Unit :=
  let cd := c.dt way row
  Outcome.andThen
    (if cd.dirty ∧ cfg.writePolicy = .back then
      Outcome.andThen
        (Outcome.within (LowerMemory.write .regular (cfg.calcBaseAddress cd.tag row) cd.data c.mem)
          fun m => { c with mem := m })
        fun _ c => (.ok (), c.count fun n =>
          { n with
            memWrites := n.memWrites + BitVec.ofNat 32 cfg.blockSize
            burstWrites := n.burstWrites + BitVec.ofNat 32 (cfg.blockSize - 1) })
    else
      (.ok (), c))
    fun _ c =>
      ((c.setLine way row { cd with valid := false, dirty := false }).count fun n =>
        { n with changeCounter := n.changeCounter + 1 }).updateStats way row false

/-- The way for a location: the one that holds it, or the one the policy gives up for it. -/
def makeRoom (cfg : CacheConfig) (loc : CacheLocation) (way : Nat) (c : Cache B) :
    Outcome (Cache B) Nat :=
  if cfg.associativity ≤ way then
    let selected := c.replacementPolicy.selectWayToEvict cfg.associativity loc.row
    Outcome.andThen (kick cfg selected.1 loc.row { c with replacementPolicy := selected.2 })
      fun _ c =>
        if selected.1 < cfg.associativity then (.ok selected.1, c)
        else (.error (sanityException ("\"Sanity check failed (\" " ++
          "\"way < cache_config.associativity()\" \"):\" " ++
          "\"\\\"Probably unimplemented replacement policy\\\"\"")), c)
  else
    (.ok way, c)

/-- Counts a hit, or reads the block of an empty line from the lower memory. -/
def fill (cfg : CacheConfig) (accessType : AccessType) (loc : CacheLocation) (way : Nat)
    (c : Cache B) : Outcome (Cache B) Unit :=
  if (c.dt way loc.row).valid then
    (.ok (), c.count fun n => match accessType with
      | .write => { n with hitWrite := n.hitWrite + 1 }
      | .read => { n with hitRead := n.hitRead + 1 })
  else
    let c := c.count fun n => match accessType with
      | .write => { n with missWrite := n.missWrite + 1 }
      | .read => { n with missRead := n.missRead + 1 }
    Outcome.andThen
      (Outcome.within
        (LowerMemory.read .regular (cfg.calcBaseAddress loc.tag loc.row) cfg.blockBytes c.mem)
        fun m => { c with mem := m })
      fun data c =>
        (.ok (), (c.setLine way loc.row ⟨true, false, loc.tag, data⟩).count fun n =>
          { n with
            changeCounter := n.changeCounter + BitVec.ofNat 32 cfg.blockSize
            memReads := n.memReads + BitVec.ofNat 32 cfg.blockSize
            burstReads := n.burstReads + BitVec.ofNat 32 (cfg.blockSize - 1) })

def bringIn (cfg : CacheConfig) (accessType : AccessType) (loc : CacheLocation) (way : Nat)
    (c : Cache B) : Outcome (Cache B) Nat :=
  Outcome.andThen (c.makeRoom cfg loc way) fun way c =>
  Outcome.andThen (c.fill cfg accessType loc way) fun _ c =>
  Outcome.andThen (c.updateStats way loc.row (c.dt way loc.row).valid) fun _ c =>
    (.ok way, c)

/-- Copies bytes from or to a line: whether the line changed, the bytes read and the cache. -/
def transfer (accessType : AccessType) (loc : CacheLocation) (way : Nat) (buffer : List Byte)
    (size : Nat) (c : Cache B) : Bool × List Byte × Cache B :=
  let cd := c.dt way loc.row
  let held := (cd.data.drop loc.offset).take size
  match accessType with
  | .read => (false, held, c)
  | .write =>
    let changed := held != buffer
    let c := c.setLine way loc.row { cd with dirty := true }
    if changed then
      (true, [], (c.setLine way loc.row ({ cd with dirty := true }.store loc.offset buffer)).count
        fun n => { n with changeCounter := n.changeCounter + 1 })
    else
      (false, [], c)

omit [LowerMemory B] in
/-- Storing the bytes that a line holds already changes nothing. -/
theorem store_of_held (line : CacheLine) {offset : Nat} {bytes : List Byte}
    (hheld : (line.data.drop offset).take bytes.length = bytes) :
    line.store offset bytes = line := by
  have hdata : line.data.take offset ++ bytes ++ line.data.drop (offset + bytes.length) =
      line.data := by
    rw [← List.drop_drop, List.append_assoc]
    conv_rhs => rw [← List.take_append_drop offset line.data,
      ← List.take_append_drop bytes.length (line.data.drop offset), hheld]
  simp only [CacheLine.store, hdata]

omit [LowerMemory B] in
/-- A write stores the bytes and marks the line dirty. -/
theorem transfer_write (loc : CacheLocation) (way : Nat) (buffer : List Byte) :
    ∃ changed c', c.transfer .write loc way buffer buffer.length = (changed, [], c') ∧
      c'.dt = (c.setLine way loc.row
        ({ c.dt way loc.row with dirty := true }.store loc.offset buffer)).dt ∧
      c'.mem = c.mem ∧ c'.replacementPolicy = c.replacementPolicy := by
  by_cases hsame : ((c.dt way loc.row).data.drop loc.offset).take buffer.length = buffer
  · simp only [transfer, hsame, bne_self_eq_false, Bool.false_eq_true, if_false]
    refine ⟨_, _, rfl, ?_, rfl, rfl⟩
    rw [store_of_held]
    exact hsame
  · simp only [transfer, bne_iff_ne.mpr hsame, if_true, setLine_setLine]
    exact ⟨_, _, rfl, rfl, rfl, rfl⟩

/-- One access, block by block: whether a line changed and the bytes read.  The fuel bounds the
number of blocks. -/
def access (cfg : CacheConfig) (accessType : AccessType) :
    Nat → Nat → List Byte → Nat → Cache B → Outcome (Cache B) (Bool × List Byte)
  | 0, _, _, _, c => (.ok (false, []), c)
  | fuel + 1, address, buffer, size, c =>
    let loc := cfg.computeLocation address
    let way := c.findBlockIndex cfg loc
    let sizeOverflow := cfg.calculateOverflowToNextBlocks size loc
    let sizeWithinBlock := size - sizeOverflow
    let next := access cfg accessType fuel ((address + sizeWithinBlock) % 2 ^ 64)
      (buffer.drop sizeWithinBlock) sizeOverflow
    if size = 0 then
      (.ok (false, []), c)
    else if cfg.associativity ≤ way ∧ accessType = .write ∧
        cfg.writePolicy = .throughNoalloc then
      let c := c.count fun n => { n with missWrite := n.missWrite + 1 }
      if 0 < sizeOverflow then next c else (.ok (false, []), c)
    else
      Outcome.andThen (c.bringIn cfg accessType loc way) fun way c =>
        let done := c.transfer accessType loc way (buffer.take sizeWithinBlock) sizeWithinBlock
        if 0 < sizeOverflow then
          Outcome.andThen (next done.2.2) fun rest c =>
            (.ok (done.1 || rest.1, done.2.1 ++ rest.2), c)
        else
          (.ok (done.1, done.2.1), done.2.2)

/-- The window of the address space that is never cached. -/
def isInUncachedArea (source : Nat) : Bool :=
  0xf0000000 ≤ source ∧ source ≤ 0xfffffffe

def bypasses (cfg : CacheConfig) (address size : Nat) : Bool :=
  !cfg.enabled || isInUncachedArea address || isInUncachedArea ((address + size) % 2 ^ 64)

def writeLower (type : AccessEffects) (destination : Nat) (source : List Byte) (c : Cache B) :
    Outcome (Cache B) WriteResult :=
  let c := c.count fun n => { n with memWrites := n.memWrites + 1 }
  Outcome.within (LowerMemory.write type destination source c.mem) fun m => { c with mem := m }

def write (cfg : CacheConfig) (type : AccessEffects) (destination : Nat) (source : List Byte)
    (c : Cache B) : Outcome (Cache B) WriteResult :=
  if bypasses cfg destination source.length then
    c.writeLower type destination source
  else
    Outcome.andThen (c.access cfg .write source.length destination source source.length)
      fun result c =>
        if cfg.writePolicy ≠ .back then c.writeLower type destination source
        else (.ok ⟨source.length, result.1⟩, c)

def locationStatus (cfg : CacheConfig) (address : Nat) (c : Cache B) : LocationStatus :=
  let loc := cfg.computeLocation address
  let way := c.findBlockIndex cfg loc
  if cfg.enabled ∧ way < cfg.associativity then
    ⟨true, (c.dt way loc.row).dirty ∧ cfg.writePolicy = .back⟩
  else
    LowerMemory.locationStatus address c.mem

/-- Reads a line without any effect on the cache. -/
def internalRead (cfg : CacheConfig) (source size : Nat) (c : Cache B) : List Byte :=
  let loc := cfg.computeLocation source
  let way := c.findBlockIndex cfg loc
  if way < cfg.associativity then ((c.dt way loc.row).data.drop loc.offset).take size
  else List.replicate size 0

def read (cfg : CacheConfig) (type : AccessEffects) (source size : Nat) (c : Cache B) :
    Outcome (Cache B) (List Byte) :=
  if bypasses cfg source size then
    let c := c.count fun n => { n with memReads := n.memReads + 1 }
    Outcome.within (LowerMemory.read type source size c.mem) fun m => { c with mem := m }
  else if type = .internal then
    if (c.locationStatus cfg source).cached then
      (.ok (c.internalRead cfg source size), c)
    else
      Outcome.within (LowerMemory.read type source size c.mem) fun m => { c with mem := m }
  else
    Outcome.andThen (c.access cfg .read size source [] size) fun result c => (.ok result.2, c)

/-- Every way and row, in the order of the loops of a flush. -/
def places (cfg : CacheConfig) : List (Nat × Nat) :=
  (List.range cfg.associativity).flatMap fun way =>
    (List.range cfg.setCount).map fun row => (way, row)

def kickAll (cfg : CacheConfig) : List (Nat × Nat) → Cache B → Outcome (Cache B) Unit
  | [], c => (.ok (), c)
  | (way, row) :: rest, c =>
    Outcome.andThen (if (c.dt way row).valid then c.kick cfg way row else (.ok (), c))
      fun _ c => kickAll cfg rest c

def flush (cfg : CacheConfig) (c : Cache B) : Outcome (Cache B) Unit :=
  if cfg.enabled then
    Outcome.andThen (c.kickAll cfg (places cfg)) fun _ c =>
      (.ok (), c.count fun n => { n with changeCounter := n.changeCounter + 1 })
  else
    (.ok (), c)

def sync (cfg : CacheConfig) (c : Cache B) : Outcome (Cache B) Unit :=
  Outcome.andThen (c.flush cfg) fun _ c =>
    Outcome.within (LowerMemory.sync c.mem) fun m => { c with mem := m }

omit [LowerMemory B] in
/-- Marks every line invalid; dirty flags, data and the replacement policy stay as they are. -/
def reset (cfg : CacheConfig) (c : Cache B) : Cache B :=
  { c with
    dt := fun way row =>
      if cfg.enabled then { c.dt way row with valid := false } else c.dt way row
    counters := ⟨0, 0, 0, 0, 0, 0, 0, 0, c.counters.changeCounter⟩ }

end Cache

end QtRvSim
