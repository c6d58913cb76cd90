import QtRvSim.Memory.Cache
import QtRvSim.Memory.Tlb

/-!
# The caches of a machine

A program and a data cache over a shared second level over the backing memory, as `machine.cpp`
connects them.  The backing memory is flat.
-/

namespace QtRvSim

structure CacheConfigs where
  program : CacheConfig
  data : CacheConfig
  level2 : CacheConfig

def CacheConfigs.port (cc : CacheConfigs) : MemPort → CacheConfig
  | .program => cc.program
  | .data => cc.data

/-- A cache with its configuration, as the memory below another cache. -/
structure LevelCache (cfg : CacheConfig) (B : Type) where
  cache : Cache B

instance {cfg : CacheConfig} {B : Type} [LowerMemory B] : LowerMemory (LevelCache cfg B) where
  read type source size c := Outcome.within (c.cache.read cfg type source size) LevelCache.mk
  write type destination source c :=
    Outcome.within (c.cache.write cfg type destination source) LevelCache.mk
  sync c := Outcome.within (c.cache.sync cfg) LevelCache.mk
  locationStatus address c := c.cache.locationStatus cfg address

namespace Cache

def onto {B : Type} (c : Cache Unit) (mem : B) : Cache B :=
  ⟨mem, c.replacementPolicy, c.dt, c.counters⟩

def alone {B : Type} (c : Cache B) : Cache Unit :=
  ⟨(), c.replacementPolicy, c.dt, c.counters⟩

end Cache

/-- The caches of a machine over its backing memory.  The two first-level caches share the second
level, so they are kept without their lower memory. -/
structure CachedMemory (cc : CacheConfigs) where
  cchProgram : Cache Unit
  cchData : Cache Unit
  cchLevel2 : Cache (Nat → Byte)

namespace CachedMemory

variable {cc : CacheConfigs}

def new (lib : CLibrary) (cc : CacheConfigs) (mem : Nat → Byte) : CachedMemory cc where
  cchProgram := .new lib cc.program ()
  cchData := .new lib cc.data ()
  cchLevel2 := .new lib cc.level2 mem

def backing (s : CachedMemory cc) : Nat → Byte := s.cchLevel2.mem

def cache (s : CachedMemory cc) : MemPort → Cache (LevelCache cc.level2 (Nat → Byte))
  | .program => s.cchProgram.onto ⟨s.cchLevel2⟩
  | .data => s.cchData.onto ⟨s.cchLevel2⟩

def put (s : CachedMemory cc) (port : MemPort) (c : Cache (LevelCache cc.level2 (Nat → Byte))) :
    CachedMemory cc :=
  match port with
  | .program => { s with cchProgram := c.alone, cchLevel2 := c.mem.cache }
  | .data => { s with cchData := c.alone, cchLevel2 := c.mem.cache }

/-- The bytes a cache returns.  The caches of a machine raise no exceptions. -/
def readResult : Except SimulatorException (List Byte) → List Byte
  | .ok bytes => bytes
  | .error _ => []

instance : PhysicalMemory (CachedMemory cc) where
  read port address size s :=
    let (result, c) := (s.cache port).read (cc.port port) .regular address.toNat size
    (readResult result, s.put port c)
  write port address bytes s :=
    s.put port ((s.cache port).write (cc.port port) .regular address.toNat bytes).2
  sync port s := s.put port ((s.cache port).sync (cc.port port)).2

end CachedMemory

end QtRvSim
