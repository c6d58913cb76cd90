import QtRvSim.Refinement.CacheDirectory
import QtRvSim.Refinement.CacheLevels

/-!
# Which way an access takes

An access goes past an enabled cache if its first address, or the address one past its end, is in
the uncached window.  Accesses that share a byte may be split by this rule near the ends of the
window (`bypasses_agree_iff`).  Internal reads take a way of their own through the levels; they
return what a regular read would, unless the block is in the second level only
(`internalRead_faithful`).
-/

namespace QtRvSim

open Outcome CacheConfig

/-! ### The ends of the uncached window -/

def uncachedLast : Nat := 0xfffffffe

/-- The second access goes past the cache and the first one does not: the first ends below the
window and the second in it; or the first spans the window and the second starts or ends in it; or
the first is above the window and the second starts in it. -/
def SplitByWindow (address size address' size' : Nat) : Prop :=
  address + size < uncachedStart ∧ uncachedStart ≤ address' + size' ∧
      address' + size' ≤ uncachedLast ∨
    address < uncachedStart ∧ uncachedLast < address + size ∧
      (uncachedStart ≤ address' ∧ address' ≤ uncachedLast ∨
        uncachedStart ≤ address' + size' ∧ address' + size' ≤ uncachedLast) ∨
    uncachedLast < address ∧ uncachedStart ≤ address' ∧ address' ≤ uncachedLast

namespace Cache

theorem bypasses_iff {cfg : CacheConfig} (henabled : cfg.enabled) {address size : Nat}
    (hspace : address + size ≤ 2 ^ 32) :
    bypasses cfg address size = true ↔
      uncachedStart ≤ address ∧ address ≤ uncachedLast ∨
        uncachedStart ≤ address + size ∧ address + size ≤ uncachedLast := by
  have hmod : (address + size) % 2 ^ 64 = address + size := Nat.mod_eq_of_lt (by omega)
  simp only [bypasses, henabled, hmod, Bool.not_true, Bool.false_or, Bool.or_eq_true,
    isInUncachedArea, decide_eq_true_eq, uncachedStart, uncachedLast]

/-- Two accesses that share a byte go the same way if and only if they are not split at an end of
the uncached window. -/
theorem bypasses_agree_iff (cfg : CacheConfig) (henabled : cfg.enabled)
    {address size address' size' : Nat} (hspace : address + size ≤ 2 ^ 32)
    (hspace' : address' + size' ≤ 2 ^ 32) (hshare : address < address' + size')
    (hshare' : address' < address + size) :
    bypasses cfg address size = bypasses cfg address' size' ↔
      ¬SplitByWindow address size address' size' ∧
        ¬SplitByWindow address' size' address size := by
  rw [Bool.eq_iff_iff, bypasses_iff henabled hspace, bypasses_iff henabled hspace']
  simp only [SplitByWindow, uncachedStart, uncachedLast]
  omega

/-- A byte and a word far from the window. -/
theorem bypasses_agree_low :
    bypasses (smallCache .lru) 2 1 = bypasses (smallCache .lru) 0 4 :=
  (bypasses_agree_iff (smallCache .lru) rfl (by decide) (by decide) (by decide) (by decide)).mpr
    (by simp only [SplitByWindow, uncachedStart, uncachedLast]; omega)

/-- The last word below the window goes past the cache, its bytes do not: a byte that is written is
not seen by a read of the word. -/
theorem bypasses_differ_at_window :
    bypasses (smallCache .lru) 0xeffffffc 4 = true ∧
      bypasses (smallCache .lru) 0xeffffffc 1 = false ∧
      (CacheOp.onCache (smallCache .lru) (CacheOp.onCache (smallCache .lru)
        (Cache.new ⟨id, id⟩ (smallCache .lru) fun _ : Nat => (0 : Byte))
        (.write 0xeffffffc [1])).2 (.read 0xeffffffc 4)).1 = .ok [0, 0, 0, 0] := by
  decide +kernel

end Cache

/-! ### Bytes that stay good -/

/-- A lower memory holds good bytes only, as long as an invariant of its own holds and good bytes
are written, on the ranges it serves. -/
structure LowerMemory.Keeps {B : Type} [LowerMemory B] (G : Nat → Byte → Prop)
    (Serves : Nat → Nat → Prop) (K : B → Prop) : Prop where
  read : ∀ type {m : B}, K m → ∀ {a : Nat} (n : Nat), a < 2 ^ 64 →
    ∃ bs m', LowerMemory.read type a n m = (.ok bs, m') ∧ K m' ∧
      (type = .regular → bs.length = n ∧ ∀ j < n, G (a + j) (bs.getD j 0))
  write : ∀ type {m : B}, K m → ∀ (a : Nat) (bs : List Byte), a < 2 ^ 64 → Serves a bs.length →
    (∀ j < bs.length, G (a + j) (bs.getD j 0)) →
    ∃ result m', LowerMemory.write type a bs m = (.ok result, m') ∧ K m'
  sync : ∀ {m : B}, K m → ∃ m', LowerMemory.sync m = (.ok (), m') ∧ K m'

theorem flat_keeps (G : Nat → Byte → Prop) :
    LowerMemory.Keeps G (fun _ _ => True) fun m : Nat → Byte => ∀ x, G x (m x) where
  read _ m h a n _ := by
    refine ⟨_, m, rfl, h, fun _ => ⟨AddressMap.read_length m a n, fun j hj => ?_⟩⟩
    rw [AddressMap.read_getD m hj]
    exact h _
  write _ m h a bs _ _ hgood := by
    refine ⟨_, _, rfl, fun x => AddressMap.write_cases 0 ?_ fun _ => h x⟩
    rintro j hj rfl
    exact hgood j hj
  sync h := ⟨_, rfl, h⟩

namespace Cache

variable {B : Type} [LowerMemory B] {cfg : CacheConfig} {G : Nat → Byte → Prop}
  {Serves : Nat → Nat → Prop} {K : B → Prop}

omit [LowerMemory B] in
structure GoodLines (cfg : CacheConfig) (G : Nat → Byte → Prop) (Serves : Nat → Nat → Prop)
    (K : B → Prop) (c : Cache B) : Prop where
  bytes : c.LineBytes cfg G
  served : ∀ way row, (c.dt way row).valid →
    Serves (cfg.blockStart (c.dt way row).tag row) cfg.blockBytes
  mem : K c.mem

def goodLaw (cfg : CacheConfig) (hkeeps : LowerMemory.Keeps G Serves K) :
    StoreLaw cfg B Unit where
  Own _ := GoodLines cfg G Serves K
  Ready _ base := Serves base cfg.blockBytes
  congr {_ c c'} hdt hmem h := by
    refine ⟨?_, ?_, ?_⟩
    · rw [LineBytes, hdt]
      exact h.bytes
    · rw [hdt]
      exact h.served
    · rw [hmem]
      exact h.mem
  drop _ h way row _ := by
    refine ⟨h.bytes.emptied way row, fun w r hv => ?_, h.mem⟩
    have hline := (Shape.emptied_valid hv).1
    rw [hline] at hv ⊢
    exact h.served w r hv
  writeBack {_ c} hshape h way row hback := by
    have hvalid := hshape.clean hback.2 way row hback.1
    have hlength := hshape.length way row hvalid
    obtain ⟨result, m, hwrite, hm⟩ := hkeeps.write .regular h.mem _ (c.dt way row).data
      (hshape.base way row hvalid) (hlength ▸ h.served way row hvalid)
      fun j hj => h.bytes way row hvalid j (hlength ▸ hj)
    refine ⟨result, m, hwrite, h.bytes.emptied way row, fun w r hv => ?_, hm⟩
    have hline := (Shape.emptied_valid (c := { c with mem := m }) hv).1
    rw [hline] at hv ⊢
    exact h.served w r hv
  install {_ c} _ h way row tag _ _ hbase _ _ hready := by
    obtain ⟨data, m, hread, hm, hdata⟩ := hkeeps.read .regular h.mem cfg.blockBytes hbase
    obtain ⟨hlength, hgood⟩ := hdata rfl
    refine ⟨data, m, hread, hlength, h.bytes.installed hgood, fun w r hv => ?_, hm⟩
    by_cases hwr : w = way ∧ r = row
    · obtain ⟨rfl, rfl⟩ := hwr
      rw [installed, setLine_dt_self]
      exact hready
    · rw [installed, setLine_dt_of_ne _ _ hwr] at hv ⊢
      exact h.served w r hv
  upd _ _ _ := ()
  Allowed := G
  upd_nil _ _ := rfl
  upd_append _ _ _ _ := rfl
  ready_upd h _ := h
  store {_ c} hshape h way row offset bs hvalid _ hpiece hallowed := by
    refine ⟨h.bytes.stored hshape hvalid hpiece hallowed fun _ _ _ hv => hv, fun w r hv => ?_,
      h.mem⟩
    have hline := Shape.stored_line c way row offset bs w r
    rw [hline.1] at hv
    rw [hline.2]
    exact h.served w r hv
  skip _ h _ _ _ _ _ _ _ _ _ := h

variable {c : Cache B}

/-- A write of arbitrary bytes, which may wrap around, under a law that allows them all. -/
theorem access_write_free {law : StoreLaw cfg B Unit} (hfits : cfg.FitsWord)
    (hready : ∀ base, law.Ready () base) (hallowed : ∀ x v, law.Allowed x v) (h : law.Holds () c)
    {fuel address : Nat} {buffer : List Byte} (haddress : address < 2 ^ 64) :
    ∃ r c', c.access cfg .write fuel address buffer buffer.length = (.ok r, c') ∧
      law.Holds () c' := by
  induction fuel generalizing c address buffer with
  | zero => exact ⟨_, c, rfl, h⟩
  | succ fuel ih =>
    by_cases hempty : buffer = []
    · subst hempty
      refine ⟨(false, []), c, ?_, h⟩
      rw [access]
      simp only [List.length_nil, if_true]
    generalize hover :
      (cfg.computeLocation address).offset + buffer.length - cfg.blockBytes = overflow
    obtain ⟨c₁, hholds, changed, haccess⟩ := @StoreLaw.access_write_block B cfg _ Unit law () c h
      hfits fuel address buffer hempty haddress (hready _) (fun j _ => hallowed _ _) overflow
      hover.symm
    rw [haccess]
    split
    next hmore =>
      have hoffset := cfg.computeLocation_offset_lt address
      have hrest : (buffer.drop (buffer.length - overflow)).length = overflow := by
        rw [List.length_drop]
        omega
      obtain ⟨r, c₂, hrec, hholds₂⟩ : ∃ r c₂, c₁.access cfg .write fuel
          ((address + (buffer.length - overflow)) % 2 ^ 64)
          (buffer.drop (buffer.length - overflow))
          (buffer.drop (buffer.length - overflow)).length = (.ok r, c₂) ∧ law.Holds () c₂ :=
        ih hholds (Nat.mod_lt _ (by decide))
      rw [hrest] at hrec
      rw [hrec]
      exact ⟨_, c₂, rfl, hholds₂⟩
    next => exact ⟨_, c₁, rfl, hholds⟩

section Level

variable (hkeeps : LowerMemory.Keeps G (fun _ _ => True) K) (henabled : cfg.enabled)
  (hfits : cfg.FitsWord) (hG : WithinSpace G)

/-- A level with well-formed lines of good bytes over a memory of good bytes. -/
def GoodLevel (cfg : CacheConfig) (G : Nat → Byte → Prop) (K : B → Prop)
    (l : LevelCache cfg B) : Prop :=
  Shape cfg l.cache ∧ GoodLines cfg G (fun _ _ => True) K l.cache

variable {c : Cache B}

omit [LowerMemory B] in
/-- Counters and a lower memory with good bytes do not matter. -/
theorem GoodLevel.below (h : GoodLevel cfg G K ⟨c⟩) {m : B} (hm : K m) (counters : CacheCounters) :
    GoodLevel cfg G K ⟨{ c with mem := m, counters := counters }⟩ :=
  ⟨h.1.congr rfl h.1.policy, h.2.bytes, h.2.served, hm⟩

include hkeeps hfits hG in
theorem GoodLevel.read (h : GoodLevel cfg G K ⟨c⟩) (type : AccessEffects) {a : Nat} (n : Nat)
    (ha : a < 2 ^ 64) :
    ∃ bs c', c.read cfg type a n = (.ok bs, c') ∧ GoodLevel cfg G K ⟨c'⟩ ∧
      (type = .regular → bs.length = n ∧ ∀ j < n, G (a + j) (bs.getD j 0)) := by
  obtain ⟨bs, m, hread, hm, hbytes⟩ := hkeeps.read type h.2.mem n ha
  rw [Cache.read]
  split
  · simp only [count, within, hread]
    exact ⟨bs, _, rfl, h.below hm _, hbytes⟩
  split
  next hinternal =>
    have hno {Q : Prop} : type = .regular → Q := fun hreg => by
      rw [hreg] at hinternal
      exact absurd hinternal (by decide)
    split
    · exact ⟨_, c, rfl, h, hno⟩
    · simp only [within, hread]
      exact ⟨bs, _, rfl, h.below hm _, hno⟩
  next =>
    have hholds : (goodLaw cfg hkeeps).Holds () c := ⟨h.1, h.2⟩
    obtain ⟨b, bs, c', haccess, hholds', hlength, hgood⟩ := hholds.access_read hfits
      (fun c hc => hc.own.bytes) [] (Nat.le_refl n) (fun _ _ => trivial) ha
    rw [haccess, andThen_ok]
    refine ⟨bs, c', rfl, ⟨hholds'.shape, hholds'.own⟩, fun _ => ⟨hlength, fun j hj => ?_⟩⟩
    by_cases hspace : a + j < 2 ^ 64
    · exact hgood j hj hspace
    · exact hG _ _ (by omega)

include hkeeps in
theorem GoodLevel.writeLower (h : GoodLevel cfg G K ⟨c⟩) (type : AccessEffects) {a : Nat}
    {bs : List Byte} (ha : a < 2 ^ 64) (hgood : ∀ j < bs.length, G (a + j) (bs.getD j 0)) :
    ∃ r c', c.writeLower type a bs = (.ok r, c') ∧ GoodLevel cfg G K ⟨c'⟩ := by
  obtain ⟨result, m, hwrite, hm⟩ := hkeeps.write type h.2.mem a bs ha trivial hgood
  simp only [Cache.writeLower, count, within, hwrite]
  exact ⟨_, _, rfl, h.below hm _⟩

include hkeeps hfits in
theorem GoodLevel.write {c : Cache B} (h : GoodLevel cfg G K ⟨c⟩) (type : AccessEffects)
    {a : Nat} {bs : List Byte} (ha : a < 2 ^ 64)
    (hserved : a + bs.length < 2 ^ 64 ∨ ∀ x v, G x v)
    (hgood : ∀ j < bs.length, G (a + j) (bs.getD j 0)) :
    ∃ r c', c.write cfg type a bs = (.ok r, c') ∧ GoodLevel cfg G K ⟨c'⟩ := by
  rw [Cache.write]
  split
  · exact h.writeLower hkeeps type ha hgood
  · have hholds : (goodLaw cfg hkeeps).Holds () c := ⟨h.1, h.2⟩
    obtain ⟨r, c₁, haccess, hholds₁⟩ : ∃ r c₁,
        c.access cfg .write bs.length a bs bs.length = (.ok r, c₁) ∧
          (goodLaw cfg hkeeps).Holds () c₁ := by
      rcases hserved with hrange | hfree
      · exact StoreLaw.access_write hholds hfits (Nat.le_refl _) hrange (fun _ _ _ => trivial) hgood
      · exact access_write_free hfits (fun _ => trivial) hfree hholds ha
    have hgood₁ : GoodLevel cfg G K ⟨c₁⟩ := ⟨hholds₁.shape, hholds₁.own⟩
    rw [haccess, andThen_ok]
    split
    · exact hgood₁.writeLower hkeeps type ha hgood
    · exact ⟨_, c₁, rfl, hgood₁⟩

include hkeeps henabled in
theorem GoodLevel.flush (h : GoodLevel cfg G K ⟨c⟩) :
    ∃ c', c.flush cfg = (.ok (), c') ∧ GoodLevel cfg G K ⟨c'⟩ := by
  have hholds : (goodLaw cfg hkeeps).Holds () c := ⟨h.1, h.2⟩
  obtain ⟨c', hflush, hholds', -⟩ := hholds.flush henabled
  exact ⟨c', hflush, hholds'.shape, hholds'.own⟩

include hkeeps henabled in
theorem GoodLevel.sync (h : GoodLevel cfg G K ⟨c⟩) :
    ∃ c', c.sync cfg = (.ok (), c') ∧ GoodLevel cfg G K ⟨c'⟩ := by
  obtain ⟨c₁, hflush, hgood⟩ := h.flush hkeeps henabled
  obtain ⟨m, hsync, hm⟩ := hkeeps.sync hgood.2.mem
  refine ⟨{ c₁ with mem := m }, ?_, hgood.below hm _⟩
  rw [Cache.sync, hflush, andThen_ok, within, hsync]

include hkeeps henabled hfits hG in
/-- A level is a memory with good bytes itself. -/
theorem keeps_level (hserves : ∀ a n, Serves a n → a + n < 2 ^ 64 ∨ ∀ x v, G x v) :
    LowerMemory.Keeps G Serves (GoodLevel cfg G K) where
  read type l h a n ha := by
    obtain ⟨bs, c', hread, hgood, hbytes⟩ := h.read hkeeps hfits hG type n ha
    refine ⟨bs, ⟨c'⟩, ?_, hgood, hbytes⟩
    simp only [LowerMemory.read, hread, within]
  write type l h a bs ha hserved hgood := by
    obtain ⟨r, c', hwrite, hgood'⟩ := h.write hkeeps hfits type ha (hserves _ _ hserved) hgood
    refine ⟨r, ⟨c'⟩, ?_, hgood'⟩
    simp only [LowerMemory.write, hwrite, within]
  sync h := by
    obtain ⟨c', hsync, hgood⟩ := h.sync hkeeps henabled
    refine ⟨⟨c'⟩, ?_, hgood⟩
    simp only [LowerMemory.sync, hsync, within]

end Level

/-! ### Reads in one block -/

variable {a n : Nat}

omit [LowerMemory B] in
/-- A naturally aligned access of at most a word lies in one block. -/
theorem offset_add_size_le (cfg : CacheConfig) (hsize : n = 1 ∨ n = 2 ∨ n = 4) (haligned : n ∣ a) :
    (cfg.computeLocation a).offset + n ≤ cfg.blockBytes := by
  have hcol : (cfg.computeLocation a).col < cfg.blockSize := Nat.mod_lt _ cfg.blockSize_pos
  have hbyte : a % 4 + n ≤ 4 := by
    rcases hsize with rfl | rfl | rfl <;> omega
  have hloc : (cfg.computeLocation a).byte = a % 4 := rfl
  simp only [CacheLocation.offset, blockBytes, blockItemSize, hloc]
  omega

omit [LowerMemory B] in
/-- If no line has the block of an access, no line has a byte of it. -/
theorem lineBytes_of_missing (hshape : Shape cfg c) (hfits : cfg.FitsWord)
    (hin : (cfg.computeLocation a).offset + n ≤ cfg.blockBytes)
    (hmiss : cfg.associativity ≤ c.findBlockIndex cfg (cfg.computeLocation a)) (f : Nat → Byte) :
    c.LineBytes cfg fun x v => a ≤ x ∧ x < a + n → v = f x := by
  have hadd := blockStart_add_offset hfits a
  intro way row hvalid j hj hrange
  by_cases hblock : (c.dt way row).tag = (cfg.computeLocation a).tag ∧
      row = (cfg.computeLocation a).row
  · obtain ⟨htag, rfl⟩ := hblock
    exact absurd htag (findBlockIndex_of_miss hmiss way (hshape.place way _ hvalid).1 hvalid)
  · have hdisjoint := blockStart_disjoint (hshape.place way row hvalid).2
      (computeLocation_row_lt hfits a) hblock
    omega

/-- A read of good bytes that lie in one block. -/
theorem regularRead_good {hkeeps : LowerMemory.Keeps G Serves K}
    (h : (goodLaw cfg hkeeps).Holds () c) (hfits : cfg.FitsWord) (ha : a < 2 ^ 64) (hpos : 0 < n)
    (hin : (cfg.computeLocation a).offset + n ≤ cfg.blockBytes)
    (hserved : Serves (cfg.blockOf a) cfg.blockBytes) :
    ∃ bs c', c.access cfg .read n a [] n = (.ok (false, bs), c') ∧ bs.length = n ∧
      ∀ j < n, G (a + j) (bs.getD j 0) := by
  obtain ⟨k, rfl⟩ : ∃ k, n = k + 1 := ⟨n - 1, by omega⟩
  have hadd := blockStart_add_offset hfits a
  obtain ⟨way, c₁, hbring, hholds, hlocated⟩ := h.bringIn hfits ha hserved .read
  have hover : cfg.calculateOverflowToNextBlocks (k + 1) (cfg.computeLocation a) = 0 :=
    Nat.sub_eq_zero_of_le hin
  obtain ⟨bs, htransfer, hlength, hbytes⟩ := hholds.transfer_read hholds.own.bytes hlocated
    ([].take (k + 1 - 0)) hin
  rw [hadd] at hbytes
  refine ⟨bs, c₁, ?_, hlength, hbytes⟩
  rw [access]
  simp only [hover, Nat.sub_zero, reduceCtorEq, false_and, and_false, if_false, hbring,
    andThen_ok, Nat.add_one_ne_zero, Nat.lt_irrefl]
  rw [Nat.sub_zero] at htransfer
  rw [htransfer]

/-- A read of a block that is found takes its bytes from the line. -/
theorem regularRead_hit (hpolicy : c.replacementPolicy.Fits cfg) (hpos : 0 < n)
    (hin : (cfg.computeLocation a).offset + n ≤ cfg.blockBytes)
    (hfound : c.findBlockIndex cfg (cfg.computeLocation a) < cfg.associativity) :
    ∃ c', c.access cfg .read n a [] n = (.ok (false, c.internalRead cfg a n), c') := by
  obtain ⟨k, rfl⟩ : ∃ k, n = k + 1 := ⟨n - 1, by omega⟩
  have hover : cfg.calculateOverflowToNextBlocks (k + 1) (cfg.computeLocation a) = 0 :=
    Nat.sub_eq_zero_of_le hin
  obtain ⟨c', hbring, hdt, -⟩ := bringIn_hit (P := fun _ => True) hpolicy trivial .read hfound
  refine ⟨c', ?_⟩
  rw [access, internalRead, if_pos hfound]
  simp only [hover, Nat.sub_zero, reduceCtorEq, false_and, and_false, if_false, hbring,
    andThen_ok, Nat.add_one_ne_zero, Nat.lt_irrefl, transfer, hdt]

/-! ### Internal reads -/

/-- A call with a 64-bit address; a reset of a write-back cache finds no dirty line. -/
def Safe (cfg : CacheConfig) (c : Cache B) : CacheCall → Prop
  | .read _ address _ | .write _ address _ => address < 2 ^ 64
  | .reset => cfg.writePolicy = .back → ∀ way row, (c.dt way row).dirty = false
  | _ => True

/-- The states of a cache that is used while its lower memory changes. -/
inductive Reached (cfg : CacheConfig) (Fresh : B → Prop) (Changes : B → B → Prop) :
    Cache B → Prop
  | new {mem : B} (lib : CLibrary) : Fresh mem → Reached cfg Fresh Changes (Cache.new lib cfg mem)
  | call {c : Cache B} {call : CacheCall} : Reached cfg Fresh Changes c → c.Safe cfg call →
      Reached cfg Fresh Changes (call.onto cfg c).2
  | lower {c : Cache B} {mem : B} : Reached cfg Fresh Changes c → Changes c.mem mem →
      Reached cfg Fresh Changes { c with mem := mem }

/-- The states of a cache over a flat memory, which may change in any way. -/
def ReachedOverFlat (cfg : CacheConfig) (c : Cache (Nat → Byte)) : Prop :=
  Reached cfg (fun _ => True) (fun _ _ => True) c

/-- The states of a cache over a second level over a flat memory.  The second level may serve
others. -/
def ReachedOverLevel2 (cfg level2 : CacheConfig)
    (c : Cache (LevelCache level2 (Nat → Byte))) : Prop :=
  Reached cfg (fun l => ReachedOverFlat level2 l.cache)
    (fun l l' => (∃ call, l.cache.Safe level2 call ∧ l'.cache = (call.onto level2 l.cache).2) ∨
      ∃ mem, l'.cache = { l.cache with mem := mem }) c

def AnyByte (_ : Nat) (_ : Byte) : Prop := True

omit [LowerMemory B] in
theorem GoodLevel.reset (h : GoodLevel cfg G K ⟨c⟩) (henabled : cfg.enabled)
    (hclean : cfg.writePolicy = .back → ∀ way row, (c.dt way row).dirty = false) :
    GoodLevel cfg G K ⟨c.reset cfg⟩ := by
  have hempty (way row : Nat) : ((c.reset cfg).dt way row).valid = false := by
    simp only [Cache.reset, henabled, if_true]
  refine ⟨.of_empty h.1.policy hempty fun hback way row => ?_,
    fun way row hv => absurd hv (by simp [hempty]), fun way row hv => absurd hv (by simp [hempty]),
    h.2.mem⟩
  simp only [Cache.reset, henabled, if_true, hclean hback way row]

/-- Every call keeps the lines well formed. -/
theorem GoodLevel.call (hkeeps : LowerMemory.Keeps AnyByte (fun _ _ => True) K)
    (henabled : cfg.enabled) (hfits : cfg.FitsWord) (h : GoodLevel cfg AnyByte K ⟨c⟩)
    {call : CacheCall} (hsafe : c.Safe cfg call) :
    GoodLevel cfg AnyByte K ⟨(call.onto cfg c).2⟩ := by
  cases call with
  | read type source size =>
    obtain ⟨bs, c', hread, hgood, -⟩ := h.read hkeeps hfits (fun _ _ _ => trivial) type size hsafe
    rw [CacheCall.onto, hread]
    exact hgood
  | write type destination source =>
    obtain ⟨r, c', hwrite, hgood⟩ := h.write hkeeps hfits type hsafe (.inr fun _ _ => trivial)
      fun _ _ => trivial
    rw [CacheCall.onto, hwrite]
    exact hgood
  | flush =>
    obtain ⟨c', hflush, hgood⟩ := h.flush hkeeps henabled
    rw [CacheCall.onto, hflush]
    exact hgood
  | sync =>
    obtain ⟨c', hsync, hgood⟩ := h.sync hkeeps henabled
    rw [CacheCall.onto, hsync]
    exact hgood
  | reset => exact h.reset henabled hsafe

/-- In every state the lines are well formed. -/
theorem Reached.good {Fresh : B → Prop} {Changes : B → B → Prop} (h : Reached cfg Fresh Changes c)
    (henabled : cfg.enabled) (hfits : cfg.FitsWord)
    (hkeeps : LowerMemory.Keeps AnyByte (fun _ _ => True) K) (hfresh : ∀ m, Fresh m → K m)
    (hchanges : ∀ m m', Changes m m' → K m → K m') : GoodLevel cfg AnyByte K ⟨c⟩ := by
  induction h with
  | new lib hnew =>
    exact ⟨Shape.new lib cfg _, fun _ _ _ _ _ => trivial, fun _ _ _ => trivial, hfresh _ hnew⟩
  | call _ hsafe ih => exact ih.call hkeeps henabled hfits hsafe
  | lower _ hchange ih => exact ih.below (hchanges _ _ hchange ih.2.mem) _

theorem ReachedOverFlat.good {c : Cache (Nat → Byte)} (h : ReachedOverFlat cfg c)
    (henabled : cfg.enabled) (hfits : cfg.FitsWord) :
    GoodLevel cfg AnyByte (fun m => ∀ x, AnyByte x (m x)) ⟨c⟩ :=
  Reached.good h henabled hfits (flat_keeps AnyByte) (fun _ _ _ => trivial)
    fun _ _ _ _ _ => trivial

theorem ReachedOverLevel2.good {level2 : CacheConfig}
    {c : Cache (LevelCache level2 (Nat → Byte))} (h : ReachedOverLevel2 cfg level2 c)
    (henabled : cfg.enabled) (hfits : cfg.FitsWord) (henabled2 : level2.enabled)
    (hfits2 : level2.FitsWord) :
    GoodLevel cfg AnyByte (GoodLevel level2 AnyByte fun m => ∀ x, AnyByte x (m x)) ⟨c⟩ := by
  refine Reached.good h henabled hfits (keeps_level (flat_keeps AnyByte) henabled2 hfits2
    (fun _ _ _ => trivial) fun _ _ _ => .inr fun _ _ => trivial)
    (fun l hl => hl.good henabled2 hfits2) fun l l' hchange hl => ?_
  obtain ⟨l'⟩ := l'
  rcases hchange with ⟨call, hsafe, rfl⟩ | ⟨mem, rfl⟩
  · exact GoodLevel.call (flat_keeps AnyByte) henabled2 hfits2 hl hsafe
  · exact GoodLevel.below hl (fun _ => trivial) _

/-- An internal read leaves the whole state and returns what a regular read would return. -/
def SilentRead (cfg : CacheConfig) (c : Cache B) (a n : Nat) : Prop :=
  ∃ bs c', c.read cfg .internal a n = (.ok bs, c) ∧ c.read cfg .regular a n = (.ok bs, c')

/-- A block that is found is read from its line either way. -/
theorem silentRead_of_found (hshape : Shape cfg c) (henabled : cfg.enabled) (hpos : 0 < n)
    (hin : (cfg.computeLocation a).offset + n ≤ cfg.blockBytes) (hlow : a + n < 0xf0000000)
    (hfound : c.findBlockIndex cfg (cfg.computeLocation a) < cfg.associativity) :
    c.SilentRead cfg a n := by
  obtain ⟨c', hregular⟩ := regularRead_hit hshape.policy hpos hin hfound
  have hstatus : (c.locationStatus cfg a).cached = true := by
    simp only [locationStatus, henabled, hfound, and_self, if_true]
  refine ⟨c.internalRead cfg a n, c', ?_, ?_⟩
  · rw [Cache.read, bypasses_of_low henabled hlow, if_neg Bool.false_ne_true, if_pos rfl,
      if_pos hstatus]
  · rw [Cache.read, bypasses_of_low henabled hlow, if_neg Bool.false_ne_true, if_neg (by decide),
      hregular, andThen_ok]

/-- The bytes that a regular read may return are those of a memory. -/
def BytesOf (f : Nat → Byte) (a n : Nat) (x : Nat) (v : Byte) : Prop :=
  a ≤ x ∧ x < a + n → v = f x

/-- A block that no level has is read from the memory either way. -/
theorem silentRead_of_missing {f : Nat → Byte} {hkeeps : LowerMemory.Keeps (BytesOf f a n) Serves K}
    (h : (goodLaw cfg hkeeps).Holds () c) (henabled : cfg.enabled) (hfits : cfg.FitsWord)
    (hpos : 0 < n) (hin : (cfg.computeLocation a).offset + n ≤ cfg.blockBytes)
    (hlow : a + n < 0xf0000000)
    (hmiss : cfg.associativity ≤ c.findBlockIndex cfg (cfg.computeLocation a))
    (hserved : Serves (cfg.blockOf a) cfg.blockBytes)
    (hstatus : (LowerMemory.locationStatus a c.mem).cached = false)
    (hlower : LowerMemory.read .internal a n c.mem = (.ok (AddressMap.read f a n), c.mem)) :
    c.SilentRead cfg a n := by
  obtain ⟨bs, c', hregular, hlength, hbytes⟩ := regularRead_good h hfits (by omega) hpos hin hserved
  have hread : bs = AddressMap.read f a bs.length :=
    AddressMap.eq_read 0 fun j hj => hbytes j (hlength ▸ hj) ⟨by omega, by omega⟩
  rw [hlength] at hread
  have hnot : (c.locationStatus cfg a).cached = false := by
    rw [locationStatus]
    simp only [henabled, Nat.not_lt.mpr hmiss, and_false, if_false]
    exact hstatus
  refine ⟨bs, c', ?_, ?_⟩
  · rw [Cache.read, bypasses_of_low henabled hlow, if_neg Bool.false_ne_true, if_pos rfl, hnot,
      if_neg Bool.false_ne_true, hlower, hread]
    rfl
  · rw [Cache.read, bypasses_of_low henabled hlow, if_neg Bool.false_ne_true, if_neg (by decide),
      hregular, andThen_ok]

/-- Internal reads of naturally aligned data below the uncached window are silent and faithful, in
every state of one or two levels, unless the second level alone has the block. -/
theorem internalRead_faithful (cfg : CacheConfig) (henabled : cfg.enabled) (hfits : cfg.FitsWord)
    {a n : Nat} (hsize : n = 1 ∨ n = 2 ∨ n = 4) (haligned : n ∣ a) (hlow : a + n < 0xf0000000) :
    (∀ c, ReachedOverFlat cfg c → c.SilentRead cfg a n) ∧
      ∀ level2 : CacheConfig, level2.enabled → level2.FitsWord →
        ∀ c, ReachedOverLevel2 cfg level2 c →
          (∀ way row, (c.dt way row).valid →
            cfg.blockStart (c.dt way row).tag row + cfg.blockBytes < 2 ^ 64) →
          (c.findBlockIndex cfg (cfg.computeLocation a) < cfg.associativity ∨
            (c.mem.cache.locationStatus level2 a).cached = false) →
          c.SilentRead cfg a n := by
  have hpos : 0 < n := by omega
  have hin := offset_add_size_le cfg hsize haligned
  have hG (f : Nat → Byte) : WithinSpace (BytesOf f a n) := fun x v hx hrange => by omega
  refine ⟨fun c hc => ?_, fun level2 henabled2 hfits2 c hc hends hheld => ?_⟩
  · have hshape := (hc.good henabled hfits).1
    by_cases hfound : c.findBlockIndex cfg (cfg.computeLocation a) < cfg.associativity
    · exact silentRead_of_found hshape henabled hpos hin hlow hfound
    · have hmiss := Nat.not_lt.mp hfound
      have hholds : (goodLaw cfg (flat_keeps (BytesOf c.mem a n))).Holds () c :=
        ⟨hshape, lineBytes_of_missing hshape hfits hin hmiss c.mem, fun _ _ _ => trivial,
          fun _ _ => rfl⟩
      exact silentRead_of_missing hholds henabled hfits hpos hin hlow hmiss trivial rfl rfl
  · have hgood := hc.good henabled hfits henabled2 hfits2
    have hshape := hgood.1
    by_cases hfound : c.findBlockIndex cfg (cfg.computeLocation a) < cfg.associativity
    · exact silentRead_of_found hshape henabled hpos hin hlow hfound
    · have hmiss := Nat.not_lt.mp hfound
      have hstatus := hheld.resolve_left hfound
      have hshape2 : Shape level2 c.mem.cache := hgood.2.mem.1
      have hmiss2 : level2.associativity ≤
          c.mem.cache.findBlockIndex level2 (level2.computeLocation a) := by
        by_contra hheld2
        simp only [locationStatus, henabled2, Nat.lt_of_not_le hheld2, and_self, if_true] at hstatus
        exact absurd hstatus (by decide)
      let f := c.mem.cache.mem
      have hlines2 := lineBytes_of_missing hshape2 hfits2 (offset_add_size_le level2 hsize haligned)
        hmiss2 f
      have hkeeps : LowerMemory.Keeps (BytesOf f a n) (fun base size => base + size < 2 ^ 64)
          (GoodLevel level2 (BytesOf f a n) fun m : Nat → Byte => ∀ x, BytesOf f a n x (m x)) :=
        keeps_level (flat_keeps (BytesOf f a n)) henabled2 hfits2 (hG f) fun _ _ hserves =>
          .inl hserves
      have hholds : (goodLaw cfg hkeeps).Holds () c :=
        ⟨hshape, lineBytes_of_missing hshape hfits hin hmiss f, hends, hshape2, hlines2,
          fun _ _ _ => trivial, fun _ _ => rfl⟩
      have hblock : cfg.blockOf a ≤ a := by
        have hadd := blockStart_add_offset hfits a
        simp only [blockOf]
        omega
      have hsmall := blockBytes_lt hfits
      refine silentRead_of_missing hholds henabled hfits hpos hin hlow hmiss (by omega) hstatus ?_
      simp only [LowerMemory.read, Cache.read, bypasses_of_low henabled2 hlow, hstatus,
        Bool.false_eq_true, if_false, if_true]
      rfl

/-- Reads of a word, after it was read and in two new levels. -/
theorem internalRead_faithful_smallCache :
    ((CacheCall.read .regular 8 4).onto (smallCache .lru)
        (Cache.new ⟨id, id⟩ (smallCache .lru) fun x : Nat => BitVec.ofNat 8 x)).2.SilentRead
        (smallCache .lru) 8 4 ∧
      (Cache.new ⟨id, id⟩ (smallCache .lru) (⟨Cache.new ⟨id, id⟩ (smallCache .lfu)
        fun x : Nat => BitVec.ofNat 8 x⟩ : LevelCache (smallCache .lfu) _)).SilentRead
        (smallCache .lru) 8 4 := by
  have hfits (policy : ReplacementPolicy) : (smallCache policy).FitsWord := by
    simp [CacheConfig.FitsWord, smallCache]
  have hboth := internalRead_faithful (smallCache .lru) rfl (hfits .lru) (.inr (.inr rfl))
    (show 4 ∣ 8 by decide) (by decide)
  refine ⟨hboth.1 _ (.call (.new ⟨id, id⟩ trivial) (by simp [Safe])), ?_⟩
  exact hboth.2 (smallCache .lfu) rfl (hfits .lfu) _ (.new ⟨id, id⟩ (.new ⟨id, id⟩ trivial))
    (fun _ _ hvalid => absurd hvalid Bool.false_ne_true) (.inr rfl)

def oneLine : CacheConfig :=
  ⟨true, 1, 1, 1, .lru, .back, Nat.one_pos, Nat.one_pos, Nat.one_pos⟩

def bothReads (cfg : CacheConfig) (a n : Nat) (c : Cache B) :
    Except SimulatorException (List Byte) × Except SimulatorException (List Byte) :=
  ((c.read cfg .internal a n).1, (c.read cfg .regular a n).1)

/-- A word that only the second level has is read as zero.  A line that was dirty before a reset is
written back by the regular read and seen by it alone.  An internal read of the last word below the
uncached window is counted. -/
theorem internalRead_unfaithful :
    bothReads oneLine 0 1 (CacheCall.ontoAll oneLine [.read .regular 0 1, .read .regular 4 1]
        (Cache.new ⟨id, id⟩ oneLine (⟨Cache.new ⟨id, id⟩ (smallCache .lru)
          fun _ : Nat => (7 : Byte)⟩ : LevelCache (smallCache .lru) _))).2 =
        (.ok [0], .ok [7]) ∧
      bothReads oneLine 0 1 (CacheCall.ontoAll oneLine [.write .regular 0 [1], .reset]
        (Cache.new ⟨id, id⟩ oneLine fun _ : Nat => (0 : Byte))).2 = (.ok [0], .ok [1]) ∧
      ((Cache.new ⟨id, id⟩ oneLine fun _ : Nat => (0 : Byte)).read oneLine .internal
        0xeffffffc 4).2.counters.memReads = 1 := by
  decide +kernel

end Cache

end QtRvSim
