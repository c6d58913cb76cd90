import QtRvSim.Memory.Cache
import Mathlib.Tactic.Ring

/-!
# Blocks of a cache

The block and the line of an address, and what emptying and filling one line does.
-/

namespace QtRvSim

namespace CacheConfig

variable {cfg : CacheConfig}

/-- The number of words in the cache fits into 32 bits. -/
def FitsWord (cfg : CacheConfig) : Prop :=
  cfg.setCount * cfg.blockSize * cfg.associativity < 2 ^ 32

def blockStart (cfg : CacheConfig) (tag row : Nat) : Nat :=
  (tag * cfg.setCount + row) * cfg.blockBytes

theorem calcBaseAddress_of_lt {tag row : Nat} (hlt : cfg.blockStart tag row < 2 ^ 64) :
    cfg.calcBaseAddress tag row = cfg.blockStart tag row := by
  rw [calcBaseAddress, Nat.mul_assoc]
  exact Nat.mod_eq_of_lt hlt

theorem FitsWord.waySize_lt (hfits : cfg.FitsWord) : cfg.setCount * cfg.blockSize < 2 ^ 32 :=
  Nat.lt_of_le_of_lt (Nat.le_mul_of_pos_right _ cfg.associativity_pos) hfits

/-- A location gives the address back. -/
theorem blockStart_add_offset (hfits : cfg.FitsWord) (address : Nat) :
    cfg.blockStart (cfg.computeLocation address).tag (cfg.computeLocation address).row +
      (cfg.computeLocation address).offset = address := by
  simp only [computeLocation, Nat.mod_eq_of_lt hfits.waySize_lt, blockStart, blockBytes,
    CacheLocation.offset]
  have hway := Nat.div_add_mod (address / blockItemSize) (cfg.setCount * cfg.blockSize)
  have hrow := Nat.div_add_mod (address / blockItemSize % (cfg.setCount * cfg.blockSize))
    cfg.blockSize
  have hword := Nat.div_add_mod address blockItemSize
  generalize address / blockItemSize % (cfg.setCount * cfg.blockSize) = index at *
  generalize address / blockItemSize / (cfg.setCount * cfg.blockSize) = tag at *
  calc (tag * cfg.setCount + index / cfg.blockSize) * (cfg.blockSize * blockItemSize) +
        (index % cfg.blockSize * blockItemSize + address % blockItemSize)
      = blockItemSize * (cfg.setCount * cfg.blockSize * tag +
          (cfg.blockSize * (index / cfg.blockSize) + index % cfg.blockSize)) +
            address % blockItemSize := by ring
    _ = address := by rw [hrow, hway, hword]

theorem computeLocation_row_lt (hfits : cfg.FitsWord) (address : Nat) :
    (cfg.computeLocation address).row < cfg.setCount := by
  simp only [computeLocation, Nat.mod_eq_of_lt hfits.waySize_lt]
  have hmod := Nat.mod_lt (address / blockItemSize)
    (Nat.mul_pos cfg.setCount_pos cfg.blockSize_pos)
  exact Nat.div_lt_of_lt_mul (Nat.lt_of_lt_of_eq hmod (Nat.mul_comm _ _))

theorem computeLocation_offset_lt (cfg : CacheConfig) (address : Nat) :
    (cfg.computeLocation address).offset < cfg.blockBytes := by
  have hcol : (cfg.computeLocation address).col < cfg.blockSize := Nat.mod_lt _ cfg.blockSize_pos
  have hbyte : (cfg.computeLocation address).byte < 4 := Nat.mod_lt _ (by decide)
  simp only [CacheLocation.offset, blockBytes, blockItemSize]
  omega

/-- Blocks with different tags or rows do not overlap. -/
theorem blockStart_disjoint {tag row tag' row' : Nat} (hrow : row < cfg.setCount)
    (hrow' : row' < cfg.setCount) (hne : ¬ (tag = tag' ∧ row = row')) :
    cfg.blockStart tag row + cfg.blockBytes ≤ cfg.blockStart tag' row' ∨
      cfg.blockStart tag' row' + cfg.blockBytes ≤ cfg.blockStart tag row := by
  have hnumber : tag * cfg.setCount + row ≠ tag' * cfg.setCount + row' := by
    intro heq
    have htag : tag = tag' := by
      have h := congrArg (· / cfg.setCount) heq
      simpa [Nat.mul_add_div, Nat.mul_comm _ cfg.setCount, cfg.setCount_pos,
        Nat.div_eq_of_lt hrow, Nat.div_eq_of_lt hrow'] using h
    subst htag
    exact hne ⟨rfl, by omega⟩
  have hstep {m n : Nat} (h : m < n) :
      m * cfg.blockBytes + cfg.blockBytes ≤ n * cfg.blockBytes := by
    rw [← Nat.succ_mul]
    exact Nat.mul_le_mul_right _ h
  rcases Nat.lt_or_gt_of_ne hnumber with hlt | hgt
  · exact .inl (hstep hlt)
  · exact .inr (hstep hgt)

def blockOf (cfg : CacheConfig) (address : Nat) : Nat :=
  cfg.blockStart (cfg.computeLocation address).tag (cfg.computeLocation address).row

/-- The block after the block of an address starts where that one ends. -/
theorem blockOf_next (hfits : cfg.FitsWord) (address : Nat) :
    cfg.blockOf (cfg.blockOf address + cfg.blockBytes) = cfg.blockOf address + cfg.blockBytes := by
  generalize hnext : cfg.blockOf address + cfg.blockBytes = next
  have hadd := blockStart_add_offset hfits next
  have hoffset := cfg.computeLocation_offset_lt next
  have hne : ¬ ((cfg.computeLocation address).tag = (cfg.computeLocation next).tag ∧
      (cfg.computeLocation address).row = (cfg.computeLocation next).row) := by
    rintro ⟨htag, hrow⟩
    rw [blockOf, htag, hrow] at hnext
    omega
  have hdisjoint := blockStart_disjoint (computeLocation_row_lt hfits address)
    (computeLocation_row_lt hfits next) hne
  simp only [blockOf] at *
  omega

end CacheConfig

namespace Cache

variable {cfg : CacheConfig}

def UniqueTags {B : Type} (c : Cache B) : Prop :=
  ∀ way way' row, (c.dt way row).valid → (c.dt way' row).valid →
    (c.dt way row).tag = (c.dt way' row).tag → way = way'

theorem UniqueTags.setLine {B : Type} {c : Cache B} (h : c.UniqueTags) {way row : Nat}
    {line : CacheLine} (hline : line.valid → ∀ w, w ≠ way → (c.dt w row).valid →
      (c.dt w row).tag ≠ line.tag) : (c.setLine way row line).UniqueTags := by
  intro w w' r hv hv' htag
  by_cases heq : w = way ∧ r = row <;> by_cases heq' : w' = way ∧ r = row
  · exact heq.1.trans heq'.1.symm
  · obtain ⟨rfl, rfl⟩ := heq
    rw [setLine_dt_self] at hv htag
    rw [setLine_dt_of_ne _ _ heq'] at hv' htag
    exact absurd htag.symm (hline hv w' (fun hw => heq' ⟨hw, rfl⟩) hv')
  · obtain ⟨rfl, rfl⟩ := heq'
    rw [setLine_dt_self] at hv' htag
    rw [setLine_dt_of_ne _ _ heq] at hv htag
    exact absurd htag (hline hv' w (fun hw => heq ⟨hw, rfl⟩) hv)
  · rw [setLine_dt_of_ne _ _ heq] at hv htag
    rw [setLine_dt_of_ne _ _ heq'] at hv' htag
    exact h w w' r hv hv' htag

/-- An address lies in a dirty line that the lower memory does not have yet. -/
def InDirtyLine {B : Type} (cfg : CacheConfig) (c : Cache B) (x : Nat) : Prop :=
  cfg.writePolicy = .back ∧ ∃ way row, (c.dt way row).valid ∧ (c.dt way row).dirty ∧
    cfg.blockStart (c.dt way row).tag row ≤ x ∧
    x < cfg.blockStart (c.dt way row).tag row + cfg.blockBytes

/-- What a kick does once the policy accepts the update. -/
theorem kick_of_updateStats {c : Cache (Nat → Byte)} {way row : Nat} {p : CachePolicy}
    (hupdate : c.replacementPolicy.updateStats way row false = (.ok (), p)) :
    ∃ c', c.kick cfg way row = (.ok (), c') ∧ c'.replacementPolicy = p ∧
      c'.dt = (c.setLine way row { c.dt way row with valid := false, dirty := false }).dt ∧
      c'.mem = if (c.dt way row).dirty ∧ cfg.writePolicy = .back then
        AddressMap.write c.mem (cfg.calcBaseAddress (c.dt way row).tag row) (c.dt way row).data
        else c.mem := by
  by_cases hkick : (c.dt way row).dirty ∧ cfg.writePolicy = .back
  · rw [Cache.kick, if_pos hkick, if_pos hkick]
    simp only [Outcome.within, LowerMemory.write, Outcome.andThen_ok, Cache.updateStats, count,
      setLine, hupdate]
    exact ⟨_, rfl, rfl, rfl, rfl⟩
  · rw [Cache.kick, if_neg hkick, if_neg hkick]
    simp only [Outcome.within, Outcome.andThen_ok, Cache.updateStats, count, setLine, hupdate]
    exact ⟨_, rfl, rfl, rfl, rfl⟩

theorem findBlockIndex_of_miss {B : Type} {c : Cache B} {loc : CacheLocation}
    (hmiss : cfg.associativity ≤ c.findBlockIndex cfg loc) :
    ∀ way, way < cfg.associativity → (c.dt way loc.row).valid →
      (c.dt way loc.row).tag ≠ loc.tag := by
  intro way hway hvalid htag
  rw [findBlockIndex] at hmiss
  rcases hfind : (List.range cfg.associativity).find? (c.holdsLocation loc) with _ | w
  · have hnone := List.find?_eq_none.mp hfind way (List.mem_range.mpr hway)
    simp [holdsLocation, hvalid, htag] at hnone
  · have hmem := List.mem_range.mp (List.mem_of_find?_eq_some hfind)
    rw [hfind] at hmiss
    exact absurd hmiss (Nat.not_le.mpr hmem)

theorem findBlockIndex_of_hit {B : Type} {c : Cache B} {loc : CacheLocation}
    (hhit : c.findBlockIndex cfg loc < cfg.associativity) :
    (c.dt (c.findBlockIndex cfg loc) loc.row).valid ∧
      (c.dt (c.findBlockIndex cfg loc) loc.row).tag = loc.tag := by
  rw [findBlockIndex] at hhit ⊢
  rcases hfind : (List.range cfg.associativity).find? (c.holdsLocation loc) with _ | w
  · rw [hfind] at hhit
    exact absurd hhit (Nat.lt_irrefl _)
  · have hline := List.find?_some hfind
    simpa [holdsLocation] using hline

def Located {B : Type} (cfg : CacheConfig) (c : Cache B) (loc : CacheLocation) (way : Nat) :
    Prop :=
  way < cfg.associativity ∧ (c.dt way loc.row).valid ∧ (c.dt way loc.row).tag = loc.tag

/-- What filling a line does: nothing to a valid line, and an invalid one gets the block. -/
theorem fill_eq (c : Cache (Nat → Byte)) (accessType : AccessType) (loc : CacheLocation)
    (way : Nat) :
    ∃ c', c.fill cfg accessType loc way = (.ok (), c') ∧ c'.mem = c.mem ∧
      c'.replacementPolicy = c.replacementPolicy ∧
      c'.dt = if (c.dt way loc.row).valid then c.dt
        else (c.setLine way loc.row ⟨true, false, loc.tag,
          AddressMap.read c.mem (cfg.calcBaseAddress loc.tag loc.row) cfg.blockBytes⟩).dt := by
  by_cases hvalid : (c.dt way loc.row).valid
  · rw [Cache.fill, if_pos hvalid, if_pos hvalid]
    exact ⟨_, rfl, rfl, rfl, rfl⟩
  · rw [Cache.fill, if_neg hvalid, if_neg hvalid]
    exact ⟨_, rfl, rfl, rfl, rfl⟩

theorem bypasses_of_low {address size : Nat} (henabled : cfg.enabled)
    (hrange : address + size < 0xf0000000) : bypasses cfg address size = false := by
  rw [bypasses, Nat.mod_eq_of_lt (by omega)]
  simp only [henabled, isInUncachedArea]
  simp
  omega

theorem mem_places_lt (cfg : CacheConfig) : ∀ p ∈ places cfg, p.1 < cfg.associativity := by
  intro p hp
  obtain ⟨way, hway, hp⟩ := List.mem_flatMap.mp hp
  obtain ⟨row, -, rfl⟩ := List.mem_map.mp hp
  exact List.mem_range.mp hway

end Cache

end QtRvSim
