import QtRvSim.Refinement.CacheBlocks

/-!
# Invariants of a cache over any lower memory

An operation on a cache empties lines, writing them back if they are dirty, brings blocks in from
the lower memory and stores into lines.  A property of the lines and the lower memory that these
changes keep is kept by every operation, for every address of the 64-bit address space.
-/

namespace QtRvSim

open Outcome CacheConfig CachePolicy

namespace Cache

variable {B : Type} {cfg : CacheConfig}

/-- The lines are well formed: in their places, of full length, one for a block, and dirty in a
write-back cache only while they are valid. -/
structure Shape (cfg : CacheConfig) (c : Cache B) : Prop where
  policy : c.replacementPolicy.Fits cfg
  place : ∀ way row, (c.dt way row).valid → way < cfg.associativity ∧ row < cfg.setCount
  base : ∀ way row, (c.dt way row).valid → cfg.blockStart (c.dt way row).tag row < 2 ^ 64
  length : ∀ way row, (c.dt way row).valid → (c.dt way row).data.length = cfg.blockBytes
  unique : ∀ way way' row, (c.dt way row).valid → (c.dt way' row).valid →
    (c.dt way row).tag = (c.dt way' row).tag → way = way'
  clean : cfg.writePolicy = .back → ∀ way row, (c.dt way row).dirty → (c.dt way row).valid

def emptied (c : Cache B) (way row : Nat) : Cache B :=
  c.setLine way row { c.dt way row with valid := false, dirty := false }

def installed (c : Cache B) (way row tag : Nat) (data : List Byte) : Cache B :=
  c.setLine way row ⟨true, false, tag, data⟩

def stored (c : Cache B) (way row offset : Nat) (bytes : List Byte) : Cache B :=
  c.setLine way row ({ c.dt way row with dirty := true }.store offset bytes)

def WritesBack (cfg : CacheConfig) (c : Cache B) (way row : Nat) : Prop :=
  (c.dt way row).dirty ∧ cfg.writePolicy = .back

def Lacks (c : Cache B) (row tag : Nat) : Prop :=
  ∀ way, (c.dt way row).valid → (c.dt way row).tag ≠ tag

/-- Every byte of a valid line meets a condition for its address. -/
def LineBytes (cfg : CacheConfig) (Q : Nat → Byte → Prop) (c : Cache B) : Prop :=
  ∀ way row, (c.dt way row).valid → ∀ j < cfg.blockBytes,
    Q (cfg.blockStart (c.dt way row).tag row + j) ((c.dt way row).data.getD j 0)

namespace Shape

variable {c : Cache B}

theorem congr {c' : Cache B} (h : Shape cfg c) (hdt : c'.dt = c.dt)
    (hpolicy : c'.replacementPolicy.Fits cfg) : Shape cfg c' where
  policy := hpolicy
  place := hdt ▸ h.place
  base := hdt ▸ h.base
  length := hdt ▸ h.length
  unique := hdt ▸ h.unique
  clean := hdt ▸ h.clean

theorem of_empty (hpolicy : c.replacementPolicy.Fits cfg)
    (hempty : ∀ way row, (c.dt way row).valid = false)
    (hclean : cfg.writePolicy = .back → ∀ way row, (c.dt way row).dirty = false) : Shape cfg c where
  policy := hpolicy
  place _ _ h := absurd h (by simp [hempty])
  base _ _ h := absurd h (by simp [hempty])
  length _ _ h := absurd h (by simp [hempty])
  unique _ _ _ h := absurd h (by simp [hempty])
  clean hback _ _ h := absurd h (by simp [hclean hback])

theorem new (lib : CLibrary) (cfg : CacheConfig) (mem : B) : Shape cfg (Cache.new lib cfg mem) :=
  of_empty (fits_getPolicyInstance lib cfg) (fun _ _ => rfl) fun _ _ _ => rfl

/-- What is valid after a line was emptied was there before. -/
theorem emptied_valid {way row w r : Nat} (hvalid : ((c.emptied way row).dt w r).valid) :
    (c.emptied way row).dt w r = c.dt w r ∧ ¬(w = way ∧ r = row) := by
  by_cases heq : w = way ∧ r = row
  · rw [heq.1, heq.2, emptied, setLine_dt_self] at hvalid
    exact absurd hvalid Bool.false_ne_true
  · exact ⟨setLine_dt_of_ne _ _ heq, heq⟩

/-- A line may be replaced by one that is well formed in its place. -/
theorem setLine (h : Shape cfg c) {way row : Nat} {line : CacheLine}
    (hvalid : line.valid → (way < cfg.associativity ∧ row < cfg.setCount) ∧
      cfg.blockStart line.tag row < 2 ^ 64 ∧ line.data.length = cfg.blockBytes)
    (hclean : line.dirty → line.valid)
    (hline : line.valid → ∀ w, w ≠ way → (c.dt w row).valid → (c.dt w row).tag ≠ line.tag) :
    Shape cfg (c.setLine way row line) where
  policy := h.policy
  place := forall_setLine (P := fun w r l => l.valid → w < cfg.associativity ∧ r < cfg.setCount)
    (fun hv => (hvalid hv).1) fun w r _ => h.place w r
  base := forall_setLine (P := fun _ r l => l.valid → cfg.blockStart l.tag r < 2 ^ 64)
    (fun hv => (hvalid hv).2.1) fun w r _ => h.base w r
  length := forall_setLine (P := fun _ _ l => l.valid → l.data.length = cfg.blockBytes)
    (fun hv => (hvalid hv).2.2) fun w r _ => h.length w r
  unique := UniqueTags.setLine h.unique hline
  clean hback := forall_setLine (P := fun _ _ l => l.dirty → l.valid) hclean
    fun w r _ => h.clean hback w r

theorem emptied (h : Shape cfg c) (way row : Nat) : Shape cfg (c.emptied way row) :=
  h.setLine nofun nofun nofun

theorem installed (h : Shape cfg c) {way row tag : Nat} {data : List Byte}
    (hway : way < cfg.associativity) (hrow : row < cfg.setCount)
    (hbase : cfg.blockStart tag row < 2 ^ 64) (hlength : data.length = cfg.blockBytes)
    (hlacks : c.Lacks row tag) : Shape cfg (c.installed way row tag data) :=
  h.setLine (fun _ => ⟨⟨hway, hrow⟩, hbase, hlength⟩) (fun _ => rfl) fun _ w _ => hlacks w

/-- A store leaves valid bits and tags. -/
theorem stored_line (c : Cache B) (way row offset : Nat) (bytes : List Byte) (w r : Nat) :
    ((c.stored way row offset bytes).dt w r).valid = (c.dt w r).valid ∧
      ((c.stored way row offset bytes).dt w r).tag = (c.dt w r).tag := by
  by_cases heq : w = way ∧ r = row
  · rw [heq.1, heq.2, stored, setLine_dt_self]
    exact ⟨rfl, rfl⟩
  · rw [stored, setLine_dt_of_ne _ _ heq]
    exact ⟨rfl, rfl⟩

theorem stored (h : Shape cfg c) {way row offset : Nat} {bytes : List Byte}
    (hvalid : (c.dt way row).valid) (hpiece : offset + bytes.length ≤ cfg.blockBytes) :
    Shape cfg (c.stored way row offset bytes) := by
  have hlength := h.length way row hvalid
  refine h.setLine (fun _ => ⟨h.place way row hvalid, h.base way row hvalid, ?_⟩)
    (fun _ => hvalid) fun _ w hne hv htag => hne (h.unique w way row hv hvalid htag)
  simp only [CacheLine.store, List.length_append, List.length_take, List.length_drop]
  omega

end Shape

variable {c : Cache B} {way row : Nat}

/-- A line to be written back after another was emptied was one before. -/
theorem writesBack_emptied {w r : Nat} (hback : (c.emptied way row).WritesBack cfg w r) :
    c.WritesBack cfg w r ∧ (c.emptied way row).dt w r = c.dt w r := by
  by_cases heq : w = way ∧ r = row
  · rw [heq.1, heq.2, WritesBack, emptied, setLine_dt_self] at hback
    exact absurd hback.1 Bool.false_ne_true
  · have hline : (c.emptied way row).dt w r = c.dt w r := setLine_dt_of_ne _ _ heq
    rw [WritesBack, hline] at hback
    exact ⟨hback, hline⟩

/-- A block that is brought in is not to be written back. -/
theorem writesBack_installed {tag w r : Nat} {data : List Byte}
    (hback : (c.installed way row tag data).WritesBack cfg w r) :
    c.WritesBack cfg w r ∧ (c.installed way row tag data).dt w r = c.dt w r := by
  by_cases heq : w = way ∧ r = row
  · rw [heq.1, heq.2, WritesBack, installed, setLine_dt_self] at hback
    exact absurd hback.1 Bool.false_ne_true
  · have hline : (c.installed way row tag data).dt w r = c.dt w r := setLine_dt_of_ne _ _ heq
    rw [WritesBack, hline] at hback
    exact ⟨hback, hline⟩

/-- A line that stays dirty stays dirty when another is emptied. -/
theorem inDirtyLine_emptied {x : Nat} (hx : c.InDirtyLine cfg x) :
    (c.emptied way row).InDirtyLine cfg x ∨
      c.WritesBack cfg way row ∧ cfg.blockStart (c.dt way row).tag row ≤ x ∧
        x < cfg.blockStart (c.dt way row).tag row + cfg.blockBytes := by
  obtain ⟨hback, w, r, hv, hd, hrange⟩ := hx
  by_cases heq : w = way ∧ r = row
  · obtain ⟨rfl, rfl⟩ := heq
    exact .inr ⟨⟨hd, hback⟩, hrange⟩
  · have hline : (c.emptied way row).dt w r = c.dt w r := setLine_dt_of_ne _ _ heq
    rw [← hline] at hv hd hrange
    exact .inl ⟨hback, w, r, hv, hd, hrange⟩

/-- Bringing a block into an empty line leaves the dirty lines. -/
theorem inDirtyLine_installed {tag x : Nat} {data : List Byte}
    (hempty : (c.dt way row).valid = false) (hx : c.InDirtyLine cfg x) :
    (c.installed way row tag data).InDirtyLine cfg x := by
  obtain ⟨hback, w, r, hv, hd, hrange⟩ := hx
  have hline : (c.installed way row tag data).dt w r = c.dt w r := by
    refine setLine_dt_of_ne _ _ ?_
    rintro ⟨rfl, rfl⟩
    rw [hempty] at hv
    exact Bool.false_ne_true hv
  rw [← hline] at hv hd hrange
  exact ⟨hback, w, r, hv, hd, hrange⟩

/-- A store leaves the dirty lines. -/
theorem inDirtyLine_stored {offset x : Nat} {bytes : List Byte} (hx : c.InDirtyLine cfg x) :
    (c.stored way row offset bytes).InDirtyLine cfg x := by
  obtain ⟨hback, w, r, hv, hd, hrange⟩ := hx
  obtain ⟨hvalid, htag⟩ := Shape.stored_line c way row offset bytes w r
  refine ⟨hback, w, r, hvalid ▸ hv, ?_, htag ▸ hrange⟩
  by_cases heq : w = way ∧ r = row
  · rw [heq.1, heq.2, stored, setLine_dt_self]
    rfl
  · rwa [stored, setLine_dt_of_ne _ _ heq]

/-! ### The bytes of the lines -/

namespace LineBytes

variable {Q Q' : Nat → Byte → Prop} {c : Cache B}

theorem mono (h : c.LineBytes cfg Q) (hmono : ∀ x v, Q x v → Q' x v) : c.LineBytes cfg Q' :=
  fun way row hv j hj => hmono _ _ (h way row hv j hj)

variable {row : Nat}

theorem setLine (h : c.LineBytes cfg Q) {way : Nat} {line : CacheLine}
    (hline : line.valid → ∀ j < cfg.blockBytes, Q (cfg.blockStart line.tag row + j) (line.data.getD
      j 0)) : (c.setLine way row line).LineBytes cfg Q :=
  forall_setLine (P := fun _ r l => l.valid → ∀ j < cfg.blockBytes,
    Q (cfg.blockStart l.tag r + j) (l.data.getD j 0)) hline fun w r _ => h w r

theorem emptied (h : c.LineBytes cfg Q) (way row : Nat) : (c.emptied way row).LineBytes cfg Q :=
  h.setLine nofun

theorem installed (h : c.LineBytes cfg Q) {way tag : Nat} {data : List Byte}
    (hdata : ∀ j < cfg.blockBytes, Q (cfg.blockStart tag row + j) (data.getD j 0)) :
    (c.installed way row tag data).LineBytes cfg Q :=
  h.setLine fun _ => hdata

/-- A line that is not the one of a block has no byte of it. -/
theorem outside (hshape : Shape cfg c) {w r tag j : Nat} (hv : (c.dt w r).valid)
    (hrow : row < cfg.setCount) (hne : ¬((c.dt w r).tag = tag ∧ r = row)) (hj : j < cfg.blockBytes)
    {offset n : Nat} (hpiece : offset + n ≤ cfg.blockBytes) :
    ¬(cfg.blockStart tag row + offset ≤ cfg.blockStart (c.dt w r).tag r + j ∧
      cfg.blockStart (c.dt w r).tag r + j < cfg.blockStart tag row + offset + n) := by
  have hdisjoint := blockStart_disjoint (hshape.place w r hv).2 hrow hne
  omega

theorem skip (h : c.LineBytes cfg Q) (hshape : Shape cfg c) {tag offset n : Nat}
    (hrow : row < cfg.setCount) (hlacks : c.Lacks row tag) (hpiece : offset + n ≤ cfg.blockBytes)
    (hout : ∀ x v, ¬(cfg.blockStart tag row + offset ≤ x ∧ x < cfg.blockStart tag row + offset + n)
      → Q x v → Q' x v) : c.LineBytes cfg Q' := by
  intro w r hv j hj
  refine hout _ _ (outside hshape hv hrow ?_ hj hpiece) (h w r hv j hj)
  rintro ⟨htag, rfl⟩
  exact hlacks w hv htag

theorem stored (h : c.LineBytes cfg Q) (hshape : Shape cfg c) {way offset : Nat} {bytes : List Byte}
    (hvalid : (c.dt way row).valid) (hpiece : offset + bytes.length ≤ cfg.blockBytes)
    (hin : ∀ j < bytes.length, Q' (cfg.blockStart (c.dt way row).tag row + offset + j) (bytes.getD j
      0))
    (hout : ∀ x v, ¬(cfg.blockStart (c.dt way row).tag row + offset ≤ x ∧ x < cfg.blockStart (c.dt
      way row).tag row + offset + bytes.length) → Q x v → Q' x v) :
    (c.stored way row offset bytes).LineBytes cfg Q' := by
  intro w r hv j hj
  obtain ⟨hsame, htag⟩ := Shape.stored_line c way row offset bytes w r
  rw [hsame] at hv
  rw [htag]
  have hbyte := h w r hv j hj
  by_cases heq : w = way ∧ r = row
  · obtain ⟨rfl, rfl⟩ := heq
    have hlength := hshape.length w r hv
    rw [Cache.stored, setLine_dt_self]
    simp only [CacheLine.store, List.append_assoc]
    have htake : ((c.dt w r).data.take offset).length = offset := by
      rw [List.length_take]
      omega
    rcases Nat.lt_or_ge j offset with hlow | hge
    · rw [List.getD_append _ _ _ _ (by omega), List.getD_eq_getElem?_getD,
        List.getElem?_take_of_lt hlow, ← List.getD_eq_getElem?_getD]
      exact hout _ _ (by omega) hbyte
    · rw [List.getD_append_right _ _ _ _ (by omega), htake]
      by_cases hmid : j < offset + bytes.length
      · rw [List.getD_append _ _ _ _ (by omega)]
        have hnew := hin (j - offset) (by omega)
        rwa [Nat.add_assoc, Nat.add_sub_cancel' hge] at hnew
      · rw [List.getD_append_right _ _ _ _ (by omega), List.getD_eq_getElem?_getD,
          List.getElem?_drop, ← List.getD_eq_getElem?_getD,
          show offset + bytes.length + (j - offset - bytes.length) = j by omega]
        exact hout _ _ (by omega) hbyte
  · rw [Cache.stored, setLine_dt_of_ne _ _ heq]
    refine hout _ _ (outside hshape hv (hshape.place way row hvalid).2 ?_ hj hpiece) hbyte
    rintro ⟨htag', rfl⟩
    exact heq ⟨hshape.unique w way r hv hvalid htag', rfl⟩

end LineBytes

/-! ### Laws of lines -/

variable [LowerMemory B]

/-- A property of the lines and the lower memory that is kept when lines are emptied and blocks are
brought in, where the lower memory raises no exception.  The index says what the cache stands for;
while a store is under way in a write-through cache not every block is ready to be brought in. -/
structure LineLaw (cfg : CacheConfig) (B : Type) [LowerMemory B] (ι : Type) where
  Own : ι → Cache B → Prop
  Ready : ι → Nat → Prop
  congr : ∀ {i : ι} {c c' : Cache B}, c'.dt = c.dt → c'.mem = c.mem → Own i c → Own i c'
  drop : ∀ {i : ι} {c : Cache B}, Shape cfg c → Own i c → ∀ way row, ¬c.WritesBack cfg way row →
    Own i (c.emptied way row)
  writeBack : ∀ {i : ι} {c : Cache B}, Shape cfg c → Own i c → ∀ way row,
    c.WritesBack cfg way row →
    ∃ result mem, LowerMemory.write .regular (cfg.blockStart (c.dt way row).tag row)
        (c.dt way row).data c.mem = (.ok result, mem) ∧
      Own i ({ c with mem := mem }.emptied way row)
  install : ∀ {i : ι} {c : Cache B}, Shape cfg c → Own i c → ∀ {way row tag : Nat},
    way < cfg.associativity → row < cfg.setCount → cfg.blockStart tag row < 2 ^ 64 →
    (c.dt way row).valid = false → c.Lacks row tag → Ready i (cfg.blockStart tag row) →
    ∃ data mem, LowerMemory.read .regular (cfg.blockStart tag row) cfg.blockBytes c.mem =
        (.ok data, mem) ∧ data.length = cfg.blockBytes ∧
      Own i ({ c with mem := mem }.installed way row tag data)

namespace LineLaw

variable {ι : Type} (law : LineLaw cfg B ι) {i : ι} {c : Cache B}

structure Holds (i : ι) (c : Cache B) : Prop where
  shape : Shape cfg c
  own : law.Own i c

variable {law}

variable (h : law.Holds i c)
include h

theorem Holds.congr {c' : Cache B} (hdt : c'.dt = c.dt) (hmem : c'.mem = c.mem)
    (hpolicy : c'.replacementPolicy.Fits cfg) : law.Holds i c' :=
  ⟨h.shape.congr hdt hpolicy, law.congr hdt hmem h.own⟩

theorem Holds.updateStats {way : Nat} (hway : way < cfg.associativity) (row : Nat)
    (isValid : Bool) :
    ∃ c', c.updateStats way row isValid = (.ok (), c') ∧ law.Holds i c' ∧ c'.dt = c.dt := by
  obtain ⟨p, hupdate, hfits⟩ := updateStats_ok h.shape.policy hway row isValid
  refine ⟨{ c with replacementPolicy := p }, ?_, h.congr rfl rfl hfits, rfl⟩
  rw [Cache.updateStats, hupdate]
  rfl

/-- Emptying a line never fails. -/
theorem Holds.kick {way : Nat} (hway : way < cfg.associativity) (row : Nat) :
    ∃ c', c.kick cfg way row = (.ok (), c') ∧ law.Holds i c' ∧ c'.dt = (c.emptied way row).dt := by
  obtain ⟨p, hupdate, hfits⟩ := updateStats_ok h.shape.policy hway row false
  have hshape := h.shape.emptied way row
  by_cases hback : c.WritesBack cfg way row
  · have hbase := h.shape.base way row (h.shape.clean hback.2 way row hback.1)
    obtain ⟨result, mem, hwrite, hown⟩ := law.writeBack h.shape h.own way row hback
    rw [← calcBaseAddress_of_lt hbase] at hwrite
    rw [Cache.kick, if_pos (by exact hback), hwrite]
    simp only [within, andThen_ok, Cache.updateStats, count, setLine, hupdate]
    refine ⟨_, rfl, ⟨hshape.congr rfl hfits, law.congr ?_ ?_ hown⟩, rfl⟩ <;> rfl
  · have hown := law.drop h.shape h.own way row hback
    rw [Cache.kick, if_neg (by exact hback)]
    simp only [within, andThen_ok, Cache.updateStats, count, setLine, hupdate]
    refine ⟨_, rfl, ⟨hshape.congr rfl hfits, law.congr ?_ ?_ hown⟩, rfl⟩ <;> rfl

/-- The way of a hit holds the block; on a miss a way is emptied for it. -/
theorem Holds.makeRoom (loc : CacheLocation) :
    ∃ way c', c.makeRoom cfg loc (c.findBlockIndex cfg loc) = (.ok way, c') ∧ law.Holds i c' ∧
      (c'.Located cfg loc way ∨ way < cfg.associativity ∧ (c'.dt way loc.row).valid = false ∧
        c'.Lacks loc.row loc.tag) := by
  by_cases hmiss : cfg.associativity ≤ c.findBlockIndex cfg loc
  · have hselect := selectWayToEvict_lt h.shape.policy loc.row
    generalize hs : c.replacementPolicy.selectWayToEvict cfg.associativity loc.row = selected
      at hselect
    have hfits : selected.2.Fits cfg :=
      hs ▸ selectWayToEvict_fits h.shape.policy loc.row
    have hpolicy : law.Holds i { c with replacementPolicy := selected.2 } := h.congr rfl rfl hfits
    obtain ⟨c', hkick, hholds, hdt⟩ := hpolicy.kick hselect loc.row
    refine ⟨selected.1, c', ?_, hholds, .inr ⟨hselect, ?_, fun way hvalid => ?_⟩⟩
    · rw [Cache.makeRoom, if_pos hmiss]
      simp only [hs, hkick, andThen_ok, if_pos hselect]
    · rw [hdt, emptied, setLine_dt_self]
    · rw [hdt] at hvalid ⊢
      have hkept := (Shape.emptied_valid hvalid).1
      rw [hkept] at hvalid ⊢
      exact findBlockIndex_of_miss hmiss way (h.shape.place way loc.row hvalid).1 hvalid
  · have hhit : c.findBlockIndex cfg loc < cfg.associativity := Nat.lt_of_not_le hmiss
    exact ⟨_, c, by rw [Cache.makeRoom, if_neg hmiss], h, .inl ⟨hhit, findBlockIndex_of_hit hhit⟩⟩

/-- After filling the line holds the block. -/
theorem Holds.fill (accessType : AccessType) {loc : CacheLocation} {way : Nat}
    (hrow : loc.row < cfg.setCount) (hbase : cfg.blockStart loc.tag loc.row < 2 ^ 64)
    (hready : law.Ready i (cfg.blockStart loc.tag loc.row)) (hway : c.Located cfg loc way ∨ way <
      cfg.associativity ∧ (c.dt way loc.row).valid = false ∧ c.Lacks loc.row loc.tag) :
    ∃ c', c.fill cfg accessType loc way = (.ok (), c') ∧ law.Holds i c' ∧
      c'.Located cfg loc way := by
  rcases hway with hlocated | ⟨hway, hempty, hlacks⟩
  · rw [Cache.fill, if_pos hlocated.2.1]
    exact ⟨_, rfl, h.congr rfl rfl h.shape.policy, hlocated⟩
  · obtain ⟨data, mem, hread, hlength, hown⟩ := law.install h.shape h.own hway hrow hbase hempty
      hlacks hready
    have hshape := h.shape.installed hway hrow hbase hlength hlacks
    rw [← calcBaseAddress_of_lt hbase] at hread
    have hinvalid : ¬(c.dt way loc.row).valid = true := by
      rw [hempty]
      exact Bool.false_ne_true
    rw [Cache.fill, if_neg hinvalid]
    simp only [within, count, hread, andThen_ok]
    refine ⟨_, rfl, ⟨hshape.congr rfl hshape.policy, law.congr ?_ ?_ hown⟩, hway, ?_⟩
    · rfl
    · rfl
    · simp only [setLine_dt_self, and_self]

/-- After the block of an address is brought in, a way holds it. -/
theorem Holds.bringIn (hfits : cfg.FitsWord) {address : Nat} (haddress : address < 2 ^ 64)
    (hready : law.Ready i (cfg.blockOf address)) (accessType : AccessType) :
    ∃ way c', c.bringIn cfg accessType (cfg.computeLocation address)
        (c.findBlockIndex cfg (cfg.computeLocation address)) = (.ok way, c') ∧
      law.Holds i c' ∧ c'.Located cfg (cfg.computeLocation address) way := by
  have hadd := blockStart_add_offset hfits address
  obtain ⟨way, c₁, hroom, hholds₁, hplace⟩ := h.makeRoom (cfg.computeLocation address)
  obtain ⟨c₂, hfill, hholds₂, hlocated⟩ := hholds₁.fill accessType
    (computeLocation_row_lt hfits address) (by omega) hready hplace
  obtain ⟨c₃, hupdate, hholds₃, hdt⟩ := hholds₂.updateStats hlocated.1
    (cfg.computeLocation address).row (c₂.dt way (cfg.computeLocation address).row).valid
  refine ⟨way, c₃, ?_, hholds₃, ?_⟩
  · rw [Cache.bringIn, hroom, andThen_ok, hfill, andThen_ok, hupdate, andThen_ok]
  · rw [Located, hdt]
    exact hlocated

/-- What is read from a line. -/
theorem Holds.transfer_read {Q : Nat → Byte → Prop} (hQ : c.LineBytes cfg Q) {loc : CacheLocation}
    {way size : Nat} (hway : c.Located cfg loc way) (buffer : List Byte)
    (hsize : loc.offset + size ≤ cfg.blockBytes) :
    ∃ bs, c.transfer .read loc way buffer size = (false, bs, c) ∧ bs.length = size ∧
      ∀ j < size, Q (cfg.blockStart loc.tag loc.row + loc.offset + j) (bs.getD j 0) := by
  have hlength := h.shape.length way loc.row hway.2.1
  refine ⟨_, rfl, ?_, fun j hj => ?_⟩
  · rw [List.length_take, List.length_drop]
    omega
  · have hbyte := hQ way loc.row hway.2.1 (loc.offset + j) (by omega)
    rw [hway.2.2, ← Nat.add_assoc] at hbyte
    rw [List.getD_eq_getElem?_getD, List.getElem?_take_of_lt hj, List.getElem?_drop,
      ← List.getD_eq_getElem?_getD]
    exact hbyte

/-- A read never fails, and every byte it returns is one that a line held for its address. -/
theorem Holds.access_read (hfits : cfg.FitsWord) {Q : Nat → Byte → Prop}
    (hQ : ∀ c, law.Holds i c → c.LineBytes cfg Q) {fuel address size : Nat} (buffer : List Byte)
    (hfuel : size ≤ fuel)
    (hready : ∀ base, (address + size < 2 ^ 64 → base < address + size) → law.Ready i base)
    (haddress : address < 2 ^ 64) :
    ∃ b bs c', c.access cfg .read fuel address buffer size = (.ok (b, bs), c') ∧
      law.Holds i c' ∧ bs.length = size ∧
      ∀ j < size, address + j < 2 ^ 64 → Q (address + j) (bs.getD j 0) := by
  induction fuel generalizing c address buffer size with
  | zero =>
    obtain rfl : size = 0 := by omega
    exact ⟨false, [], c, rfl, h, rfl, fun j hj => absurd hj (Nat.not_lt_zero j)⟩
  | succ fuel ih =>
    by_cases hzero : size = 0
    · subst hzero
      refine ⟨false, [], c, ?_, h, rfl, fun j hj => absurd hj (Nat.not_lt_zero j)⟩
      rw [access]
      simp only [if_true]
    have hadd := blockStart_add_offset hfits address
    have hoffset := cfg.computeLocation_offset_lt address
    obtain ⟨way, c₁, hbring, hholds, hlocated⟩ := h.bringIn hfits haddress
      (hready _ fun _ => show cfg.blockStart _ _ < _ by omega) .read
    have hover : cfg.calculateOverflowToNextBlocks size (cfg.computeLocation address) =
      (cfg.computeLocation address).offset + size - cfg.blockBytes := rfl
    rw [access]
    simp only [if_neg hzero, reduceCtorEq, false_and, and_false, if_false, hbring,
      andThen_ok, hover]
    generalize hover' : (cfg.computeLocation address).offset + size - cfg.blockBytes = overflow
    obtain ⟨bs, htransfer, hlength, hbytes⟩ := hholds.transfer_read (hQ c₁ hholds) hlocated
      (buffer.take (size - overflow)) (show _ + (size - overflow) ≤ _ by omega)
    rw [hadd] at hbytes
    rw [htransfer]
    by_cases hmore : 0 < overflow
    · obtain ⟨b, bs', c₂, hnext, hholds₂, hlength', hbytes'⟩ := ih hholds
        (buffer.drop (size - overflow)) (show overflow ≤ fuel by omega)
        (fun base hbase => hready base fun hend => by
          have hnext := hbase (by rw [Nat.mod_eq_of_lt (by omega)]; omega)
          rw [Nat.mod_eq_of_lt (by omega)] at hnext
          omega)
        (show (address + (size - overflow)) % 2 ^ 64 < 2 ^ 64 from Nat.mod_lt _ (by decide))
      refine ⟨b, bs ++ bs', c₂, ?_, hholds₂, ?_, fun j hj hlow => ?_⟩
      · rw [if_pos hmore, hnext, andThen_ok, Bool.false_or]
      · rw [List.length_append]
        omega
      · by_cases hfirst : j < size - overflow
        · rw [List.getD_append _ _ _ _ (by omega)]
          exact hbytes j hfirst
        · -- the address has not wrapped around
          have hrest := hbytes' (j - (size - overflow)) (by omega)
          rw [Nat.mod_eq_of_lt (by omega)] at hrest
          rw [List.getD_append_right _ _ _ _ (by omega), hlength]
          have hplace : address + (size - overflow) + (j - (size - overflow)) = address + j := by
            omega
          rw [hplace] at hrest
          exact hrest hlow
    · refine ⟨false, bs, c₁, ?_, hholds, by omega, fun j hj _ => hbytes j (by omega)⟩
      rw [if_neg hmore]

/-- Emptying a list of places. -/
theorem Holds.kickAll {places : List (Nat × Nat)}
    (hplaces : ∀ p ∈ places, p.1 < cfg.associativity) :
    ∃ c', c.kickAll cfg places = (.ok (), c') ∧ law.Holds i c' ∧
      ∀ way row, (c'.dt way row).valid → (c.dt way row).valid ∧ (way, row) ∉ places := by
  induction places generalizing c with
  | nil => exact ⟨c, rfl, h, fun way row hv => ⟨hv, List.not_mem_nil⟩⟩
  | cons p places ih =>
    obtain ⟨way, row⟩ := p
    have hstep : ∃ c₁, (if (c.dt way row).valid then c.kick cfg way row else (.ok (), c)) =
        (.ok (), c₁) ∧ law.Holds i c₁ ∧
        ∀ w r, (c₁.dt w r).valid → (c.dt w r).valid ∧ (w, r) ≠ (way, row) := by
      by_cases hvalid : (c.dt way row).valid
      · obtain ⟨c₁, hkick, hholds, hdt⟩ := h.kick (hplaces _ List.mem_cons_self) row
        refine ⟨c₁, by rw [if_pos hvalid, hkick], hholds, fun w r hv => ?_⟩
        rw [hdt] at hv
        obtain ⟨hkept, hne⟩ := Shape.emptied_valid hv
        rw [hkept] at hv
        exact ⟨hv, fun hpair => hne (Prod.mk.inj hpair)⟩
      · refine ⟨c, by rw [if_neg hvalid], h, fun w r hv => ⟨hv, fun hpair => hvalid ?_⟩⟩
        rwa [← (Prod.mk.inj hpair).1, ← (Prod.mk.inj hpair).2]
    obtain ⟨c₁, hkick, hholds, hfirst⟩ := hstep
    obtain ⟨c₂, hrest, hholds₂, hempty⟩ := ih hholds fun p hp =>
      hplaces p (List.mem_cons_of_mem _ hp)
    refine ⟨c₂, by rw [Cache.kickAll, hkick, andThen_ok, hrest], hholds₂,
      fun w r hv => ?_⟩
    obtain ⟨hv₁, hout⟩ := hempty w r hv
    obtain ⟨hv₀, hne⟩ := hfirst w r hv₁
    exact ⟨hv₀, fun hmem => (List.mem_cons.mp hmem).elim hne hout⟩

/-- A flush empties the cache. -/
theorem Holds.flush (henabled : cfg.enabled = true) :
    ∃ c', c.flush cfg = (.ok (), c') ∧ law.Holds i c' ∧
      ∀ way row, (c'.dt way row).valid = false := by
  obtain ⟨c₁, hkick, hholds, hempty⟩ := h.kickAll (mem_places_lt cfg)
  rw [Cache.flush, if_pos henabled, hkick, andThen_ok]
  refine ⟨_, rfl, hholds.congr rfl rfl hholds.shape.policy, fun way row => ?_⟩
  change (c₁.dt way row).valid = false
  by_contra hvalid
  have hv : (c₁.dt way row).valid = true := by simpa using hvalid
  obtain ⟨hway, hrow⟩ := hholds.shape.place way row hv
  refine (hempty way row hv).2 (List.mem_flatMap.mpr ⟨way, List.mem_range.mpr hway, ?_⟩)
  exact List.mem_map.mpr ⟨row, List.mem_range.mpr hrow, rfl⟩

end LineLaw

/-- A law that also says what a store does, to a line that holds the block or past a write-through
cache that does not allocate one. -/
structure StoreLaw (cfg : CacheConfig) (B : Type) [LowerMemory B] (ι : Type) extends
    LineLaw cfg B ι where
  upd : ι → Nat → List Byte → ι
  Allowed : Nat → Byte → Prop
  upd_nil : ∀ i a, upd i a [] = i
  upd_append : ∀ i a bs bs', upd (upd i a bs) (a + bs.length) bs' = upd i a (bs ++ bs')
  ready_upd : ∀ {i a bs base}, Ready i base → a + bs.length ≤ base → Ready (upd i a bs) base
  store : ∀ {i : ι} {c : Cache B}, Shape cfg c → Own i c → ∀ {way row offset : Nat}
    {bs : List Byte}, (c.dt way row).valid → 0 < bs.length → offset + bs.length ≤ cfg.blockBytes →
    (∀ j < bs.length, Allowed (cfg.blockStart (c.dt way row).tag row + offset + j)
      (bs.getD j 0)) →
    Own (upd i (cfg.blockStart (c.dt way row).tag row + offset) bs) (c.stored way row offset bs)
  skip : ∀ {i : ι} {c : Cache B}, Shape cfg c → Own i c → cfg.writePolicy ≠ .back →
    ∀ {row tag offset : Nat} {bs : List Byte}, row < cfg.setCount → c.Lacks row tag →
    offset + bs.length ≤ cfg.blockBytes →
    (∀ j < bs.length, Allowed (cfg.blockStart tag row + offset + j) (bs.getD j 0)) →
    Own (upd i (cfg.blockStart tag row + offset) bs) c

namespace StoreLaw

variable {ι : Type} {law : StoreLaw cfg B ι} {i : ι} {c : Cache B}

theorem transfer_write (h : law.Holds i c) {loc : CacheLocation} {way : Nat}
    (hway : c.Located cfg loc way) {buffer : List Byte} (hpos : 0 < buffer.length)
    (hsize : loc.offset + buffer.length ≤ cfg.blockBytes)
    (hallowed : ∀ j < buffer.length,
      law.Allowed (cfg.blockStart loc.tag loc.row + loc.offset + j) (buffer.getD j 0)) :
    ∃ changed c', c.transfer .write loc way buffer buffer.length = (changed, [], c') ∧
      law.Holds (law.upd i (cfg.blockStart loc.tag loc.row + loc.offset) buffer) c' := by
  have hstore := law.store h.shape h.own hway.2.1 hpos hsize (by rw [hway.2.2]; exact hallowed)
  rw [hway.2.2] at hstore
  obtain ⟨changed, c', htransfer, hdt, hmem, hpolicy⟩ := Cache.transfer_write c loc way buffer
  have hshape := h.shape.stored hway.2.1 hsize
  exact ⟨changed, c', htransfer, hshape.congr hdt (hpolicy ▸ h.shape.policy),
    law.congr hdt hmem hstore⟩

/-- A write to the first block of an access, into the line that is found or brought in, or past
the cache. -/
theorem access_write_block (h : law.Holds i c) (hfits : cfg.FitsWord) {fuel address : Nat}
    {buffer : List Byte} (hsize : buffer ≠ []) (haddress : address < 2 ^ 64)
    (hready : law.Ready i (cfg.blockOf address))
    (hallowed : ∀ j < buffer.length, law.Allowed (address + j) (buffer.getD j 0)) {overflow : Nat}
    (hover : overflow = (cfg.computeLocation address).offset + buffer.length - cfg.blockBytes) :
    ∃ c', law.Holds (law.upd i address (buffer.take (buffer.length - overflow))) c' ∧
      ∃ changed, c.access cfg .write (fuel + 1) address buffer buffer.length =
        if 0 < overflow then
          andThen (c'.access cfg .write fuel
            ((address + (buffer.length - overflow)) % 2 ^ 64)
            (buffer.drop (buffer.length - overflow)) overflow) fun rest c =>
              (.ok (changed || rest.1, [] ++ rest.2), c)
        else (.ok (changed, []), c') := by
  have hadd := blockStart_add_offset hfits address
  have hoffset := cfg.computeLocation_offset_lt address
  have hzero : buffer.length ≠ 0 := mt List.eq_nil_of_length_eq_zero hsize
  have hfirst : (buffer.take (buffer.length - overflow)).length = buffer.length - overflow := by
    rw [List.length_take]
    omega
  have hpiece : (cfg.computeLocation address).offset +
      (buffer.take (buffer.length - overflow)).length ≤ cfg.blockBytes := by
    omega
  have hallowed' : ∀ j < (buffer.take (buffer.length - overflow)).length,
      law.Allowed (cfg.blockStart (cfg.computeLocation address).tag
        (cfg.computeLocation address).row + (cfg.computeLocation address).offset + j)
        ((buffer.take (buffer.length - overflow)).getD j 0) := by
    intro j hj
    rw [hadd, List.getD_eq_getElem?_getD, List.getElem?_take_of_lt (by omega),
      ← List.getD_eq_getElem?_getD]
    exact hallowed j (by omega)
  have hover' : cfg.calculateOverflowToNextBlocks buffer.length (cfg.computeLocation address) =
    overflow := hover.symm
  rw [access]
  simp only [if_neg hzero, hover', true_and]
  by_cases hskip : cfg.associativity ≤ c.findBlockIndex cfg (cfg.computeLocation address) ∧
      cfg.writePolicy = .throughNoalloc
  · have hthrough : cfg.writePolicy ≠ .back := by
      rw [hskip.2]
      decide
    have hown := law.skip h.shape h.own hthrough (computeLocation_row_lt hfits address)
      (fun way hvalid => findBlockIndex_of_miss hskip.1 way (h.shape.place way _ hvalid).1 hvalid)
      hpiece hallowed'
    rw [hadd] at hown
    refine ⟨c.count fun n => { n with missWrite := n.missWrite + 1 },
      ⟨h.shape.congr rfl h.shape.policy, law.congr (c := c) rfl rfl hown⟩, false, ?_⟩
    rw [if_pos hskip]
    simp only [Bool.false_or, List.nil_append, andThen_pure]
  · obtain ⟨way, c₁, hbring, hholds, hlocated⟩ := h.bringIn hfits haddress hready .write
    obtain ⟨changed, c₂, htransfer, hstored⟩ := transfer_write hholds hlocated (by omega) hpiece
      hallowed'
    rw [hadd] at hstored
    rw [hfirst] at htransfer
    refine ⟨c₂, hstored, changed, ?_⟩
    rw [if_neg hskip, hbring, andThen_ok, htransfer]

/-- A write that does not wrap around never fails. -/
theorem access_write (h : law.Holds i c) (hfits : cfg.FitsWord) {fuel address : Nat}
    {buffer : List Byte} (hfuel : buffer.length ≤ fuel)
    (hrange : address + buffer.length < 2 ^ 64)
    (hready : ∀ base, cfg.blockOf address ≤ base → base < address + buffer.length →
      law.Ready i base)
    (hallowed : ∀ j < buffer.length, law.Allowed (address + j) (buffer.getD j 0)) :
    ∃ r c', c.access cfg .write fuel address buffer buffer.length = (.ok r, c') ∧
      law.Holds (law.upd i address buffer) c' := by
  induction fuel generalizing c i address buffer with
  | zero =>
    obtain rfl : buffer = [] := List.eq_nil_of_length_eq_zero (by omega)
    refine ⟨_, c, rfl, ?_⟩
    rwa [law.upd_nil]
  | succ fuel ih =>
    by_cases hempty : buffer = []
    · subst hempty
      refine ⟨(false, []), c, ?_, ?_⟩
      · rw [access]
        simp only [List.length_nil, if_true]
      · rwa [law.upd_nil]
    have hadd := blockStart_add_offset hfits address
    have hoffset := cfg.computeLocation_offset_lt address
    have hpos := List.length_pos_iff.mpr hempty
    generalize hover :
      (cfg.computeLocation address).offset + buffer.length - cfg.blockBytes = overflow
    obtain ⟨c₁, hholds, changed, haccess⟩ := @access_write_block B cfg _ ι law i c h hfits fuel
      address buffer hempty (by omega)
      (hready _ (Nat.le_refl _) (show cfg.blockStart _ _ < _ by omega)) hallowed overflow
      hover.symm
    by_cases hmore : 0 < overflow
    · -- the access goes on at the start of the next block
      have hnext : address + (buffer.length - overflow) =
          cfg.blockOf address + cfg.blockBytes := by
        simp only [blockOf]
        omega
      have hrest : (buffer.drop (buffer.length - overflow)).length = overflow := by
        rw [List.length_drop]
        omega
      have htake : (buffer.take (buffer.length - overflow)).length =
          buffer.length - overflow := by
        rw [List.length_take]
        omega
      obtain ⟨r, c₂, hrec, hholds₂⟩ := ih hholds
        (show (buffer.drop (buffer.length - overflow)).length ≤ fuel by omega)
        (show address + (buffer.length - overflow) +
          (buffer.drop (buffer.length - overflow)).length < 2 ^ 64 by omega)
        (by
          intro base hbase hend
          rw [hnext, blockOf_next hfits, ← hnext] at hbase
          exact law.ready_upd (hready base (by omega) (by omega)) (by omega))
        (by
          intro j hj
          rw [Nat.add_assoc, List.getD_eq_getElem?_getD, List.getElem?_drop,
            ← List.getD_eq_getElem?_getD]
          exact hallowed _ (by omega))
      rw [hrest] at hrec
      refine ⟨(changed || r.1, [] ++ r.2), c₂, ?_, ?_⟩
      · rw [haccess, if_pos hmore, Nat.mod_eq_of_lt (by omega), hrec, andThen_ok]
      · have hwhole := law.upd_append i address (buffer.take (buffer.length - overflow))
          (buffer.drop (buffer.length - overflow))
        rw [htake, List.take_append_drop] at hwhole
        rwa [hwhole] at hholds₂
    · refine ⟨_, c₁, by rw [haccess, if_neg hmore], ?_⟩
      rwa [show buffer.length - overflow = buffer.length by omega, List.take_length] at hholds

end StoreLaw

end Cache

end QtRvSim
