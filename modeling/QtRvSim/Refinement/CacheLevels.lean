import QtRvSim.Refinement.CacheInvariant
import QtRvSim.Memory.CacheSystem

/-!
# Levels of caches

A cache over a lower memory shows a content to the memory above it: the bytes of its write-back
lines, and those of the lower memory elsewhere.  Every copy of a byte that any level holds meets a
predicate `G`.
-/

namespace QtRvSim

open Cache AddressMap Outcome

namespace CacheConfig

variable {cfg : CacheConfig}

theorem blockBytes_lt (hfits : cfg.FitsWord) : cfg.blockBytes < 2 ^ 34 := by
  have hsize : cfg.blockSize ≤ cfg.setCount * cfg.blockSize :=
    Nat.le_mul_of_pos_left _ cfg.setCount_pos
  have hway := hfits.waySize_lt
  rw [blockBytes, blockItemSize]
  omega

/-- The block of an address in a block. -/
theorem blockOf_add (hfits : cfg.FitsWord) {tag row j : Nat} (hrow : row < cfg.setCount)
    (hj : j < cfg.blockBytes) : cfg.blockOf (cfg.blockStart tag row + j) =
      cfg.blockStart tag row := by
  generalize hx : cfg.blockStart tag row + j = x
  have hadd := blockStart_add_offset hfits x
  have hoffset := cfg.computeLocation_offset_lt x
  by_contra hne
  rw [blockOf] at hne
  have hblocks : ¬((cfg.computeLocation x).tag = tag ∧ (cfg.computeLocation x).row = row) :=
    fun heq => hne (by rw [heq.1, heq.2])
  have hdisjoint := blockStart_disjoint (computeLocation_row_lt hfits x) hrow hblocks
  omega

end CacheConfig

def uncachedStart : Nat := 0xf0000000

/-- Every address of the address space may be constrained, no other one is. -/
def WithinSpace (G : Nat → Byte → Prop) : Prop :=
  ∀ x v, 2 ^ 64 ≤ x → G x v

/-- What a lower memory shows.  Every byte it returns meets `G`; below the uncached window it is
the byte of the content if the memory is exact, on the ranges it serves. -/
structure LowerView (B : Type) [LowerMemory B] where
  Shows : (Nat → Byte → Prop) → (Nat → Byte) → B → Prop
  Space : (Nat → Byte → Prop) → Prop
  Serves : Nat → Nat → Prop
  Exact : Prop
  Settled : B → Prop
  read : ∀ {G g b}, Shows G g b → Space G → ∀ {a : Nat} (n : Nat), a < 2 ^ 64 →
    ∃ bs b', LowerMemory.read .regular a n b = (.ok bs, b') ∧ bs.length = n ∧ Shows G g b' ∧
      (∀ j < n, G (a + j) (bs.getD j 0)) ∧
      (Exact → Serves a n → ∀ j < n, a + j < uncachedStart → bs.getD j 0 = g (a + j))
  write : ∀ {G g b}, Shows G g b → Space G → ∀ {a : Nat} {bs : List Byte}, Serves a bs.length →
    a + bs.length < 2 ^ 64 → (∀ j < bs.length, G (a + j) (bs.getD j 0)) →
    ∃ result b', LowerMemory.write .regular a bs b = (.ok result, b') ∧
      Shows G (AddressMap.write g a bs) b'
  pass : ∀ {G g b}, Shows G g b → (∀ x v, uncachedStart ≤ x → G x v) →
    ∀ {a : Nat} (bs : List Byte), Cache.isInUncachedArea a = true →
    ∃ result b', LowerMemory.write .regular a bs b = (.ok result, b') ∧ Shows G g b'
  sync : ∀ {G g b}, Shows G g b → Space G →
    ∃ b', LowerMemory.sync b = (.ok (), b') ∧ Shows G g b' ∧ Settled b'
  mono : ∀ {G G' g b}, (∀ x v, G x v → G' x v) → Shows G g b → Shows G' g b
  settle : ∀ {G G' g b}, (∀ x v, (x < uncachedStart → v = g x) → G' x v) → Settled b →
    Shows G g b → Shows G' g b

theorem uncachedStart_le {a : Nat} (harea : isInUncachedArea a = true) :
    uncachedStart ≤ a := by
  simp only [isInUncachedArea, decide_eq_true_eq] at harea
  exact harea.1

def flatView : LowerView (Nat → Byte) where
  Shows G g b := (∀ x, G x (b x)) ∧ ∀ x < uncachedStart, b x = g x
  Space _ := True
  Serves _ _ := True
  Exact := True
  Settled _ := True
  read {G g b} h _ a n _ := by
    refine ⟨_, b, rfl, AddressMap.read_length b a n, h, fun j hj => ?_, fun _ _ j hj hlow => ?_⟩
    · rw [AddressMap.read_getD b hj]
      exact h.1 _
    · rw [AddressMap.read_getD b hj]
      exact h.2 _ hlow
  write {G g b} h _ a bs _ _ hgood := by
    refine ⟨_, _, rfl, fun x => AddressMap.write_cases 0 ?_ fun _ => h.1 x,
      fun x hx => AddressMap.write_congr (h.2 x hx) a bs⟩
    rintro j hj rfl
    exact hgood j hj
  pass {G g b} h hG a bs harea := by
    have hstart := uncachedStart_le harea
    refine ⟨_, _, rfl, fun x => AddressMap.write_cases 0 ?_ fun _ => h.1 x, fun x hx => ?_⟩
    · rintro j hj rfl
      exact hG _ _ (by omega)
    · rw [AddressMap.write_of_lt _ _ (by omega)]
      exact h.2 x hx
  sync {G g b} h _ := ⟨b, rfl, h, trivial⟩
  mono hmono h := ⟨fun x => hmono x _ (h.1 x), h.2⟩
  settle hG _ h := ⟨fun x => hG x _ (h.2 x), h.2⟩

variable {B : Type} [LowerMemory B]

/-- A cache over a lower memory.  A write-back cache keeps the bytes of its lines exact at the
addresses it is kept coherent for. -/
structure Level (B : Type) [LowerMemory B] where
  cfg : CacheConfig
  view : LowerView B
  Kept : Nat → Prop
  Exact : Prop
  fits : cfg.enabled = true → cfg.FitsWord
  low : ∀ {x}, Kept x → x < uncachedStart
  exact_back : cfg.enabled = true → cfg.writePolicy = .back → ∀ {x}, Kept x → Exact
  exact_view : Exact → view.Exact
  serves : cfg.enabled = true → Exact → ∀ {x}, Kept x →
    view.Serves (cfg.blockOf x) cfg.blockBytes

namespace Level

variable (l : Level B)

/-- The lines and the lower memory stand for the content `i.1`, where the lower memory is up to
date with `i.2`.  The two differ while a write is under way in a write-through cache. -/
structure Own (G : Nat → Byte → Prop) (i : (Nat → Byte) × (Nat → Byte)) (c : Cache B) :
    Prop where
  bytes : c.LineBytes l.cfg fun x v => G x v ∧ (l.Exact → l.Kept x → v = i.1 x)
  dirty : ∀ way row, c.WritesBack l.cfg way row →
    ∃ j < l.cfg.blockBytes, l.Kept (l.cfg.blockStart (c.dt way row).tag row + j)
  back : l.cfg.writePolicy = .back → ∀ x, l.Kept x → i.2 x = i.1 x
  mem : ∃ h, l.view.Shows G h c.mem ∧ ∀ x, l.Kept x → ¬c.InDirtyLine l.cfg x → h x = i.2 x

def upd (i : (Nat → Byte) × (Nat → Byte)) (a : Nat) (bs : List Byte) :
    (Nat → Byte) × (Nat → Byte) :=
  (AddressMap.write i.1 a bs,
    if l.cfg.writePolicy = .back then AddressMap.write i.2 a bs else i.2)

variable {l} {G : Nat → Byte → Prop} {i : (Nat → Byte) × (Nat → Byte)} {c : Cache B}

theorem upd_fst (a : Nat) (bs : List Byte) : (l.upd i a bs).1 = write i.1 a bs := rfl

theorem upd_snd (a : Nat) (bs : List Byte) : (l.upd i a bs).2 =
    if l.cfg.writePolicy = .back then write i.2 a bs else i.2 := rfl

variable {bs : List Byte} {a : Nat}

theorem upd_back (h : l.cfg.writePolicy = .back → ∀ x, l.Kept x → i.2 x = i.1 x)
    (hback : l.cfg.writePolicy = .back) (x : Nat) (hx : l.Kept x) :
    (l.upd i a bs).2 x = (l.upd i a bs).1 x := by
  rw [upd_snd, if_pos hback]
  exact write_congr (h hback x hx) a bs

theorem Own.congr {c' : Cache B} (hdt : c'.dt = c.dt) (hmem : c'.mem = c.mem) (h : l.Own G i c) :
    l.Own G i c' where
  bytes := by
    rw [Cache.LineBytes, hdt]
    exact h.bytes
  dirty := by
    simp only [Cache.WritesBack, hdt]
    exact h.dirty
  back := h.back
  mem := by
    simp only [Cache.InDirtyLine, hdt, hmem]
    exact h.mem

/-- The dirty lines that are left when a line is emptied. -/
theorem Own.dirty_emptied (h : l.Own G i c) (way row w r : Nat)
    (hback : (c.emptied way row).WritesBack l.cfg w r) :
    ∃ j < l.cfg.blockBytes,
      l.Kept (l.cfg.blockStart ((c.emptied way row).dt w r).tag r + j) := by
  obtain ⟨hbefore, hline⟩ := writesBack_emptied hback
  rw [hline]
  exact h.dirty w r hbefore

theorem Own.drop (h : l.Own G i c) (way row : Nat) (hclean : ¬c.WritesBack l.cfg way row) :
    l.Own G i (c.emptied way row) where
  bytes := h.bytes.emptied way row
  dirty := h.dirty_emptied way row
  back := h.back
  mem := by
    obtain ⟨g, hshows, hmem⟩ := h.mem
    refine ⟨g, hshows, fun x hx hdirty => hmem x hx fun hdirty' => ?_⟩
    rcases inDirtyLine_emptied hdirty' with hstill | ⟨hback, -⟩
    · exact hdirty hstill
    · exact hclean hback

theorem Own.writeBack (he : l.cfg.enabled = true) (hG : l.view.Space G)
    (hshape : Cache.Shape l.cfg c) (h : l.Own G i c) (way row : Nat)
    (hback : c.WritesBack l.cfg way row) :
    ∃ result mem, LowerMemory.write .regular (l.cfg.blockStart (c.dt way row).tag row)
        (c.dt way row).data c.mem = (.ok result, mem) ∧
      l.Own G i ({ c with mem := mem }.emptied way row) := by
  have hvalid := hshape.clean hback.2 way row hback.1
  have hlength := hshape.length way row hvalid
  have hrow := (hshape.place way row hvalid).2
  obtain ⟨g, hshows, hmem⟩ := h.mem
  obtain ⟨j, hj, hkept⟩ := h.dirty way row hback
  have hexact := l.exact_back he hback.2 hkept
  have hserves := l.serves he hexact hkept
  rw [CacheConfig.blockOf_add (l.fits he) hrow hj, ← hlength] at hserves
  have hsmall := CacheConfig.blockBytes_lt (l.fits he)
  have hlow := l.low hkept
  rw [uncachedStart] at hlow
  obtain ⟨result, mem, hwrite, hshows'⟩ := l.view.write hshows hG hserves (by omega)
    fun j hj => (h.bytes way row hvalid j (hlength ▸ hj)).1
  refine ⟨result, mem, hwrite, ⟨h.bytes.emptied way row, h.dirty_emptied way row, h.back, _,
    hshows', fun x hx hdirty => ?_⟩⟩
  refine write_cases (P := fun v => v = i.2 x) 0 ?_ fun hout => ?_
  · rintro j hj rfl
    rw [h.back hback.2 _ hx]
    exact (h.bytes way row hvalid j (hlength ▸ hj)).2 hexact hx
  · refine hmem x hx fun hdirty' => ?_
    rcases inDirtyLine_emptied hdirty' with hstill | ⟨-, hrange⟩
    · exact hdirty hstill
    · exact hout (hlength ▸ hrange)

theorem Own.install (he : l.cfg.enabled = true) (hG : l.view.Space G)
    (hshape : Cache.Shape l.cfg c) (h : l.Own G i c) {way row tag : Nat}
    (hrow : row < l.cfg.setCount) (hbase : l.cfg.blockStart tag row < 2 ^ 64)
    (hempty : (c.dt way row).valid = false) (hlacks : c.Lacks row tag)
    (hready : l.Exact → ∀ j < l.cfg.blockBytes, l.Kept (l.cfg.blockStart tag row + j) →
      i.2 (l.cfg.blockStart tag row + j) = i.1 (l.cfg.blockStart tag row + j)) :
    ∃ data mem, LowerMemory.read .regular (l.cfg.blockStart tag row) l.cfg.blockBytes c.mem =
        (.ok data, mem) ∧ data.length = l.cfg.blockBytes ∧
      l.Own G i ({ c with mem := mem }.installed way row tag data) := by
  obtain ⟨g, hshows, hmem⟩ := h.mem
  obtain ⟨data, mem, hread, hlength, hshows', hgood, hexact⟩ :=
    l.view.read hshows hG l.cfg.blockBytes hbase
  refine ⟨data, mem, hread, hlength, h.bytes.installed fun j hj => ⟨hgood j hj, fun he' hx => ?_⟩,
    fun w r hback => ?_, h.back, g, hshows', fun x hx hdirty => hmem x hx fun hdirty' => ?_⟩
  · -- no dirty line has the block, so the lower memory is up to date with it
    rw [hexact (l.exact_view he') (CacheConfig.blockOf_add (l.fits he) hrow hj ▸
      l.serves he he' hx) j hj (l.low hx), hmem _ hx, hready he' j hj hx]
    rintro ⟨-, w, r, hv, -, hrange⟩
    have hsame : (c.dt w r).tag = tag ∧ r = row := by
      by_contra hne
      have hdisjoint := CacheConfig.blockStart_disjoint (hshape.place w r hv).2 hrow hne
      omega
    obtain ⟨htag, rfl⟩ := hsame
    exact hlacks w hv htag
  · obtain ⟨hbefore, hline⟩ := writesBack_installed hback
    rw [hline]
    exact h.dirty w r hbefore
  · exact hdirty (inDirtyLine_installed (c := { c with mem := mem }) hempty hdirty')

theorem Own.store (hshape : Cache.Shape l.cfg c) (h : l.Own G i c) {way row offset : Nat}
    (hvalid : (c.dt way row).valid) (hpos : 0 < bs.length)
    (hpiece : offset + bs.length ≤ l.cfg.blockBytes)
    (hallowed : ∀ j < bs.length, l.Kept (l.cfg.blockStart (c.dt way row).tag row + offset + j) ∧ G
      (l.cfg.blockStart (c.dt way row).tag row + offset + j) (bs.getD j 0)) :
    l.Own G (l.upd i (l.cfg.blockStart (c.dt way row).tag row + offset) bs)
      (c.stored way row offset bs) := by
  obtain ⟨g, hshows, hmem⟩ := h.mem
  have hline := Cache.Shape.stored_line c way row offset bs
  refine ⟨h.bytes.stored hshape hvalid hpiece (fun j hj => ⟨(hallowed j hj).2, fun _ _ => ?_⟩)
    (fun x v hout hbyte => ⟨hbyte.1, fun he hx => ?_⟩), fun w r hback => ?_, upd_back h.back, g,
    hshows, fun x hx hdirty => ?_⟩
  · rw [upd_fst, write_of_mem _ (by omega) 0 (by omega), Nat.add_sub_cancel_left]
  · rw [upd_fst, write_of_outside _ hout]
    exact hbyte.2 he hx
  · rw [(hline w r).2]
    by_cases heq : w = way ∧ r = row
    · obtain ⟨rfl, rfl⟩ := heq
      exact ⟨offset, by omega, (hallowed 0 hpos).1⟩
    · rw [Cache.WritesBack, stored, setLine_dt_of_ne _ _ heq] at hback
      exact h.dirty w r hback
  · rw [hmem x hx fun hdirty' => hdirty (inDirtyLine_stored hdirty')]
    by_cases hback : l.cfg.writePolicy = .back
    · -- the line is dirty now, so the address is not in its block
      rw [upd_snd, if_pos hback, write_of_outside]
      intro hin
      refine hdirty ⟨hback, way, row, (hline way row).1 ▸ hvalid, ?_, ?_⟩
      · rw [stored, setLine_dt_self]
        rfl
      · rw [(hline way row).2]
        omega
    · rw [upd_snd, if_neg hback]

theorem Own.skip (hshape : Cache.Shape l.cfg c) (h : l.Own G i c)
    (hthrough : l.cfg.writePolicy ≠ .back) {row tag offset : Nat} (hrow : row < l.cfg.setCount)
    (hlacks : c.Lacks row tag) (hpiece : offset + bs.length ≤ l.cfg.blockBytes) :
    l.Own G (l.upd i (l.cfg.blockStart tag row + offset) bs) c where
  bytes := by
    refine h.bytes.skip hshape hrow hlacks hpiece fun x v hout hbyte => ⟨hbyte.1, fun he hx => ?_⟩
    rw [upd_fst, write_of_outside _ hout]
    exact hbyte.2 he hx
  dirty := h.dirty
  back hback := absurd hback hthrough
  mem := by
    rw [upd_snd, if_neg hthrough]
    exact h.mem

variable (l) in
def law (he : l.cfg.enabled = true) (hG : l.view.Space G) :
    Cache.StoreLaw l.cfg B ((Nat → Byte) × (Nat → Byte)) where
  Own := l.Own G
  Ready i base := l.Exact → ∀ j < l.cfg.blockBytes, l.Kept (base + j) →
    i.2 (base + j) = i.1 (base + j)
  congr := Own.congr
  drop _ h := h.drop
  writeBack := Own.writeBack he hG
  install hshape h _ _ _ _ hrow hbase hempty hlacks hready :=
    h.install he hG hshape hrow hbase hempty hlacks hready
  upd := l.upd
  Allowed x v := l.Kept x ∧ G x v
  upd_nil i a := by
    rw [upd, AddressMap.write_nil, AddressMap.write_nil, ite_self]
  upd_append i a bs bs' := by
    simp only [upd, AddressMap.write_append]
    split <;> rfl
  ready_upd {i a bs base} hready hbase hexact j hj hx := by
    have hsame := hready hexact j hj hx
    simp only [upd]
    split
    · rw [AddressMap.write_of_ge _ (by omega), AddressMap.write_of_ge _ (by omega), hsame]
    · rw [AddressMap.write_of_ge _ (by omega), hsame]
  store hshape h _ _ _ _ hvalid hpos hpiece hallowed := h.store hshape hvalid hpos hpiece hallowed
  skip hshape h hthrough _ _ _ _ hrow hlacks hpiece _ := h.skip hshape hthrough hrow hlacks hpiece

/-! ### Operations of a level -/

/-- A write to the lower memory completes a store of a write-through cache. -/
theorem Own.writeLower {f g : Nat → Byte} (h : l.Own G (f, g) c) (hG : l.view.Space G)
    (hthrough : l.cfg.writePolicy ≠ .back) (hserves : l.view.Serves a bs.length)
    (hrange : a + bs.length < 2 ^ 64) (hgood : ∀ j < bs.length, G (a + j) (bs.getD j 0)) :
    ∃ result mem, LowerMemory.write .regular a bs c.mem = (.ok result, mem) ∧
      l.Own G (f, write g a bs) { c with mem := mem } := by
  obtain ⟨g', hshows, heq⟩ := h.mem
  obtain ⟨result, mem, hwrite, hshows'⟩ := l.view.write hshows hG hserves hrange hgood
  refine ⟨result, mem, hwrite, h.bytes, h.dirty, fun hback => absurd hback hthrough, _, hshows',
    fun x hx hdirty => write_congr (heq x hx hdirty) a bs⟩

variable (l) in
/-- The level shows a content, through its lines if it is enabled. -/
structure Present (G : Nat → Byte → Prop) (f : Nat → Byte) (c : Cache B) : Prop where
  shape : l.cfg.enabled = true → Cache.Shape l.cfg c
  bytes : l.cfg.enabled = true →
    c.LineBytes l.cfg fun x v => G x v ∧ (l.Exact → l.Kept x → v = f x)
  dirty : l.cfg.enabled = true → ∀ way row, c.WritesBack l.cfg way row →
    ∃ j < l.cfg.blockBytes, l.Kept (l.cfg.blockStart (c.dt way row).tag row + j)
  mem : ∃ g, l.view.Shows G g c.mem ∧ ∀ x, l.Kept x →
    (l.cfg.enabled = true → ¬c.InDirtyLine l.cfg x) → g x = f x

variable {f : Nat → Byte}

theorem Present.own (h : l.Present G f c) (he : l.cfg.enabled = true) : l.Own G (f, f) c := by
  obtain ⟨g, hshows, heq⟩ := h.mem
  exact ⟨h.bytes he, h.dirty he, fun _ _ _ => rfl, g, hshows,
    fun x hx hdirty => heq x hx fun _ => hdirty⟩

theorem Present.holds (h : l.Present G f c) (hG : l.view.Space G) (he : l.cfg.enabled = true) :
    (l.law he hG).Holds (f, f) c :=
  ⟨h.shape he, h.own he⟩

theorem Own.present (h : l.Own G (f, f) c) (hshape : Cache.Shape l.cfg c)
    (he : l.cfg.enabled = true) : l.Present G f c := by
  obtain ⟨hbytes, hdirty, -, g, hshows, heq⟩ := h
  exact ⟨fun _ => hshape, fun _ => hbytes, fun _ => hdirty, g, hshows,
    fun x hx hno => heq x hx (hno he)⟩

/-- A level without a valid or dirty line shows what its lower memory shows. -/
theorem present_of_empty (hpolicy : c.replacementPolicy.Fits l.cfg)
    (hempty : ∀ way row, (c.dt way row).valid = false)
    (hclean : ∀ way row, (c.dt way row).dirty = false) (hshows : l.view.Shows G f c.mem) :
    l.Present G f c where
  shape _ := .of_empty hpolicy hempty fun _ => hclean
  bytes _ way row hv := absurd hv (by simp [hempty])
  dirty _ way row hback := absurd hback.1 (by simp [hclean])
  mem := ⟨f, hshows, fun _ _ _ => rfl⟩

theorem present_new (lib : CLibrary) {mem : B} (hshows : l.view.Shows G f mem) :
    l.Present G f (new lib l.cfg mem) :=
  present_of_empty (CachePolicy.fits_getPolicyInstance lib l.cfg) (fun _ _ => rfl)
    (fun _ _ => rfl) hshows

theorem Present.congr {f' : Nat → Byte} (h : l.Present G f c) (hf : ∀ x, l.Kept x → f x = f' x) :
    l.Present G f' c where
  shape := h.shape
  bytes he := (h.bytes he).mono fun x v hv =>
    ⟨hv.1, fun hexact hx => (hv.2 hexact hx).trans (hf x hx)⟩
  dirty := h.dirty
  mem := by
    obtain ⟨g, hshows, heq⟩ := h.mem
    exact ⟨g, hshows, fun x hx hno => (heq x hx hno).trans (hf x hx)⟩

/-- Another lower memory that shows the same, and other counters. -/
theorem Present.below (h : l.Present G f c) {g : Nat → Byte} {mem : B}
    (heq : ∀ x, l.Kept x → (l.cfg.enabled = true → ¬c.InDirtyLine l.cfg x) → g x = f x)
    (hmem : l.view.Shows G g mem) (counters : CacheCounters) :
    l.Present G f { c with mem := mem, counters := counters } :=
  ⟨fun he => (h.shape he).congr rfl (h.shape he).policy, h.bytes, h.dirty, g, hmem, heq⟩

theorem enabled_of_not_bypasses {cfg : CacheConfig} {n : Nat} (hby : bypasses cfg a n = false)
    : cfg.enabled = true := by
  by_contra hoff
  simp [bypasses, hoff] at hby

section

variable (h : l.Present G f c)
include h

/-- A read of any range returns good bytes; it returns the bytes of the content if it goes through
the lines or the level is off. -/
theorem Present.read (hG : l.view.Space G) (n : Nat) (ha : a < 2 ^ 64) :
    ∃ bs c', c.read l.cfg .regular a n = (.ok bs, c') ∧ bs.length = n ∧ l.Present G f c' ∧
      (∀ j < n, a + j < 2 ^ 64 → G (a + j) (bs.getD j 0)) ∧
      ((l.cfg.enabled = true → Cache.bypasses l.cfg a n = false) → l.Exact →
        l.view.Serves a n → ∀ j < n, l.Kept (a + j) → bs.getD j 0 = f (a + j)) := by
  rw [Cache.read]
  cases hby : Cache.bypasses l.cfg a n with
  | true =>
    obtain ⟨g, hshows, heq⟩ := h.mem
    obtain ⟨bs, mem, hread, hlength, hshows', hgood, hbytes⟩ := l.view.read hshows hG n ha
    rw [if_pos rfl]
    simp only [within, Cache.count, hread]
    refine ⟨bs, _, rfl, hlength, h.below heq hshows' _, fun j hj _ => hgood j hj,
      fun hno hexact hserves j hj hx => ?_⟩
    rw [hbytes (l.exact_view hexact) hserves j hj (l.low hx),
      heq _ hx fun he => Bool.noConfusion (hno he)]
  | false =>
    have he := enabled_of_not_bypasses hby
    obtain ⟨b, bs, c', haccess, hholds, hlength, hbytes⟩ := (h.holds hG he).access_read (l.fits he)
      (fun c hc => hc.own.bytes) [] (Nat.le_refl n) (fun base _ _ j _ _ => rfl) ha
    refine ⟨bs, c', ?_, hlength, hholds.own.present hholds.shape he,
      fun j hj hspace => (hbytes j hj hspace).1, fun _ hexact _ j hj hx => ?_⟩
    · rw [if_neg Bool.false_ne_true, if_neg (by decide), haccess, andThen_ok]
    · have hlow := l.low hx
      rw [uncachedStart] at hlow
      exact (hbytes j hj (by omega)).2 hexact hx

/-- Lines that need not be exact are never written back, so the lower memory has the content. -/
theorem Present.loose (hloose : l.cfg.enabled = true → ¬l.Exact) :
    ∃ g, l.view.Shows G g c.mem ∧ ∀ x, l.Kept x → g x = f x := by
  obtain ⟨g, hshows, heq⟩ := h.mem
  exact ⟨g, hshows, fun x hx => heq x hx fun he hdirty =>
    hloose he (l.exact_back he hdirty.1 hx)⟩

/-- Below such lines the content may change. -/
theorem Present.over (hloose : l.cfg.enabled = true → ¬l.Exact) {mem : B} {g f' : Nat → Byte}
    (hshows : l.view.Shows G g mem) (hg : ∀ x, l.Kept x → g x = f' x) (counters : CacheCounters) :
    l.Present G f' { c with mem := mem, counters := counters } where
  shape he := (h.shape he).congr rfl (h.shape he).policy
  bytes he way row hv j hj :=
    ⟨(h.bytes he way row hv j hj).1, fun hexact => absurd hexact (hloose he)⟩
  dirty := h.dirty
  mem := ⟨g, hshows, fun x hx _ => hg x hx⟩

/-- A write past the lines of a level that is off, or whose lines need not be exact. -/
theorem Present.write_lower (hG : l.view.Space G) (hserves : l.view.Serves a bs.length)
    (hrange : a + bs.length < 2 ^ 64) (hgood : ∀ j < bs.length, G (a + j) (bs.getD j 0))
    (hloose : l.cfg.enabled = true → ¬l.Exact) :
    ∃ result c', c.writeLower .regular a bs = (.ok result, c') ∧
      l.Present G (write f a bs) c' := by
  obtain ⟨g, hshows, heq⟩ := h.loose hloose
  obtain ⟨result, mem, hwrite, hshows'⟩ := l.view.write hshows hG hserves hrange hgood
  rw [writeLower]
  simp only [count, within, hwrite]
  exact ⟨_, _, rfl, h.over hloose hshows' (fun x hx => write_congr (heq x hx) a bs) _⟩

/-- A write through the lines of an enabled level. -/
theorem Present.write_lines (hG : l.view.Space G) (he : l.cfg.enabled = true)
    (hserves : l.view.Serves a bs.length) (hrange : a + bs.length < 2 ^ 64)
    (hgood : ∀ j < bs.length, G (a + j) (bs.getD j 0)) (hkept : ∀ j < bs.length, l.Kept (a + j)) :
    ∃ r c', andThen (c.access l.cfg .write bs.length a bs bs.length) (fun result c =>
        if l.cfg.writePolicy ≠ .back then c.writeLower .regular a bs
        else (.ok ⟨bs.length, result.1⟩, c)) = (.ok r, c') ∧
      l.Present G (write f a bs) c' := by
  obtain ⟨r, c₁, haccess, hholds⟩ := Cache.StoreLaw.access_write (h.holds hG he) (l.fits he)
    (Nat.le_refl bs.length) hrange (fun base _ _ _ j _ _ => rfl)
    fun j hj => ⟨hkept j hj, hgood j hj⟩
  rw [haccess, andThen_ok]
  have hown : l.Own G (l.upd (f, f) a bs) c₁ := hholds.own
  by_cases hback : l.cfg.writePolicy = .back
  · rw [upd, if_pos hback] at hown
    exact ⟨_, c₁, if_neg (not_not_intro hback), hown.present hholds.shape he⟩
  · rw [upd, if_neg hback] at hown
    obtain ⟨result, mem, hwrite, hstored⟩ := hown.writeLower hG hback hserves hrange hgood
    rw [if_pos hback, writeLower]
    simp only [count, within, hwrite]
    refine ⟨_, _, rfl, Own.present ?_ (hholds.shape.congr rfl hholds.shape.policy) he⟩
    exact Own.congr (c := { c₁ with mem := mem }) rfl rfl hstored

end

/-- A write of kept bytes changes the content, unless it goes past exact lines. -/
theorem Present.write (h : l.Present G f c) (hG : l.view.Space G) {a : Nat} {bs : List Byte}
    (hserves : l.view.Serves a bs.length) (hrange : a + bs.length < 2 ^ 64)
    (hgood : ∀ j < bs.length, G (a + j) (bs.getD j 0))
    (hkept : l.cfg.enabled = true → ∀ j < bs.length, l.Kept (a + j))
    (hlines : l.cfg.enabled = true → l.Exact → a + bs.length < uncachedStart) :
    ∃ r c', c.write l.cfg .regular a bs = (.ok r, c') ∧
      l.Present G (write f a bs) c' := by
  rw [Cache.write]
  cases hby : Cache.bypasses l.cfg a bs.length with
  | true =>
    rw [if_pos rfl]
    refine h.write_lower hG hserves hrange hgood fun he hexact => ?_
    rw [Cache.bypasses_of_low he (hlines he hexact)] at hby
    exact Bool.false_ne_true hby
  | false =>
    have he := enabled_of_not_bypasses hby
    rw [if_neg Bool.false_ne_true]
    exact h.write_lines hG he hserves hrange hgood (hkept he)

/-- A write into the uncached window goes past every level. -/
theorem Present.pass (h : l.Present G f c) (hG : ∀ x v, uncachedStart ≤ x → G x v) (bs : List Byte)
    (harea : Cache.isInUncachedArea a = true) :
    ∃ r c', c.write l.cfg .regular a bs = (.ok r, c') ∧ l.Present G f c' := by
  have hby : Cache.bypasses l.cfg a bs.length = true := by
    simp [Cache.bypasses, harea]
  obtain ⟨g, hshows, heq⟩ := h.mem
  obtain ⟨result, mem, hwrite, hshows'⟩ := l.view.pass hshows hG bs harea
  rw [Cache.write, if_pos hby, Cache.writeLower]
  simp only [Cache.count, within, hwrite]
  exact ⟨_, _, rfl, h.below heq hshows' _⟩

/-- A flush empties the level. -/
theorem Present.flush (h : l.Present G f c) (hG : l.view.Space G) :
    ∃ c', c.flush l.cfg = (.ok (), c') ∧ l.Present G f c' ∧
      (l.cfg.enabled = true → ∀ way row, (c'.dt way row).valid = false) := by
  cases he : l.cfg.enabled with
  | false =>
    refine ⟨c, ?_, h, fun hon => Bool.noConfusion hon⟩
    rw [Cache.flush, if_neg (by rw [he]; exact Bool.false_ne_true)]
  | true =>
    obtain ⟨c', hflush, hholds, hempty⟩ := (h.holds hG he).flush he
    exact ⟨c', hflush, hholds.own.present hholds.shape he, fun _ => hempty⟩

/-- A level that is written back and emptied leaves its content in the lower memory. -/
theorem Present.sync (h : l.Present G f c) (hG : l.view.Space G) :
    ∃ c', c.sync l.cfg = (.ok (), c') ∧ l.Present G f c' ∧ l.view.Settled c'.mem ∧
      (l.cfg.enabled = true → ∀ way row, (c'.dt way row).valid = false) := by
  obtain ⟨c₁, hflush, hpresent, hempty⟩ := h.flush hG
  obtain ⟨g, hshows, heq⟩ := hpresent.mem
  obtain ⟨mem, hsync, hshows', hsettled⟩ := l.view.sync hshows hG
  refine ⟨{ c₁ with mem := mem }, ?_, hpresent.below heq hshows' _, hsettled, hempty⟩
  rw [Cache.sync, hflush, andThen_ok, within, hsync]

theorem Present.mono {G' : Nat → Byte → Prop} (hmono : ∀ x v, G x v → G' x v)
    (h : l.Present G f c) : l.Present G' f c where
  shape := h.shape
  bytes he := (h.bytes he).mono fun x v hv => ⟨hmono x v hv.1, hv.2⟩
  dirty := h.dirty
  mem := by
    obtain ⟨g, hshows, heq⟩ := h.mem
    exact ⟨g, l.view.mono hmono hshows, heq⟩

/-- The content of an empty level is in its lower memory. -/
theorem Present.lower_eq (h : l.Present G f c)
    (hempty : l.cfg.enabled = true → ∀ way row, (c.dt way row).valid = false) :
    ∃ g, l.view.Shows G g c.mem ∧ ∀ x, l.Kept x → g x = f x := by
  obtain ⟨g, hshows, heq⟩ := h.mem
  refine ⟨g, hshows, fun x hx => heq x hx ?_⟩
  rintro he ⟨-, way, row, hvalid, -⟩
  rw [hempty he way row] at hvalid
  exact Bool.false_ne_true hvalid

/-- An empty level over a settled memory has good bytes only where its content is good. -/
theorem Present.settle {G' : Nat → Byte → Prop} (h : l.Present G f c)
    (hempty : l.cfg.enabled = true → ∀ way row, (c.dt way row).valid = false)
    (hsettled : l.view.Settled c.mem) (hG : ∀ x v, (l.Kept x → v = f x) → G' x v) :
    l.Present G' f c := by
  obtain ⟨g, hshows, heq⟩ := h.lower_eq hempty
  refine ⟨h.shape, fun he way row hv => absurd hv (by simp [hempty he]), h.dirty, g,
    l.view.settle (fun x v hv => hG x v fun hx => ?_) hsettled hshows, fun x hx _ => heq x hx⟩
  rw [hv (l.low hx), heq x hx]

variable (l) in
/-- A level that is kept coherent below the whole uncached window, as the memory below another
cache. -/
def asView (hkept : ∀ x, l.Kept x ↔ x < uncachedStart) : LowerView (LevelCache l.cfg B) where
  Shows G g b := l.Present G g b.cache
  Space G := WithinSpace G ∧ l.view.Space G
  Serves a n := (l.cfg.enabled = true → a + n ≤ uncachedStart ∧
    (l.Exact → a + n < uncachedStart)) ∧ l.view.Serves a n
  Exact := l.Exact
  Settled b := (l.cfg.enabled = true → ∀ way row, (b.cache.dt way row).valid = false) ∧
    l.view.Settled b.cache.mem
  read h hG a n ha := by
    obtain ⟨bs, c, hread, hlength, hpresent, hgood, hbytes⟩ := h.read hG.2 n ha
    refine ⟨bs, ⟨c⟩, ?_, hlength, hpresent, fun j hj => ?_, fun hexact hserves j hj hlow => ?_⟩
    · simp only [LowerMemory.read, hread, Outcome.within]
    · exact (Nat.lt_or_ge (a + j) (2 ^ 64)).elim (hgood j hj) (hG.1 _ _)
    · refine hbytes (fun he => ?_) hexact hserves.2 j hj ((hkept _).mpr hlow)
      exact Cache.bypasses_of_low he ((hserves.1 he).2 hexact)
  write h hG a bs hserves hrange hgood := by
    obtain ⟨r, c, hwrite, hpresent⟩ := h.write hG.2 hserves.2 hrange hgood
      (fun he j hj => (hkept _).mpr ((Nat.add_lt_add_left hj a).trans_le (hserves.1 he).1))
      fun he hexact => (hserves.1 he).2 hexact
    refine ⟨r, ⟨c⟩, ?_, hpresent⟩
    simp only [LowerMemory.write, hwrite, Outcome.within]
  pass h hG a bs harea := by
    obtain ⟨r, c, hwrite, hpresent⟩ := h.pass hG bs harea
    refine ⟨r, ⟨c⟩, ?_, hpresent⟩
    simp only [LowerMemory.write, hwrite, Outcome.within]
  sync h hG := by
    obtain ⟨c, hsync, hpresent, hsettled, hempty⟩ := h.sync hG.2
    refine ⟨⟨c⟩, ?_, hpresent, hempty, hsettled⟩
    simp only [LowerMemory.sync, hsync, Outcome.within]
  mono hmono h := h.mono hmono
  settle hG hsettled h := h.settle hsettled.1 hsettled.2 fun x v hv =>
    hG x v fun hlow => hv ((hkept x).mpr hlow)

end Level

/-! ### A cache that is only read -/

variable (V : LowerView B) (g : Nat → Byte)

/-- A lower memory that nobody writes to. -/
def LowerView.pinned : LowerView B where
  Shows G h b := V.Shows G g b ∧ ∀ x < uncachedStart, h x = g x
  Space := V.Space
  Serves _ _ := False
  Exact := False
  Settled := V.Settled
  read h hG a n ha := by
    obtain ⟨bs, b, hread, hlength, hshows, hgood, -⟩ := V.read h.1 hG n ha
    exact ⟨bs, b, hread, hlength, ⟨hshows, h.2⟩, hgood, False.elim⟩
  write _ _ _ _ hserves := hserves.elim
  pass h hG a bs harea := by
    obtain ⟨result, b, hwrite, hshows⟩ := V.pass h.1 hG bs harea
    exact ⟨result, b, hwrite, hshows, h.2⟩
  sync h hG := by
    obtain ⟨b, hsync, hshows, hsettled⟩ := V.sync h.1 hG
    exact ⟨b, hsync, ⟨hshows, h.2⟩, hsettled⟩
  mono hmono h := ⟨V.mono hmono h.1, h.2⟩
  settle hG hsettled h := by
    refine ⟨V.settle (fun x v hv => hG x v fun hx => ?_) hsettled h.1, h.2⟩
    rw [hv hx, h.2 x hx]

/-- A cache that is only read, over a memory that shows `g`. -/
def readLevel (cfg : CacheConfig) (hfits : cfg.enabled = true → cfg.FitsWord) : Level B where
  cfg := cfg
  view := V.pinned g
  Kept _ := False
  Exact := False
  fits := hfits
  low := False.elim
  exact_back _ _ _ := id
  exact_view := id
  serves _ := False.elim

/-- The lines of a cache that is only read: they hold good bytes and are never written back. -/
structure ReadOnly (cfg : CacheConfig) (G : Nat → Byte → Prop) {B : Type} (c : Cache B) : Prop where
  shape : Cache.Shape cfg c
  bytes : c.LineBytes cfg G
  clean : ∀ way row, ¬c.WritesBack cfg way row

variable {V g} {cfg : CacheConfig} {hfits : cfg.enabled = true → cfg.FitsWord}
  {G : Nat → Byte → Prop} {c : Cache B}

theorem ReadOnly.present (h : cfg.enabled = true → ReadOnly cfg G c) (hshows : V.Shows G g c.mem) :
    (readLevel V g cfg hfits).Present G g c where
  shape he := (h he).shape
  bytes he := (h he).bytes.mono fun _ _ hv => ⟨hv, False.elim⟩
  dirty he way row hback := absurd hback ((h he).clean way row)
  mem := ⟨g, ⟨hshows, fun _ _ => rfl⟩, fun _ => False.elim⟩

theorem Level.Present.readOnly {f : Nat → Byte} (h : (readLevel V g cfg hfits).Present G f c) :
    (cfg.enabled = true → ReadOnly cfg G c) ∧ V.Shows G g c.mem := by
  obtain ⟨_, hshows, -⟩ := h.mem
  refine ⟨fun he => ⟨h.shape he, (h.bytes he).mono fun _ _ hv => hv.1, fun way row hback => ?_⟩,
    hshows.1⟩
  obtain ⟨_, -, hkept⟩ := h.dirty he way row hback
  exact hkept

end QtRvSim
