import QtRvSim.Refinement.CacheLevels

/-!
# Cache transparency

A cache over flat memory behaves as the flat memory alone.  Every valid line holds the bytes of
its block, no block is held twice, and the lower memory is up to date outside the dirty lines of
a write-back cache.
-/

namespace QtRvSim

namespace Cache

variable {cfg : CacheConfig} {hfits : cfg.FitsWord} {f : Nat → Byte} {c : Cache (Nat → Byte)}

/-- A cache over flat memory, kept coherent below the uncached window. -/
def flatLevel (hfits : cfg.FitsWord) : Level (Nat → Byte) where
  cfg := cfg
  view := flatView
  Kept x := x < uncachedStart
  Exact := True
  fits _ := hfits
  low h := h
  exact_back _ _ _ _ := trivial
  exact_view _ := trivial
  serves _ _ _ _ := trivial

variable (hfits) in
/-- The cache holds the flat memory `f`; behind the start of the uncached window every copy of a
byte is the one of `f`. -/
def Holds (f : Nat → Byte) (c : Cache (Nat → Byte)) : Prop :=
  (flatLevel hfits).Present (fun x v => uncachedStart ≤ x → v = f x) f c

/-- A cache without a valid or dirty line holds the memory below it. -/
theorem holds_of_empty (hpolicy : c.replacementPolicy.Fits cfg)
    (hempty : ∀ way row, (c.dt way row).valid = false)
    (hclean : ∀ way row, (c.dt way row).dirty = false) : Holds hfits c.mem c :=
  Level.present_of_empty hpolicy hempty hclean ⟨fun _ _ => rfl, fun _ _ => rfl⟩

theorem holds_new (lib : CLibrary) (mem : Nat → Byte) : Holds hfits mem (new lib cfg mem) :=
  holds_of_empty (c := new lib cfg mem) (CachePolicy.fits_getPolicyInstance lib cfg)
    (fun _ _ => rfl) fun _ _ => rfl

/-! ### Operations -/

/-- Without dirty lines below a write-back cache the lower memory is the flat memory. -/
theorem Holds.mem_eq (h : Holds hfits f c)
    (hclean : cfg.writePolicy = .back → ∀ way row, (c.dt way row).valid = false) : c.mem = f := by
  obtain ⟨g, hshows, heq⟩ := h.mem
  funext x
  rcases Nat.lt_or_ge x uncachedStart with hlow | hge
  · rw [hshows.2 x hlow, heq x hlow]
    rintro - ⟨hback, way, row, hvalid, -⟩
    rw [hclean hback way row] at hvalid
    exact Bool.false_ne_true hvalid
  · exact hshows.1 x hge

/-- A write is a write to the flat memory. -/
theorem Holds.write (h : Holds hfits f c) {destination : Nat} {source : List Byte}
    (hrange : destination + source.length < uncachedStart) :
    ∃ r c', c.write cfg .regular destination source = (.ok r, c') ∧
      Holds hfits (AddressMap.write f destination source) c' := by
  have hspace : uncachedStart < 2 ^ 64 := by decide
  obtain ⟨r, c', hwrite, hpresent⟩ := Level.Present.write h trivial trivial (by omega)
    (fun j hj hx => absurd hx (by omega))
    (fun _ j hj => show destination + j < uncachedStart by omega) fun _ _ => hrange
  refine ⟨r, c', hwrite, hpresent.mono fun x v hv hx => ?_⟩
  rw [hv hx, AddressMap.write_of_ge _ (by omega)]

/-- A read returns the bytes of the flat memory. -/
theorem Holds.read (h : Holds hfits f c) {source size : Nat}
    (hrange : source + size < uncachedStart) :
    ∃ c', c.read cfg .regular source size = (.ok (AddressMap.read f source size), c') ∧
      Holds hfits f c' := by
  have hsource : source < 2 ^ 64 := by
    rw [uncachedStart] at hrange
    omega
  obtain ⟨bs, c', hread, rfl, hpresent, -, hbytes⟩ := Level.Present.read h trivial size hsource
  have hsame : bs = AddressMap.read f source bs.length :=
    AddressMap.eq_read 0 fun j hj => hbytes (fun he => bypasses_of_low he hrange) trivial trivial
      j hj (show source + j < uncachedStart by omega)
  exact ⟨c', hsame ▸ hread, hpresent⟩

/-- A flush empties the cache. -/
theorem Holds.flush (h : Holds hfits f c) (henabled : cfg.enabled) :
    ∃ c', c.flush cfg = (.ok (), c') ∧ Holds hfits f c' ∧
      ∀ way row, (c'.dt way row).valid = false := by
  obtain ⟨c', hflush, hpresent, hempty⟩ := Level.Present.flush h trivial
  exact ⟨c', hflush, hpresent, hempty henabled⟩

end Cache

/-! ### Runs -/

inductive CacheOp where
  | read (source size : Nat)
  | write (destination : Nat) (source : List Byte)
  | flush

namespace CacheOp

def Cached : CacheOp → Prop
  | .read source size => source + size < 0xf0000000
  | .write destination source => destination + source.length < 0xf0000000
  | .flush => True

def onCache {B : Type} [LowerMemory B] (cfg : CacheConfig) (c : Cache B) :
    CacheOp → Outcome (Cache B) (List Byte)
  | .read source size => c.read cfg .regular source size
  | .write destination source =>
    Outcome.andThen (c.write cfg .regular destination source) fun _ c => (.ok [], c)
  | .flush => Outcome.andThen (c.flush cfg) fun _ c => (.ok [], c)

def onFlat (f : Nat → Byte) : CacheOp → List Byte × (Nat → Byte)
  | .read source size => (AddressMap.read f source size, f)
  | .write destination source => ([], AddressMap.write f destination source)
  | .flush => ([], f)

def isWrite : CacheOp → Bool
  | .write _ _ => true
  | _ => false

/-- The lower memory is up to date after the operation. -/
def Settles (cfg : CacheConfig) (op : CacheOp) : Prop :=
  op = .flush ∨ op.isWrite ∧ cfg.writePolicy ≠ .back

/-- One operation answers as the flat memory does and keeps the relation to it. -/
theorem onCache_holds {cfg : CacheConfig} {hfits : cfg.FitsWord} (henabled : cfg.enabled)
    {op : CacheOp} (hop : op.Cached) {c : Cache (Nat → Byte)} {f : Nat → Byte}
    (h : c.Holds hfits f) :
    ∃ c', op.onCache cfg c = (.ok (op.onFlat f).1, c') ∧ c'.Holds hfits (op.onFlat f).2 ∧
      (op.Settles cfg → c'.mem = (op.onFlat f).2) := by
  cases op with
  | read source size =>
    obtain ⟨c', hread, hholds⟩ := h.read hop
    refine ⟨c', hread, hholds, ?_⟩
    rintro (hflush | hwrite)
    · exact absurd hflush (by simp)
    · exact absurd hwrite.1 (by simp [isWrite])
  | write destination source =>
    obtain ⟨r, c', hwrite, hholds⟩ := h.write hop
    refine ⟨c', by rw [onCache, hwrite, Outcome.andThen_ok, onFlat], hholds, ?_⟩
    rintro (hflush | hthrough)
    · exact absurd hflush (by simp)
    · exact hholds.mem_eq fun hback => absurd hback hthrough.2
  | flush =>
    obtain ⟨c', hflush, hholds, hempty⟩ := h.flush henabled
    exact ⟨c', by rw [onCache, hflush, Outcome.andThen_ok, onFlat], hholds,
      fun _ => hholds.mem_eq fun _ => hempty⟩

end CacheOp

def Cache.after {B : Type} [LowerMemory B] (cfg : CacheConfig) (c : Cache B) :
    List CacheOp → Cache B
  | [] => c
  | op :: ops => Cache.after cfg (op.onCache cfg c).2 ops

def flatAfter (f : Nat → Byte) : List CacheOp → (Nat → Byte)
  | [] => f
  | op :: ops => flatAfter (op.onFlat f).2 ops

theorem Cache.Holds.after {cfg : CacheConfig} {hfits : cfg.FitsWord} (henabled : cfg.enabled)
    {ops : List CacheOp} (hops : ∀ op ∈ ops, op.Cached) {c : Cache (Nat → Byte)}
    {f : Nat → Byte} (h : c.Holds hfits f) :
    (c.after cfg ops).Holds hfits (flatAfter f ops) := by
  induction ops generalizing c f with
  | nil => exact h
  | cons op ops ih =>
    obtain ⟨c', hop, hholds, -⟩ := CacheOp.onCache_holds henabled (hops op List.mem_cons_self) h
    rw [Cache.after, flatAfter, hop]
    exact ih (fun op' hop' => hops op' (List.mem_cons_of_mem _ hop')) hholds

/-- After any operations on a new cache, the next operation returns the bytes of a flat memory
that received the same writes; a flush, and every write of a write-through cache, leaves that
flat memory below the cache. -/
theorem cache_transparent (lib : CLibrary) (cfg : CacheConfig) (henabled : cfg.enabled)
    (hfits : cfg.FitsWord) (mem : Nat → Byte) (ops : List CacheOp) (op : CacheOp)
    (hops : ∀ op' ∈ ops ++ [op], op'.Cached) :
    let c := (Cache.new lib cfg mem).after cfg ops
    let f := flatAfter mem ops
    (op.onCache cfg c).1 = .ok (op.onFlat f).1 ∧
      (op = .flush → (op.onCache cfg c).2.mem = (op.onFlat f).2) ∧
      (cfg.writePolicy ≠ .back → op.isWrite → (op.onCache cfg c).2.mem = (op.onFlat f).2) := by
  intro c f
  have hholds : c.Holds hfits f := (Cache.holds_new lib mem).after henabled
    fun op' hop' => hops op' (List.mem_append_left _ hop')
  obtain ⟨c', hop, -, hmem⟩ := CacheOp.onCache_holds henabled
    (hops op (List.mem_append_right _ List.mem_cons_self)) hholds
  rw [hop]
  exact ⟨rfl, fun hflush => hmem (.inl hflush),
    fun hthrough hwrite => hmem (.inr ⟨hwrite, hthrough⟩)⟩

/-- Two ways of two sets with blocks of one word, written back. -/
def smallCache (policy : ReplacementPolicy) : CacheConfig :=
  ⟨true, 2, 1, 2, policy, .back, Nat.two_pos, Nat.one_pos, Nat.two_pos⟩

theorem cache_transparent_smallCache :
    ((CacheOp.read 2 4).onCache (smallCache .lru) ((Cache.new ⟨id, id⟩ (smallCache .lru)
      fun _ : Nat => (0 : Byte)).after (smallCache .lru) [.write 0 [1, 2, 3, 4, 5, 6]])).1 =
        .ok [3, 4, 5, 6] :=
  (cache_transparent ⟨id, id⟩ (smallCache .lru) (by decide) (by
    simp [CacheConfig.FitsWord, smallCache]) (fun _ => 0) [.write 0 [1, 2, 3, 4, 5, 6]] (.read 2 4)
    (by simp [CacheOp.Cached])).1.trans (by decide +kernel)

end QtRvSim
