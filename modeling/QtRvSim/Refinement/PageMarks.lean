import QtRvSim.Refinement.TlbTransparency

/-!
# Marking pages

Every access through a TLB marks the leaf entries of the pages it touches: it sets their accessed
bit, and for a write their dirty bit.  In memory a mark changes one byte.  Between two full flushes
an access of any size marks exactly the leaves of the pages it touches, whether they are held in
the TLB or found by walks, and leaves the rest of the page tables and of the memory alone.
-/

namespace QtRvSim

open ByteMemory BitFields FlatPhysical BitVec PagingMode

/-- The bits that an access sets in the first byte of a leaf entry. -/
def adMask (op : AccessOp) : Byte := 0x40 ||| if op = .write then 0x80 else 0

def adMark (op : AccessOp) (b : Address → Byte) (a : Address) : Address → Byte :=
  Function.update b a (b a ||| adMask op)

theorem Pte.withAd_toNat (pte : Pte) (op : AccessOp) :
    (pte.withAd op).toNat = pte.toNat ||| (adMask op).toNat := by
  rw [Pte.withAd, toNat_or, toNat_or, Nat.or_assoc]
  cases op <;> rfl

namespace PagingMode

variable (mode : PagingMode)

theorem rawBytes_pos : 0 < mode.rawBytes :=
  Nat.pos_of_dvd_of_pos mode.rawBytes_dvd (by decide)

variable (b : Address → Byte)

theorem pteAt_toNat (a : Address) :
    (mode.pteAt b a).toNat = littleValue (readBytes b a mode.rawBytes) := by
  have hvalue := littleValue_lt (readBytes b a mode.rawBytes)
  rw [readBytes_length] at hvalue
  have hbytes : 256 ^ mode.rawBytes ≤ 2 ^ 64 := by
    calc 256 ^ mode.rawBytes ≤ 256 ^ 8 :=
          Nat.pow_le_pow_right (by decide) (Nat.le_of_dvd (by decide) mode.rawBytes_dvd)
      _ = 2 ^ 64 := by decide
  rw [pteAt, valueOfBytes, toNat_ofNat]
  exact Nat.mod_eq_of_lt (Nat.lt_of_lt_of_le hvalue hbytes)

/-- Writing back an entry with its bits set changes one byte. -/
theorem write_withAd (a : Address) (op : AccessOp) :
    writeBytes b a (bytesOfValue .little mode.rawBytes ((mode.pteAt b a).withAd op).toNat) =
      adMark op b a := by
  obtain ⟨n, hn⟩ := Nat.exists_eq_succ_of_ne_zero mode.rawBytes_pos.ne'
  have hread : readBytes b a (n + 1) = b a :: readBytes b (a + 1) n := by
    rw [readBytes, List.range_succ_eq_map, List.map_cons, List.map_map]
    congr 1
    · exact congrArg b (BitVec.add_zero a)
    · apply List.map_congr_left
      intro i _
      simp only [Function.comp_apply, BitVec.ofNat_eq_ofNat, Nat.succ_eq_add_one, BitVec.ofNat_add,
        BitVec.add_assoc, BitVec.add_comm 1#64]
  have hbyte := (b a).isLt
  have hvalue : littleValue (readBytes b a (n + 1)) =
      (b a).toNat + 256 * littleValue (readBytes b (a + 1) n) := by
    rw [hread, littleValue]
  have hfirst : BitVec.ofNat 8 (littleValue (readBytes b a (n + 1))) = b a := by
    apply BitVec.eq_of_toNat_eq
    rw [hvalue, BitVec.toNat_ofNat]
    omega
  have hrest : littleBytes n (littleValue (readBytes b a (n + 1)) / 256) =
      readBytes b (a + 1) n := by
    have hdiv : littleValue (readBytes b a (n + 1)) / 256 =
        littleValue (readBytes b (a + 1) n) := by
      rw [hvalue]
      omega
    have hback := littleBytes_littleValue (readBytes b (a + 1) n)
    rw [readBytes_length] at hback
    rw [hdiv, hback]
  rw [bytesOfValue, Pte.withAd_toNat, mode.pteAt_toNat, hn, littleBytes_or n _ _ (adMask op).isLt,
    hfirst, hrest, BitVec.ofNat_toNat, BitVec.setWidth_eq, writeBytes_cons b a (b a), ← hread,
    writeBytes_readBytes]
  rfl

/-- The entry that was marked. -/
theorem pteAt_adMark_self (a : Address) (op : AccessOp) :
    mode.pteAt (adMark op b a) a = (mode.pteAt b a).withAd op := by
  rw [← mode.write_withAd]
  exact mode.pteAt_write_self b a
    (TlbSetup.withAd_toNat_lt mode.rawBytes_pos (mode.pteAt_toNat_lt b a) op)

end PagingMode

/-! ### What marks change -/

/-- The entries at `T` are marked, and other bytes change within `R` only. -/
structure Marks (op : AccessOp) (T R : Set Address) (b b' : Address → Byte) : Prop where
  marked : ∀ x ∉ R, x ∈ T → b' x = b x ||| adMask op
  kept : ∀ x ∉ R, x ∉ T → b' x = b x

namespace Marks

variable {op : AccessOp} {T T' R R' : Set Address} {b b' b'' : Address → Byte}

theorem refl (op : AccessOp) (b : Address → Byte) : Marks op ∅ ∅ b b :=
  ⟨fun _ _ hx => absurd hx (Set.notMem_empty _), fun _ _ _ => rfl⟩

theorem adMark (op : AccessOp) (b : Address → Byte) (a : Address) :
    Marks op {a} ∅ b (adMark op b a) := by
  constructor
  · rintro x - rfl
    exact Function.update_self ..
  · intro x _ hx
    exact Function.update_of_ne hx ..

theorem writeBytes (op : AccessOp) (b : Address → Byte) (a : Address) (bs : List Byte) :
    Marks op ∅ {x | (x - a).toNat < bs.length} b (writeBytes b a bs) :=
  ⟨fun _ _ hx => absurd hx (Set.notMem_empty _),
    fun _ hx _ => writeBytes_of_outside b (Nat.not_lt.mp hx)⟩

/-- One change after another; marking an entry twice is marking it once. -/
theorem trans (h : Marks op T R b b') (h' : Marks op T' R' b' b'') :
    Marks op (T ∪ T') (R ∪ R') b b'' := by
  constructor
  · intro x hR hT
    obtain ⟨hx, hx'⟩ := not_or.mp hR
    by_cases hmark' : x ∈ T' <;> by_cases hmark : x ∈ T
    · rw [h'.marked x hx' hmark', h.marked x hx hmark, BitVec.or_assoc, BitVec.or_self]
    · rw [h'.marked x hx' hmark', h.kept x hx hmark]
    · rw [h'.kept x hx' hmark', h.marked x hx hmark]
    · exact absurd hT (not_or.mpr ⟨hmark, hmark'⟩)
  · intro x hR hT
    obtain ⟨hx, hx'⟩ := not_or.mp hR
    obtain ⟨hmark, hmark'⟩ := not_or.mp hT
    rw [h'.kept x hx' hmark', h.kept x hx hmark]

theorem mono (h : Marks op T R b b') (hR : R ⊆ R') : Marks op T R' b b' :=
  ⟨fun x hx => h.marked x fun hxR => hx (hR hxR), fun x hx => h.kept x fun hxR => hx (hR hxR)⟩

end Marks

namespace TlbSetup

variable {P : Type} [PhysicalMemory P] [FlatPhysical P] {su : TlbSetup}

variable {t : Tlb}

/-- In memory, the update of an entry is a mark. -/
theorem ensureAdBits_bytes {place : Nat × Nat} (op : AccessOp) (m : P)
    (hsize : (t.table place.1 place.2).pteBytes = su.paging.rawBytes) :
    bytes (su.ensureAdBits place op t m).2 =
      adMark op (bytes m) (t.table place.1 place.2).pteAddr := by
  have hread : BitVec.ofNat 64 (valueOfBytes .little (PhysicalMemory.read su.ptWalkMem
      (t.table place.1 place.2).pteAddr (t.table place.1 place.2).pteBytes m).1) =
      su.paging.pteAt (bytes m) (t.table place.1 place.2).pteAddr := by
    rw [read_fst, hsize]
    rfl
  have hbytes := read_snd su.ptWalkMem (t.table place.1 place.2).pteAddr
    (t.table place.1 place.2).pteBytes m
  have hmark := su.paging.write_withAd (bytes m) (t.table place.1 place.2).pteAddr op
  rw [ensureAdBits]
  dsimp only
  rw [hread]
  split
  next => rw [write, hbytes, hsize, hmark]
  next hsame =>
    -- the entry has its bits already
    rw [hbytes, ← hmark, not_not.mp hsame, bytesOfValue, su.paging.pteAt_toNat]
    have hback := littleBytes_littleValue
      (readBytes (bytes m) (t.table place.1 place.2).pteAddr su.paging.rawBytes)
    rw [readBytes_length] at hback
    rw [hback, writeBytes_readBytes]

/-- A physical address does not depend on accessed and dirty bits. -/
theorem makePhys_congr {p q : Pte} (hpte : p.SameApartAd q) (va : BitVec 64) {level : Nat}
    (hlevel : level ≤ su.paging.maxLevelIdx) :
    su.paging.makePhys p va level = su.paging.makePhys q va level := by
  have hp : (su.paging.makePhys p va level).toNat = _ := makePhys_toNat su.xlen p va hlevel
  have hq : (su.paging.makePhys q va level).toNat = _ := makePhys_toNat su.xlen q va hlevel
  apply eq_of_toNat_eq
  rw [hp, hq, physOf, physOf, hpte.ppnOf_eq]

variable {m : P}

omit [FlatPhysical P] in
theorem translateAndMark_of_entry {vaddr : AddressWithMode} {t' : Tlb} {m' : P}
    {tr : TranslationResult} {place : Nat × Nat}
    (htranslate : su.translateVirtualToPhysical vaddr t m = (.ok tr, t', m'))
    (hentry : tr.entry = some place) (op : AccessOp) :
    su.translateAndMark vaddr op t m = (.ok tr, su.ensureAdBits place op t' m') := by
  rw [translateAndMark, htranslate]
  dsimp only
  rw [hentry]

variable (su) in
/-- The translation of an address by the page tables in `b`: the leaf entry of its page and the
physical address. -/
def Maps (root : Nat) (b : Address → Byte) (va : BitVec 64) (a pa : Address) : Prop :=
  ∃ level, su.paging.LeadsTo b va su.paging.maxLevelIdx root level a ∧
    pa = su.paging.makePhys (su.paging.pteAt b a) va level

/-- One step of an access: where it goes, and the leaf it marks. -/
theorem Running.translateAndMark_ok {root : Nat} {b₀ : Address → Byte} {t : Tlb} {m : P}
    (hrun : su.Running root b₀ t m) {vaddr : AddressWithMode}
    (hon : su.shouldTranslate t vaddr.mode.priv = true) {op : AccessOp} {tr : TranslationResult}
    (hok : (su.translateAndMark vaddr op t m).1 = .ok tr) :
    ∃ a, su.Maps root b₀ vaddr.address a tr.phys ∧
      tr.bytesUntilPageEnd = pageBytes - (vaddr.address &&& lowMask 64 pageShift).toNat ∧
      bytes (su.translateAndMark vaddr op t m).2.2 = adMark op (bytes m) a := by
  cases hhit : su.hitWay t (vaddr.address >>> pageShift) vaddr.mode.asid with
  | some w =>
    obtain ⟨hvalid, hvpn, -⟩ := hitWay_some hhit
    have hagrees := hrun.sound.agrees _ _ hvalid
    obtain ⟨level, hleads, -, hphys⟩ := hagrees.leadsTo (sameTables_refl _ _) hvpn
    have htranslate := @translate_hit P _ su vaddr t w hon hhit m
    dsimp only at htranslate
    split at htranslate
    next =>
      rw [translateAndMark_of_entry htranslate rfl] at hok ⊢
      cases hok
      exact ⟨_, ⟨level, hleads, hphys⟩, rfl, ensureAdBits_bytes op m hagrees.pteBytes⟩
    next =>
      rw [TlbSetup.translateAndMark, htranslate] at hok
      cases hok
  | none =>
    have hends := walk_ends su.xlen su.ptWalkMem (shouldTranslate_eq_true hon).2
      vaddr.address t.currentSstatusRaw vaddr.mode m
    have htranslate := @translate_miss P _ su vaddr t hon hhit m
    generalize su.paging.walk su.ptWalkMem vaddr.address t.currentSatpRaw
      t.currentSstatusRaw vaddr.mode m = r at hends htranslate
    cases hends with
    | @found level addr m' hleads haccepts hbytes =>
      rw [← hrun.root_eq] at hleads
      have hleads₀ := hrun.tables.leadsTo_iff.mp hleads
      have hentry := hrun.tables addr ⟨_, hleads₀.visits⟩
      rw [translateAndMark_of_entry htranslate rfl] at hok ⊢
      cases hok
      refine ⟨addr, ⟨level, hleads₀, ?_⟩, rfl, ?_⟩
      · exact (pageBase_add_offset _ (makePhys_offset _ _ hleads.level_le)).trans
          (makePhys_congr hentry _ hleads.level_le)
      · rw [ensureAdBits_bytes op m' (by simp [cacheMapping, Tlb.setEntry])]
        simp [cacheMapping, Tlb.setEntry, hbytes]
    | fault hfault hnone hbytes =>
      rw [TlbSetup.translateAndMark, htranslate] at hok
      cases hok

/-! ### Accesses of any size -/

theorem offset_toNat (va : BitVec 64) :
    (va &&& lowMask 64 pageShift).toNat = va.toNat % 2 ^ 12 :=
  toNat_and_lowMask va (by decide)

variable {va : BitVec 64}

variable {i : Nat}

/-- An address further on in the same page. -/
theorem add_in_page (hi : va.toNat % 2 ^ 12 + i < 2 ^ 12) :
    (va + BitVec.ofNat 64 i).toNat = va.toNat + i := by
  have hlt := va.isLt
  rw [BitVec.toNat_add, BitVec.toNat_ofNat]
  omega

variable {b : Address → Byte} {root : Nat}

variable {a pa : Address}

/-- Addresses of one page have one leaf, and their physical addresses follow each other. -/
theorem Maps.add (h : su.Maps root b va a pa) (hi : va.toNat % 2 ^ 12 + i < 2 ^ 12) :
    su.Maps root b (va + BitVec.ofNat 64 i) a (pa + BitVec.ofNat 64 i) := by
  obtain ⟨level, hleads, rfl⟩ := h
  have hnext := add_in_page hi
  have hpage : va.toNat / 2 ^ 12 = (va + BitVec.ofNat 64 i).toNat / 2 ^ 12 := by
    rw [hnext]
    omega
  refine ⟨level, hleads.of_page hpage, ?_⟩
  have hva : (su.paging.makePhys (su.paging.pteAt b a) va level).toNat = _ :=
    makePhys_toNat su.xlen _ va hleads.level_le
  have hva' : (su.paging.makePhys (su.paging.pteAt b a) (va + BitVec.ofNat 64 i) level).toNat = _ :=
    makePhys_toNat su.xlen _ (va + BitVec.ofNat 64 i) hleads.level_le
  have hlt := (su.paging.makePhys (su.paging.pteAt b a) (va + BitVec.ofNat 64 i) level).isLt
  apply BitVec.eq_of_toNat_eq
  rw [hva', physOf, ← hpage, hnext] at hlt
  rw [BitVec.toNat_add, BitVec.toNat_ofNat, hva, hva', physOf, physOf, ← hpage, hnext]
  omega

theorem Maps.unique {a' pa' : Address} (h : su.Maps root b va a pa)
    (h' : su.Maps root b va a' pa') : a' = a ∧ pa' = pa := by
  obtain ⟨level, hleads, rfl⟩ := h
  obtain ⟨level', hleads', rfl⟩ := h'
  obtain ⟨rfl, rfl⟩ := hleads.unique su.paging hleads'
  exact ⟨rfl, rfl⟩

variable (su) in
/-- The leaves of the pages that `n` bytes from an address on touch. -/
def leaves (root : Nat) (b : Address → Byte) (va : BitVec 64) (n : Nat) : Set Address :=
  {a | ∃ i < n, ∃ pa, su.Maps root b (va + BitVec.ofNat 64 i) a pa}

variable (su) in
def physRange (root : Nat) (b : Address → Byte) (va : BitVec 64) (n : Nat) : Set Address :=
  {pa | ∃ i < n, ∃ a, su.Maps root b (va + BitVec.ofNat 64 i) a pa}

theorem leaves_zero (root : Nat) (b : Address → Byte) (va : BitVec 64) :
    su.leaves root b va 0 = ∅ := by
  apply Set.eq_empty_of_forall_notMem
  rintro a ⟨i, hi, -⟩
  exact absurd hi (Nat.not_lt_zero i)

/-- The bytes of an access up to some point and those behind it. -/
theorem exists_lt_split {k n : Nat} (hk : k ≤ n) (va : BitVec 64) (p : BitVec 64 → Prop) :
    (∃ i < n, p (va + BitVec.ofNat 64 i)) ↔
      (∃ i < k, p (va + BitVec.ofNat 64 i)) ∨
        ∃ i < n - k, p (va + BitVec.ofNat 64 k + BitVec.ofNat 64 i) := by
  have hadd (i : Nat) : va + BitVec.ofNat 64 k + BitVec.ofNat 64 i =
      va + BitVec.ofNat 64 (k + i) := by
    rw [BitVec.ofNat_add, BitVec.add_assoc]
  constructor
  · rintro ⟨i, hi, hp⟩
    by_cases hik : i < k
    · exact .inl ⟨i, hik, hp⟩
    · refine .inr ⟨i - k, by omega, ?_⟩
      rw [hadd, Nat.add_sub_cancel' (by omega)]
      exact hp
  · rintro (⟨i, hi, hp⟩ | ⟨i, hi, hp⟩)
    · exact ⟨i, by omega, hp⟩
    · rw [hadd] at hp
      exact ⟨k + i, by omega, hp⟩

/-- The part of an access in its first page marks one leaf. -/
theorem leaves_split (h : su.Maps root b va a pa) {k n : Nat} (hpos : 0 < k) (hk : k ≤ n)
    (hpage : va.toNat % 2 ^ 12 + k ≤ 2 ^ 12) :
    su.leaves root b va n = {a} ∪ su.leaves root b (va + BitVec.ofNat 64 k) (n - k) := by
  have hfirst : (∃ i < k, ∃ pa', su.Maps root b (va + BitVec.ofNat 64 i) a pa') :=
    ⟨0, hpos, pa + BitVec.ofNat 64 0, h.add (by omega)⟩
  ext x
  refine (exists_lt_split hk va fun va' => ∃ pa', su.Maps root b va' x pa').trans
    (or_congr_left ?_)
  constructor
  · rintro ⟨i, hi, pa', hmaps⟩
    exact ((h.add (by omega)).unique hmaps).1
  · rintro rfl
    exact hfirst

theorem physRange_split (h : su.Maps root b va a pa) {k n : Nat} (hk : k ≤ n)
    (hpage : va.toNat % 2 ^ 12 + k ≤ 2 ^ 12) :
    {x | (x - pa).toNat < k} ∪ su.physRange root b (va + BitVec.ofNat 64 k) (n - k) ⊆
      su.physRange root b va n := by
  rintro x (hx | hx)
  · refine ⟨(x - pa).toNat, Nat.lt_of_lt_of_le hx hk, a, ?_⟩
    have hmaps := h.add (Nat.lt_of_lt_of_le (Nat.add_lt_add_left hx _) hpage)
    have hback : pa + BitVec.ofNat 64 (x - pa).toNat = x := by
      rw [BitVec.ofNat_toNat, BitVec.setWidth_eq, BitVec.add_comm, BitVec.sub_add_cancel]
    rwa [hback] at hmaps
  · exact (exists_lt_split hk va fun va' => ∃ a, su.Maps root b va' a x).mpr (.inr hx)

omit [FlatPhysical P] in
theorem shouldTranslate_translateAndMark (vaddr : AddressWithMode) (op : AccessOp) (t : Tlb)
    (m : P) (priv : PrivilegeLevel) :
    su.shouldTranslate (su.translateAndMark vaddr op t m).2.1 priv = su.shouldTranslate t priv := by
  have hsatp : (su.translateAndMark vaddr op t m).2.1.currentSatpRaw = t.currentSatpRaw :=
    congrArg Prod.fst (registers_translateAndMark vaddr op t m)
  rw [shouldTranslate, hsatp, shouldTranslate]

variable {b₀ : Address → Byte}

theorem Running.of_bytes {m' : P} (hrun : su.Running root b₀ t m) (hbytes : bytes m' = bytes m) :
    su.Running root b₀ t m' :=
  ⟨hrun.sound, hrun.root_eq, by rw [hbytes]; exact hrun.tables⟩

/-- A read marks the leaves of its pages. -/
theorem Running.translateAndReadLoop (hrun : su.Running root b₀ t m) {mode : AccessMode}
    (hon : su.shouldTranslate t mode.priv = true) {fuel n : Nat} (hfuel : n ≤ fuel)
    (hok : ∃ bs, (su.translateAndReadLoop mode fuel va n t m).1 = .ok bs) :
    Marks .read (su.leaves root b₀ va n) ∅ (bytes m)
      (bytes (su.translateAndReadLoop mode fuel va n t m).2.2) := by
  -- by induction on the steps; the invariant holds again after each of them
  fun_induction su.translateAndReadLoop mode fuel va n t m with
  | case1 =>
    rw [Nat.le_zero.mp hfuel, leaves_zero]
    exact .refl _ _
  | case2 =>
    rw [leaves_zero]
    exact .refl _ _
  | case3 | case5 =>
    obtain ⟨_, hok⟩ := hok
    cases hok
  | case4 fuel va n t m hn tr t' m' hmark k _ m₁ hpiece tail _ _ hloop ih =>
    have hstep := @Running.translateAndMark_ok P _ _ su root b₀ t m hrun ⟨va, mode⟩ hon .read tr
    have hnext := hrun.translateAndMark ⟨va, mode⟩ .read
    have hstill := @shouldTranslate_translateAndMark P _ su ⟨va, mode⟩ .read t m mode.priv
    have hread := read_snd su.mem tr.phys k m'
    rw [hmark] at hstep hnext hstill
    rw [hpiece] at hread
    obtain ⟨a, hmaps, huntil, hbytes⟩ := hstep rfl
    rw [offset_toNat, pageBytes, pageShift] at huntil
    dsimp only at huntil
    have hpage : va.toNat % 2 ^ 12 + k ≤ 2 ^ 12 := by omega
    have hrest := ih (hnext.of_bytes hread) (hstill.trans hon) (by omega)
    rw [hloop, hread, hbytes] at hrest
    rw [leaves_split hmaps (by omega) (Nat.min_le_left n tr.bytesUntilPageEnd) hpage]
    have hmarks := (Marks.adMark .read (bytes m) a).trans (hrest ⟨tail, rfl⟩)
    rwa [Set.empty_union] at hmarks

variable (su) in
/-- No page-table entry has a byte in a set of addresses. -/
def ClearOfTables (root : Nat) (b : Address → Byte) (R : Set Address) : Prop :=
  ∀ x ∈ R, ∀ a, su.paging.IsEntry root b a → su.paging.rawBytes ≤ (x - a).toNat

theorem add_sub_toNat (a : Address) (hi : i < su.paging.rawBytes) :
    (a + BitVec.ofNat 64 i - a).toNat = i := by
  have hbytes := Nat.le_of_dvd (by decide) su.paging.rawBytes_dvd
  have hcancel : a + BitVec.ofNat 64 i - a = BitVec.ofNat 64 i := by
    rw [BitVec.add_comm, BitVec.add_sub_cancel]
  rw [hcancel, BitVec.toNat_ofNat, Nat.mod_eq_of_lt (by omega)]

/-- Bytes of an entry lie outside a set that is clear of the tables. -/
theorem ClearOfTables.notMem {R : Set Address} (h : su.ClearOfTables root b R)
    (ha : su.paging.IsEntry root b a) (hi : i < su.paging.rawBytes) :
    a + BitVec.ofNat 64 i ∉ R := by
  intro hx
  have hle := h _ hx a ha
  rw [add_sub_toNat a hi] at hle
  omega

/-- Writes clear of the tables keep them. -/
theorem Running.write {root : Nat} {b₀ : Address → Byte} {t : Tlb} {m : P}
    (hrun : su.Running root b₀ t m) {pa : Address} {bs : List Byte}
    (hclear : su.ClearOfTables root b₀ {x | (x - pa).toNat < bs.length}) :
    su.Running root b₀ t (PhysicalMemory.write su.mem pa bs m) := by
  refine ⟨hrun.sound, hrun.root_eq, fun a ha => ?_⟩
  rw [FlatPhysical.write, pteAt, readBytes_writeBytes_of_outside]
  · exact hrun.tables a ha
  · intro i hi
    exact Nat.not_lt.mp (hclear.notMem ha hi)

/-- A write clear of the tables marks the leaves of its pages and otherwise changes bytes in its
range only. -/
theorem Running.translateAndWriteLoop (hrun : su.Running root b₀ t m) {mode : AccessMode}
    (hon : su.shouldTranslate t mode.priv = true) {fuel : Nat} {src : List Byte}
    (hfuel : src.length ≤ fuel)
    (hclear : su.ClearOfTables root b₀ (su.physRange root b₀ va src.length))
    (hok : (su.translateAndWriteLoop mode fuel va src t m).1 = .ok ()) :
    Marks .write (su.leaves root b₀ va src.length) (su.physRange root b₀ va src.length) (bytes m)
      (bytes (su.translateAndWriteLoop mode fuel va src t m).2.2) := by
  fun_induction su.translateAndWriteLoop mode fuel va src t m with
  | case1 =>
    rw [Nat.le_zero.mp hfuel, leaves_zero]
    exact (Marks.refl _ _).mono (Set.empty_subset _)
  | case2 _ _ _ _ _ hn =>
    rw [hn, leaves_zero]
    exact (Marks.refl _ _).mono (Set.empty_subset _)
  | case3 => cases hok
  | case4 fuel va src t m hn tr t' m' hmark k m₁ ih =>
    have hstep := @Running.translateAndMark_ok P _ _ su root b₀ t m hrun ⟨va, mode⟩ hon .write tr
    have hnext := hrun.translateAndMark ⟨va, mode⟩ .write
    have hstill := @shouldTranslate_translateAndMark P _ su ⟨va, mode⟩ .write t m mode.priv
    rw [hmark] at hstep hnext hstill
    obtain ⟨a, hmaps, huntil, hbytes⟩ := hstep rfl
    rw [offset_toNat, pageBytes, pageShift] at huntil
    dsimp only at huntil
    have hpage : va.toNat % 2 ^ 12 + k ≤ 2 ^ 12 := by omega
    have htake : (src.take k).length = k := List.length_take_of_le (Nat.min_le_left _ _)
    have hrange := physRange_split hmaps (Nat.min_le_left _ _) hpage
    have hwritten := @Running.write P _ _ su root b₀ t' m' hnext tr.phys (src.take k) (by
      rw [htake]
      exact fun x hx => hclear x (hrange (.inl hx)))
    have hrest := ih hwritten (hstill.trans hon) (by rw [List.length_drop]; omega)
    rw [List.length_drop, FlatPhysical.write, hbytes] at hrest
    have hmarks := ((Marks.adMark .write (bytes m) a).trans
      (.writeBytes .write _ tr.phys (src.take k))).trans
      (hrest (fun x hx => hclear x (hrange (.inr hx))) hok)
    rw [htake, Set.empty_union, Set.union_empty] at hmarks
    rw [leaves_split hmaps (by omega) (Nat.min_le_left _ _) hpage]
    exact hmarks.mono hrange

end TlbSetup

theorem Pte.withAd_a (pte : Pte) (op : AccessOp) : (pte.withAd op).flags.a = true := by
  have hbit : (1#64 <<< 6).getLsbD 6 = true := by decide
  simp only [Pte.withAd, Pte.flags, getLsbD_or, hbit, Bool.or_true, Bool.true_or]

theorem Pte.withAd_d (pte : Pte) : (pte.withAd .write).flags.d = true := by
  have hbit : (1#64 <<< 7).getLsbD 7 = true := by decide
  simp only [Pte.withAd, Pte.flags, getLsbD_or, if_true, hbit, Bool.or_true]

/-- The leaf entry of every page that `n` bytes from `va` on touch is accessed, and dirty if they
are written; no other bit of an entry and no other byte outside `R` differs. -/
structure MarksPages (su : TlbSetup) (root : Nat) (tables : Address → Byte) (va : BitVec 64)
    (n : Nat) (op : AccessOp) (R : Set Address) (b b' : Address → Byte) : Prop where
  accessed : ∀ a ∈ su.leaves root tables va n, (su.paging.pteAt b' a).flags.a = true
  dirty : op = .write → ∀ a ∈ su.leaves root tables va n, (su.paging.pteAt b' a).flags.d = true
  leaf : ∀ a ∈ su.leaves root tables va n,
    su.paging.pteAt b' a = (su.paging.pteAt b a).withAd op
  entry : ∀ a, su.paging.IsEntry root tables a → a ∉ su.leaves root tables va n →
    su.paging.pteAt b' a = su.paging.pteAt b a
  frame : ∀ x ∉ R, x ∉ su.leaves root tables va n → b' x = b x

namespace TlbSetup

variable {P : Type} [PhysicalMemory P] [FlatPhysical P] {su : TlbSetup}

variable {b : Address → Byte}

variable {va : BitVec 64} {a : Address} {root n : Nat}

theorem isEntry_of_leaves (ha : a ∈ su.leaves root b va n) : su.paging.IsEntry root b a := by
  obtain ⟨i, -, pa, level, hleads, -⟩ := ha
  exact ⟨_, hleads.visits⟩

/-- Only the first byte of an entry can be a leaf. -/
theorem add_notMem_leaves (ha : su.paging.IsEntry root b a) {i : Nat} (hpos : 0 < i)
    (hi : i < su.paging.rawBytes) : a + BitVec.ofNat 64 i ∉ su.leaves root b va n := by
  intro hleaf
  obtain ⟨_, hvisits⟩ := ha
  obtain ⟨_, hvisits'⟩ := isEntry_of_leaves hleaf
  have ha := hvisits.rawBytes_dvd
  have hx := hvisits'.rawBytes_dvd
  have hbytes := Nat.le_of_dvd (by decide) su.paging.rawBytes_dvd
  rw [BitVec.toNat_add, BitVec.toNat_ofNat, Nat.mod_eq_of_lt (a := i) (by omega),
    Nat.dvd_mod_iff (su.paging.rawBytes_dvd.trans (by decide)), Nat.dvd_add_right ha] at hx
  exact absurd (Nat.le_of_dvd hpos hx) (by omega)

theorem pteAt_congr {b' : Address → Byte}
    (h : ∀ i < su.paging.rawBytes, b' (a + BitVec.ofNat 64 i) = b (a + BitVec.ofNat 64 i)) :
    su.paging.pteAt b' a = su.paging.pteAt b a := by
  have hread : readBytes b' a su.paging.rawBytes = readBytes b a su.paging.rawBytes := by
    apply List.map_congr_left
    intro i hi
    exact h i (List.mem_range.mp hi)
  rw [pteAt, hread, pteAt]

theorem marksPages_of_marks {b₀ b' : Address → Byte} {op : AccessOp} {R : Set Address}
    (h : Marks op (su.leaves root b₀ va n) R b b') (hclear : su.ClearOfTables root b₀ R) :
    MarksPages su root b₀ va n op R b b' := by
  have hleaf : ∀ a ∈ su.leaves root b₀ va n,
      su.paging.pteAt b' a = (su.paging.pteAt b a).withAd op := by
    intro a ha
    have hentry := isEntry_of_leaves ha
    rw [← pteAt_adMark_self]
    apply pteAt_congr
    intro i hi
    have hoff := hclear.notMem hentry hi
    rcases Nat.eq_zero_or_pos i with rfl | hpos
    · have hself : a + BitVec.ofNat 64 0 = a := BitVec.add_zero a
      rw [hself] at hoff ⊢
      rw [h.marked a hoff ha, QtRvSim.adMark, Function.update_self]
    · have hne : a + BitVec.ofNat 64 i ≠ a := fun heq =>
        add_notMem_leaves hentry hpos hi (heq.symm ▸ ha)
      rw [h.kept _ hoff (add_notMem_leaves hentry hpos hi), QtRvSim.adMark,
        Function.update_of_ne hne]
  constructor
  · intro a ha
    rw [hleaf a ha]
    exact Pte.withAd_a _ _
  · rintro rfl a ha
    rw [hleaf a ha]
    exact Pte.withAd_d _
  · exact hleaf
  · intro a hentry ha
    apply pteAt_congr
    intro i hi
    apply h.kept _ (hclear.notMem hentry hi)
    rcases Nat.eq_zero_or_pos i with rfl | hpos
    · rw [show a + BitVec.ofNat 64 0 = a from BitVec.add_zero a]
      exact ha
    · exact add_notMem_leaves hentry hpos hi
  · exact fun x hx hxT => h.kept x hx hxT

end TlbSetup

/-- In every run after a full flush, a translated fetch or read of any size, and a write whose
physical range is clear of the page tables, mark exactly the leaves of the pages they touch. -/
theorem access_marks_pages {P : Type} [PhysicalMemory P] [FlatPhysical P] (su : TlbSetup)
    (t₀ : Tlb) (m₀ : P) (events : List (TlbEvent P))
    (hkeeps : ∀ e ∈ events, su.KeepsTables (su.paging.rootOf t₀.currentSatpRaw) (bytes m₀) e)
    (vaddr : AddressWithMode) :
    let s := su.afterEvents events (t₀.flushAllEntries, m₀)
    let root := su.paging.rootOf t₀.currentSatpRaw
    su.shouldTranslate s.1 vaddr.mode.priv = true →
    (∀ n bs, (su.translateAndRead vaddr n s.1 s.2).1 = .ok bs →
      MarksPages su root (bytes m₀) vaddr.address n .read ∅ (bytes s.2)
        (bytes (su.translateAndRead vaddr n s.1 s.2).2.2)) ∧
    ∀ src, su.ClearOfTables root (bytes m₀)
        (su.physRange root (bytes m₀) vaddr.address src.length) →
      (su.translateAndWrite vaddr src s.1 s.2).1 = .ok () →
      MarksPages su root (bytes m₀) vaddr.address src.length .write
        (su.physRange root (bytes m₀) vaddr.address src.length) (bytes s.2)
        (bytes (su.translateAndWrite vaddr src s.1 s.2).2.2) := by
  intro s root hon
  have hstart : su.Running root (bytes m₀) (t₀.flushAllEntries, m₀).1 (t₀.flushAllEntries, m₀).2 :=
    TlbSetup.running_flushAllEntries t₀ m₀
  obtain ⟨hrun, -⟩ := hstart.afterEvents hkeeps
  constructor
  · intro n bs hok
    exact TlbSetup.marksPages_of_marks (hrun.translateAndReadLoop hon (Nat.le_refl n) ⟨bs, hok⟩)
      fun x hx => absurd hx (Set.notMem_empty x)
  · intro src hclear hok
    exact TlbSetup.marksPages_of_marks
      (hrun.translateAndWriteLoop hon (Nat.le_refl _) hclear hok) hclear

/-- Physical memory that maps a gigabyte from address 0 on to the supervisor, with a leaf that is
not marked yet. -/
def freshGigapage : FlatMemory := ⟨fun a => if a = 0x1000 then 0x0f else 0⟩

/-- The only valid entry is the first one of the root table. -/
theorem freshGigapage_pteAt {a : Address} (ha : 8 ∣ a.toNat) (hne : a ≠ 0x1000) :
    smallTlb.paging.pteAt freshGigapage.bytes a = 0 := by
  have hzero : smallTlb.paging.pteAt freshGigapage.bytes a =
      smallTlb.paging.pteAt (fun _ => 0) a := by
    apply TlbSetup.pteAt_congr
    intro i hi
    change i < 8 at hi
    have hbyte : a + BitVec.ofNat 64 i ≠ 0x1000 := by
      intro heq
      have hvalue := congrArg BitVec.toNat heq
      have hlt := a.isLt
      rw [BitVec.toNat_add, BitVec.toNat_ofNat] at hvalue
      change _ = 0x1000 at hvalue
      exact hne (BitVec.eq_of_toNat_eq (by change a.toNat = 0x1000; omega))
    exact if_neg hbyte
  rw [hzero]
  rfl

theorem freshGigapage_isEntry {a : Address}
    (h : smallTlb.paging.IsEntry 1 freshGigapage.bytes a) :
    0x1000 ≤ a.toNat ∧ a.toNat < 0x2000 := by
  obtain ⟨va, hvisits⟩ := h
  have haddress : (smallTlb.paging.entryAddress va 2 1).toNat =
      0x1000 + va.toNat / 2 ^ 30 % 2 ^ 9 * 8 := by
    rw [entryAddress, toNat_ofNat]
    change (1 * 2 ^ 12 + va.toNat / 2 ^ (12 + 2 * 9) % 2 ^ 9 * 8) % 2 ^ 64 = _
    omega
  cases hvisits with
  | entry =>
    change 0x1000 ≤ (smallTlb.paging.entryAddress va 2 1).toNat ∧
      (smallTlb.paging.entryAddress va 2 1).toNat < 0x2000
    rw [haddress]
    omega
  | pointer hvalid hpointer =>
    change (smallTlb.paging.pteAt freshGigapage.bytes
      (smallTlb.paging.entryAddress va 2 1)).isValid = true at hvalid
    change ¬(smallTlb.paging.pteAt freshGigapage.bytes
      (smallTlb.paging.entryAddress va 2 1)).isLeaf = true at hpointer
    by_cases hfirst : smallTlb.paging.entryAddress va 2 1 = 0x1000
    · rw [hfirst] at hpointer
      exact absurd (by decide +kernel) hpointer
    · rw [freshGigapage_pteAt (by rw [haddress]; omega) hfirst] at hvalid
      exact absurd hvalid (by decide)

/-- A supervisor write across a page boundary. -/
theorem access_marks_pages_freshGigapage :
    (smallTlb.paging.pteAt (bytes (smallTlb.translateAndWrite ⟨0x2ffe, ⟨0, .supervisor, .write⟩⟩
      [1, 2, 3, 4] emptyTlb.flushAllEntries freshGigapage).2.2) 0x1000).flags.d = true := by
  have hleads (va : BitVec 64) (hva : va.toNat < 2 ^ 30) :
      smallTlb.paging.LeadsTo freshGigapage.bytes va 2 1 2 0x1000 := by
    have hentry : smallTlb.paging.entryAddress va 2 1 = 0x1000 := by
      apply BitVec.eq_of_toNat_eq
      rw [entryAddress, BitVec.toNat_ofNat]
      change (1 * 2 ^ 12 + va.toNat / 2 ^ (12 + 2 * 9) % 2 ^ 9 * 8) % 2 ^ 64 = 0x1000
      omega
    have hleaf := @PagingMode.LeadsTo.leaf smallTlb.paging freshGigapage.bytes va 2 1
    rw [hentry] at hleaf
    exact hleaf (by decide +kernel) (by decide +kernel)
  refine ((access_marks_pages smallTlb emptyTlb freshGigapage [] (List.forall_mem_nil _)
    ⟨0x2ffe, ⟨0, .supervisor, .write⟩⟩ (by decide)).2 [1, 2, 3, 4] ?_ (by decide +kernel)).dirty rfl
    0x1000 ⟨0, by decide, _, 2, hleads _ (by decide), rfl⟩
  -- the bytes lie behind the root table
  rintro x ⟨i, hi, a', level, hleads', rfl⟩ a ha
  have hbounds := freshGigapage_isEntry ha
  have hsmall : (0x2ffe#64 + BitVec.ofNat 64 i).toNat < 2 ^ 30 ∧
      0x2ffe ≤ (0x2ffe#64 + BitVec.ofNat 64 i).toNat := by
    change i < 4 at hi
    rw [BitVec.toNat_add, BitVec.toNat_ofNat]
    change (0x2ffe + i % 2 ^ 64) % 2 ^ 64 < 2 ^ 30 ∧ 0x2ffe ≤ (0x2ffe + i % 2 ^ 64) % 2 ^ 64
    omega
  obtain ⟨rfl, rfl⟩ := (hleads _ hsmall.1).unique _ hleads'
  have hphys : (smallTlb.paging.makePhys (smallTlb.paging.pteAt freshGigapage.bytes 0x1000)
      (0x2ffe#64 + BitVec.ofNat 64 i) 2).toNat = (0x2ffe#64 + BitVec.ofNat 64 i).toNat := by
    have hvalue := @makePhys_toNat ._64 (smallTlb.paging.pteAt freshGigapage.bytes 0x1000)
      (0x2ffe#64 + BitVec.ofNat 64 i) 2 (by decide)
    refine hvalue.trans ?_
    have hppn : smallTlb.paging.ppnOf (smallTlb.paging.pteAt freshGigapage.bytes 0x1000) = 0 := by
      decide +kernel
    rw [physOf]
    change (smallTlb.paging.ppnOf _ / 2 ^ 18 * 2 ^ 18 + _ / 2 ^ 12 % 2 ^ 18) * 2 ^ 12 + _ = _
    rw [hppn]
    omega
  rw [BitVec.toNat_sub]
  change 8 ≤ (2 ^ 64 - a.toNat + (smallTlb.paging.makePhys (smallTlb.paging.pteAt
    freshGigapage.bytes 0x1000) (0x2ffe#64 + BitVec.ofNat 64 i) 2).toNat) % 2 ^ 64
  rw [hphys]
  omega

end QtRvSim
