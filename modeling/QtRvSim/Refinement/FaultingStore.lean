import QtRvSim.Core.MemoryCalls
import QtRvSim.Refinement.AccessKind
import QtRvSim.Refinement.PageMarks

/-!
# Stores that fault

An access that crosses a page boundary is made page by page.  If the first page accepts a store and
the second page refuses it, the bytes for the first page are written all the same.  A store that
faults leaves the memory alone, apart from marks of page-table entries, exactly if its first page
refuses it or holds the bytes already.
-/

namespace QtRvSim

open ByteMemory BitFields FlatPhysical FrontendMemory QtRvSim.Core AccessScript

/-- The bytes agree, apart from the accessed and dirty bits of the entries at `E`. -/
def SameApartMarks (E : Set Address) (b b' : Address → Byte) : Prop :=
  ∀ x, b' x = b x ∨ x ∈ E ∧ b' x ||| adMask .write = b x ||| adMask .write

namespace SameApartMarks

variable {E : Set Address} {b b' b'' : Address → Byte}

theorem refl (E : Set Address) (b : Address → Byte) : SameApartMarks E b b :=
  fun _ => .inl rfl

theorem trans (h : SameApartMarks E b b') (h' : SameApartMarks E b' b'') :
    SameApartMarks E b b'' := by
  intro x
  rcases h' x with hx' | ⟨hE, hx'⟩
  · rw [hx']
    exact h x
  · refine .inr ⟨hE, hx'.trans ?_⟩
    rcases h x with hx | ⟨-, hx⟩
    · rw [hx]
    · exact hx

theorem adMark {a : Address} (ha : a ∈ E) (op : AccessOp) (b : Address → Byte) :
    SameApartMarks E b (adMark op b a) := by
  intro x
  by_cases hx : x = a
  · subst hx
    refine .inr ⟨ha, ?_⟩
    rw [QtRvSim.adMark, Function.update_self, BitVec.or_assoc]
    congr 1
    cases op <;> decide
  · exact .inl (Function.update_of_ne hx ..)

end SameApartMarks

namespace TlbSetup

variable {P : Type} [PhysicalMemory P] [FlatPhysical P] (su : TlbSetup)

/-- The page-table entries: those that walks read and those that the TLB holds. -/
def entries (t : Tlb) (m : P) : Set Address :=
  {a | su.paging.IsEntry (su.paging.rootOf t.currentSatpRaw) (bytes m) a ∨
    ∃ s w, (t.table s w).valid = true ∧ (t.table s w).pteAddr = a}

/-- Every valid entry of the TLB is for a page-table entry of the paging mode. -/
def Formed (t : Tlb) : Prop :=
  ∀ s w, (t.table s w).valid = true →
    (t.table s w).pteBytes = su.paging.rawBytes ∧
      su.paging.rawBytes ∣ (t.table s w).pteAddr.toNat

variable {su}

variable {t : Tlb} {m : P}

theorem Formed.dvd_of_entries (h : su.Formed t) {a : Address} (ha : a ∈ su.entries t m) :
    su.paging.rawBytes ∣ a.toNat := by
  rcases ha with ⟨va, hvisits⟩ | ⟨s, w, hvalid, rfl⟩
  · exact hvisits.rawBytes_dvd
  · exact (h s w hvalid).2

/-- A translation leaves the bytes; the entry it names and all others in the TLB are for known
page-table entries. -/
theorem translate_entries {t : Tlb} {m : P} (h : su.Formed t) (vaddr : AddressWithMode) :
    let r := su.translateVirtualToPhysical vaddr t m
    bytes r.2.2 = bytes m ∧
      (∀ s w, (r.2.1.table s w).valid = true →
        (r.2.1.table s w).pteBytes = su.paging.rawBytes ∧
          (r.2.1.table s w).pteAddr ∈ su.entries t m) ∧
      ∀ tr place, r.1 = .ok tr → tr.entry = some place →
        (r.2.1.table place.1 place.2).valid = true := by
  have hheld (s w : Nat) (hvalid : (t.table s w).valid = true) :
      (t.table s w).pteBytes = su.paging.rawBytes ∧ (t.table s w).pteAddr ∈ su.entries t m :=
    ⟨(h s w hvalid).1, .inr ⟨s, w, hvalid, rfl⟩⟩
  cases hon : su.shouldTranslate t vaddr.mode.priv with
  | false =>
    rw [translate_off hon]
    refine ⟨rfl, hheld, fun tr place hok hplace => ?_⟩
    cases hok
    cases hplace
  | true =>
    cases hhit : su.hitWay t (vaddr.address >>> pageShift) vaddr.mode.asid with
    | some w =>
      rw [translate_hit hon hhit]
      dsimp only
      split
      next =>
        refine ⟨rfl, hheld, fun tr place hok hplace => ?_⟩
        cases hok
        cases hplace
        exact (hitWay_some hhit).1
      next => exact ⟨rfl, hheld, fun tr place hok => by cases hok⟩
    | none =>
      have hends := walk_ends su.xlen su.ptWalkMem (shouldTranslate_eq_true hon).2
        vaddr.address t.currentSstatusRaw vaddr.mode m
      rw [translate_miss hon hhit]
      generalize su.paging.walk su.ptWalkMem vaddr.address t.currentSatpRaw
        t.currentSstatusRaw vaddr.mode m = r at hends
      cases hends with
      | fault hfault hnone hbytes => exact ⟨hbytes, hheld, fun tr place hok => by cases hok⟩
      | found hleads haccepts hbytes =>
        refine ⟨hbytes, fun s w => ?_, fun tr place hok hplace => ?_⟩
        · dsimp only [cacheMapping, Tlb.setEntry]
          split
          next => exact fun _ => ⟨rfl, .inl ⟨_, hleads.visits⟩⟩
          next => exact hheld s w
        · cases hok
          cases hplace
          simp [cacheMapping, Tlb.setEntry]

/-- A step of an access marks a page-table entry or leaves the bytes; a fault leaves them. -/
theorem translateAndMark_entries {t : Tlb} {m : P} (h : su.Formed t) (vaddr : AddressWithMode)
    (op : AccessOp) :
    let r := su.translateAndMark vaddr op t m
    (bytes r.2.2 = bytes m ∨ (∃ tr, r.1 = .ok tr) ∧
        ∃ a ∈ su.entries t m, bytes r.2.2 = adMark op (bytes m) a) ∧
      ∀ s w, (r.2.1.table s w).valid = true →
        (r.2.1.table s w).pteBytes = su.paging.rawBytes ∧
          (r.2.1.table s w).pteAddr ∈ su.entries t m := by
  obtain ⟨hbytes, hheld, hplace⟩ := @translate_entries P _ _ su t m h vaddr
  rw [translateAndMark]
  generalize su.translateVirtualToPhysical vaddr t m = r at hbytes hheld hplace
  obtain ⟨result, t', m'⟩ := r
  cases result with
  | error fault => exact ⟨.inl hbytes, hheld⟩
  | ok tr =>
    dsimp only at hbytes hheld hplace ⊢
    split
    next => exact ⟨.inl hbytes, hheld⟩
    next place hentry =>
      have hentry' := hheld _ _ (hplace tr place rfl hentry)
      refine ⟨.inr ⟨⟨tr, rfl⟩, _, hentry'.2, ?_⟩, fun s w => ?_⟩
      · rw [← hbytes]
        exact ensureAdBits_bytes op m' hentry'.1
      · dsimp only [ensureAdBits, Tlb.setEntry]
        split
        next => exact fun _ => hentry'
        next => exact hheld s w

variable {E : Set Address}

/-- Marks of aligned entries keep the page tables. -/
theorem sameTables_of_marks {root : Nat} {b b' : Address → Byte}
    (hE : ∀ a ∈ E, su.paging.rawBytes ∣ a.toNat) (h : SameApartMarks E b b') :
    su.paging.SameTables root b b' := by
  rintro a ⟨va, hvisits⟩
  have ha := hvisits.rawBytes_dvd
  have hmarked :
      su.paging.pteAt (adMark .write b' a) a = su.paging.pteAt (adMark .write b a) a := by
    apply pteAt_congr
    intro i hi
    rcases Nat.eq_zero_or_pos i with rfl | hpos
    · rw [show a + BitVec.ofNat 64 0 = a from BitVec.add_zero a]
      simp only [QtRvSim.adMark, Function.update_self]
      rcases h a with hx | ⟨-, hx⟩
      · rw [hx]
      · exact hx
    · -- the other bytes of an entry are not aligned
      have hbytes := Nat.le_of_dvd (by decide) su.paging.rawBytes_dvd
      have hodd : ¬su.paging.rawBytes ∣ (a + BitVec.ofNat 64 i).toNat := by
        rw [BitVec.toNat_add, BitVec.toNat_ofNat, Nat.mod_eq_of_lt (a := i) (by omega),
          Nat.dvd_mod_iff (su.paging.rawBytes_dvd.trans (by decide)), Nat.dvd_add_right ha]
        exact fun hdvd => absurd (Nat.le_of_dvd hpos hdvd) (by omega)
      have hne : a + BitVec.ofNat 64 i ≠ a := fun heq => hodd (heq.symm ▸ ha)
      rw [QtRvSim.adMark, QtRvSim.adMark, Function.update_of_ne hne, Function.update_of_ne hne]
      rcases h (a + BitVec.ofNat 64 i) with hx | ⟨hmem, -⟩
      · exact hx
      · exact absurd (hE _ hmem) hodd
  rw [PagingMode.pteAt_adMark_self, PagingMode.pteAt_adMark_self] at hmarked
  intro i h6 h7
  rw [← withAd_sameApartAd (su.paging.pteAt b' a) .write i h6 h7, hmarked,
    withAd_sameApartAd (su.paging.pteAt b a) .write i h6 h7]

/-- Since the memory `b₀` only entries at `E` were marked, and the TLB holds no others. -/
structure OnlyMarked (su : TlbSetup) (root : Nat) (b₀ : Address → Byte) (E : Set Address) (t : Tlb)
    (m : P) : Prop where
  root_eq : su.paging.rootOf t.currentSatpRaw = root
  tables : ∀ a, su.paging.IsEntry root b₀ a → a ∈ E
  aligned : ∀ a ∈ E, su.paging.rawBytes ∣ a.toNat
  held : ∀ s w, (t.table s w).valid = true →
    (t.table s w).pteBytes = su.paging.rawBytes ∧ (t.table s w).pteAddr ∈ E
  apart : SameApartMarks E b₀ (bytes m)

namespace OnlyMarked

variable {root : Nat} {b₀ : Address → Byte} {E : Set Address} {t : Tlb} {m : P}

theorem formed (h : OnlyMarked su root b₀ E t m) : su.Formed t :=
  fun s w hvalid => ⟨(h.held s w hvalid).1, h.aligned _ (h.held s w hvalid).2⟩

/-- Walks find known entries only. -/
theorem entries_subset (h : OnlyMarked su root b₀ E t m) : su.entries t m ⊆ E := by
  have hsame : su.paging.SameTables root b₀ (bytes m) := sameTables_of_marks h.aligned h.apart
  rintro a (hentry | ⟨s, w, hvalid, rfl⟩)
  · rw [h.root_eq] at hentry
    exact h.tables a (hsame.isEntry hentry)
  · exact (h.held s w hvalid).2

theorem translateAndMark (h : OnlyMarked su root b₀ E t m) (vaddr : AddressWithMode)
    (op : AccessOp) :
    OnlyMarked su root b₀ E (su.translateAndMark vaddr op t m).2.1
      (su.translateAndMark vaddr op t m).2.2 := by
  obtain ⟨hbytes, hheld⟩ := @translateAndMark_entries P _ _ su t m h.formed vaddr op
  refine ⟨?_, h.tables, h.aligned, fun s w hvalid => ?_, ?_⟩
  · rw [show (su.translateAndMark vaddr op t m).2.1.currentSatpRaw = t.currentSatpRaw from
      congrArg Prod.fst (registers_translateAndMark vaddr op t m)]
    exact h.root_eq
  · exact ⟨(hheld s w hvalid).1, h.entries_subset (hheld s w hvalid).2⟩
  · rcases hbytes with hbytes | ⟨-, a, ha, hbytes⟩
    · rw [hbytes]
      exact h.apart
    · rw [hbytes]
      exact h.apart.trans (.adMark (h.entries_subset ha) op _)

theorem of_bytes {m' : P} (h : OnlyMarked su root b₀ E t m) (hbytes : bytes m' = bytes m) :
    OnlyMarked su root b₀ E t m' :=
  ⟨h.root_eq, h.tables, h.aligned, h.held, by rw [hbytes]; exact h.apart⟩

/-- Reads of any size only mark entries. -/
theorem translateAndReadLoop (h : OnlyMarked su root b₀ E t m) (mode : AccessMode) (fuel : Nat)
    (va : BitVec 64) (n : Nat) :
    OnlyMarked su root b₀ E (su.translateAndReadLoop mode fuel va n t m).2.1
      (su.translateAndReadLoop mode fuel va n t m).2.2 := by
  refine su.translateAndReadLoop_inv (OnlyMarked su root b₀ E) ?_ ?_ fuel va n h
  · exact fun virt _ _ h => h.translateAndMark ⟨virt, mode⟩ .read
  · exact fun _ _ _ _ h => h.of_bytes (read_snd ..)

end OnlyMarked

/-- The first page of a write refuses it or holds its bytes already. -/
def FirstPageUnharmed (su : TlbSetup) (b₀ : Address → Byte) (E : Set Address)
    (vaddr : AddressWithMode) (src : List Byte) (t : Tlb) (m : P) : Prop :=
  match (su.translateVirtualToPhysical vaddr t m).1 with
  | .error _ => True
  | .ok tr => SameApartMarks E b₀ (writeBytes b₀ tr.phys (src.take tr.bytesUntilPageEnd))

omit [FlatPhysical P] in
theorem translateAndMark_fst (vaddr : AddressWithMode) (op : AccessOp) (t : Tlb) (m : P) :
    (su.translateAndMark vaddr op t m).1 = (su.translateVirtualToPhysical vaddr t m).1 := by
  rw [translateAndMark]
  generalize su.translateVirtualToPhysical vaddr t m = r
  obtain ⟨result, t', m'⟩ := r
  cases result with
  | error fault => rfl
  | ok tr =>
    dsimp only
    split <;> rfl

omit [FlatPhysical P] in
/-- How far a step of an access may go. -/
theorem translate_until {vaddr : AddressWithMode} {t : Tlb} {m : P} {tr : TranslationResult}
    (hok : (su.translateVirtualToPhysical vaddr t m).1 = .ok tr) :
    tr.bytesUntilPageEnd =
      if su.shouldTranslate t vaddr.mode.priv = true then
        pageBytes - vaddr.address.toNat % 2 ^ 12
      else 2 ^ 64 - 1 := by
  cases hon : su.shouldTranslate t vaddr.mode.priv with
  | false =>
    rw [translate_off hon] at hok
    cases hok
    rfl
  | true =>
    have huntil : (su.translateAndMark vaddr .read t m).1 = .ok tr :=
      (translateAndMark_fst ..).trans hok
    rw [if_pos rfl, translateAndMark_bytes hon huntil, offset_toNat]

/-- Marks and the bytes of a write do not depend on each other. -/
theorem sameApartMarks_write_iff {b₀ b : Address → Byte} (h : SameApartMarks E b₀ b) (a : Address)
    (bs : List Byte) :
    SameApartMarks E b₀ (writeBytes b a bs) ↔ SameApartMarks E b₀ (writeBytes b₀ a bs) := by
  have hin {x : Address} (hx : (x - a).toNat < bs.length) :
      writeBytes b a bs x = writeBytes b₀ a bs x := by
    rw [writeBytes, writeBytes, List.getD_eq_getElem _ _ hx, List.getD_eq_getElem _ _ hx]
  constructor
  · intro hwrite x
    by_cases hx : (x - a).toNat < bs.length
    · rw [← hin hx]
      exact hwrite x
    · exact .inl (writeBytes_of_outside b₀ (Nat.not_lt.mp hx))
  · intro hwrite x
    by_cases hx : (x - a).toNat < bs.length
    · rw [hin hx]
      exact hwrite x
    · rw [writeBytes_of_outside b (Nat.not_lt.mp hx)]
      exact h x

/-- An access fits into the page of its address, or is not translated. -/
def FitsPage (su : TlbSetup) (t : Tlb) (vaddr : AddressWithMode) (n : Nat) : Prop :=
  if su.shouldTranslate t vaddr.mode.priv = true then
    vaddr.address.toNat % 2 ^ 12 + n ≤ pageBytes
  else n ≤ 2 ^ 64 - 1

variable {src : List Byte}

/-- A faulting write to one page changes nothing. -/
theorem translateAndWriteLoop_fault {mode : AccessMode} {fuel : Nat} {va : BitVec 64}
    (hformed : su.Formed t) (hfits : su.FitsPage t ⟨va, mode⟩ src.length)
    (hfault : ∃ fault, (su.translateAndWriteLoop mode fuel va src t m).1 = .error fault) :
    bytes (su.translateAndWriteLoop mode fuel va src t m).2.2 = bytes m := by
  cases fuel with
  | zero =>
    obtain ⟨_, hfault⟩ := hfault
    cases hfault
  | succ fuel =>
    have hmark := (@translateAndMark_entries P _ _ su t m hformed ⟨va, mode⟩ .write).1
    have hfst := @translateAndMark_fst P _ su ⟨va, mode⟩ .write t m
    have huntil := fun tr => @translate_until P _ su ⟨va, mode⟩ t m tr
    rw [← hfst] at huntil
    rw [translateAndWriteLoop] at hfault ⊢
    by_cases hempty : src.length = 0
    · rw [if_pos hempty]
    · rw [if_neg hempty] at hfault ⊢
      generalize su.translateAndMark ⟨va, mode⟩ .write t m = r at hmark hfault huntil ⊢
      obtain ⟨result, t', m'⟩ := r
      cases result with
      | error fault =>
        rcases hmark with hbytes | ⟨⟨tr, hok⟩, -⟩
        · exact hbytes
        · cases hok
      | ok tr =>
        -- the whole write is made in one step
        have hall : min src.length tr.bytesUntilPageEnd = src.length := by
          rw [huntil tr rfl]
          rw [FitsPage] at hfits
          split at hfits
          next hon =>
            rw [if_pos hon]
            dsimp only at hfits ⊢
            omega
          next hoff =>
            rw [if_neg hoff]
            omega
        dsimp only at hfault
        rw [hall, List.drop_length, translateAndWriteLoop_nil] at hfault
        obtain ⟨_, hfault⟩ := hfault
        cases hfault

theorem take_min_length {α : Type} (l : List α) (n : Nat) :
    l.take (min l.length n) = l.take n := by
  rcases Nat.le_total l.length n with h | h
  · rw [Nat.min_eq_left h, List.take_length, List.take_of_length_le h]
  · rw [Nat.min_eq_right h]

/-- A faulting write of at most a page ends at its first or at its second page. -/
theorem translateAndWrite_fault {vaddr : AddressWithMode} (hformed : su.Formed t)
    (hsize : src.length ≤ pageBytes)
    (hfault : ∃ fault, (su.translateAndWrite vaddr src t m).1 = .error fault) :
    (∃ fault, (su.translateVirtualToPhysical vaddr t m).1 = .error fault) ∧
        bytes (su.translateAndWrite vaddr src t m).2.2 = bytes m ∨
      ∃ tr, (su.translateVirtualToPhysical vaddr t m).1 = .ok tr ∧
        bytes (su.translateAndWrite vaddr src t m).2.2 =
          writeBytes (bytes (su.translateAndMark vaddr .write t m).2.2) tr.phys
            (src.take tr.bytesUntilPageEnd) := by
  obtain ⟨hmark, hheld⟩ := @translateAndMark_entries P _ _ su t m hformed vaddr .write
  have hfst := @translateAndMark_fst P _ su vaddr .write t m
  have huntil := fun tr => @translate_until P _ su vaddr t m tr
  have hstill := @shouldTranslate_translateAndMark P _ su vaddr .write t m vaddr.mode.priv
  have hlt := vaddr.address.isLt
  rw [← hfst] at huntil ⊢
  rw [translateAndWrite] at hfault ⊢
  cases hlength : src.length with
  | zero =>
    rw [hlength] at hfault
    obtain ⟨_, hfault⟩ := hfault
    cases hfault
  | succ n =>
    rw [hlength, translateAndWriteLoop, if_neg (by omega)] at hfault
    rw [translateAndWriteLoop, if_neg (by omega)]
    generalize su.translateAndMark vaddr .write t m = r
      at hmark hheld hfault huntil hstill ⊢
    obtain ⟨result, t', m'⟩ := r
    cases result with
    | error fault =>
      refine .inl ⟨⟨fault, rfl⟩, ?_⟩
      rcases hmark with hbytes | ⟨⟨tr, hok⟩, -⟩
      · exact hbytes
      · cases hok
    | ok tr =>
      refine .inr ⟨tr, rfl, ?_⟩
      dsimp only at hfault hheld hstill ⊢
      have hformed' : su.Formed t' := fun s w hvalid =>
        ⟨(hheld s w hvalid).1, hformed.dvd_of_entries (hheld s w hvalid).2⟩
      have hfits : su.FitsPage t' ⟨vaddr.address + BitVec.ofNat 64
          (min src.length tr.bytesUntilPageEnd), vaddr.mode⟩
          (src.drop (min src.length tr.bytesUntilPageEnd)).length := by
        rw [FitsPage, hstill, List.length_drop, huntil tr rfl]
        rw [pageBytes, pageShift] at hsize ⊢
        split
        next =>
          dsimp only
          rw [BitVec.toNat_add, BitVec.toNat_ofNat]
          omega
        next => omega
      rw [translateAndWriteLoop_fault hformed' hfits hfault, FlatPhysical.write, take_min_length]

/-- A write that faults has only marked entries exactly if its first page is unharmed. -/
theorem OnlyMarked.translateAndWrite_iff {root : Nat} {b₀ : Address → Byte}
    (h : OnlyMarked su root b₀ E t m) {vaddr : AddressWithMode} (hsize : src.length ≤ pageBytes)
    (hfault : ∃ fault, (su.translateAndWrite vaddr src t m).1 = .error fault) :
    SameApartMarks E b₀ (bytes (su.translateAndWrite vaddr src t m).2.2) ↔
      FirstPageUnharmed su b₀ E vaddr src t m := by
  rw [FirstPageUnharmed]
  rcases translateAndWrite_fault h.formed hsize hfault with
    ⟨⟨fault, hfirst⟩, hbytes⟩ | ⟨tr, hfirst, hbytes⟩
  · rw [hfirst, hbytes]
    exact iff_of_true h.apart trivial
  · rw [hfirst, hbytes]
    exact sameApartMarks_write_iff (h.translateAndMark vaddr .write).apart _ _

end TlbSetup

/-! ### Stores, store-conditionals and atomic memory operations -/

section Stage

variable {vm : VmSetup} {P : Type} [PhysicalMemory P] {cfg : CoreConfig} {dt : ExecuteInterstage}
  {core : Core (VirtualMemory vm P)}

/-- The bytes that an instruction is about to write, with the memory in front of the write.  An
atomic memory operation reads its operand first. -/
def storeRequest (cfg : CoreConfig) (k : MemInstruction) (dt : ExecuteInterstage)
    (core : Core (VirtualMemory vm P)) : Access (VirtualMemory vm P) (List Byte) :=
  let address := memAddress cfg dt core
  let size := accessSize dt.memctl
  if k = .amo then
    if size = 4 then
      mapAccess (fun fetched => bytesOfValue cfg.endian 4
          (amo32Operations dt.memctl fetched (dt.valRt.setWidth 32)).toNat)
        (readGeneric 32 cfg.endian .data address core.mem)
    else
      mapAccess (fun fetched => bytesOfValue cfg.endian 8
          (amo64Operations dt.memctl fetched dt.valRt).toNat)
        (readGeneric 64 cfg.endian .data address core.mem)
  else (.ok (bytesOfValue cfg.endian size (dt.valRt.setWidth (8 * size)).toNat), core.mem)

/-- The access writes what was requested: the same faults and the same memory. -/
def Writes (address : AddressWithMode) (request : Access (VirtualMemory vm P) (List Byte))
    (r : Access (Core (VirtualMemory vm P)) RegisterValue) : Prop :=
  match request with
  | (.error fault, m) => r.1 = .error fault ∧ r.2.mem = m
  | (.ok bs, m) => r.2.mem = (write .data address bs m).2 ∧
      ∀ fault, r.1 = .error fault ↔ (write .data address bs m).1 = .error fault

/-- A script that ends with a write. -/
theorem writes_of_write {bytes : List Byte} {value : RegisterValue}
    (hscript : accessScript cfg dt core = .write bytes (.answer value)) :
    Writes (memAddress cfg dt core) (.ok bytes, core.mem) (performAccess cfg dt core) := by
  rw [performAccess_eq, hscript, run]
  dsimp only [Writes]
  generalize write .data (memAddress cfg dt core) bytes core.mem = w
  obtain ⟨result, m'⟩ := w
  cases result with
  | error | ok => exact ⟨rfl, fun _ => by simp [accessed, run]⟩

/-- A script that writes what it has computed from the bytes it read. -/
theorem writes_of_modify {size : Nat} {bytes : List Byte → List Byte}
    {value : List Byte → RegisterValue}
    (hscript : accessScript cfg dt core =
      .read size fun fetched => .write (bytes fetched) (.answer (value fetched))) :
    Writes (memAddress cfg dt core)
      (mapAccess bytes (read .data (memAddress cfg dt core) size core.mem))
      (performAccess cfg dt core) := by
  rw [performAccess_eq, hscript, run]
  generalize read .data (memAddress cfg dt core) size core.mem = r
  obtain ⟨result, m⟩ := r
  cases result with
  | error fault => exact ⟨rfl, rfl⟩
  | ok fetched =>
    dsimp only [mapAccess, Writes, run]
    generalize write .data (memAddress cfg dt core) (bytes fetched) m = w
    obtain ⟨result, m'⟩ := w
    cases result with
    | error | ok => exact ⟨rfl, fun _ => by simp [accessed]⟩

theorem mapAccess_readGeneric {α : Type} {width : Nat} (f : BitVec width → α) (endian : Endian)
    (address : AddressWithMode) (s : VirtualMemory vm P) :
    mapAccess f (readGeneric width endian .data address s) =
      mapAccess (fun bytes => f (.ofNat width (valueOfBytes endian bytes)))
        (read .data address (width / 8) s) := by
  rw [readGeneric]
  generalize read .data address (width / 8) s = r
  obtain ⟨result, s'⟩ := r
  cases result <;> rfl

theorem storeRequest_amo
    (hsignals : MemInstruction.amo.Signals dt.memctl dt.memread dt.memwrite dt.amo) :
    storeRequest cfg .amo dt core = mapAccess (amoBytes cfg.endian dt)
      (read .data (memAddress cfg dt core) (accessSize dt.memctl) core.mem) := by
  unfold storeRequest amoBytes
  rw [if_pos rfl]
  rcases amoSize_of_signals hsignals with hsize | hsize
  · rw [if_pos hsize, mapAccess_readGeneric, hsize]
    rfl
  · rw [if_neg (by omega), mapAccess_readGeneric, hsize]
    rfl

/-- A store, a store-conditional that holds its reservation and an atomic memory operation write
what they request. -/
theorem performAccess_writes {k : MemInstruction} (hkind : k.op = .write)
    (hsignals : k.Signals dt.memctl dt.memread dt.memwrite dt.amo)
    (hreserved : k = .storeConditional → HoldsReservation cfg dt core) :
    Writes (memAddress cfg dt core) (storeRequest cfg k dt core) (performAccess cfg dt core) := by
  obtain ⟨-, hscript⟩ := accessScript_performs hsignals hreserved
  cases k with
  | load | loadReserved => exact absurd hkind (by decide)
  | store | storeConditional =>
    obtain ⟨value, hscript⟩ := hscript
    exact writes_of_write hscript
  | amo =>
    obtain ⟨value, hscript⟩ := hscript
    rw [storeRequest_amo hsignals]
    exact writes_of_modify hscript

/-! ### Faulting instructions -/

variable [FlatPhysical P]

/-- No byte differs, apart from accessed and dirty bits of page-table entries. -/
def Unharmed (s s' : VirtualMemory vm P) : Prop :=
  SameApartMarks (vm.data.entries s.tlbData s.mem) (bytes s.mem) (bytes s'.mem)

/-- The first page of the access refuses it or holds the requested bytes already; an atomic memory
operation may also fail to read its operand. -/
def StoreUnharmed (cfg : CoreConfig) (k : MemInstruction) (dt : ExecuteInterstage)
    (core : Core (VirtualMemory vm P)) : Prop :=
  match storeRequest cfg k dt core with
  | (.error _, _) => True
  | (.ok bs, s) => TlbSetup.FirstPageUnharmed vm.data (bytes core.mem.mem)
      (vm.data.entries core.mem.tlbData core.mem.mem) (memAddress cfg dt core) bs s.tlbData s.mem

omit [PhysicalMemory P] [FlatPhysical P] in
theorem storeRequest_length [PhysicalMemory P] {k : MemInstruction} {bs : List Byte}
    {s : VirtualMemory vm P} (h : storeRequest cfg k dt core = (.ok bs, s)) :
    bs.length ≤ 8 := by
  have hmap {α : Type} {f : α → List Byte} {r : Access (VirtualMemory vm P) α}
      (hf : ∀ a, (f a).length ≤ 8) (hr : mapAccess f r = (.ok bs, s)) : bs.length ≤ 8 := by
    obtain ⟨result, m⟩ := r
    cases result with
    | error => cases hr
    | ok a =>
      cases hr
      exact hf a
  have hsize : accessSize dt.memctl ≤ 8 := by cases dt.memctl <;> decide
  rw [storeRequest] at h
  split at h
  · split at h <;> exact hmap (fun _ => by simp) h
  · cases h
    rw [bytesOfValue_length]
    exact hsize

/-- Up to the write, entries are only marked. -/
theorem storeRequest_onlyMarked (hformed : vm.data.Formed core.mem.tlbData) (k : MemInstruction) :
    TlbSetup.OnlyMarked vm.data (vm.data.paging.rootOf core.mem.tlbData.currentSatpRaw)
      (bytes core.mem.mem) (vm.data.entries core.mem.tlbData core.mem.mem)
      (storeRequest cfg k dt core).2.tlbData (storeRequest cfg k dt core).2.mem := by
  have hstart : TlbSetup.OnlyMarked vm.data
      (vm.data.paging.rootOf core.mem.tlbData.currentSatpRaw) (bytes core.mem.mem)
      (vm.data.entries core.mem.tlbData core.mem.mem) core.mem.tlbData core.mem.mem :=
    ⟨rfl, fun _ ha => .inl ha, fun _ ha => hformed.dvd_of_entries ha,
      fun s w hvalid => ⟨(hformed s w hvalid).1, .inr ⟨s, w, hvalid, rfl⟩⟩, .refl _ _⟩
  have hread {α : Type} {width : Nat} (f : BitVec width → α) :
      TlbSetup.OnlyMarked vm.data (vm.data.paging.rootOf core.mem.tlbData.currentSatpRaw)
        (bytes core.mem.mem) (vm.data.entries core.mem.tlbData core.mem.mem)
        (mapAccess f (readGeneric width cfg.endian .data (memAddress cfg dt core)
          core.mem)).2.tlbData
        (mapAccess f (readGeneric width cfg.endian .data (memAddress cfg dt core)
          core.mem)).2.mem := by
    have hloop := hstart.translateAndReadLoop (memAddress cfg dt core).mode (width / 8)
      (memAddress cfg dt core).address (width / 8)
    rw [readGeneric]
    dsimp only [FrontendMemory.read, TlbSetup.translateAndRead, VirtualMemory.setup,
      VirtualMemory.tlb, VirtualMemory.put]
    generalize vm.data.translateAndReadLoop (memAddress cfg dt core).mode (width / 8)
      (memAddress cfg dt core).address (width / 8) core.mem.tlbData core.mem.mem = r at hloop ⊢
    obtain ⟨result, t', m'⟩ := r
    cases result <;> exact hloop
  rw [storeRequest]
  split
  · split <;> exact hread _
  · exact hstart

omit [FlatPhysical P] in
/-- A store-conditional without a reservation raises no fault. -/
theorem holdsReservation_of_fault
    (hsignals : MemInstruction.storeConditional.Signals dt.memctl dt.memread dt.memwrite dt.amo)
    {fault : PageFault} (hfault : (performAccess cfg dt core).1 = .error fault) :
    HoldsReservation cfg dt core := by
  obtain ⟨hctl, hwrite⟩ := hsignals
  by_contra hlost
  rw [HoldsReservation] at hlost
  rw [performAccess] at hfault
  rcases hctl with hctl | hctl
  · rw [hctl] at hlost hfault
    rw [if_pos (by decide), memorySpecial, if_neg (by simp [hwrite])] at hfault
    rw [storeConditional, if_neg (by exact hlost)] at hfault
    cases hfault
  · rw [hctl] at hlost hfault
    rw [if_pos (by decide), memorySpecial, if_neg (by simp [hwrite])] at hfault
    rw [storeConditional, if_neg (by exact hlost)] at hfault
    cases hfault

/-- A store, store-conditional or atomic memory operation that ends in a page fault leaves the
memory, apart from accessed and dirty bits of page-table entries, exactly if its first page refuses
it or holds the bytes already. -/
theorem faulting_store_unharmed_iff (cfg : CoreConfig) (core : Core (VirtualMemory vm P))
    (dt : ExecuteInterstage) (inst : Instruction) (k : MemInstruction)
    (hcarries : Carries dt inst) (hsupported : inst.flags.has .supported = true)
    (hk : inst.memInstruction = some k) (hkind : k.op = .write)
    (hformed : vm.data.Formed core.mem.tlbData) (hexcause : dt.excause = .none)
    (hfault : (memoryAccess cfg dt core).1.excause ≠ .none) :
    Unharmed core.mem (memoryAccess cfg dt core).2.mem ↔ StoreUnharmed cfg k dt core := by
  have hsignals := Instruction.memInstruction_signals hsupported hk
  rw [← hcarries.memctl, ← hcarries.memread, ← hcarries.memwrite, ← hcarries.amo] at hsignals
  have hholds (fault : PageFault) (h : (performAccess cfg dt core).1 = .error fault)
      (hsc : k = .storeConditional) : HoldsReservation cfg dt core := by
    subst hsc
    exact holdsReservation_of_fault hsignals h
  have hwrites := @performAccess_writes vm P _ cfg dt core k hkind hsignals
  rw [memoryAccess, if_neg (not_not.mpr hexcause)] at hfault ⊢
  generalize performAccess cfg dt core = r at hfault hwrites hholds ⊢
  obtain ⟨result, core'⟩ := r
  cases result with
  | ok value => exact absurd rfl hfault
  | error fault =>
    have hwrites := hwrites (hholds fault rfl)
    have hmarked := @storeRequest_onlyMarked vm P _ cfg dt core _ hformed k
    have hlength := fun bs s => @storeRequest_length vm P cfg dt core _ k bs s
    rw [StoreUnharmed]
    dsimp only at hwrites ⊢
    generalize storeRequest cfg k dt core = request at hwrites hmarked hlength ⊢
    obtain ⟨requested, s⟩ := request
    cases requested with
    | error fault' =>
      rw [Unharmed, hwrites.2]
      exact iff_of_true hmarked.apart trivial
    | ok bs =>
      rw [Unharmed, hwrites.1]
      have hsize : bs.length ≤ pageBytes := (hlength bs s rfl).trans (by decide)
      exact hmarked.translateAndWrite_iff hsize ⟨fault, (hwrites.2 fault).mp rfl⟩

end Stage

theorem userCore_formed (permissions : Byte) :
    smallVm.data.Formed (userCore permissions).mem.tlbData :=
  fun _ _ hvalid => absurd (show false = true from hvalid) Bool.false_ne_true

/-- `sw x5, 0(x2)` to a page that may only be read. -/
theorem faulting_store_unharmed_readOnly :
    Unharmed (userCore 0x2).mem
      (memoryAccess (.rv64 .none) (accessing 0x00512023) (userCore 0x2)).2.mem := by
  refine (faulting_store_unharmed_iff (.rv64 .none) (userCore 0x2) (accessing 0x00512023) 0x00512023
    .store (carries_execute ..) (by decide +kernel) (by decide +kernel) rfl (userCore_formed 0x2)
    (by decide +kernel) (by decide +kernel)).mpr ?_
  rw [StoreUnharmed, storeRequest, if_neg (by decide)]
  have hrefused : ((smallVm.data.translateVirtualToPhysical
      (memAddress (.rv64 .none) (accessing 0x00512023) (userCore 0x2)) (userCore 0x2).mem.tlbData
      (userCore 0x2).mem.mem).1).isOk = false := by
    decide +kernel
  dsimp only
  rw [TlbSetup.FirstPageUnharmed]
  generalize (smallVm.data.translateVirtualToPhysical
    (memAddress (.rv64 .none) (accessing 0x00512023) (userCore 0x2)) (userCore 0x2).mem.tlbData
    (userCore 0x2).mem.mem).1 = result at hrefused ⊢
  cases result with
  | ok tr => cases hrefused
  | error fault => trivial

/-- `sw x5, 0(x2)` across the end of the mapped gigabyte. -/
def crossingStore : ExecuteInterstage :=
  execute (decodeInterstage (.rv64 .none) { inst := 0x00512023, isValid := true } .unprivileged
    0x3ffffffe 5 0)

/-- The store ends in a page fault, yet its first byte has been written. -/
theorem crossing_store_harms :
    Instruction.memInstruction 0x00512023 = some .store ∧
    (memoryAccess (.rv64 .none) crossingStore (userCore 0x6)).1.excause = .storePageFault ∧
    ¬Unharmed (userCore 0x6).mem
      (memoryAccess (.rv64 .none) crossingStore (userCore 0x6)).2.mem := by
  refine ⟨by decide, by decide +kernel, fun h => ?_⟩
  have hbefore : bytes (userCore 0x6).mem.mem 0x3ffffffe = 0 := by decide +kernel
  have hafter : bytes (memoryAccess (.rv64 .none) crossingStore (userCore 0x6)).2.mem.mem
      0x3ffffffe = 5 := by
    decide +kernel
  have hbyte := h 0x3ffffffe
  rw [hbefore, hafter] at hbyte
  rcases hbyte with hsame | ⟨-, hmarks⟩
  · exact absurd hsame (by decide)
  · exact absurd hmarks (by decide)

end QtRvSim
