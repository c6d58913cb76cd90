import QtRvSim.Core.MemoryCalls
import QtRvSim.Core.Reset
import QtRvSim.Refinement.CacheLevels
import QtRvSim.Refinement.TlbTransparency

/-!
# Instruction fetches after a `fence.i`

A `fence.i` writes the data cache back into the second level and this into the backing memory, and
empties the program cache.  Until a location is stored to again, every copy that any cache makes of
it has the stored bytes.
-/

namespace QtRvSim

open FrontendMemory PhysicalMemory MemCall AddressMap TlbSetup

namespace CacheConfigs

/-- The geometries of the enabled caches fit into 32 bits. -/
structure Fit (cc : CacheConfigs) : Prop where
  program : cc.program.enabled = true → cc.program.FitsWord
  data : cc.data.enabled = true → cc.data.FitsWord
  level2 : cc.level2.enabled = true → cc.level2.FitsWord

/-- The cache keeps stored bytes back from the memory below it. -/
def WritesBack (cfg : CacheConfig) : Prop :=
  cfg.enabled = true ∧ cfg.writePolicy = .back

/-- The data cache writes a block back into the second level through the lines of that. -/
def BlockBelow (cc : CacheConfigs) (x : Nat) : Prop :=
  WritesBack cc.data → cc.level2.enabled = true →
    cc.data.blockOf x + cc.data.blockBytes < uncachedStart

/-- A store that no later write back overtakes: it lies below the uncached window, it does not go
past a cache that keeps stored bytes back, and the blocks of the data cache reach the second level
through its lines. -/
structure Settles (cc : CacheConfigs) (a n : Nat) : Prop where
  below : a + n ≤ uncachedStart
  cached : WritesBack cc.data ∨ WritesBack cc.level2 → a + n < uncachedStart
  block : ∀ x, a ≤ x → x < a + n → cc.BlockBelow x

variable {cc : CacheConfigs}

def secondLevel (hfit : cc.Fit) : Level (Nat → Byte) where
  cfg := cc.level2
  view := flatView
  Kept x := x < uncachedStart
  Exact := WritesBack cc.level2 ∨ WritesBack cc.data
  fits := hfit.level2
  low h := h
  exact_back he hback _ _ := .inl ⟨he, hback⟩
  exact_view _ := trivial
  serves _ _ _ _ := trivial

def dataLevel (hfit : cc.Fit) : Level (LevelCache cc.level2 (Nat → Byte)) where
  cfg := cc.data
  view := (secondLevel hfit).asView fun _ => Iff.rfl
  Kept x := x < uncachedStart ∧ cc.BlockBelow x
  Exact := WritesBack cc.data
  fits := hfit.data
  low hx := hx.1
  exact_back he hback _ _ := ⟨he, hback⟩
  exact_view h := .inr h
  serves _ hexact x hx := by
    refine ⟨fun he => ?_, trivial⟩
    have hblock : cc.data.blockOf x + cc.data.blockBytes < uncachedStart := hx.2 hexact he
    exact ⟨Nat.le_of_lt hblock, fun _ => hblock⟩

/-- A copy of a byte: one of a location that was not stored to has the byte of the content. -/
def Good (cc : CacheConfigs) (f : Nat → Byte) (W : Nat → Prop) (x : Nat) (v : Byte) : Prop :=
  x < uncachedStart → cc.BlockBelow x → ¬W x → v = f x

theorem withinSpace_good (f : Nat → Byte) (W : Nat → Prop) : WithinSpace (cc.Good f W) := by
  intro x v hx hlow
  rw [uncachedStart] at hlow
  omega

end CacheConfigs

namespace CachedMemory

open CacheConfigs

variable {cc : CacheConfigs} {s : CachedMemory cc}

section Ports

variable (port : MemPort) {a : Address} {c : Cache (LevelCache cc.level2 (Nat → Byte))}

theorem read_eq {n : Nat} {bs : List Byte}
    (h : (s.cache port).read (cc.port port) .regular a.toNat n = (.ok bs, c)) :
    read port a n s = (bs, s.put port c) :=
  congrArg (fun x => (readResult x.1, s.put port x.2)) h

theorem write_eq {bs : List Byte} {r : WriteResult}
    (h : (s.cache port).write (cc.port port) .regular a.toNat bs = (.ok r, c)) :
    write port a bs s = s.put port c :=
  congrArg (fun x => s.put port x.2) h

theorem sync_eq (h : (s.cache port).sync (cc.port port) = (.ok (), c)) :
    sync port s = s.put port c :=
  congrArg (fun x => s.put port x.2) h

end Ports

/-- The data cache shows a content, and every copy of a byte is good. -/
structure Present (l : Level (LevelCache cc.level2 (Nat → Byte))) (G : Nat → Byte → Prop)
    (f : Nat → Byte) (s : CachedMemory cc) : Prop where
  data : l.Present G f (s.cache .data)
  program : cc.program.enabled = true → ReadOnly cc.program G s.cchProgram

theorem readOnly_of_lines {cfg : CacheConfig} {G : Nat → Byte → Prop} {B B' : Type} {c : Cache B}
    {c' : Cache B'} (h : ReadOnly cfg G c) (hdt : c'.dt = c.dt)
    (hpolicy : c'.replacementPolicy = c.replacementPolicy) : ReadOnly cfg G c' where
  shape := ⟨hpolicy ▸ h.shape.policy, hdt ▸ h.shape.place, hdt ▸ h.shape.base,
    hdt ▸ h.shape.length, hdt ▸ h.shape.unique, hdt ▸ h.shape.clean⟩
  bytes := by
    rw [Cache.LineBytes, hdt]
    exact h.bytes
  clean := by
    simp only [Cache.WritesBack, hdt]
    exact h.clean

namespace Present

variable {l : Level (LevelCache cc.level2 (Nat → Byte))} {G G' : Nat → Byte → Prop}
  {f : Nat → Byte} (h : Present l G f s) (hl : l.cfg = cc.data) (hG : l.view.Space G)
include h

theorem mono (hmono : ∀ x v, G x v → G' x v) : Present l G' f s :=
  ⟨h.data.mono hmono, fun he => ⟨(h.program he).shape, (h.program he).bytes.mono hmono,
    (h.program he).clean⟩⟩

include hl

/-- A store into the uncached window. -/
theorem write_window (hwindow : ∀ x v, uncachedStart ≤ x → G x v) {a : Address} (bs : List Byte)
    (harea : Cache.isInUncachedArea a.toNat = true) :
    Present l G f (write .data a bs s) := by
  obtain ⟨r, c, hwrite, hpresent⟩ := h.data.pass hwindow bs harea
  rw [hl] at hwrite
  rw [write_eq .data hwrite]
  exact ⟨hpresent, h.program⟩

include hG

/-- A load of the core. -/
theorem read_data (a : Address) (n : Nat) : Present l G f (read .data a n s).2 := by
  obtain ⟨bs, c, hread, -, hpresent, -⟩ := h.data.read hG n a.isLt
  rw [hl] at hread
  rw [read_eq .data hread]
  exact ⟨hpresent, h.program⟩

/-- A store of the core. -/
theorem write_data {a : Address} {bs : List Byte} (hserves : l.view.Serves a.toNat bs.length)
    (hrange : a.toNat + bs.length < 2 ^ 64)
    (hgood : ∀ j < bs.length, G (a.toNat + j) (bs.getD j 0))
    (hkept : ∀ j < bs.length, l.Kept (a.toNat + j))
    (hlines : l.Exact → a.toNat + bs.length < uncachedStart) :
    Present l G (write f a.toNat bs) (write .data a bs s) := by
  obtain ⟨r, c, hwrite, hpresent⟩ := h.data.write hG hserves hrange hgood (fun _ => hkept)
    fun _ => hlines
  rw [hl] at hwrite
  rw [write_eq .data hwrite]
  exact ⟨hpresent, h.program⟩

/-- The first half of a `fence.i` leaves the data cache empty. -/
theorem sync_data : Present l G f (sync .data s) ∧
    (cc.data.enabled = true →
      ∀ way row, ((sync .data s).cchData.dt way row).valid = false) := by
  obtain ⟨c, hsync, hpresent, -, hempty⟩ := h.data.sync hG
  rw [hl] at hsync hempty
  rw [sync_eq .data hsync]
  exact ⟨⟨hpresent, h.program⟩, hempty⟩

omit hl

variable (hfits : cc.program.enabled = true → cc.program.FitsWord)
include hfits

/-- A fetch. -/
theorem read_program (a : Address) (n : Nat) :
    (read .program a n s).1.length = n ∧
      (∀ j < n, a.toNat + j < 2 ^ 64 →
        G (a.toNat + j) ((read .program a n s).1.getD j 0)) ∧
      Present l G f (read .program a n s).2 := by
  obtain ⟨g, hshows, heq⟩ := h.data.mem
  have hprogram : (readLevel l.view g cc.program hfits).Present G g (s.cache .program) :=
    ReadOnly.present (fun he => readOnly_of_lines (h.program he) rfl rfl) hshows
  obtain ⟨bs, c, hread, hlength, hpresent, hgood, -⟩ := hprogram.read hG n a.isLt
  obtain ⟨hlines, hmem⟩ := hpresent.readOnly
  rw [read_eq .program hread]
  exact ⟨hlength, hgood, h.data.below heq hmem _, fun he => readOnly_of_lines (hlines he) rfl rfl⟩

/-- The second half empties the program cache and the second level. -/
theorem sync_program : Present l G f (sync .program s) ∧
    (sync .program s).cchData = s.cchData ∧
    l.view.Settled ⟨(sync .program s).cchLevel2⟩ ∧
    (cc.program.enabled = true →
      ∀ way row, ((sync .program s).cchProgram.dt way row).valid = false) := by
  obtain ⟨g, hshows, heq⟩ := h.data.mem
  have hprogram : (readLevel l.view g cc.program hfits).Present G g (s.cache .program) :=
    ReadOnly.present (fun he => readOnly_of_lines (h.program he) rfl rfl) hshows
  obtain ⟨c, hsync, hpresent, hsettled, hempty⟩ := hprogram.sync hG
  obtain ⟨hlines, hmem⟩ := hpresent.readOnly
  rw [sync_eq .program hsync]
  exact ⟨⟨h.data.below heq hmem _, fun he => readOnly_of_lines (hlines he) rfl rfl⟩, rfl,
    hsettled, hempty⟩

end Present

theorem present_new {l : Level (LevelCache cc.level2 (Nat → Byte))} {G : Nat → Byte → Prop}
    (lib : CLibrary) {mem : Nat → Byte} (hl : l.cfg = cc.data)
    (hlevel2 : l.view.Shows G mem ⟨Cache.new lib cc.level2 mem⟩) :
    Present l G mem (CachedMemory.new lib cc mem) := by
  refine ⟨?_, fun _ => ⟨Cache.Shape.new lib _ _, fun _ _ hv => absurd hv Bool.false_ne_true,
    fun _ _ hback => absurd hback.1 Bool.false_ne_true⟩⟩
  have hdata := Level.present_new lib hlevel2
  rwa [hl] at hdata

variable {hfit : cc.Fit} {f : Nat → Byte} {W : Nat → Prop}

variable (hfit) in
/-- The caches hold the content `f`, and every copy of a location outside of `W` is up to date. -/
def Holds (f : Nat → Byte) (W : Nat → Prop) (s : CachedMemory cc) : Prop :=
  Present (dataLevel hfit) (cc.Good f W) f s

theorem holds_new (lib : CLibrary) (mem : Nat → Byte) (W : Nat → Prop) :
    Holds hfit mem W (CachedMemory.new lib cc mem) := by
  have hshows : flatView.Shows (cc.Good mem W) mem mem :=
    ⟨fun x _ _ _ => rfl, fun x _ => rfl⟩
  have hsecond : (secondLevel hfit).Present (cc.Good mem W) mem (Cache.new lib cc.level2 mem) :=
    Level.present_new lib hshows
  exact present_new lib rfl hsecond

theorem space_good (f : Nat → Byte) (W : Nat → Prop) :
    (dataLevel hfit).view.Space (cc.Good f W) :=
  ⟨withinSpace_good f W, trivial⟩

variable (h : Holds hfit f W s)
include h

theorem Holds.read_port (port : MemPort) (a : Address) (n : Nat) :
    Holds hfit f W (read port a n s).2 := by
  cases port with
  | program => exact (Present.read_program h (space_good f W) hfit.program a n).2.2
  | data => exact Present.read_data h rfl (space_good f W) a n

/-- A fetch returns good bytes. -/
theorem Holds.read_program (a : Address) (n : Nat) :
    (read .program a n s).1.length = n ∧
      ∀ j < n, cc.Good f W (a.toNat + j) ((read .program a n s).1.getD j 0) := by
  obtain ⟨hlength, hgood, -⟩ := Present.read_program h (space_good f W) hfit.program a n
  exact ⟨hlength, fun j hj => (Nat.lt_or_ge _ _).elim (hgood j hj) (withinSpace_good f W _ _)⟩

theorem Holds.sync_port (port : MemPort) : Holds hfit f W (sync port s) := by
  cases port with
  | program => exact (Present.sync_program h (space_good f W) hfit.program).1
  | data => exact (Present.sync_data h rfl (space_good f W)).1

/-- A store of the core. -/
theorem Holds.write_data {a : Address} {bs : List Byte}
    (hwrite : cc.Settles a.toNat bs.length ∨ Cache.isInUncachedArea a.toNat = true) :
    Holds hfit (write f a.toNat bs)
      (fun x => W x ∨ a.toNat ≤ x ∧ x < a.toNat + bs.length)
      (write .data a bs s) := by
  have hweaker (x : Nat) (v : Byte) (hv : cc.Good f W x v) : cc.Good (write f a.toNat bs)
      (fun x => W x ∨ a.toNat ≤ x ∧ x < a.toNat + bs.length) x v := by
    intro hlow hblock hout
    rw [write_of_outside _ fun hin => hout (.inr hin)]
    exact hv hlow hblock fun hw => hout (.inl hw)
  have hnext := Present.mono h hweaker
  rcases hwrite with hsettles | harea
  · have hbelow := hsettles.below
    rw [uncachedStart] at hbelow
    exact hnext.write_data rfl (space_good _ _)
      ⟨fun _ => ⟨hsettles.below, fun hexact => hsettles.cached hexact.symm⟩, trivial⟩ (by omega)
      (fun j hj _ _ hout => absurd (.inr (by omega)) hout)
      (fun j hj => ⟨by rw [uncachedStart]; omega, hsettles.block _ (by omega) (by omega)⟩)
      fun hexact => hsettles.cached (.inl hexact)
  · have hstart := uncachedStart_le harea
    obtain ⟨hdata, hprogram⟩ := hnext.write_window rfl
      (fun x v hx hlow => absurd hlow (by omega)) bs harea
    exact ⟨hdata.congr fun x hx => (write_of_lt _ _ (by have := hx.1; omega)).symm,
      hprogram⟩

/-- After a `fence.i` every copy is up to date, and so is the backing memory. -/
theorem Holds.fence :
    Holds hfit f (fun _ => False) (sync .program (sync .data s)) ∧
      ∀ x < uncachedStart, cc.BlockBelow x →
        (sync .program (sync .data s)).backing x = f x := by
  obtain ⟨hdata, hempty⟩ := Present.sync_data h rfl (space_good f W)
  obtain ⟨hboth, hsame, hsettled, hlines⟩ := hdata.sync_program (space_good f W) hfit.program
  generalize sync .program (sync .data s) = s' at *
  have hempty' :
      cc.data.enabled = true → ∀ way row, ((s'.cache .data).dt way row).valid = false := by
    intro he way row
    show (s'.cchData.dt way row).valid = false
    rw [hsame]
    exact hempty he way row
  refine ⟨⟨?_, fun he => ?_⟩, fun x hlow hblock => ?_⟩
  · exact hboth.data.settle hempty' hsettled fun x v hv hlow hblock _ => hv ⟨hlow, hblock⟩
  · refine ⟨(hboth.program he).shape, fun way row hv => ?_, (hboth.program he).clean⟩
    rw [hlines he way row] at hv
    exact absurd hv Bool.false_ne_true
  · obtain ⟨g, hshows, heq⟩ := hboth.data.lower_eq hempty'
    have hsecond : (secondLevel hfit).Present (cc.Good f W) g s'.cchLevel2 := hshows
    obtain ⟨g', hflat, heq'⟩ := hsecond.lower_eq hsettled.1
    rw [backing, hflat.2 x hlow, heq' x hlow, heq x ⟨hlow, hblock⟩]

end CachedMemory

/-! ### Accesses without translation -/

namespace TlbSetup

variable {P : Type} [PhysicalMemory P] {su : TlbSetup} {t : Tlb} {mode : AccessMode}

theorem mark_off (hoff : su.shouldTranslate t mode.priv = false) (virt : BitVec 64) (op : AccessOp)
    (m : P) : su.translateAndMark ⟨virt, mode⟩ op t m = (.ok ⟨virt, 2 ^ 64 - 1, none⟩, t, m) := by
  rw [translateAndMark, translate_off hoff]

/-- A read without translation is a read of the physical memory, in pieces of almost the whole
address space. -/
theorem readLoop_pieces (hoff : su.shouldTranslate t mode.priv = false) {inv : P → Prop}
    (hinv : ∀ a n m, inv m → inv (read su.mem a n m).2) {fuel : Nat}
    {virt : BitVec 64} {n : Nat} {m : P} (h : inv m) :
    ∃ bytes m', su.translateAndReadLoop mode fuel virt n t m = (.ok bytes, t, m') ∧ inv m' ∧
      (0 < fuel → 0 < n → ∃ rest, bytes =
        (read su.mem virt (min n (2 ^ 64 - 1)) m).1 ++ rest) := by
  induction fuel generalizing virt n m with
  | zero => exact ⟨[], m, rfl, h, fun hfuel => absurd hfuel (Nat.lt_irrefl 0)⟩
  | succ fuel ih =>
    rw [translateAndReadLoop]
    by_cases hdone : n = 0
    · exact ⟨[], m, by rw [if_pos hdone], h, fun _ hpos => absurd hdone (by omega)⟩
    rw [if_neg hdone, mark_off hoff]
    obtain ⟨rest, m', hloop, hm', -⟩ := @ih (virt + BitVec.ofNat 64 (min n (2 ^ 64 - 1)))
      (n - min n (2 ^ 64 - 1)) _ (hinv virt (min n (2 ^ 64 - 1)) m h)
    dsimp only
    rw [hloop]
    exact ⟨_, m', rfl, hm', fun _ _ => ⟨rest, rfl⟩⟩

/-- A write without translation is a write of the physical memory. -/
theorem write_off (hoff : su.shouldTranslate t mode.priv = false) (virt : BitVec 64)
    {bytes : List Byte} (hpos : bytes ≠ []) (hsmall : bytes.length < 2 ^ 64) (m : P) :
    su.translateAndWrite ⟨virt, mode⟩ bytes t m =
      (.ok (), t, write su.mem virt bytes m) := by
  have hlength : bytes.length ≠ 0 := mt List.eq_nil_of_length_eq_zero hpos
  obtain ⟨fuel, hfuel⟩ := Nat.exists_eq_succ_of_ne_zero hlength
  rw [translateAndWrite, hfuel, translateAndWriteLoop, if_neg hlength, mark_off hoff]
  have hmin : min bytes.length (2 ^ 64 - 1) = bytes.length := by omega
  simp only [hmin, List.take_length, List.drop_length]
  cases fuel with
  | zero => rfl
  | succ fuel => rw [translateAndWriteLoop, if_pos List.length_nil]

end TlbSetup

namespace MemCall

variable {vm : VmSetup} {cc : CacheConfigs}

def Stores (x : Nat) : MemCall → Prop
  | .write _ address bytes =>
    address.address.toNat ≤ x ∧ x < address.address.toNat + bytes.length
  | _ => False

instance (x : Nat) (call : MemCall) : Decidable (call.Stores x) :=
  match call with
  | .write .. => inferInstanceAs (Decidable (_ ∧ _))
  | .read .. | .sync .. | .sfenceVma .. | .csrWrite .. => inferInstanceAs (Decidable False)

/-- The bytes that were stored last, after a call. -/
def storedOn (f : Nat → Byte) : MemCall → Nat → Byte
  | .write _ address bytes => AddressMap.write f address.address.toNat bytes
  | _ => f

def storedAfter (f : Nat → Byte) (calls : List MemCall) : Nat → Byte :=
  calls.foldl storedOn f

def Untranslated {P : Type} (s : VirtualMemory vm P) : MemCall → Prop
  | .read port address _ | .write port address _ =>
    (VirtualMemory.setup vm port).shouldTranslate (s.tlb port) address.mode.priv = false
  | _ => True

def Bare {P : Type} [PhysicalMemory P] (s : VirtualMemory vm P) (calls : List MemCall) : Prop :=
  ∀ done call rest, calls = done ++ call :: rest → call.Untranslated (after s done)

namespace Bare

variable {P : Type} [PhysicalMemory P] {s : VirtualMemory vm P} {call : MemCall}
  {calls calls' : List MemCall}

theorem left (h : Bare s (calls ++ calls')) : Bare s calls := by
  intro done call rest hsplit
  refine h done call (rest ++ calls') ?_
  rw [hsplit, List.append_assoc, List.cons_append]

theorem right (h : Bare s (calls ++ calls')) : Bare (after s calls) calls' := by
  intro done call rest hsplit
  rw [← after_append]
  refine h (calls ++ done) call rest ?_
  rw [hsplit, List.append_assoc]

theorem head (h : Bare s (call :: calls)) : call.Untranslated s :=
  h [] call calls rfl

theorem tail (h : Bare s (call :: calls)) : Bare (call.on s) calls := by
  have hsplit : Bare s ([call] ++ calls) := h
  exact hsplit.right

end Bare

/-- The stores of a call are not overtaken by a write back, or go to the uncached window. -/
def Settles (cc : CacheConfigs) : MemCall → Prop
  | .write _ address bytes => cc.Settles address.address.toNat bytes.length ∨
      Cache.isInUncachedArea address.address.toNat = true ∧ bytes.length < 2 ^ 64
  | _ => True

variable {call : MemCall} {x : Nat}

theorem Settles.of_stores (h : call.Settles cc) (hx : call.Stores x) (hlow : x < uncachedStart) :
    cc.BlockBelow x := by
  cases call with
  | write port address bytes =>
    rcases h with hsettles | harea
    · exact hsettles.block x hx.1 hx.2
    · have hstart := Nat.le_trans (uncachedStart_le harea.1) hx.1
      exact absurd hlow (Nat.not_lt_of_le hstart)
  | read | sync | sfenceVma | csrWrite => exact absurd hx id

theorem storedOn_of_not_stores {f : Nat → Byte} (hx : ¬call.Stores x) :
    call.storedOn f x = f x := by
  cases call with
  | write port address bytes => exact write_of_outside _ hx
  | read | sync | sfenceVma | csrWrite => rfl

theorem storedAfter_of_not_stores {calls : List MemCall} {f : Nat → Byte}
    (hx : ∀ call ∈ calls, ¬call.Stores x) : storedAfter f calls x = f x := by
  induction calls generalizing f with
  | nil => rfl
  | cons call calls ih =>
    rw [storedAfter, List.foldl_cons, ← storedAfter,
      ih fun c hc => hx c (List.mem_cons_of_mem _ hc),
      storedOn_of_not_stores (hx call List.mem_cons_self)]

def storeEnd : MemCall → Nat
  | .write _ address bytes => address.address.toNat + bytes.length
  | _ => 0

/-- Without a second level a store settles that ends below the uncached window. -/
theorem settles_of_storeEnd (hoff : cc.level2.enabled = false) (h : call.storeEnd < uncachedStart) :
    call.Settles cc := by
  cases call with
  | write port address bytes =>
    exact .inl ⟨Nat.le_of_lt h, fun _ => h,
      fun _ _ _ _ hon => Bool.noConfusion (hoff.symm.trans hon)⟩
  | read | sync | sfenceVma | csrWrite => trivial

/-- Without virtual memory nothing is translated. -/
theorem bare_of_disabled {P : Type} [PhysicalMemory P] (hoff : vm.vmEnabled = false)
    (s : VirtualMemory vm P) (calls : List MemCall) : Bare s calls := by
  have hport (port : MemPort) (t : Tlb) (priv : PrivilegeLevel) :
      (VirtualMemory.setup vm port).shouldTranslate t priv = false := by
    cases port <;> simp [VirtualMemory.setup, shouldTranslate, VmSetup.program, VmSetup.data, hoff]
  intro done call rest _
  cases call with
  | read | write => exact hport _ _ _
  | sync | sfenceVma | csrWrite => trivial

def fenceI : List MemCall := [.sync .data, .sync .program]

end MemCall

namespace CachedMemory

open CacheConfigs

variable {vm : VmSetup} {cc : CacheConfigs} {hfit : cc.Fit} {f : Nat → Byte} {W : Nat → Prop}
  {s : VirtualMemory vm (CachedMemory cc)}

theorem Holds.congr {W' : Nat → Prop} {s : CachedMemory cc} (h : Holds hfit f W s)
    (hW : ∀ x, W x ↔ W' x) : Holds hfit f W' s := by
  obtain rfl : W = W' := funext fun x => propext (hW x)
  exact h

variable (h : Holds hfit f W s.mem)
include h

/-- What a call of the core does to the content. -/
theorem Holds.on {call : MemCall} (hmade : call.Made) (hbare : call.Untranslated s)
    (hsettles : call.Settles cc) :
    Holds hfit (call.storedOn f) (fun x => W x ∨ call.Stores x) (call.on s).mem := by
  have hother {s' : CachedMemory cc} (h' : Holds hfit f W s') :
      Holds hfit f (fun x => W x ∨ False) s' :=
    h'.congr fun x => ⟨.inl, fun hx => hx.resolve_right id⟩
  cases call with
  | read port address size =>
    have hread := @readLoop_pieces _ _ _ _ _ hbare (Holds hfit f W)
      (fun a n m hm => hm.read_port _ a n) size address.address size s.mem h
    obtain ⟨bytes, m, hloop, hholds, -⟩ := hread
    have hstep : MemCall.on s (.read port address size) = s.put port (s.tlb port) m := by
      show (FrontendMemory.read port address size s).2 = _
      simp only [FrontendMemory.read, translateAndRead, hloop]
    rw [hstep]
    cases port <;> exact hother hholds
  | write port address bytes =>
    obtain rfl : port = .data := hmade
    by_cases hpos : bytes = []
    · subst hpos
      have hstep : (MemCall.on s (.write .data address [])).mem = s.mem := rfl
      rw [hstep, MemCall.storedOn, write_nil]
      refine h.congr fun x => ⟨.inl, fun hx => hx.resolve_right fun hin => ?_⟩
      have hnone := hin.2
      exact Nat.lt_irrefl x (Nat.lt_of_lt_of_le hnone hin.1)
    · have hstep : (MemCall.on s (.write .data address bytes)).mem =
          write .data address.address bytes s.mem := by
        show (FrontendMemory.write .data address bytes s).2.mem = _
        simp only [FrontendMemory.write]
        have hsmall : bytes.length < 2 ^ 64 := by
          rcases hsettles with hlow | harea
          · have hbelow := hlow.below
            rw [uncachedStart] at hbelow
            omega
          · exact harea.2
        rw [write_off hbare address.address hpos hsmall]
        rfl
      rw [hstep]
      exact h.write_data (hsettles.imp_right And.left)
  | sync port => cases port <;> exact hother (h.sync_port _)
  | sfenceVma port => cases port <;> exact hother h
  | csrWrite signal => exact hother h

/-- What the calls of a run do to the content. -/
theorem Holds.after {calls : List MemCall} (hmade : ∀ call ∈ calls, call.Made)
    (hbare : MemCall.Bare s calls) (hsettles : ∀ call ∈ calls, call.Settles cc) :
    Holds hfit (storedAfter f calls) (fun x => W x ∨ ∃ call ∈ calls, call.Stores x)
      (after s calls).mem := by
  induction calls generalizing s f W with
  | nil => exact h.congr fun x => ⟨.inl, fun hx => hx.resolve_right fun ⟨_, hc, _⟩ => nomatch hc⟩
  | cons call calls ih =>
    have hstep := h.on (hmade call List.mem_cons_self) hbare.head (hsettles call List.mem_cons_self)
    refine (ih hstep (fun c hc => hmade c (List.mem_cons_of_mem _ hc)) hbare.tail
      fun c hc => hsettles c (List.mem_cons_of_mem _ hc)).congr fun x => ?_
    rw [List.exists_mem_cons_iff, or_assoc]

/-- A fetch without translation returns good bytes. -/
theorem Holds.fetch {address : AddressWithMode} {size : Nat}
    (hbare : (read .program address size).Untranslated s) :
    ∃ bytes, (FrontendMemory.read .program address size s).1 = .ok bytes ∧
      ∀ j < size, cc.Good f W (address.address.toNat + j) (bytes.getD j 0) := by
  have hread := @readLoop_pieces _ _ _ _ _ hbare (Holds hfit f W)
    (fun a n m hm => hm.read_port _ a n) size address.address size s.mem h
  obtain ⟨bytes, m, hloop, -, hfirst⟩ := hread
  refine ⟨bytes, ?_, fun j hj hlow => ?_⟩
  · simp only [FrontendMemory.read, translateAndRead, hloop]
  · rw [uncachedStart] at hlow
    obtain ⟨rest, rfl⟩ := hfirst (by omega) (by omega)
    obtain ⟨hlength, hgood⟩ := h.read_program address.address (min size (2 ^ 64 - 1))
    rw [List.getD_append _ _ _ _ (by
      show j < (PhysicalMemory.read .program _ _ _).1.length
      omega)]
    exact hgood j (by omega) (by rw [uncachedStart]; exact hlow)

end CachedMemory

/-- The fetches after a `fence.i` return the bytes stored last, and the backing memory has them, if
no store is overtaken by a write back. -/
theorem fence_i_synchronises {vm : VmSetup} {cc : CacheConfigs} {cfg : CoreConfig} {lib : CLibrary}
    {mem : Nat → Byte} {c : Core (VirtualMemory vm (CachedMemory cc))} {calls : List MemCall}
    (hfit : cc.Fit) (hstart : c.mem.mem = CachedMemory.new lib cc mem)
    (hrun : CoreSingle.Makes cfg c calls) (hbare : MemCall.Bare c.mem calls)
    (hsettles : ∀ call ∈ calls, call.Settles cc) {before rest : List MemCall}
    (hcalls : calls = before ++ MemCall.fenceI ++ rest) :
    (∀ x < uncachedStart, (∃ call ∈ before, call.Stores x) →
      (MemCall.after c.mem (before ++ MemCall.fenceI)).mem.backing x =
        MemCall.storedAfter mem before x) ∧
    ∀ {mid later : List MemCall} {address : AddressWithMode} {size : Nat},
      rest = mid ++ .read .program address size :: later →
      ∃ bytes, (FrontendMemory.read .program address size
          (MemCall.after c.mem (before ++ MemCall.fenceI ++ mid))).1 = .ok bytes ∧
        ∀ j < size, address.address.toNat + j < uncachedStart →
          (∃ call ∈ before, call.Stores (address.address.toNat + j)) →
          (∀ call ∈ mid, ¬call.Stores (address.address.toNat + j)) →
          bytes.getD j 0 = MemCall.storedAfter mem before (address.address.toNat + j) := by
  have hmade := hrun.made
  subst hcalls
  have hnew : CachedMemory.Holds hfit mem (fun _ => False) c.mem.mem :=
    hstart ▸ CachedMemory.holds_new lib mem _
  rw [List.append_assoc] at hbare hmade hsettles
  have hbefore := hnew.after (fun call hc => hmade call (List.mem_append_left _ hc)) hbare.left
    fun call hc => hsettles call (List.mem_append_left _ hc)
  have hstores {x : Nat} (hlow : x < uncachedStart) (hx : ∃ call ∈ before, call.Stores x) :
      cc.BlockBelow x := by
    obtain ⟨call, hc, hx⟩ := hx
    exact (hsettles call (List.mem_append_left _ hc)).of_stores hx hlow
  obtain ⟨hfence, hbacking⟩ := hbefore.fence
  have hafter : (after c.mem (before ++ fenceI)).mem =
      sync .program
        (sync .data (after c.mem before).mem) := by
    rw [after_append]
    rfl
  rw [← hafter] at hfence hbacking
  refine ⟨fun x hlow hx => hbacking x hlow (hstores hlow hx), fun hrest => ?_⟩
  rename_i mid later address size
  subst hrest
  have hbare' := hbare.right.right
  rw [← after_append] at hbare'
  have hin {call : MemCall} (hc : call ∈ mid) :
      call ∈ before ++ (fenceI ++ (mid ++ .read .program address size :: later)) := by
    simp only [List.mem_append, hc, true_or, or_true]
  have hmid := hfence.after (fun call hc => hmade call (hin hc)) hbare'.left
    fun call hc => hsettles call (hin hc)
  have hfetch := hmid.fetch hbare'.right.head
  rw [← after_append] at hfetch
  obtain ⟨bytes, hfetch, hgood⟩ := hfetch
  refine ⟨bytes, hfetch, fun j hj hlow hx hnot => ?_⟩
  rw [hgood j hj hlow (hstores hlow hx) (by
    rintro (hx' | ⟨call, hc, hx'⟩)
    · exact hx'
    · exact hnot call hc hx'), storedAfter_of_not_stores hnot]

def fenceVm : VmSetup :=
  ⟨._32, false, ⟨1, 1, .lru, Nat.one_pos, Nat.one_pos⟩, ⟨1, 1, .lru, Nat.one_pos, Nat.one_pos⟩⟩

/-- A write-back data cache of one block of two words. -/
def fenceCaches : CacheConfigs where
  program := ⟨false, 1, 1, 1, .lru, .back, Nat.one_pos, Nat.one_pos, Nat.one_pos⟩
  data := ⟨true, 1, 2, 1, .lru, .back, Nat.one_pos, Nat.two_pos, Nat.one_pos⟩
  level2 := ⟨false, 1, 1, 1, .lru, .back, Nat.one_pos, Nat.one_pos, Nat.one_pos⟩

theorem fenceCaches_fit : fenceCaches.Fit := by
  constructor <;> simp [fenceCaches, CacheConfig.FitsWord]

/-- A program that stores 1 and 2 into the two words below the address it loads with `lui`, followed
by a `fence.i`. -/
def fenceMemory (lui : Instruction) : Nat → Byte :=
  AddressMap.write (fun _ => 0) 0x200
    ([0x00100293, 0x00200313, lui, 0xfe53ac23, 0xfe63ae23, 0x0000100f].flatMap
      fun word : Instruction => ByteMemory.bytesOfValue .little 4 word.toNat)

def fenceCore (lui : Instruction) : Core (VirtualMemory fenceVm (CachedMemory fenceCaches)) :=
  .reset (.rv32 .none) (.default false)
    ⟨emptyTlb, emptyTlb, .new ⟨id, id⟩ fenceCaches (fenceMemory lui)⟩

def fenceCalls (lui : Instruction) : List MemCall :=
  (CoreSingle.callsAfter (.rv32 .none) (fenceCore lui) 6).getD []

theorem fenceCalls_made (lui : Instruction)
    (hrun : (CoreSingle.callsAfter (.rv32 .none) (fenceCore lui) 6).isSome = true) :
    CoreSingle.Makes (.rv32 .none) (fenceCore lui) (fenceCalls lui) :=
  CoreSingle.makes_callsAfter hrun

theorem fenceCore_bare (lui : Instruction) (calls : List MemCall) :
    MemCall.Bare (fenceCore lui).mem calls :=
  bare_of_disabled rfl _ _

/-- With `lui x7, 1` the second word is in the backing memory. -/
theorem fence_i_synchronises_low :
    (MemCall.after (fenceCore 0x000013b7).mem
      ((fenceCalls 0x000013b7).take 25 ++ MemCall.fenceI)).mem.backing 0xffc = 2 := by
  have hcalls : fenceCalls 0x000013b7 = (fenceCalls 0x000013b7).take 25 ++ fenceI ++
      (fenceCalls 0x000013b7).drop 27 := by
    decide +kernel
  have hends : ∀ call ∈ fenceCalls 0x000013b7, call.storeEnd < uncachedStart := by
    decide +kernel
  have hstored : ∃ call ∈ (fenceCalls 0x000013b7).take 25, call.Stores 0xffc := by
    decide +kernel
  have hbyte : storedAfter (fenceMemory 0x000013b7) ((fenceCalls 0x000013b7).take 25)
      0xffc = 2 := by
    decide +kernel
  have hmade := fenceCalls_made 0x000013b7 (by decide +kernel)
  have hstart : (fenceCore 0x000013b7).mem.mem = .new ⟨id, id⟩ fenceCaches
    (fenceMemory 0x000013b7) := rfl
  have hbare := fenceCore_bare 0x000013b7 (fenceCalls 0x000013b7)
  generalize fenceCalls 0x000013b7 = calls at *
  generalize fenceMemory 0x000013b7 = mem at *
  have hfence := fence_i_synchronises fenceCaches_fit hstart hmade hbare
    (fun call hc => settles_of_storeEnd rfl (hends call hc)) hcalls
  exact (hfence.1 0xffc (by decide) hstored).trans hbyte

/-- With `lui x7, 0xf0000` the store of the second word ends at the uncached window, so it goes past
the data cache; the line of the first word, which is dirty, then overwrites it. -/
theorem fence_i_loses_store :
    CoreSingle.Makes (.rv32 .none) (fenceCore 0xf00003b7) (fenceCalls 0xf00003b7) ∧
    fenceCaches.Fit ∧ MemCall.Bare (fenceCore 0xf00003b7).mem (fenceCalls 0xf00003b7) ∧
    (∀ call ∈ fenceCalls 0xf00003b7, call.storeEnd ≤ uncachedStart) ∧
    ∃ before rest, fenceCalls 0xf00003b7 = before ++ MemCall.fenceI ++ rest ∧
      (∃ call ∈ before, call.Stores 0xeffffffc) ∧
      MemCall.storedAfter (fenceMemory 0xf00003b7) before 0xeffffffc = 2 ∧
      (MemCall.after (fenceCore 0xf00003b7).mem (before ++ MemCall.fenceI)).mem.backing
        0xeffffffc = 0 :=
  ⟨fenceCalls_made 0xf00003b7 (by decide +kernel), fenceCaches_fit,
    fenceCore_bare 0xf00003b7 _, by decide +kernel, (fenceCalls 0xf00003b7).take 25,
    (fenceCalls 0xf00003b7).drop 27, by decide +kernel, by decide +kernel, by decide +kernel,
    by decide +kernel⟩

end QtRvSim
