import QtRvSim.Memory.Bus
import Mathlib.Data.List.Nodup

/-!
# Ranges of a bus

The lookup by the last address is right as long as the ranges are disjoint.  The test of an
insertion looks at one neighbour and at the ends of the new range only, so a range around the
neighbour is accepted (`insertDeviceToRange_disjoint`).  A removal takes one range of a device, and
cleaning is undefined or incomplete as soon as it finds a range (`removal_complete_iff`).
-/

namespace QtRvSim

open OrderedMap

namespace MemoryDataBus

variable {D : Type} {bus : MemoryDataBus D}

/-- The index by address is right: ranges under their last addresses, disjoint and in order. -/
structure AddrSound (ranges : OrderedMap Nat (RangeDesc D)) : Prop where
  keyed : ∀ e ∈ ranges, e.1 = e.2.lastAddr
  ordered : ∀ e ∈ ranges, e.2.startAddr ≤ e.2.lastAddr
  disjoint : ∀ e ∈ ranges, ∀ e' ∈ ranges, e.1 < e'.1 → e.2.lastAddr < e'.2.startAddr

/-- Both indexes have the same ranges. -/
structure Sound (bus : MemoryDataBus D) : Prop where
  addr : AddrSound bus.rangesByAddr
  registered : ∀ range, range ∈ bus.rangesByDevice ↔ (range.lastAddr, range) ∈ bus.rangesByAddr
  nodup : bus.rangesByDevice.Nodup

namespace AddrSound

variable {ranges : OrderedMap Nat (RangeDesc D)}

/-- Fewer ranges are disjoint, too. -/
theorem mono {fewer : OrderedMap Nat (RangeDesc D)} (h : AddrSound ranges)
    (hsub : ∀ e ∈ fewer, e ∈ ranges) : AddrSound fewer :=
  ⟨fun e he => h.keyed e (hsub e he), fun e he => h.ordered e (hsub e he),
    fun e he e' he' => h.disjoint e (hsub e he) e' (hsub e' he')⟩

/-- A range is in the index under its last address. -/
theorem mem_iff (h : AddrSound ranges) {e : Nat × RangeDesc D} :
    e ∈ ranges ↔ e.1 = e.2.lastAddr ∧ (e.2.lastAddr, e.2) ∈ ranges := by
  constructor
  · intro he
    have hkey := h.keyed e he
    refine ⟨hkey, ?_⟩
    rw [← hkey]
    exact he
  · rintro ⟨hkey, he⟩
    rwa [← hkey] at he

end AddrSound

variable {range : RangeDesc D} {address : Nat}

theorem contains_iff :
    range.contains address = true ↔ range.startAddr ≤ address ∧ address ≤ range.lastAddr := by
  rw [RangeDesc.contains, decide_eq_true_eq]

/-- The lookup finds the range that contains an address. -/
theorem findRange_eq_some_iff (h : AddrSound bus.rangesByAddr) :
    bus.findRange address = some range ↔
      (range.lastAddr, range) ∈ bus.rangesByAddr ∧ range.contains address = true := by
  rw [findRange]
  constructor
  · intro hfind
    split at hfind
    · exact absurd hfind (by simp)
    next key found hbound =>
      obtain ⟨hmem, -, -⟩ := lowerBound_eq_some hbound
      split at hfind
      next hcontains =>
        obtain rfl := Option.some.inj hfind
        exact ⟨(h.mem_iff.mp hmem).2, hcontains⟩
      next => exact absurd hfind (by simp)
  · rintro ⟨hmem, hcontains⟩
    obtain ⟨hstart, hlast⟩ := contains_iff.mp hcontains
    split
    next hnone => exact absurd (lowerBound_eq_none hnone hmem) (by simpa using hlast)
    next key found hbound =>
      obtain ⟨hfound, hle, hleast⟩ := lowerBound_eq_some hbound
      -- the bound ends first, and does so before the range starts unless it is the range
      have hkey : key = range.lastAddr := by
        by_contra hne
        have hlt : key < range.lastAddr := lt_of_le_of_ne (hleast _ hmem hlast) hne
        have hbefore := h.disjoint _ hfound _ hmem hlt
        have hkeyed := h.keyed _ hfound
        simp only at hle hbefore hkeyed
        omega
      obtain ⟨-, rfl⟩ := Prod.mk.inj (eq_of_key_eq hfound hmem hkey)
      rw [if_pos hcontains]

theorem Sound.findRange_iff (h : bus.Sound) :
    bus.findRange address = some range ↔
      range ∈ bus.rangesByDevice ∧ range.contains address = true := by
  rw [findRange_eq_some_iff h.addr, h.registered]

/-- No address belongs to two ranges. -/
theorem Sound.eq_of_contains (h : bus.Sound) {range' : RangeDesc D}
    (hrange : range ∈ bus.rangesByDevice) (hrange' : range' ∈ bus.rangesByDevice)
    (hcontains : range.contains address = true) (hcontains' : range'.contains address = true) :
    range = range' := by
  have hfind := h.findRange_iff.mpr ⟨hrange, hcontains⟩
  rw [h.findRange_iff.mpr ⟨hrange', hcontains'⟩] at hfind
  exact (Option.some.inj hfind).symm

/-! ### Insertions -/

structure InsertRequest (D : Type) where
  device : D
  startAddr : Nat
  lastAddr : Nat
  moveOwnership : Bool

/-- Whether a request was accepted, and the bus after it. -/
def InsertRequest.onto (request : InsertRequest D) (bus : MemoryDataBus D) :
    Bool × MemoryDataBus D :=
  bus.insertDeviceToRange request.device request.startAddr request.lastAddr request.moveOwnership

def inserted (bus : MemoryDataBus D) (requests : List (InsertRequest D)) : MemoryDataBus D :=
  requests.foldl (fun bus request => (request.onto bus).2) bus

def Meets (range : RangeDesc D) (startAddr lastAddr : Nat) : Prop :=
  range.startAddr ≤ lastAddr ∧ startAddr ≤ range.lastAddr

/-- The request reaches past both ends of the first range that ends at its start or later. -/
def Encloses (bus : MemoryDataBus D) (request : InsertRequest D) : Prop :=
  ∃ next ∈ (bus.rangesByAddr.lowerBound request.startAddr).map Prod.snd,
    request.startAddr < next.startAddr ∧ next.lastAddr < request.lastAddr

theorem sound_new : (new : MemoryDataBus D).Sound :=
  ⟨⟨fun _ he => absurd he not_mem_empty, fun _ he => absurd he not_mem_empty,
    fun _ he => absurd he not_mem_empty⟩,
    fun _ => iff_of_false List.not_mem_nil not_mem_empty, List.nodup_nil⟩

/-- The range an insertion looks at ends at the start of the request or later. -/
theorem Sound.bound (h : bus.Sound) {startAddr : Nat} {entry : Nat × RangeDesc D}
    (hbound : bus.rangesByAddr.lowerBound startAddr = some entry) :
    entry.2 ∈ bus.rangesByDevice ∧ entry.2.startAddr ≤ entry.2.lastAddr ∧
      startAddr ≤ entry.2.lastAddr := by
  obtain ⟨hmem, hle, -⟩ := lowerBound_eq_some hbound
  have hkeyed := h.addr.keyed _ hmem
  refine ⟨(h.registered _).mpr (h.addr.mem_iff.mp hmem).2, h.addr.ordered _ hmem, ?_⟩
  rw [← hkeyed]
  exact hle

/-- Some range meets a request exactly if the range the insertion looks at does. -/
theorem Sound.meets_iff (h : bus.Sound) {startAddr lastAddr : Nat} :
    (∃ range ∈ bus.rangesByDevice, Meets range startAddr lastAddr) ↔
      ∃ entry, bus.rangesByAddr.lowerBound startAddr = some entry ∧
        entry.2.startAddr ≤ lastAddr := by
  constructor
  · rintro ⟨range, hrange, hstart, hlast⟩
    have hmem := (h.registered range).mp hrange
    rcases hbound : bus.rangesByAddr.lowerBound startAddr with _ | entry
    · have hbelow := lowerBound_eq_none hbound hmem
      exact absurd hbelow (not_lt.mpr hlast)
    · refine ⟨entry, rfl, ?_⟩
      obtain ⟨hentry, -, hleast⟩ := lowerBound_eq_some hbound
      rcases (hleast _ hmem hlast).eq_or_lt with heq | hlt
      · rw [eq_of_key_eq hentry hmem heq]
        exact hstart
      · have hbefore : entry.2.lastAddr < range.startAddr := h.addr.disjoint _ hentry _ hmem hlt
        have hordered := h.addr.ordered _ hentry
        omega
  · rintro ⟨entry, hbound, hstart⟩
    obtain ⟨hrange, -, hlast⟩ := h.bound hbound
    exact ⟨entry.2, hrange, hstart, hlast⟩

theorem overlaps_iff {startAddr lastAddr : Nat} :
    range.overlaps startAddr lastAddr = true ↔
      (range.startAddr ≤ startAddr ∧ startAddr ≤ range.lastAddr) ∨
        (range.startAddr ≤ lastAddr ∧ lastAddr ≤ range.lastAddr) := by
  rw [RangeDesc.overlaps, Bool.or_eq_true, contains_iff, contains_iff]

/-- An insertion is refused exactly if it meets a range, unless it encloses its neighbour. -/
theorem Sound.refused_iff (h : bus.Sound) {request : InsertRequest D}
    (hrequest : request.startAddr ≤ request.lastAddr) :
    ((request.onto bus).1 = false ↔
        ∃ range ∈ bus.rangesByDevice, Meets range request.startAddr request.lastAddr) ↔
      ¬Encloses bus request := by
  rw [h.meets_iff, InsertRequest.onto, insertDeviceToRange, Encloses]
  rcases hbound : bus.rangesByAddr.lowerBound request.startAddr with _ | entry
  · simp
  · obtain ⟨-, hordered, hlast⟩ := h.bound hbound
    by_cases hoverlaps : entry.2.overlaps request.startAddr request.lastAddr = true
    · have hends := overlaps_iff.mp hoverlaps
      simp only [if_pos hoverlaps, Option.some.injEq, exists_eq_left', Option.map_some,
        Option.mem_def, true_iff]
      omega
    · have hends := mt overlaps_iff.mpr hoverlaps
      simp only [if_neg hoverlaps, Option.some.injEq, exists_eq_left', Option.map_some,
        Option.mem_def, Bool.true_eq_false, false_iff]
      omega

/-- What an insertion does: it is refused, or the range is registered. -/
theorem InsertRequest.onto_cases (request : InsertRequest D) (bus : MemoryDataBus D) :
    request.onto bus = (false, bus) ∨
      request.onto bus = (true, bus.addRange
        ⟨request.device, request.startAddr, request.lastAddr, request.moveOwnership⟩) := by
  rw [InsertRequest.onto, insertDeviceToRange]
  split
  next => exact .inr rfl
  next =>
    split
    next => exact .inl rfl
    next => exact .inr rfl

/-- Registering a range that meets none keeps the indexes right. -/
theorem Sound.addRange (h : bus.Sound) (hordered : range.startAddr ≤ range.lastAddr)
    (hfree : ∀ other ∈ bus.rangesByDevice, ¬Meets other range.startAddr range.lastAddr) :
    (bus.addRange range).Sound := by
  have hapart : ∀ e ∈ bus.rangesByAddr, e.1 = e.2.lastAddr ∧ e.2.startAddr ≤ e.2.lastAddr ∧
      (e.2.lastAddr < range.startAddr ∨ range.lastAddr < e.2.startAddr) := by
    intro e he
    have hother := hfree e.2 ((h.registered _).mpr (h.addr.mem_iff.mp he).2)
    rw [Meets] at hother
    refine ⟨h.addr.keyed e he, h.addr.ordered e he, ?_⟩
    omega
  refine ⟨⟨fun e he => ?_, fun e he => ?_, fun e he e' he' hlt => ?_⟩, fun other => ?_, ?_⟩
  · rcases mem_insert.mp he with rfl | ⟨hold, -⟩
    · rfl
    · exact h.addr.keyed e hold
  · rcases mem_insert.mp he with rfl | ⟨hold, -⟩
    · exact hordered
    · exact h.addr.ordered e hold
  · rcases mem_insert.mp he with rfl | ⟨hold, -⟩ <;>
      rcases mem_insert.mp he' with rfl | ⟨hold', -⟩
    · exact absurd hlt (lt_irrefl _)
    · have hother := hapart e' hold'
      simp only at hlt ⊢
      omega
    · have hother := hapart e hold
      simp only at hlt ⊢
      omega
    · exact h.addr.disjoint e hold e' hold' hlt
  · simp only [MemoryDataBus.addRange, List.mem_cons, mem_insert, h.registered, Prod.mk.injEq]
    constructor
    · rintro (rfl | hold)
      · exact .inl ⟨rfl, rfl⟩
      · have hother := hapart _ hold
        refine .inr ⟨hold, ?_⟩
        simp only at hother ⊢
        omega
    · rintro (⟨-, rfl⟩ | ⟨hold, -⟩)
      · exact .inl rfl
      · exact .inr hold
  · refine List.nodup_cons.mpr ⟨fun hold => ?_, h.nodup⟩
    exact hfree range hold ⟨hordered, hordered⟩

/-- An insertion that does not enclose its neighbour keeps the indexes right. -/
theorem Sound.onto (h : bus.Sound) {request : InsertRequest D}
    (hrequest : request.startAddr ≤ request.lastAddr) (hencloses : ¬Encloses bus request) :
    (request.onto bus).2.Sound := by
  have hrefused := (h.refused_iff hrequest).mpr hencloses
  rcases request.onto_cases bus with honto | honto
  · rw [honto]
    exact h
  · rw [honto] at hrefused ⊢
    refine h.addRange hrequest fun other hother hmeets => ?_
    exact Bool.noConfusion (hrefused.mpr ⟨other, hother, hmeets⟩)

/-- Every request of a sequence is ordered and leaves its neighbour at that time unenclosed. -/
def NeverEncloses : MemoryDataBus D → List (InsertRequest D) → Prop
  | _, [] => True
  | bus, request :: requests =>
    request.startAddr ≤ request.lastAddr ∧ ¬Encloses bus request ∧
      NeverEncloses (request.onto bus).2 requests

theorem Sound.inserted (h : bus.Sound) {requests : List (InsertRequest D)}
    (hrequests : NeverEncloses bus requests) : (bus.inserted requests).Sound := by
  induction requests generalizing bus with
  | nil => exact h
  | cons request requests ih =>
    obtain ⟨hordered, hencloses, hrest⟩ := hrequests
    exact ih (h.onto hordered hencloses) hrest

def Disjoint (bus : MemoryDataBus D) : Prop :=
  bus.rangesByDevice.Pairwise fun range range' =>
    ∀ address, ¬(range.contains address = true ∧ range'.contains address = true)

theorem Sound.disjoint (h : bus.Sound) : bus.Disjoint := by
  refine h.nodup.imp_of_mem fun hrange hrange' hne address hboth => ?_
  exact hne (h.eq_of_contains hrange hrange' hboth.1 hboth.2)

/-- In every run of insertions that never enclose their neighbour the ranges are disjoint and the
lookup finds the range of an address; the next insertion is refused exactly if it meets a range, but
for one that encloses its neighbour. -/
theorem insertDeviceToRange_disjoint (requests : List (InsertRequest D))
    (hrequests : NeverEncloses new requests) :
    (new.inserted requests).Disjoint ∧
      (∀ address range, (new.inserted requests).findRange address = some range ↔
        range ∈ (new.inserted requests).rangesByDevice ∧ range.contains address = true) ∧
      ∀ request : InsertRequest D, request.startAddr ≤ request.lastAddr →
        (((request.onto (new.inserted requests)).1 = false ↔
            ∃ range ∈ (new.inserted requests).rangesByDevice,
              Meets range request.startAddr request.lastAddr) ↔
          ¬Encloses (new.inserted requests) request) := by
  have h := sound_new.inserted hrequests
  exact ⟨h.disjoint, fun _ _ => h.findRange_iff, fun _ hrequest => h.refused_iff hrequest⟩

/-- Two devices side by side, and a third one that is refused. -/
def sideBySide : List (InsertRequest Nat) :=
  [⟨0, 0x100, 0x1ff, true⟩, ⟨1, 0x200, 0x2ff, true⟩, ⟨2, 0x180, 0x27f, true⟩]

theorem insertDeviceToRange_disjoint_sideBySide :
    (new.inserted sideBySide).Disjoint ∧
      (new.inserted sideBySide).findRange 0x200 = some ⟨1, 0x200, 0x2ff, true⟩ := by
  have hrequests : NeverEncloses new sideBySide := by
    simp only [sideBySide, NeverEncloses, Encloses]
    decide
  have h := insertDeviceToRange_disjoint sideBySide hrequests
  exact ⟨h.1, (h.2.1 _ _).mpr (by decide)⟩

/-- A range around a registered one is accepted, and most of it is not found. -/
theorem enclosing_accepted :
    let bus := new.inserted [(⟨0, 0x100, 0x1ff, true⟩ : InsertRequest Nat)]
    let enclosed := (InsertRequest.mk 1 0x80 0x2ff true).onto bus
    enclosed.1 = true ∧ ¬enclosed.2.Disjoint ∧ enclosed.2.findRange 0x90 = none := by
  refine ⟨by decide, fun hdisjoint => ?_, by decide⟩
  have hboth := (List.pairwise_cons.mp hdisjoint).1 ⟨0, 0x100, 0x1ff, true⟩ (by decide) 0x150
  exact hboth (by decide)

/-! ### Removals -/

section Removal

def AtMostOneRange (device : D) (bus : MemoryDataBus D) : Prop :=
  ∀ range ∈ bus.rangesByDevice, ∀ range' ∈ bus.rangesByDevice,
    range.device = device → range'.device = device → range = range'

variable [DecidableEq D]

/-- What a removal does: the device has no range, or one of its ranges is taken. -/
theorem removeDevice_cases (device : D) (bus : MemoryDataBus D) :
    ((∀ range ∈ bus.rangesByDevice, range.device ≠ device) ∧ (bus.removeDevice device).2 = bus) ∨
      ∃ taken ∈ bus.rangesByDevice, taken.device = device ∧
        (bus.removeDevice device).2.rangesByAddr = bus.rangesByAddr.erase taken.lastAddr := by
  rw [removeDevice]
  split
  next hnone =>
    refine .inl ⟨fun range hrange => ?_, rfl⟩
    simpa using List.find?_eq_none.mp hnone range hrange
  next taken hsome =>
    have hdevice := List.find?_some hsome
    exact .inr ⟨taken, List.mem_of_find?_eq_some hsome, of_decide_eq_true hdevice, rfl⟩

variable {entry : Nat × RangeDesc D}

/-- A removal adds no range. -/
theorem mem_of_mem_removeDevice {device : D}
    (hentry : entry ∈ (bus.removeDevice device).2.rangesByAddr) : entry ∈ bus.rangesByAddr := by
  rcases removeDevice_cases device bus with ⟨-, hbus⟩ | ⟨taken, -, -, hbus⟩
  · rwa [hbus] at hentry
  · rw [hbus] at hentry
    exact (mem_erase.mp hentry).1

/-- After a removal no address resolves to the device exactly if it had one range at most. -/
theorem Sound.removeDevice_iff (h : bus.Sound) (device : D) :
    (∀ address range, (bus.removeDevice device).2.findRange address = some range →
        range.device ≠ device) ↔ bus.AtMostOneRange device := by
  have haddr : AddrSound (bus.removeDevice device).2.rangesByAddr :=
    h.addr.mono fun _ => mem_of_mem_removeDevice
  rcases removeDevice_cases device bus with ⟨hnone, hbus⟩ | ⟨taken, htaken, hdevice, hbus⟩
  · refine iff_of_true (fun address range hfind => ?_) fun range hrange _ _ hof => ?_
    · rw [hbus, h.findRange_iff] at hfind
      exact hnone range hfind.1
    · exact absurd hof (hnone range hrange)
  constructor
  · intro hgone
    -- a range of the device other than the one taken would still be found
    have honly : ∀ range ∈ bus.rangesByDevice, range.device = device → range = taken := by
      intro range hrange hof
      by_contra hne
      have hmem := (h.registered range).mp hrange
      have hkey : range.lastAddr ≠ taken.lastAddr := fun hkey => hne
        (Prod.mk.inj (eq_of_key_eq hmem ((h.registered taken).mp htaken) hkey)).2
      refine hgone range.startAddr range ((findRange_eq_some_iff haddr).mpr ⟨?_, ?_⟩) hof
      · rw [hbus]
        exact mem_erase.mpr ⟨hmem, hkey⟩
      · exact contains_iff.mpr ⟨le_rfl, h.addr.ordered _ hmem⟩
    intro range hrange range' hrange' hof hof'
    rw [honly range hrange hof, honly range' hrange' hof']
  · intro hone address range hfind hof
    have hmem := ((findRange_eq_some_iff haddr).mp hfind).1
    rw [hbus, mem_erase] at hmem
    have hrange := (h.registered range).mpr hmem.1
    exact hmem.2 (congrArg RangeDesc.lastAddr (hone range hrange taken htaken hof hdevice))

variable {entries : List (Nat × RangeDesc D)} {lastAddr : Nat}

/-- A cleaning adds no range. -/
theorem mem_of_mem_cleanEntries {bus' : MemoryDataBus D}
    (hclean : bus.cleanEntries lastAddr entries = some bus') (hentry : entry ∈ bus'.rangesByAddr) :
    entry ∈ bus.rangesByAddr := by
  induction entries generalizing bus with
  | nil =>
    obtain rfl := Option.some.inj hclean
    exact hentry
  | cons first rest ih =>
    rw [cleanEntries] at hclean
    split at hclean
    · split at hclean
      · dsimp only at hclean
        split at hclean
        · exact mem_of_mem_removeDevice (ih hclean)
        · exact absurd hclean (by simp)
      · obtain rfl := Option.some.inj hclean
        exact hentry
    · exact ih hclean

/-- Nothing is removed when no entry that is still there starts in time. -/
theorem cleanEntries_eq_self
    (hlate : ∀ entry ∈ entries, entry.2.startAddr ≤ lastAddr → bus.rangesByAddr.contains entry.1 =
      false) : bus.cleanEntries lastAddr entries = some bus := by
  induction entries with
  | nil => rfl
  | cons first rest ih =>
    have hfirst := hlate first List.mem_cons_self
    have hrest := ih fun entry hentry => hlate entry (List.mem_cons_of_mem _ hentry)
    rw [cleanEntries]
    split
    next hthere =>
      rw [if_neg fun hstart => by rw [hfirst hstart] at hthere; exact Bool.noConfusion hthere]
    next => exact hrest

/-- An entry whose key is left by a removal is left. -/
theorem mem_removeDevice_of_contains {device : D}
    (hvisits : bus.rangesByAddr.contains entry.1 = true → entry ∈ bus.rangesByAddr)
    (hkept : (bus.removeDevice device).2.rangesByAddr.contains entry.1 = true) :
    entry ∈ (bus.removeDevice device).2.rangesByAddr := by
  obtain ⟨range, hrange⟩ := OrderedMap.contains_iff.mp hkept
  have hmem := mem_of_mem_removeDevice hrange
  have hentry := hvisits (OrderedMap.contains_iff.mpr ⟨range, hmem⟩)
  rw [OrderedMap.eq_of_key_eq hentry hmem rfl]
  exact hrange

/-- A cleaning that finds a range and has a result leaves a range that it has found: the last one it
visits is in its place, as the iterator must not be erased. -/
theorem cleanEntries_leaves {bus' : MemoryDataBus D}
    (hclean : bus.cleanEntries lastAddr entries = some bus')
    (hvisits : ∀ entry ∈ entries, bus.rangesByAddr.contains entry.1 = true → entry ∈
      bus.rangesByAddr)
    (hfound : ∃ entry ∈ entries, entry ∈ bus.rangesByAddr ∧ entry.2.startAddr ≤ lastAddr) :
    ∃ entry ∈ entries, entry ∈ bus'.rangesByAddr ∧ entry.2.startAddr ≤ lastAddr := by
  induction entries generalizing bus with
  | nil =>
    obtain ⟨entry, hentry, -⟩ := hfound
    exact absurd hentry List.not_mem_nil
  | cons first rest ih =>
    have hhere := hvisits first List.mem_cons_self
    rw [cleanEntries] at hclean
    split at hclean
    next hthere =>
      split at hclean
      next hstart =>
        dsimp only at hclean
        split at hclean
        next hkept =>
          have hagrees : ∀ entry ∈ first :: rest,
              (bus.removeDevice first.2.device).2.rangesByAddr.contains entry.1 = true →
                entry ∈ (bus.removeDevice first.2.device).2.rangesByAddr :=
            fun entry hentry => mem_removeDevice_of_contains (hvisits entry hentry)
          by_cases hmore : ∃ entry ∈ rest,
              entry ∈ (bus.removeDevice first.2.device).2.rangesByAddr ∧
                entry.2.startAddr ≤ lastAddr
          · obtain ⟨left, hleft, hin⟩ := ih hclean
              (fun entry hentry => hagrees entry (List.mem_cons_of_mem _ hentry)) hmore
            exact ⟨left, List.mem_cons_of_mem _ hleft, hin⟩
          · -- this was the last range found, and it is where the iterator stands
            rw [cleanEntries_eq_self fun entry hentry hlate => Bool.eq_false_iff.mpr fun hkey =>
              hmore ⟨entry, hentry, hagrees entry (List.mem_cons_of_mem _ hentry) hkey, hlate⟩]
              at hclean
            obtain rfl := Option.some.inj hclean
            exact ⟨first, List.mem_cons_self, hagrees first List.mem_cons_self hkept, hstart⟩
        next => exact absurd hclean (by simp)
      next =>
        obtain rfl := Option.some.inj hclean
        exact hfound
    next hgone =>
      obtain ⟨entry, hentry, hmem, hstart⟩ := hfound
      rcases List.mem_cons.mp hentry with rfl | hrest
      · exact absurd (OrderedMap.contains_iff.mpr ⟨_, hmem⟩) hgone
      · obtain ⟨left, hleft, hin⟩ := ih hclean
          (fun entry hentry => hvisits entry (List.mem_cons_of_mem _ hentry))
          ⟨entry, hrest, hmem, hstart⟩
        exact ⟨left, List.mem_cons_of_mem _ hleft, hin⟩

/-- A cleaning has a result, the range is free after it, and the devices without a range that meets
it are where they were. -/
def Cleans (bus : MemoryDataBus D) (startAddr lastAddr : Nat) : Prop :=
  ∃ cleaned, bus.cleanRange startAddr lastAddr = some cleaned ∧
    (∀ address, startAddr ≤ address → address ≤ lastAddr → cleaned.findRange address = none) ∧
    ∀ range ∈ bus.rangesByDevice,
      (∀ other ∈ bus.rangesByDevice, other.device = range.device →
        ¬Meets other startAddr lastAddr) →
      ∀ address, range.contains address = true → cleaned.findRange address = some range

/-- A cleaning works exactly if there is nothing to clean. -/
theorem Sound.cleans_iff (h : bus.Sound) {startAddr : Nat} (hle : startAddr ≤ lastAddr) :
    bus.Cleans startAddr lastAddr ↔
      ∀ range ∈ bus.rangesByDevice, ¬Meets range startAddr lastAddr := by
  constructor
  · rintro ⟨cleaned, hclean, hfree, -⟩ range hrange hmeets
    have hmem := (h.registered range).mp hrange
    have hvisited := mem_tailFrom.mpr ⟨hmem, hmeets.2⟩
    obtain ⟨entry, hentry, hleft, hstart⟩ := cleanEntries_leaves hclean
      (fun entry hentry _ => (mem_tailFrom.mp hentry).1)
      ⟨_, hvisited, hmem, hmeets.1⟩
    have hsound : AddrSound cleaned.rangesByAddr :=
      h.addr.mono fun _ => mem_of_mem_cleanEntries hclean
    obtain ⟨hkeyed, hrange⟩ := hsound.mem_iff.mp hleft
    have hordered := hsound.ordered _ hleft
    have hlast := (mem_tailFrom.mp hentry).2
    rw [hkeyed] at hlast
    -- the first address of the range that is left and of the cleaned one
    have hfind := (findRange_eq_some_iff hsound).mpr ⟨hrange,
      contains_iff.mpr ⟨Nat.le_max_right startAddr _, Nat.max_le.mpr ⟨hlast, hordered⟩⟩⟩
    rw [hfree _ (Nat.le_max_left _ _) (Nat.max_le.mpr ⟨hle, hstart⟩)] at hfind
    exact absurd hfind (by simp)
  · intro hnone
    have hself : bus.cleanRange startAddr lastAddr = some bus := by
      refine cleanEntries_eq_self fun entry hentry hstart => ?_
      obtain ⟨hmem, hlast⟩ := mem_tailFrom.mp hentry
      rw [h.addr.keyed _ hmem] at hlast
      exact absurd ⟨hstart, hlast⟩ (hnone _ ((h.registered _).mpr (h.addr.mem_iff.mp hmem).2))
    refine ⟨bus, hself, fun address hstart hlast => ?_, fun range hrange _ address hcontains => ?_⟩
    · rw [Option.eq_none_iff_forall_not_mem]
      intro range hfind
      obtain ⟨hrange, hcontains⟩ := h.findRange_iff.mp hfind
      obtain ⟨hfirst, hends⟩ := contains_iff.mp hcontains
      exact hnone range hrange ⟨hfirst.trans hlast, hstart.trans hends⟩
    · exact h.findRange_iff.mpr ⟨hrange, hcontains⟩

/-- A device is gone after its removal exactly if it had one range at most, and a cleaning works
exactly if there is nothing to clean. -/
theorem removal_complete_iff (bus : MemoryDataBus D) (h : bus.Sound) :
    (∀ device, (∀ address range, (bus.removeDevice device).2.findRange address = some range →
        range.device ≠ device) ↔ bus.AtMostOneRange device) ∧
      ∀ startAddr lastAddr, startAddr ≤ lastAddr →
        (bus.Cleans startAddr lastAddr ↔
          ∀ range ∈ bus.rangesByDevice, ¬Meets range startAddr lastAddr) :=
  ⟨h.removeDevice_iff, fun _ _ => h.cleans_iff⟩

end Removal

def twoRanges : MemoryDataBus Nat :=
  new.inserted [⟨0, 0x100, 0x1ff, false⟩, ⟨0, 0x300, 0x3ff, false⟩]

theorem twoRanges_sound : twoRanges.Sound := by
  refine sound_new.inserted ?_
  simp only [NeverEncloses, Encloses]
  decide

theorem removal_complete_iff_twoRanges :
    (∀ address range, (twoRanges.removeDevice 1).2.findRange address = some range →
        range.device ≠ 1) ∧
      twoRanges.Cleans 0x200 0x2ff := by
  have h := removal_complete_iff twoRanges twoRanges_sound
  refine ⟨(h.1 1).mpr ?_, (h.2 0x200 0x2ff (by decide)).mpr ?_⟩
  · rw [AtMostOneRange]
    decide
  · simp only [Meets]
    decide

/-- The device resolves after its removal.  A cleaning of its first range takes the second one, and
a cleaning of the second one erases the entry of its own iterator. -/
theorem removal_incomplete :
    (twoRanges.removeDevice 0).2.findRange 0x100 = some ⟨0, 0x100, 0x1ff, false⟩ ∧
      (twoRanges.cleanRange 0x100 0x1ff).bind (findRange 0x100) =
        some ⟨0, 0x100, 0x1ff, false⟩ ∧
      (twoRanges.cleanRange 0x300 0x3ff).isNone = true := by
  decide

end MemoryDataBus

end QtRvSim
