import QtRvSim.Memory.CacheSystem
import QtRvSim.Refinement.CacheTransparency

/-!
# The directory of a cache

Which block a line holds, and what the replacement policy knows, does not depend on the data in the
lines.  The directory of a cache keeps the tags of the valid lines and the policy.  An operation on
the cache is a sequence of directory events, one for each block it touches, over any lower memory
that raises no exception (`runEvents_directory`).
-/

namespace QtRvSim

open Outcome BitVec

/-- A lower memory raises no exceptions, as long as an invariant of its own holds. -/
structure LowerMemory.NeverFails {B : Type} [LowerMemory B] (P : B → Prop) : Prop where
  read : ∀ type source size {m : B}, P m → ∃ data m',
    LowerMemory.read type source size m = (.ok data, m') ∧ P m'
  write : ∀ type destination source {m : B}, P m → ∃ result m',
    LowerMemory.write type destination source m = (.ok result, m') ∧ P m'
  sync : ∀ {m : B}, P m → ∃ m', LowerMemory.sync m = (.ok (), m') ∧ P m'

theorem flat_neverFails : LowerMemory.NeverFails fun _ : Nat → Byte => True where
  read _ _ _ _ _ := ⟨_, _, rfl, trivial⟩
  write _ _ _ _ _ := ⟨_, _, rfl, trivial⟩
  sync _ := ⟨_, rfl, trivial⟩

/-- The tags of the valid lines, by way and row, and the replacement policy. -/
structure Directory where
  tags : Nat → Nat → Option Nat
  policy : CachePolicy

namespace Directory

def new (lib : CLibrary) (cfg : CacheConfig) : Directory :=
  ⟨fun _ _ => none, .getPolicyInstance lib cfg⟩

def setTag (way row : Nat) (tag : Option Nat) (d : Directory) : Directory :=
  { d with tags := fun w r => if w = way ∧ r = row then tag else d.tags w r }

def update (way row : Nat) (isValid : Bool) (d : Directory) : Directory :=
  { d with policy := (d.policy.updateStats way row isValid).2 }

variable (cfg : CacheConfig)

/-- The way that holds a block, or the associativity. -/
def find (row tag : Nat) (d : Directory) : Nat :=
  ((List.range cfg.associativity).find? fun way => d.tags way row == some tag).getD
    cfg.associativity

def victim (row : Nat) (d : Directory) : Nat :=
  (d.policy.selectWayToEvict cfg.associativity row).1

def empty (way row : Nat) (d : Directory) : Directory :=
  (d.setTag way row none).update way row false

/-- Brings a missing block into the way that is given up for it. -/
def bring (row tag : Nat) (d : Directory) : Directory :=
  ({ d with policy := (d.policy.selectWayToEvict cfg.associativity row).2 }.empty
    (d.victim cfg row) row).setTag (d.victim cfg row) row (some tag)

def use (row tag : Nat) (d : Directory) : Directory :=
  if d.find cfg row tag < cfg.associativity then d.update (d.find cfg row tag) row true
  else (d.bring cfg row tag).update (d.victim cfg row) row true

end Directory

/-- What can happen to a directory: a block is used, a block is used unless it is missing, a valid
line is emptied, all lines become invalid. -/
inductive DirectoryEvent where
  | use (row tag : Nat)
  | pass (row tag : Nat)
  | empty (way row : Nat)
  | reset
deriving DecidableEq, Repr

/-- The event concerns one block. -/
def DirectoryEvent.isUse : DirectoryEvent → Bool
  | .use _ _ | .pass _ _ => true
  | _ => false

namespace Directory

def step (cfg : CacheConfig) (d : Directory) : DirectoryEvent → Directory
  | .use row tag => d.use cfg row tag
  | .pass row tag => if d.find cfg row tag < cfg.associativity then d.use cfg row tag else d
  | .empty way row => if (d.tags way row).isSome then d.empty way row else d
  | .reset => { d with tags := fun _ _ => none }

def run (cfg : CacheConfig) (d : Directory) (events : List DirectoryEvent) : Directory :=
  events.foldl (step cfg) d

def hit (cfg : CacheConfig) (d : Directory) : DirectoryEvent → Bool
  | .use row tag | .pass row tag => d.find cfg row tag < cfg.associativity
  | _ => false

def miss (cfg : CacheConfig) (d : Directory) : DirectoryEvent → Bool
  | .use row tag | .pass row tag => cfg.associativity ≤ d.find cfg row tag
  | _ => false

/-- How many events of a run meet a condition, each in the directory it finds. -/
def count (cfg : CacheConfig) (f : Directory → DirectoryEvent → Bool) (d : Directory) :
    List DirectoryEvent → Nat
  | [] => 0
  | event :: events => (f d event).toNat + (d.step cfg event).count cfg f events

variable {d : Directory} {cfg : CacheConfig}

@[simp]
theorem setTag_tags_self (way row : Nat) (tag : Option Nat) :
    (d.setTag way row tag).tags way row = tag :=
  if_pos ⟨rfl, rfl⟩

theorem setTag_tags_of_ne {way row w r : Nat} (tag : Option Nat) (hne : ¬(w = way ∧ r = row)) :
    (d.setTag way row tag).tags w r = d.tags w r :=
  if_neg hne

theorem run_append (events events' : List DirectoryEvent) :
    d.run cfg (events ++ events') = (d.run cfg events).run cfg events' :=
  List.foldl_append

/-- A block that is found is in its way. -/
theorem tags_find {row tag : Nat} (hfound : d.find cfg row tag < cfg.associativity) :
    d.tags (d.find cfg row tag) row = some tag := by
  unfold find at hfound ⊢
  rcases hfind : (List.range cfg.associativity).find? fun way => d.tags way row == some tag with
    _ | way
  · rw [hfind] at hfound
    exact absurd hfound (Nat.lt_irrefl _)
  · have hheld := List.find?_some hfind
    rw [Option.getD_some]
    exact beq_iff_eq.mp hheld

/-- A block that is not found is in no way. -/
theorem tags_of_not_found {row tag : Nat} (hmiss : ¬d.find cfg row tag < cfg.associativity)
    {way : Nat} (hway : way < cfg.associativity) : d.tags way row ≠ some tag := by
  intro htag
  apply hmiss
  unfold find
  rcases hfind : (List.range cfg.associativity).find? fun way => d.tags way row == some tag with
    _ | w
  · have hnone := List.find?_eq_none.mp hfind way (List.mem_range.mpr hway)
    exact absurd (beq_iff_eq.mpr htag) hnone
  · exact List.mem_range.mp (List.mem_of_find?_eq_some hfind)

end Directory

/-! ### Events of an operation -/

inductive CacheCall where
  | read (type : AccessEffects) (source size : Nat)
  | write (type : AccessEffects) (destination : Nat) (source : List Byte)
  | flush
  | sync
  | reset

namespace CacheCall

def isAccess : CacheCall → Bool
  | .read _ _ _ | .write _ _ _ => true
  | _ => false

variable (cfg : CacheConfig)

def blockEvent (accessType : AccessType) (loc : CacheLocation) : DirectoryEvent :=
  if accessType = .write ∧ cfg.writePolicy = .throughNoalloc then .pass loc.row loc.tag
  else .use loc.row loc.tag

def accessEvents (accessType : AccessType) : Nat → Nat → Nat → List DirectoryEvent
  | 0, _, _ => []
  | fuel + 1, address, size =>
    let loc := cfg.computeLocation address
    let sizeOverflow := cfg.calculateOverflowToNextBlocks size loc
    if size = 0 then []
    else
      blockEvent cfg accessType loc ::
        if 0 < sizeOverflow then
          accessEvents accessType fuel ((address + (size - sizeOverflow)) % 2 ^ 64) sizeOverflow
        else []

/-- The events of a call.  Internal reads and accesses past the cache have none. -/
def events : CacheCall → List DirectoryEvent
  | .read type source size =>
    if Cache.bypasses cfg source size ∨ type = .internal then []
    else accessEvents cfg .read size source size
  | .write _ destination source =>
    if Cache.bypasses cfg destination source.length then []
    else accessEvents cfg .write source.length destination source.length
  | .flush | .sync =>
    if cfg.enabled then (Cache.places cfg).map fun place => .empty place.1 place.2 else []
  | .reset => if cfg.enabled then [.reset] else []

def onto {B : Type} [LowerMemory B] (c : Cache B) : CacheCall → Outcome (Cache B) Unit
  | .read type source size =>
    Outcome.andThen (c.read cfg type source size) fun _ c => (.ok (), c)
  | .write type destination source =>
    Outcome.andThen (c.write cfg type destination source) fun _ c => (.ok (), c)
  | .flush => c.flush cfg
  | .sync => c.sync cfg
  | .reset => (.ok (), c.reset cfg)

def ontoAll {B : Type} [LowerMemory B] : List CacheCall → Cache B → Outcome (Cache B) Unit
  | [], c => (.ok (), c)
  | call :: calls, c => Outcome.andThen (call.onto cfg c) fun _ c => ontoAll calls c

end CacheCall

namespace Cache

variable {B : Type} {cfg : CacheConfig} {c : Cache B}

def directory (c : Cache B) : Directory where
  tags way row := if (c.dt way row).valid then some (c.dt way row).tag else none
  policy := c.replacementPolicy

theorem directory_new (lib : CLibrary) (cfg : CacheConfig) (mem : B) :
    (new lib cfg mem).directory = Directory.new lib cfg :=
  rfl

theorem directory_tags_eq_some {way row tag : Nat} :
    c.directory.tags way row = some tag ↔ (c.dt way row).valid ∧ (c.dt way row).tag = tag := by
  rw [directory, Option.ite_none_right_eq_some, Option.some.injEq]

theorem directory_find (loc : CacheLocation) :
    c.directory.find cfg loc.row loc.tag = c.findBlockIndex cfg loc := by
  have hholds : (fun way => c.directory.tags way loc.row == some loc.tag) =
      c.holdsLocation loc := by
    funext way
    simp only [holdsLocation, directory]
    cases (c.dt way loc.row).valid <;> rfl
  rw [Directory.find, hholds, findBlockIndex]

/-- Only valid bits and tags enter the directory. -/
theorem directory_congr {c' : Cache B}
    (hline : ∀ way row, (c'.dt way row).valid = (c.dt way row).valid ∧
      (c'.dt way row).tag = (c.dt way row).tag)
    (hpolicy : c'.replacementPolicy = c.replacementPolicy) : c'.directory = c.directory := by
  unfold directory
  simp only [hline, hpolicy]

theorem directory_setLine (way row : Nat) (line : CacheLine) :
    (c.setLine way row line).directory =
      c.directory.setTag way row (if line.valid then some line.tag else none) := by
  unfold directory Directory.setTag setLine
  simp only [Directory.mk.injEq, and_true]
  funext w r
  split <;> rfl

/-! ### Simulation -/

/-- What an operation may leave of a cache: the directory it ends in and what it counted. -/
structure Reaches (cfg : CacheConfig) (P : B → Prop) (c : Cache B) (d : Directory)
    (hits misses : Nat) (c' : Cache B) : Prop where
  directory : c'.directory = d
  fits : c'.replacementPolicy.Fits cfg
  lower : P c'.mem
  hitCount : c'.getHitCount = c.getHitCount + BitVec.ofNat 32 hits
  missCount : c'.getMissCount = c.getMissCount + BitVec.ofNat 32 misses

namespace Reaches

variable {P : B → Prop} {c' c'' : Cache B} {d d' : Directory} {hits misses hits' misses' : Nat}

theorem refl (hfits : c.replacementPolicy.Fits cfg) (hlower : P c.mem) :
    Reaches cfg P c c.directory 0 0 c :=
  ⟨rfl, hfits, hlower, (add_zero _).symm, (add_zero _).symm⟩

theorem trans (h : Reaches cfg P c d hits misses c') (h' : Reaches cfg P c' d' hits' misses' c'') :
    Reaches cfg P c d' (hits + hits') (misses + misses') c'' where
  directory := h'.directory
  fits := h'.fits
  lower := h'.lower
  hitCount := by rw [h'.hitCount, h.hitCount, ofNat_add, add_assoc]
  missCount := by rw [h'.missCount, h.missCount, ofNat_add, add_assoc]

end Reaches

section Simulation

variable [LowerMemory B] {P : B → Prop} (hlower : LowerMemory.NeverFails P)

variable {way : Nat}

omit [LowerMemory B] in
theorem updateStats_directory (hfits : c.replacementPolicy.Fits cfg) (hmem : P c.mem)
    (hway : way < cfg.associativity) (row : Nat) (isValid : Bool) :
    ∃ c', c.updateStats way row isValid = (.ok (), c') ∧ c'.dt = c.dt ∧
      Reaches cfg P c (c.directory.update way row isValid) 0 0 c' := by
  obtain ⟨p, hupdate, hp⟩ := CachePolicy.updateStats_ok hfits hway row isValid
  refine ⟨{ c with replacementPolicy := p }, ?_, rfl, ?_, hp, hmem, (add_zero _).symm,
    (add_zero _).symm⟩
  · rw [updateStats, hupdate]
    rfl
  · simp only [Directory.update, directory, hupdate]

include hlower in
theorem kick_directory (hfits : c.replacementPolicy.Fits cfg) (hmem : P c.mem)
    (hway : way < cfg.associativity) (row : Nat) :
    ∃ c', c.kick cfg way row = (.ok (), c') ∧ (c'.dt way row).valid = false ∧
      Reaches cfg P c (c.directory.empty way row) 0 0 c' := by
  -- the write back leaves the lines and the policy
  obtain ⟨b, hback, hdt, hpolicy, hP, hhit, hmiss⟩ : ∃ b : Cache B,
      (if (c.dt way row).dirty ∧ cfg.writePolicy = .back then
        andThen
          (within (LowerMemory.write .regular (cfg.calcBaseAddress (c.dt way row).tag row)
            (c.dt way row).data c.mem) fun m => { c with mem := m })
          fun _ c => (.ok (), c.count fun n =>
            { n with
              memWrites := n.memWrites + BitVec.ofNat 32 cfg.blockSize
              burstWrites := n.burstWrites + BitVec.ofNat 32 (cfg.blockSize - 1) })
      else (.ok (), c)) = (.ok (), b) ∧ b.dt = c.dt ∧
        b.replacementPolicy = c.replacementPolicy ∧ P b.mem ∧ b.getHitCount = c.getHitCount ∧
        b.getMissCount = c.getMissCount := by
    split
    · obtain ⟨result, m, hwrite, hm⟩ := hlower.write .regular
        (cfg.calcBaseAddress (c.dt way row).tag row) (c.dt way row).data hmem
      rw [hwrite]
      exact ⟨_, rfl, rfl, rfl, hm, rfl, rfl⟩
    · exact ⟨c, rfl, rfl, rfl, hmem, rfl, rfl⟩
  let line := { c.dt way row with valid := false, dirty := false }
  let e := (b.setLine way row line).count fun n => { n with changeCounter := n.changeCounter + 1 }
  have hempty : e.directory = c.directory.setTag way row none := by
    have hb : b.directory = c.directory := directory_congr (by simp [hdt]) hpolicy
    rw [← hb]
    exact directory_setLine way row line
  have he : e.replacementPolicy.Fits cfg := by
    rwa [← hpolicy] at hfits
  obtain ⟨c', hupdate, hlines, hreach⟩ := updateStats_directory he hP hway row false
  refine ⟨c', ?_, ?_, ?_⟩
  · rw [kick, hback]
    exact hupdate
  · rw [hlines]
    exact congrArg CacheLine.valid (setLine_dt_self b way row line)
  · refine ⟨?_, hreach.fits, hreach.lower, hreach.hitCount.trans ?_, hreach.missCount.trans ?_⟩
    · rw [hreach.directory, hempty]
      rfl
    · rw [← hhit]
      rfl
    · rw [← hmiss]
      rfl

variable {loc : CacheLocation}

theorem fill_of_valid (hfits : c.replacementPolicy.Fits cfg) (hmem : P c.mem)
    (accessType : AccessType) (hvalid : (c.dt way loc.row).valid) :
    ∃ c', c.fill cfg accessType loc way = (.ok (), c') ∧ c'.dt = c.dt ∧
      Reaches cfg P c c.directory 1 0 c' := by
  refine ⟨_, if_pos hvalid, rfl, rfl, hfits, hmem, ?_, ?_⟩ <;>
    cases accessType <;> simp only [count, getHitCount, getMissCount] <;> bv_omega

include hlower in
theorem fill_of_invalid (hfits : c.replacementPolicy.Fits cfg) (hmem : P c.mem)
    (accessType : AccessType) (hvalid : (c.dt way loc.row).valid = false) :
    ∃ c', c.fill cfg accessType loc way = (.ok (), c') ∧ (c'.dt way loc.row).valid ∧
      Reaches cfg P c (c.directory.setTag way loc.row (some loc.tag)) 0 1 c' := by
  obtain ⟨data, m, hread, hm⟩ := hlower.read .regular (cfg.calcBaseAddress loc.tag loc.row)
    cfg.blockBytes hmem
  rw [fill, if_neg (by simp [hvalid])]
  simp only [count, hread, within, andThen_ok]
  refine ⟨_, rfl, ?_, ?_, hfits, hm, ?_, ?_⟩
  · exact congrArg CacheLine.valid (setLine_dt_self c way loc.row ⟨true, false, loc.tag, data⟩)
  · exact directory_setLine way loc.row ⟨true, false, loc.tag, data⟩
  · cases accessType <;> exact (add_zero _).symm
  · cases accessType <;> simp only [setLine, getMissCount] <;> bv_omega

omit [LowerMemory B] in
/-- The line of a block that is found is valid. -/
theorem valid_of_found (hfound : c.findBlockIndex cfg loc < cfg.associativity) :
    (c.dt (c.findBlockIndex cfg loc) loc.row).valid := by
  rw [← directory_find] at hfound ⊢
  exact (directory_tags_eq_some.mp (Directory.tags_find hfound)).1

/-- A block that is found stays in its line. -/
theorem bringIn_hit (hfits : c.replacementPolicy.Fits cfg) (hmem : P c.mem)
    (accessType : AccessType) (hfound : c.findBlockIndex cfg loc < cfg.associativity) :
    ∃ c', c.bringIn cfg accessType loc (c.findBlockIndex cfg loc) =
        (.ok (c.findBlockIndex cfg loc), c') ∧ c'.dt = c.dt ∧
      Reaches cfg P c (c.directory.use cfg loc.row loc.tag) 1 0 c' := by
  have hvalid := valid_of_found hfound
  obtain ⟨f, hfill, hdt, hf⟩ := fill_of_valid hfits hmem accessType hvalid
  obtain ⟨c', hupdate, hdt', hc'⟩ := updateStats_directory hf.fits hf.lower hfound loc.row true
  have huse : c.directory.use cfg loc.row loc.tag =
      f.directory.update (c.findBlockIndex cfg loc) loc.row true := by
    rw [Directory.use, directory_find, if_pos hfound, hf.directory]
  refine ⟨c', ?_, hdt'.trans hdt, huse ▸ hf.trans hc'⟩
  rw [bringIn, makeRoom, if_neg (by omega), andThen_ok, hfill, andThen_ok, hdt,
    hvalid, hupdate, andThen_ok]

include hlower in
/-- A missing block takes the line of the way that is given up. -/
theorem bringIn_miss (hfits : c.replacementPolicy.Fits cfg) (hmem : P c.mem)
    (accessType : AccessType) (hmiss : cfg.associativity ≤ c.findBlockIndex cfg loc) :
    ∃ way c', c.bringIn cfg accessType loc (c.findBlockIndex cfg loc) = (.ok way, c') ∧
      Reaches cfg P c (c.directory.use cfg loc.row loc.tag) 0 1 c' := by
  have hway : c.directory.victim cfg loc.row < cfg.associativity :=
    CachePolicy.selectWayToEvict_lt hfits loc.row
  let selected : Cache B := { c with
    replacementPolicy := (c.replacementPolicy.selectWayToEvict cfg.associativity loc.row).2 }
  have hselected : selected.replacementPolicy.Fits cfg :=
    CachePolicy.selectWayToEvict_fits hfits loc.row
  obtain ⟨k, hkick, hvalid, hk⟩ := kick_directory (c := selected) hlower hselected hmem hway
    loc.row
  obtain ⟨f, hfill, hfilled, hf⟩ := fill_of_invalid hlower hk.fits hk.lower accessType hvalid
  obtain ⟨c', hupdate, -, hc'⟩ := updateStats_directory hf.fits hf.lower hway loc.row true
  have huse : c.directory.use cfg loc.row loc.tag =
      f.directory.update (c.directory.victim cfg loc.row) loc.row true := by
    rw [Directory.use, directory_find, if_neg (by omega), hf.directory, hk.directory]
    rfl
  have hall := (hk.trans hf).trans hc'
  refine ⟨c.directory.victim cfg loc.row, c', ?_,
    hall.directory.trans huse.symm, hall.fits, hall.lower, hall.hitCount, hall.missCount⟩
  have hroom : c.makeRoom cfg loc (c.findBlockIndex cfg loc) =
      (.ok (c.directory.victim cfg loc.row), k) := by
    rw [makeRoom, if_pos hmiss]
    exact (congrArg (andThen · _) hkick).trans (if_pos hway)
  rw [bringIn, hroom, andThen_ok, hfill, andThen_ok, hfilled, hupdate, andThen_ok]

omit [LowerMemory B] in
/-- Copying bytes leaves the directory. -/
theorem transfer_directory (hfits : c.replacementPolicy.Fits cfg) (hmem : P c.mem)
    (accessType : AccessType) (loc : CacheLocation) (way : Nat) (buffer : List Byte) (size : Nat) :
    Reaches cfg P c c.directory 0 0 (c.transfer accessType loc way buffer size).2.2 := by
  cases accessType with
  | read => exact .refl hfits hmem
  | write =>
    have hline (line : CacheLine) (hvalid : line.valid = (c.dt way loc.row).valid)
        (htag : line.tag = (c.dt way loc.row).tag) :
        (c.setLine way loc.row line).directory = c.directory := by
      refine directory_congr (fun w r => ?_) rfl
      by_cases hwr : w = way ∧ r = loc.row
      · obtain ⟨rfl, rfl⟩ := hwr
        rw [setLine_dt_self]
        exact ⟨hvalid, htag⟩
      · rw [setLine_dt_of_ne c line hwr]
        exact ⟨rfl, rfl⟩
    simp only [transfer, setLine_setLine]
    split <;> exact ⟨hline _ rfl rfl, hfits, hmem, (add_zero _).symm, (add_zero _).symm⟩

/-- A run of events, with what it counts. -/
def RunsTo (cfg : CacheConfig) (P : B → Prop) (c : Cache B) (events : List DirectoryEvent)
    (c' : Cache B) : Prop :=
  Reaches cfg P c (c.directory.run cfg events) (c.directory.count cfg (Directory.hit cfg) events)
    (c.directory.count cfg (Directory.miss cfg) events) c'

omit [LowerMemory B] in
theorem RunsTo.cons {event : DirectoryEvent} {events : List DirectoryEvent} {c' c'' : Cache B}
    (h : Reaches cfg P c (c.directory.step cfg event) (c.directory.hit cfg event).toNat
      (c.directory.miss cfg event).toNat c')
    (hrest : RunsTo cfg P c' events c'') : RunsTo cfg P c (event :: events) c'' := by
  unfold RunsTo at hrest
  rw [h.directory] at hrest
  exact h.trans hrest

omit [LowerMemory B] in
theorem RunsTo.nil (hfits : c.replacementPolicy.Fits cfg) (hmem : P c.mem) :
    RunsTo cfg P c [] c :=
  .refl hfits hmem

include hlower in
/-- A block that is brought in and read or written is used. -/
theorem bringIn_transfer (hfits : c.replacementPolicy.Fits cfg) (hmem : P c.mem)
    (accessType : AccessType) (buffer : List Byte) (size : Nat)
    (huse : ¬(cfg.associativity ≤ c.findBlockIndex cfg loc ∧ accessType = .write ∧ cfg.writePolicy =
      .throughNoalloc)) :
    ∃ way c', c.bringIn cfg accessType loc (c.findBlockIndex cfg loc) = (.ok way, c') ∧
      Reaches cfg P c (c.directory.step cfg (CacheCall.blockEvent cfg accessType loc))
        (c.directory.hit cfg (CacheCall.blockEvent cfg accessType loc)).toNat
        (c.directory.miss cfg (CacheCall.blockEvent cfg accessType loc)).toNat
        (c'.transfer accessType loc way buffer size).2.2 := by
  have hstep : c.directory.step cfg (CacheCall.blockEvent cfg accessType loc) =
      c.directory.use cfg loc.row loc.tag := by
    unfold CacheCall.blockEvent
    split
    next hpass =>
      exact if_pos (by rw [directory_find]; by_contra hmiss; exact huse ⟨by omega, hpass⟩)
    next => rfl
  have hhit : c.directory.hit cfg (CacheCall.blockEvent cfg accessType loc) =
      decide (c.findBlockIndex cfg loc < cfg.associativity) := by
    rw [← directory_find]
    unfold CacheCall.blockEvent
    split <;> rfl
  have hmiss : c.directory.miss cfg (CacheCall.blockEvent cfg accessType loc) =
      decide (cfg.associativity ≤ c.findBlockIndex cfg loc) := by
    rw [← directory_find]
    unfold CacheCall.blockEvent
    split <;> rfl
  rw [hstep, hhit, hmiss]
  by_cases hfound : c.findBlockIndex cfg loc < cfg.associativity
  · obtain ⟨c', hbring, -, hc'⟩ := bringIn_hit hfits hmem accessType hfound
    have htransfer := transfer_directory hc'.fits hc'.lower accessType loc
      (c.findBlockIndex cfg loc) buffer size
    rw [decide_eq_true hfound, decide_eq_false (by omega)]
    exact ⟨_, c', hbring, hc'.directory ▸ hc'.trans htransfer⟩
  · have hmissing : cfg.associativity ≤ c.findBlockIndex cfg loc := by omega
    obtain ⟨way, c', hbring, hc'⟩ := bringIn_miss hlower hfits hmem accessType hmissing
    have htransfer := transfer_directory hc'.fits hc'.lower accessType loc way buffer size
    rw [decide_eq_false hfound, decide_eq_true hmissing]
    exact ⟨way, c', hbring, hc'.directory ▸ hc'.trans htransfer⟩

omit [LowerMemory B] in
/-- A write that is not allocated only counts its miss. -/
theorem pass_missing (hfits : c.replacementPolicy.Fits cfg) (hmem : P c.mem)
    {accessType : AccessType}
    (hpass : cfg.associativity ≤ c.findBlockIndex cfg loc ∧ accessType = .write ∧ cfg.writePolicy =
      .throughNoalloc) :
    Reaches cfg P c (c.directory.step cfg (CacheCall.blockEvent cfg accessType loc))
      (c.directory.hit cfg (CacheCall.blockEvent cfg accessType loc)).toNat
      (c.directory.miss cfg (CacheCall.blockEvent cfg accessType loc)).toNat
      (c.count fun n => { n with missWrite := n.missWrite + 1 }) := by
  obtain ⟨hmiss, hwrite⟩ := hpass
  rw [← directory_find] at hmiss
  have hnot : ¬c.directory.find cfg loc.row loc.tag < cfg.associativity := by omega
  rw [CacheCall.blockEvent, if_pos hwrite]
  refine ⟨(if_neg hnot).symm, hfits, hmem, ?_, ?_⟩
  · rw [Directory.hit, decide_eq_false hnot]
    exact (add_zero _).symm
  · rw [Directory.miss, decide_eq_true hmiss]
    exact (add_assoc _ _ _).symm

include hlower in
/-- An access is the sequence of its block events. -/
theorem access_directory (accessType : AccessType) (fuel address : Nat) (buffer : List Byte)
    (size : Nat) (hfits : c.replacementPolicy.Fits cfg) (hmem : P c.mem) :
    ∃ result c', c.access cfg accessType fuel address buffer size = (.ok result, c') ∧
      RunsTo cfg P c (CacheCall.accessEvents cfg accessType fuel address size) c' := by
  induction fuel generalizing address buffer size c with
  | zero => exact ⟨_, c, rfl, .nil hfits hmem⟩
  | succ fuel ih =>
    simp only [access, CacheCall.accessEvents]
    split
    · exact ⟨_, c, rfl, .nil hfits hmem⟩
    split
    next hpass =>
      have hblock := pass_missing hfits hmem hpass
      split
      next hover =>
        obtain ⟨result, c', hrest, hc'⟩ := ih _ _ _ hblock.fits hblock.lower
        exact ⟨result, c', hrest, .cons hblock hc'⟩
      next => exact ⟨_, _, rfl, .cons hblock (.nil hblock.fits hblock.lower)⟩
    next huse =>
      obtain ⟨way, b, hbring, hblock⟩ := bringIn_transfer hlower hfits hmem accessType _ _ huse
      rw [hbring, andThen_ok]
      split
      next hover =>
        obtain ⟨result, c', hrest, hc'⟩ := ih _ _ _ hblock.fits hblock.lower
        rw [hrest]
        exact ⟨_, c', rfl, .cons hblock hc'⟩
      next => exact ⟨_, _, rfl, .cons hblock (.nil hblock.fits hblock.lower)⟩

include hlower in
theorem kickAll_directory {places : List (Nat × Nat)}
    (hplaces : ∀ place ∈ places, place.1 < cfg.associativity)
    (hfits : c.replacementPolicy.Fits cfg) (hmem : P c.mem) :
    ∃ c', c.kickAll cfg places = (.ok (), c') ∧
      RunsTo cfg P c (places.map fun place => .empty place.1 place.2) c' := by
  induction places generalizing c with
  | nil => exact ⟨c, rfl, .nil hfits hmem⟩
  | cons place places ih =>
    obtain ⟨way, row⟩ := place
    obtain ⟨b, hkick, hb⟩ : ∃ b, (if (c.dt way row).valid then c.kick cfg way row
        else (.ok (), c)) = (.ok (), b) ∧
        Reaches cfg P c (c.directory.step cfg (.empty way row)) 0 0 b := by
      rw [Directory.step]
      by_cases hvalid : (c.dt way row).valid
      · obtain ⟨b, hkick, -, hb⟩ := kick_directory hlower hfits hmem
          (hplaces _ List.mem_cons_self) row
        rw [if_pos hvalid, directory_tags_eq_some.mpr ⟨hvalid, rfl⟩]
        exact ⟨b, hkick, hb⟩
      · have hnone : c.directory.tags way row = none := if_neg hvalid
        rw [if_neg hvalid, hnone]
        exact ⟨c, rfl, .refl hfits hmem⟩
    obtain ⟨c', hrest, hc'⟩ := ih (fun p hp => hplaces p (List.mem_cons_of_mem _ hp)) hb.fits
      hb.lower
    refine ⟨c', ?_, .cons hb hc'⟩
    rw [kickAll, hkick, andThen_ok, hrest]

include hlower in
theorem read_directory (type : AccessEffects) (source size : Nat)
    (hfits : c.replacementPolicy.Fits cfg) (hmem : P c.mem) :
    ∃ data c', c.read cfg type source size = (.ok data, c') ∧
      RunsTo cfg P c (CacheCall.events cfg (.read type source size)) c' := by
  obtain ⟨data, m, hread, hm⟩ := hlower.read type source size hmem
  rw [read]
  by_cases hbypass : bypasses cfg source size
  · have hnone : CacheCall.events cfg (.read type source size) = [] := if_pos (.inl hbypass)
    rw [if_pos hbypass, hnone]
    simp only [count, hread, within]
    exact ⟨data, _, rfl, rfl, hfits, hm, (add_zero _).symm, (add_zero _).symm⟩
  rw [if_neg hbypass]
  by_cases hinternal : type = .internal
  · have hnone : CacheCall.events cfg (.read type source size) = [] := if_pos (.inr hinternal)
    rw [if_pos hinternal, hnone]
    split
    · exact ⟨_, c, rfl, .nil hfits hmem⟩
    · rw [hread]
      exact ⟨data, _, rfl, rfl, hfits, hm, (add_zero _).symm, (add_zero _).symm⟩
  · have hevents : CacheCall.events cfg (.read type source size) =
        CacheCall.accessEvents cfg .read size source size :=
      if_neg (by simp [hbypass, hinternal])
    obtain ⟨result, c', haccess, hc'⟩ :=
      access_directory hlower .read size source [] size hfits hmem
    rw [if_neg hinternal, haccess, hevents]
    exact ⟨_, c', rfl, hc'⟩

include hlower in
theorem writeLower_directory (type : AccessEffects) (destination : Nat) (source : List Byte)
    (hfits : c.replacementPolicy.Fits cfg) (hmem : P c.mem) :
    ∃ result c', c.writeLower type destination source = (.ok result, c') ∧
      Reaches cfg P c c.directory 0 0 c' := by
  obtain ⟨result, m, hwrite, hm⟩ := hlower.write type destination source hmem
  simp only [writeLower, count, hwrite, within]
  exact ⟨_, _, rfl, rfl, hfits, hm, (add_zero _).symm, (add_zero _).symm⟩

include hlower in
theorem write_directory (type : AccessEffects) (destination : Nat) (source : List Byte)
    (hfits : c.replacementPolicy.Fits cfg) (hmem : P c.mem) :
    ∃ result c', c.write cfg type destination source = (.ok result, c') ∧
      RunsTo cfg P c (CacheCall.events cfg (.write type destination source)) c' := by
  simp only [write, CacheCall.events]
  split
  · exact writeLower_directory hlower type destination source hfits hmem
  · obtain ⟨result, b, haccess, hb⟩ := access_directory hlower .write source.length destination
      source source.length hfits hmem
    rw [haccess, andThen_ok]
    split
    · obtain ⟨below, c', hwrite, hc'⟩ := writeLower_directory hlower type destination source
        hb.fits hb.lower
      have hall := hb.trans hc'
      exact ⟨below, c', hwrite, hc'.directory.trans hb.directory, hc'.fits, hc'.lower,
        hall.hitCount, hall.missCount⟩
    · exact ⟨_, b, rfl, hb⟩

include hlower in
theorem flush_directory (hfits : c.replacementPolicy.Fits cfg) (hmem : P c.mem) :
    ∃ c', c.flush cfg = (.ok (), c') ∧ RunsTo cfg P c (CacheCall.events cfg .flush) c' := by
  simp only [flush, CacheCall.events]
  split
  · obtain ⟨b, hkick, hb⟩ := kickAll_directory hlower (mem_places_lt cfg) hfits hmem
    rw [hkick, andThen_ok]
    exact ⟨_, rfl, hb.directory, hb.fits, hb.lower, hb.hitCount, hb.missCount⟩
  · exact ⟨c, rfl, .nil hfits hmem⟩

include hlower in
theorem sync_directory (hfits : c.replacementPolicy.Fits cfg) (hmem : P c.mem) :
    ∃ c', c.sync cfg = (.ok (), c') ∧ RunsTo cfg P c (CacheCall.events cfg .sync) c' := by
  obtain ⟨b, hflush, hb⟩ := flush_directory hlower hfits hmem
  obtain ⟨m, hsync, hm⟩ := hlower.sync hb.lower
  refine ⟨{ b with mem := m }, ?_, hb.directory, hb.fits, hm, hb.hitCount, hb.missCount⟩
  rw [sync, hflush, andThen_ok, hsync]
  rfl

include hlower in
/-- Reads and writes of any kind, flushes and syncs are the sequence of their events, and count
them. -/
theorem onto_runsTo {call : CacheCall} (hcall : call ≠ .reset)
    (hfits : c.replacementPolicy.Fits cfg) (hmem : P c.mem) :
    ∃ c', call.onto cfg c = (.ok (), c') ∧ RunsTo cfg P c (call.events cfg) c' := by
  cases call with
  | read type source size =>
    obtain ⟨data, c', hread, hc'⟩ := read_directory hlower type source size hfits hmem
    exact ⟨c', by rw [CacheCall.onto, hread, andThen_ok], hc'⟩
  | write type destination source =>
    obtain ⟨result, c', hwrite, hc'⟩ := write_directory hlower type destination source hfits hmem
    exact ⟨c', by rw [CacheCall.onto, hwrite, andThen_ok], hc'⟩
  | flush => exact flush_directory hlower hfits hmem
  | sync => exact sync_directory hlower hfits hmem
  | reset => exact absurd rfl hcall

omit [LowerMemory B] in
theorem reset_directory :
    (c.reset cfg).directory = c.directory.run cfg (CacheCall.events cfg .reset) := by
  simp only [CacheCall.events]
  cases henabled : cfg.enabled with
  | false => exact directory_congr (by simp [reset, henabled]) rfl
  | true =>
    simp only [directory, reset, henabled, if_true, Bool.false_eq_true, if_false]
    rfl

include hlower in
/-- Every call is the sequence of its events. -/
theorem onto_directory (call : CacheCall) (hfits : c.replacementPolicy.Fits cfg)
    (hmem : P c.mem) :
    ∃ c', call.onto cfg c = (.ok (), c') ∧ c'.directory = c.directory.run cfg (call.events cfg) ∧
      c'.replacementPolicy.Fits cfg ∧ P c'.mem := by
  by_cases hreset : call = .reset
  · subst hreset
    exact ⟨c.reset cfg, rfl, reset_directory, hfits, hmem⟩
  · obtain ⟨c', hcall, hc'⟩ := onto_runsTo hlower hreset hfits hmem
    exact ⟨c', hcall, hc'.directory, hc'.fits, hc'.lower⟩

include hlower in
/-- A sequence of calls is the sequence of their events. -/
theorem ontoAll_directory (calls : List CacheCall) (hfits : c.replacementPolicy.Fits cfg)
    (hmem : P c.mem) :
    ∃ c', CacheCall.ontoAll cfg calls c = (.ok (), c') ∧
      c'.directory = c.directory.run cfg (calls.flatMap (CacheCall.events cfg)) ∧
      c'.replacementPolicy.Fits cfg ∧ P c'.mem := by
  induction calls generalizing c with
  | nil => exact ⟨c, rfl, rfl, hfits, hmem⟩
  | cons call calls ih =>
    obtain ⟨b, hcall, hdir, hb, hbmem⟩ := onto_directory hlower call hfits hmem
    obtain ⟨c', hrest, hdir', hc', hmem'⟩ := ih hb hbmem
    refine ⟨c', ?_, ?_, hc', hmem'⟩
    · rw [CacheCall.ontoAll, hcall, andThen_ok, hrest]
    · rw [hdir', hdir, List.flatMap_cons, Directory.run_append]

end Simulation

end Cache

end QtRvSim
