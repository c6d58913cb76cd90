import QtRvSim.Refinement.WalkCoherence

/-!
# Loads and stores

Loads and stores share the data cache, so a load needs no fence.  It reads the bytes stored last
through both levels, whatever else the core fetches, loads, stores or writes back.
-/

namespace QtRvSim

open PhysicalOp PhysicalMemory CachedMemory

namespace CacheConfigs

variable {cc : CacheConfigs} {hfit : cc.Fit} {a n : Nat}

theorem walkLevel_kept (hfit : cc.Fit) (x : Nat) : (walkLevel hfit).Kept x ↔ x < uncachedStart :=
  Iff.rfl

/-- The data cache reads and writes the block of `x` through the lines of the second level. -/
def LineBelow (cc : CacheConfigs) (x : Nat) : Prop :=
  cc.data.enabled = true → cc.level2.enabled = true →
    cc.data.blockOf x + cc.data.blockBytes < uncachedStart

theorem LineBelow.serves {x : Nat} (h : cc.LineBelow x) (hdata : cc.data.enabled = true) :
    ((walkLevel hfit).asView (walkLevel_kept hfit)).Serves (cc.data.blockOf x) cc.data.blockBytes :=
  ⟨fun he => ⟨Nat.le_of_lt (h hdata he), fun _ => h hdata he⟩, trivial⟩

/-- A range that both levels keep in their lines. -/
structure Lined (cc : CacheConfigs) (a n : Nat) : Prop where
  below : a + n < uncachedStart
  line : ∀ j < n, cc.LineBelow (a + j)

/-- The data cache over the second level. -/
def loadLevel (hfit : cc.Fit) : Level (LevelCache cc.level2 (Nat → Byte)) where
  cfg := cc.data
  view := (walkLevel hfit).asView (walkLevel_kept hfit)
  Kept x := x < uncachedStart ∧ cc.LineBelow x
  Exact := True
  fits := hfit.data
  low hx := hx.1
  exact_back _ _ _ _ := trivial
  exact_view _ := trivial
  serves hdata _ _ hx := hx.2.serves hdata

theorem Lined.serves (h : cc.Lined a n) : (loadLevel hfit).view.Serves a n :=
  Reached.serves ⟨Nat.le_of_lt h.below, fun _ => h.below⟩

theorem Lined.kept (h : cc.Lined a n) {j : Nat} (hj : j < n) : (loadLevel hfit).Kept (a + j) :=
  ⟨(Nat.add_lt_add_left hj a).trans h.below, h.line j hj⟩

end CacheConfigs

/-- A store of the core, through the lines or to the uncached window. -/
def PhysicalOp.Lined (cc : CacheConfigs) : PhysicalOp → Prop
  | .write port address bytes => port = .data ∧ (cc.Lined address.toNat bytes.length ∨
      Cache.isInUncachedArea address.toNat = true)
  | _ => True

namespace CachedMemory

open CacheConfigs

variable {cc : CacheConfigs} {hfit : cc.Fit} {f : Nat → Byte} {s : CachedMemory cc}

variable (hfit) in
/-- The data cache holds the content `f`. -/
def Loads (f : Nat → Byte) (s : CachedMemory cc) : Prop :=
  Present (loadLevel hfit) (fun _ _ => True) f s

theorem Loads.on (h : Loads hfit f s) {op : PhysicalOp} (hop : op.Lined cc) :
    Loads hfit (op.storedOn f) (op.on s) := by
  cases op with
  | read port address size bytes =>
    cases port with
    | program => exact (Present.read_program h space_true hfit.program address size).2.2
    | data => exact Present.read_data h rfl space_true address size
  | write port address bytes =>
    obtain ⟨rfl, hlined | harea⟩ := hop
    · have hbelow := hlined.below
      rw [uncachedStart] at hbelow
      exact Present.write_data h rfl space_true hlined.serves (by omega) (fun _ _ => trivial)
        (fun _ => hlined.kept) fun _ => hlined.below
    · have hstart := uncachedStart_le harea
      obtain ⟨hdata, hprogram⟩ := Present.write_window h rfl (fun _ _ _ => trivial) bytes harea
      exact ⟨hdata.congr fun x hx =>
        (AddressMap.write_of_lt _ _ (hx.1.trans_le hstart)).symm, hprogram⟩
  | sync port =>
    cases port with
    | program => exact (Present.sync_program h space_true hfit.program).1
    | data => exact (Present.sync_data h rfl space_true).1

theorem Loads.after (h : Loads hfit f s) {ops : List PhysicalOp} (hops : ∀ op ∈ ops, op.Lined cc) :
    Loads hfit (storedAfter f ops) (after s ops) := by
  induction ops generalizing f s with
  | nil => exact h
  | cons op ops ih =>
    exact ih (h.on (hops op List.mem_cons_self)) fun o ho => hops o (List.mem_cons_of_mem _ ho)

end CachedMemory

open CacheConfigs in
/-- In every run of either core, a read through the data port returns the bytes stored last. -/
theorem load_reads_stored {vm : VmSetup} {cc : CacheConfigs} {cfg : CoreConfig} {lib : CLibrary}
    {mem : Nat → Byte} {c : Core (VirtualMemory vm (Traced (CachedMemory cc)))}
    {calls : List MemCall} (hfit : cc.Fit) (hstart : c.mem.mem = .start (.new lib cc mem))
    (hrun : CoreSingle.Makes cfg c calls ∨ CorePipelined.Makes cfg c calls)
    {done rest : List PhysicalOp} {address : Address} {size : Nat} {bytes : List Byte}
    (hops : (MemCall.after c.mem calls).mem.ops = done ++ .read .data address size bytes :: rest)
    (hstores : ∀ op ∈ done, op.Lined cc) (hload : cc.Lined address.toNat size) :
    bytes = AddressMap.read (storedAfter mem done) address.toNat size := by
  have hmade : ∀ call ∈ calls, call.Made := hrun.elim CoreSingle.Makes.made
    CorePipelined.Makes.made
  have hfaithful := ((Traced.stable_faithful _).stableMem vm).after
    (hstart ▸ Traced.faithful_start (new lib cc mem)) hmade
  have hbytes : bytes = (read .data address size (after (new lib cc mem) done)).1 :=
    hfaithful.2 done _ rest hops
  have hsecond : (walkLevel hfit).Present (fun _ _ => True) mem (Cache.new lib cc.level2 mem) :=
    Level.present_new lib ⟨fun _ => trivial, fun _ _ => rfl⟩
  have hnew : CachedMemory.Loads hfit mem (new lib cc mem) := present_new lib rfl hsecond
  obtain ⟨bs, c', hread, hlength, -, -, hcontent⟩ :=
    (hnew.after hstores).data.read space_true size address.isLt
  rw [hbytes, read_eq .data hread, ← hlength]
  exact AddressMap.eq_read 0 fun j hj => hcontent
    (fun he => Cache.bypasses_of_low he hload.below) trivial hload.serves j (hlength ▸ hj)
    (hload.kept (hlength ▸ hj))

/-- A write-back second level under the data cache of `fenceCaches`. -/
def loadCaches : CacheConfigs :=
  { fenceCaches with level2 := ⟨true, 1, 1, 1, .lru, .back, Nat.one_pos, Nat.one_pos, Nat.one_pos⟩ }

/-- A program that stores 7 and loads it. -/
def loadMemory : Nat → Byte :=
  AddressMap.write (fun _ => 0) 0x200 ([0x00700293, 0x40502023, 0x40002303].flatMap
    fun word : Instruction => ByteMemory.bytesOfValue .little 4 word.toNat)

def loadCore : Core (VirtualMemory fenceVm (Traced (CachedMemory loadCaches))) :=
  .reset (.rv32 .none) (.default false)
    ⟨emptyTlb, emptyTlb, .start (.new ⟨id, id⟩ loadCaches loadMemory)⟩

theorem load_reads_stored_seven :
    ∃ done rest, (MemCall.after loadCore.mem
        ((CoreSingle.callsAfter (.rv32 .none) loadCore 3).getD [])).mem.ops =
        done ++ .read .data 0x400 4 [7, 0, 0, 0] :: rest ∧
      [7, 0, 0, 0] = AddressMap.read (storedAfter loadMemory done) 0x400 4 := by
  have hfit : loadCaches.Fit := by
    constructor <;> simp [loadCaches, fenceCaches, CacheConfig.FitsWord]
  have hlines : ∀ j < 4, loadCaches.data.blockOf (0x400 + j) + loadCaches.data.blockBytes <
      uncachedStart := by
    decide
  have hlined : loadCaches.Lined 0x400 4 := ⟨by decide, fun j hj _ _ => hlines j hj⟩
  have hops : (MemCall.after loadCore.mem
      ((CoreSingle.callsAfter (.rv32 .none) loadCore 3).getD [])).mem.ops =
      [.read .program 0x200 4 [0x93, 2, 0x70, 0], .read .program 0x204 4 [0x23, 0x20, 0x50, 0x40],
        .write .data 0x400 [7, 0, 0, 0], .read .program 0x208 4 [3, 0x23, 0, 0x40]] ++
        .read .data 0x400 4 [7, 0, 0, 0] :: [] := by
    decide +kernel
  refine ⟨_, _, hops, load_reads_stored hfit rfl
    (.inl (CoreSingle.makes_callsAfter (by decide +kernel))) hops ?_ hlined⟩
  simp [PhysicalOp.Lined, hlined]

end QtRvSim
