import QtRvSim.Core.PhysicalTrace
import QtRvSim.Refinement.FenceI

/-!
# Page-table walks and stores

Stores go through the data cache and page-table walks through the program cache, and `sfence.vma`
synchronises neither.  A walk reads the bytes stored last if stores reach the second level at once
and walks read it there, or if the caches were synchronised by a `fence.i` since the store.
-/

namespace QtRvSim

open FrontendMemory PhysicalOp PhysicalMemory CachedMemory

namespace CacheConfigs

variable {cc : CacheConfigs}

/-- The second level over the backing memory, read by walks. -/
def walkLevel (hfit : cc.Fit) : Level (Nat → Byte) :=
  { secondLevel hfit with
    Exact := True
    exact_back := fun _ _ _ _ => trivial
    exact_view := fun _ => trivial
    serves := fun _ _ _ _ => trivial }

/-- A data cache that keeps nothing back, over the second level. -/
def throughLevel (hfit : cc.Fit) (hthrough : ¬WritesBack cc.data) :
    Level (LevelCache cc.level2 (Nat → Byte)) where
  cfg := cc.data
  view := (walkLevel hfit).asView fun _ => Iff.rfl
  Kept x := x < uncachedStart
  Exact := False
  fits := hfit.data
  low h := h
  exact_back he hback _ _ := hthrough ⟨he, hback⟩
  exact_view h := h.elim
  serves _ h _ _ := h.elim

/-- Without a program cache its port leads to the second level. -/
def walkPort (hfit : cc.Fit) (hoff : cc.program.enabled = false) :
    Level (LevelCache cc.level2 (Nat → Byte)) where
  cfg := cc.program
  view := (walkLevel hfit).asView fun _ => Iff.rfl
  Kept x := x < uncachedStart
  Exact := True
  fits := hfit.program
  low h := h
  exact_back _ _ _ _ := trivial
  exact_view _ := trivial
  serves he := Bool.noConfusion (hoff.symm.trans he)

/-- The range lies below the uncached window, and the second level is not passed over. -/
def Reached (cc : CacheConfigs) (a n : Nat) : Prop :=
  a + n ≤ uncachedStart ∧ (cc.level2.enabled = true → a + n < uncachedStart)

theorem Reached.serves {hfit : cc.Fit} {a n : Nat}
    (h : cc.Reached a n) : ((walkLevel hfit).asView fun _ => Iff.rfl).Serves a n :=
  ⟨fun he => ⟨h.1, fun _ => h.2 he⟩, trivial⟩

end CacheConfigs

namespace CachedMemory

open CacheConfigs

variable {cc : CacheConfigs} {hfit : cc.Fit} {hthrough : ¬WritesBack cc.data} {f : Nat → Byte}
  {s : CachedMemory cc}

variable (hfit hthrough) in
/-- Below the data cache the content is `f`. -/
def Shared (f : Nat → Byte) (s : CachedMemory cc) : Prop :=
  Present (throughLevel hfit hthrough) (fun _ _ => True) f s

theorem space_true : ((walkLevel hfit).asView fun _ => Iff.rfl).Space fun _ _ => True :=
  ⟨fun _ _ _ => trivial, trivial⟩

theorem shared_new (lib : CLibrary) (mem : Nat → Byte) :
    Shared hfit hthrough mem (new lib cc mem) := by
  have hshows : flatView.Shows (fun _ _ => True) mem mem :=
    ⟨fun _ => trivial, fun _ _ => rfl⟩
  have hsecond : (walkLevel hfit).Present (fun _ _ => True) mem (Cache.new lib cc.level2 mem) :=
    Level.present_new lib hshows
  exact present_new lib rfl hsecond

section

variable (h : Shared hfit hthrough f s)
include h

/-- The second level shows the content. -/
theorem Shared.port (hoff : cc.program.enabled = false) :
    (walkPort hfit hoff).Present (fun _ _ => True) f (s.cache .program) := by
  obtain ⟨g, hshows, heq⟩ := h.data.loose fun _ => id
  have hno {P : Prop} (he : cc.program.enabled = true) : P :=
    Bool.noConfusion (hoff.symm.trans he)
  exact ⟨hno, hno, hno, g, hshows, fun x hx _ => heq x hx⟩

/-- What an operation through the port leaves there is the content. -/
theorem Shared.put_program {hoff : cc.program.enabled = false} {f' : Nat → Byte}
    {c : Cache (LevelCache cc.level2 (Nat → Byte))}
    (hc : (walkPort hfit hoff).Present (fun _ _ => True) f' c) :
    Shared hfit hthrough f' (s.put .program c) := by
  have hno {P : Prop} (he : cc.program.enabled = true) : P :=
    Bool.noConfusion (hoff.symm.trans he)
  obtain ⟨g, hshows, heq⟩ := hc.lower_eq hno
  exact ⟨h.data.over (fun _ => id) hshows heq _, hno⟩

/-- A read of a walk returns the content. -/
theorem Shared.read_program (hoff : cc.program.enabled = false) (a : Address) (n : Nat) :
    Shared hfit hthrough f (read .program a n s).2 ∧
      ((cc.level2.enabled = true → a.toNat + n < uncachedStart) →
        ∀ j < n, a.toNat + j < uncachedStart →
          (read .program a n s).1.getD j 0 = f (a.toNat + j)) := by
  obtain ⟨bs, c, hread, -, hpresent, -, hbytes⟩ := (h.port hoff).read space_true n a.isLt
  rw [read_eq .program hread]
  exact ⟨h.put_program hpresent, fun hlow => hbytes
    (fun he => Bool.noConfusion (hoff.symm.trans he)) trivial
    ⟨fun he => ⟨Nat.le_of_lt (hlow he), fun _ => hlow he⟩, trivial⟩⟩

end

theorem Shared.write (h : Shared hfit hthrough f s) (hoff : cc.program.enabled = false)
    (port : MemPort) {a : Address} {bs : List Byte} (hreached : cc.Reached a.toNat bs.length) :
    Shared hfit hthrough (AddressMap.write f a.toNat bs) (write port a bs s) := by
  have hbelow := hreached.1
  rw [uncachedStart] at hbelow
  cases port with
  | program =>
    -- an update of accessed and dirty bits
    have hno {P : Prop} (he : cc.program.enabled = true) : P :=
      Bool.noConfusion (hoff.symm.trans he)
    obtain ⟨r, c, hwrite, hpresent⟩ := (h.port hoff).write space_true hreached.serves (by omega)
      (fun _ _ => trivial) hno hno
    rw [write_eq .program hwrite]
    exact h.put_program hpresent
  | data =>
    exact Present.write_data h rfl space_true hreached.serves (by omega) (fun _ _ => trivial)
      (fun j hj => show a.toNat + j < uncachedStart by rw [uncachedStart]; omega) False.elim

/-- A store into the uncached window. -/
theorem Shared.write_window (h : Shared hfit hthrough f s) {a : Address} (bs : List Byte)
    (harea : Cache.isInUncachedArea a.toNat = true) :
    Shared hfit hthrough (AddressMap.write f a.toNat bs) (PhysicalMemory.write .data a bs s) := by
  have hstart := uncachedStart_le harea
  obtain ⟨hdata, hprogram⟩ := Present.write_window h rfl (fun _ _ _ => trivial) bs harea
  refine ⟨hdata.congr fun x hx => ?_, hprogram⟩
  have hlow : x < uncachedStart := hx
  rw [AddressMap.write_of_lt _ _ (by omega)]

theorem Shared.sync (h : Shared hfit hthrough f s) (hoff : cc.program.enabled = false)
    (port : MemPort) : Shared hfit hthrough f (sync port s) := by
  cases port with
  | program =>
    obtain ⟨c, hsync, hpresent, -⟩ := (h.port hoff).sync space_true
    rw [sync_eq .program hsync]
    exact h.put_program hpresent
  | data => exact (Present.sync_data h rfl space_true).1

end CachedMemory

/-! ### Operations of a run -/

namespace PhysicalOp

variable {cc : CacheConfigs}

def Stores (x : Nat) : PhysicalOp → Prop
  | .write _ address bytes => address.toNat ≤ x ∧ x < address.toNat + bytes.length
  | _ => False

/-- The bytes that were stored last, after an operation. -/
def storedOn (f : Nat → Byte) : PhysicalOp → Nat → Byte
  | .write _ address bytes => AddressMap.write f address.toNat bytes
  | _ => f

def storedAfter (f : Nat → Byte) (ops : List PhysicalOp) : Nat → Byte :=
  ops.foldl storedOn f

/-- A store reaches the second level or the backing memory where a walk reads it, or it goes to the
uncached window. -/
def Reaches (cc : CacheConfigs) : PhysicalOp → Prop
  | .write port address bytes => cc.Reached address.toNat bytes.length ∨
      port = .data ∧ Cache.isInUncachedArea address.toNat = true
  | _ => True

/-- A store of the core that no later write back overtakes, or that goes to the uncached window. -/
def Settles (cc : CacheConfigs) : PhysicalOp → Prop
  | .write port address bytes => port = .data ∧ (cc.Settles address.toNat bytes.length ∨
      Cache.isInUncachedArea address.toNat = true)
  | _ => True

def fenceI : List PhysicalOp := [.sync .data, .sync .program]

end PhysicalOp

namespace CachedMemory

open CacheConfigs

variable {cc : CacheConfigs} {hfit : cc.Fit} {f : Nat → Byte} {W : Nat → Prop}
  {s : CachedMemory cc}

theorem Shared.on {hthrough : ¬WritesBack cc.data} (h : Shared hfit hthrough f s)
    (hoff : cc.program.enabled = false) {op : PhysicalOp} (hop : op.Reaches cc) :
    Shared hfit hthrough (op.storedOn f) (op.on s) := by
  cases op with
  | read port address size bytes =>
    cases port with
    | program => exact (h.read_program hoff address size).1
    | data => exact Present.read_data h rfl space_true address size
  | write port address bytes =>
    rcases hop with hreached | ⟨rfl, harea⟩
    · exact h.write hoff port hreached
    · exact h.write_window bytes harea
  | sync port => exact h.sync hoff port

/-- What the operations of a run do to the content. -/
theorem Shared.after {hthrough : ¬WritesBack cc.data} (h : Shared hfit hthrough f s)
    (hoff : cc.program.enabled = false) {ops : List PhysicalOp} (hops : ∀ op ∈ ops, op.Reaches cc) :
    Shared hfit hthrough (storedAfter f ops) (after s ops) := by
  induction ops generalizing f s with
  | nil => exact h
  | cons op ops ih =>
    exact ih (h.on hoff (hops op List.mem_cons_self)) fun o ho => hops o (List.mem_cons_of_mem _ ho)

theorem Holds.onOp (h : Holds hfit f W s) {op : PhysicalOp} (hop : op.Settles cc) :
    Holds hfit (op.storedOn f) (fun x => W x ∨ op.Stores x) (op.on s) := by
  have hother {s' : CachedMemory cc} (h' : Holds hfit f W s') :
      Holds hfit f (fun x => W x ∨ False) s' :=
    h'.congr fun x => ⟨.inl, fun hx => hx.resolve_right id⟩
  cases op with
  | read port address size bytes =>
    exact hother (h.read_port port address size)
  | write port address bytes =>
    obtain ⟨rfl, hwrite⟩ := hop
    exact h.write_data hwrite
  | sync port => exact hother (h.sync_port port)

theorem Holds.afterOps (h : Holds hfit f W s) {ops : List PhysicalOp}
    (hops : ∀ op ∈ ops, op.Settles cc) :
    Holds hfit (PhysicalOp.storedAfter f ops) (fun x => W x ∨ ∃ op ∈ ops, op.Stores x)
      (PhysicalOp.after s ops) := by
  induction ops generalizing f W s with
  | nil => exact h.congr fun x => ⟨.inl, fun hx => hx.resolve_right fun ⟨_, ho, _⟩ => nomatch ho⟩
  | cons op ops ih =>
    refine (ih (h.onOp (hops op List.mem_cons_self)) fun o ho =>
      hops o (List.mem_cons_of_mem _ ho)).congr fun x => ?_
    rw [List.exists_mem_cons_iff, or_assoc]

end CachedMemory

namespace CacheConfigs

/-- A read of a walk sees the byte stored last at `x`, after the operations `done`. -/
inductive SeesStores (cc : CacheConfigs) (done : List PhysicalOp) (address : Address)
    (size x : Nat) :
    Prop where
  /-- Stores reach the second level at once, and the read goes there. -/
  | through (hprogram : cc.program.enabled = false) (hdata : ¬WritesBack cc.data)
      (hstores : ∀ op ∈ done, op.Reaches cc)
      (hread : cc.level2.enabled = true → address.toNat + size < uncachedStart)
  /-- The caches were synchronised since the last store, and accessed and dirty bits were not
  updated. -/
  | fenced (before mid : List PhysicalOp) (hdone : done = before ++ PhysicalOp.fenceI ++ mid)
      (hstores : ∀ op ∈ done, op.Settles cc) (hmid : ∀ op ∈ mid, ¬op.Stores x)
      (hblock : cc.BlockBelow x)

end CacheConfigs

/-- In every run of either core, a read through the program port, of a page-table walk or a fetch,
returns the bytes of memory that were stored last, where it sees the stores. -/
theorem walk_reads_stored {vm : VmSetup} {cc : CacheConfigs} {cfg : CoreConfig} {lib : CLibrary}
    {mem : Nat → Byte} {c : Core (VirtualMemory vm (Traced (CachedMemory cc)))}
    {calls : List MemCall} (hfit : cc.Fit) (hstart : c.mem.mem = .start (.new lib cc mem))
    (hrun : CoreSingle.Makes cfg c calls ∨ CorePipelined.Makes cfg c calls)
    {done rest : List PhysicalOp} {address : Address} {size : Nat} {bytes : List Byte}
    (hops : (MemCall.after c.mem calls).mem.ops =
      done ++ .read .program address size bytes :: rest)
    {j : Nat} (hj : j < size) (hlow : address.toNat + j < uncachedStart)
    (hsees : cc.SeesStores done address size (address.toNat + j)) :
    bytes.getD j 0 = PhysicalOp.storedAfter mem done (address.toNat + j) := by
  have hmade : ∀ call ∈ calls, call.Made := hrun.elim CoreSingle.Makes.made
    CorePipelined.Makes.made
  have hfaithful := ((Traced.stable_faithful _).stableMem vm).after
    (hstart ▸ Traced.faithful_start (new lib cc mem)) hmade
  have hbytes : bytes = (read .program address size
      (after (new lib cc mem) done)).1 :=
    hfaithful.2 done _ rest hops
  rw [hbytes]
  cases hsees with
  | through hprogram hdata hstores hread =>
    have hnew : CachedMemory.Shared hfit hdata mem (new lib cc mem) :=
      shared_new lib mem
    exact ((hnew.after hprogram hstores).read_program hprogram address size).2 hread j hj hlow
  | fenced before mid hdone hstores hmid hblock =>
    subst hdone
    have hnew : CachedMemory.Holds hfit mem (fun _ => False) (new lib cc mem) :=
      holds_new lib mem _
    have hbefore := hnew.afterOps fun op ho =>
      hstores op (List.mem_append_left _ (List.mem_append_left _ ho))
    have hfence := hbefore.fence.1.afterOps fun op ho =>
      hstores op (List.mem_append_right _ ho)
    have hgood := (hfence.read_program address size).2 j hj hlow hblock (by
      rintro (hx | ⟨op, ho, hx⟩)
      · exact hx
      · exact hmid op ho hx)
    have hstate : after (new lib cc mem)
        (before ++ fenceI ++ mid) =
        after (sync .program (sync .data
          (after (new lib cc mem) before))) mid := by
      rw [after_append, after_append]
      rfl
    have hcontent : storedAfter mem (before ++ fenceI ++ mid) =
        storedAfter (storedAfter mem before) mid := by
      rw [storedAfter, List.foldl_append, List.foldl_append]
      rfl
    rw [hstate, hcontent]
    exact hgood

def walkVm : VmSetup :=
  ⟨._32, true, ⟨1, 1, .lru, Nat.one_pos, Nat.one_pos⟩, ⟨1, 1, .lru, Nat.one_pos, Nat.one_pos⟩⟩

def walkCaches (policy : WritePolicy) : CacheConfigs where
  program := ⟨false, 1, 1, 1, .lru, .back, Nat.one_pos, Nat.one_pos, Nat.one_pos⟩
  data := ⟨true, 1, 1, 1, .lru, policy, Nat.one_pos, Nat.one_pos, Nat.one_pos⟩
  level2 := ⟨false, 1, 1, 1, .lru, .back, Nat.one_pos, Nat.one_pos, Nat.one_pos⟩

theorem walkCaches_fit (policy : WritePolicy) : (walkCaches policy).Fit := by
  constructor <;> simp [walkCaches, CacheConfig.FitsWord]

/-- A program that stores the first entry of a page table at 0x1000, fences and enters supervisor
mode with translation on. -/
def walkMemory : Nat → Byte :=
  AddressMap.write (fun _ => 0) 0x200
    ([0x804002b7, 0x00128293, 0x18029073, 0x0cf00313, 0x000013b7, 0x0063a023, 0x12000073,
      0x40000513, 0x00151513, 0x30051073, 0x23400593, 0x34159073, 0x30200073, 0x00000013].flatMap
      fun word : Instruction => ByteMemory.bytesOfValue .little 4 word.toNat)

def walkCore (policy : WritePolicy) :
    Core (VirtualMemory walkVm (Traced (CachedMemory (walkCaches policy)))) :=
  .reset (.rv32 .none) (.default false)
    ⟨{ emptyTlb with currentSatpRaw := 0 }, { emptyTlb with currentSatpRaw := 0 },
      .start (.new ⟨id, id⟩ (walkCaches policy) walkMemory)⟩

def walkCalls (policy : WritePolicy) : List MemCall :=
  (CoreSingle.callsAfter (.rv32 .none) (walkCore policy) 14).getD []

def walkOps (policy : WritePolicy) : List PhysicalOp :=
  (MemCall.after (walkCore policy).mem (walkCalls policy)).mem.ops

theorem walkCalls_made (policy : WritePolicy)
    (hrun : (CoreSingle.callsAfter (.rv32 .none) (walkCore policy) 14).isSome = true) :
    CoreSingle.Makes (.rv32 .none) (walkCore policy) (walkCalls policy) :=
  CoreSingle.makes_callsAfter hrun

def PhysicalOp.storeEnd : PhysicalOp → Nat
  | .write _ address bytes => address.toNat + bytes.length
  | _ => 0

theorem PhysicalOp.reaches_of_storeEnd {cc : CacheConfigs} {op : PhysicalOp}
    (h : op.storeEnd < uncachedStart) : op.Reaches cc := by
  cases op with
  | write port address bytes => exact .inl ⟨Nat.le_of_lt h, fun _ => h⟩
  | read | sync => trivial

/-- With a write-through data cache the walk of the first fetch in supervisor mode reads the stored
entry. -/
theorem walk_reads_stored_through :
    ∃ done rest bytes, walkOps .throughAlloc = done ++ .read .program 0x1000 4 bytes :: rest ∧
      bytes.getD 0 0 = PhysicalOp.storedAfter walkMemory done 0x1000 := by
  have hops : walkOps .throughAlloc = (walkOps .throughAlloc).take 14 ++
      .read .program 0x1000 4 [0xcf, 0, 0, 0] :: (walkOps .throughAlloc).drop 15 := by
    decide +kernel
  have hends : ∀ op ∈ (walkOps .throughAlloc).take 14, op.storeEnd < uncachedStart := by
    decide +kernel
  have hmade := walkCalls_made .throughAlloc (by decide +kernel)
  have hthrough : ¬CacheConfigs.WritesBack (walkCaches .throughAlloc).data :=
    fun h => absurd h.2 (by decide)
  refine ⟨_, _, _, hops, ?_⟩
  exact walk_reads_stored (walkCaches_fit .throughAlloc) rfl (.inl hmade) hops (by decide)
    (by decide) (.through rfl hthrough
      (fun op ho => reaches_of_storeEnd (hends op ho)) fun _ => by decide)

/-- With a write-back data cache the walk reads the entry that was there before the store, although
an `sfence.vma` was retired between the store and the walk. -/
theorem walk_misses_store :
    CoreSingle.Makes (.rv32 .none) (walkCore .back) (walkCalls .back) ∧
    (walkCaches .back).Fit ∧
    ∃ before later done rest,
      walkCalls .back = before ++ [.sfenceVma .data 0 0, .sfenceVma .program 0 0] ++ later ∧
      .write .data 0x1000 [0xcf, 0, 0, 0] ∈ (MemCall.after (walkCore .back).mem before).mem.ops ∧
      walkOps .back = done ++ .read .program 0x1000 4 [0, 0, 0, 0] :: rest ∧
      (MemCall.after (walkCore .back).mem before).mem.ops.length ≤ done.length ∧
      PhysicalOp.storedAfter walkMemory done 0x1000 = 0xcf :=
  ⟨walkCalls_made .back (by decide +kernel), walkCaches_fit .back, (walkCalls .back).take 29,
    (walkCalls .back).drop 31, (walkOps .back).take 14, (walkOps .back).drop 15,
    by decide +kernel, by decide +kernel, by decide +kernel, by decide +kernel, by decide +kernel⟩

end QtRvSim
