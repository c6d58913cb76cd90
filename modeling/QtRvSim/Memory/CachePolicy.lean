import QtRvSim.Machine.Machinedefs
import Mathlib.Data.List.Perm.Basic
import Mathlib.Data.List.Nodup
import Mathlib.Data.Nat.Log

/-!
# Replacement policies of the cache

The five policies of `memory/cache/cache_policy.cpp`.  A policy selects the way of a row to evict
and is told about every way that is used or emptied.  Random numbers are a stream that the policy
consumes; the stream is left open, as is the rounding of the floating point logarithm that sizes
the pointer trees.
-/

namespace QtRvSim

/-- What the C library supplies: the numbers `std::rand` returns after `std::srand(1)` and the
value of `std::ceil(log2((float)n))`. -/
structure CLibrary where
  rand : Nat → Nat
  ceilLog2 : Nat → Nat

/-- What is assumed of the logarithm, which is computed in floating point numbers of 24 bits: it is
monotone, exact on powers of two, and right for small numbers. -/
structure CLibrary.Log2Sound (lib : CLibrary) : Prop where
  mono : ∀ {m n : Nat}, 0 < m → m ≤ n → lib.ceilLog2 m ≤ lib.ceilLog2 n
  pow : ∀ k, lib.ceilLog2 (2 ^ k) = k
  small : ∀ n, 0 < n → n ≤ 2 ^ 16 → lib.ceilLog2 n = Nat.clog 2 n

namespace CLibrary.Log2Sound

variable {lib : CLibrary} {n : Nat}

theorem pos (h : lib.Log2Sound) (hn : 2 ≤ n) : 1 ≤ lib.ceilLog2 n := by
  have hmono := h.mono (by decide) hn
  rwa [show (2 : Nat) = 2 ^ 1 from rfl, h.pow] at hmono

/-- The logarithm is not too large. -/
theorem pow_lt (h : lib.Log2Sound) (hn : 2 ≤ n) : 2 ^ (lib.ceilLog2 n - 1) < n := by
  by_contra hle
  have hmono := h.mono (by omega) (Nat.not_lt.mp hle)
  rw [h.pow] at hmono
  have hpos := h.pos hn
  omega

end CLibrary.Log2Sound

/-- The exception of a failed sanity check, with the stringified message. -/
def sanityException (msg : String) : SimulatorException :=
  ⟨.sanity, "Internal error",
    "An internal error occurred in the simulator. We are sorry for the inconvenience." ++
    "To help get the simulator fixed ASAP, please report this incident to your " ++
    "teacher and/or file an issue at\n\n" ++
    "https://github.com/cvut/qtrvsim/issues.\n\n" ++
    "Please attach the program you were executing, used configuration of the " ++
    "simulator, description of steps you have taken and a copy of the following " ++
    "message:\n\n" ++ msg, .none⟩

inductive ReplacementPolicy where
  | rand | lru | lfu | plru | nmru
deriving DecidableEq, Repr

inductive WritePolicy where
  | throughNoalloc | throughAlloc | back
deriving DecidableEq, Repr

/-- Configuration of a cache; the setters of the source keep the three sizes positive. -/
structure CacheConfig where
  enabled : Bool
  setCount : Nat
  blockSize : Nat
  associativity : Nat
  replacementPolicy : ReplacementPolicy
  writePolicy : WritePolicy
  setCount_pos : 0 < setCount
  blockSize_pos : 0 < blockSize
  associativity_pos : 0 < associativity

/-- State of a replacement policy; the tables are indexed by the row. -/
inductive CachePolicy where
  | rand (random : Nat → Nat)
  | lru (stats : Nat → List Nat)
  | lfu (stats : Nat → List (BitVec 32))
  | plru (associativityCLog2 : Nat) (plruPtr : Nat → List Nat)
  | nmru (random : Nat → Nat) (mruPtr : Nat → Nat)

/-- One pass of bubble sort that puts an element into a sequence and takes its old instance out.
The flag tells whether the old instance was found before the end of the sequence. -/
def bubble (way : Nat) : Nat → List Nat → List Nat × Bool
  | _, [] => ([], false)
  | nextWay, x :: xs =>
    if x = way then (nextWay :: xs, true)
    else (nextWay :: (bubble way x xs).1, (bubble way x xs).2)

/-- The first way with an unused counter, or else the first with the lowest counter. -/
def selectLowest : Nat → Nat → BitVec 32 → List (BitVec 32) → Nat
  | _, index, _, [] => index
  | i, index, lowest, stat :: stats =>
    if stat = 0 then i
    else if lowest > stat then selectLowest (i + 1) i stat stats
    else selectLowest (i + 1) index lowest stats

/-- Turns the pointers on the way through the tree away from the accessed way, in `n` levels from
level `i` on. -/
def togglePointers (associativityCLog2 way : Nat) : Nat → Nat → Nat → List Nat → List Nat
  | 0, _, _, rowPtr => rowPtr
  | n + 1, i, plruIdx, rowPtr =>
    togglePointers associativityCLog2 way n (i + 1)
      (2 ^ (i + 1) - 1 + way >>> (associativityCLog2 - 1 - i))
      (rowPtr.set plruIdx (if (way >>> (associativityCLog2 - 1 - i)) % 2 = 1 then 0 else 1))

/-- Follows the pointers of the tree in `n` levels from level `i` on. -/
def followPointers (rowPtr : List Nat) : Nat → Nat → Nat → Nat → Nat
  | 0, _, idx, _ => idx
  | n + 1, i, idx, plruIdx =>
    followPointers rowPtr n (i + 1) (2 * idx + rowPtr.getD plruIdx 0)
      (2 ^ (i + 1) - 1 + (2 * idx + rowPtr.getD plruIdx 0))

namespace CachePolicy

def getPolicyInstance (lib : CLibrary) (cfg : CacheConfig) : CachePolicy :=
  match cfg.replacementPolicy with
  | .rand => .rand lib.rand
  | .lru => .lru fun _ => List.range cfg.associativity
  | .lfu => .lfu fun _ => List.replicate cfg.associativity 0
  | .plru => .plru (lib.ceilLog2 cfg.associativity) fun _ =>
    List.replicate (2 ^ lib.ceilLog2 cfg.associativity - 1) 0
  | .nmru => .nmru lib.rand fun _ => 0

def setRow {α : Type} (table : Nat → α) (row : Nat) (entry : α) : Nat → α :=
  fun r => if r = row then entry else table r

def updateStats (way row : Nat) (isValid : Bool) : CachePolicy → Outcome CachePolicy Unit
  | .rand random => (.ok (), .rand random)
  | .lru stats =>
    let pass := if isValid then bubble way way (stats row).reverse else bubble way way (stats row)
    let rowStats := if isValid then pass.1.reverse else pass.1
    (if pass.2 then .ok ()
      else .error (sanityException "\"Out of range: LRU lost the way from priority queue.\""),
      .lru (setRow stats row rowStats))
  | .lfu stats =>
    let statItem := if isValid then (stats row).getD way 0 + 1 else 0
    (.ok (), .lfu (setRow stats row ((stats row).set way statItem)))
  | .plru associativityCLog2 plruPtr =>
    (.ok (), .plru associativityCLog2 (setRow plruPtr row
      (togglePointers associativityCLog2 way associativityCLog2 0 0 (plruPtr row))))
  | .nmru random mruPtr => (.ok (), .nmru random (setRow mruPtr row way))

/-- The way to evict, and the policy with the rest of its random numbers. -/
def selectWayToEvict (associativity row : Nat) : CachePolicy → Nat × CachePolicy
  | .rand random => (random 0 % associativity, .rand fun n => random (n + 1))
  | .lru stats => ((stats row).headD 0, .lru stats)
  | .lfu stats => (selectLowest 0 0 ((stats row).headD 0) (stats row), .lfu stats)
  | .plru associativityCLog2 plruPtr =>
    let idx := followPointers (plruPtr row) associativityCLog2 0 0 0
    (if associativity ≤ idx then associativity - 1 else idx, .plru associativityCLog2 plruPtr)
  | .nmru random mruPtr =>
    if associativity = 1 then (0, .nmru random mruPtr)
    else
      let idx := random 0 % (associativity - 1)
      (if idx < mruPtr row then idx else idx + 1, .nmru (fun n => random (n + 1)) mruPtr)

/-- The tables of a policy fit the configuration; the queue of the LRU policy holds every way
once. -/
def Fits (cfg : CacheConfig) : CachePolicy → Prop
  | .rand _ => cfg.replacementPolicy = .rand
  | .lru stats => cfg.replacementPolicy = .lru ∧
      ∀ row, (stats row).Perm (List.range cfg.associativity)
  | .lfu stats => cfg.replacementPolicy = .lfu ∧ ∀ row, (stats row).length = cfg.associativity
  | .plru _ _ => cfg.replacementPolicy = .plru
  | .nmru _ _ => cfg.replacementPolicy = .nmru

end CachePolicy

/-! ### Selecting a way -/

theorem selectLowest_lt {n i index : Nat} (lowest : BitVec 32) (stats : List (BitVec 32))
    (hindex : index < n) (hlen : i + stats.length ≤ n) :
    selectLowest i index lowest stats < n := by
  induction stats generalizing i index lowest with
  | nil => exact hindex
  | cons stat stats ih =>
    rw [List.length_cons] at hlen
    rw [selectLowest]
    split
    · omega
    split
    · exact ih stat (by omega) (by omega)
    · exact ih lowest hindex (by omega)

/-- A pass that finds the old instance moves the element to the front. -/
theorem bubble_of_mem {way : Nat} {l : List Nat} (hmem : way ∈ l) (nextWay : Nat) :
    bubble way nextWay l = (nextWay :: l.erase way, true) := by
  induction l generalizing nextWay with
  | nil => exact absurd hmem List.not_mem_nil
  | cons x xs ih =>
    rw [bubble]
    by_cases hx : x = way
    · rw [if_pos hx, hx, List.erase_cons_head]
    · have hrest : way ∈ xs := (List.mem_cons.mp hmem).resolve_left (Ne.symm hx)
      rw [if_neg hx, ih hrest, List.erase_cons_tail (by simpa using hx)]

namespace CachePolicy

variable {cfg : CacheConfig}

theorem fits_getPolicyInstance (lib : CLibrary) (cfg : CacheConfig) :
    Fits cfg (getPolicyInstance lib cfg) := by
  rcases hpolicy : cfg.replacementPolicy with _ | _ | _ | _ | _ <;>
    simp [getPolicyInstance, hpolicy, Fits]

variable {p : CachePolicy}

/-- Whatever the policy, the selected way exists. -/
theorem selectWayToEvict_lt (hfits : p.Fits cfg) (row : Nat) :
    (p.selectWayToEvict cfg.associativity row).1 < cfg.associativity := by
  have hpos := cfg.associativity_pos
  cases p with
  | rand random => exact Nat.mod_lt _ hpos
  | lru stats =>
    have hperm := hfits.2 row
    rcases hrow : stats row with _ | ⟨way, ways⟩
    · simpa [selectWayToEvict, hrow] using hpos
    · have hmem : way ∈ List.range cfg.associativity :=
        hperm.mem_iff.mp (by rw [hrow]; exact List.mem_cons_self)
      simpa [selectWayToEvict, hrow] using hmem
  | lfu stats =>
    have hlen := hfits.2 row
    exact selectLowest_lt _ _ hpos (by omega)
  | plru associativityCLog2 plruPtr =>
    simp only [selectWayToEvict]
    split <;> omega
  | nmru random mruPtr =>
    simp only [selectWayToEvict]
    split
    · exact hpos
    · have hmod := Nat.mod_lt (random 0) (show 0 < cfg.associativity - 1 by omega)
      split <;> omega

theorem selectWayToEvict_fits (hfits : p.Fits cfg) (row : Nat) :
    (p.selectWayToEvict cfg.associativity row).2.Fits cfg := by
  cases p with
  | nmru random mruPtr =>
    simp only [selectWayToEvict]
    split <;> exact hfits
  | _ => exact hfits

/-! ### Updates -/

variable {α : Type}

@[simp]
theorem setRow_self (table : Nat → α) (row : Nat) (entry : α) :
    setRow table row entry row = entry :=
  if_pos rfl

theorem setRow_of_ne (table : Nat → α) {row r : Nat} (entry : α) (hr : r ≠ row) :
    setRow table row entry r = table r :=
  if_neg hr

theorem setRow_setRow (table : Nat → α) (row : Nat) (entry entry' : α) :
    setRow (setRow table row entry) row entry' =
      setRow table row entry' := by
  funext r
  by_cases hr : r = row
  · rw [hr, setRow_self, setRow_self]
  · rw [setRow_of_ne _ _ hr, setRow_of_ne _ _ hr, setRow_of_ne _ _ hr]

/-- The queue of a row after an update: a used way goes to the end, an emptied one to the
front. -/
def requeue (way : Nat) (isValid : Bool) (queue : List Nat) : List Nat :=
  if isValid then queue.erase way ++ [way] else way :: queue.erase way

variable {way : Nat}

theorem requeue_perm {queue : List Nat} (hmem : way ∈ queue) (isValid : Bool) :
    (requeue way isValid queue).Perm queue := by
  have hfront : (way :: queue.erase way).Perm queue := (List.perm_cons_erase hmem).symm
  cases isValid with
  | false => exact hfront
  | true => exact (List.perm_append_singleton way (queue.erase way)).trans hfront

/-- Emptying a way before it is used does not change its place in the queue. -/
theorem requeue_requeue (way : Nat) (queue : List Nat) :
    requeue way true (requeue way false queue) = requeue way true queue := by
  simp [requeue]

theorem updateStats_lru {stats : Nat → List Nat} {row : Nat} (isValid : Bool)
    (hmem : way ∈ stats row) (hnodup : (stats row).Nodup) :
    updateStats way row isValid (.lru stats) =
      (.ok (), .lru (setRow stats row (requeue way isValid (stats row)))) := by
  cases isValid with
  | false => simp [updateStats, bubble_of_mem hmem, requeue]
  | true =>
    have herase : ((stats row).reverse.erase way).reverse = (stats row).erase way := by
      rw [hnodup.erase_eq_filter, (List.nodup_reverse.mpr hnodup).erase_eq_filter,
        List.filter_reverse, List.reverse_reverse]
    simp [updateStats, bubble_of_mem (List.mem_reverse.mpr hmem), requeue, herase]

/-- Updates of existing ways never fail and keep the tables in shape. -/
theorem updateStats_ok (hfits : p.Fits cfg) (hway : way < cfg.associativity) (row : Nat)
    (isValid : Bool) : ∃ p', p.updateStats way row isValid = (.ok (), p') ∧ p'.Fits cfg := by
  cases p with
  | rand random => exact ⟨_, rfl, hfits⟩
  | lru stats =>
    have hperm := hfits.2 row
    have hmem : way ∈ stats row := hperm.mem_iff.mpr (List.mem_range.mpr hway)
    refine ⟨_, updateStats_lru isValid hmem (hperm.nodup_iff.mpr List.nodup_range),
      hfits.1, fun r => ?_⟩
    by_cases hr : r = row
    · subst hr
      rw [setRow_self]
      exact (requeue_perm hmem isValid).trans hperm
    · rw [setRow_of_ne _ _ hr]
      exact hfits.2 r
  | lfu stats =>
    refine ⟨_, rfl, hfits.1, fun r => ?_⟩
    by_cases hr : r = row
    · subst hr
      rw [setRow_self, List.length_set]
      exact hfits.2 r
    · rw [setRow_of_ne _ _ hr]
      exact hfits.2 r
  | plru | nmru => exact ⟨_, rfl, hfits⟩

end CachePolicy

end QtRvSim
