import QtRvSim.Memory.Tlb
import Mathlib.Tactic.IntervalCases

/-!
# Tree policies of the cache and of the TLB

Both keep a binary tree of pointers in a list and turn the pointers on the way to an accessed leaf
away from it.  The cache finds the next node from all directions taken so far, the TLB from the last
one alone.  The two agree as long as the tree has two levels (`plru_agree_iff`).
-/

namespace QtRvSim

open TlbPolicy CachePolicy

/-! ### Following pointers -/

/-- Further levels append bits to the index. -/
theorem le_followPointers (rowPtr : List Nat) (n i idx plruIdx : Nat) :
    idx * 2 ^ n ≤ followPointers rowPtr n i idx plruIdx := by
  induction n generalizing i idx plruIdx with
  | zero => rw [followPointers, pow_zero, Nat.mul_one]
  | succ n ih =>
    rw [followPointers]
    refine Nat.le_trans ?_ (ih _ _ _)
    rw [pow_succ', ← Nat.mul_assoc, Nat.mul_comm idx 2]
    exact Nat.mul_le_mul_right _ (Nat.le_add_right _ _)

/-- Pointers to the left lead to the first leaf. -/
theorem followPointers_zero {rowPtr : List Nat} {n i : Nat}
    (h : ∀ j, i ≤ j → j < i + n → rowPtr.getD (2 ^ j - 1) 0 = 0) :
    followPointers rowPtr n i 0 (2 ^ i - 1) = 0 := by
  induction n generalizing i with
  | zero => rfl
  | succ n ih =>
    rw [followPointers, h i (Nat.le_refl _) (by omega)]
    exact ih fun j hj hlt => h j (by omega) (by omega)

/-! ### Turning pointers -/

/-- The cache writes one node of each level. -/
theorem getD_togglePointers {cLog2 way n i plruIdx k : Nat} {rowPtr : List Nat}
    (hnode : k ≠ plruIdx)
    (hlater : ∀ j, i < j → j < i + n → k ≠ 2 ^ j - 1 + way >>> (cLog2 - j)) :
    (togglePointers cLog2 way n i plruIdx rowPtr).getD k 0 = rowPtr.getD k 0 := by
  induction n generalizing i plruIdx rowPtr with
  | zero => rfl
  | succ n ih =>
    rw [togglePointers]
    cases n with
    | zero =>
      rw [togglePointers, List.getD_eq_getElem?_getD, List.getElem?_set_ne hnode.symm,
        List.getD_eq_getElem?_getD]
    | succ n =>
      have hnext := hlater (i + 1) (by omega) (by omega)
      have hlevel : cLog2 - 1 - i = cLog2 - (i + 1) := by omega
      rw [ih]
      · rw [List.getD_eq_getElem?_getD, List.getElem?_set_ne hnode.symm, List.getD_eq_getElem?_getD]
      · rw [hlevel]
        exact hnext
      · exact fun j hj hlt => hlater j (by omega) (by omega)

/-- The TLB writes nodes of the following levels only. -/
theorem getD_turnBits {cLog2 way n lvl node k : Nat} {bits : List Nat} (hnode : k ≠ node)
    (hlevel : k < 2 ^ (lvl + 1) - 1) :
    (turnBits cLog2 way n lvl node bits).getD k 0 = bits.getD k 0 := by
  induction n generalizing lvl node bits with
  | zero => rfl
  | succ n ih =>
    have hpow : 2 ^ (lvl + 1) ≤ 2 ^ (lvl + 1 + 1) := Nat.pow_le_pow_right (by decide) (by omega)
    rw [turnBits]
    rw [ih (by omega) (by omega), List.getD_eq_getElem?_getD, List.getElem?_set_ne hnode.symm,
      List.getD_eq_getElem?_getD]

/-! ### Agreement -/

structure PlruAccess where
  set : Nat
  way : Nat
  isValid : Bool

def cachePlru (lib : CLibrary) (cfg : CacheConfig) (accesses : List PlruAccess) : CachePolicy :=
  accesses.foldl (fun p a => (p.updateStats a.way a.set a.isValid).2)
    (.getPolicyInstance lib cfg)

/-- The policy of a TLB with the same associativity after a sequence of accesses. -/
def tlbPlru (lib : CLibrary) (cfg : CacheConfig) (accesses : List PlruAccess) : TlbPolicy :=
  accesses.foldl (fun p a => p.notifyAccess a.set a.way a.isValid)
    (.makeTlbPolicy lib .plru cfg.associativity)

def VictimsAgree (lib : CLibrary) (cfg : CacheConfig) (accesses : List PlruAccess) : Prop :=
  ∀ set < cfg.setCount,
    ((tlbPlru lib cfg accesses).selectWay cfg.associativity set).1 =
      ((cachePlru lib cfg accesses).selectWayToEvict cfg.associativity set).1

variable {lib : CLibrary} {cfg : CacheConfig}

/-- In a tree of at most two levels both walks visit the same nodes. -/
theorem turnBits_eq_togglePointers {cLog2 way : Nat} (hlog : cLog2 ≤ 2) (hway : way < 2 ^ cLog2)
    (bits : List Nat) :
    turnBits cLog2 way cLog2 0 0 bits = togglePointers cLog2 way cLog2 0 0 bits := by
  interval_cases cLog2
  · rfl
  · rfl
  · have hdir : way >>> 1 % 2 = way >>> 1 := by
      rw [Nat.shiftRight_eq_div_pow]
      omega
    simp only [turnBits, togglePointers, Nat.sub_zero, Nat.add_one_sub_one, hdir]

/-- Small trees stay equal. -/
theorem plru_states_agree (hpolicy : cfg.replacementPolicy = .plru)
    (hlog : lib.ceilLog2 cfg.associativity ≤ 2)
    (hfits : cfg.associativity ≤ 2 ^ lib.ceilLog2 cfg.associativity) {accesses : List PlruAccess}
    (hways : ∀ a ∈ accesses, a.way < cfg.associativity) :
    ∃ table, cachePlru lib cfg accesses = .plru (lib.ceilLog2 cfg.associativity) table ∧
      tlbPlru lib cfg accesses = .plru (lib.ceilLog2 cfg.associativity) table := by
  induction accesses using List.reverseRecOn with
  | nil =>
    refine ⟨_, ?_, rfl⟩
    rw [cachePlru, List.foldl_nil, getPolicyInstance, hpolicy]
  | append_singleton accesses a ih =>
    obtain ⟨table, hcache, htlb⟩ := ih fun b hb => hways b (List.mem_append_left _ hb)
    have hway := hways a (List.mem_append_right _ List.mem_cons_self)
    have hturn := turnBits_eq_togglePointers hlog (Nat.lt_of_lt_of_le hway hfits) (table a.set)
    refine ⟨setRow table a.set (togglePointers (lib.ceilLog2 cfg.associativity) a.way
      (lib.ceilLog2 cfg.associativity) 0 0 (table a.set)), ?_, ?_⟩
    · rw [cachePlru, List.foldl_append, ← cachePlru, hcache]
      rfl
    · rw [tlbPlru, List.foldl_append, ← tlbPlru, htlb, List.foldl_cons, List.foldl_nil,
        notifyAccess, hturn]

/-- The first leaf of the right half of a tree. -/
theorem shiftRight_half {m k : Nat} (hk : k ≤ m) : 2 ^ m >>> k = 2 ^ (m - k) := by
  rw [Nat.shiftRight_eq_div_pow, Nat.pow_div hk (by decide)]

/-- After an access to the right half the cache selects the first leaf. -/
theorem followPointers_toggled (m : Nat) (size : Nat) :
    followPointers (togglePointers (m + 3) (2 ^ (m + 2)) (m + 3) 0 0 (List.replicate size 0))
      (m + 3) 0 0 0 = 0 := by
  have hnode (j j' : Nat) (hj' : 0 < j') (hlt : j' < m + 3) :
      2 ^ j - 1 ≠ 2 ^ j' - 1 + 2 ^ (m + 2) >>> (m + 3 - j') := by
    obtain ⟨i, rfl⟩ : ∃ i, j' = i + 1 := ⟨j' - 1, by omega⟩
    have hshift : 2 ^ (m + 2) >>> (m + 3 - (i + 1)) = 2 ^ i := by
      rw [shiftRight_half (by omega)]
      congr 1
      omega
    have hpos : 0 < 2 ^ i := Nat.two_pow_pos i
    have hj : 0 < 2 ^ j := Nat.two_pow_pos j
    rw [hshift, pow_succ]
    rcases Nat.lt_or_ge (i + 1) j with hlt' | hle
    · have hpow : 2 ^ (i + 2) ≤ 2 ^ j := Nat.pow_le_pow_right (by decide) hlt'
      rw [pow_succ, pow_succ] at hpow
      omega
    · have hpow : 2 ^ j ≤ 2 ^ (i + 1) := Nat.pow_le_pow_right (by decide) hle
      rw [pow_succ] at hpow
      omega
  have hzero (k : Nat) : (List.replicate size 0).getD k 0 = 0 := by
    rw [List.getD_eq_getElem?_getD, List.getElem?_replicate]
    split <;> rfl
  refine followPointers_zero fun j _ hj => ?_
  rcases Nat.eq_zero_or_pos j with rfl | hpos
  · -- the root is turned to the left half
    have hroot : (2 ^ (m + 2) >>> (m + 3 - 1 - 0)) % 2 = 1 := by
      rw [shiftRight_half (by omega)]
      simp
    rw [togglePointers, if_pos hroot, getD_togglePointers]
    · rcases size with _ | size <;> rfl
    · exact hnode 0 1 (by decide) (by omega)
    · exact fun j' hj' hlt => hnode 0 j' (by omega) (by omega)
  · rw [getD_togglePointers, hzero]
    · have hpow : 2 ^ 1 ≤ 2 ^ j := Nat.pow_le_pow_right (by decide) hpos
      omega
    · exact fun j' hj' hlt => hnode j j' hj' (by omega)

/-- After the same access the TLB does not: it has also turned the pointer of the first node of the
third level. -/
theorem followPointers_turned (m : Nat) {size : Nat} (hsize : 7 ≤ size) :
    1 ≤ followPointers
      (turnBits (m + 3) (2 ^ (m + 2)) (m + 3) 0 0 (List.replicate size 0))
      (m + 3) 0 0 0 := by
  have hdir (k : Nat) (hk : k ≤ m + 2) : 2 ^ (m + 2) >>> (m + 2 - k) = 2 ^ k := by
    rw [shiftRight_half (by omega)]
    congr 1
    omega
  have hbits : turnBits (m + 3) (2 ^ (m + 2)) (m + 3) 0 0 (List.replicate size 0) =
      turnBits (m + 3) (2 ^ (m + 2)) m 3 7
        ((((List.replicate size 0).set 0 0).set 2 1).set 3 1) := by
    have h0 : 2 ^ (m + 2) >>> (m + 3 - 0 - 1) % 2 = 1 := by
      rw [show m + 3 - 0 - 1 = m + 2 - 0 by omega, hdir 0 (by omega)]
      rfl
    have h1 : 2 ^ (m + 2) >>> (m + 3 - 1 - 1) % 2 = 0 := by
      rw [show m + 3 - 1 - 1 = m + 2 - 1 by omega, hdir 1 (by omega)]
      rfl
    have h2 : 2 ^ (m + 2) >>> (m + 3 - 2 - 1) % 2 = 0 := by
      rw [show m + 3 - 2 - 1 = m + 2 - 2 by omega, hdir 2 (by omega)]
      rfl
    simp only [turnBits, Nat.zero_add, Nat.reduceAdd, h0, h1, h2, if_true, zero_ne_one, if_false]
    rfl
  rw [hbits]
  generalize hrow : turnBits (m + 3) (2 ^ (m + 2)) m 3 7
    ((((List.replicate size 0).set 0 0).set 2 1).set 3 1) = row
  have hkept (k : Nat) (hk : k < 7) : row.getD k 0 =
      ((((List.replicate size 0).set 0 0).set 2 1).set 3 1).getD k 0 := by
    rw [← hrow]
    exact getD_turnBits (by omega) (by omega)
  have h0 : row.getD 0 0 = 0 := by
    rw [hkept 0 (by decide)]
    simp
  have h1 : row.getD 1 0 = 0 := by
    rw [hkept 1 (by decide)]
    simp
  have h3 : row.getD 3 0 = 1 := by
    have hlength : 3 < (((List.replicate size 0).set 0 0).set 2 1).length := by
      simp only [List.length_set, List.length_replicate]
      omega
    rw [hkept 3 (by decide), List.getD_eq_getElem?_getD, List.getElem?_set_self hlength]
    rfl
  have hle := le_followPointers row m 3 1 (2 ^ 3 - 1 + 1)
  have hpos := Nat.two_pow_pos m
  simp only [followPointers, h0, h1, h3, Nat.zero_add, Nat.mul_zero, Nat.reduceAdd, Nat.reducePow,
    Nat.reduceSub] at hle ⊢
  omega

/-- An access to the first leaf of the right half makes deeper trees disagree. -/
theorem plru_victims_differ (hpolicy : cfg.replacementPolicy = .plru) {m : Nat}
    (hlog : lib.ceilLog2 cfg.associativity = m + 3) (hassoc : 2 ≤ cfg.associativity) :
    ¬VictimsAgree lib cfg [⟨0, 2 ^ (m + 2), true⟩] := by
  intro hagree
  have hset := hagree 0 cfg.setCount_pos
  have hsize : 7 ≤ 2 ^ (m + 3) - 1 := by
    have hpow : 2 ^ 3 ≤ 2 ^ (m + 3) := Nat.pow_le_pow_right (by decide) (by omega)
    omega
  have hturned := followPointers_turned m hsize
  simp only [tlbPlru, cachePlru, List.foldl_cons, List.foldl_nil, makeTlbPolicy, getPolicyInstance,
    hpolicy, hlog, notifyAccess, updateStats, selectWay, selectWayToEvict, setRow_self,
    followPointers_toggled] at hset
  split at hset <;> omega

/-- The two policies select the same victims after every sequence of accesses exactly if there are
at most four ways. -/
theorem plru_agree_iff (lib : CLibrary) (hlib : lib.Log2Sound) (cfg : CacheConfig)
    (hpolicy : cfg.replacementPolicy = .plru) :
    (∀ accesses : List PlruAccess,
      (∀ a ∈ accesses, a.set < cfg.setCount ∧ a.way < cfg.associativity) →
        VictimsAgree lib cfg accesses) ↔ cfg.associativity ≤ 4 := by
  have hpos := cfg.associativity_pos
  constructor
  · intro h
    by_contra hlarge
    have hthree : 3 ≤ lib.ceilLog2 cfg.associativity := by
      have hmono := hlib.mono (by decide) (show 5 ≤ cfg.associativity by omega)
      rwa [hlib.small 5 (by decide) (by decide)] at hmono
    obtain ⟨m, hm⟩ : ∃ m, lib.ceilLog2 cfg.associativity = m + 3 :=
      ⟨lib.ceilLog2 cfg.associativity - 3, by omega⟩
    have hway := hlib.pow_lt (show 2 ≤ cfg.associativity by omega)
    rw [hm] at hway
    refine plru_victims_differ hpolicy hm (by omega) (h _ ?_)
    intro a ha
    rw [List.mem_singleton.mp ha]
    exact ⟨cfg.setCount_pos, hway⟩
  · intro hsmall accesses hways set _
    have hlog := hlib.small cfg.associativity hpos (by omega)
    have htwo : lib.ceilLog2 cfg.associativity ≤ 2 := by
      rw [hlog]
      exact (Nat.clog_mono_right 2 hsmall).trans (by decide)
    have hfits : cfg.associativity ≤ 2 ^ lib.ceilLog2 cfg.associativity := by
      rw [hlog]
      exact Nat.le_pow_clog (by decide) _
    obtain ⟨table, hcache, htlb⟩ :=
      plru_states_agree hpolicy htwo hfits fun a ha => (hways a ha).2
    rw [hcache, htlb, selectWay, selectWayToEvict]
    dsimp only
    split <;> omega

def exactLibrary : CLibrary :=
  ⟨fun n => n, Nat.clog 2⟩

theorem exactLibrary_log2Sound : exactLibrary.Log2Sound where
  mono _ h := Nat.clog_mono_right 2 h
  pow k := Nat.clog_pow 2 k (by decide)
  small _ _ _ := rfl

/-- A cache of one set and one-word blocks with tree replacement. -/
def plruConfig (associativity : Nat) (hpos : 0 < associativity) : CacheConfig where
  enabled := true
  setCount := 1
  blockSize := 1
  associativity := associativity
  replacementPolicy := .plru
  writePolicy := .back
  setCount_pos := Nat.one_pos
  blockSize_pos := Nat.one_pos
  associativity_pos := hpos

theorem plru_agree_four :
    VictimsAgree exactLibrary (plruConfig 4 (by decide)) [⟨0, 3, true⟩, ⟨0, 1, true⟩] :=
  (plru_agree_iff exactLibrary exactLibrary_log2Sound (plruConfig 4 (by decide)) rfl).mpr
    (by decide) _ (by
      intro a ha
      simp only [List.mem_cons, List.not_mem_nil, or_false] at ha
      rcases ha with rfl | rfl
      · exact ⟨by decide, by decide⟩
      · exact ⟨by decide, by decide⟩)

/-- With eight ways an access to way 4 makes the cache select way 0 and the TLB way 1. -/
theorem plru_disagree_eight :
    ((cachePlru exactLibrary (plruConfig 8 (by decide)) [⟨0, 4, true⟩]).selectWayToEvict 8 0).1 =
        0 ∧
      ((tlbPlru exactLibrary (plruConfig 8 (by decide)) [⟨0, 4, true⟩]).selectWay 8 0).1 = 1 := by
  have hlog : exactLibrary.ceilLog2 (plruConfig 8 (by decide)).associativity = 3 :=
    exactLibrary_log2Sound.pow 3
  constructor
  · simp only [cachePlru, getPolicyInstance, plruConfig, List.foldl_cons, List.foldl_nil] at hlog ⊢
    rw [hlog]
    decide
  · simp only [tlbPlru, makeTlbPolicy, plruConfig, List.foldl_cons, List.foldl_nil]
      at hlog ⊢
    rw [hlog]
    decide

end QtRvSim
