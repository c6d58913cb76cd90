import Mathlib.Data.BitVec
import Mathlib.Data.Nat.Bitwise

/-!
# Bit fields of machine words

Masks of low bits, extraction and replacement of fields, and their values as numbers.
-/

namespace BitFields

variable {w : Nat}

def lowMask (w k : Nat) : BitVec w :=
  BitVec.ofNat w (2 ^ k - 1)

theorem getLsbD_lowMask (k i : Nat) : (lowMask w k).getLsbD i = decide (i < w ∧ i < k) := by
  rw [lowMask, BitVec.getLsbD_ofNat, Nat.testBit_two_pow_sub_one, Bool.decide_and]

variable (x : BitVec w) {k : Nat}

theorem toNat_and_lowMask (hk : k ≤ w) : (x &&& lowMask w k).toNat = x.toNat % 2 ^ k := by
  have hlt : 2 ^ k - 1 < 2 ^ w := by
    have := Nat.pow_le_pow_right (n := 2) (by decide) hk
    have := Nat.two_pow_pos k
    omega
  rw [BitVec.toNat_and, lowMask, BitVec.toNat_ofNat, Nat.mod_eq_of_lt hlt,
    Nat.and_two_pow_sub_one_eq_mod]

/-- Value of the field of `k` bits that starts at bit `s`. -/
theorem toNat_field (s : Nat) (hk : k ≤ w) :
    ((x >>> s) &&& lowMask w k).toNat = x.toNat / 2 ^ s % 2 ^ k := by
  rw [toNat_and_lowMask _ hk, BitVec.toNat_ushiftRight, Nat.shiftRight_eq_div_pow]

/-- Putting two words next to each other. -/
theorem toNat_shiftLeft_or (y : BitVec w) (hx : x.toNat * 2 ^ k < 2 ^ w) (hy : y.toNat < 2 ^ k) :
    (x <<< k ||| y).toNat = x.toNat * 2 ^ k + y.toNat := by
  rw [BitVec.toNat_or, BitVec.toNat_shiftLeft, Nat.shiftLeft_eq, Nat.mod_eq_of_lt hx,
    Nat.mul_comm, ← Nat.two_pow_add_eq_or_of_lt hy]

/-- Clearing the low bits of a word. -/
theorem toNat_and_not_lowMask (k : Nat) :
    (x &&& ~~~lowMask w k).toNat = x.toNat / 2 ^ k * 2 ^ k := by
  have hhigh : x &&& ~~~lowMask w k = (x >>> k) <<< k := by
    apply BitVec.eq_of_getLsbD_eq
    intro i hi
    simp only [BitVec.getLsbD_and, BitVec.getLsbD_not, getLsbD_lowMask, BitVec.getLsbD_shiftLeft,
      BitVec.getLsbD_ushiftRight]
    by_cases hik : i < k
    · simp [hi, hik]
    · simp [hi, hik, Nat.add_sub_cancel' (Nat.le_of_not_lt hik)]
  rw [hhigh, BitVec.toNat_shiftLeft, BitVec.toNat_ushiftRight, Nat.shiftRight_eq_div_pow,
    Nat.shiftLeft_eq]
  exact Nat.mod_eq_of_lt (Nat.lt_of_le_of_lt (Nat.div_mul_le_self _ _) x.isLt)

/-- Replacing the low bits of a word. -/
theorem toNat_replaceLow (y : BitVec w) (hk : k ≤ w) :
    (x &&& ~~~lowMask w k ||| y &&& lowMask w k).toNat =
      x.toNat / 2 ^ k * 2 ^ k + y.toNat % 2 ^ k := by
  rw [BitVec.toNat_or, toNat_and_not_lowMask, toNat_and_lowMask y hk, Nat.mul_comm,
    Nat.two_pow_add_eq_or_of_lt (Nat.mod_lt _ (Nat.two_pow_pos k))]

/-- The low bits of a word vanish exactly when it is a multiple. -/
theorem and_lowMask_eq_zero (hk : k ≤ w) : x &&& lowMask w k = 0#w ↔ x.toNat % 2 ^ k = 0 := by
  rw [← toNat_and_lowMask x hk, ← BitVec.toNat_inj, BitVec.toNat_ofNat, Nat.zero_mod]

/-- The high bits of a word vanish exactly when it is small. -/
theorem and_not_lowMask_eq_zero (k : Nat) : x &&& ~~~lowMask w k = 0#w ↔ x.toNat / 2 ^ k = 0 := by
  rw [← BitVec.toNat_inj, toNat_and_not_lowMask, BitVec.toNat_ofNat, Nat.zero_mod,
    Nat.mul_eq_zero, or_iff_left (Nat.two_pow_pos k).ne']

/-! ### Sign extension of a field -/

theorem and_shiftLeft_one (k : Nat) :
    x &&& (1#w <<< k) = if x.getLsbD k then 1#w <<< k else 0#w := by
  rw [← BitVec.twoPow_eq]
  exact BitVec.and_twoPow x k

theorem shiftLeft_one_sub_one (hk : k < w) : 1#w <<< k - 1#w = lowMask w k := by
  apply BitVec.eq_of_toNat_eq
  have hpow : 2 ^ k < 2 ^ w := Nat.pow_lt_pow_right (by decide) hk
  have hpos := Nat.two_pow_pos k
  have hshift : (1#w <<< k).toNat = 2 ^ k := by
    rw [BitVec.toNat_shiftLeft, BitVec.toNat_ofNat, Nat.mod_eq_of_lt (by omega : 1 < 2 ^ w),
      Nat.shiftLeft_eq, Nat.one_mul, Nat.mod_eq_of_lt hpow]
  have hone : (1#w).toNat = 1 := by
    rw [BitVec.toNat_ofNat, Nat.mod_eq_of_lt (by omega)]
  rw [lowMask, BitVec.toNat_ofNat, Nat.mod_eq_of_lt (by omega), BitVec.toNat_sub_of_le, hshift,
    hone]
  rw [BitVec.le_def, hshift, hone]
  omega

theorem getLsbD_of_toNat_lt {n i : Nat} {x : BitVec w} (hx : x.toNat < 2 ^ n) (hi : n ≤ i) :
    x.getLsbD i = false :=
  Nat.testBit_eq_false_of_lt (Nat.lt_of_lt_of_le hx (Nat.pow_le_pow_right (by decide) hi))

/-- Copying the sign bit of a field of `n` bits into the bits above it. -/
theorem signExtend_low {n : Nat} (hn : 0 < n) (hnw : n ≤ w) {x : BitVec w}
    (hx : x.toNat < 2 ^ n) :
    x ||| ~~~((x &&& (1#w <<< (n - 1))) - 1#w) = (x.setWidth n).signExtend w := by
  apply BitVec.eq_of_getLsbD_eq
  intro i hi
  have hmsb : (x.setWidth n).msb = x.getLsbD (n - 1) := by
    have hlast : n - 1 < n := by omega
    rw [BitVec.msb_eq_getLsbD_last, BitVec.getLsbD_setWidth, decide_eq_true hlast, Bool.true_and]
  rw [BitVec.getLsbD_signExtend, hmsb, BitVec.getLsbD_setWidth, and_shiftLeft_one,
    BitVec.getLsbD_or, BitVec.getLsbD_not]
  cases hsign : x.getLsbD (n - 1) with
  | true =>
    rw [if_pos rfl, shiftLeft_one_sub_one (by omega), getLsbD_lowMask]
    by_cases hin : i < n
    · -- the mask leaves the sign bit itself
      by_cases hlast : i = n - 1
      · have hbit : x.getLsbD i = true := hlast ▸ hsign
        rw [hbit]
        simp [hi]
      · have hlow : i < n - 1 := by omega
        simp [hi, hin, hlow]
    · have hlow : ¬i < n - 1 := by omega
      simp [hi, hin, hlow]
  | false =>
    rw [if_neg Bool.false_ne_true, BitVec.zero_sub, BitVec.neg_one_eq_allOnes]
    by_cases hin : i < n
    · simp [hi, hin]
    · rw [getLsbD_of_toNat_lt hx (Nat.le_of_not_lt hin)]
      simp [hi, hin]

theorem signExtend_signExtend {n m : Nat} (x : BitVec n) (hnm : n ≤ m) (hmk : m ≤ k) :
    (x.signExtend m).signExtend k = x.signExtend k := by
  apply BitVec.eq_of_toInt_eq
  rw [BitVec.toInt_signExtend_of_le hmk, BitVec.toInt_signExtend_of_le hnm,
    BitVec.toInt_signExtend_of_le (hnm.trans hmk)]

end BitFields
