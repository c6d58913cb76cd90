import QtRvSim.Library.WideProduct
import QtRvSim.Machine.Alu

/-!
# The multiplier

What the multiplier of the execute stage returns: halves of exact products, and truncating division
with the results of RISC-V where there is no quotient (`mulOperate_exact`).  The portable versions
of the high products in `polyfills/mulh64.h` add partial products in a signed word; the sum can
leave its range (`mulh64_fallbacks`).
-/

namespace QtRvSim

open WideProduct
open BitVec (intMin ofInt le_toInt toInt_lt toInt_ofInt ofInt_mul ofInt_add)

/-! ### Products and quotients -/

/-- What RISC-V says about the results `op` of the multiplier for operands of `w` bits. -/
structure MulSpec {w : Nat} (op : MulOp → BitVec w) (a b : BitVec w) : Prop where
  mul : op .mul = low w (a.toInt * b.toInt) ∧ op .mul = low w (a.toInt * b.toNat) ∧
    op .mul = low w (a.toNat * b.toNat)
  mulh : op .mulh = high w (a.toInt * b.toInt)
  mulhsu : op .mulhsu = high w (a.toInt * b.toNat)
  mulhu : op .mulhu = high w (a.toNat * b.toNat)
  /-- The quotient is rounded towards zero. -/
  signed : b ≠ 0 → ¬(a = BitVec.intMin w ∧ b = -1) →
    a.toInt = (op .div).toInt * b.toInt + (op .rem).toInt ∧
      (op .div).toInt = a.toInt.tdiv b.toInt
  unsigned : b ≠ 0 →
    a.toNat = (op .divu).toNat * b.toNat + (op .remu).toNat ∧
      (op .divu).toNat = a.toNat / b.toNat
  byZero : b = 0 → op .div = -1 ∧ op .rem = a ∧ op .divu = BitVec.allOnes w ∧ op .remu = a
  overflow : a = BitVec.intMin w → b = -1 → op .div = BitVec.intMin w ∧ op .rem = 0

/-- The division of a word, with the results for a zero divisor and for the overflow. -/
theorem signed_division {w : Nat} {a b : BitVec w} (hover : ¬(a = intMin w ∧ b = -1)) :
    a.toInt = (a.sdiv b).toInt * b.toInt + (a.srem b).toInt ∧
      (a.sdiv b).toInt = a.toInt.tdiv b.toInt := by
  have hdiv : (a.sdiv b).toInt = a.toInt.tdiv b.toInt :=
    BitVec.toInt_sdiv_of_ne_or_ne a b (not_and_or.mp hover)
  refine ⟨?_, hdiv⟩
  rw [hdiv, BitVec.toInt_srem, Int.tdiv_mul_add_tmod]

theorem unsigned_division {w : Nat} (a b : BitVec w) :
    a.toNat = (a.udiv b).toNat * b.toNat + (a.umod b).toNat ∧
      (a.udiv b).toNat = a.toNat / b.toNat := by
  have hdiv : (a.udiv b).toNat = a.toNat / b.toNat := BitVec.toNat_udiv
  have hmod : (a.umod b).toNat = a.toNat % b.toNat := BitVec.toNat_umod
  refine ⟨?_, hdiv⟩
  rw [hdiv, hmod, Nat.div_add_mod']

/-- Both multipliers test for a zero divisor first and for the overflow then. -/
theorem mulSpec_of_cases {w : Nat} {op : MulOp → BitVec w} {a b : BitVec w}
    (hmul : op .mul = a * b) (hmulh : op .mulh = high w (a.toInt * b.toInt))
    (hmulhsu : op .mulhsu = high w (a.toInt * b.toNat))
    (hmulhu : op .mulhu = high w (a.toNat * b.toNat))
    (hdiv : op .div = if b = 0 then -1
      else if a = intMin w ∧ b = -1 then intMin w else a.sdiv b)
    (hrem : op .rem = if b = 0 then a
      else if a = intMin w ∧ b = -1 then 0 else a.srem b)
    (hdivu : op .divu = if b = 0 then BitVec.allOnes w else a.udiv b)
    (hremu : op .remu = if b = 0 then a else a.umod b) (hone : (-1 : BitVec w) ≠ 0) :
    MulSpec op a b where
  mul := by
    rw [hmul]
    exact mul_eq_low a b
  mulh := hmulh
  mulhsu := hmulhsu
  mulhu := hmulhu
  signed hzero hover := by
    rw [hdiv, hrem, if_neg hzero, if_neg hzero, if_neg hover, if_neg hover]
    exact signed_division hover
  unsigned hzero := by
    rw [hdivu, hremu, if_neg hzero, if_neg hzero]
    exact unsigned_division a b
  byZero hzero := by
    rw [hdiv, hrem, hdivu, hremu, if_pos hzero, if_pos hzero, if_pos hzero, if_pos hzero]
    exact ⟨rfl, rfl, rfl, rfl⟩
  overflow ha hb := by
    have hzero : b ≠ 0 := hb ▸ hone
    rw [hdiv, hrem, if_neg hzero, if_neg hzero, if_pos ⟨ha, hb⟩, if_pos ⟨ha, hb⟩]
    exact ⟨rfl, rfl⟩

theorem mul64Operate_spec (a b : RegisterValue) : MulSpec (mul64Operate · a b) a b :=
  mulSpec_of_cases rfl (high_signed_mul rfl a b) (high_mixed_mul rfl a b)
    (high_unsigned_mul rfl a b) rfl rfl rfl rfl (by decide)

/-- The low word of a 32-bit result. -/
theorem mul32Operate_spec (a b : RegisterValue) :
    MulSpec (fun op => (mul32Operate op a b).asU32) a.asU32 b.asU32 := by
  have hlow (x : BitVec 32) : (RegisterValue.ofI32 x).asU32 = x := RegisterValue.asU32_ofI32 x
  exact mulSpec_of_cases (hlow _) ((hlow _).trans (high_signed_mul rfl _ _))
    ((hlow _).trans (high_mixed_mul rfl _ _)) ((hlow _).trans (high_unsigned_mul rfl _ _))
    (hlow _) (hlow _) (hlow _) (hlow _) (by decide)

/-- The multiplier returns exact halves of products and truncated quotients, on 64 bits and on the
low 32 bits of its operands; a 32-bit result is sign extended. -/
theorem mulOperate_exact (a b : RegisterValue) :
    MulSpec (mul64Operate · a b) a b ∧
      MulSpec (fun op => (mul32Operate op a b).asU32) a.asU32 b.asU32 ∧
      ∀ op, mul32Operate op a b = (mul32Operate op a b).asU32.signExtend 64 := by
  refine ⟨mul64Operate_spec a b, mul32Operate_spec a b, fun op => ?_⟩
  unfold mul32Operate
  rw [RegisterValue.asU32_ofI32]
  rfl

/-! ### Portable high products -/

/-- Unsigned high product from the products of 32-bit halves. -/
def mulhu64Fallback (a b : BitVec 64) : BitVec 64 :=
  let aLower := (a.setWidth 32).setWidth 64
  let aUpper := ((a >>> 32).setWidth 32).setWidth 64
  let bLower := (b.setWidth 32).setWidth 64
  let bUpper := ((b >>> 32).setWidth 32).setWidth 64
  let p11 := aUpper * bUpper
  let p01 := aLower * bUpper
  let p10 := aUpper * bLower
  let p00 := aLower * bLower
  let middle := p10 + (p00 >>> 32) + (p01.setWidth 32).setWidth 64
  p11 + (middle >>> 32) + (p01 >>> 32)

/-- Signed high product; the upper halves, `p01` and the middle sum are signed. -/
def mulh64Fallback (a b : BitVec 64) : BitVec 64 :=
  let aLower := (a.setWidth 32).setWidth 64
  let aUpper := ((a.sshiftRight 32).setWidth 32).signExtend 64
  let bLower := (b.setWidth 32).setWidth 64
  let bUpper := ((b.sshiftRight 32).setWidth 32).signExtend 64
  let p11 := aUpper * bUpper
  let p01 := aLower * bUpper
  let p10 := aUpper * bLower
  let p00 := aLower * bLower
  let middle := p10 + (p00 >>> 32) + (p01.setWidth 32).setWidth 64
  p11 + middle.sshiftRight 32 + p01.sshiftRight 32

/-- High product of a signed and an unsigned factor; the middle sum is signed, `p01` is not. -/
def mulhsu64Fallback (a b : BitVec 64) : BitVec 64 :=
  let aLower := (a.setWidth 32).setWidth 64
  let aUpper := ((a.sshiftRight 32).setWidth 32).signExtend 64
  let bLower := (b.setWidth 32).setWidth 64
  let bUpper := ((b >>> 32).setWidth 32).setWidth 64
  let p11 := aUpper * bUpper
  let p01 := aLower * bUpper
  let p10 := aUpper * bLower
  let p00 := aLower * bLower
  let middle := p10 + (p00 >>> 32) + (p01.setWidth 32).setWidth 64
  p11 + middle.sshiftRight 32 + (p01 >>> 32)

/-- The exact sum of the middle position fits a signed word. -/
def MiddleFits (a b : Int) : Prop :=
  a * (b % 2 ^ 32) / 2 ^ 32 + a * (b / 2 ^ 32) % 2 ^ 32 < 2 ^ 63

instance (a b : Int) : Decidable (MiddleFits a b) :=
  inferInstanceAs (Decidable (_ < _))

/-- The sum of the middle position as the fallbacks add it. -/
def middleSum (a b : Int) : Int :=
  a / 2 ^ 32 * (b % 2 ^ 32) + a % 2 ^ 32 * (b % 2 ^ 32) / 2 ^ 32 +
    a % 2 ^ 32 * (b / 2 ^ 32) % 2 ^ 32

theorem middleFits_iff (a b : Int) : MiddleFits a b ↔ middleSum a b < 2 ^ 63 := by
  have hsplit : a * (b % 2 ^ 32) / 2 ^ 32 =
      a / 2 ^ 32 * (b % 2 ^ 32) + a % 2 ^ 32 * (b % 2 ^ 32) / 2 ^ 32 := by
    conv_lhs => rw [← Int.mul_ediv_add_emod a (2 ^ 32)]
    rw [add_mul, mul_assoc, Int.mul_add_ediv_left _ _ (by norm_num)]
  have hmod : a * (b / 2 ^ 32) % 2 ^ 32 = a % 2 ^ 32 * (b / 2 ^ 32) % 2 ^ 32 :=
    ((Int.mod_modEq a (2 ^ 32)).mul_right (b / 2 ^ 32)).symm
  rw [MiddleFits, middleSum, hsplit, hmod]

section Halves

theorem lower_ofInt (p : Int) :
    ((ofInt 64 p).setWidth 32).setWidth 64 = ofInt 64 (p % 2 ^ 32) := by
  rw [setWidth_ofInt (by decide), setWidth_eq_ofInt, BitVec.toNat_ofInt, Nat.cast_pow,
    Nat.cast_ofNat, Int.toNat_of_nonneg (Int.emod_nonneg _ (by norm_num))]

variable (a : BitVec 64)

theorem lower_signed : (a.setWidth 32).setWidth 64 = ofInt 64 (a.toInt % 2 ^ 32) := by
  rw [← lower_ofInt, BitVec.ofInt_toInt]

theorem lower_unsigned : (a.setWidth 32).setWidth 64 = ofInt 64 (a.toNat % 2 ^ 32) := by
  rw [← lower_ofInt, ofInt_toNat]

theorem upper_unsigned :
    ((a >>> 32).setWidth 32).setWidth 64 = ofInt 64 (a.toNat / 2 ^ 32) := by
  have hlt := a.isLt
  have hfits : (a.toNat / 2 ^ 32 : Int) % 2 ^ 32 = a.toNat / 2 ^ 32 :=
    Int.emod_eq_of_lt (by omega) (by omega)
  rw [ushiftRight_eq_ofInt, lower_ofInt, hfits]

theorem upper_signed :
    ((a.sshiftRight 32).setWidth 32).signExtend 64 = ofInt 64 (a.toInt / 2 ^ 32) := by
  have hlow := @le_toInt 64 a
  have hhigh := @toInt_lt 64 a
  have hfits : (a.toInt / 2 ^ 32).bmod (2 ^ 32) = a.toInt / 2 ^ 32 :=
    Int.bmod_eq_of_le (by omega) (by omega)
  rw [signExtend_eq_ofInt _ (by decide), sshiftRight_eq_ofInt, setWidth_ofInt (by decide),
    toInt_ofInt, hfits]

end Halves

section Sums

/-- A product of two lower halves fits an unsigned word. -/
theorem mul_lt_of_halves {x y : Int} (hx : 0 ≤ x) (hx' : x < 2 ^ 32) (hy : 0 ≤ y)
    (hy' : y < 2 ^ 32) : 0 ≤ x * y ∧ x * y ≤ (2 ^ 32 - 1) * (2 ^ 32 - 1) := by
  constructor
  · positivity
  · nlinarith

/-- A product with a signed upper half fits a signed word. -/
theorem mul_bounds_of_halves {x y : Int} (hx : -2 ^ 31 ≤ x) (hx' : x < 2 ^ 31) (hy : 0 ≤ y)
    (hy' : y < 2 ^ 32) :
    -(2 ^ 31 * (2 ^ 32 - 1)) ≤ x * y ∧ x * y ≤ (2 ^ 31 - 1) * (2 ^ 32 - 1) := by
  constructor <;> nlinarith

/-- The middle sum of the fallbacks, modulo the range of a word. -/
theorem middle_eq (a b : Int) :
    ofInt 64 (a / 2 ^ 32) * ofInt 64 (b % 2 ^ 32) +
        (ofInt 64 (a % 2 ^ 32) * ofInt 64 (b % 2 ^ 32)) >>> 32 +
        ((ofInt 64 (a % 2 ^ 32) * ofInt 64 (b / 2 ^ 32)).setWidth 32).setWidth 64 =
      ofInt 64 (middleSum a b) := by
  obtain ⟨hpos, hle⟩ := mul_lt_of_halves (Int.emod_nonneg a (b := 2 ^ 32) (by norm_num))
    (Int.emod_lt_of_pos a (by norm_num)) (Int.emod_nonneg b (b := 2 ^ 32) (by norm_num))
    (Int.emod_lt_of_pos b (by norm_num))
  simp only [← ofInt_mul, lower_ofInt, ushiftRight_eq_ofInt]
  rw [toNat_ofInt_of_lt hpos (by omega), ← ofInt_add, ← ofInt_add, middleSum]

/-- A wrapped middle sum gives the wrong high part. -/
theorem wrapped_middle {m x : Int} (hlow : -2 ^ 63 ≤ m) (hhigh : m < 2 ^ 64) :
    ofInt 64 (x + m.bmod (2 ^ 64) / 2 ^ 32) = ofInt 64 (x + m / 2 ^ 32) ↔
      m < 2 ^ 63 := by
  rw [ofInt_eq_ofInt_iff, Int.bmod_def]
  split <;> omega

/-- The high half of a product in terms of the middle sum. -/
theorem high_eq_middleSum (a b : Int) :
    high 64 (a * b) = ofInt 64 (a / 2 ^ 32 * (b / 2 ^ 32) +
      a % 2 ^ 32 * (b / 2 ^ 32) / 2 ^ 32 + middleSum a b / 2 ^ 32) := by
  have hhalves := @ediv_mul_self_of_halves (2 ^ 32) (by norm_num) a b
  rw [← middleSum] at hhalves
  rw [high, show (2 : Int) ^ 64 = 2 ^ 32 * 2 ^ 32 by norm_num, hhalves]
  congr 1
  ring

theorem middleSum_bounds {a b : Int} (ha : -2 ^ 63 ≤ a) (ha' : a < 2 ^ 63) :
    -2 ^ 63 ≤ middleSum a b ∧ middleSum a b < 2 ^ 64 := by
  have hb : 0 ≤ b % 2 ^ 32 ∧ b % 2 ^ 32 < 2 ^ 32 := by omega
  have hlow : 0 ≤ a % 2 ^ 32 ∧ a % 2 ^ 32 < 2 ^ 32 := by omega
  obtain ⟨h₁, h₁'⟩ :=
    @mul_bounds_of_halves (a / 2 ^ 32) (b % 2 ^ 32) (by omega) (by omega) hb.1 hb.2
  obtain ⟨h₂, h₂'⟩ := mul_lt_of_halves hlow.1 hlow.2 hb.1 hb.2
  unfold middleSum
  omega

end Sums

theorem mulhu64Fallback_eq (a b : BitVec 64) :
    mulhu64Fallback a b = high 64 (a.toNat * b.toNat) := by
  have ha := a.isLt
  have hb := b.isLt
  have hlow (x : Int) : 0 ≤ x % 2 ^ 32 ∧ x % 2 ^ 32 < 2 ^ 32 := by omega
  obtain ⟨h₁, h₁'⟩ := @mul_lt_of_halves (a.toNat / 2 ^ 32) (b.toNat % 2 ^ 32) (by omega) (by omega)
    (hlow _).1 (hlow _).2
  obtain ⟨h₂, h₂'⟩ := @mul_lt_of_halves (a.toNat % 2 ^ 32) (b.toNat % 2 ^ 32) (hlow _).1 (hlow _).2
    (hlow _).1 (hlow _).2
  obtain ⟨h₃, h₃'⟩ := @mul_lt_of_halves (a.toNat % 2 ^ 32) (b.toNat / 2 ^ 32) (hlow _).1 (hlow _).2
    (by omega) (by omega)
  have hmiddle : 0 ≤ middleSum a.toNat b.toNat ∧ middleSum a.toNat b.toNat < 2 ^ 64 := by
    unfold middleSum
    omega
  unfold mulhu64Fallback
  dsimp only
  rw [upper_unsigned a, upper_unsigned b, lower_unsigned a, lower_unsigned b, middle_eq,
    ushiftRight_eq_ofInt, toNat_ofInt_of_lt hmiddle.1 hmiddle.2, ← ofInt_mul,
    ← ofInt_mul, ushiftRight_eq_ofInt, toNat_ofInt_of_lt h₃ (by omega), ← ofInt_add,
    ← ofInt_add, high_eq_middleSum]
  congr 1
  ring

theorem mulh64Fallback_eq_iff (a b : BitVec 64) :
    mulh64Fallback a b = high 64 (a.toInt * b.toInt) ↔ MiddleFits a.toInt b.toInt := by
  have ha := @le_toInt 64 a
  have ha' := @toInt_lt 64 a
  have hb := @le_toInt 64 b
  have hb' := @toInt_lt 64 b
  obtain ⟨hlow, hhigh⟩ := @middleSum_bounds a.toInt b.toInt ha ha'
  have hp01 : (a.toInt % 2 ^ 32 * (b.toInt / 2 ^ 32)).bmod (2 ^ 64) =
      a.toInt % 2 ^ 32 * (b.toInt / 2 ^ 32) := by
    have hlow : 0 ≤ a.toInt % 2 ^ 32 ∧ a.toInt % 2 ^ 32 < 2 ^ 32 := by omega
    obtain ⟨h, h'⟩ := @mul_bounds_of_halves (b.toInt / 2 ^ 32) (a.toInt % 2 ^ 32) (by omega)
      (by omega) hlow.1 hlow.2
    rw [mul_comm (b.toInt / 2 ^ 32)] at h h'
    exact Int.bmod_eq_of_le (by omega) (by omega)
  rw [middleFits_iff, ← wrapped_middle hlow hhigh, ← high_eq_middleSum]
  unfold mulh64Fallback
  dsimp only
  rw [upper_signed a, upper_signed b, lower_signed a, lower_signed b, middle_eq,
    sshiftRight_eq_ofInt, toInt_ofInt, ← ofInt_mul, ← ofInt_mul,
    sshiftRight_eq_ofInt, toInt_ofInt, hp01, ← ofInt_add, ← ofInt_add,
    add_right_comm]

theorem mulhsu64Fallback_eq_iff (a b : BitVec 64) :
    mulhsu64Fallback a b = high 64 (a.toInt * b.toNat) ↔ MiddleFits a.toInt b.toNat := by
  have ha := @le_toInt 64 a
  have ha' := @toInt_lt 64 a
  have hb := b.isLt
  obtain ⟨hlow, hhigh⟩ := @middleSum_bounds a.toInt b.toNat ha ha'
  have hlow' : 0 ≤ a.toInt % 2 ^ 32 ∧ a.toInt % 2 ^ 32 < 2 ^ 32 := by omega
  obtain ⟨h, h'⟩ := @mul_lt_of_halves (a.toInt % 2 ^ 32) (b.toNat / 2 ^ 32) hlow'.1 hlow'.2
    (by omega) (by omega)
  rw [middleFits_iff, ← wrapped_middle hlow hhigh, ← high_eq_middleSum]
  unfold mulhsu64Fallback
  dsimp only
  rw [upper_signed a, upper_unsigned b, lower_signed a, lower_unsigned b, middle_eq,
    sshiftRight_eq_ofInt, toInt_ofInt, ← ofInt_mul, ← ofInt_mul,
    ushiftRight_eq_ofInt, toNat_ofInt_of_lt h (by omega), ← ofInt_add, ← ofInt_add,
    add_right_comm]

/-- The unsigned fallback returns the high half of the exact product; the other two do so exactly if
their middle sum fits. -/
theorem mulh64_fallbacks (a b : BitVec 64) :
    (mulhu64Fallback a b = high 64 (a.toNat * b.toNat) ∧ mulhu64Fallback a b = mulhu64 a b) ∧
    (mulh64Fallback a b = high 64 (a.toInt * b.toInt) ∧ mulh64Fallback a b = mulh64 a b ↔
      MiddleFits a.toInt b.toInt) ∧
    (mulhsu64Fallback a b = high 64 (a.toInt * b.toNat) ∧ mulhsu64Fallback a b = mulhsu64 a b ↔
      MiddleFits a.toInt b.toNat) := by
  have hmulhu : mulhu64 a b = high 64 (a.toNat * b.toNat) := high_unsigned_mul rfl a b
  have hmulh : mulh64 a b = high 64 (a.toInt * b.toInt) := high_signed_mul rfl a b
  have hmulhsu : mulhsu64 a b = high 64 (a.toInt * b.toNat) := high_mixed_mul rfl a b
  rw [hmulhu, hmulh, hmulhsu, and_self_iff, and_self_iff, and_self_iff]
  exact ⟨mulhu64Fallback_eq a b, mulh64Fallback_eq_iff a b, mulhsu64Fallback_eq_iff a b⟩

/-- The middle sum of these factors leaves the range of a signed word: the high halves of their
products are too small by 2^32. -/
theorem mulh64_fallbacks_wrap :
    mulh64Fallback 0x7fffffffffffffff 0x00000001ffffffff = 0xffffffffffffffff ∧
    mulh64 0x7fffffffffffffff 0x00000001ffffffff = 0x00000000ffffffff ∧
    mulhsu64Fallback 0x7fffffffffffffff 0x00000001ffffffff = 0xffffffffffffffff ∧
    mulhsu64 0x7fffffffffffffff 0x00000001ffffffff = 0x00000000ffffffff := by
  decide +kernel

end QtRvSim
