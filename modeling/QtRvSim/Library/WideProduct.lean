import Mathlib.Data.BitVec
import Mathlib.Data.Int.ModEq
import Mathlib.Tactic.Ring
import Mathlib.Tactic.Linarith

/-!
# Halves of a double-width product

The product of two words as an integer, and its low and high half as words.  A word of twice the
width that holds the product modulo its range has the same halves, whatever the signs of the factors
(`setWidth_ushiftRight_ofInt`).
-/

namespace WideProduct

open BitVec (ofInt toNat_ofInt ofInt_toInt ofInt_mul)

variable {w : Nat}

def low (w : Nat) (p : Int) : BitVec w :=
  BitVec.ofInt w p

def high (w : Nat) (p : Int) : BitVec w :=
  BitVec.ofInt w (p / 2 ^ w)

theorem ofInt_eq_ofInt_iff {x y : Int} :
    ofInt w x = ofInt w y ↔ (2 ^ w : Int) ∣ x - y := by
  have hpos : (0 : Int) < 2 ^ w := by positivity
  rw [← BitVec.toNat_inj, toNat_ofInt, toNat_ofInt, Nat.cast_pow, Nat.cast_ofNat,
    ← Int.natCast_inj, Int.toNat_of_nonneg (Int.emod_nonneg x hpos.ne'),
    Int.toNat_of_nonneg (Int.emod_nonneg y hpos.ne'), Int.emod_eq_emod_iff_emod_sub_eq_zero,
    Int.dvd_iff_emod_eq_zero]

theorem ofInt_toNat (x : BitVec w) : ofInt w x.toNat = x := by
  rw [BitVec.ofInt_natCast, BitVec.ofNat_toNat, BitVec.setWidth_eq]

theorem signExtend_eq_ofInt (x : BitVec w) {v : Nat} (h : w ≤ v) :
    x.signExtend v = ofInt v x.toInt := by
  rw [← BitVec.toInt_signExtend_of_le h, ofInt_toInt]

theorem setWidth_eq_ofInt (x : BitVec w) (v : Nat) : x.setWidth v = ofInt v x.toNat := by
  rw [BitVec.ofInt_natCast, BitVec.ofNat_toNat]

theorem setWidth_ofInt {v : Nat} (h : w ≤ v) (p : Int) :
    (ofInt v p).setWidth w = ofInt w p := by
  rw [setWidth_eq_ofInt, ofInt_eq_ofInt_iff, toNat_ofInt, Nat.cast_pow, Nat.cast_ofNat,
    Int.toNat_of_nonneg (Int.emod_nonneg _ (by positivity))]
  exact (pow_dvd_pow 2 h).trans Int.dvd_emod_sub_self

/-- What remains of an integer modulo a square, divided by the root. -/
theorem emod_mul_self_ediv (p : Int) {n : Int} (hn : 0 < n) : p % (n * n) / n = p / n % n := by
  have hsplit : p = n * (n * (p / n / n) + p / n % n) + p % n := by
    rw [Int.mul_ediv_add_emod, Int.mul_ediv_add_emod]
  have hrem := Int.emod_nonneg p hn.ne'
  have hlt := Int.emod_lt_of_pos p hn
  have hrem' := Int.emod_nonneg (p / n) hn.ne'
  have hlt' := Int.emod_lt_of_pos (p / n) hn
  have hmod : p % (n * n) = n * (p / n % n) + p % n := by
    refine ((Int.ediv_emod_unique (q := p / n / n) (by positivity)).mpr ⟨?_, ?_, ?_⟩).2
    · linarith
    · positivity
    · nlinarith
  rw [hmod, Int.mul_add_ediv_left _ _ hn.ne', Int.ediv_eq_zero_of_lt hrem hlt, add_zero]

/-- A word of twice the width that holds an integer modulo its range has the same high half. -/
theorem setWidth_ushiftRight_ofInt {v : Nat} (hv : v = w + w) (p : Int) :
    ((ofInt v p) >>> w).setWidth w = high w p := by
  subst hv
  have hpos : (0 : Int) < 2 ^ w := by positivity
  rw [high, setWidth_eq_ofInt, BitVec.toNat_ushiftRight, Nat.shiftRight_eq_div_pow,
    toNat_ofInt, ofInt_eq_ofInt_iff, Nat.cast_pow, Nat.cast_ofNat, pow_add, Int.natCast_ediv,
    Int.toNat_of_nonneg (Int.emod_nonneg _ (by positivity)), Nat.cast_pow, Nat.cast_ofNat,
    emod_mul_self_ediv p hpos]
  exact Int.dvd_emod_sub_self

section Products

variable {v : Nat} (hv : v = w + w) (a b : BitVec w)

include hv

theorem high_signed_mul :
    ((a.signExtend v * b.signExtend v) >>> w).setWidth w = high w (a.toInt * b.toInt) := by
  rw [signExtend_eq_ofInt a (by omega), signExtend_eq_ofInt b (by omega), ← ofInt_mul,
    setWidth_ushiftRight_ofInt hv]

theorem high_mixed_mul :
    ((a.signExtend v * b.setWidth v) >>> w).setWidth w = high w (a.toInt * b.toNat) := by
  rw [signExtend_eq_ofInt a (by omega), setWidth_eq_ofInt b v, ← ofInt_mul,
    setWidth_ushiftRight_ofInt hv]

theorem high_unsigned_mul :
    ((a.setWidth v * b.setWidth v) >>> w).setWidth w = high w (a.toNat * b.toNat) := by
  rw [setWidth_eq_ofInt a v, setWidth_eq_ofInt b v, ← ofInt_mul,
    setWidth_ushiftRight_ofInt hv]

end Products

/-- The low half of a product does not depend on the signs. -/
theorem mul_eq_low (a b : BitVec w) :
    a * b = low w (a.toInt * b.toInt) ∧ a * b = low w (a.toInt * b.toNat) ∧
      a * b = low w (a.toNat * b.toNat) := by
  simp only [low, ofInt_mul, ofInt_toInt, ofInt_toNat, and_self]

/-! ### Schoolbook multiplication -/

/-- The high half of a product from the products of the halves of its factors: the parts of the
middle position are added without the part of `p₀₁` that is a multiple of the base. -/
theorem ediv_mul_self_of_halves {n : Int} (hn : 0 < n) (a b : Int) :
    a * b / (n * n) = a / n * (b / n) +
      (a / n * (b % n) + a % n * (b % n) / n + a % n * (b / n) % n) / n + a % n * (b / n) / n := by
  have ha := Int.mul_ediv_add_emod a n
  have hb := Int.mul_ediv_add_emod b n
  have hp := Int.mul_ediv_add_emod (a % n * (b / n)) n
  generalize a / n = a₁ at *
  generalize a % n = a₀ at *
  generalize b / n = b₁ at *
  generalize b % n = b₀ at *
  have hproduct : a * b = a₀ * b₀ + (a₁ * b₀ + a₀ * b₁ + a₁ * b₁ * n) * n := by
    rw [← ha, ← hb]
    ring
  have hmiddle : a₁ * b₀ + a₀ * b₁ + a₁ * b₁ * n + a₀ * b₀ / n =
      a₁ * b₀ + a₀ * b₀ / n + a₀ * b₁ % n + (a₁ * b₁ + a₀ * b₁ / n) * n := by
    nlinarith
  rw [← Int.ediv_ediv_of_nonneg hn.le, hproduct, Int.add_mul_ediv_right _ _ hn.ne',
    add_comm (a₀ * b₀ / n), hmiddle, Int.add_mul_ediv_right _ _ hn.ne']
  ring

section Words

variable {p : Int}

theorem toNat_ofInt_of_lt (hp : 0 ≤ p) (hlt : p < 2 ^ w) :
    ((ofInt w p).toNat : Int) = p := by
  rw [toNat_ofInt, Nat.cast_pow, Nat.cast_ofNat, Int.emod_eq_of_lt hp hlt,
    Int.toNat_of_nonneg hp]

theorem ushiftRight_eq_ofInt (x : BitVec w) (k : Nat) :
    x >>> k = ofInt w (x.toNat / 2 ^ k) := by
  rw [← ofInt_toNat (x >>> k), BitVec.toNat_ushiftRight, Nat.shiftRight_eq_div_pow,
    Int.natCast_ediv, Nat.cast_pow, Nat.cast_ofNat]

theorem sshiftRight_eq_ofInt (x : BitVec w) (k : Nat) :
    x.sshiftRight k = ofInt w (x.toInt / 2 ^ k) := by
  rw [← @ofInt_toInt w (x.sshiftRight k), BitVec.toInt_sshiftRight,
    Int.shiftRight_eq_div_pow, Nat.cast_pow, Nat.cast_ofNat]

end Words

end WideProduct
