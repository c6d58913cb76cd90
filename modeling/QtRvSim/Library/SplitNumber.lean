import Mathlib.Data.Int.ModEq
import Mathlib.Tactic.Positivity

/-!
# Numbers split into an upper and a signed lower part

A number is the sum of a multiple of `2 ^ m`, its upper part, and of a lower part that is taken as a
signed number of `m` bits.  If the upper part is kept modulo `2 ^ k` only, the sum is still right
modulo `2 ^ (m + k)`, and it is right as a signed number exactly if the upper part has `k` bits.
-/

namespace SplitNumber

/-- The lower part, a signed number of `m` bits. -/
def lower (m : Nat) (x : Int) : Int :=
  x.bmod (2 ^ m)

/-- The upper part, rounded so that the lower part can be signed. -/
def upper (m : Nat) (x : Int) : Int :=
  (x - lower m x) / 2 ^ m

variable (m : Nat) (x : Int)

theorem upper_mul_add_lower : upper m x * 2 ^ m + lower m x = x := by
  have hdvd : (2 : Int) ^ m ∣ x - lower m x := by
    have h := Int.dvd_self_sub_bmod (x := x) (m := 2 ^ m)
    rwa [Nat.cast_pow, Nat.cast_ofNat] at h
  rw [upper, Int.ediv_mul_cancel hdvd]
  omega

/-- The upper part is the quotient of the number rounded to the nearest multiple. -/
theorem upper_succ : upper (m + 1) x = (x + 2 ^ m) / 2 ^ (m + 1) := by
  have hpos : 0 < 2 ^ (m + 1) := Nat.two_pow_pos _
  have hsum := upper_mul_add_lower (m + 1) x
  have hle := Int.le_bmod (x := x) hpos
  have hlt := Int.bmod_lt (x := x) hpos
  rw [← lower, Nat.cast_pow, Nat.cast_ofNat, pow_succ] at hle hlt
  have hrest : (lower (m + 1) x + 2 ^ m) / 2 ^ (m + 1) = 0 := by
    apply Int.ediv_eq_zero_of_lt
    · omega
    · rw [pow_succ]
      omega
  calc upper (m + 1) x
      = (lower (m + 1) x + 2 ^ m) / 2 ^ (m + 1) + upper (m + 1) x := by
        rw [hrest, zero_add]
    _ = (lower (m + 1) x + 2 ^ m + upper (m + 1) x * 2 ^ (m + 1)) / 2 ^ (m + 1) :=
        (Int.add_mul_ediv_right _ _ (by positivity)).symm
    _ = (x + 2 ^ m) / 2 ^ (m + 1) := by
        congr 1
        omega

/-- The sum is right modulo the bits of both parts if the upper part is. -/
theorem recompose_modEq {k : Nat} {u : Int} (hu : u ≡ upper m x [ZMOD 2 ^ k]) :
    u * 2 ^ m + lower m x ≡ x [ZMOD 2 ^ (m + k)] := by
  have hmul : u * 2 ^ m ≡ upper m x * 2 ^ m [ZMOD 2 ^ k * 2 ^ m] := hu.mul_right'
  calc u * 2 ^ m + lower m x
      ≡ upper m x * 2 ^ m + lower m x [ZMOD 2 ^ (m + k)] := by
        rw [pow_add, mul_comm ((2 : Int) ^ m)]
        exact hmul.add_right _
    _ = x := upper_mul_add_lower m x

end SplitNumber
