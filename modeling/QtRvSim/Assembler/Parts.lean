import QtRvSim.Assembler.Resolution
import QtRvSim.Library.SplitNumber

/-!
# Upper and lower parts of values

The operators `%hi`, `%lo`, `%pcrel_hi`, `%pcrel_lo` and the parts of the pseudo instructions all
split a value at bit 12, so that the upper part compensates the sign of the lower one.  An operand
field keeps the parts modulo the bits it has.
-/

namespace QtRvSim

open SplitNumber BitVec FmeUnaryOp

/-! ### Bits of values -/

variable (val : BitVec 64)

theorem toNat_getBits {start stop : Nat} (hstart : start < 64) (hstop : stop ≤ start) :
    (getBits val start stop).toNat = val.toNat / 2 ^ stop % 2 ^ (start - stop + 1) := by
  have hle : 2 ^ (start - stop + 1) ≤ 2 ^ 64 := Nat.pow_le_pow_right (by decide) (by omega)
  have hpos : 0 < 2 ^ (start - stop + 1) := Nat.two_pow_pos _
  rw [getBits, maskBits, getBitmask, shiftLeft_zero, toNat_and,
    toNat_ushiftRight, toNat_ofNat, Nat.sub_zero, Nat.mod_eq_of_lt (by omega),
    Nat.and_two_pow_sub_one_eq_mod, Nat.shiftRight_eq_div_pow]

theorem toNat_getBit (bitIndex : Nat) :
    (getBit val bitIndex).toNat = val.toNat / 2 ^ bitIndex % 2 := by
  rw [getBit, toNat_and, toNat_ushiftRight, Nat.shiftRight_eq_div_pow]
  exact Nat.and_one_is_mod _

theorem toInt_signExtendBits_twelve : (signExtendBits val 12).toInt = lower 12 val.toInt := by
  have hval := val.isLt
  rw [signExtendBits, toInt_sshiftRight, toInt_shiftLeft, Nat.shiftLeft_eq,
    Int.shiftRight_eq_div_pow, lower, toInt_eq_toNat_bmod]
  simp only [Int.bmod_def]
  omega

/-! ### Parts -/

theorem toNat_composedImmUpper :
    ((modifyPseudoinstImm .composedImmUpper val).toNat : Int) ≡
      upper 12 val.toInt [ZMOD 2 ^ 20] := by
  have hval := val.isLt
  rw [modifyPseudoinstImm, toNat_add, toNat_getBits _ (by decide) (by decide),
    toNat_getBit, upper_succ, toInt_eq_toNat_cond, Int.ModEq]
  split <;> omega

variable (s : FmeValue) (instAddr : Address)

theorem toNat_apply_hi :
    ((hi.apply s instAddr).toNat : Int) ≡ upper 12 s.toInt [ZMOD 2 ^ 20] ∧
      (hi.apply s instAddr).toNat < 2 ^ 20 := by
  have hs := s.isLt
  have hround : (0x800 : BitVec 64).toNat = 2048 := rfl
  rw [apply, toNat_getBits _ (by decide) (by decide), toNat_add, hround,
    upper_succ, toInt_eq_toNat_cond, Int.ModEq]
  split <;> omega

theorem toNat_apply_pcrelHi :
    ((pcrelHi.apply s instAddr).toNat : Int) ≡
        upper 12 (s - instAddr).toInt [ZMOD 2 ^ 20] ∧
      (pcrelHi.apply s instAddr).toNat ≤ 2 ^ 20 := by
  refine ⟨toNat_composedImmUpper (s - instAddr), ?_⟩
  rw [apply, toNat_add, toNat_getBits _ (by decide) (by decide), toNat_getBit]
  omega

theorem toInt_apply_lo : (lo.apply s instAddr).toInt = lower 12 s.toInt := by
  have hs := s.isLt
  rw [apply, toInt_signExtendBits_twelve, lower, lower, toInt_eq_toNat_bmod,
    toInt_eq_toNat_bmod, toNat_getBits _ (by decide) (by decide)]
  simp only [Int.bmod_def]
  omega

/-- The operator at the second instruction of a pair is relative to the first. -/
theorem apply_pcrelLo :
    pcrelLo.apply s (instAddr + 4) = lo.apply (s - instAddr) 0 := by
  have h : s - (instAddr + 4) + 4 = s - instAddr := by
    apply eq_of_toNat_eq
    have hs := s.isLt
    have haddr := instAddr.isLt
    have hfour : (4 : BitVec 64).toNat = 4 := rfl
    rw [toNat_add, toNat_sub, toNat_sub, toNat_add, hfour]
    omega
  simp only [apply, h]

end QtRvSim
