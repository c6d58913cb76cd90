import QtRvSim.Library.DecodeTree
import Mathlib.Data.List.Range

/-!
# Split bit fields

A field of a machine word whose bits lie in several contiguous pieces, the piece with the lowest
bits first, and that holds a multiple of a power of two.  Every law follows from where the bits are:
bit `k` of the field's number is bit `positions[k]` of the word.
-/

namespace BitField

variable {n : Nat}

/-- The word that holds a value in the field and zeros elsewhere. -/
def encode (f : BitField) (x : BitVec n) : BitVec n :=
  (x &&& BitVec.ofNat n (2 ^ f.count - 1)) <<< f.offset

theorem getLsbD_encode (f : BitField) (x : BitVec n) (i : Nat) :
    (f.encode x).getLsbD i = true ↔
      i < n ∧ ∃ k, k < f.count ∧ i = f.offset + k ∧ x.getLsbD k = true := by
  simp only [encode, BitVec.getLsbD_shiftLeft, BitVec.getLsbD_and, BitVec.getLsbD_ofNat,
    Nat.testBit_two_pow_sub_one, Bool.and_eq_true, decide_eq_true_eq, Bool.not_eq_true',
    decide_eq_false_iff_not]
  constructor
  · rintro ⟨⟨hi, hlow⟩, hbit, -, hk⟩
    exact ⟨hi, i - f.offset, hk, by omega, hbit⟩
  · rintro ⟨hi, k, hk, rfl, hbit⟩
    rw [Nat.add_sub_cancel_left]
    exact ⟨⟨hi, by omega⟩, hbit, by omega, hk⟩

theorem getLsbD_decode (f : BitField) (w : BitVec n) (k : Nat) :
    (f.decode w).getLsbD k = true ↔ k < f.count ∧ w.getLsbD (f.offset + k) = true := by
  simp only [decode, BitVec.getLsbD_and, BitVec.getLsbD_ushiftRight, BitVec.getLsbD_ofNat,
    Nat.testBit_two_pow_sub_one, Bool.and_eq_true, decide_eq_true_eq]
  constructor
  · rintro ⟨hbit, -, hk⟩
    exact ⟨hk, hbit⟩
  · rintro ⟨hk, hbit⟩
    have hin := BitVec.lt_of_getLsbD hbit
    exact ⟨hbit, by omega, hk⟩

end BitField

/-- A field in pieces; its numbers are multiples of `2 ^ shift`. -/
structure SplitBitField where
  fields : List BitField
  shift : Nat
deriving DecidableEq, Repr

namespace SplitBitField

variable {n : Nat}

/-- Distributes the low bits of a number over the pieces. -/
def encodeFields : List BitField → BitVec n → BitVec n
  | [], _ => 0#n
  | f :: fs, x => f.encode x ||| encodeFields fs (x >>> f.count)

/-- Collects the pieces of a word into a number, `offset` bits of which are already there. -/
def decodeFields (w : BitVec n) : List BitField → BitVec n → Nat → BitVec n
  | [], ret, _ => ret
  | f :: fs, ret, offset => decodeFields w fs (ret ||| f.decode w <<< offset) (offset + f.count)

def encode (a : SplitBitField) (x : BitVec n) : BitVec n :=
  encodeFields a.fields (x >>> a.shift)

def decode (a : SplitBitField) (w : BitVec n) : BitVec n :=
  decodeFields w a.fields 0#n 0 <<< a.shift

def mask (a : SplitBitField) (n : Nat) : BitVec n :=
  a.encode (BitVec.allOnes n)

/-! ### Positions of the bits -/

/-- Where the bits of some pieces lie in the word, lowest first. -/
def positionsOf (fs : List BitField) : List Nat :=
  fs.flatMap fun f => List.range' f.offset f.count

def positions (a : SplitBitField) : List Nat :=
  positionsOf a.fields

/-- The field fits into a word of `n` bits and no two of its bits coincide. -/
def WellFormed (a : SplitBitField) (n : Nat) : Prop :=
  a.positions.Nodup ∧ (∀ i ∈ a.positions, i < n) ∧ a.shift + a.positions.length ≤ n

instance (a : SplitBitField) (n : Nat) : Decidable (a.WellFormed n) :=
  inferInstanceAs (Decidable (_ ∧ _))

theorem getElem?_positionsOf_cons (f : BitField) (fs : List BitField) (k i : Nat) :
    (positionsOf (f :: fs))[k]? = some i ↔
      (k < f.count ∧ i = f.offset + k) ∨
        (f.count ≤ k ∧ (positionsOf fs)[k - f.count]? = some i) := by
  rw [positionsOf, List.flatMap_cons, List.getElem?_append, List.length_range']
  split
  next hk =>
    rw [List.getElem?_range' hk, Option.some.injEq]
    constructor
    · intro hi
      exact .inl ⟨hk, by omega⟩
    · rintro (⟨-, hi⟩ | ⟨hle, -⟩) <;> omega
  next hk =>
    constructor
    · intro hi
      exact .inr ⟨by omega, hi⟩
    · rintro (⟨hlt, -⟩ | ⟨-, hi⟩)
      · exact absurd hlt hk
      · exact hi

theorem getLsbD_encodeFields (fs : List BitField) (x : BitVec n) (i : Nat) :
    (encodeFields fs x).getLsbD i = true ↔
      i < n ∧ ∃ k, (positionsOf fs)[k]? = some i ∧ x.getLsbD k = true := by
  induction fs generalizing x with
  | nil => simp [encodeFields, positionsOf]
  | cons f fs ih =>
    simp only [encodeFields, BitVec.getLsbD_or, Bool.or_eq_true, BitField.getLsbD_encode, ih,
      getElem?_positionsOf_cons, BitVec.getLsbD_ushiftRight]
    constructor
    · rintro (⟨hi, k, hk, rfl, hbit⟩ | ⟨hi, k, hpos, hbit⟩)
      · exact ⟨hi, k, .inl ⟨hk, rfl⟩, hbit⟩
      · exact ⟨hi, f.count + k, .inr ⟨by omega, by rwa [Nat.add_sub_cancel_left]⟩, hbit⟩
    · rintro ⟨hi, k, ⟨hk, rfl⟩ | ⟨hk, hpos⟩, hbit⟩
      · exact .inl ⟨hi, k, hk, rfl, hbit⟩
      · exact .inr ⟨hi, k - f.count, hpos, by rwa [Nat.add_sub_cancel' hk]⟩

theorem getLsbD_decodeFields (w : BitVec n) (fs : List BitField) (ret : BitVec n)
    (offset k : Nat) :
    (decodeFields w fs ret offset).getLsbD k = true ↔
      ret.getLsbD k = true ∨
        k < n ∧ offset ≤ k ∧
          ∃ i, (positionsOf fs)[k - offset]? = some i ∧ w.getLsbD i = true := by
  induction fs generalizing ret offset with
  | nil => simp [decodeFields, positionsOf]
  | cons f fs ih =>
    simp only [decodeFields, ih, BitVec.getLsbD_or, Bool.or_eq_true, BitVec.getLsbD_shiftLeft,
      Bool.and_eq_true, decide_eq_true_eq, Bool.not_eq_true', decide_eq_false_iff_not,
      BitField.getLsbD_decode, getElem?_positionsOf_cons, or_assoc]
    apply or_congr_right
    constructor
    · rintro (⟨⟨hk, hoff⟩, hcount, hbit⟩ | ⟨hk, hoff, i, hpos, hbit⟩)
      · exact ⟨hk, by omega, _, .inl ⟨hcount, rfl⟩, hbit⟩
      · exact ⟨hk, by omega, i, .inr ⟨by omega, by rwa [Nat.sub_sub]⟩, hbit⟩
    · rintro ⟨hk, hoff, i, ⟨hcount, rfl⟩ | ⟨hcount, hpos⟩, hbit⟩
      · exact .inl ⟨⟨hk, by omega⟩, hcount, hbit⟩
      · exact .inr ⟨hk, by omega, i, by rwa [Nat.sub_sub] at hpos, hbit⟩

/-- Bit `k` of the field's number goes to bit `positions[k]` of the word. -/
theorem getLsbD_encode (a : SplitBitField) (x : BitVec n) (i : Nat) :
    (a.encode x).getLsbD i = true ↔
      i < n ∧ ∃ k, a.positions[k]? = some i ∧ x.getLsbD (a.shift + k) = true := by
  rw [encode, getLsbD_encodeFields]
  simp only [BitVec.getLsbD_ushiftRight, positions]

/-- Bit `k` of the field's number comes from bit `positions[k]` of the word. -/
theorem getLsbD_decode (a : SplitBitField) (w : BitVec n) (j : Nat) :
    (a.decode w).getLsbD j = true ↔
      j < n ∧ a.shift ≤ j ∧
        ∃ i, a.positions[j - a.shift]? = some i ∧ w.getLsbD i = true := by
  simp only [decode, BitVec.getLsbD_shiftLeft, Bool.and_eq_true, decide_eq_true_eq,
    Bool.not_eq_true', decide_eq_false_iff_not, getLsbD_decodeFields, positions,
    BitVec.getLsbD_zero, Bool.false_eq_true, false_or, Nat.zero_le, true_and, Nat.sub_zero,
    Nat.not_lt]
  constructor
  · rintro ⟨⟨hj, hshift⟩, -, h⟩
    exact ⟨hj, hshift, h⟩
  · rintro ⟨hj, hshift, h⟩
    exact ⟨⟨hj, hshift⟩, by omega, h⟩

/-! ### Laws of fields that fit into the word -/

variable {a : SplitBitField}

variable (h : a.WellFormed n)
include h

theorem getLsbD_mask (i : Nat) : (a.mask n).getLsbD i = true ↔ i ∈ a.positions := by
  obtain ⟨-, hbound, hlen⟩ := h
  rw [mask, getLsbD_encode, List.mem_iff_getElem?]
  constructor
  · rintro ⟨-, k, hpos, -⟩
    exact ⟨k, hpos⟩
  · rintro ⟨k, hpos⟩
    have hk := (List.getElem?_eq_some_iff.mp hpos).1
    refine ⟨hbound i (List.mem_of_getElem? hpos), k, hpos, ?_⟩
    rw [BitVec.getLsbD_allOnes, decide_eq_true_eq]
    omega
/-- The number in a field depends on the bits of the field only. -/
theorem decode_and_mask (w : BitVec n) : a.decode (w &&& a.mask n) = a.decode w := by
  apply BitVec.eq_of_getLsbD_eq
  intro j _
  rw [Bool.eq_iff_iff, getLsbD_decode, getLsbD_decode]
  simp only [BitVec.getLsbD_and, Bool.and_eq_true, getLsbD_mask h]
  constructor
  · rintro ⟨hj, hshift, i, hpos, hbit, -⟩
    exact ⟨hj, hshift, i, hpos, hbit⟩
  · rintro ⟨hj, hshift, i, hpos, hbit⟩
    exact ⟨hj, hshift, i, hpos, hbit, List.mem_of_getElem? hpos⟩

/-- Words that agree on the bits of a field hold the same number there. -/
theorem decode_congr {v w : BitVec n} (hvw : v &&& a.mask n = w &&& a.mask n) :
    a.decode v = a.decode w := by
  rw [← decode_and_mask h v, hvw, decode_and_mask h]

/-- A field that is cleared and filled in again holds the new number. -/
theorem decode_fill (w x : BitVec n) :
    a.decode (w &&& ~~~a.mask n ||| a.encode x) = a.decode (a.encode x) := by
  have hclear : ~~~a.mask n &&& a.mask n = 0#n := BitVec.not_and_self _
  apply decode_congr h
  rw [BitVec.and_or_distrib_right, BitVec.and_assoc, hclear, BitVec.and_zero, BitVec.zero_or]

/-- Reading back an encoded number gives the bits that fit into the field. -/
theorem getLsbD_decode_encode (x : BitVec n) (j : Nat) :
    (a.decode (a.encode x)).getLsbD j = true ↔
      a.shift ≤ j ∧ j < a.shift + a.positions.length ∧ x.getLsbD j = true := by
  obtain ⟨hnodup, hbound, hlen⟩ := h
  simp only [getLsbD_decode, getLsbD_encode]
  constructor
  · rintro ⟨-, hshift, i, hpos, -, k, hpos', hbit⟩
    have hlt := (List.getElem?_eq_some_iff.mp hpos).1
    have hlt' := (List.getElem?_eq_some_iff.mp hpos').1
    -- the positions are distinct, so both numbers are that of the same bit
    have hk : k = j - a.shift := (List.getElem?_inj hlt' hnodup).mp (hpos'.trans hpos.symm)
    rw [hk, Nat.add_sub_cancel' hshift] at hbit
    exact ⟨hshift, by omega, hbit⟩
  · rintro ⟨hshift, hlt, hbit⟩
    have hk : j - a.shift < a.positions.length := by omega
    refine ⟨by omega, hshift, _, List.getElem?_eq_getElem hk,
      hbound _ (List.getElem_mem hk), _, List.getElem?_eq_getElem hk, ?_⟩
    rwa [Nat.add_sub_cancel' hshift]

theorem toNat_decode_encode (x : BitVec n) :
    (a.decode (a.encode x)).toNat =
      x.toNat / 2 ^ a.shift % 2 ^ a.positions.length * 2 ^ a.shift := by
  apply Nat.eq_of_testBit_eq
  intro j
  rw [← BitVec.getLsbD, Bool.eq_iff_iff, getLsbD_decode_encode h, Nat.testBit_mul_two_pow,
    Nat.testBit_mod_two_pow, Nat.testBit_div_two_pow]
  simp only [Bool.and_eq_true, decide_eq_true_eq, BitVec.getLsbD]
  constructor
  · rintro ⟨hshift, hlt, hbit⟩
    exact ⟨hshift, by omega, by rwa [Nat.sub_add_cancel hshift]⟩
  · rintro ⟨hshift, hlt, hbit⟩
    exact ⟨hshift, by omega, by rwa [Nat.sub_add_cancel hshift] at hbit⟩

end SplitBitField
