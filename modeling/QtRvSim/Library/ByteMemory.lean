import Mathlib.Data.BitVec
import Mathlib.Data.List.Basic
import Mathlib.Logic.Function.Basic

/-!
# Byte-addressed memories

A flat memory is a function from addresses to bytes.  Ranges of bytes are read and written with
addresses that wrap around, and byte lists are turned into numbers in either byte order.
-/

inductive Endian where
  | little
  | big
deriving DecidableEq, Repr

namespace ByteMemory

open BitVec (toNat_ofNat ofNat)

variable {w : Nat}

def readBytes (m : BitVec w → BitVec 8) (a : BitVec w) (n : Nat) : List (BitVec 8) :=
  (List.range n).map fun i => m (a + BitVec.ofNat w i)

/-- The memory with a list of bytes stored from an address on. -/
def writeBytes (m : BitVec w → BitVec 8) (a : BitVec w) (bs : List (BitVec 8)) :
    BitVec w → BitVec 8 :=
  fun x => bs.getD (x - a).toNat (m x)

variable (m : BitVec w → BitVec 8) (a : BitVec w)

@[simp]
theorem readBytes_length (n : Nat) : (readBytes m a n).length = n := by
  simp [readBytes]

variable {bs : List (BitVec 8)}

/-- A write leaves the bytes outside its range alone. -/
theorem writeBytes_of_outside {a x : BitVec w} (houtside : bs.length ≤ (x - a).toNat) :
    writeBytes m a bs x = m x := by
  rw [writeBytes, List.getD_eq_getElem?_getD, List.getElem?_eq_none houtside, Option.getD_none]

/-- Value of a list of bytes, least significant byte first. -/
def littleValue : List (BitVec 8) → Nat
  | [] => 0
  | b :: bs => b.toNat + 256 * littleValue bs

/-- The `n` low bytes of a number, least significant byte first. -/
def littleBytes : Nat → Nat → List (BitVec 8)
  | 0, _ => []
  | n + 1, v => BitVec.ofNat 8 v :: littleBytes n (v / 256)

def valueOfBytes (endian : Endian) (bs : List (BitVec 8)) : Nat :=
  match endian with
  | .little => littleValue bs
  | .big => littleValue bs.reverse

def bytesOfValue (endian : Endian) (n v : Nat) : List (BitVec 8) :=
  match endian with
  | .little => littleBytes n v
  | .big => (littleBytes n v).reverse

@[simp]
theorem littleBytes_length (n v : Nat) : (littleBytes n v).length = n := by
  induction n generalizing v with
  | zero => rfl
  | succ n ih => simp [littleBytes, ih]

@[simp]
theorem bytesOfValue_length (endian : Endian) (n v : Nat) :
    (bytesOfValue endian n v).length = n := by
  cases endian <;> simp [bytesOfValue]

theorem littleValue_lt (bs : List (BitVec 8)) : littleValue bs < 256 ^ bs.length := by
  induction bs with
  | nil => exact Nat.one_pos
  | cons b bs ih =>
    have hb := b.isLt
    rw [littleValue, List.length_cons, Nat.pow_succ]
    omega

/-- A number is read back modulo the size of its bytes. -/
theorem littleValue_littleBytes (n v : Nat) : littleValue (littleBytes n v) = v % 256 ^ n := by
  induction n generalizing v with
  | zero => rw [Nat.pow_zero, Nat.mod_one]; rfl
  | succ n ih =>
    have hsplit : v % 256 ^ (n + 1) = v % 256 + 256 * (v / 256 % 256 ^ n) := by
      rw [Nat.pow_succ', Nat.mod_mul]
    rw [littleBytes, littleValue, ih, toNat_ofNat, hsplit]

/-- A list of bytes is read back from its value. -/
theorem littleBytes_littleValue (bs : List (BitVec 8)) :
    littleBytes bs.length (littleValue bs) = bs := by
  induction bs with
  | nil => rfl
  | cons b bs ih =>
    have hb := b.isLt
    have hdiv : (b.toNat + 256 * littleValue bs) / 256 = littleValue bs := by omega
    have hlow : ofNat 8 (b.toNat + 256 * littleValue bs) = b := by
      apply BitVec.eq_of_toNat_eq
      rw [toNat_ofNat]
      omega
    rw [littleValue, List.length_cons, littleBytes, hdiv, ih, hlow]

/-- Bits below 256 are set in the first byte. -/
theorem littleBytes_or (n v c : Nat) (hc : c < 256) :
    littleBytes (n + 1) (v ||| c) =
      (ofNat 8 v ||| ofNat 8 c) :: littleBytes n (v / 256) := by
  have hdiv : (v ||| c) / 256 = v / 256 := by
    rw [show 256 = 2 ^ 8 by rfl, Nat.or_div_two_pow, Nat.div_eq_of_lt hc, Nat.or_zero]
  rw [littleBytes, hdiv, BitVec.ofNat_or]

/-- Reading what was just written. -/
theorem readBytes_writeBytes (hfits : bs.length ≤ 2 ^ w) :
    readBytes (writeBytes m a bs) a bs.length = bs := by
  apply List.ext_getElem (readBytes_length _ _ _)
  intro i hi hbs
  have hlt : i % 2 ^ w = i := Nat.mod_eq_of_lt (Nat.lt_of_lt_of_le hbs hfits)
  simp [readBytes, writeBytes, hlt, hbs]

/-- Bytes that are written back where they were read change nothing. -/
theorem writeBytes_readBytes (n : Nat) : writeBytes m a (readBytes m a n) = m := by
  funext x
  by_cases hx : (x - a).toNat < n
  · have hcancel : a + (x - a) = x := by
      rw [BitVec.add_comm, BitVec.sub_add_cancel]
    rw [writeBytes, readBytes, List.getD_eq_getElem?_getD, List.getElem?_map,
      List.getElem?_range hx, Option.map_some, Option.getD_some, BitVec.ofNat_toNat,
      BitVec.setWidth_eq, hcancel]
  · exact writeBytes_of_outside m (by simpa using hx)
/-- The first byte of a write. -/
theorem writeBytes_cons (b c : BitVec 8) (bs : List (BitVec 8)) :
    writeBytes m a (c :: bs) = Function.update (writeBytes m a (b :: bs)) a c := by
  funext x
  by_cases hx : x = a
  · subst hx
    simp [writeBytes]
  · have hpos : (x - a).toNat ≠ 0 := by
      intro hzero
      have hsub : x - a = 0#w := BitVec.eq_of_toNat_eq (by simpa using hzero)
      apply hx
      simpa [hsub] using (BitVec.sub_add_cancel x a).symm
    obtain ⟨i, hi⟩ := Nat.exists_eq_succ_of_ne_zero hpos
    rw [Function.update_of_ne hx, writeBytes, writeBytes, hi, List.getD_cons_succ,
      List.getD_cons_succ]

/-- A read of bytes that a write does not touch. -/
theorem readBytes_writeBytes_of_outside {a x : BitVec w} {n : Nat}
    (houtside : ∀ i < n, bs.length ≤ (x + ofNat w i - a).toNat) :
    readBytes (writeBytes m a bs) x n = readBytes m x n := by
  apply List.map_congr_left
  intro i hi
  exact writeBytes_of_outside m (houtside i (List.mem_range.mp hi))

/-- Different multiples of a size are at least the size apart. -/
theorem le_offset_of_dvd {n i : Nat} {a x : BitVec w} (hn : n ∣ 2 ^ w) (ha : n ∣ a.toNat)
    (hx : n ∣ x.toNat) (hne : x ≠ a) (hi : i < n) : n ≤ (x + ofNat w i - a).toNat := by
  have hdvd : n ∣ (x - a).toNat := by
    rw [BitVec.toNat_sub]
    exact (Nat.dvd_mod_iff hn).mpr (Nat.dvd_add (Nat.dvd_sub hn ha) hx)
  have hpos : 0 < (x - a).toNat := by
    apply Nat.pos_of_ne_zero
    intro hzero
    apply hne
    have hsub : x - a = 0#w := BitVec.eq_of_toNat_eq (by simpa using hzero)
    simpa [hsub] using (BitVec.sub_add_cancel x a).symm
  have hle : n ≤ (x - a).toNat := Nat.le_of_dvd hpos hdvd
  have hroom : n ≤ 2 ^ w - (x - a).toNat :=
    Nat.le_of_dvd (Nat.sub_pos_of_lt (x - a).isLt) (Nat.dvd_sub hn hdvd)
  have hlt := (x - a).isLt
  have hshift : x + ofNat w i - a = (x - a) + ofNat w i := by
    rw [BitVec.sub_eq_add_neg, BitVec.sub_eq_add_neg, BitVec.add_assoc, BitVec.add_assoc,
      BitVec.add_comm (-a)]
  rw [hshift, BitVec.toNat_add, toNat_ofNat, Nat.mod_eq_of_lt (a := i) (by omega),
    Nat.mod_eq_of_lt (by omega)]
  omega

end ByteMemory
