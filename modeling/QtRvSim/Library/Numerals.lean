import Mathlib.Data.BitVec
import Mathlib.Data.List.TakeWhile

/-!
# Numerals of the C library

Reading a number from the start of a text the way `strtoll` and `strtoull` do with base 0 (sign,
`0x` for hexadecimal, `0` for octal, the longest run of digits).
-/

namespace Numeral

/-- White space of the C locale. -/
def isSpace (c : Char) : Bool :=
  c == ' ' || ('\t' ≤ c && c ≤ '\r')

/-- Value of a digit; the letters stand for ten and more. -/
def digitValue (c : Char) : Option Nat :=
  if '0' ≤ c ∧ c ≤ '9' then some (c.toNat - '0'.toNat)
  else if 'a' ≤ c ∧ c ≤ 'z' then some (c.toNat - 'a'.toNat + 10)
  else if 'A' ≤ c ∧ c ≤ 'Z' then some (c.toNat - 'A'.toNat + 10)
  else none

def isDigitOf (base : Nat) (c : Char) : Bool :=
  (digitValue c).any (· < base)

def valueOf (base : Nat) (digits : List Char) : Nat :=
  digits.foldl (fun value c => value * base + (digitValue c).getD 0) 0

/-- Base of a numeral without sign and the number of characters in front of its digits. -/
def radix : List Char → Nat × Nat
  | '0' :: x :: c :: _ => if (x == 'x' || x == 'X') && isDigitOf 16 c then (16, 2) else (8, 0)
  | '0' :: _ => (8, 0)
  | _ => (10, 0)

/-- Number at the start of a text, without a sign, and the number of characters read. -/
def scanMagnitude (text : List Char) : Option (Nat × Nat) :=
  let (base, skip) := radix text
  let digits := (text.drop skip).takeWhile (isDigitOf base)
  if digits = [] then none else some (valueOf base digits, skip + digits.length)

/-- A number read from the start of a text. -/
structure Scanned where
  negative : Bool
  magnitude : Nat
  length : Nat
deriving DecidableEq, Repr

def Scanned.value (s : Scanned) : Int :=
  if s.negative then -s.magnitude else s.magnitude

/-- Number at the start of a text, after white space and with an optional sign. -/
def scan (text : List Char) : Option Scanned :=
  let blanks := (text.takeWhile isSpace).length
  match text.drop blanks with
  | '-' :: rest => (scanMagnitude rest).map fun m => ⟨true, m.1, blanks + 1 + m.2⟩
  | '+' :: rest => (scanMagnitude rest).map fun m => ⟨false, m.1, blanks + 1 + m.2⟩
  | rest => (scanMagnitude rest).map fun m => ⟨false, m.1, blanks + m.2⟩

/-- `strtoll` with base 0: the value, saturated, and the number of characters read. -/
def strtoll (text : List Char) : BitVec 64 × Nat :=
  match scan text with
  | none => (0, 0)
  | some s =>
    (if s.value < -2 ^ 63 then BitVec.intMin 64
      else if 2 ^ 63 ≤ s.value then BitVec.intMax 64
      else BitVec.ofInt 64 s.value,
      s.length)

/-- `strtoull` with base 0; a sign negates the value modulo `2 ^ 64`. -/
def strtoull (text : List Char) : BitVec 64 × Nat :=
  match scan text with
  | none => (0, 0)
  | some s =>
    (if 2 ^ 64 ≤ s.magnitude then BitVec.allOnes 64 else BitVec.ofInt 64 s.value, s.length)

/-- A text as a signed number of 64 bits; white space at both ends is ignored. -/
def toLongLong (text : List Char) : Option (BitVec 64) :=
  match scan text with
  | none => none
  | some s =>
    if (text.drop s.length).all isSpace ∧ -2 ^ 63 ≤ s.value ∧ s.value < 2 ^ 63 then
      some (BitVec.ofInt 64 s.value)
    else none

/-! ### White space behind a number -/

theorem digitValue_of_isSpace {c : Char} (h : isSpace c = true) : digitValue c = none := by
  have hle : c ≤ ' ' := by
    rw [isSpace, Bool.or_eq_true, beq_iff_eq, Bool.and_eq_true, decide_eq_true_eq,
      decide_eq_true_eq] at h
    exact h.elim (fun heq => heq ▸ Char.le_refl ' ') fun hle => Char.le_trans hle.2 (by decide)
  have hbelow {d : Char} (hd : ' ' < d) (hdc : d ≤ c) : False :=
    Char.not_le.mpr hd (Char.le_trans hdc hle)
  rw [digitValue, if_neg fun hc => hbelow (by decide) hc.1,
    if_neg fun hc => hbelow (by decide) hc.1, if_neg fun hc => hbelow (by decide) hc.1]

theorem isDigitOf_of_isSpace {c : Char} (h : isSpace c = true) (base : Nat) :
    isDigitOf base c = false := by
  rw [isDigitOf, digitValue_of_isSpace h]
  rfl

variable {text blanks : List Char}

theorem radix_of_ne {c : Char} (h : c ≠ '0') (rest : List Char) : radix (c :: rest) = (10, 0) := by
  unfold radix
  split <;> first | rfl | exact absurd (List.cons.inj ‹_›).1 h

theorem radix_octal {y : Char} (h : isSpace y = true) (x : Char) (rest : List Char) :
    radix ('0' :: x :: y :: rest) = (8, 0) := by
  rw [radix, isDigitOf_of_isSpace h, Bool.and_false, if_neg Bool.false_ne_true]

/-- White space does not change the base. -/
theorem radix_append (hne : text ≠ []) (hblanks : ∀ c ∈ blanks, isSpace c = true) :
    radix (text ++ blanks) = radix text ∧ (radix text).2 ≤ text.length := by
  obtain ⟨c, t, rfl⟩ := List.exists_cons_of_ne_nil hne
  by_cases hzero : c = '0'
  · subst hzero
    match t, blanks, hblanks with
    | x :: y :: t, _, _ =>
      refine ⟨rfl, ?_⟩
      rw [radix]
      split <;> simp
    | [x], [], _ | [], [], _ | [], [_], _ => exact ⟨rfl, Nat.zero_le _⟩
    | [x], b :: _, h => exact ⟨radix_octal (h b List.mem_cons_self) _ _, Nat.zero_le _⟩
    | [], _ :: b :: _, h => exact ⟨radix_octal (h b (by simp)) _ _, Nat.zero_le _⟩
  · rw [List.cons_append, radix_of_ne hzero, radix_of_ne hzero]
    exact ⟨rfl, Nat.zero_le _⟩

theorem scanMagnitude_append (hne : text ≠ []) (hblanks : ∀ c ∈ blanks, isSpace c = true) :
    scanMagnitude (text ++ blanks) = scanMagnitude text := by
  obtain ⟨hradix, hskip⟩ := radix_append hne hblanks
  have hnone : blanks.takeWhile (isDigitOf (radix text).1) = [] := by
    cases blanks with
    | nil => rfl
    | cons c =>
      rw [List.takeWhile_cons_of_neg]
      rw [isDigitOf_of_isSpace (hblanks c List.mem_cons_self)]
      exact Bool.false_ne_true
  have hdigits : ((text ++ blanks).drop (radix text).2).takeWhile (isDigitOf (radix text).1) =
      (text.drop (radix text).2).takeWhile (isDigitOf (radix text).1) := by
    rw [List.drop_append_of_le_length hskip, List.takeWhile_append]
    split
    · rename_i hall
      rw [hnone, List.append_nil, (List.takeWhile_prefix _).eq_of_length hall]
    · rfl
  rw [scanMagnitude, scanMagnitude, hradix]
  dsimp only
  rw [hdigits]

/-- White space behind a number is ignored. -/
theorem toLongLong_append (hstart : text.head?.any Char.isDigit = true)
    (hblanks : ∀ c ∈ blanks, isSpace c = true) : toLongLong (text ++ blanks) = toLongLong text := by
  have hscan : scan (text ++ blanks) = scan text := by
    obtain ⟨c, rest, rfl⟩ : ∃ c rest, text = c :: rest := by
      cases text with
      | nil => cases hstart
      | cons c rest => exact ⟨c, rest, rfl⟩
    have hdigit : '0' ≤ c ∧ c ≤ '9' := by
      rw [List.head?_cons, Option.any_some, Char.isDigit, Bool.and_eq_true, decide_eq_true_eq,
        decide_eq_true_eq] at hstart
      exact hstart
    have hspace : ¬isSpace c = true := by
      intro h
      have hnone := digitValue_of_isSpace h
      rw [digitValue, if_pos hdigit] at hnone
      cases hnone
    have hplain (rest : List Char) : scan (c :: rest) =
        (scanMagnitude (c :: rest)).map fun m => ⟨false, m.1, m.2⟩ := by
      rw [scan, List.takeWhile_cons_of_neg hspace]
      split
      · rename_i heq
        cases heq
        exact absurd hdigit (by decide)
      · rename_i heq
        cases heq
        exact absurd hdigit (by decide)
      · simp
    rw [hplain, List.cons_append, hplain, ← List.cons_append,
      scanMagnitude_append (List.cons_ne_nil c rest) hblanks]
  have hrest (n : Nat) : ((text ++ blanks).drop n).all isSpace = (text.drop n).all isSpace := by
    have hall : (blanks.drop (n - text.length)).all isSpace = true :=
      List.all_eq_true.mpr fun c hc => hblanks c (List.mem_of_mem_drop hc)
    rw [List.drop_append, List.all_append, hall, Bool.and_true]
  simp only [toLongLong, hscan, hrest]

end Numeral
