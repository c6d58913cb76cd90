import QtRvSim.Assembler.Tokens

/-!
# Register operands

The texts that are taken for a register, in every place of an instruction's format that stands for
one (`parse_reg_from_string`).
-/

namespace QtRvSim

open Numeral
open BitVec (ofNat)

/-! ### White space -/

variable {text : Text}

theorem trimmed_eq_nil_iff : trimmed text = [] ↔ ∀ c ∈ text, isSpace c = true := by
  rw [trimmed, List.reverse_eq_nil_iff, List.dropWhile_eq_nil_iff]
  constructor
  · intro h c hc
    rw [← List.takeWhile_append_dropWhile (p := isSpace) (l := text)] at hc
    rcases List.mem_append.mp hc with htaken | hleft
    · exact List.mem_takeWhile_imp htaken
    · exact h c (List.mem_reverse.mpr hleft)
  · intro h c hc
    exact h c ((List.dropWhile_sublist _).mem (List.mem_reverse.mp hc))

variable {c : Char}

theorem isSpace_getLast_trimmed (hc : (trimmed text).getLast? = some c) : isSpace c = false := by
  have hfirst := List.head?_dropWhile_not isSpace (text.dropWhile isSpace).reverse
  rw [trimmed, List.getLast?_reverse] at hc
  rwa [hc] at hfirst

theorem trimmed_concat (text : Text) (hc : isSpace c = false) :
    trimmed (text ++ [c]) = (text ++ [c]).dropWhile isSpace := by
  have hkept : (text ++ [c]).dropWhile isSpace = text.dropWhile isSpace ++ [c] := by
    rw [List.dropWhile_append]
    split
    next hempty => rw [List.isEmpty_iff.mp hempty, List.dropWhile_cons_of_neg (by simp [hc])]; rfl
    next => rfl
  rw [trimmed, hkept, List.reverse_concat, List.dropWhile_cons_of_neg (by simp [hc]),
    List.reverse_cons, List.reverse_reverse]

/-! ### The rest of a template -/

/-- What may follow a register in a template. -/
def IsRegisterEnd (post : Text) : Prop :=
  post = [] ∨ post = [')']

/-- A place of a format that stands for a register, and what follows it in its template. -/
structure RegisterPosition (ao : Char) (adesc : ArgumentDesc) (post : Text) : Prop where
  desc : argDescByCode ao = some adesc
  kind : adesc.kind = .g
  template : ∃ l ∈ InstructionMap.root.leaves [], ∃ format ∈ l.2.format :: l.2.aliases,
    ∃ arg ∈ format.args, ao :: post ∈ arg.toList.tails

/-- A tail of a template that starts with a register ends there or with a bracket. -/
def endsRegister : Text → Bool
  | [] => true
  | ao :: post => (argDescByCode ao).all fun adesc =>
    adesc.kind != .g || post == [] || post == [')']

theorem endsRegister_templates : ∀ l ∈ InstructionMap.root.leaves [],
    ∀ format ∈ l.2.format :: l.2.aliases, ∀ arg ∈ format.args,
      arg.toList.tails.all endsRegister = true := by
  decide +kernel

theorem RegisterPosition.isRegisterEnd {ao : Char} {adesc : ArgumentDesc} {post : Text}
    (h : RegisterPosition ao adesc post) : IsRegisterEnd post := by
  obtain ⟨l, hl, format, hformat, arg, harg, htail⟩ := h.template
  have hends := List.all_eq_true.mp (endsRegister_templates l hl format hformat arg harg) _ htail
  simpa [endsRegister, h.desc, h.kind, IsRegisterEnd] using hends

variable (ctx : FieldContext) {post blanks : Text}

/-- The text behind a register fits if nothing of the token is left. -/
theorem parseTemplate_end (left : Text) (hpost : IsRegisterEnd post)
    (hblanks : ∀ c ∈ blanks, isSpace c = true)
    (hleft : ∀ c, left.getLast? = some c → isSpace c = false) (instCode : BitVec 32)
    (reloc : RelocExpressionList) :
    if left = [] then
      parseTemplate ctx post (left ++ (blanks ++ post)) instCode reloc = (.ok instCode, reloc)
    else ∃ e, parseTemplate ctx post (left ++ (blanks ++ post)) instCode reloc =
      (.error e, reloc) := by
  have hsolid : left ≠ [] → ∃ c ∈ left, isSpace c = false := fun hne =>
    ⟨left.getLast hne, List.getLast_mem hne, hleft _ (List.getLast?_eq_some_getLast hne)⟩
  rcases hpost with rfl | rfl
  · rw [List.append_nil, parseTemplate]
    split
    next hnil => rw [if_pos (trimmed_eq_nil_iff.mpr (by simpa [hnil] using hblanks))]
    next hne =>
      obtain ⟨c, hc, hspace⟩ := hsolid hne
      rw [if_neg fun hnil => by
        simp [trimmed_eq_nil_iff.mp hnil c (List.mem_append_left _ hc)] at hspace]
      exact ⟨_, rfl⟩
  · have hdesc : argDescByCode ')' = none := rfl
    have htrimmed := trimmed_concat (left ++ blanks) (c := ')') rfl
    have hblank : (blanks ++ [')']).dropWhile isSpace = [')'] := by
      rw [List.dropWhile_append_of_pos hblanks]
      rfl
    rw [List.append_assoc] at htrimmed
    simp only [parseTemplate, hdesc, htrimmed]
    split
    next hnil => simp [hnil, hblank, trimmed]
    next hne =>
      obtain ⟨c, hc, hspace⟩ := hsolid hne
      rw [List.dropWhile_append, if_neg (by simpa using ⟨c, hc, hspace⟩)]
      rcases hkept : left.dropWhile isSpace with _ | ⟨d, kept⟩
      · simp [List.dropWhile_eq_nil_iff.mp hkept c hc] at hspace
      · dsimp only [List.cons_append]
        split
        · exact ⟨_, rfl⟩
        · rw [if_neg fun hnil => absurd (trimmed_eq_nil_iff.mp hnil ')' (by simp)) (by decide)]
          exact ⟨_, rfl⟩

/-! ### The register at the start of a text -/

def decimal (digits : Text) : Nat :=
  digits.foldl (fun n c => n * 10 + (c.toNat - '0'.toNat)) 0

theorem regNumber_eq (digits : Text) : regNumber digits = ofNat 32 (decimal digits) := by
  suffices h : ∀ n : Nat,
      digits.foldl (fun res c => res * 10 + ofNat 32 (c.toNat - '0'.toNat))
        (ofNat 32 n) =
      ofNat 32 (digits.foldl (fun n c => n * 10 + (c.toNat - '0'.toNat)) n) from h 0
  induction digits with
  | nil => exact fun _ => rfl
  | cons c digits ih =>
    intro n
    rw [List.foldl_cons, List.foldl_cons, ← ih, BitVec.ofNat_add, BitVec.ofNat_mul]
    rfl

theorem regByName_cases (str : Text) :
    regByName str = (-1, 0) ∨ ∃ r name, rvRegnames[r]? = some name ∧ name.toList <+: str ∧
      regByName str = (ofNat 32 r, name.length) := by
  suffices h : ∀ (regs : List (String × Nat)) (found : BitVec 32 × Nat),
      let result := regs.foldl (fun found reg =>
        if reg.1.toList.isPrefixOf str then (ofNat 32 reg.2, reg.1.length) else found) found
      result = found ∨ ∃ reg ∈ regs, reg.1.toList <+: str ∧
        result = (ofNat 32 reg.2, reg.1.length) by
    rcases h rvRegnames.zipIdx (-1, 0) with hnone | ⟨⟨name, r⟩, hmem, hprefix, heq⟩
    · exact .inl hnone
    · exact .inr ⟨r, name, List.mem_zipIdx_iff_getElem?.mp hmem, hprefix, heq⟩
  intro regs
  induction regs with
  | nil => exact fun found => .inl rfl
  | cons reg regs ih =>
    intro found
    rcases ih (if reg.1.toList.isPrefixOf str then (ofNat 32 reg.2, reg.1.length)
      else found) with hfirst | ⟨later, hmem, hprefix, heq⟩
    · dsimp only [List.foldl_cons] at hfirst ⊢
      rw [hfirst]
      split
      next hprefix =>
        exact .inr ⟨reg, List.mem_cons_self, List.isPrefixOf_iff_prefix.mp hprefix, rfl⟩
      next => exact .inl rfl
    · exact .inr ⟨later, List.mem_cons_of_mem _ hmem, hprefix, heq⟩

def isEndChar (c : Char) : Bool :=
  isSpace c || c == ')'

theorem rvRegnames_chars : ∀ name ∈ rvRegnames,
    (name.toList.all fun c => !isEndChar c) = true ∧ name.toList.head? ≠ some 'x' := by
  decide

/-- Of the names at the start of a name the name itself is found. -/
theorem regByName_name : ∀ reg ∈ rvRegnames.zipIdx,
    regByName reg.1.toList = (ofNat 32 reg.2, reg.1.length) ∧ 2 ≤ reg.1.toList.length ∧
      reg.2 < 32 := by
  decide +kernel

theorem prefix_of_append {w token suffix : Text} (h : w <+: token ++ suffix)
    (hw : ∀ c ∈ w, c ∉ suffix) : w <+: token := by
  rcases Nat.le_total w.length token.length with hle | hge
  · exact List.prefix_of_prefix_length_le h (List.prefix_append _ _) hle
  · obtain ⟨more, rfl⟩ := List.prefix_of_prefix_length_le (List.prefix_append _ _) h hge
    cases more with
    | nil => rw [List.append_nil]
    | cons c more =>
      have hc : c ∈ suffix := ((List.prefix_append_right_inj token).mp h).mem List.mem_cons_self
      exact absurd hc (hw c (by simp))

variable {token suffix : Text}

/-- The text after a token does not matter for the register names. -/
theorem name_prefix_append_iff (token : Text) (hsuffix : ∀ c ∈ suffix, isEndChar c = true)
    {name : String} (hname : name ∈ rvRegnames) :
    name.toList <+: token ++ suffix ↔ name.toList <+: token := by
  refine ⟨fun h => prefix_of_append h fun c hc hend => ?_, fun h =>
    h.trans (List.prefix_append _ _)⟩
  have hchar := List.all_eq_true.mp (rvRegnames_chars name hname).1 c hc
  simp [hsuffix c hend] at hchar

theorem regByName_append (hsuffix : ∀ c ∈ suffix, isEndChar c = true) :
    regByName (token ++ suffix) = regByName token := by
  refine List.foldl_ext _ _ _ fun found reg hreg => ?_
  have hname := name_prefix_append_iff token hsuffix (List.fst_mem_of_mem_zipIdx hreg)
  rw [← List.isPrefixOf_iff_prefix, ← List.isPrefixOf_iff_prefix] at hname
  simp only [hname]

theorem parseRegFromString_number (rest : Text) (hlength : rest ≠ []) :
    parseRegFromString ('x' :: rest) = (ofNat 32 (decimal (rest.takeWhile Char.isDigit)),
      1 + (rest.takeWhile Char.isDigit).length) := by
  have hpos := List.length_pos_iff.mpr hlength
  rw [parseRegFromString, if_neg (by rw [List.length_cons]; omega)]
  simp only [regNumber_eq]

theorem parseRegFromString_of_ne {str : Text} (hlength : 2 ≤ str.length)
    (hx : str.head? ≠ some 'x') : parseRegFromString str = regByName str := by
  rw [parseRegFromString, if_neg (Nat.not_lt.mpr hlength)]
  rintro rest rfl
  exact hx rfl

theorem isDigit_of_isEndChar (hc : isEndChar c = true) : c.isDigit = false := by
  rw [Bool.eq_false_iff]
  intro hdigit
  simp only [Char.isDigit, Bool.and_eq_true, decide_eq_true_eq, UInt32.le_iff_toNat_le] at hdigit
  simp only [isEndChar, isSpace, Bool.or_eq_true, Bool.and_eq_true, beq_iff_eq,
    decide_eq_true_eq] at hc
  rcases hc with (rfl | ⟨-, hhigh⟩) | rfl
  · exact absurd hdigit.1 (by decide)
  · exact absurd (hdigit.1.trans hhigh) (by decide)
  · exact absurd hdigit.1 (by decide)

theorem takeWhile_isDigit_append (hsuffix : ∀ c ∈ suffix, isEndChar c = true) :
    (token ++ suffix).takeWhile Char.isDigit = token.takeWhile Char.isDigit := by
  have hnone : suffix.takeWhile Char.isDigit = [] := by
    cases suffix with
    | nil => rfl
    | cons c suffix =>
      exact List.takeWhile_cons_of_neg
        (by simp [isDigit_of_isEndChar (hsuffix c List.mem_cons_self)])
  rw [List.takeWhile_append, hnone, List.append_nil]
  split
  next hlength => rw [(List.takeWhile_prefix _).eq_of_length hlength]
  next => rfl

inductive ReadAs (suffix : Text) : Text → Nat → Prop
  | name {r : Nat} {name : String} (hname : rvRegnames[r]? = some name) :
    ReadAs suffix name.toList r
  | number {digits : Text} (hdigits : digits.all Char.isDigit = true)
    (hsome : digits ≠ [] ∨ suffix ≠ []) (hrange : decimal digits % 2 ^ 32 < 32) :
    ReadAs suffix ('x' :: digits) (decimal digits % 2 ^ 32)

variable {r : Nat}

theorem ReadAs.parseRegFromString (h : ReadAs suffix token r)
    (hsuffix : ∀ c ∈ suffix, isEndChar c = true) :
    parseRegFromString (token ++ suffix) = (ofNat 32 r, token.length) ∧ r < 32 ∧
      token ≠ [] := by
  cases h with
  | @name _ name hname =>
    obtain ⟨heq, hlength, hr⟩ := regByName_name (name, r) (List.mem_zipIdx_iff_getElem?.mpr hname)
    dsimp only at heq hlength
    have hx := (rvRegnames_chars name (List.mem_of_getElem? hname)).2
    rcases hchars : name.toList with _ | ⟨first, rest⟩
    · rw [hchars] at hlength
      exact absurd hlength (by decide)
    · rw [hchars] at heq hlength hx
      have hstart : (first :: rest ++ suffix).head? ≠ some 'x' := hx
      refine ⟨?_, hr, List.cons_ne_nil _ _⟩
      rw [parseRegFromString_of_ne (hlength.trans (by simp)) hstart, regByName_append hsuffix, heq,
        ← hchars, String.length_toList]
  | @number digits hdigits hsome hrange =>
    have htaken : (digits ++ suffix).takeWhile Char.isDigit = digits := by
      rw [takeWhile_isDigit_append hsuffix, List.takeWhile_eq_self_iff]
      exact List.all_eq_true.mp hdigits
    have hne : digits ++ suffix ≠ [] := by
      rw [Ne, List.append_eq_nil_iff, not_and_or]
      exact hsome
    refine ⟨?_, hrange, List.cons_ne_nil _ _⟩
    rw [List.cons_append, parseRegFromString_number _ hne, htaken, List.length_cons, Nat.add_comm]
    exact Prod.ext (BitVec.eq_of_toNat_eq (by simp)) rfl

/-- A register takes no more than the token, and all of it only if the token is one. -/
theorem parseRegFromString_append (token : Text)
    (hsuffix : ∀ c ∈ suffix, isEndChar c = true) :
    (parseRegFromString (token ++ suffix)).2 ≤ token.length ∧
      ((parseRegFromString (token ++ suffix)).2 = token.length → token ≠ [] →
        (parseRegFromString (token ++ suffix)).1.toNat < 32 →
        ReadAs suffix token (parseRegFromString (token ++ suffix)).1.toNat) := by
  by_cases hlength : 2 ≤ (token ++ suffix).length
  · by_cases hx : (token ++ suffix).head? = some 'x'
    · cases token with
      | nil =>
        have hend := hsuffix 'x' (List.mem_of_head? hx)
        exact absurd hend (by decide)
      | cons c digits =>
        obtain rfl : c = 'x' := Option.some.inj hx
        have hne : digits ++ suffix ≠ [] :=
          List.ne_nil_of_length_pos (by rw [List.cons_append, List.length_cons] at hlength; omega)
        rw [List.cons_append, parseRegFromString_number _ hne, takeWhile_isDigit_append hsuffix,
          List.length_cons, Nat.add_comm]
        have htaken := List.takeWhile_prefix (l := digits) Char.isDigit
        refine ⟨Nat.succ_le_succ htaken.length_le, fun hall _ hrange => ?_⟩
        rw [htaken.eq_of_length (Nat.succ.inj hall)] at hrange ⊢
        refine .number (List.all_eq_true.mpr (List.takeWhile_eq_self_iff.mp
          (htaken.eq_of_length (Nat.succ.inj hall)))) ?_ hrange
        rwa [← not_and_or, ← List.append_eq_nil_iff]
    · rw [parseRegFromString_of_ne hlength hx, regByName_append hsuffix]
      rcases regByName_cases token with hnone | ⟨r, name, hname, hprefix, heq⟩
      · rw [hnone]
        exact ⟨Nat.zero_le _, fun hzero hne => absurd (List.length_eq_zero_iff.mp hzero.symm) hne⟩
      · rw [heq]
        have hle := hprefix.length_le
        rw [String.length_toList] at hle
        refine ⟨hle, fun hall _ _ => ?_⟩
        have hr := (regByName_name (name, r) (List.mem_zipIdx_iff_getElem?.mpr hname)).2.2
        rw [← hprefix.eq_of_length (String.length_toList.trans hall), BitVec.toNat_ofNat,
          Nat.mod_eq_of_lt (by omega)]
        exact .name hname
  · simp only [parseRegFromString, if_pos (Nat.not_le.mp hlength)]
    exact ⟨Nat.zero_le _, fun hzero hne => absurd (List.length_eq_zero_iff.mp hzero.symm) hne⟩

/-! ### Register operands -/

theorem registerDesc_range : ∀ adesc ∈ argDescList, adesc.kind = .g →
    adesc.min = 0 ∧ adesc.max = 0x1f := by
  decide

theorem toNat_signExtend_le_iff (reg : BitVec 32) :
    (reg.signExtend 64).toNat ≤ 31 ↔ reg.toNat < 32 := by
  have hlt := reg.isLt
  rw [BitVec.toNat_signExtend, BitVec.toNat_setWidth, BitVec.msb_eq_decide]
  split <;> simp_all <;> omega

variable {adesc : ArgumentDesc}

theorem parseOperand_register (hdesc : adesc ∈ argDescList)
    (hkind : adesc.kind = .g) (text : Text) (reloc : RelocExpressionList) :
    parseOperand ctx adesc text reloc =
      (if (parseRegFromString text).2 = 0 then .error .argumentParse
      else if (parseRegFromString text).1.toNat < 32 then
        .ok (adesc.arg.encode (parseRegFromString text).1, text.drop (parseRegFromString text).2)
      else .error .rangeExceed, reloc) := by
  obtain ⟨hmin, hmax⟩ := registerDesc_range adesc hdesc hkind
  have hmod : ctx.effectiveMod adesc = .none := by
    simp [FieldContext.effectiveMod, ArgumentDesc.isImm, hkind]
  have hrange (reg : BitVec 32) :
      adesc.isValueInFieldRange (reg.signExtend 64) = decide (reg.toNat < 32) := by
    rw [ArgumentDesc.isValueInFieldRange, hmin, hmax, if_neg (by decide)]
    simpa using toNat_signExtend_le_iff reg
  have hwidth (reg : BitVec 32) : (reg.signExtend 64).setWidth 32 = reg := by
    ext i hi
    rw [BitVec.getElem_setWidth, BitVec.getLsbD_signExtend]
    simp [hi, hi.trans (show 32 < 64 by decide)]
  simp only [parseOperand, readOperand, hkind, hmod, hrange, hwidth, unreadError]
  split_ifs <;> simp_all

/-- A register operand is accepted exactly if its token is read as a register. -/
theorem parseTemplate_register {ao : Char} (hposition : RegisterPosition ao adesc post)
    (htoken : trimmed token = token) (hblanks : ∀ c ∈ blanks, isSpace c = true)
    (htext : trimmed text = token ++ (blanks ++ post)) (instCode : BitVec 32)
    (reloc : RelocExpressionList) :
    (∀ r, ReadAs (blanks ++ post) token r → parseTemplate ctx (ao :: post) text instCode reloc =
      (.ok (instCode ||| adesc.arg.encode (ofNat 32 r)), reloc)) ∧
    ((∃ bits, (parseTemplate ctx (ao :: post) text instCode reloc).1 = .ok bits) →
      ∃ r, ReadAs (blanks ++ post) token r) := by
  have hpost := hposition.isRegisterEnd
  have hsuffix (c : Char) (hc : c ∈ blanks ++ post) : isEndChar c = true := by
    rcases List.mem_append.mp hc with hblank | hend
    · simp [isEndChar, hblanks c hblank]
    · rcases hpost with rfl | rfl
      · exact absurd hend List.not_mem_nil
      · rw [List.mem_singleton.mp hend]
        rfl
  have hoperand := parseOperand_register ctx
    (List.mem_of_find?_eq_some hposition.desc) hposition.kind (token ++ (blanks ++ post)) reloc
  constructor
  · intro r hr
    obtain ⟨hparse, hlt, hne⟩ := hr.parseRegFromString hsuffix
    have hrest := parseTemplate_end ctx [] hpost hblanks nofun
      (instCode ||| adesc.arg.encode (ofNat 32 r)) reloc
    have htaken : token.length ≠ 0 := mt List.length_eq_zero_iff.mp hne
    have hreg : (ofNat 32 r).toNat < 32 := by
      rwa [BitVec.toNat_ofNat, Nat.mod_eq_of_lt (by omega)]
    rw [hparse, if_neg htaken, if_pos hreg, List.drop_left] at hoperand
    simp only [parseTemplate, hposition.desc, htext, hoperand]
    exact hrest
  · rintro ⟨bits, hbits⟩
    obtain ⟨hle, hread⟩ := parseRegFromString_append token hsuffix
    generalize parseRegFromString (token ++ (blanks ++ post)) = read at *
    by_cases hzero : read.2 = 0
    · simp [parseTemplate, hposition.desc, htext, hoperand, if_pos hzero] at hbits
    by_cases hreg : read.1.toNat < 32
    · rw [if_neg hzero, if_pos hreg, List.drop_append_of_le_length hle] at hoperand
      simp only [parseTemplate, hposition.desc, htext, hoperand] at hbits
      have hrest := parseTemplate_end ctx (token.drop read.2) hpost hblanks
        (fun c hc => ?_) (instCode ||| adesc.arg.encode read.1) reloc
      · split at hrest
        next hnil =>
          have hall := Nat.le_antisymm hle (List.drop_eq_nil_iff.mp hnil)
          refine ⟨_, hread hall (fun hempty => hzero ?_) hreg⟩
          rw [hall, hempty, List.length_nil]
        next =>
          obtain ⟨e, he⟩ := hrest
          rw [he] at hbits
          cases hbits
      · rw [List.getLast?_drop] at hc
        split at hc
        next => cases hc
        next => exact isSpace_getLast_trimmed (htoken.symm ▸ hc)
    · simp [parseTemplate, hposition.desc, htext, hoperand, if_neg hzero, if_neg hreg] at hbits

/-- A number in decimal, without leading zeros. -/
structure IsNumeral (digits : Text) (n : Nat) : Prop where
  isDigits : digits.all Char.isDigit = true
  nonempty : digits ≠ []
  canonical : digits.head? = some '0' → digits = ['0']
  value : decimal digits = n

/-- The names of a register: `x` with its number, and the name of the calling convention. -/
def RegisterName (token : Text) (r : Nat) : Prop :=
  (∃ name, rvRegnames[r]? = some name ∧ name.toList = token) ∨
    r < 32 ∧ ∃ digits, token = 'x' :: digits ∧ IsNumeral digits r

/-- Tokens that are read as a register without being the name of one: `x` alone in front of a
bracket, a number with leading zeros, and a number beyond 32 bits that is small modulo `2 ^ 32`. -/
def Misread (post token : Text) : Prop :=
  ∃ digits, token = 'x' :: digits ∧ digits.all Char.isDigit = true ∧
    decimal digits % 2 ^ 32 < 32 ∧
    if digits = [] then post ≠ []
    else digits.head? = some '0' ∧ digits ≠ ['0'] ∨ 2 ^ 32 ≤ decimal digits

theorem RegisterName.readAs (h : RegisterName token r) : ReadAs suffix token r := by
  rcases h with ⟨name, hname, rfl⟩ | ⟨hr, digits, rfl, hnumeral⟩
  · exact .name hname
  · have hvalue : decimal digits % 2 ^ 32 = r := by
      rw [hnumeral.value, Nat.mod_eq_of_lt (by omega)]
    have hread : ReadAs suffix ('x' :: digits) _ :=
      .number hnumeral.isDigits (.inl hnumeral.nonempty) (hvalue.symm ▸ hr)
    rwa [hvalue] at hread

theorem Misread.readAs (h : Misread post token) (hsuffix : suffix = [] ↔ post = []) :
    ReadAs suffix token (decimal token.tail % 2 ^ 32) := by
  obtain ⟨digits, rfl, hdigits, hrange, hwrong⟩ := h
  refine .number hdigits ?_ hrange
  split at hwrong
  next => exact .inr (mt hsuffix.mp hwrong)
  next hne => exact .inl hne

theorem not_registerName_of_misread (h : Misread post token) (r : Nat) : ¬RegisterName token r := by
  obtain ⟨digits, rfl, -, -, hwrong⟩ := h
  rintro (⟨name, hname, htoken⟩ | ⟨hr, digits', heq, hnumeral⟩)
  · exact (rvRegnames_chars name (List.mem_of_getElem? hname)).2 (htoken ▸ rfl)
  · obtain rfl := (List.cons.inj heq).2
    rw [if_neg hnumeral.nonempty, hnumeral.value] at hwrong
    rcases hwrong with ⟨hzero, hne⟩ | hlarge
    · exact hne (hnumeral.canonical hzero)
    · omega

theorem ReadAs.registerName (h : ReadAs suffix token r) (hsuffix : suffix = [] ↔ post = [])
    (hread : ¬Misread post token) : RegisterName token r := by
  cases h with
  | name hname => exact .inl ⟨_, hname, rfl⟩
  | @number digits hdigits hsome hrange =>
    have hright := fun hwrong => hread ⟨digits, rfl, hdigits, hrange, hwrong⟩
    split at hright
    next hnil => exact absurd (fun hpost => hsome.elim (absurd hnil) (· (hsuffix.mpr hpost))) hright
    next hne =>
      rw [imp_false, not_or, not_and, not_not, Nat.not_le] at hright
      rw [Nat.mod_eq_of_lt hright.2] at hrange ⊢
      exact .inr ⟨hrange, digits, rfl, hdigits, hne, hright.1, rfl⟩

end QtRvSim
