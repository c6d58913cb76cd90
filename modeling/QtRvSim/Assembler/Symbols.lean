import QtRvSim.Assembler.SimpleAsm

/-!
# Symbols in operands

A symbol name, alone or under one of the modifiers `%hi`, `%lo`, `%pcrel_hi` and `%pcrel_lo`, is
read as a relocation whose expression is the text itself and evaluates to what the operator makes of
the symbol's value.
-/

namespace QtRvSim

open Numeral

structure IsSymbolName (name : Text) : Prop where
  nonempty : name ≠ []
  word : ∀ c ∈ name, isWordChar c = true
  start : ∀ c ∈ name.head?, c.isDigit = false

instance (name : Text) : Decidable (IsSymbolName name) :=
  decidable_of_iff (name ≠ [] ∧ name.all isWordChar = true ∧
      name.head?.all (fun c => !c.isDigit) = true)
    ⟨fun h => ⟨h.1, List.all_eq_true.mp h.2.1, fun c hc => by
        have hstart := h.2.2
        rw [Option.mem_def.mp hc] at hstart
        simpa using hstart⟩,
      fun h => ⟨h.1, List.all_eq_true.mpr h.2, by
        rcases hhead : name.head? with _ | c
        · rfl
        · simpa using h.3 c hhead⟩⟩

/-! ### Characters -/

theorem not_mem_of_isWordChar {c : Char} (h : isWordChar c = true) {other : Text}
    (hother : other.any isWordChar = false) : c ∉ other := by
  intro hmem
  exact List.any_eq_false.mp hother c hmem h

/-! ### Reading the expression -/

/-- The text is over or goes on with the bracket of the next operand. -/
def EndsExpression (rest : Text) : Prop :=
  rest = [] ∨ ∃ tail, rest = '(' :: tail

variable {rest : Text}

theorem readRelocChars_of_ends (h : EndsExpression rest) :
    readRelocChars rest false false = ([], 0) := by
  rcases h with rfl | ⟨tail, rfl⟩ <;> rfl

/-- A word character is taken as it is. -/
theorem readRelocChars_word {c : Char} (hc : isWordChar c = true) (rest : Text)
    (prevWasOperator isModifier : Bool) :
    readRelocChars (c :: rest) prevWasOperator isModifier =
      (c :: (readRelocChars rest false isModifier).1,
        (readRelocChars rest false isModifier).2 + 1) := by
  have hopen : (c == '(') = false := by
    rw [beq_eq_false_iff_ne]
    rintro rfl
    exact absurd hc (by decide)
  have hpercent : (c == '%') = false := by
    rw [beq_eq_false_iff_ne]
    rintro rfl
    exact absurd hc (by decide)
  have hoperator : relocOperators.contains c = false := by
    rw [List.contains_eq_mem, decide_eq_false_iff_not]
    exact not_mem_of_isWordChar hc (by decide)
  have hword : (c.isAlphanum || relocSpecialChars.contains c) = true := by
    simp only [isWordChar, Bool.or_eq_true, beq_iff_eq] at hc ⊢
    rcases hc with hc | rfl
    · exact .inl hc
    · exact .inr (by decide)
  rw [readRelocChars]
  simp only [hoperator, hopen, hpercent, Bool.false_and, Bool.or_false, hword, Bool.false_eq_true,
    if_false, if_true, Bool.not_false, Bool.and_true]

variable {name : Text}

theorem readRelocChars_words (hname : ∀ c ∈ name, isWordChar c = true) (rest : Text)
    (isModifier : Bool) :
    readRelocChars (name ++ rest) false isModifier =
      (name ++ (readRelocChars rest false isModifier).1,
        name.length + (readRelocChars rest false isModifier).2) := by
  induction name with
  | nil => simp
  | cons c name ih =>
    rw [List.cons_append, readRelocChars_word (hname c List.mem_cons_self),
      ih (fun d hd => hname d (List.mem_cons_of_mem _ hd)), List.length_cons]
    simp only [List.cons_append, Prod.mk.injEq, true_and]
    omega

def StartsExpression (text : Text) : Prop :=
  text.head?.any (fun c => c.isDigit || c == '-') = false

def ArgumentKind.isValue : ArgumentKind → Bool
  | .n | .a | .p | .o => true
  | .g | .e => false

/-- What an operand's number is added to. -/
def FieldContext.origin (ctx : FieldContext) (desc : ArgumentDesc) : BitVec 64 :=
  match desc.kind with
  | .p | .a => ctx.initialImmediateValue - ctx.instAddr
  | _ => ctx.initialImmediateValue

theorem readOperand_value (ctx : FieldContext) {desc : ArgumentDesc}
    (hkind : desc.kind.isValue = true) (fieldToken : Text) (reloc : RelocExpressionList) :
    readOperand ctx desc fieldToken reloc =
      parseImmediateValue ctx desc fieldToken (ctx.origin desc) reloc := by
  unfold readOperand FieldContext.origin
  cases h : desc.kind with
  | g | e => cases h ▸ hkind
  | n | a | p | o => rfl

/-- An operand of an instruction line, read as it stands. -/
def operandContext (address : Address) (filename : Text) (line : Nat) : FieldContext :=
  { instAddr := address
    filename := filename
    line := line
    pseudoMod := .none
    initialImmediateValue := 0 }

/-- An expression in an immediate operand leaves a relocation and nothing in the word. -/
theorem parseOperand_expression {ctx : FieldContext} {desc : ArgumentDesc}
    (hdesc : desc ∈ argDescList) (hkind : desc.kind.isValue = true) {expression : Text}
    (hne : expression ≠ []) (hstart : StartsExpression (expression ++ rest))
    (hread : readRelocExpression (expression ++ rest) = (expression, expression.length))
    (rs : List RelocExpression) :
    parseOperand ctx desc (expression ++ rest) (some rs) =
      (.ok (0, rest), some (rs ++ [ctx.reloc desc expression (ctx.origin desc)])) := by
  have hoperand : readOperand ctx desc (expression ++ rest) (some rs) =
      (⟨0, expression.length⟩,
        some (rs ++ [ctx.reloc desc expression (ctx.origin desc)])) := by
    rw [readOperand_value ctx hkind, parseImmediateValue, hstart, Option.isNone_some,
      Bool.or_false, if_neg Bool.false_ne_true, parseExpression, relocAppend, hread]
    dsimp only
    rw [if_neg hne]
  have hlen : expression.length ≠ 0 := fun h => hne (List.eq_nil_of_length_eq_zero h)
  obtain ⟨hrange, hencode⟩ := argDesc_zero desc hdesc
  have hmodify : ∀ mod, (modifyPseudoinstImm mod 0).setWidth 32 = 0#32 := by
    intro mod
    cases mod with
    | none | composedImmUpper | composedImmLower => rfl
  rw [parseOperand, hoperand]
  dsimp only
  rw [if_neg hlen, List.drop_left]
  split
  · rw [hmodify, hencode]
    rfl
  · exact congrArg (fun bits => (Except.ok (bits, rest), _)) hencode
/-! ### Modifiers -/

def FmeUnaryOp.isModifier : FmeUnaryOp → Bool
  | .hi | .lo | .pcrelHi | .pcrelLo => true
  | .not | .neg => false

def modifierText (op : FmeUnaryOp) (name : Text) : Text :=
  op.description ++ '(' :: (name ++ [')'])

theorem FmeUnaryOp.description_modifier {op : FmeUnaryOp} (hop : op.isModifier = true) :
    ∃ letters : Text, (∀ c ∈ letters, isWordChar c = true) ∧ op.description = '%' :: letters := by
  cases op with
  | hi | lo | pcrelHi | pcrelLo => exact ⟨_, List.all_eq_true.mp (by decide), rfl⟩
  | not | neg => cases hop

/-- A modified symbol is read as a whole, with its brackets. -/
theorem readRelocExpression_modifier {op : FmeUnaryOp} (hop : op.isModifier = true)
    (hname : IsSymbolName name) (hrest : EndsExpression rest) :
    readRelocExpression (modifierText op name ++ rest) =
      (modifierText op name, (modifierText op name).length) := by
  obtain ⟨letters, hletters, htext⟩ := FmeUnaryOp.description_modifier hop
  have hclose : readRelocChars (')' :: rest) false false = ([')'], 1) := by
    have hstep : readRelocChars (')' :: rest) false false =
        (')' :: (readRelocChars rest false false).1, (readRelocChars rest false false).2 + 1) := rfl
    rw [hstep, readRelocChars_of_ends hrest]
  have hopen : readRelocChars ('(' :: (name ++ ')' :: rest)) false true =
      ('(' :: (name ++ [')']), name.length + 2) := by
    have hstep : ∀ tail, readRelocChars ('(' :: tail) false true =
        ('(' :: (readRelocChars tail false false).1, (readRelocChars tail false false).2 + 1) :=
      fun _ => rfl
    rw [hstep, readRelocChars_words hname.word, hclose]
  have hpercent : ∀ tail, readRelocChars ('%' :: tail) false false =
      ('%' :: (readRelocChars tail false true).1, (readRelocChars tail false true).2 + 1) :=
    fun _ => rfl
  have hshape : modifierText op name ++ rest =
      '%' :: (letters ++ '(' :: (name ++ ')' :: rest)) := by
    simp only [modifierText, htext, List.cons_append, List.append_assoc, List.nil_append]
  rw [readRelocExpression, hshape, hpercent, readRelocChars_words hletters, hopen, modifierText,
    htext]
  simp only [List.cons_append, List.length_cons, List.length_append, List.length_nil]

/-- A modified symbol in an immediate operand. -/
theorem parseOperand_modifier {ctx : FieldContext} {desc : ArgumentDesc}
    (hdesc : desc ∈ argDescList) (hkind : desc.kind.isValue = true) {op : FmeUnaryOp}
    (hop : op.isModifier = true) {name rest : Text} (hname : IsSymbolName name)
    (hrest : EndsExpression rest) (rs : List RelocExpression) :
    parseOperand ctx desc (modifierText op name ++ rest) (some rs) =
      (.ok (0, rest),
        some (rs ++ [ctx.reloc desc (modifierText op name) (ctx.origin desc)])) := by
  obtain ⟨letters, -, hletters⟩ := FmeUnaryOp.description_modifier hop
  refine parseOperand_expression hdesc hkind ?_ ?_
    (readRelocExpression_modifier hop hname hrest) rs
  · rw [modifierText, hletters]
    exact List.cons_ne_nil _ _
  · rw [StartsExpression, modifierText, hletters]
    rfl

/-! ### The expression's tree -/

namespace FmeParser

/-- Word characters are collected. -/
theorem run_words {name : Text} (hname : ∀ c ∈ name, isWordChar c = true) (rest : Text)
    (p : FmeParser) : run (name ++ rest) 0 p = run rest 0 { p with word := p.word ++ name } := by
  induction name generalizing p with
  | nil => rw [List.nil_append, List.append_nil]
  | cons c name ih =>
    rw [List.cons_append, run, if_pos (hname c List.mem_cons_self),
      ih (fun d hd => hname d (List.mem_cons_of_mem _ hd)), List.append_assoc,
      List.singleton_append]

end FmeParser

end QtRvSim
