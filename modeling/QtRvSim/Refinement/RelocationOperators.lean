import QtRvSim.Assembler.Parts
import QtRvSim.Refinement.ExpressionValue

/-!
# Relocation operators

An upper immediate with `%hi` or `%pcrel_hi` of a symbol and an operand with `%lo` or `%pcrel_lo` of
the same symbol: both relocations are accepted, whatever the value of the symbol is, and the two
fields together hold the value, or its distance from the first instruction.
-/

namespace QtRvSim

open SplitNumber SimpleAsm

/-- The letter of an operand for the lower part: of an I-type word, alone or before a base register,
or of an S-type word. -/
def IsLowerLetter (letter : Char) : Prop :=
  letter = 'j' ∨ letter = 'o' ∨ letter = 'q'

def ArgumentDesc.fieldOf (desc : ArgumentDesc) (word : Instruction) : Nat :=
  (desc.arg.decode word).toNat

/-- A relocation without errors: the word at its location gets the value modulo the bits of its
field, and the errors stay as they are. -/
structure Accepted (endian : Endian) (desc : ArgumentDesc) (location : Address) (value : FmeValue)
    (a a' : SimpleAsm) : Prop where
  field : desc.fieldOf (a'.wordAt endian location) = value.toNat % 2 ^ desc.arg.positions.length
  errors : a'.errorOccured = a.errorOccured ∧ a'.messages = a.messages

variable {endian : Endian} {a : SimpleAsm} {desc : ArgumentDesc} {name : Text} {s : FmeValue}
  {p : Address} {filename : Text} {line : Nat}

/-- The relocation of a modified symbol in an operand of the line. -/
def modifierReloc (p : Address) (filename : Text) (line : Nat) (desc : ArgumentDesc)
    (op : FmeUnaryOp) (name : Text) : RelocExpression :=
  (operandContext p filename line).reloc desc (modifierText op name) 0

/-- The relocation of a modified symbol whose value the operand takes. -/
theorem resolve_modifier (hfatal : a.fatalOccured = false) (hname : IsSymbolName name)
    (hs : a.symtab name = some s) {op : FmeUnaryOp} (hop : op.isModifier = true)
    (hdesc : desc ∈ argDescList) (hshift : desc.arg.shift = 0)
    (haccepts : (modifierReloc p filename line desc op name).accepts (op.apply s p) = true) :
    ∃ a', a.resolve endian (modifierReloc p filename line desc op name) = some a' ∧
      Accepted endian desc p (op.apply s p) a a' := by
  have heval : (FmeNode.unaryOp 190 op (.symbol name)).eval a.symtab p =
      .ok (op.apply s p) := by
    rw [FmeNode.eval, FmeNode.eval, hs]
  have hmod : (modifierReloc p filename line desc op name).pseudoMod = .none := by
    show (operandContext p filename line).effectiveMod desc = .none
    rw [FieldContext.effectiveMod, operandContext, ite_self]
  have hupdate : Instruction.update (a.wordAt endian p) (op.apply s p)
      (modifierReloc p filename line desc op name) =
        (true, a.wordAt endian p &&& ~~~desc.arg.mask 32 |||
          desc.arg.encode ((op.apply s p).setWidth 32)) := by
    have hoffset : op.apply s p + (modifierReloc p filename line desc op name).offset =
        op.apply s p := BitVec.add_zero _
    rw [Instruction.update, hmod, hoffset, haccepts, if_neg (by decide), if_pos rfl]
    rfl
  refine ⟨_, resolve_accepted (Expression.parse_modifier hop hname) heval hupdate, ?_,
    (writeU32_frame _ _ _ _).2.2.2⟩
  have hlocation : (modifierReloc p filename line desc op name).location = p := rfl
  have hlength : ∀ desc ∈ argDescList, desc.arg.positions.length ≤ 32 := by
    decide
  have hdvd : 2 ^ desc.arg.positions.length ∣ 2 ^ 32 := Nat.pow_dvd_pow 2 (hlength desc hdesc)
  rw [ArgumentDesc.fieldOf, hlocation, wordAt_writeU32 hfatal,
    SplitBitField.decode_fill (argDesc_wellFormed desc hdesc),
    SplitBitField.toNat_decode_encode (argDesc_wellFormed desc hdesc), hshift, pow_zero,
    Nat.div_one, Nat.mul_one, BitVec.toNat_setWidth, Nat.mod_mod_of_dvd _ hdvd]

theorem isValue_of_number (hkind : desc.kind = .n ∨ desc.kind = .o) :
    desc.kind.isValue = true := by
  rcases hkind with hkind | hkind <;> rw [hkind] <;> rfl

/-- Numbers and offsets are not relative to the instruction. -/
theorem origin_of_number (hkind : desc.kind = .n ∨ desc.kind = .o) (ctx : FieldContext) :
    ctx.origin desc = ctx.initialImmediateValue := by
  unfold FieldContext.origin
  rcases hkind with hkind | hkind <;> rw [hkind]

/-! ### Pairs -/

/-- The operand texts leave a relocation each, both relocations are accepted, and the fields hold a
number together. -/
structure PairRecomposes (endian : Endian) (a : SimpleAsm) (upperDesc lowerDesc : ArgumentDesc)
    (p q : Address) (upperText lowerText : Text) (filename : Text) (upperLine lowerLine : Nat)
    (rest : Text) (x : BitVec 64) : Prop where
  resolved : ∃ r₁ r₂ a',
    parseOperand (operandContext p filename upperLine) upperDesc upperText (some []) =
        (.ok (0, []), some [r₁]) ∧
      parseOperand (operandContext q filename lowerLine) lowerDesc (lowerText ++ rest)
        (some [r₁]) = (.ok (0, rest), some [r₁, r₂]) ∧
      SimpleAsm.resolveAll endian [r₁, r₂] a = some a' ∧
      a'.errorOccured = a.errorOccured ∧ a'.messages = a.messages ∧
      (upperDesc.fieldOf (a'.wordAt endian p) : Int) * 2 ^ 12 +
          (lowerDesc.fieldOf (a'.wordAt endian q) : Int).bmod (2 ^ 12) ≡ x.toInt [ZMOD 2 ^ 32]

/-- Descriptions of the upper operand and of the lower ones. -/
theorem pair_descs {upperDesc lowerDesc : ArgumentDesc} {letter : Char}
    (hu : argDescByCode 'u' = some upperDesc) (hletter : IsLowerLetter letter)
    (hl : argDescByCode letter = some lowerDesc) :
    (upperDesc ∈ argDescList ∧ upperDesc.kind = .n ∧ upperDesc.arg.shift = 0 ∧
        upperDesc.arg.positions.length = 20 ∧ upperDesc.min = 0 ∧ upperDesc.max = 0xfffff000) ∧
      lowerDesc ∈ argDescList ∧ (lowerDesc.kind = .n ∨ lowerDesc.kind = .o) ∧
        lowerDesc.arg.shift = 0 ∧ lowerDesc.arg.positions.length = 12 ∧
        lowerDesc.min = -0x800 ∧ lowerDesc.max = 0x7ff := by
  constructor
  · cases hu
    decide
  · rcases hletter with rfl | rfl | rfl
    · cases hl
      decide
    · cases hl
      decide
    · cases hl
      decide

/-- A pair of operators whose values are the parts of one number. -/
theorem pairRecomposes_of_parts (hfatal : a.fatalOccured = false) (hname : IsSymbolName name)
    (hs : a.symtab name = some s) {upperOp lowerOp : FmeUnaryOp}
    (hupperOp : upperOp.isModifier = true) (hlowerOp : lowerOp.isModifier = true)
    {upperDesc lowerDesc : ArgumentDesc} {letter : Char}
    (hu : argDescByCode 'u' = some upperDesc) (hletter : IsLowerLetter letter)
    (hl : argDescByCode letter = some lowerDesc) {q : Address} (hpq : WordsApart p q)
    {x : BitVec 64}
    (hupper : ((upperOp.apply s p).toNat : Int) ≡ upper 12 x.toInt [ZMOD 2 ^ 20] ∧
      (upperOp.apply s p).toNat ≤ 2 ^ 20)
    (hlower : (lowerOp.apply s q).toInt = lower 12 x.toInt)
    (filename : Text) (upperLine lowerLine : Nat) {rest : Text} (hrest : EndsExpression rest) :
    PairRecomposes endian a upperDesc lowerDesc p q (modifierText upperOp name)
      (modifierText lowerOp name) filename upperLine lowerLine rest x := by
  obtain ⟨⟨humem, hukind, hushift, hulength, humin, humax⟩,
    hlmem, hlkind, hlshift, hllength, hlmin, hlmax⟩ := pair_descs hu hletter hl
  have hupperRead := @parseOperand_modifier (operandContext p filename upperLine) _ humem
    (isValue_of_number (.inl hukind)) _ hupperOp _ [] hname (.inl rfl) []
  have hlowerRead := @parseOperand_modifier (operandContext q filename lowerLine) _ hlmem
    (isValue_of_number hlkind) _ hlowerOp _ _ hname hrest
    [modifierReloc p filename upperLine upperDesc upperOp name]
  rw [List.append_nil, origin_of_number (.inl hukind)] at hupperRead
  rw [origin_of_number hlkind] at hlowerRead
  have hupperAccepts : (modifierReloc p filename upperLine upperDesc upperOp name).accepts
      (upperOp.apply s p) = true := by
    apply RelocExpression.accepts_of_mem hushift
    show if upperDesc.min < 0 then _ else upperDesc.min.toNat ≤ _ ∧ _ ≤ upperDesc.max.toNat
    rw [humin, humax, if_neg (by decide)]
    exact ⟨Nat.zero_le _, hupper.2.trans (by decide)⟩
  have hlowerAccepts : (modifierReloc q filename lowerLine lowerDesc lowerOp name).accepts
      (lowerOp.apply s q) = true := by
    have hle := Int.le_bmod (x := x.toInt) (m := 2 ^ 12) (by decide)
    have hlt := Int.bmod_lt (x := x.toInt) (m := 2 ^ 12) (by decide)
    apply RelocExpression.accepts_of_mem hlshift
    show if lowerDesc.min < 0 then lowerDesc.min ≤ _ ∧ _ ≤ lowerDesc.max else _
    rw [hlmin, hlmax, if_pos (by decide), hlower, lower]
    omega
  obtain ⟨a₁, hresolve₁, hfield₁, herrors₁⟩ :
      ∃ a₁, a.resolve endian (modifierReloc p filename upperLine upperDesc upperOp name) = some a₁ ∧
        Accepted endian upperDesc p (upperOp.apply s p) a a₁ :=
    resolve_modifier hfatal hname hs hupperOp humem hushift hupperAccepts
  have hframe₁ := resolve_frame hresolve₁
  obtain ⟨a₂, hresolve₂, hfield₂, herrors₂⟩ :
      ∃ a₂, a₁.resolve endian (modifierReloc q filename lowerLine lowerDesc lowerOp name) =
          some a₂ ∧ Accepted endian lowerDesc q (lowerOp.apply s q) a₁ a₂ :=
    resolve_modifier (hframe₁.fatalOccured.trans hfatal) hname
      ((congrFun hframe₁.symtab name).trans hs) hlowerOp hlmem hlshift hlowerAccepts
  -- the second relocation leaves the first word alone
  have hkeep := (resolve_frame hresolve₂).word p hpq
  refine ⟨_, _, a₂, hupperRead, hlowerRead, ?_, herrors₂.1.trans herrors₁.1,
    herrors₂.2.trans herrors₁.2, ?_⟩
  · rw [resolveAll]
    show (a.resolve endian (modifierReloc p filename upperLine upperDesc upperOp name)).bind _ = _
    rw [hresolve₁, Option.bind_some, resolveAll]
    show (a₁.resolve endian (modifierReloc q filename lowerLine lowerDesc lowerOp name)).bind _ = _
    rw [hresolve₂]
    rfl
  · have hlowerField : (lowerDesc.fieldOf (a₂.wordAt endian q) : Int).bmod (2 ^ 12) =
        lower 12 x.toInt := by
      have hnat := (lowerOp.apply s q).isLt
      have hlower' := hlower
      rw [hfield₂, hllength]
      rw [lower, BitVec.toInt_eq_toNat_cond] at hlower'
      simp only [lower, Int.bmod_def] at hlower' ⊢
      split at hlower' <;> omega
    rw [hlowerField, hkeep, hfield₁, hulength]
    have hkept : (((upperOp.apply s p).toNat % 2 ^ 20 : Nat) : Int) ≡
        upper 12 x.toInt [ZMOD 2 ^ 20] :=
      (Int.mod_modEq _ _).trans hupper.1
    exact recompose_modEq 12 x.toInt hkept

/-- `%hi` with `%lo` and `%pcrel_hi` with `%pcrel_lo` recompose the value of a symbol. -/
theorem relocationOperators_recompose (endian : Endian) (a : SimpleAsm)
    (hfatal : a.fatalOccured = false) (name : Text) (hname : IsSymbolName name) (s : FmeValue)
    (hs : a.symtab name = some s) (upperDesc lowerDesc : ArgumentDesc) (letter : Char)
    (hu : argDescByCode 'u' = some upperDesc) (hletter : IsLowerLetter letter)
    (hl : argDescByCode letter = some lowerDesc) (filename : Text) (upperLine lowerLine : Nat)
    (rest : Text) (hrest : EndsExpression rest) (p : Address) :
    (∀ q, WordsApart p q →
      PairRecomposes endian a upperDesc lowerDesc p q (modifierText .hi name)
        (modifierText .lo name) filename upperLine lowerLine rest s) ∧
      PairRecomposes endian a upperDesc lowerDesc p (p + 4) (modifierText .pcrelHi name)
        (modifierText .pcrelLo name) filename upperLine lowerLine rest (s - p) := by
  constructor
  · intro q hpq
    have hhi := toNat_apply_hi s p
    exact pairRecomposes_of_parts hfatal hname hs rfl rfl hu hletter hl hpq
      ⟨hhi.1, hhi.2.le⟩ (toInt_apply_lo s q) _ _ _ hrest
  · have hlower : (FmeUnaryOp.pcrelLo.apply s (p + 4)).toInt = lower 12 (s - p).toInt := by
      rw [apply_pcrelLo, toInt_apply_lo]
    exact pairRecomposes_of_parts hfatal hname hs rfl rfl hu hletter hl (wordsApart_add_four p).2
      (toNat_apply_pcrelHi s p) hlower _ _ _ hrest

/-- `lui` with `%hi` and a store with `%lo`, and the same with the distance from `auipc`, for a
symbol whose lower part is negative. -/
theorem relocationOperators_recompose_store :
    PairRecomposes .little
        (SimpleAsm.setup ⟨fun _ => 0⟩ (fun _ => some 0x12345fff) 0x200 ._32)
        ⟨'u', .n, 0, 0xfffff000, ⟨[⟨20, 12⟩], 0⟩⟩ ⟨'q', .o, -0x800, 0x7ff, ⟨[⟨5, 7⟩, ⟨7, 25⟩], 0⟩⟩
        0x200 0x208 (modifierText .hi "buffer".toList) (modifierText .lo "buffer".toList)
        "main.S".toList 1 3 "(x5)".toList 0x12345fff ∧
      PairRecomposes .little
        (SimpleAsm.setup ⟨fun _ => 0⟩ (fun _ => some 0x12345fff) 0x200 ._32)
        ⟨'u', .n, 0, 0xfffff000, ⟨[⟨20, 12⟩], 0⟩⟩ ⟨'q', .o, -0x800, 0x7ff, ⟨[⟨5, 7⟩, ⟨7, 25⟩], 0⟩⟩
        0x200 (0x200 + 4) (modifierText .pcrelHi "buffer".toList)
        (modifierText .pcrelLo "buffer".toList)
        "main.S".toList 1 3 "(x5)".toList (0x12345fff - 0x200) := by
  have h := relocationOperators_recompose .little
    (setup ⟨fun _ => 0⟩ (fun _ => some 0x12345fff) 0x200 ._32) rfl "buffer".toList
    (by decide) 0x12345fff (by decide) _ _ 'q' rfl (.inr (.inr rfl)) rfl "main.S".toList 1 3
    "(x5)".toList (.inr ⟨_, rfl⟩) 0x200
  exact ⟨h.1 0x208 (wordsApart_of_aligned (by decide) (by decide) (by decide)), h.2⟩

end QtRvSim
